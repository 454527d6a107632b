import CompliantContact.Simulation.Evaluation

/-!
Steps of a simulation.

A step evaluates the results of a context, moves its positions with the new velocities, and then
assigns the state and the time.
-/

namespace CompliantContact

variable {α : Type} [Scalar α]

namespace Simulator

variable (s : Simulator α) (c : Setting α)

def evalNextState : Staged α (Vec α) := do
  let r ← s.evalResults c
  let rates ← s.model.positionRates c.state.positions r.velocities
  return (c.state.positions + rates * s.timeStep) ++ r.velocities

def evalGeneralizedAccelerations : Staged α (Vec α) := do
  let r ← s.evalResults c
  return (r.velocities - c.state.velocities) / s.timeStep

def evalContactReports : Staged α (List (ContactReport α)) := do
  let pairs ← s.evalContactPairs c
  let p ← s.evalProblem c
  let r ← s.evalResults c
  contactReports pairs p r

end Simulator

namespace Context

/-- Carries out a computation on the cache of a context. -/
def run {β : Type} (c : Context α) (work : Staged α β) : Outcome α β × Context α :=
  match work c.cache with
  | (result, cache) => (result, { c with cache })

end Context

namespace Simulator

def advance (s : Simulator α) (c : Context α) : Outcome α Unit × Context α :=
  match c.run (s.evalNextState c.toSetting) with
  | (.error e, c) => (.error e, c)
  | (.ok x, c) => (Context.assignStep (c.time + s.timeStep) x).apply c

/-- Advances a context by up to `n` steps, and gives the number of steps made. -/
def advanceMany (s : Simulator α) : Nat → Context α → (Outcome α Unit × Nat) × Context α
  | 0, c => ((.ok (), 0), c)
  | n + 1, c =>
    match s.advance c with
    | (.error e, c) => ((.error e, 0), c)
    | (.ok (), c) =>
      match s.advanceMany n c with
      | ((result, steps), c) => ((result, steps + 1), c)

end Simulator

end CompliantContact
