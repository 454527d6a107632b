import CompliantContact.Config
import CompliantContact.Solver.System

/-!
Newton's method for the velocities of one step.

Each iteration takes a full Newton step and shortens it until the cost falls by a fixed share of what
the slope predicts, or the line search is out of tries. The iteration ends when the scaled residual is
within the tolerances; the budget of iterations makes sure that it ends.
-/

namespace CompliantContact

/-- The velocities found, and how the solve went. -/
structure Solution (α : Type) where
  /-- The velocities of the next step, or the last iterate of a solve that failed. -/
  v : Vec α
  impulses : Vec α
  velocities : Vec α
  status : SolveStatus
  iterations : Nat
  lineSearchIterations : Nat
  /-- The cost and the scaled residual; a solve that never started has none. -/
  cost : Option α
  residual : Option α
deriving DecidableEq

variable {α : Type} [Scalar α]

structure Iterate (α : Type) where
  v : Vec α
  evaluation : Evaluation α
  iterations : Nat
  lineSearchIterations : Nat

/-- A step along a direction, shortened by the line search. -/
structure Trial (α : Type) where
  step : α
  evaluation : Evaluation α
  tries : Nat

namespace System

/-- Whether a trial lowers the cost by enough, given the slope along the direction. -/
def accepts (config : SolverConfig α) (current : Evaluation α) (slope : α) (t : Trial α) : Bool :=
  t.evaluation.cost ≤ current.cost + config.armijo * t.step * slope

/-- Shortens a trial until it is accepted or no try remains. -/
def lineSearch (s : System α) (config : SolverConfig α) (v dv : Vec α) (current : Evaluation α)
    (slope : α) : Nat → Trial α → Trial α
  | 0, t => t
  | remaining + 1, t =>
    if accepts config current slope t then t
    else
      let step := t.step * config.backtracking
      s.lineSearch config v dv current slope remaining
        ⟨step, s.evaluate (v + dv * step), t.tries + 1⟩

/-- The Newton direction, if the curvature is positive definite. -/
def direction? (s : System α) (e : Evaluation α) : Option (Vec α) :=
  (Cholesky.factor? (s.curvature e)).map fun l => Cholesky.solve l (-e.gradient)

def advance (s : System α) (config : SolverConfig α) (it : Iterate α) (dv : Vec α) : Iterate α :=
  let slope := it.evaluation.gradient.dot dv
  let t := s.lineSearch config it.v dv it.evaluation slope config.lineSearchMaxIterations
    ⟨1, s.evaluate (it.v + dv), 0⟩
  ⟨it.v + dv * t.step, t.evaluation, it.iterations + 1, it.lineSearchIterations + t.tries⟩

def converged (s : System α) (config : SolverConfig α) (it : Iterate α) : Bool :=
  s.residual it.evaluation ≤
    config.absTolerance + config.relTolerance * s.momentumScale it.v it.evaluation

/-- Iterates until the solve ends, with the iterations that remain. -/
def newton (s : System α) (config : SolverConfig α) : Nat → Iterate α → SolveStatus × Iterate α
  | remaining, it =>
    if ¬ it.evaluation.isFinite then (.nonFinite, it)
    else if s.converged config it then (.success, it)
    else match remaining with
      | 0 => (.iterationsExceeded, it)
      | remaining + 1 =>
        match s.direction? it.evaluation with
        | none => (.notPositiveDefinite, it)
        | some dv => s.newton config remaining (s.advance config it dv)

end System

namespace Solution

/-- The answer of a solve that never started. -/
def failed (p : Problem α) (guess : Vec α) (status : SolveStatus) : Solution α where
  v := guess
  impulses := .zeros p.numEquations
  velocities := .zeros p.numEquations
  status
  iterations := 0
  lineSearchIterations := 0
  cost := none
  residual := none

/-- The answer of an iteration that ended. -/
def ofIterate (s : System α) (status : SolveStatus) (it : Iterate α) : Solution α where
  v := it.v
  impulses := it.evaluation.impulses
  velocities := it.evaluation.velocities
  status
  iterations := it.iterations
  lineSearchIterations := it.lineSearchIterations
  cost := some it.evaluation.cost
  residual := some (s.residual it.evaluation)

end Solution

/-- Solves a problem, starting from a guess for the velocities. How the solve ended is part of the
    answer; it is an error only if the guess does not have the size of the problem. -/
def Problem.solve (p : Problem α) (config : SolverConfig α) (guess : Vec α) :
    Outcome α (Solution α) := do
  requireSize "velocity guess" p.numVelocities guess.size
  match System.ofProblem? p with
  | none => return .failed p guess .notPositiveDefinite
  | some s =>
    if ¬ (s.isFinite ∧ guess.isFinite) then return .failed p guess .nonFinite
    else
      let (status, it) := s.newton config config.maxIterations ⟨guess, s.evaluate guess, 0, 0⟩
      return .ofIterate s status it

end CompliantContact
