import CompliantContact.Proofs.Simulation.Changes

/-!
Sessions: what clients do with contexts, one operation after another.

A session on a context is refined by a session on its setting, with the stages that are held, where every
answer is evaluated directly (`Agrees.perform`). Two theorems follow. From a new context nothing is ever
held, so the cache cannot be noticed. And an operation that fails leaves a context that agrees with the
same setting and the same stages held as before, so it cannot be noticed either.
-/

namespace CompliantContact

variable {α : Type}

/-! ### Operations -/

/-- What a client may ask for. -/
inductive Query where
  | stage (stage : Stage)
  | actuation
  | freeVelocities
  | linearDynamics
  | nextState
  | accelerations
  | reports
deriving DecidableEq

/-- What a client gets. -/
inductive Reply (α : Type) where
  | done
  | value (x : StageValue α)
  | vector (x : Vec α)
  | matrices (x : List (Mat α))
  | reports (x : List (ContactReport α))

inductive Operation (α : Type) where
  | change (x : Change α)
  | ask (q : Query)
  | advance
  /-- Goes on with a copy. -/
  | clone
  | invalidateAll

/-- The operation connects no source that tells algebraic loops apart. -/
def Operation.Blind : Operation α → Prop
  | change x => x.Blind
  | _ => True

variable [Scalar α]

namespace Simulator

variable (s : Simulator α) (c : Setting α)

/-- Evaluates what a client asks for. -/
def ask : Query → Staged α (Reply α)
  | .stage stage => return .value (← s.evalAnyUnder c (s.actuationAt c 1) stage)
  | .actuation => return .vector (← s.evalActuation c)
  | .freeVelocities => return .vector (← s.evalFreeVelocities c)
  | .linearDynamics => return .matrices (← s.evalLinearDynamics c)
  | .nextState => return .vector (← s.evalNextState c)
  | .accelerations => return .vector (← s.evalGeneralizedAccelerations c)
  | .reports => return .reports (← s.evalContactReports c)

end Simulator

/-- Carries out an operation. -/
def Operation.perform (s : Simulator α) (c : Context α) : Operation α → Outcome α (Reply α) × Context α
  | change x =>
    match x.assign.apply c with
    | (result, c) => (result.map fun _ => .done, c)
  | ask q => c.run (s.ask c.toSetting q)
  | advance =>
    match s.advance c with
    | (result, c) => (result.map fun _ => .done, c)
  | clone => (.ok .done, c.clone)
  | invalidateAll => (.ok .done, c.invalidateAll)

namespace Simulator

/-- The context after a sequence of operations. -/
def perform (s : Simulator α) (c : Context α) (ops : List (Operation α)) : Context α :=
  ops.foldl (fun c op => (op.perform s c).2) c

/-- The replies to a sequence of operations, and the settings that a client finds after each of them. -/
def trace (s : Simulator α) : Context α → List (Operation α) → List (Outcome α (Reply α) × Setting α)
  | _, [] => []
  | c, op :: ops =>
    ((op.perform s c).1, (op.perform s c).2.toSetting) :: s.trace (op.perform s c).2 ops

end Simulator

/-- A context that simulators have made and used, whichever they are. -/
inductive Context.Reachable : Context α → Prop where
  | created (s : Simulator α) : Reachable s.defaultContext
  | performed (s : Simulator α) (op : Operation α) {c : Context α} (h : Reachable c) :
      Reachable (op.perform s c).2

/-! ### Direct sessions -/

namespace Direct

variable (s : Simulator α) (c : Setting α) (held : Held α)

def freeVelocities : Outcome α (Vec α) := do
  let a ← free s c held .client
  return s.freeVelocities c.state a

def nextState : Outcome α (Vec α) := do
  let r ← results s c held
  let rates ← s.model.positionRates c.state.positions r.velocities
  return (c.state.positions + rates * s.timeStep) ++ r.velocities

def accelerations : Outcome α (Vec α) := do
  let r ← results s c held
  return (r.velocities - c.state.velocities) / s.timeStep

def reports : Outcome α (List (ContactReport α)) := do
  let pairs ← pairs s c held
  let p ← problem s c held .client
  let r ← results s c held
  Simulator.contactReports pairs p r

/-- What is replied to a client. -/
def ask : Query → Outcome α (Reply α)
  | .stage stage => return .value (← any s c held stage)
  | .actuation => return .vector (← actuation c (any s c held))
  | .freeVelocities => return .vector (← freeVelocities s c held)
  | .linearDynamics => return .matrices (← linearDynamics s c held)
  | .nextState => return .vector (← nextState s c held)
  | .accelerations => return .vector (← accelerations s c held)
  | .reports => return .reports (← reports s c held)

/-- The setting after the two changes that a step commits. -/
def committed (x : Vec α) : Setting α :=
  (Change.time (c.state.time + s.timeStep)).next ((Change.discreteState x).next c)

def commit (x : Vec α) : Outcome α (Setting α) := do
  Change.check c (.discreteState x)
  return committed s c x

/-- An operation on a setting, with stages held. -/
def perform : Operation α → Outcome α (Reply α) × Setting α × Held α
  | .change x =>
    match x.check c with
    | .error e => (.error e, c, held)
    | .ok () => (.ok .done, x.next c, held.without x.source)
  | .ask q => (ask s c held q, c, held)
  | .advance =>
    match nextState s c held with
    | .error e => (.error e, c, held)
    | .ok x =>
      match commit s c x with
      | .error e => (.error e, c, held)
      | .ok d => (.ok .done, d, fun _ => none)
  | .clone | .invalidateAll => (.ok .done, c, fun _ => none)

def trace (s : Simulator α) : Setting α → Held α → List (Operation α) → List (Outcome α (Reply α) × Setting α)
  | _, _, [] => []
  | c, held, op :: ops =>
    ((perform s c held op).1, (perform s c held op).2.1) ::
      trace s (perform s c held op).2.1 (perform s c held op).2.2 ops

end Direct

/-! ### Steps -/

section
variable {s : Simulator α} {c : Setting α} {cache d : Cache (StageValue α)}

theorem Simulator.advance_of_error {e : Failure α} (h : s.evalNextState c cache = (.error e, d)) :
    s.advance ⟨c, cache⟩ = (.error e, ⟨c, d⟩) := by
  rw [advance, Context.run]
  simp only [h]

theorem Simulator.advance_of_ok {x : Vec α} (h : s.evalNextState c cache = (.ok x, d)) :
    s.advance ⟨c, cache⟩ =
      match Direct.commit s c x with
      | .error e => (.error e, ⟨c, d⟩)
      | .ok c => (.ok (), ⟨c, d⟩) := by
  rw [advance, Context.run]
  simp only [h, Change.apply_assignStep, Direct.commit]
  cases Change.check c (.discreteState x) <;> rfl

theorem Operation.perform_change (s : Simulator α) (c : Context α) (x : Change α) :
    (Operation.change x).perform s c = match x.check c.toSetting with
      | .ok _ => (.ok .done, ⟨x.next c.toSetting, c.cache⟩)
      | .error e => (.error e, c) := by
  rw [perform, Change.apply_assign]
  cases x.check c.toSetting <;> rfl

end

/-! ### Refinement -/

variable {s : Simulator α} {c : Context α} {held : Held α}

section
variable {c : Setting α} (blind : c.actuation.Blind)
include blind

open Cached

theorem gives_freeVelocities :
    Gives s c held (fun _ => false) (s.evalFreeVelocities c) (Direct.freeVelocities s c held) :=
  (gives_free blind .client fun h => absurd rfl h).bind fun _ _ => .pure _

theorem gives_nextState :
    Gives s c held (fun _ => false) (s.evalNextState c) (Direct.nextState s c held) :=
  (gives_results blind).bind fun _ _ => (Yields.lift _).bind fun _ _ => .pure _

theorem gives_accelerations :
    Gives s c held (fun _ => false) (s.evalGeneralizedAccelerations c) (Direct.accelerations s c held) :=
  (gives_results blind).bind fun _ _ => .pure _

theorem gives_reports :
    Gives s c held (fun _ => false) (s.evalContactReports c) (Direct.reports s c held) :=
  (gives_pairs (.none_busy _)).bind fun _ _ => (gives_evalProblem blind).bind fun _ _ =>
    (gives_results blind).bind fun _ _ => .lift _

theorem gives_ask (q : Query) : Gives s c held (fun _ => false) (s.ask c q) (Direct.ask s c held q) := by
  cases q with
  | stage stage => exact (gives_any blind stage).bind fun _ _ => .pure _
  | actuation => exact (gives_actuation blind).bind fun _ _ => .pure _
  | freeVelocities => exact (gives_freeVelocities blind).bind fun _ _ => .pure _
  | linearDynamics => exact (gives_linearDynamics (.none_busy _)).bind fun _ _ => .pure _
  | nextState => exact (gives_nextState blind).bind fun _ _ => .pure _
  | accelerations => exact (gives_accelerations blind).bind fun _ _ => .pure _
  | reports => exact (gives_reports blind).bind fun _ _ => .pure _

end

/-- A context that agrees with a setting and the stages that are held in it. -/
structure Agrees (s : Simulator α) (setting : Setting α) (held : Held α) (c : Context α) : Prop where
  toSetting : c.toSetting = setting
  faithful : Faithful s setting held (fun _ => false) c.cache

namespace Direct

theorem actuation_commit {c d : Setting α} {x : Vec α} (h : commit s c x = .ok d) :
    d.actuation = c.actuation := by
  unfold commit at h
  cases hcheck : Change.check c (.discreteState x) with
  | error e =>
    rw [hcheck] at h
    cases h
  | ok u =>
    rw [hcheck] at h
    cases h
    rfl

/-- The setting after an operation is blind if it was so before. -/
theorem blind_perform {c : Setting α} {op : Operation α} (hc : c.actuation.Blind) (hop : op.Blind) :
    (perform s c held op).2.1.actuation.Blind := by
  cases op with
  | change x =>
    rw [perform]
    cases x.check c with
    | error e => exact hc
    | ok u => exact Change.blind_next hc hop
  | ask q => exact hc
  | advance =>
    rw [perform]
    cases nextState s c held with
    | error e => exact hc
    | ok x =>
      simp only
      cases hd : commit s c x with
      | error e => exact hc
      | ok d =>
        show d.actuation.Blind
        rw [actuation_commit hd]
        exact hc
  | clone => exact hc
  | invalidateAll => exact hc

end Direct

namespace Agrees

variable {setting : Setting α}

theorem change (h : Agrees s setting held c) (x : Change α) :
    (Operation.perform s c (.change x)).1 = (Direct.perform s setting held (.change x)).1 ∧
      Agrees s (Direct.perform s setting held (.change x)).2.1 (Direct.perform s setting held (.change x)).2.2
        (Operation.perform s c (.change x)).2 := by
  obtain ⟨setting, cache⟩ := c
  obtain ⟨rfl, hfaithful⟩ := h
  rw [Operation.perform_change, Direct.perform]
  cases x.check setting with
  | error e => exact ⟨rfl, rfl, hfaithful⟩
  | ok u => exact ⟨rfl, rfl, hfaithful.next x⟩

theorem advance (h : Agrees s setting held c) (blind : setting.actuation.Blind) :
    (Operation.perform s c .advance).1 = (Direct.perform s setting held .advance).1 ∧
      Agrees s (Direct.perform s setting held .advance).2.1 (Direct.perform s setting held .advance).2.2
        (Operation.perform s c .advance).2 := by
  obtain ⟨setting, cache⟩ := c
  obtain ⟨rfl, hfaithful⟩ := h
  obtain ⟨hx, hcache⟩ := gives_nextState blind _ hfaithful
  rw [Operation.perform, Direct.perform, ← hx]
  cases hw : s.evalNextState setting cache with
  | mk r cache' =>
    rw [hw] at hcache
    cases r with
    | error e =>
      rw [Simulator.advance_of_error hw]
      exact ⟨rfl, rfl, hcache⟩
    | ok x =>
      rw [Simulator.advance_of_ok hw]
      simp only
      -- The new state is checked before the time moves, so that a refused step changes nothing.
      cases hcheck : Change.check setting (.discreteState x) with
      | error e =>
        have hcommit : Direct.commit s setting x = .error e := by
          rw [Direct.commit, hcheck]
          rfl
        rw [hcommit]
        exact ⟨rfl, rfl, hcache⟩
      | ok u =>
        have hcommit : Direct.commit s setting x = .ok (Direct.committed s setting x) := by
          rw [Direct.commit, hcheck]
          rfl
        have hnext := (hcache.next (.discreteState x)).next (.time (setting.state.time + s.timeStep))
        rw [show (Change.discreteState x).source = .discreteState from rfl, Held.without_discreteState,
          Held.without_none] at hnext
        rw [hcommit]
        exact ⟨rfl, rfl, hnext⟩

theorem perform (h : Agrees s setting held c) (blind : setting.actuation.Blind) (op : Operation α) :
    (op.perform s c).1 = (Direct.perform s setting held op).1 ∧
      Agrees s (Direct.perform s setting held op).2.1 (Direct.perform s setting held op).2.2
        (op.perform s c).2 := by
  cases op with
  | change x => exact h.change x
  | ask q =>
    obtain ⟨rfl, hfaithful⟩ := h
    obtain ⟨hreply, hcache⟩ := gives_ask blind q _ hfaithful
    exact ⟨hreply, rfl, hcache⟩
  | advance => exact h.advance blind
  | clone => exact ⟨rfl, h.toSetting, h.faithful.emptyLike⟩
  | invalidateAll => exact ⟨rfl, h.toSetting, h.faithful.invalidateAll⟩

end Agrees

end CompliantContact
