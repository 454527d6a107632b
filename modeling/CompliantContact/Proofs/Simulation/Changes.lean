import CompliantContact.Proofs.Simulation.Answers

/-!
Changes of a context, and faithful caches.

A change counts up one source. The stages that read it are stale from then on, and any other stage is
worked out as before. So a faithful cache stays faithful, no longer held to the values of the stages that
read the source (`Faithful.next`).
-/

namespace CompliantContact

variable {α : Type}

/-- A change of a context by a client. -/
inductive Change (α : Type) where
  | time (time : α)
  | discreteState (x : Vec α)
  | positions (positions : Vec α)
  | velocities (velocities : Vec α)
  | damping (damping : Vec α)
  | reflectedInertia (reflectedInertia : Vec α)
  | fixActuation (tau : Vec α)
  | connectActuation (source : ActuationSource α)
  | clearActuation

namespace Change

/-- What a change counts up. -/
def source : Change α → Source
  | time _ => .time
  | discreteState _ | positions _ | velocities _ => .discreteState
  | damping _ | reflectedInertia _ => .parameters
  | fixActuation _ | connectActuation _ | clearActuation => .inputs

/-- The change connects no source that tells algebraic loops apart. -/
def Blind : Change α → Prop
  | connectActuation source => source.Blind
  | _ => True

variable [Scalar α]

def stateAfter (s : State α) : Change α → State α
  | time t => { s with time := t }
  | discreteState x =>
    { s with
      positions := x.slice 0 s.positions.size
      velocities := x.slice s.positions.size s.velocities.size }
  | positions x => { s with positions := x }
  | velocities x => { s with velocities := x }
  | damping x => { s with damping := x }
  | reflectedInertia x => { s with reflectedInertia := x }
  | fixActuation _ | connectActuation _ | clearActuation => s

def actuationAfter (a : Actuation α) : Change α → Actuation α
  | fixActuation tau => .fixed tau
  | connectActuation source => .source source
  | clearActuation => .none
  | _ => a

/-- The setting after a change that is not refused. -/
def next (c : Setting α) (x : Change α) : Setting α :=
  { c with
    state := x.stateAfter c.state
    actuation := x.actuationAfter c.actuation
    versions := c.versions.bump x.source }

/-- The change as the context carries it out. -/
def assign : Change α → Assigning (Context α) α Unit
  | time t => Context.assignTime t
  | discreteState x => Context.assignDiscreteState x
  | positions x => Context.assignPositions x
  | velocities x => Context.assignVelocities x
  | damping x => Context.assignDamping x
  | reflectedInertia x => Context.assignReflectedInertia x
  | fixActuation tau => Context.assignFixedActuation tau
  | connectActuation source => Context.assignActuation (.source source)
  | clearActuation => Context.assignActuation .none

/-- The conditions under which a change is not refused. -/
def check (c : Setting α) : Change α → Outcome α Unit
  | discreteState x => requireSize "discrete state" c.state.discreteState.size x.size
  | positions x => requireSize "positions" c.state.positions.size x.size
  | velocities x => requireSize "velocities" c.state.velocities.size x.size
  | damping x => do
    requireSize "joint damping" c.state.velocities.size x.size
    Context.requireNonNegative "joint damping" x
  | reflectedInertia x => do
    requireSize "reflected inertia" c.state.velocities.size x.size
    Context.requireNonNegative "reflected inertia" x
  | fixActuation tau => requireSize "actuation" c.state.velocities.size tau.size
  | time _ | connectActuation _ | clearActuation => .ok ()

open Assigning

/-- A change looks at the setting alone, and leaves the cache. It assigns nothing before the last of its
    checks, so it leaves everything when it is refused. -/
theorem apply_assign (x : Change α) (c : Setting α) (cache : Cache (StageValue α)) :
    x.assign.apply ⟨c, cache⟩ = match x.check c with
      | .ok _ => (.ok (), ⟨x.next c, cache⟩)
      | .error e => (.error e, ⟨c, cache⟩) := by
  cases x with
  | discreteState x =>
    exact apply_check_then (Context.assign .discreteState fun s =>
      { s with
        positions := x.slice 0 c.state.positions.size
        velocities := x.slice c.state.positions.size c.state.velocities.size }) _ rfl
  | positions x =>
    exact apply_check_then (Context.assign .discreteState fun s => { s with positions := x }) _ rfl
  | velocities x =>
    exact apply_check_then (Context.assign .discreteState fun s => { s with velocities := x }) _ rfl
  | damping x =>
    show Assigning.apply (.check _ >>= fun _ => .check _ >>= fun _ => Context.assign .parameters _) _ = _
    rw [check_bind_check]
    exact apply_check_then (Context.assign .parameters fun s => { s with damping := x }) _ rfl
  | reflectedInertia x =>
    show Assigning.apply (.check _ >>= fun _ => .check _ >>= fun _ => Context.assign .parameters _) _ = _
    rw [check_bind_check]
    exact apply_check_then (Context.assign .parameters fun s => { s with reflectedInertia := x }) _ rfl
  | fixActuation tau => exact apply_check_then (Context.assignActuation (.fixed tau)) _ rfl
  | time t => rfl
  | connectActuation source => rfl
  | clearActuation => rfl

/-- The state is checked before it is assigned, and the time is assigned after it. -/
theorem apply_assignStep (c : Setting α) (cache : Cache (StageValue α)) (t : α) (x : Vec α) :
    (Context.assignStep t x).apply ⟨c, cache⟩ = match check c (.discreteState x) with
      | .ok _ => (.ok (), ⟨next (next c (.discreteState x)) (.time t), cache⟩)
      | .error e => (.error e, ⟨c, cache⟩) := by
  have hstate := apply_assign (.discreteState x) c cache
  cases hcheck : check c (.discreteState x) with
  | error e =>
    rw [hcheck] at hstate
    exact apply_bind_of_error hstate
  | ok u =>
    rw [hcheck] at hstate
    exact (apply_bind_of_ok hstate).trans (apply_assign (.time t) _ cache)

theorem blind_next {c : Setting α} {x : Change α} (hc : c.actuation.Blind) (hx : x.Blind) :
    (x.next c).actuation.Blind := by
  cases x with
  | connectActuation source =>
    intro s hs
    cases hs
    exact hx
  | fixActuation tau => exact nofun
  | clearActuation => exact nofun
  | _ => exact hc

end Change

/-! ### What a change leaves -/

/-- The same stages held but for those that read a source. -/
def Held.without (held : Held α) (source : Source) : Held α := fun stage =>
  if stage.reads source then none else held stage

theorem Held.without_of_reads {held : Held α} {source : Source} {t : Stage} (h : t.reads source = false) :
    held.without source t = held t := by
  rw [Held.without, h]
  rfl

theorem Held.without_discreteState (held : Held α) : held.without .discreteState = fun _ => none := by
  funext t
  cases t <;> rfl

theorem Held.without_none (source : Source) :
    Held.without (fun _ => none : Held α) source = fun _ => none := by
  funext t
  exact ite_self none

namespace Direct

variable [Scalar α] {s : Simulator α} {c : Setting α} {x : Change α} {held held' : Held α}

theorem validate_next (h : x.source ≠ .discreteState) : s.validate (x.next c) = s.validate c := by
  cases x <;> first | rfl | exact absurd rfl h

theorem positions_next (h : x.source ≠ .discreteState) : (x.next c).state.positions = c.state.positions := by
  cases x <;> first | rfl | exact absurd rfl h

theorem stage_next {β : Type} {ofValue? : StageValue α → Option β} {work work' : Outcome α β} {t : Stage}
    (h : x.source ≠ .discreteState) (hheld : held' t = held t) (hwork : work' = work) :
    stage s (x.next c) held' t ofValue? work' = stage s c held t ofValue? work := by
  unfold stage
  rw [validate_next h, hheld, hwork]

/-- A change of a source has no part in working out the stages that do not read it. -/
theorem work_next {t : Stage} (ht : t.reads x.source = false) :
    work s (x.next c) (held.without x.source) t = work s c held t := by
  have h : x.source ≠ .discreteState := by
    intro hx
    rw [hx] at ht
    cases t <;> cases ht
  have hworkKinematics : workKinematics s (x.next c) = workKinematics s c := by
    rw [workKinematics, positions_next h, workKinematics]
  have hkinematics : kinematics s (x.next c) (held.without x.source) = kinematics s c held := by
    refine stage_next h (Held.without_of_reads ?_) hworkKinematics
    cases hx : x.source <;> first | rfl | exact absurd hx h
  have hworkPairs : workPairs s (x.next c) (held.without x.source) = workPairs s c held := by
    rw [workPairs, hkinematics, workPairs]
  cases t with
  | positionKinematics => rw [work, hworkKinematics, work]
  | contactPairs => rw [work, hworkPairs, work]
  | contactKinematics =>
    have hpairs : pairs s (x.next c) (held.without x.source) = pairs s c held :=
      stage_next h (Held.without_of_reads
        (by cases hx : x.source <;> rw [hx] at ht <;> first | rfl | exact ht)) hworkPairs
    rw [work, workContacts, hkinematics, hpairs, work, workContacts]
  | freeAccelerations => cases hx : x.source <;> rw [hx] at ht <;> cases ht
  | problem => cases hx : x.source <;> rw [hx] at ht <;> cases ht
  | results => cases hx : x.source <;> rw [hx] at ht <;> cases ht

end Direct

namespace Faithful

variable [Scalar α] {s : Simulator α} {c : Setting α} {held : Held α} {cache : Cache (StageValue α)}

theorem next (h : Faithful s c held (fun _ => false) cache) (x : Change α) :
    Faithful s (x.next c) (held.without x.source) (fun _ => false) cache where
  sound := h.sound.bump x.source
  staged := h.staged
  inProgress := h.inProgress
  holds t y hy := by
    cases ht : t.reads x.source with
    | true =>
      rw [Held.without, if_pos ht] at hy
      cases hy
    | false =>
      rw [Held.without_of_reads ht] at hy
      refine Cache.current?_bump_of_not_dependsOn h.sound.ordered (h.holds t y hy) fun hdep => ?_
      rw [h.staged.reads hdep t rfl] at ht
      cases ht
  worked t y hy := by
    obtain ⟨hold, hdep⟩ := Cache.current?_bump h.sound hy
    have ht : t.reads x.source = false := by
      cases ht : t.reads x.source with
      | false => rfl
      | true => exact absurd (h.staged.dependsOn ht) hdep
    rw [Held.without_of_reads ht, Direct.work_next ht]
    exact h.worked t y hold

end Faithful

end CompliantContact
