import CompliantContact.Assigning
import CompliantContact.Failure.Message
import CompliantContact.Simulation.Actuation

/-!
Contexts: the state of one simulation, its actuation, and the cache of its stages.

Every change counts up the version of the source that it touches, which is how the cache notices it.
Changes are made in place, after the checks that may refuse them.
-/

namespace CompliantContact

/-- A context without its cache: all that a stage can depend on. -/
structure Setting (α : Type) where
  state : State α
  actuation : Actuation α
  versions : SourceVersions
  /-- The revision of the simulator that made the context. -/
  revision : Nat

structure Context (α : Type) extends Setting α where
  cache : Cache (StageValue α)

namespace Context

variable {α : Type}

def new (state : State α) (revision : Nat) : Context α where
  state
  actuation := .none
  versions := .zero
  revision
  cache := stageCache α

/-- A copy, with an empty cache of its own. -/
def clone (c : Context α) : Context α := { c with cache := c.cache.emptyLike }

def time (c : Context α) : α := c.state.time

def positions (c : Context α) : Vec α := c.state.positions

def velocities (c : Context α) : Vec α := c.state.velocities

/-- Changes the state, and counts the change of its source. -/
def assign (source : Source) (f : State α → State α) : Assigning (Context α) α Unit := do
  modify fun c => { c with state := f c.state }
  modify fun c => { c with versions := c.versions.bump source }

def assignTime (time : α) : Assigning (Context α) α Unit := assign .time fun s => { s with time }

def assignPositions (positions : Vec α) : Assigning (Context α) α Unit := do
  let c ← get
  .check (requireSize "positions" c.positions.size positions.size)
  assign .discreteState fun s => { s with positions }

def assignVelocities (velocities : Vec α) : Assigning (Context α) α Unit := do
  let c ← get
  .check (requireSize "velocities" c.velocities.size velocities.size)
  assign .discreteState fun s => { s with velocities }

def assignActuation (actuation : Actuation α) : Assigning (Context α) α Unit := do
  modify fun c => { c with actuation }
  modify fun c => { c with versions := c.versions.bump .inputs }

def assignFixedActuation (tau : Vec α) : Assigning (Context α) α Unit := do
  let c ← get
  .check (requireSize "actuation" c.velocities.size tau.size)
  assignActuation (.fixed tau)

def setTime (c : Context α) (time : α) : Context α := ((assignTime time).apply c).2

def setPositions (c : Context α) (positions : Vec α) : Outcome α (Context α) :=
  (assignPositions positions).attempt c

def setVelocities (c : Context α) (velocities : Vec α) : Outcome α (Context α) :=
  (assignVelocities velocities).attempt c

def fixActuation (c : Context α) (tau : Vec α) : Outcome α (Context α) :=
  (assignFixedActuation tau).attempt c

def connectActuation (c : Context α) (source : ActuationSource α) : Context α :=
  ((assignActuation (.source source)).apply c).2

def clearActuation (c : Context α) : Context α := ((assignActuation .none).apply c).2

def invalidateAll (c : Context α) : Context α := { c with cache := c.cache.invalidateAll }

variable [Scalar α]

def assignDiscreteState (x : Vec α) : Assigning (Context α) α Unit := do
  let c ← get
  .check (requireSize "discrete state" c.state.discreteState.size x.size)
  let nq := c.positions.size
  let nv := c.velocities.size
  assign .discreteState fun s => { s with positions := x.slice 0 nq, velocities := x.slice nq nv }

def requireNonNegative (what : String) (x : Vec α) : Outcome α Unit :=
  match x.toArray.find? (fun d => ¬ 0 ≤ d) with
  | none => .ok ()
  | some bad => .error (.invalidConfig (.negativeParameter what bad))

def assignDamping (damping : Vec α) : Assigning (Context α) α Unit := do
  let c ← get
  .check (requireSize "joint damping" c.velocities.size damping.size)
  .check (requireNonNegative "joint damping" damping)
  assign .parameters fun s => { s with damping }

def assignReflectedInertia (reflectedInertia : Vec α) : Assigning (Context α) α Unit := do
  let c ← get
  .check (requireSize "reflected inertia" c.velocities.size reflectedInertia.size)
  .check (requireNonNegative "reflected inertia" reflectedInertia)
  assign .parameters fun s => { s with reflectedInertia }

/-- The state and the time after a step. -/
def assignStep (time : α) (x : Vec α) : Assigning (Context α) α Unit := do
  assignDiscreteState x
  assignTime time

def setDiscreteState (c : Context α) (x : Vec α) : Outcome α (Context α) := (assignDiscreteState x).attempt c

def setDamping (c : Context α) (damping : Vec α) : Outcome α (Context α) := (assignDamping damping).attempt c

def setReflectedInertia (c : Context α) (reflectedInertia : Vec α) : Outcome α (Context α) :=
  (assignReflectedInertia reflectedInertia).attempt c

end Context

namespace SourceVersions

def listing (v : SourceVersions) : String :=
  recordListing "SourceVersions" [
    ("time", toString v.time),
    ("discrete_state", toString v.discreteState),
    ("parameters", toString v.parameters),
    ("inputs", toString v.inputs)]

end SourceVersions

namespace Context

/-- The listing of a context leaves out its parameters, its actuation and its cache. -/
def listing (c : Context Float) : String :=
  let number := Decimal.text .listing
  let state := "[" ++ ", ".intercalate (c.state.discreteState.toList.map number) ++ "]"
  "Context \x7b time: " ++ number c.time ++ ", state: " ++ state ++ ", versions: " ++
    c.versions.listing ++ ", .. \x7d"

end Context

end CompliantContact
