import CompliantContact.Simulation.Stage

/-!
Where generalized actuation comes from.

A source of actuation sees the state, and may read what the stages yield, one after another, each
time deciding by the answer how to go on. Reading a stage that needs actuation itself is an algebraic
loop; the source then gets this failure as the answer.
-/

namespace CompliantContact

/-- The state and the parameters of a simulation. -/
structure State (α : Type) where
  time : α
  positions : Vec α
  velocities : Vec α
  /-- Damping of the joints, one entry for each velocity. -/
  damping : Vec α
  reflectedInertia : Vec α
deriving DecidableEq, Inhabited

namespace State

variable {α : Type}

def numPositions (s : State α) : Nat := s.positions.size

def numVelocities (s : State α) : Nat := s.velocities.size

/-- Positions and velocities in one vector. -/
def discreteState (s : State α) : Vec α := s.positions ++ s.velocities

end State

/-- A sequence of readings that ends with actuation or a failure. -/
inductive Reading (α : Type) where
  | done (result : Outcome α (Vec α))
  | read (stage : Stage) (next : Outcome α (StageValue α) → Reading α)

/-- A system that produces actuation. -/
abbrev ActuationSource (α : Type) := State α → Reading α

inductive Actuation (α : Type) where
  | none
  | fixed (tau : Vec α)
  | source (s : ActuationSource α)

namespace Actuation

variable {α : Type}

/-- The word for the way in which actuation is supplied. -/
def word : Actuation α → String
  | none => "none"
  | fixed _ => "fixed"
  | source _ => "source"

end Actuation

namespace ActuationSource

variable {α : Type} [Scalar α]

/-- Always the same vector. -/
def constant (tau : Vec α) : ActuationSource α := fun _ => .done (.ok tau)

/-- Always fails, with the given words. -/
def failing (message : String) : ActuationSource α :=
  fun _ => .done (.error (.structural (.stated message)))

/-- The same force on every velocity, in proportion to the time. -/
def ramp (rate : α) : ActuationSource α :=
  fun s => .done (.ok (.replicate s.numVelocities (rate * s.time)))

/-- A spring to target positions with a damper. -/
def proportionalDerivative (kp kd : α) (target : Vec α) : ActuationSource α :=
  fun s => .done (.ok (.ofFn s.numVelocities fun i =>
    kp * (target i - s.positions i) - kd * s.velocities i))

/-- Reads one stage and turns what it yields into actuation; a failure of the stage is passed on. -/
def ofStage (stage : Stage) (tau : State α → StageValue α → Vec α) : ActuationSource α :=
  fun s => .read stage fun answer => .done (answer.map (tau s))

/-- The same force on every velocity, in proportion to the depth of all contacts. -/
def depthFeedback (gain : α) : ActuationSource α :=
  ofStage .contactPairs fun s value =>
    let pairs := value.contactPairs?.getD []
    .replicate s.numVelocities (gain * Scalar.listSum (pairs.map fun p => -p.phi))

/-- The same force on every velocity, in proportion to the number of contacts. -/
def contactCountFeedback (gain : α) : ActuationSource α :=
  ofStage .contactKinematics fun s value =>
    let contacts := value.contactKinematics?.getD []
    .replicate s.numVelocities (gain * Scalar.ofNat contacts.length)

/-- The accelerations without constraints, times a gain. -/
def accelerationFeedback (gain : α) : ActuationSource α :=
  ofStage .freeAccelerations fun s value =>
    match value.freeAccelerations? with
    | some a => a.accelerations * gain
    | none => .zeros s.numVelocities

/-- The same force on every velocity, in proportion to the number of constraints. -/
def constraintCountFeedback (gain : α) : ActuationSource α :=
  ofStage .problem fun s value =>
    let count := (value.problem?.map fun p => p.problem.numConstraints).getD 0
    .replicate s.numVelocities (gain * Scalar.ofNat count)

/-- What the contacts do along the velocities, times a gain. -/
def contactForceFeedback (gain : α) : ActuationSource α :=
  ofStage .results fun s value =>
    match value.results? with
    | some r => r.contactForces * gain
    | none => .zeros s.numVelocities

end ActuationSource

end CompliantContact
