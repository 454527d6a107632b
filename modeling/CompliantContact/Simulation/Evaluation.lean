import CompliantContact.Simulation.Results

/-!
Evaluation of the stages of a step through the cache of a context.

Every evaluation first checks that the context belongs to the simulator, then takes the value that the
cache holds, or computes it from the stages before. Only the free accelerations need actuation, and a
source of actuation may read stages in its turn. While it does so for the free accelerations these are
in progress, so that reading them again fails at once: two levels of reading are all there can be.
-/

namespace CompliantContact

variable {α : Type} [Scalar α]

/-- A computation on the stages of a context. -/
abbrev Staged (α β : Type) := Cached (StageValue α) α β

/-- The value of a computation or its failure, as a value. -/
def Staged.outcome {β : Type} (work : Staged α β) : Staged α (Outcome α β) := fun c =>
  match work c with
  | (result, c) => (.ok result, c)

namespace Reading

/-- Carries out readings. -/
def run (ask : Stage → Staged α (StageValue α)) : Reading α → Staged α (Vec α)
  | done result => result
  | read stage next => do
    let answer ← Staged.outcome (ask stage)
    run ask (next answer)

end Reading

namespace Simulator

variable (s : Simulator α) (c : Setting α)

/-- Evaluates a stage, computing it only if it is not up to date. -/
def evalStage {β : Type} (stage : Stage) (toValue : β → StageValue α)
    (ofValue? : StageValue α → Option β) (work : Staged α β) : Staged α β := do
  s.validate c
  Cache.eval c.versions stage.index toValue ofValue? work

def evalPositionKinematics : Staged α (PositionKinematics α) :=
  s.evalStage c .positionKinematics .positionKinematics StageValue.positionKinematics? do
    s.model.positionKinematics c.state.positions

def evalContactPairs : Staged α (List (ContactPair α)) :=
  s.evalStage c .contactPairs .contactPairs StageValue.contactPairs? do
    let k ← s.evalPositionKinematics c
    let d : Discretizer α := ⟨s.geometry, s.model.toMechanism, s.config.defaultContactStiffness⟩
    d.contactPairs k s.config.contactModel

def evalContactKinematics : Staged α (List (ContactKinematics α)) :=
  s.evalStage c .contactKinematics .contactKinematics StageValue.contactKinematics? do
    let k ← s.evalPositionKinematics c
    let pairs ← s.evalContactPairs c
    ContactKinematics.ofPairs s.model.toMechanism k s.geometry pairs

section
variable (actuation : Staged α (Vec α))

/-- The free accelerations, under actuation that is evaluated when they are computed. -/
def evalFreeAccelerationsUnder : Staged α (FreeAccelerations α) :=
  s.evalStage c .freeAccelerations .freeAccelerations StageValue.freeAccelerations? do
    let k ← s.evalPositionKinematics c
    let tau ← actuation
    s.freeAccelerations c.state k tau

def evalLinearDynamics : Staged α (List (Mat α)) := do
  let k ← s.evalPositionKinematics c
  s.linearDynamics c.state k

def evalProblemUnder : Staged α (AssembledProblem α) :=
  s.evalStage c .problem .problem StageValue.problem? do
    let dynamics ← s.evalLinearDynamics c
    let a ← s.evalFreeAccelerationsUnder c actuation
    let p ← (Problem.new s.timeStep dynamics (s.freeVelocities c.state a) : Outcome α (Problem α))
    let pairs ← s.evalContactPairs c
    let kinematics ← s.evalContactKinematics c
    let contacts ← s.addContacts p pairs kinematics
    let p ← s.addJointConstraints c.state contacts.problem
    return ⟨p, contacts.frames⟩

def evalResultsUnder : Staged α (ContactResults α) :=
  s.evalStage c .results .results StageValue.results? do
    let p ← s.evalProblemUnder c actuation
    s.contactResults c.state p

def evalAnyUnder : Stage → Staged α (StageValue α)
  | .positionKinematics => return .positionKinematics (← s.evalPositionKinematics c)
  | .contactPairs => return .contactPairs (← s.evalContactPairs c)
  | .contactKinematics => return .contactKinematics (← s.evalContactKinematics c)
  | .freeAccelerations => return .freeAccelerations (← s.evalFreeAccelerationsUnder c actuation)
  | .problem => return .problem (← s.evalProblemUnder c actuation)
  | .results => return .results (← s.evalResultsUnder c actuation)

end

def checkActuation (tau : Vec α) : Outcome α (Vec α) := do
  requireSize "actuation" c.state.numVelocities tau.size
  return tau

/-- Actuation with a number of levels at which sources may read stages; below the last, reading is an
    algebraic loop. -/
def actuationAt : Nat → Staged α (Vec α)
  | 0 => throw (.algebraicLoop Stage.freeAccelerations.name)
  | level + 1 =>
    match c.actuation with
    | .none => return .zeros c.state.numVelocities
    | .fixed tau => checkActuation c tau
    | .source source => do
      let tau ← (source c.state).run (s.evalAnyUnder c (actuationAt level))
      checkActuation c tau

/-- The actuation of a context. Its source may read stages that need actuation themselves. -/
def evalActuation : Staged α (Vec α) := s.actuationAt c 2

def evalFreeAccelerations : Staged α (FreeAccelerations α) :=
  s.evalFreeAccelerationsUnder c (s.actuationAt c 1)

def evalFreeVelocities : Staged α (Vec α) := do
  let a ← s.evalFreeAccelerations c
  return s.freeVelocities c.state a

def evalProblem : Staged α (AssembledProblem α) := s.evalProblemUnder c (s.actuationAt c 1)

def evalResults : Staged α (ContactResults α) := s.evalResultsUnder c (s.actuationAt c 1)

end Simulator

end CompliantContact
