import CompliantContact.Cache.Basic
import CompliantContact.Solver.Newton

/-!
The stages of one step, and what each of them yields.

    position kinematics ─┬─ contact pairs ── contact kinematics ─┐
                         └─ free accelerations ──────────────────┴─ problem ── results

Each stage is an entry of the cache that a context carries. It depends on the stages before it and on
the parts of the context that it reads itself.
-/

namespace CompliantContact

inductive Stage where
  | positionKinematics
  | contactPairs
  | contactKinematics
  | freeAccelerations
  | problem
  | results
deriving DecidableEq, Inhabited, Repr

namespace Stage

def all : List Stage :=
  [positionKinematics, contactPairs, contactKinematics, freeAccelerations, problem, results]

def index : Stage → EntryIndex
  | positionKinematics => ⟨0⟩
  | contactPairs => ⟨1⟩
  | contactKinematics => ⟨2⟩
  | freeAccelerations => ⟨3⟩
  | problem => ⟨4⟩
  | results => ⟨5⟩

def name : Stage → String
  | positionKinematics => "position kinematics"
  | contactPairs => "discrete contact pairs"
  | contactKinematics => "contact kinematics"
  | freeAccelerations => "non-contact forces accelerations"
  | problem => "contact problem"
  | results => "contact solver results"

/-- What a stage reads: sources, and stages before it. -/
def prerequisites : Stage → List Prerequisite
  | positionKinematics => [.source .discreteState]
  | contactPairs =>
    [.source .discreteState, .source .parameters, .entry positionKinematics.index]
  | contactKinematics => [.entry positionKinematics.index, .entry contactPairs.index]
  | freeAccelerations =>
    [.source .time, .source .discreteState, .source .parameters, .source .inputs,
      .entry positionKinematics.index]
  | problem =>
    [.source .discreteState, .source .parameters, .entry contactKinematics.index,
      .entry freeAccelerations.index]
  | results => [.source .discreteState, .entry problem.index]

end Stage

/-- The forces along the velocities without constraints, and the accelerations that they cause. -/
structure FreeAccelerations (α : Type) where
  /-- Force elements, actuation and the damping at the previous velocities. -/
  forces : Vec α
  accelerations : Vec α
deriving DecidableEq

/-- A problem, and the frame of each of its contacts. -/
structure AssembledProblem (α : Type) where
  problem : Problem α
  frames : List (Mat3 α)
deriving DecidableEq

/-- The velocities of the next step, and the forces and velocities at the contacts. Tangential values
    stand in pairs. -/
structure ContactResults (α : Type) where
  velocities : Vec α
  normalForces : Vec α
  tangentialForces : Vec α
  normalVelocities : Vec α
  tangentialVelocities : Vec α
  /-- What the contacts do along the velocities. -/
  contactForces : Vec α
deriving DecidableEq

namespace ContactResults

variable {α : Type}

def numContacts (r : ContactResults α) : Nat := r.normalForces.size

end ContactResults

inductive StageValue (α : Type) where
  | positionKinematics (k : PositionKinematics α)
  | contactPairs (pairs : List (ContactPair α))
  | contactKinematics (kinematics : List (ContactKinematics α))
  | freeAccelerations (a : FreeAccelerations α)
  | problem (p : AssembledProblem α)
  | results (r : ContactResults α)

namespace StageValue

variable {α : Type}

def positionKinematics? : StageValue α → Option (PositionKinematics α)
  | positionKinematics k => some k
  | _ => none

def contactPairs? : StageValue α → Option (List (ContactPair α))
  | contactPairs pairs => some pairs
  | _ => none

def contactKinematics? : StageValue α → Option (List (ContactKinematics α))
  | contactKinematics kinematics => some kinematics
  | _ => none

def freeAccelerations? : StageValue α → Option (FreeAccelerations α)
  | freeAccelerations a => some a
  | _ => none

def problem? : StageValue α → Option (AssembledProblem α)
  | problem p => some p
  | _ => none

def results? : StageValue α → Option (ContactResults α)
  | results r => some r
  | _ => none

end StageValue

/-- The cache of the stages, without any value. -/
def stageCache (α : Type) : Cache (StageValue α) :=
  ⟨(Stage.all.map fun s => Entry.declared s.name s.prerequisites).toArray, []⟩

end CompliantContact
