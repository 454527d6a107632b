import CompliantContact.Mechanism.Model
import CompliantContact.Simulation.Context

/-!
Simulators: a model, a geometry engine and settings, with couplers between joints.

A simulator makes contexts and computes their steps. It is changed in place, which raises its revision,
and contexts of an earlier revision are refused from then on.
-/

namespace CompliantContact

/-- Couples two joints so that `qA = ratio * qB + offset`. -/
structure Coupler (α : Type) where
  a : JointIndex
  b : JointIndex
  ratio : α
  offset : α
deriving DecidableEq, Inhabited

structure DeformableModel where
  name : String
  numBodies : Nat
deriving DecidableEq, Inhabited

structure Simulator (α : Type) where
  model : Model α
  geometry : GeometryQuery α
  config : Config α
  /-- In the order in which they were added. -/
  couplers : List (Coupler α)
  deformable : Option DeformableModel
  revision : Nat

namespace Simulator

variable {α : Type}

def timeStep (s : Simulator α) : α := s.config.timeStep

variable [Scalar α]

/-- A simulator without couplers. The settings must be in range, and name the one solver there is. -/
def new (model : Model α) (geometry : GeometryQuery α) (config : Config α) :
    Outcome α (Simulator α) := do
  config.validate
  require (config.solver = .sap) (.unsupportedSolver (toString config.solver))
  return ⟨model, geometry, config, [], none, 0⟩

def requireCouplable (s : Simulator α) (j : JointIndex) : Outcome α Unit :=
  match s.model.joint? j with
  | none => .error (.invalidIndex "joint" j.val)
  | some joint => require (joint.dofs = 1) (.invalidConfig (.couplerDofs joint.name))

/-- Adds a coupler. -/
def couple (c : Coupler α) : Assigning (Simulator α) α Unit := do
  let s ← get
  .check (s.requireCouplable c.a)
  .check (s.requireCouplable c.b)
  .check (require (c.a ≠ c.b) (.invalidConfig .couplerSelf))
  .check (require (Scalar.isFinite c.ratio ∧ Scalar.isFinite c.offset)
    (.invalidConfig (.couplerNotFinite c.ratio c.offset)))
  modify fun s => { s with couplers := s.couplers ++ [c] }
  modify fun s => { s with revision := s.revision + 1 }

/-- Registers a deformable model, of which there is at most one. -/
def register (d : DeformableModel) : Assigning (Simulator α) α Unit := do
  let s ← get
  .check (require s.deformable.isNone (.duplicateModel "deformable"))
  modify fun s => { s with deformable := some d }
  modify fun s => { s with revision := s.revision + 1 }

def addCoupler (s : Simulator α) (c : Coupler α) : Outcome α (Simulator α) := (couple c).attempt s

def registerDeformable (s : Simulator α) (d : DeformableModel) : Outcome α (Simulator α) :=
  (register d).attempt s

/-- A context at rest, at time zero, with the positions and parameters of the model. -/
def defaultContext (s : Simulator α) : Context α :=
  .new {
    time := 0
    positions := s.model.defaultPositions
    velocities := .zeros s.model.numVelocities
    damping := s.model.defaultDamping
    reflectedInertia := s.model.defaultReflectedInertia } s.revision

/-- Requires a context of this revision of the simulator, with the sizes of its model. -/
def validate (s : Simulator α) (c : Setting α) : Outcome α Unit := do
  require (c.revision = s.revision) (.structural .staleContext)
  require (c.state.numPositions = s.model.numPositions ∧
      c.state.numVelocities = s.model.numVelocities)
    (.dimensionMismatch "context state" s.model.numStates c.state.discreteState.size)

end Simulator

end CompliantContact
