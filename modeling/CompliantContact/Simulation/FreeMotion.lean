import CompliantContact.Simulation.Simulator

/-!
Motion without constraints, and the linear dynamics of a step.

Joint damping `D` is treated implicitly and all other forces `k` at the previous state, so that

    (M + δt D) (v - v₀) / δt = k - D v₀

The accelerations follow from forward dynamics with the inertia `reflected + δt D` added. The matrix
`M + δt D` has one block for each tree.
-/

namespace CompliantContact

namespace Simulator

variable {α : Type} [Scalar α]

/-- All forces but those of constraints: force elements, damping and actuation. -/
def appliedForces (s : Simulator α) (x : State α) (k : PositionKinematics α) (tau : Vec α) :
    Forces α :=
  let f := s.model.addElementForces k x.positions x.velocities (.zero s.model.toMechanism)
  { f with generalized := f.generalized - x.damping.hadamard x.velocities + tau }

def addedInertia (s : Simulator α) (x : State α) : Vec α :=
  x.reflectedInertia + x.damping * s.timeStep

/-- The accelerations without constraints, under given actuation. -/
def freeAccelerations (s : Simulator α) (x : State α) (k : PositionKinematics α) (tau : Vec α) :
    Outcome α (FreeAccelerations α) := do
  let f := s.appliedForces x k tau
  let accelerations ← s.model.forwardDynamics k x.velocities (s.addedInertia x) f
  let forces ← s.model.generalizedForces k f
  return ⟨forces, accelerations⟩

/-- The velocities that a step would reach without constraints. -/
def freeVelocities (s : Simulator α) (x : State α) (a : FreeAccelerations α) : Vec α :=
  x.velocities + a.accelerations * s.timeStep

def linearDynamics (s : Simulator α) (x : State α) (k : PositionKinematics α) :
    Outcome α (List (Mat α)) := do
  let mass ← s.model.massMatrix k x.reflectedInertia
  let m := mass.addDiagonal (x.damping * s.timeStep)
  let layout := s.model.layout
  return layout.trees.map fun t => m.diagonalBlock (layout.start t) (layout.size t)

end Simulator

end CompliantContact
