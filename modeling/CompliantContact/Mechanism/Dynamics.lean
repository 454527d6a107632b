import CompliantContact.Dense.Cholesky
import CompliantContact.Mechanism.Force

/-!
Mass matrix, velocity-product forces and forward dynamics.

With the Jacobians `V` and `W` of each body's center of mass and orientation, its mass `m` and its
inertia `I` in the world, the equations of motion are

    (M + diag d) a + C = τ
    M = Σ m VᵀV + Wᵀ I W
    C = Σ m Vᵀ b + Wᵀ (I β + ω × I ω)

where `b` and `β` are the accelerations that a body has when no velocity changes, and `d` is inertia
added to single velocities. The mass matrix has one block for each tree, so the equations are solved
tree by tree.
-/

namespace CompliantContact

namespace Mechanism

variable {α : Type} [Scalar α]

def worldInertia (rotation : Rotation α) (inertia : Mat3 α) : Mat3 α :=
  let r := rotation.toMat3
  r * inertia * r.transpose

structure MassTerm (α : Type) where
  mass : α
  translational : Columns α
  angular : Columns α
  /-- The columns of the angular Jacobian, times the transposed inertia. -/
  momentum : Columns α

def massTerm (m : Mechanism α) (k : PositionKinematics α) (b : BodyIndex) (body : Body α) :
    MassTerm α :=
  let angular := m.angularJacobian k b
  let inertia := worldInertia (k.bodyPose b).rotation body.inertia
  { mass := body.mass
    translational := m.translationalJacobian k b (comPosition k b body)
    angular
    momentum := .ofFn angular.size fun i => inertia.transposeMulVec (angular i) }

def indexedBodies (m : Mechanism α) : List (BodyIndex × Body α) :=
  m.movableBodies.filterMap fun b => (m.body? b).map fun body => (b, body)

def massEntry (terms : List (MassTerm α)) (i j : Nat) : α :=
  terms.foldl (fun acc t =>
    acc + (t.translational i).dot (t.translational j) * t.mass + (t.momentum i).dot (t.angular j)) 0

def rigidMassMatrix (m : Mechanism α) (k : PositionKinematics α) : Mat α :=
  let terms := m.indexedBodies.map fun (b, body) => m.massTerm k b body
  .ofFn m.numVelocities m.numVelocities (massEntry terms)

/-- The mass matrix with the reflected inertia of the joints along its diagonal. -/
def massMatrix (m : Mechanism α) (k : PositionKinematics α) (reflectedInertia : Vec α) :
    Outcome α (Mat α) := do
  m.requireVelocitySize "reflected inertia" reflectedInertia
  return (m.rigidMassMatrix k).addDiagonal reflectedInertia

/-- The motion of a body when no velocity changes. -/
structure BiasMotion (α : Type) where
  angularVelocity : Vec3 α
  angularAcceleration : Vec3 α
  acceleration : Vec3 α
deriving Inhabited, DecidableEq

namespace BiasMotion

def rest : BiasMotion α := ⟨0, 0, 0⟩

end BiasMotion

/-- The angular and the linear velocity that a joint gives its child, in the world. -/
def relativeVelocity (frame : Pose α) (kind : JointKind α) (v : Nat → α) : Vec3 α × Vec3 α :=
  match kind with
  | .weld => (0, 0)
  | .revolute a => (frame.rotation.apply a * v 0, 0)
  | .prismatic a => (0, frame.rotation.apply a * v 0)
  | .translational => (0, frame.rotation.apply ⟨v 0, v 1, v 2⟩)

/-- The motion of a child: that of its parent, carried along the lever `r`, and what the joint
    adds. -/
def childMotion (parent : BiasMotion α) (r w v : Vec3 α) : BiasMotion α where
  angularVelocity := parent.angularVelocity + w
  angularAcceleration := parent.angularAcceleration + parent.angularVelocity.cross w
  acceleration :=
    parent.acceleration + parent.angularAcceleration.cross r
      + parent.angularVelocity.cross (parent.angularVelocity.cross r)
      + parent.angularVelocity.cross v * (Scalar.two : α)

/-- The motions of the bodies before `b`, extended by that of body `b`. -/
def placeMotion (m : Mechanism α) (k : PositionKinematics α) (v : Vec α)
    (motions : Array (BiasMotion α)) (b : BodyIndex) : Array (BiasMotion α) :=
  match m.inboardJoint? b with
  | none => motions.push .rest
  | some (j, joint) =>
    let (w, u) := relativeVelocity (k.jointFrame j) joint.kind fun i => v (joint.velocityStart + i)
    let r := (k.bodyPose joint.child).position - (k.bodyPose joint.parent).position
    motions.push (childMotion (motions.getD joint.parent.val .rest) r w u)

def biasMotions (m : Mechanism α) (k : PositionKinematics α) (v : Vec α) : Array (BiasMotion α) :=
  m.movableBodies.foldl (m.placeMotion k v) #[.rest]

/-- Adds what a body brings to the velocity-product forces. -/
def addBiasForces (m : Mechanism α) (k : PositionKinematics α) (motions : Array (BiasMotion α))
    (acc : Vec α) (b : BodyIndex) (body : Body α) : Vec α :=
  let pose := k.bodyPose b
  let motion := motions.getD b.val .rest
  let w := motion.angularVelocity
  let beta := motion.angularAcceleration
  let lever := pose.rotation.apply body.com
  let a := motion.acceleration + beta.cross lever + w.cross (w.cross lever)
  let inertia := worldInertia pose.rotation body.inertia
  let moment := inertia.mulVec beta + w.cross (inertia.mulVec w)
  acc + (m.translationalJacobian k b (pose.position + lever)).transposeMulVec (a * body.mass)
    + (m.angularJacobian k b).transposeMulVec moment

/-- The forces along the velocities that the motion itself asks for. -/
def biasForces (m : Mechanism α) (k : PositionKinematics α) (v : Vec α) : Outcome α (Vec α) := do
  m.requireVelocitySize "generalized velocities" v
  let motions := m.biasMotions k v
  return m.indexedBodies.foldl (fun acc (b, body) => m.addBiasForces k motions acc b body)
    (.zeros m.numVelocities)

/-- What a spatial force on a body does along the velocities. -/
def spatialForceTerm (m : Mechanism α) (k : PositionKinematics α) (tau : Vec α)
    (bf : BodyIndex × SpatialForce α) : Vec α :=
  let (b, f) := bf
  if f.isZero then tau
  else
    tau + (m.translationalJacobian k b (k.bodyPose b).position).transposeMulVec f.force
      + (m.angularJacobian k b).transposeMulVec f.torque

/-- The forces along the velocities that equal the given forces. -/
def generalizedForces (m : Mechanism α) (k : PositionKinematics α) (f : Forces α) :
    Outcome α (Vec α) := do
  require (f.sizedFor m) (.structural .forcesNotSized)
  let onBodies := m.movableBodies.map fun b => (b, f.bodies.getD b.val 0)
  return onBodies.foldl (m.spatialForceTerm k) f.generalized

def solveTree (m : Mechanism α) (mass : Mat α) (rhs : Vec α) (t : TreeIndex) : Outcome α (Vec α) :=
  let start := m.layout.start t
  let n := m.layout.size t
  match Cholesky.factor? (mass.diagonalBlock start n) with
  | none => .error (.notPositiveDefinite ("mass matrix of " ++ toString t))
  | some l => .ok (Cholesky.solve l (rhs.slice start n))

/-- The accelerations that forces cause, with inertia added to single velocities. -/
def forwardDynamics (m : Mechanism α) (k : PositionKinematics α) (v addedInertia : Vec α)
    (f : Forces α) : Outcome α (Vec α) := do
  m.requireVelocitySize "diagonal inertia" addedInertia
  let applied ← m.generalizedForces k f
  let bias ← m.biasForces k v
  let rhs := applied - bias
  let mass := (m.rigidMassMatrix k).addDiagonal addedInertia
  return .concat (← m.layout.trees.mapM (m.solveTree mass rhs))

end Mechanism

end CompliantContact
