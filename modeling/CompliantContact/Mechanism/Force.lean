import CompliantContact.Mechanism.Kinematics

/-!
Forces on a mechanism, and the laws that make them.
-/

namespace CompliantContact

/-- A torque, and a force at the origin of a body, in the world. -/
@[ext] structure SpatialForce (α : Type) where
  torque : Vec3 α
  force : Vec3 α
deriving Inhabited, DecidableEq

namespace SpatialForce

variable {α : Type} [Scalar α]

instance : Zero (SpatialForce α) := ⟨⟨0, 0⟩⟩
instance : Add (SpatialForce α) := ⟨fun f g => ⟨f.torque + g.torque, f.force + g.force⟩⟩

/-- The same action with its point moved by `r`: the force stays, and the torque makes up for its
    lever. -/
def shift (f : SpatialForce α) (r : Vec3 α) : SpatialForce α := ⟨f.torque - r.cross f.force, f.force⟩

def isZero (f : SpatialForce α) : Bool := f.force.isZero && f.torque.isZero

end SpatialForce

/-- Forces along the velocities, and a spatial force on each body. -/
structure Forces (α : Type) where
  generalized : Vec α
  bodies : Array (SpatialForce α)
deriving Inhabited, DecidableEq

namespace Forces

variable {α : Type} [Scalar α]

def zero (m : Mechanism α) : Forces α := ⟨.zeros m.numVelocities, .replicate m.numBodies 0⟩

/-- No force, with the sizes as they are. -/
def cleared (f : Forces α) : Forces α :=
  ⟨.zeros f.generalized.size, .replicate f.bodies.size 0⟩

def sizedFor (f : Forces α) (m : Mechanism α) : Bool :=
  f.generalized.size == m.numVelocities && f.bodies.size == m.numBodies

def addGeneralized (f : Forces α) (tau : Vec α) : Forces α :=
  { f with generalized := f.generalized + tau }

def addBody (f : Forces α) (b : BodyIndex) (g : SpatialForce α) : Forces α :=
  { f with bodies := f.bodies.modify b.val (· + g) }

end Forces

/-- A law that turns the state of a mechanism into forces. It may refuse a mechanism that it does not
    fit. -/
structure ForceElement (α : Type) where
  name : String
  check : Mechanism α → Outcome α Unit
  /-- Adds the forces of the law at a configuration, positions and velocities. -/
  addForces : Mechanism α → PositionKinematics α → Vec α → Vec α → Forces α → Forces α

namespace ForceElement

variable {α : Type} [Scalar α]

def standardGravity : α := Scalar.decimal 981 (-2)

/-- Adds the weight of a body. It acts at the center of mass, and so has a lever to the origin. -/
def addWeight (m : Mechanism α) (g : Vec3 α) (k : PositionKinematics α) (f : Forces α)
    (b : BodyIndex) : Forces α :=
  match m.body? b with
  | none => f
  | some body =>
    if Scalar.isZero body.mass then f
    else
      let lever := (k.bodyPose b).rotation.apply body.com
      f.addBody b ((⟨0, g * body.mass⟩ : SpatialForce α).shift (-lever))

def gravity (g : Vec3 α) : ForceElement α where
  name := "uniform_gravity"
  check _ := .ok ()
  addForces m k _ _ f := m.movableBodies.foldl (addWeight m g k) f

/-- The field at the surface of the earth, downward along the third axis. -/
def standardGravityField : ForceElement α := gravity ⟨0, 0, -standardGravity⟩

/-- Requires a joint with one degree of freedom, and a stiffness that is finite and not negative. -/
def checkSpring (j : JointIndex) (stiffness : α) (m : Mechanism α) : Outcome α Unit :=
  match m.joint? j with
  | none => .error (.invalidIndex "joint" j.val)
  | some joint => do
    require (joint.dofs = 1) (.invalidConfig (.springDofs joint.name joint.dofs))
    require (Scalar.isFinite stiffness ∧ ¬ stiffness < 0)
      (.invalidConfig (.springStiffness joint.name stiffness))

/-- A linear spring on a joint: the force is `-k * (q - rest)`. -/
def spring (j : JointIndex) (stiffness rest : α) : ForceElement α where
  name := "joint_spring"
  check := checkSpring j stiffness
  addForces m _ q _ f :=
    match m.joint? j with
    | none => f
    | some joint =>
      let i := joint.velocityStart
      { f with generalized := .ofFn f.generalized.size fun n =>
          if n = i then f.generalized i - stiffness * (q i - rest) else f.generalized n }

end ForceElement

end CompliantContact
