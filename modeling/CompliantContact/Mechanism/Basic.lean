import CompliantContact.Failure
import CompliantContact.Mechanism.Body
import CompliantContact.Mechanism.Joint
import CompliantContact.Mechanism.Layout

/-!
Mechanisms: bodies connected by joints.

Every body but the world hangs on one joint, from a parent that comes before it, so the bodies are
listed in an order in which they can be placed, and the way from a body to the world ends.
-/

namespace CompliantContact

structure Mechanism (α : Type) where
  /-- The bodies; the first is the world. -/
  bodies : Array (Body α)
  joints : Array (Joint α)
  /-- The joint that each body hangs on. -/
  inboard : Array (Option JointIndex)
  layout : TreeLayout
deriving Inhabited, DecidableEq

namespace Mechanism

variable {α : Type}

def numBodies (m : Mechanism α) : Nat := m.bodies.size

def numJoints (m : Mechanism α) : Nat := m.joints.size

/-- The number of velocities, and of positions: each joint has as many of one as of the other. -/
def numVelocities (m : Mechanism α) : Nat := m.layout.numVelocities

def numPositions (m : Mechanism α) : Nat := m.numVelocities

/-- The size of a discrete state, which holds positions and velocities. -/
def numStates (m : Mechanism α) : Nat := m.numPositions + m.numVelocities

def body? (m : Mechanism α) (b : BodyIndex) : Option (Body α) := m.bodies[b.val]?

def joint? (m : Mechanism α) (j : JointIndex) : Option (Joint α) := m.joints[j.val]?

def bodyByName? (m : Mechanism α) (name : String) : Option BodyIndex :=
  (m.bodies.findIdx? (·.name == name)).map BodyIndex.mk

def jointByName? (m : Mechanism α) (name : String) : Option JointIndex :=
  (m.joints.findIdx? (·.name == name)).map JointIndex.mk

def inboardIndex? (m : Mechanism α) (b : BodyIndex) : Option JointIndex := m.inboard.getD b.val none

def inboardJoint? (m : Mechanism α) (b : BodyIndex) : Option (JointIndex × Joint α) :=
  (m.inboardIndex? b).bind fun j => (m.joint? j).map fun joint => (j, joint)

def movableBodies (m : Mechanism α) : List BodyIndex :=
  (List.range' 1 (m.numBodies - 1)).map BodyIndex.mk

def chain (m : Mechanism α) (b : BodyIndex) : List (JointIndex × Joint α) :=
  match m.inboardJoint? b with
  | none => []
  | some (j, joint) => (j, joint) :: if joint.parent.val < b.val then m.chain joint.parent else []
termination_by b.val

/-- The values of a list that joints have for each degree of freedom, at the velocities of the
    joint. -/
def gather [Scalar α] (m : Mechanism α) (field : Joint α → Vec α) : Vec α :=
  ⟨m.joints.foldl (fun out joint =>
    let values := field joint
    (List.range values.size).foldl (fun out i => out.setIfInBounds (joint.velocityStart + i) (values i))
      out)
    (Array.replicate m.numVelocities 0)⟩

variable [Scalar α]

def defaultPositions (m : Mechanism α) : Vec α := .zeros m.numPositions

def defaultDamping (m : Mechanism α) : Vec α := m.gather Joint.damping

def defaultReflectedInertia (m : Mechanism α) : Vec α := m.gather Joint.reflectedInertia

def requireVelocitySize (m : Mechanism α) (what : String) (x : Vec α) : Outcome α Unit :=
  requireSize what m.numVelocities x.size

/-- The rates of the positions at given velocities. -/
def positionRates (m : Mechanism α) (_q v : Vec α) : Outcome α (Vec α) := do
  m.requireVelocitySize "generalized velocities" v
  return v

end Mechanism

end CompliantContact
