import CompliantContact.Constraint.Parameters
import CompliantContact.Index
import CompliantContact.Space.Pose

/-!
Joints between a parent and a child body.

A joint fixes a frame on the parent and moves the frame of the child relative to it, as a function of
its positions. At position zero the two frames coincide. Its axis is given in the fixed frame.
-/

namespace CompliantContact

inductive JointKind (α : Type) where
  | weld
  | revolute (axis : Vec3 α)
  | prismatic (axis : Vec3 α)
  | translational
deriving Inhabited, DecidableEq

namespace JointKind

variable {α : Type}

def dofs : JointKind α → Nat
  | weld => 0
  | revolute _ | prismatic _ => 1
  | translational => 3

def name : JointKind α → String
  | weld => "weld"
  | revolute _ => "revolute"
  | prismatic _ => "prismatic"
  | translational => "translational"

def axis? : JointKind α → Option (Vec3 α)
  | revolute a | prismatic a => some a
  | weld | translational => none

def isWeld : JointKind α → Bool
  | weld => true
  | _ => false

def withAxis (a : Vec3 α) : JointKind α → JointKind α
  | revolute _ => revolute a
  | prismatic _ => prismatic a
  | k => k

variable [Scalar α]

/-- The pose of the child in the frame of the joint, at the positions `q 0`, `q 1`, …. -/
def motion (q : Nat → α) : JointKind α → Pose α
  | weld => .identity
  | revolute a => ⟨0, .ofScaledAxis (a * q 0)⟩
  | prismatic a => .ofPosition (a * q 0)
  | translational => .ofPosition ⟨q 0, q 1, q 2⟩

end JointKind

/-- A joint. The lists with an entry for each degree of freedom have the length `kind.dofs` in every
    mechanism that was built. -/
structure Joint (α : Type) where
  name : String
  kind : JointKind α
  parent : BodyIndex
  child : BodyIndex
  /-- The pose of the fixed frame in the frame of the parent. -/
  offset : Pose α
  damping : Vec α
  /-- Inertia of a rotor, seen at the joint. -/
  reflectedInertia : Vec α
  lowerLimits : Array (Option α)
  upperLimits : Array (Option α)
  /-- The first of its velocities among those of the mechanism. -/
  velocityStart : Nat
deriving Inhabited, DecidableEq

namespace Joint

variable {α : Type}

def dofs (j : Joint α) : Nat := j.kind.dofs

variable [Scalar α]

/-- A joint without damping, reflected inertia and limits, at the origin of its parent. -/
def ofKind (name : String) (kind : JointKind α) (parent child : BodyIndex) : Joint α where
  name
  kind
  parent
  child
  offset := .identity
  damping := .zeros kind.dofs
  reflectedInertia := .zeros kind.dofs
  lowerLimits := .replicate kind.dofs none
  upperLimits := .replicate kind.dofs none
  velocityStart := 0

def withOffset (j : Joint α) (offset : Pose α) : Joint α := { j with offset }

def atPoint (j : Joint α) (p : Vec3 α) : Joint α := j.withOffset (.ofPosition p)

def withDamping (j : Joint α) (d : α) : Joint α := { j with damping := .replicate j.damping.size d }

def withReflectedInertia (j : Joint α) (r : α) : Joint α :=
  { j with reflectedInertia := .replicate j.reflectedInertia.size r }

def withLimits (j : Joint α) (lower upper : Option α) : Joint α :=
  { j with
    lowerLimits := .replicate j.lowerLimits.size lower
    upperLimits := .replicate j.upperLimits.size upper }

def hasFiniteLimits (j : Joint α) : Bool :=
  j.lowerLimits.any Bound.isFinite || j.upperLimits.any Bound.isFinite

end Joint

end CompliantContact
