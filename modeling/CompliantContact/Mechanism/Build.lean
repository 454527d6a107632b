import CompliantContact.Mechanism.Basic

/-!
Building a mechanism from its bodies and joints.

The bodies are checked first, then each joint in turn, then whether every body hangs on a joint. Of
several faults the first in this order is reported. What passes is laid out: a joint that moves and
hangs on something anchored starts a tree, and the trees take their velocities in order, body by body.
-/

namespace CompliantContact

namespace Joint

variable {α : Type} [Scalar α]

/-- The length that the axis of a joint must exceed. -/
def minAxisNorm : α := Scalar.decimal 1 (-12)

/-- Checks a joint of a mechanism with the given number of bodies. -/
def check (numBodies : Nat) (j : Joint α) : Outcome α Unit := do
  require (j.parent.val < numBodies) (.invalidIndex "body" j.parent.val)
  require (j.child.val < numBodies) (.invalidIndex "body" j.child.val)
  require (j.parent.val < j.child.val) (.invalidConfig (.jointOrder j.name))
  let requireDofs (what : String) (size : Nat) : Outcome α Unit :=
    requireSize ("joint '" ++ j.name ++ "' " ++ what) j.dofs size
  requireDofs "damping" j.damping.size
  requireDofs "reflected_inertia" j.reflectedInertia.size
  requireDofs "position_lower_limits" j.lowerLimits.size
  requireDofs "position_upper_limits" j.upperLimits.size
  require (j.damping.toArray.all (0 ≤ ·)) (.invalidConfig (.jointDamping j.name))
  require (j.reflectedInertia.toArray.all (0 ≤ ·)) (.invalidConfig (.jointReflectedInertia j.name))
  require ((j.lowerLimits.zip j.upperLimits).all fun (l, u) => Bound.ordered l u)
    (.invalidConfig (.jointLimitsInverted j.name))

/-- The joint with its axis brought to length one, if it has an axis. -/
def normalizeAxis (j : Joint α) : Outcome α (Joint α) :=
  match j.kind.axis? with
  | none => .ok j
  | some a => do
    let norm := a.norm
    require (minAxisNorm < norm) (.invalidConfig (.jointAxis j.name))
    return { j with kind := j.kind.withAxis (a / norm) }

end Joint

namespace Mechanism

variable {α : Type} [Scalar α]

def requireMass (b : Body α) : Outcome α Unit :=
  require (0 ≤ b.mass ∧ Scalar.isFinite b.mass) (.invalidConfig (.bodyMass b.name b.mass))

/-- The joints accepted so far, and the joint that each body hangs on. -/
structure Connections (α : Type) where
  joints : Array (Joint α)
  inboard : Array (Option JointIndex)

def connect (numBodies : Nat) (c : Connections α) (j : Joint α) : Outcome α (Connections α) := do
  j.check numBodies
  let j ← j.normalizeAxis
  require ((c.inboard.getD j.child.val none).isNone)
    (.invalidConfig (.bodyTwiceConnected j.child j.name))
  return ⟨c.joints.push j, c.inboard.setIfInBounds j.child.val (some ⟨c.joints.size⟩)⟩

namespace Connections

def inboardJoint? (c : Connections α) (b : Nat) : Option (JointIndex × Joint α) :=
  (c.inboard.getD b none).bind fun j => c.joints[j.val]?.map fun joint => (j, joint)

def movable (c : Connections α) : List Nat := List.range' 1 (c.inboard.size - 1)

/-- The trees of the bodies before `b`, and how many trees there are, extended by body `b`: it is in
    the tree of its parent; if that is anchored, a weld anchors the body and any other joint starts a
    tree. -/
def placeBody (c : Connections α) (s : Array (Option TreeIndex) × Nat) (b : Nat) :
    Array (Option TreeIndex) × Nat :=
  let (trees, count) := s
  match c.inboardJoint? b with
  | none => (trees.push none, count)
  | some (_, joint) =>
    match trees.getD joint.parent.val none with
    | some t => (trees.push (some t), count)
    | none =>
      if joint.kind.isWeld then (trees.push none, count)
      else (trees.push (some ⟨count⟩), count + 1)

def bodyTrees (c : Connections α) : Array (Option TreeIndex) × Nat :=
  c.movable.foldl c.placeBody (#[none], 0)

def bodyDofs (c : Connections α) (b : Nat) : Nat :=
  match c.inboardJoint? b with
  | none => 0
  | some (_, joint) => joint.dofs

def treeBodies (c : Connections α) (trees : Array (Option TreeIndex)) (t : Nat) : List Nat :=
  c.movable.filter fun b => trees.getD b none = some ⟨t⟩

/-- Gives a body's joint the next free velocities. -/
def placeVelocities (c : Connections α) (s : Array (Joint α) × Nat) (b : Nat) :
    Array (Joint α) × Nat :=
  let (joints, next) := s
  match c.inboardJoint? b with
  | none => (joints, next)
  | some (j, joint) =>
    (joints.modify j.val fun joint => { joint with velocityStart := next }, next + joint.dofs)

def layout (c : Connections α) : TreeLayout :=
  let (trees, count) := c.bodyTrees
  let sizes := (List.range count).map fun t => total ((c.treeBodies trees t).map c.bodyDofs)
  { bodyTrees := trees
    velocityTrees := (sizes.zipIdx.flatMap fun (n, t) => List.replicate n (⟨t⟩ : TreeIndex)).toArray
    sizes := sizes.toArray }

def placedJoints (c : Connections α) : Array (Joint α) :=
  let (trees, count) := c.bodyTrees
  let order := (List.range count).flatMap (c.treeBodies trees)
  (order.foldl c.placeVelocities (c.joints, 0)).1

end Connections

def requireConnected (c : Connections α) (b : Body α) (i : Nat) : Outcome α Unit :=
  require ((c.inboard.getD i none).isSome) (.invalidConfig (.bodyUnconnected b.name))

def build (bodies : List (Body α)) (joints : List (Joint α)) : Outcome α (Mechanism α) := do
  let bodies := Body.world :: bodies
  bodies.forM requireMass
  let c ← joints.foldlM (connect bodies.length) ⟨#[], Array.replicate bodies.length none⟩
  bodies.zipIdx.tail.forM fun (b, i) => requireConnected c b i
  return {
    bodies := bodies.toArray
    joints := c.placedJoints
    inboard := c.inboard
    layout := c.layout }

end Mechanism

end CompliantContact
