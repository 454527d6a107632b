import CompliantContact.Contact.Pair

/-!
Contact frames and the relative velocities at contacts.

The third axis of a contact frame is the normal from the first geometry into the second. Along its
axes the velocity of the second geometry relative to the first, at the contact point, is a linear
function of the velocities. Its columns fall into one block for each tree that moves one of the two
bodies: bodies of one tree share a block, and an anchored body has none.
-/

namespace CompliantContact

/-- The columns of a constraint's Jacobian for the velocities of one tree. -/
structure JacobianBlock (α : Type) where
  tree : TreeIndex
  jacobian : Mat α
deriving Inhabited, DecidableEq

/-- The frame of a contact, and the relative velocity along it. -/
structure ContactKinematics (α : Type) where
  phi : α
  blocks : List (JacobianBlock α)
  frame : Mat3 α
deriving Inhabited, DecidableEq

namespace ContactFrame

variable {α : Type} [Scalar α]

/-- Normals shorter than this have no direction. -/
def minNormalNorm : α := Scalar.decimal 1 (-10)

/-- A direction is steep along the first axis from this coordinate on. -/
def steep : α := Scalar.decimal 9 (-1)

/-- A right-handed orthonormal basis whose third vector is along the given one. Its first is made from
    a coordinate axis far from that direction. -/
def basis (normal : Vec3 α) : Mat3 α :=
  let norm := normal.norm
  if ¬ Scalar.isFinite norm ∨ norm < minNormalNorm then .identity
  else
    let n := normal / norm
    let reference : Vec3 α := if Scalar.abs n.x < steep then .unitX else .unitY
    let t := reference - n * n.dot reference
    let t1 := t / t.norm
    ⟨t1, n.cross t1, n⟩

/-- The rotation with the given vector along one of its axes, numbered modulo three. -/
def alongAxis (b : Vec3 α) (axis : Nat) : Mat3 α :=
  let ⟨t1, t2, n⟩ := basis b
  match axis % 3 with
  | 0 => ⟨n, t1, t2⟩
  | 1 => ⟨t2, n, t1⟩
  | _ => ⟨t1, t2, n⟩

end ContactFrame

namespace ContactKinematics

variable {α : Type} [Scalar α]

def bodyOf (query : GeometryQuery α) (m : Mechanism α) (id : GeometryId) : Outcome α BodyIndex :=
  match query.body? id with
  | none => .error (.invalidIndex "geometry" id.val)
  | some b => do
    require (b.val < m.numBodies) (.invalidIndex "body" b.val)
    return b

/-- The trees of two bodies, each once. -/
def treesOf (layout : TreeLayout) (a b : BodyIndex) : List TreeIndex :=
  let treeA := layout.bodyTree? a
  let treeB := layout.bodyTree? b
  treeA.toList ++ (treeB.filter fun t => some t ≠ treeA).toList

/-- The columns of a tree, along the axes of the frame. -/
def block (layout : TreeLayout) (frame : Mat3 α) (relative : Columns α) (t : TreeIndex) :
    JacobianBlock α :=
  let start := layout.start t
  let columns := Columns.ofFn (layout.size t) fun i => frame.transposeMulVec (relative (start + i))
  ⟨t, columns.toMat⟩

def ofPair (m : Mechanism α) (k : PositionKinematics α) (query : GeometryQuery α)
    (pair : ContactPair α) : Outcome α (ContactKinematics α) := do
  let a ← bodyOf query m pair.a
  let b ← bodyOf query m pair.b
  let relative := m.translationalJacobian k b pair.point - m.translationalJacobian k a pair.point
  let frame := ContactFrame.alongAxis (-pair.normal) 2
  let trees := treesOf m.layout a b
  require (trees ≠ []) (.structural (.contactWithoutTree pair.a pair.b))
  return ⟨pair.phi, trees.map (block m.layout frame relative), frame⟩

def ofPairs (m : Mechanism α) (k : PositionKinematics α) (query : GeometryQuery α)
    (pairs : List (ContactPair α)) : Outcome α (List (ContactKinematics α)) :=
  pairs.mapM (ofPair m k query)

end ContactKinematics

end CompliantContact
