/-!
Indices of bodies, joints and trees, and identifiers of geometries.

The kinds are different types, so that one is never taken for another. The index of a thing is its
position among the things of its kind; body zero is the world.
-/

namespace CompliantContact

structure BodyIndex where
  val : Nat
deriving DecidableEq, Inhabited, Ord

structure JointIndex where
  val : Nat
deriving DecidableEq, Inhabited, Ord

/-- A tree holds the bodies and the velocities reached from one moving joint on the world. Bodies
    welded to the world, and the world itself, are in no tree. -/
structure TreeIndex where
  val : Nat
deriving DecidableEq, Inhabited, Ord

structure GeometryId where
  val : Nat
deriving DecidableEq, Inhabited, Ord

/-- The text of an index of a kind. -/
def indexText (kind : String) (i : Nat) : String := kind ++ "(" ++ toString i ++ ")"

namespace BodyIndex

def world : BodyIndex := ⟨0⟩

def isWorld (b : BodyIndex) : Bool := b.val == 0

instance : ToString BodyIndex := ⟨fun b => indexText "Body" b.val⟩

/-- The text in a listing, which names the type. -/
def listing (b : BodyIndex) : String := indexText "BodyIndex" b.val

end BodyIndex

namespace JointIndex

instance : ToString JointIndex := ⟨fun j => indexText "Joint" j.val⟩

def listing (j : JointIndex) : String := indexText "JointIndex" j.val

end JointIndex

namespace TreeIndex

instance : ToString TreeIndex := ⟨fun t => indexText "Tree" t.val⟩

def listing (t : TreeIndex) : String := indexText "TreeIndex" t.val

end TreeIndex

namespace GeometryId

instance : ToString GeometryId := ⟨fun g => indexText "Geometry" g.val⟩

def listing (g : GeometryId) : String := indexText "GeometryId" g.val

end GeometryId

end CompliantContact
