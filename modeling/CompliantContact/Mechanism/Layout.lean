import CompliantContact.Index

/-!
The trees of a mechanism and the place of their velocities.

The velocities of one tree stand next to each other, so the mass matrix falls into one block for each
tree. A layout holds the tree of each body and of each velocity, and how many velocities each tree
has; where a tree starts follows.
-/

namespace CompliantContact

/-- The sum of the sizes of parts. -/
def total (sizes : List Nat) : Nat := sizes.foldr (· + ·) 0

structure TreeLayout where
  /-- The tree of each body, none if it is anchored to the world. -/
  bodyTrees : Array (Option TreeIndex)
  velocityTrees : Array TreeIndex
  sizes : Array Nat
deriving Inhabited, DecidableEq

namespace TreeLayout

def numTrees (l : TreeLayout) : Nat := l.sizes.size

def numVelocities (l : TreeLayout) : Nat := l.velocityTrees.size

def bodyTree? (l : TreeLayout) (b : BodyIndex) : Option TreeIndex := l.bodyTrees.getD b.val none

def velocityTree? (l : TreeLayout) (v : Nat) : Option TreeIndex := l.velocityTrees[v]?

def size (l : TreeLayout) (t : TreeIndex) : Nat := l.sizes.getD t.val 0

/-- The first velocity of a tree: the trees before it come first. -/
def start (l : TreeLayout) (t : TreeIndex) : Nat := total (l.sizes.toList.take t.val)

def trees (l : TreeLayout) : List TreeIndex := (List.range l.numTrees).map TreeIndex.mk

/-- The tree of a velocity, and its place among the velocities of the tree. -/
def locate? (l : TreeLayout) (v : Nat) : Option (TreeIndex × Nat) :=
  (l.velocityTree? v).map fun t => (t, v - l.start t)

end TreeLayout

end CompliantContact
