import CompliantContact.Scalar

/-!
Vectors and matrices of three-dimensional space.
-/

namespace CompliantContact

@[ext] structure Vec3 (α : Type) where
  x : α
  y : α
  z : α
deriving Inhabited, DecidableEq

namespace Vec3

variable {α : Type} [Scalar α]

instance : Zero (Vec3 α) := ⟨⟨0, 0, 0⟩⟩
instance : Add (Vec3 α) := ⟨fun u v => ⟨u.x + v.x, u.y + v.y, u.z + v.z⟩⟩
instance : Sub (Vec3 α) := ⟨fun u v => ⟨u.x - v.x, u.y - v.y, u.z - v.z⟩⟩
instance : Neg (Vec3 α) := ⟨fun u => ⟨-u.x, -u.y, -u.z⟩⟩
instance : HMul (Vec3 α) α (Vec3 α) := ⟨fun u s => ⟨u.x * s, u.y * s, u.z * s⟩⟩
instance : HDiv (Vec3 α) α (Vec3 α) := ⟨fun u s => ⟨u.x / s, u.y / s, u.z / s⟩⟩

def unitX : Vec3 α := ⟨1, 0, 0⟩
def unitY : Vec3 α := ⟨0, 1, 0⟩
def unitZ : Vec3 α := ⟨0, 0, 1⟩

/-- The coordinate axis with a number: the first, the second, and the third for any other. -/
def axis : Nat → Vec3 α
  | 0 => unitX
  | 1 => unitY
  | _ => unitZ

/-- The coordinate with a number, zero past the third. -/
def get (u : Vec3 α) : Nat → α
  | 0 => u.x
  | 1 => u.y
  | 2 => u.z
  | _ => 0

def dot (u v : Vec3 α) : α := u.x * v.x + u.y * v.y + u.z * v.z

def cross (u v : Vec3 α) : Vec3 α :=
  ⟨u.y * v.z - u.z * v.y, u.z * v.x - u.x * v.z, u.x * v.y - u.y * v.x⟩

def normSq (u : Vec3 α) : α := u.dot u

def norm (u : Vec3 α) : α := Scalar.sqrt u.normSq

def isZero (u : Vec3 α) : Bool := Scalar.isZero u.x && Scalar.isZero u.y && Scalar.isZero u.z

def toList (u : Vec3 α) : List α := [u.x, u.y, u.z]

@[simp] theorem zero_x : (0 : Vec3 α).x = 0 := rfl
@[simp] theorem zero_y : (0 : Vec3 α).y = 0 := rfl
@[simp] theorem zero_z : (0 : Vec3 α).z = 0 := rfl
@[simp] theorem add_x (u v : Vec3 α) : (u + v).x = u.x + v.x := rfl
@[simp] theorem add_y (u v : Vec3 α) : (u + v).y = u.y + v.y := rfl
@[simp] theorem add_z (u v : Vec3 α) : (u + v).z = u.z + v.z := rfl
@[simp] theorem sub_x (u v : Vec3 α) : (u - v).x = u.x - v.x := rfl
@[simp] theorem sub_y (u v : Vec3 α) : (u - v).y = u.y - v.y := rfl
@[simp] theorem sub_z (u v : Vec3 α) : (u - v).z = u.z - v.z := rfl
@[simp] theorem neg_x (u : Vec3 α) : (-u).x = -u.x := rfl
@[simp] theorem neg_y (u : Vec3 α) : (-u).y = -u.y := rfl
@[simp] theorem neg_z (u : Vec3 α) : (-u).z = -u.z := rfl
@[simp] theorem mul_x (u : Vec3 α) (s : α) : (u * s).x = u.x * s := rfl
@[simp] theorem mul_y (u : Vec3 α) (s : α) : (u * s).y = u.y * s := rfl
@[simp] theorem mul_z (u : Vec3 α) (s : α) : (u * s).z = u.z * s := rfl
@[simp] theorem div_x (u : Vec3 α) (s : α) : (u / s).x = u.x / s := rfl
@[simp] theorem div_y (u : Vec3 α) (s : α) : (u / s).y = u.y / s := rfl
@[simp] theorem div_z (u : Vec3 α) (s : α) : (u / s).z = u.z / s := rfl

end Vec3

/-- A matrix of space by its three columns. -/
@[ext] structure Mat3 (α : Type) where
  x : Vec3 α
  y : Vec3 α
  z : Vec3 α
deriving Inhabited, DecidableEq

namespace Mat3

variable {α : Type} [Scalar α]

instance : Zero (Mat3 α) := ⟨⟨0, 0, 0⟩⟩

def identity : Mat3 α := ⟨Vec3.unitX, Vec3.unitY, Vec3.unitZ⟩

def diagonal (d : Vec3 α) : Mat3 α := ⟨⟨d.x, 0, 0⟩, ⟨0, d.y, 0⟩, ⟨0, 0, d.z⟩⟩

def ofRows (r s t : Vec3 α) : Mat3 α := ⟨⟨r.x, s.x, t.x⟩, ⟨r.y, s.y, t.y⟩, ⟨r.z, s.z, t.z⟩⟩

/-- The column with a number, zero past the third. -/
def column (m : Mat3 α) : Nat → Vec3 α
  | 0 => m.x
  | 1 => m.y
  | 2 => m.z
  | _ => 0

def get (m : Mat3 α) (i j : Nat) : α := (m.column j).get i

def transpose (m : Mat3 α) : Mat3 α := ofRows m.x m.y m.z

def mulVec (m : Mat3 α) (v : Vec3 α) : Vec3 α := m.x * v.x + m.y * v.y + m.z * v.z

/-- The product of the transpose with a vector: the coordinates of the vector along the columns. -/
def transposeMulVec (m : Mat3 α) (v : Vec3 α) : Vec3 α := ⟨m.x.dot v, m.y.dot v, m.z.dot v⟩

def mul (m n : Mat3 α) : Mat3 α := ⟨m.mulVec n.x, m.mulVec n.y, m.mulVec n.z⟩

instance : Mul (Mat3 α) := ⟨mul⟩

def toRows (m : Mat3 α) : List (List α) :=
  [[m.x.x, m.y.x, m.z.x], [m.x.y, m.y.y, m.z.y], [m.x.z, m.y.z, m.z.z]]

end Mat3

end CompliantContact
