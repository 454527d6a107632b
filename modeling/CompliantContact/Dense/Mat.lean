import CompliantContact.Dense.Vec

/-!
Matrices of any shape.

As with vectors, the shape is a value, entries are read by position, and outside its shape a matrix
is zero: a matrix is its shape and a function on pairs of positions (`Mat.ext`).
-/

namespace CompliantContact

structure Mat (α : Type) where
  rows : Nat
  cols : Nat
  entries : Vector (Vector α cols) rows
deriving DecidableEq

namespace Mat

variable {α : Type}

instance : Inhabited (Mat α) := ⟨⟨0, 0, #v[]⟩⟩

/-- The entry in a row and a column, zero outside the shape. -/
def get [Zero α] (m : Mat α) (i j : Nat) : α :=
  if h : i < m.rows ∧ j < m.cols then m.entries[i][j] else 0

instance [Zero α] : CoeFun (Mat α) fun _ => Nat → Nat → α := ⟨get⟩

def ofFn (rows cols : Nat) (f : Nat → Nat → α) : Mat α :=
  ⟨rows, cols, Vector.ofFn fun i => Vector.ofFn fun j => f i j⟩

@[simp] theorem rows_ofFn (r c : Nat) (f : Nat → Nat → α) : (ofFn r c f).rows = r := rfl

@[simp] theorem cols_ofFn (r c : Nat) (f : Nat → Nat → α) : (ofFn r c f).cols = c := rfl

theorem get_ofFn [Zero α] (r c : Nat) (f : Nat → Nat → α) (i j : Nat) :
    ofFn r c f i j = if i < r ∧ j < c then f i j else 0 := by
  by_cases h : i < r ∧ j < c <;> simp [get, ofFn, h]

@[simp] theorem get_ofFn_of_lt [Zero α] {r c : Nat} {f : Nat → Nat → α} {i j : Nat}
    (hi : i < r) (hj : j < c) : ofFn r c f i j = f i j := by
  simp [get_ofFn, hi, hj]

/-- A matrix is its shape and its entries. -/
@[ext] theorem ext [Zero α] {m n : Mat α} (rows_eq : m.rows = n.rows) (cols_eq : m.cols = n.cols)
    (get_eq : ∀ i < m.rows, ∀ j < m.cols, m i j = n i j) : m = n := by
  obtain ⟨r, c, a⟩ := m
  obtain ⟨r', c', b⟩ := n
  obtain rfl : r = r' := rows_eq
  obtain rfl : c = c' := cols_eq
  congr 1
  ext i hi j hj
  simpa [get, hi, hj] using get_eq i hi j hj

/-- The matrix of the given rows, as wide as the first of them. -/
def ofRows [Zero α] (rows : Array (Vec α)) : Mat α :=
  ofFn rows.size (rows.getD 0 ⟨#[]⟩).size fun i j => rows.getD i ⟨#[]⟩ j

def toRows (m : Mat α) : List (List α) := m.entries.toList.map Vector.toList

variable [Scalar α]

def zeros (rows cols : Nat) : Mat α := ofFn rows cols fun _ _ => 0

def transpose (m : Mat α) : Mat α := ofFn m.cols m.rows fun i j => m j i

def add (m n : Mat α) : Mat α := ofFn m.rows m.cols fun i j => m i j + n i j

instance : Add (Mat α) := ⟨add⟩

def mul (m n : Mat α) : Mat α :=
  ofFn m.rows n.cols fun i j => Scalar.sum m.cols fun k => m i k * n k j

instance : Mul (Mat α) := ⟨mul⟩

def mulVec (m : Mat α) (v : Vec α) : Vec α :=
  Vec.ofFn m.rows fun i => Scalar.sum m.cols fun j => m i j * v j

def transposeMulVec (m : Mat α) (v : Vec α) : Vec α :=
  Vec.ofFn m.cols fun j => Scalar.sum m.rows fun i => m i j * v i

def column (m : Mat α) (j : Nat) : Vec α := Vec.ofFn m.rows fun i => m i j

def diagonal (m : Mat α) : Vec α := Vec.ofFn m.rows fun i => m i i

/-- The matrix with `d` added along its diagonal. -/
def addDiagonal (m : Mat α) (d : Vec α) : Mat α :=
  ofFn m.rows m.cols fun i j => if i = j then m i j + d i else m i j

/-- The square block of size `n` whose first row and column are at `start`. -/
def diagonalBlock (m : Mat α) (start n : Nat) : Mat α :=
  ofFn n n fun i j => m (start + i) (start + j)

/-- The rows `start`, …, `start + n - 1`. -/
def rowBlock (m : Mat α) (start n : Nat) : Mat α := ofFn n m.cols fun i j => m (start + i) j

/-- The square root of the sum of the squares of all entries. -/
def frobeniusNorm (m : Mat α) : α :=
  Scalar.sqrt (Scalar.sum m.cols fun j => Scalar.sum m.rows fun i => m i j * m i j)

def isFinite (m : Mat α) : Bool := m.entries.all fun row => row.all Scalar.isFinite

end Mat

end CompliantContact
