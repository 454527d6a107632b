import CompliantContact.Scalar

/-!
Vectors of any length.

The length is a value of the vector, since the sizes of a model and of its data meet only at run
time, where a mismatch is an error with a text of its own. Entries are read by position, and past the
end every vector is zero, so a vector is its size and a function on positions (`Vec.ext`). Each
operation states what it does to the two.
-/

namespace CompliantContact

structure Vec (α : Type) where
  toArray : Array α
deriving Inhabited, DecidableEq

namespace Vec

variable {α β : Type}

def size (v : Vec α) : Nat := v.toArray.size

/-- The entry at a position, zero past the end. -/
def get [Zero α] (v : Vec α) (i : Nat) : α := v.toArray.getD i 0

instance [Zero α] : CoeFun (Vec α) fun _ => Nat → α := ⟨get⟩

/-- The vector of the first `n` values of a function. -/
def ofFn (n : Nat) (f : Nat → α) : Vec α := ⟨Array.ofFn fun i : Fin n => f i⟩

def ofList (xs : List α) : Vec α := ⟨xs.toArray⟩

def toList (v : Vec α) : List α := v.toArray.toList

/-- The vector with every one of its `n` entries equal to `x`. -/
def replicate (n : Nat) (x : α) : Vec α := ofFn n fun _ => x

def zeros [Zero α] (n : Nat) : Vec α := replicate n 0

@[simp] theorem size_ofFn (n : Nat) (f : Nat → α) : (ofFn n f).size = n := by
  simp [size, ofFn]

@[simp] theorem size_ofList (xs : List α) : (ofList xs).size = xs.length := by
  simp [size, ofList]

@[simp] theorem size_zeros [Zero α] (n : Nat) : (zeros n : Vec α).size = n := size_ofFn ..

theorem get_ofFn [Zero α] (n : Nat) (f : Nat → α) (i : Nat) :
    ofFn n f i = if i < n then f i else 0 := by
  by_cases h : i < n <;> simp [get, ofFn, Array.getD, h]

@[simp] theorem get_ofFn_of_lt [Zero α] {n : Nat} {f : Nat → α} {i : Nat} (h : i < n) :
    ofFn n f i = f i := by
  simp [get_ofFn, h]

theorem get_of_size_le [Zero α] {v : Vec α} {i : Nat} (h : v.size ≤ i) : v i = 0 := by
  simp only [size] at h
  simp [get, Array.getD, Nat.not_lt.mpr h]

@[simp] theorem get_zeros [Zero α] (n i : Nat) : (zeros n : Vec α) i = 0 := by
  simp [zeros, replicate, get_ofFn]

/-- A vector is its size and its entries. -/
@[ext] theorem ext [Zero α] {v w : Vec α} (size_eq : v.size = w.size)
    (get_eq : ∀ i < v.size, v i = w i) : v = w := by
  obtain ⟨a⟩ := v
  obtain ⟨b⟩ := w
  simp only [size] at size_eq get_eq
  congr 1
  refine Array.ext size_eq fun i hi hi' => ?_
  have := get_eq i hi
  simpa [get, Array.getD, hi, hi'] using this

variable [Scalar α]

def map (f : α → β) (v : Vec α) : Vec β := ⟨v.toArray.map f⟩

/-- Entrywise sum; the size is that of the first vector. -/
def add (v w : Vec α) : Vec α := ofFn v.size fun i => v i + w i

def sub (v w : Vec α) : Vec α := ofFn v.size fun i => v i - w i

def neg (v : Vec α) : Vec α := ofFn v.size fun i => -v i

def scale (v : Vec α) (s : α) : Vec α := ofFn v.size fun i => v i * s

def divide (v : Vec α) (s : α) : Vec α := ofFn v.size fun i => v i / s

def hadamard (v w : Vec α) : Vec α := ofFn v.size fun i => v i * w i

instance : Add (Vec α) := ⟨add⟩
instance : Sub (Vec α) := ⟨sub⟩
instance : Neg (Vec α) := ⟨neg⟩
instance : HMul (Vec α) α (Vec α) := ⟨scale⟩
instance : HDiv (Vec α) α (Vec α) := ⟨divide⟩

def dot (v w : Vec α) : α := Scalar.sum v.size fun i => v i * w i

def norm (v : Vec α) : α := Scalar.sqrt (v.dot v)

def isFinite (v : Vec α) : Bool := v.toArray.all Scalar.isFinite

/-- The entries at positions `start`, …, `start + n - 1`. -/
def slice (v : Vec α) (start n : Nat) : Vec α := ofFn n fun i => v (start + i)

def append (v w : Vec α) : Vec α := ⟨v.toArray ++ w.toArray⟩

instance : Append (Vec α) := ⟨append⟩

/-- The vectors of a list, one after another. -/
def concat (vs : List (Vec α)) : Vec α := vs.foldl (· ++ ·) ⟨#[]⟩

end Vec

end CompliantContact
