import CompliantContact.Dense.Mat
import CompliantContact.Proofs.Real
import Mathlib.Algebra.BigOperators.Ring.Finset
import Mathlib.Algebra.Order.BigOperators.Ring.Finset

/-!
Vectors and matrices over the real numbers.

Their operations are sums over ranges of positions. A matrix is symmetric positive definite if it is
square and symmetric, and its quadratic form is positive but at zero.
-/

namespace CompliantContact

open Finset

theorem getD_push {α : Type} (xs : Array α) (x d : α) (i : ℕ) :
    (xs.push x).getD i d = if i = xs.size then x else xs.getD i d := by
  simp only [Array.getD_eq_getD_getElem?, Array.getElem?_push]
  split <;> rfl

namespace Vec

section
variable {α : Type} [Scalar α] {v w : Vec α}

@[simp] theorem size_add : (v + w).size = v.size := size_ofFn ..

@[simp] theorem size_sub : (v - w).size = v.size := size_ofFn ..

@[simp] theorem size_neg : (-v).size = v.size := size_ofFn ..

@[simp] theorem size_mul {a : α} : (v * a).size = v.size := size_ofFn ..

@[simp] theorem size_hadamard : (v.hadamard w).size = v.size := size_ofFn ..

end

variable {v w : Vec ℝ} {i : ℕ}

theorem get_add (h : i < v.size) : (v + w) i = v i + w i := get_ofFn_of_lt h

theorem get_sub (h : i < v.size) : (v - w) i = v i - w i := get_ofFn_of_lt h

theorem get_neg (v : Vec ℝ) (i : ℕ) : (-v) i = -v i := by
  rcases lt_or_ge i v.size with h | h
  · exact get_ofFn_of_lt h
  · rw [get_of_size_le h, get_of_size_le (by simpa using h), neg_zero]

theorem get_mul (v : Vec ℝ) (a : ℝ) (i : ℕ) : (v * a) i = v i * a := by
  rcases lt_or_ge i v.size with h | h
  · exact get_ofFn_of_lt h
  · rw [get_of_size_le h, get_of_size_le (by simpa using h), zero_mul]

theorem get_hadamard (v w : Vec ℝ) (i : ℕ) : v.hadamard w i = v i * w i := by
  rcases lt_or_ge i v.size with h | h
  · exact get_ofFn_of_lt h
  · rw [get_of_size_le h, get_of_size_le (by simpa using h), zero_mul]

@[simp] theorem size_append : (v ++ w).size = v.size + w.size := Array.size_append

theorem get_append (v w : Vec ℝ) (i : ℕ) : (v ++ w) i = if i < v.size then v i else w (i - v.size) := by
  show (v.toArray ++ w.toArray).getD i 0 = if i < v.toArray.size then v.toArray.getD i 0
    else w.toArray.getD (i - v.toArray.size) 0
  simp only [Array.getD_eq_getD_getElem?, Array.getElem?_append]
  split_ifs <;> rfl

theorem get_map {f : ℝ → ℝ} (h : i < v.size) : v.map f i = f (v i) := by
  simp only [size] at h
  simp [get, map, Array.getD, h]

theorem dot_eq (v w : Vec ℝ) : v.dot w = ∑ i ∈ range v.size, v i * w i := Scalar.sum_eq_sum_range ..

theorem norm_eq (v : Vec ℝ) : v.norm = √(∑ i ∈ range v.size, v i ^ 2) := by
  rw [norm, dot_eq, Scalar.sqrt_eq]
  simp only [pow_two]

/-- The inequality of Cauchy and Schwarz. -/
theorem abs_dot_le_norm_mul_norm (h : w.size = v.size) : |v.dot w| ≤ v.norm * w.norm := by
  rw [dot_eq, norm_eq, norm_eq, h, ← Real.sqrt_mul (sum_nonneg fun i _ => sq_nonneg (v i))]
  exact Real.abs_le_sqrt (sum_mul_sq_le_sq_mul_sq ..)

/-! ### One step after another -/

section
variable {β : Type} {f : Vec ℝ → β → Vec ℝ} (hsize : ∀ v x, (f v x).size = v.size)
include hsize

theorem size_foldl (xs : List β) (v : Vec ℝ) : (xs.foldl f v).size = v.size := by
  induction xs generalizing v with
  | nil => rfl
  | cons x xs ih => rw [List.foldl_cons, ih, hsize]

/-- Where each step adds to an entry, all steps add their sum. -/
theorem foldl_get {g : β → ℝ} {n i : ℕ} (hentry : ∀ v x, v.size = n → f v x i = v i + g x)
    (xs : List β) {v : Vec ℝ} (hv : v.size = n) : xs.foldl f v i = v i + (xs.map g).sum := by
  induction xs generalizing v with
  | nil => exact (add_zero _).symm
  | cons x xs ih =>
    rw [List.foldl_cons, ih ((hsize v x).trans hv), hentry v x hv, List.map_cons, List.sum_cons, add_assoc]

end

end Vec

namespace Mat

variable {m : Mat ℝ} {v : Vec ℝ} {i : ℕ}

@[simp] theorem size_mulVec : (m.mulVec v).size = m.rows := Vec.size_ofFn ..

theorem get_mulVec (h : i < m.rows) : m.mulVec v i = ∑ j ∈ range m.cols, m i j * v j := by
  rw [mulVec, Vec.get_ofFn_of_lt h, Scalar.sum_eq_sum_range]

theorem mulVec_get (m : Mat ℝ) (v : Vec ℝ) (i : ℕ) : m.mulVec v i = ∑ j ∈ range m.cols, m i j * v j := by
  by_cases h : i < m.rows
  · exact get_mulVec h
  · have hrow : ∀ j, m i j = 0 := fun j => dif_neg fun hinside => h hinside.1
    rw [Vec.get_of_size_le (by rwa [size_mulVec, ← not_lt])]
    exact (sum_eq_zero fun j _ => by rw [hrow, zero_mul]).symm

@[simp] theorem rows_add (m n : Mat ℝ) : (m + n).rows = m.rows := rfl

@[simp] theorem cols_add (m n : Mat ℝ) : (m + n).cols = m.cols := rfl

theorem get_add {n : Mat ℝ} {j : ℕ} (hi : i < m.rows) (hj : j < m.cols) : (m + n) i j = m i j + n i j :=
  get_ofFn_of_lt hi hj

theorem addDiagonal_get {d : Vec ℝ} {j : ℕ} (hi : i < m.rows) (hj : j < m.cols) :
    m.addDiagonal d i j = m i j + if i = j then d i else 0 := by
  rw [addDiagonal, get_ofFn_of_lt hi hj]
  split_ifs
  · rfl
  · rw [add_zero]

theorem get_addDiagonal (d : Vec ℝ) (hrows : i < m.rows) (hcols : i < m.cols) :
    m.addDiagonal d i i = m i i + d i := by
  rw [addDiagonal_get hrows hcols, if_pos rfl]

theorem addDiagonal_addDiagonal {d : Vec ℝ} (e : Vec ℝ) (h : m.rows ≤ d.size) :
    (m.addDiagonal d).addDiagonal e = m.addDiagonal (d + e) := by
  refine ext rfl rfl fun i hi j hj => ?_
  have hrow : i < m.rows := hi
  rw [addDiagonal_get (m := m.addDiagonal d) hi hj, addDiagonal_get (m := m) hi hj,
    addDiagonal_get (m := m) hi hj, Vec.get_add (hrow.trans_le h)]
  split_ifs
  · exact add_assoc ..
  · exact add_zero _

theorem frobeniusNorm_eq (m : Mat ℝ) :
    m.frobeniusNorm = √(∑ j ∈ range m.cols, ∑ i ∈ range m.rows, m i j * m i j) := by
  rw [frobeniusNorm, Scalar.sqrt_eq, Scalar.sum_eq_sum_range]
  simp only [Scalar.sum_eq_sum_range]

theorem frobeniusNorm_eq_zero (h : ∀ i < m.rows, ∀ j < m.cols, m i j = 0) : m.frobeniusNorm = 0 := by
  rw [frobeniusNorm_eq, Real.sqrt_eq_zero']
  refine (sum_eq_zero fun j hj => sum_eq_zero fun i hi => ?_).le
  rw [h i (mem_range.mp hi) j (mem_range.mp hj), mul_zero]

theorem frobeniusNorm_pos {j : ℕ} (hi : i < m.rows) (hj : j < m.cols) (h : m i j ≠ 0) :
    0 < m.frobeniusNorm := by
  rw [frobeniusNorm_eq, Real.sqrt_pos]
  have hcolumn : 0 < ∑ i ∈ range m.rows, m i j * m i j :=
    sum_pos' (fun _ _ => mul_self_nonneg _) ⟨i, mem_range.mpr hi, mul_self_pos.mpr h⟩
  exact sum_pos' (fun _ _ => sum_nonneg fun _ _ => mul_self_nonneg _) ⟨j, mem_range.mpr hj, hcolumn⟩

theorem frobeniusNorm_diagonalBlock_one (m : Mat ℝ) (k : ℕ) :
    (m.diagonalBlock k 1).frobeniusNorm = |m k k| := by
  have hentry : m.diagonalBlock k 1 0 0 = m k k := get_ofFn_of_lt one_pos one_pos
  have hrows : (m.diagonalBlock k 1).rows = 1 := rfl
  have hcols : (m.diagonalBlock k 1).cols = 1 := rfl
  rw [frobeniusNorm_eq, hrows, hcols, sum_range_one, sum_range_one, hentry, Real.sqrt_mul_self_eq_abs]

theorem get_outside {j : ℕ} (h : ¬ (i < m.rows ∧ j < m.cols)) : m i j = 0 := dif_neg h

theorem column_get (m : Mat ℝ) (i j : ℕ) : m.column j i = m i j := by
  by_cases hi : i < m.rows
  · exact Vec.get_ofFn_of_lt hi
  · rw [get_outside fun h => hi h.1]
    exact Vec.get_of_size_le (by rwa [column, Vec.size_ofFn, ← not_lt])

theorem mul_get {n : Mat ℝ} {j : ℕ} (hi : i < m.rows) (hj : j < n.cols) :
    (m * n) i j = ∑ k ∈ range m.cols, m i k * n k j :=
  (get_ofFn_of_lt hi hj).trans (Scalar.sum_eq_sum_range ..)

theorem transpose_get (m : Mat ℝ) (i j : ℕ) : m.transpose j i = m i j := by
  by_cases h : i < m.rows ∧ j < m.cols
  · exact get_ofFn_of_lt h.2 h.1
  · rw [get_outside h, get_outside fun h' => h h'.symm]

/-- The quadratic form of a square matrix. -/
def quad (m : Mat ℝ) (x : ℕ → ℝ) : ℝ := ∑ i ∈ range m.rows, ∑ j ∈ range m.rows, x i * m i j * x j

structure IsSPD (m : Mat ℝ) : Prop where
  square : m.cols = m.rows
  symm : ∀ i j, m i j = m j i
  pos : ∀ x : ℕ → ℝ, (∃ i < m.rows, x i ≠ 0) → 0 < m.quad x

/-- A matrix of a single entry. -/
theorem isSPD_one {m : Mat ℝ} (hrows : m.rows = 1) (hcols : m.cols = 1) (hpos : 0 < m 0 0) : m.IsSPD := by
  refine ⟨hcols.trans hrows.symm, fun i j => ?_, fun x ⟨i, hi, hx⟩ => ?_⟩
  · by_cases hij : i = j
    · rw [hij]
    · rw [get_outside (by omega), get_outside (by omega)]
  · obtain rfl : i = 0 := by omega
    rw [quad, hrows, sum_range_one, sum_range_one, mul_right_comm]
    exact mul_pos (mul_self_pos.mpr hx) hpos

theorem dot_mulVec_eq_quad (hcols : m.cols = m.rows) (hv : v.size = m.rows) :
    v.dot (m.mulVec v) = m.quad v := by
  rw [Vec.dot_eq, hv, quad]
  refine sum_congr rfl fun i hi => ?_
  rw [get_mulVec (mem_range.mp hi), hcols, mul_sum]
  exact sum_congr rfl fun j _ => (mul_assoc ..).symm

theorem IsSPD.quad_nonneg (h : m.IsSPD) (x : ℕ → ℝ) : 0 ≤ m.quad x := by
  by_cases hx : ∃ i < m.rows, x i ≠ 0
  · exact (h.pos x hx).le
  · push Not at hx
    refine le_of_eq (Eq.symm (sum_eq_zero fun i hi => sum_eq_zero fun j _ => ?_))
    rw [hx i (mem_range.mp hi), zero_mul, zero_mul]

theorem IsSPD.eq_zero (h : m.IsSPD) {x : ℕ → ℝ} (hx : m.quad x ≤ 0) (i : ℕ) (hi : i < m.rows) : x i = 0 := by
  by_contra hne
  exact absurd (h.pos x ⟨i, hi, hne⟩) (not_lt.mpr hx)

/-- By the quadratic form of a unit vector. -/
theorem IsSPD.diagonal_pos (h : m.IsSPD) (hi : i < m.rows) : 0 < m i i := by
  have hpos := h.pos (fun j => if j = i then 1 else 0) ⟨i, hi, by simp⟩
  have hquad : m.quad (fun j => if j = i then 1 else 0) = m i i := by
    rw [quad, sum_eq_single i, sum_eq_single i]
    · simp
    · intro j _ hj
      simp [hj]
    · exact fun hi' => absurd (mem_range.mpr hi) hi'
    · intro j _ hj
      simp [hj]
    · exact fun hi' => absurd (mem_range.mpr hi) hi'
  rwa [hquad] at hpos

end Mat

end CompliantContact
