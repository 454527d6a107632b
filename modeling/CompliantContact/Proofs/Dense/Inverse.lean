import CompliantContact.Proofs.Dense.Factorization

/-!
Inverses.

A factor gives the inverse of its matrix column by column, each the solution for a column of the identity
(`Cholesky.isInverse_of_factor?`). Whatever vector the matrix takes to another, its inverse takes back.
-/

namespace CompliantContact

open Finset

namespace Mat

variable {l m inverse : Mat ℝ} {i j : ℕ}

/-! ### Products -/

theorem transpose_transpose (m : Mat ℝ) : m.transpose.transpose = m :=
  Mat.ext rfl rfl fun i _ j _ => by rw [transpose_get, transpose_get]

/-- The form of a matrix at two rows. -/
theorem get_mul_mul_transpose (hi : i < l.rows) (hj : j < l.rows) :
    (l * m * l.transpose) i j = ∑ a ∈ range l.cols, l i a * ∑ b ∈ range m.cols, m a b * l j b := by
  have hentry := get_transpose_mul_mul (l := l.transpose) (m := m) hi hj
  rw [transpose_transpose] at hentry
  simp only [transpose_get] at hentry
  exact hentry

/-! ### The identity -/

noncomputable def identity (n : ℕ) : Mat ℝ := .ofFn n n fun i j => if i = j then 1 else 0

theorem sum_identity_mul {n : ℕ} (hi : i < n) (x : ℕ → ℝ) : ∑ j ∈ range n, identity n i j * x j = x i := by
  have hentry : ∀ j ∈ range n, identity n i j * x j = if i = j then x j else 0 := by
    intro j hj
    rw [identity, get_ofFn_of_lt hi (mem_range.mp hj), ite_mul, one_mul, zero_mul]
  rw [sum_congr rfl hentry, sum_ite_eq, if_pos (mem_range.mpr hi)]

theorem identity_symm (n i j : ℕ) : identity n i j = identity n j i := by
  rw [identity, get_ofFn, get_ofFn]
  simp only [and_comm, eq_comm]

/-- The inverse on both sides. With it the matrix is square. -/
structure IsInverse (m inverse : Mat ℝ) : Prop where
  left : inverse * m = identity m.rows
  right : m * inverse = identity m.rows

namespace IsInverse

theorem rows (h : m.IsInverse inverse) : inverse.rows = m.rows := (congrArg Mat.rows h.left :)

theorem cols (h : m.IsInverse inverse) : inverse.cols = m.rows := (congrArg Mat.cols h.right :)

theorem square (h : m.IsInverse inverse) : m.cols = m.rows := (congrArg Mat.cols h.left :)

/-- What the matrix takes to another vector, its inverse takes back. -/
theorem sum_mul (h : m.IsInverse inverse) {x y : ℕ → ℝ}
    (hxy : ∀ v < m.rows, ∑ w ∈ range m.rows, m v w * x w = y v)
    (hi : i < m.rows) : ∑ v ∈ range m.rows, inverse i v * y v = x i := by
  calc ∑ v ∈ range m.rows, inverse i v * y v
      = ∑ v ∈ range m.rows, ∑ w ∈ range m.rows, inverse i v * m v w * x w := by
        refine sum_congr rfl fun v hv => ?_
        rw [← hxy v (mem_range.mp hv), mul_sum]
        exact sum_congr rfl fun w _ => (mul_assoc ..).symm
    _ = ∑ w ∈ range m.rows, (inverse * m) i w * x w := by
        rw [sum_comm]
        refine sum_congr rfl fun w hw => ?_
        rw [mul_get (h.rows.symm ▸ hi) (h.square.symm ▸ mem_range.mp hw), h.cols, Finset.sum_mul]
    _ = x i := by rw [h.left, sum_identity_mul hi]

end IsInverse

end Mat

namespace Cholesky

variable {l m : Mat ℝ} {i j : ℕ}

/-- The columns that a factor gives for those of the identity. -/
noncomputable def inverse (l : Mat ℝ) : Mat ℝ :=
  .ofFn l.rows l.rows fun i j => solve l ((Mat.identity l.rows).column j) i

theorem inverse_get (hi : i < l.rows) (hj : j < l.rows) :
    inverse l i j = solve l ((Mat.identity l.rows).column j) i :=
  Mat.get_ofFn_of_lt hi hj

/-- By the form of the inverse at two columns of the identity. -/
theorem inverse_symm (hl : ∀ k < l.rows, l k k ≠ 0) (hi : i < l.rows) (hj : j < l.rows) :
    inverse l i j = inverse l j i := by
  have hentry : ∀ {i j}, i < l.rows → j < l.rows → inverse l i j =
      ∑ k ∈ range l.rows, solveLower l ((Mat.identity l.rows).column i) k * solveLower l
        ((Mat.identity l.rows).column j) k := by
    intro i j hi hj
    rw [inverse_get hi hj, ← sum_mul_solve hl,
      ← Mat.sum_identity_mul hi (solve l ((Mat.identity l.rows).column j))]
    exact sum_congr rfl fun k _ => by rw [Mat.column_get, Mat.identity_symm]
  rw [hentry hi hj, hentry hj hi]
  exact sum_congr rfl fun k _ => mul_comm ..

theorem isInverse_of_factor? (hsquare : m.cols = m.rows) (hsymm : ∀ i j, m i j = m j i)
    (h : factor? m = some l) :
    m.IsInverse (inverse l) := by
  have hfactored := factored_of_factor? hsquare h
  have hrows : l.rows = m.rows := hfactored.rows
  have hl : ∀ k < l.rows, l k k ≠ 0 := fun k hk => (hfactored.pos k (hrows ▸ hk)).ne'
  have hproduct : ∀ i < m.rows, ∀ j < m.rows, ∑ k ∈ range m.rows,
      m i k * inverse l k j = Mat.identity m.rows i j := by
    intro i hi j hj
    rw [← Mat.column_get, ← sum_mul_solve_eq hsquare hsymm h _ hi, ← hrows]
    refine sum_congr rfl fun k hk => ?_
    rw [inverse_get (mem_range.mp hk) (hrows ▸ hj)]
  -- The columns are solved for on the right. On the left both matrices are read the other way round.
  refine ⟨Mat.ext hrows hsquare fun i hi j hj => ?_, Mat.ext rfl hrows fun i hi j hj => ?_⟩
  · have hi : i < l.rows := hi
    have hj : j < m.cols := hj
    refine (Mat.mul_get (m := inverse l) hi hj).trans ?_
    show ∑ k ∈ range l.rows, _ = _
    rw [hrows, Mat.identity_symm, ← hproduct j (hsquare ▸ hj) i (hrows ▸ hi)]
    refine sum_congr rfl fun k hk => ?_
    rw [inverse_symm hl hi (hrows.symm ▸ mem_range.mp hk), hsymm, mul_comm]
  · have hi : i < m.rows := hi
    have hj : j < l.rows := hj
    rw [Mat.mul_get (n := inverse l) hi hj, hsquare, hproduct i hi j (hrows ▸ hj)]

end Cholesky

end CompliantContact
