import CompliantContact.Proofs.Dense.Definite
import CompliantContact.Proofs.Dense.Solve

/-!
Factors of symmetric matrices, and the systems that they solve.

A symmetric matrix has a factor iff it is positive definite. The factor stands on and below the
diagonal, and its product with its transpose is the matrix (`IsFactor`). Solving with it reads nothing
above the diagonal (`solve_congr`), and finds the one vector that the matrix takes to the right side
(`factored_iff_definite`).
-/

namespace CompliantContact

open Finset

namespace Mat

variable {l m : Mat ℝ} {i j : ℕ} {x y : Vec ℝ}

/-- The matrix with zeros above its diagonal. -/
noncomputable def lowerTriangle (l : Mat ℝ) : Mat ℝ :=
  .ofFn l.rows l.cols fun i j => if j ≤ i then l i j else 0

/-- Matrices that differ above their diagonals at most. -/
structure SameLower (l m : Mat ℝ) : Prop where
  rows : l.rows = m.rows
  entry : ∀ i j, j ≤ i → l i j = m i j

/-- A positive definite matrix takes no two vectors to one. -/
theorem IsSPD.mulVec_injective (h : m.IsSPD) (hx : x.size = m.rows) (hy : y.size = m.rows)
    (heq : m.mulVec x = m.mulVec y) :
    x = y := by
  have hrow : ∀ i, ∑ j ∈ range m.rows, m i j * (x j - y j) = 0 := by
    intro i
    have hentry : m.mulVec x i = m.mulVec y i := by rw [heq]
    rw [mulVec_get, mulVec_get, h.square] at hentry
    simp only [mul_sub, sum_sub_distrib]
    exact sub_eq_zero.mpr hentry
  have hquad : (m.quad fun i => x i - y i) ≤ 0 := by
    rw [quad_eq_sum]
    exact (sum_eq_zero fun i _ => by rw [hrow, mul_zero]).le
  exact Vec.ext (hx.trans hy.symm) fun i hi => sub_eq_zero.mp (h.eq_zero hquad i (hx ▸ hi))

end Mat

namespace Cholesky

variable {l l' m : Mat ℝ} {b x y : Vec ℝ}

/-! ### What is read -/

theorem lowerEntries_congr (h : l.SameLower l') (b : Vec ℝ) (n : ℕ) :
    lowerEntries l b n = lowerEntries l' b n := by
  induction n with
  | zero => rfl
  | succ n ih =>
    have hrow : ∀ k ∈ range n, l n k * lowerEntries l' b n k = l' n k * lowerEntries l' b n k := by
      intro k hk
      rw [h.entry n k (mem_range.mp hk).le]
    rw [lowerEntries_succ, lowerEntries_succ, ih, sum_congr rfl hrow, h.entry n n le_rfl]

theorem upperEntries_congr (h : l.SameLower l') (y : Vec ℝ) (n : ℕ) :
    upperEntries l y n = upperEntries l' y n := by
  induction n with
  | zero => rfl
  | succ n ih =>
    simp only [upperEntries_succ, ih, h.rows]
    -- The column of row `j` is read from the rows below it.
    generalize l'.rows - 1 - n = j
    rw [h.entry j j le_rfl, sum_congr rfl fun i _ => by rw [h.entry (j + 1 + i) j (by omega)]]

/-- Nothing above the diagonal is read. -/
theorem solve_congr (h : l.SameLower l') (b : Vec ℝ) : solve l b = solve l' b := by
  have hlower : solveLower l b = solveLower l' b := by
    rw [solveLower_eq, solveLower_eq, h.rows, lowerEntries_congr h]
  have hupper : solveUpper l (solveLower l' b) = solveUpper l' (solveLower l' b) := by
    show (⟨(upperEntries l _ l.rows).reverse⟩ : Vec ℝ) = ⟨(upperEntries l' _ l'.rows).reverse⟩
    rw [h.rows, upperEntries_congr h]
  rw [solve, solve, hlower, hupper, h.rows]

/-! ### What is found -/

/-- A factor of a matrix, in the place of its lower triangle. -/
structure IsFactor (m l : Mat ℝ) : Prop where
  rows : l.rows = m.rows
  cols : l.cols = m.cols
  diagonal_pos : ∀ j < m.rows, 0 < l j j
  product : l.lowerTriangle * l.lowerTriangle.transpose = m
  above : ∀ i j, i < j → l i j = m i j

theorem isFactor_of_factor? (hsquare : m.cols = m.rows) (hsymm : ∀ i j, m i j = m j i)
    (h : factor? m = some l) :
    IsFactor m l := by
  have hfactored := factored_of_factor? hsquare h
  have hcols : l.cols = m.rows := hfactored.cols.trans hsquare
  refine ⟨hfactored.rows, hfactored.cols, hfactored.pos, ?_, fun i j hij => hfactored.rest i j (.inr hij)⟩
  refine Mat.ext hfactored.rows (hfactored.rows.trans hsquare.symm) fun i hi j hj => ?_
  have hi : i < l.rows := hi
  have hj : j < l.rows := hj
  have hlower : ∀ {i k}, i < l.rows → k ∈ range m.rows →
      l.lowerTriangle i k = Factored.lower l m.rows i k := by
    intro i k hi hk
    have hk := mem_range.mp hk
    rw [Mat.lowerTriangle, Mat.get_ofFn_of_lt hi (hcols ▸ hk), Factored.lower]
    simp only [hk, and_true]
  calc (l.lowerTriangle * l.lowerTriangle.transpose) i j
      = ∑ k ∈ range m.rows, l.lowerTriangle i k * l.lowerTriangle.transpose k j := by
        refine (Mat.mul_get (m := l.lowerTriangle) hi hj).trans ?_
        rw [← hcols]
        rfl
    _ = ∑ k ∈ range m.rows, Factored.lower l m.rows i k * Factored.lower l m.rows j k := by
        refine sum_congr rfl fun k hk => ?_
        rw [Mat.transpose_get, hlower hi hk, hlower hj hk]
    _ = m i j := hfactored.lower_mul_lower hsymm (hfactored.rows ▸ hi) (hfactored.rows ▸ hj)

theorem size_solve (hb : b.size = l.rows) : (solve l b).size = l.rows := by
  have hsize : (solve l b).size = (solveUpper l (solveLower l b)).size +
    (b.slice l.rows (b.size - l.rows)).size :=
    Vec.size_append
  rw [hsize, size_solveUpper, Vec.slice, Vec.size_ofFn, hb, Nat.sub_self, Nat.add_zero]

/-- The solution is the one vector that the matrix takes to the right side. -/
theorem mulVec_eq_iff (hsquare : m.cols = m.rows) (hsymm : ∀ i j, m i j = m j i) (h : factor? m = some l)
    (hb : b.size = m.rows) : (x.size = m.rows ∧ m.mulVec x = b) ↔ x = solve l b := by
  have hrows : l.rows = m.rows := (factored_of_factor? hsquare h).rows
  have hsize : (solve l b).size = m.rows := (size_solve (hb.trans hrows.symm)).trans hrows
  have hsolves : m.mulVec (solve l b) = b := by
    refine Vec.ext (Mat.size_mulVec.trans hb.symm) fun i hi => ?_
    have hi : i < m.rows := by rwa [Mat.size_mulVec] at hi
    rw [Mat.get_mulVec hi, hsquare, sum_mul_solve_eq hsquare hsymm h b hi]
  constructor
  · rintro ⟨hx, hmul⟩
    exact (isSPD_of_factor? hsquare hsymm h).mulVec_injective hx hsize (hmul.trans hsolves.symm)
  · rintro rfl
    exact ⟨hsize, hsolves⟩

/-- A symmetric matrix is factored iff it is positive definite. The factor solves every system of the
    matrix, whatever is above the diagonal. -/
theorem factored_iff_definite {m : Mat ℝ} (hsquare : m.cols = m.rows) (hsymm : ∀ i j, m i j = m j i) :
    ((∃ l, factor? m = some l) ↔ m.IsSPD) ∧
    ∀ l, factor? m = some l → IsFactor m l ∧ ∀ b : Vec ℝ, b.size = m.rows →
      (∀ x : Vec ℝ, (x.size = m.rows ∧ m.mulVec x = b) ↔ x = solve l b) ∧
      ∀ l' : Mat ℝ, l'.SameLower l → solve l' b = solve l b := by
  refine ⟨⟨fun ⟨l, h⟩ => isSPD_of_factor? hsquare hsymm h, fun h => ?_⟩, fun l h => ?_⟩
  · obtain ⟨l, hl, -⟩ := exists_factor h
    exact ⟨l, hl⟩
  · exact ⟨isFactor_of_factor? hsquare hsymm h,
      fun b hb => ⟨fun x => mulVec_eq_iff hsquare hsymm h hb, fun l' hl' => solve_congr hl' b⟩⟩

/-! ### Two unknowns -/

/-- The matrix with rows `2, 1` and `1, 3`. -/
noncomputable def twoByTwo : Mat ℝ := .ofFn 2 2 fun i j => if i = j then (i + 2 : ℕ) else 1

theorem twoByTwo_symm (i j : ℕ) : twoByTwo i j = twoByTwo j i := by
  rw [twoByTwo, Mat.get_ofFn, Mat.get_ofFn]
  by_cases hij : i = j
  · rw [hij]
  · simp only [and_comm, if_neg hij, if_neg (Ne.symm hij)]

theorem isSPD_twoByTwo : twoByTwo.IsSPD := by
  refine ⟨rfl, twoByTwo_symm, fun x ⟨i, hi, hx⟩ => ?_⟩
  have hquad : twoByTwo.quad x = (x 0 + x 1) ^ 2 + (x 0 ^ 2 + 2 * x 1 ^ 2) := by
    rw [Mat.quad, twoByTwo]
    simp only [Mat.rows_ofFn, sum_range_succ, sum_range_zero, zero_add, Mat.get_ofFn]
    norm_num
    ring
  have hcases : i = 0 ∨ i = 1 := by
    have hi : i < 2 := hi
    omega
  rw [hquad]
  rcases hcases with rfl | rfl <;> positivity

theorem factored_twoByTwo : twoByTwo.cols = twoByTwo.rows ∧ (∀ i j, twoByTwo i j = twoByTwo j i) ∧
    ∃ l, factor? twoByTwo = some l ∧ IsFactor twoByTwo l ∧ solve l (.ofList [3, 4]) = .ofList [1, 1] := by
  obtain ⟨hiff, hsolves⟩ := factored_iff_definite (m := twoByTwo) rfl twoByTwo_symm
  obtain ⟨l, hl⟩ := hiff.mpr isSPD_twoByTwo
  obtain ⟨hfactor, hsolve⟩ := hsolves l hl
  refine ⟨rfl, twoByTwo_symm, l, hl, hfactor, (((hsolve (.ofList [3, 4]) rfl).1 _).mp ⟨rfl, ?_⟩).symm⟩
  refine Vec.ext Mat.size_mulVec fun i hi => ?_
  have hi : i < 2 := by rwa [Mat.size_mulVec] at hi
  have hcases : i = 0 ∨ i = 1 := by omega
  rw [Mat.mulVec_get, twoByTwo]
  rcases hcases with rfl | rfl
  all_goals
    simp only [Mat.cols_ofFn, sum_range_succ, sum_range_zero, zero_add, Mat.get_ofFn]
    norm_num [Vec.get, Vec.ofList]

end Cholesky

end CompliantContact
