import CompliantContact.Proofs.Dense.Cholesky
import Mathlib.Algebra.BigOperators.Intervals

/-!
What solving with a Cholesky factor finds.

The first pass solves the lower triangle from its first row down, the second its transpose from the last row
up. The inner product of a right side with the solution for another is that of what the first pass makes of
them, so the form of the inverse is positive (`sum_mul_solve`, `exists_solveLower_ne_zero`).
-/

namespace CompliantContact

namespace Vec

theorem get_push (v : Vec ℝ) (x : ℝ) (i : ℕ) :
    (⟨v.toArray.push x⟩ : Vec ℝ) i = if i = v.size then x else v i := getD_push ..

end Vec

namespace Cholesky

open Finset

variable {l : Mat ℝ} {b c y : Vec ℝ} {n j : ℕ}

/-- The first entries of the solution of the lower triangle. -/
noncomputable def lowerEntries (l : Mat ℝ) (b : Vec ℝ) (n : ℕ) : Vec ℝ :=
  (List.range n).foldl (fun y j =>
    let rest := (List.range j).foldl (fun acc k => acc - l j k * y k) (b j)
    ⟨y.toArray.push (rest / l j j)⟩) ⟨#[]⟩

theorem lowerEntries_succ (l : Mat ℝ) (b : Vec ℝ) (n : ℕ) :
    lowerEntries l b (n + 1) = ⟨(lowerEntries l b n).toArray.push
      ((b n - ∑ k ∈ range n, l n k * lowerEntries l b n k) / l n n)⟩ := by
  rw [lowerEntries, List.range_succ, List.foldl_append, List.foldl_cons, List.foldl_nil, ← lowerEntries,
    foldl_sub_eq]

theorem size_lowerEntries (l : Mat ℝ) (b : Vec ℝ) (n : ℕ) : (lowerEntries l b n).size = n := by
  induction n with
  | zero => rfl
  | succ n ih =>
    rw [lowerEntries_succ, Vec.size, Array.size_push, ← Vec.size, ih]

theorem lowerEntries_spec (hl : ∀ j < n, l j j ≠ 0) :
    ∀ j < n, ∑ k ∈ range (j + 1), l j k * lowerEntries l b n k = b j := by
  induction n with
  | zero => exact nofun
  | succ n ih =>
    intro j hj
    have hkept : ∀ k < n, lowerEntries l b (n + 1) k = lowerEntries l b n k := by
      intro k hk
      rw [lowerEntries_succ, Vec.get_push, size_lowerEntries, if_neg hk.ne]
    rcases (Nat.lt_succ_iff.mp hj).eq_or_lt with rfl | hjn
    · have hlast : lowerEntries l b (j + 1) j =
          (b j - ∑ k ∈ range j, l j k * lowerEntries l b j k) / l j j := by
        rw [lowerEntries_succ, Vec.get_push, size_lowerEntries, if_pos rfl]
      rw [sum_range_succ, hlast, mul_div_cancel₀ _ (hl j hj),
        sum_congr rfl fun k hk => by rw [hkept k (mem_range.mp hk)]]
      ring
    · rw [← ih (fun j hj => hl j (hj.trans n.lt_succ_self)) j hjn]
      refine sum_congr rfl fun k hk => ?_
      have hk := mem_range.mp hk
      rw [hkept k (by omega)]

theorem solveLower_eq (l : Mat ℝ) (b : Vec ℝ) : solveLower l b = lowerEntries l b l.rows := rfl

/-- The last entries of the solution of the transposed triangle, from the last one on. -/
noncomputable def upperEntries (l : Mat ℝ) (y : Vec ℝ) (n : ℕ) : Array ℝ :=
  (List.range n).foldl (fun (x : Array ℝ) step =>
    let j := l.rows - 1 - step
    let rest := (List.range step).foldl (fun acc i =>
      let k := j + 1 + i
      acc - l k j * x.getD (l.rows - 1 - k) 0) (y j)
    x.push (rest / l j j)) #[]

theorem upperEntries_succ (l : Mat ℝ) (y : Vec ℝ) (n : ℕ) :
    upperEntries l y (n + 1) = (upperEntries l y n).push
      ((y (l.rows - 1 - n) - ∑ i ∈ range n, l (l.rows - 1 - n + 1 + i) (l.rows - 1 - n) *
        (upperEntries l y n).getD (l.rows - 1 - (l.rows - 1 - n + 1 + i)) 0) /
          l (l.rows - 1 - n) (l.rows - 1 - n)) := by
  rw [upperEntries, List.range_succ, List.foldl_append, List.foldl_cons, List.foldl_nil, ← upperEntries]
  simp only [foldl_sub_eq]

theorem size_upperEntries (l : Mat ℝ) (y : Vec ℝ) (n : ℕ) : (upperEntries l y n).size = n := by
  induction n with
  | zero => rfl
  | succ n ih => rw [upperEntries_succ, Array.size_push, ih]

theorem upperEntries_spec (hn : n ≤ l.rows) (hl : ∀ j < l.rows, l j j ≠ 0) : ∀ j < l.rows, l.rows - n ≤ j →
    ∑ k ∈ Ico j l.rows, l k j * (upperEntries l y n).getD (l.rows - 1 - k) 0 = y j := by
  induction n with
  | zero =>
    intro j hj hj'
    omega
  | succ n ih =>
    intro j hj hjn
    have hkept : ∀ k, l.rows - n ≤ k → k < l.rows →
        (upperEntries l y (n + 1)).getD (l.rows - 1 - k) 0 =
          (upperEntries l y n).getD (l.rows - 1 - k) 0 := by
      intro k hk hk'
      rw [upperEntries_succ, getD_push, size_upperEntries, if_neg (by omega)]
    rcases hjn.eq_or_lt with heq | hlt
    · -- The new entry belongs to row `j`, and those before it to the rows below.
      have hj' : l.rows - 1 - n = j := by omega
      have hnew : (upperEntries l y (n + 1)).getD (l.rows - 1 - j) 0 = (y j - ∑ i ∈ range n, l (j + 1 + i) j *
          (upperEntries l y n).getD (l.rows - 1 - (j + 1 + i)) 0) / l j j := by
        rw [upperEntries_succ, getD_push, size_upperEntries, if_pos (by omega), hj']
      have hbelow : ∑ k ∈ Ico (j + 1) l.rows, l k j * (upperEntries l y (n + 1)).getD (l.rows - 1 - k) 0 =
          ∑ i ∈ range n, l (j + 1 + i) j * (upperEntries l y n).getD (l.rows - 1 - (j + 1 + i)) 0 := by
        rw [sum_Ico_eq_sum_range, show l.rows - (j + 1) = n by omega]
        refine sum_congr rfl fun i hi => ?_
        have hi := mem_range.mp hi
        rw [hkept (j + 1 + i) (by omega) (by omega)]
      rw [sum_eq_sum_Ico_succ_bot hj, hbelow, hnew, mul_div_cancel₀ _ (hl j hj)]
      ring
    · rw [← ih (by omega) j hj (by omega)]
      refine sum_congr rfl fun k hk => ?_
      have hk := mem_Ico.mp hk
      rw [hkept k (by omega) hk.2]

/-- The first pass solves the lower triangle. -/
theorem solveLower_spec (hl : ∀ j < l.rows, l j j ≠ 0) (hj : j < l.rows) :
    ∑ k ∈ range (j + 1), l j k * solveLower l b k = b j := lowerEntries_spec hl j hj

theorem size_solveUpper (l : Mat ℝ) (y : Vec ℝ) : (solveUpper l y).size = l.rows := by
  show (upperEntries l y l.rows).reverse.size = l.rows
  rw [Array.size_reverse, size_upperEntries]

theorem solveUpper_get (hj : j < l.rows) :
    solveUpper l y j = (upperEntries l y l.rows).getD (l.rows - 1 - j) 0 := by
  show (upperEntries l y l.rows).reverse.getD j 0 = _
  rw [Array.getD_eq_getD_getElem?, Array.getElem?_reverse (by rwa [size_upperEntries]), size_upperEntries,
    Array.getD_eq_getD_getElem?]

/-- The second pass solves the transpose of the lower triangle. -/
theorem solveUpper_spec (hl : ∀ j < l.rows, l j j ≠ 0) (hj : j < l.rows) :
    ∑ k ∈ Ico j l.rows, l k j * solveUpper l y k = y j := by
  rw [← upperEntries_spec le_rfl hl j hj (by omega)]
  exact sum_congr rfl fun k hk => by rw [solveUpper_get (mem_Ico.mp hk).2]

theorem solve_get (b : Vec ℝ) (hj : j < l.rows) : solve l b j = solveUpper l (solveLower l b) j :=
  (Vec.get_append ..).trans (if_pos (by rwa [size_solveUpper]))

/-- Past the size of the matrix a right side stays as it is. -/
theorem solve_get_of_le (b : Vec ℝ) (hj : l.rows ≤ j) : solve l b j = b j := by
  have hget : solve l b j = b.slice l.rows (b.size - l.rows) (j - l.rows) :=
    (Vec.get_append ..).trans (by rw [size_solveUpper, if_neg (not_lt.mpr hj)])
  rw [hget, Vec.slice, Vec.get_ofFn, Nat.add_sub_cancel' hj]
  split_ifs with hinside
  · rfl
  · exact (Vec.get_of_size_le (by omega)).symm

/-! ### Combinations of right sides -/

theorem sum_mul_combine (f u w : ℕ → ℝ) (x z : ℝ) :
    ∑ k ∈ range n, f k * (x * u k + z * w k) = x * ∑ k ∈ range n, f k * u k + z * ∑ k ∈ range n,
    f k * w k := by
  rw [mul_sum, mul_sum, ← sum_add_distrib]
  exact sum_congr rfl fun k _ => by ring

theorem lowerEntries_combine {d : Vec ℝ} {x z : ℝ} (h : ∀ k, d k = x * b k + z * c k) (n k : ℕ) :
    lowerEntries l d n k = x * lowerEntries l b n k + z * lowerEntries l c n k := by
  induction n generalizing k with
  | zero => exact (by ring : (0 : ℝ) = x * 0 + z * 0)
  | succ n ih =>
    simp only [lowerEntries_succ, Vec.get_push, size_lowerEntries]
    split_ifs
    · simp only [ih, h, sum_mul_combine]
      ring
    · exact ih k

theorem upperEntries_combine {d : Vec ℝ} {x z : ℝ} (h : ∀ k, d k = x * b k + z * c k) (n k : ℕ) :
    (upperEntries l d n).getD k 0 = x * (upperEntries l b n).getD k 0 +
      z * (upperEntries l c n).getD k 0 := by
  induction n generalizing k with
  | zero => exact (by ring : (0 : ℝ) = x * 0 + z * 0)
  | succ n ih =>
    simp only [upperEntries_succ, getD_push, size_upperEntries]
    split_ifs
    · simp only [ih, h, sum_mul_combine]
      ring
    · exact ih k

/-- A combination of right sides is solved by that of their solutions. -/
theorem solve_combine {d : Vec ℝ} {x z : ℝ} (h : ∀ k, d k = x * b k + z * c k) (k : ℕ) :
    solve l d k = x * solve l b k + z * solve l c k := by
  by_cases hk : k < l.rows
  · have hlower : ∀ k, solveLower l d k = x * solveLower l b k + z * solveLower l c k :=
      lowerEntries_combine h l.rows
    rw [solve_get d hk, solve_get b hk, solve_get c hk, solveUpper_get hk, solveUpper_get hk,
      solveUpper_get hk]
    exact upperEntries_combine hlower l.rows _
  · rw [solve_get_of_le d (not_lt.mp hk), solve_get_of_le b (not_lt.mp hk),
      solve_get_of_le c (not_lt.mp hk), h]

theorem solve_zero (l : Mat ℝ) (hb : ∀ k, b k = 0) (k : ℕ) : solve l b k = 0 := by
  have hcombine := solve_combine (l := l) (b := b) (c := b) (d := b) (x := 0) (z :=
    0) (fun k => by rw [hb]; ring) k
  rw [hcombine]
  ring

/-- The form of the inverse is the inner product of what the first pass finds. -/
theorem sum_mul_solve (hl : ∀ j < l.rows, l j j ≠ 0) (b c : Vec ℝ) :
    ∑ i ∈ range l.rows, b i * solve l c i = ∑ i ∈ range l.rows, solveLower l b i * solveLower l c i := by
  calc ∑ i ∈ range l.rows, b i * solve l c i
      = ∑ i ∈ range l.rows, ∑ k ∈ range (i + 1), l i k * solveLower l b k * solve l c i := by
        refine sum_congr rfl fun i hi => ?_
        rw [← sum_mul, solveLower_spec hl (mem_range.mp hi)]
    _ = ∑ k ∈ range l.rows, ∑ i ∈ Ico k l.rows, l i k * solveLower l b k * solve l c i := by
        rw [sum_comm' fun i k => ?_]
        simp only [mem_range, mem_Ico]
        omega
    _ = ∑ k ∈ range l.rows, solveLower l b k * solveLower l c k := by
        refine sum_congr rfl fun k hk => ?_
        rw [← solveUpper_spec (y := solveLower l c) hl (mem_range.mp hk), mul_sum]
        refine sum_congr rfl fun i hi => ?_
        rw [solve_get c (mem_Ico.mp hi).2]
        ring

theorem exists_solveLower_ne_zero (hl : ∀ j < l.rows, l j j ≠ 0) (hj : j < l.rows) (hb : b j ≠ 0) :
    ∃ k < l.rows, solveLower l b k ≠ 0 := by
  by_contra hzero
  push Not at hzero
  refine hb ?_
  rw [← solveLower_spec hl hj]
  refine sum_eq_zero fun k hk => ?_
  rw [hzero k (by have := mem_range.mp hk; omega), mul_zero]

theorem sum_mul_solve_self_nonneg (hl : ∀ j < l.rows, l j j ≠ 0) (b : Vec ℝ) :
    0 ≤ ∑ i ∈ range l.rows, b i * solve l b i := by
  rw [sum_mul_solve hl]
  exact sum_nonneg fun i _ => mul_self_nonneg _

/-- The form of the inverse is positive but at zero. -/
theorem sum_mul_solve_self_pos (hl : ∀ j < l.rows, l j j ≠ 0) (hj : j < l.rows) (hb : b j ≠ 0) :
    0 < ∑ i ∈ range l.rows, b i * solve l b i := by
  obtain ⟨k, hk, hne⟩ := exists_solveLower_ne_zero hl hj hb
  rw [sum_mul_solve hl]
  exact sum_pos' (fun i _ => mul_self_nonneg _) ⟨k, mem_range.mpr hk, mul_self_pos.mpr hne⟩

/-- The solution of a symmetric system whose matrix has a factor. -/
theorem sum_mul_solve_eq {m : Mat ℝ} (hsquare : m.cols = m.rows) (hsymm : ∀ i j, m i j = m j i)
    (h : factor? m = some l)
    (b : Vec ℝ) {i : ℕ} (hi : i < m.rows) : ∑ j ∈ range m.rows, m i j * solve l b j = b i := by
  have hfactored := factored_of_factor? hsquare h
  have hrows : l.rows = m.rows := hfactored.rows
  have hl : ∀ j < l.rows, l j j ≠ 0 := fun j hj => (hfactored.pos j (hrows ▸ hj)).ne'
  -- An entry is the product of two rows of the factor, up to the diagonal.
  have hentry : ∀ j ∈ range m.rows, m i j = ∑ n ∈ range (i + 1), if n ≤ j then l i n * l j n else 0 := by
    intro j hj
    have hj := mem_range.mp hj
    rw [← sum_filter]
    rcases le_total i j with hij | hji
    · rw [hsymm, ← hfactored.product i hi j hj hij, filter_true_of_mem]
      · exact sum_congr rfl fun n _ => mul_comm ..
      · intro n hn
        have := mem_range.mp hn
        omega
    · rw [← hfactored.product j hj i hi hji]
      refine sum_congr ?_ fun n _ => rfl
      ext n
      simp only [mem_range, mem_filter]
      omega
  calc ∑ j ∈ range m.rows, m i j * solve l b j
      = ∑ j ∈ range m.rows, ∑ n ∈ range (i + 1), (if n ≤ j then l i n * l j n else 0) * solve l b j :=
        sum_congr rfl fun j hj => by rw [hentry j hj, sum_mul]
    _ = ∑ n ∈ range (i + 1), ∑ j ∈ range m.rows,
    (if n ≤ j then l i n * l j n else 0) * solve l b j := sum_comm
    _ = ∑ n ∈ range (i + 1), l i n * solveLower l b n := by
        refine sum_congr rfl fun n hn => ?_
        have hn : n < l.rows := by
          have := mem_range.mp hn
          omega
        rw [← solveUpper_spec (y := solveLower l b) hl hn, mul_sum, hrows, range_eq_Ico,
          ← sum_subset (Ico_subset_Ico_left (Nat.zero_le n))]
        · refine sum_congr rfl fun j hj => ?_
          obtain ⟨hnj, hj⟩ := mem_Ico.mp hj
          rw [if_pos hnj, solve_get b (hrows ▸ hj)]
          ring
        · intro j hj hout
          rw [if_neg fun hnj => hout (mem_Ico.mpr ⟨hnj, (mem_Ico.mp hj).2⟩), zero_mul]
    _ = b i := solveLower_spec hl (hrows ▸ hi)

end Cholesky

end CompliantContact
