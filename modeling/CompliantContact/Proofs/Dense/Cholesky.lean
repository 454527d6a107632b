import CompliantContact.Dense.Cholesky
import CompliantContact.Proofs.Dense.Algebra

/-!
A symmetric positive definite matrix has a Cholesky factor.

After some columns the lower triangle holds them of the factor, and the rest of the matrix is as before
(`Factored`). The next pivot is the value of the quadratic form at a vector that the columns so far take
to zero, and so it is positive.
-/

namespace CompliantContact.Cholesky

open Finset

variable {m f : Mat ℝ} {i j k : ℕ}

theorem foldl_sub_eq (n : ℕ) (f : ℕ → ℝ) (a : ℝ) :
    (List.range n).foldl (fun acc k => acc - f k) a = a - ∑ k ∈ range n, f k := by
  induction n with
  | zero => simp
  | succ n ih =>
    rw [List.range_succ, List.foldl_append, ih, sum_range_succ]
    simp only [List.foldl_cons, List.foldl_nil]
    ring

theorem reduced_eq (m : Mat ℝ) (i j : ℕ) : reduced m i j = m i j - ∑ k ∈ range j, m i k * m j k :=
  foldl_sub_eq j (fun k => m i k * m j k) (m i j)

/-- The matrix whose first `j` columns are factored. -/
structure Factored (m : Mat ℝ) (j : ℕ) (f : Mat ℝ) : Prop where
  rows : f.rows = m.rows
  cols : f.cols = m.cols
  rest : ∀ i k, j ≤ k ∨ i < k → f i k = m i k
  pos : ∀ k < j, 0 < f k k
  product : ∀ k < j, ∀ i < m.rows, k ≤ i → ∑ l ∈ range (k + 1), f i l * f k l = m i k

namespace Factored

theorem zero (m : Mat ℝ) : Factored m 0 m :=
  ⟨rfl, rfl, fun _ _ _ => rfl, nofun, nofun⟩

/-- A vector that ends with a one at `j`, and that the first columns take to zero from column `k` on. It is
    found from its end. -/
theorem exists_kernel (h : Factored m j f) (hk : k ≤ j) :
    ∃ y : ℕ → ℝ, y j = 1 ∧ (∀ i, j < i → y i = 0) ∧ ∀ l, k ≤ l → l < j →
    ∑ i ∈ Ico l (j + 1), f i l * y i = 0 := by
  -- Upward from row `j`: the new entry in row `k` cancels what those below it leave in column `k`.
  induction hk using Nat.decreasingInduction with
  | self =>
    exact ⟨fun i => if i = j then 1 else 0, if_pos rfl, fun i hi => if_neg hi.ne', fun l hl hl' =>
      absurd hl' (not_lt.mpr hl)⟩
  | of_succ k hk ih =>
    obtain ⟨y, hone, hzero, hsum⟩ := ih
    have hpivot : f k k ≠ 0 := (h.pos k hk).ne'
    refine ⟨Function.update y k (-(∑ i ∈ Ico (k + 1) (j + 1), f i k * y i) / f k k), ?_, ?_, ?_⟩
    · rw [Function.update_of_ne hk.ne', hone]
    · intro i hi
      rw [Function.update_of_ne (hk.trans hi).ne', hzero i hi]
    · intro l hl hlj
      -- Above the diagonal the new entry has no part.
      have hsame : ∀ i ∈ Ico (l + 1) (j + 1),
          f i l * Function.update y k (-(∑ i ∈ Ico (k + 1) (j + 1), f i k * y i) / f k k) i =
            f i l * y i := by
        intro i hi
        rw [Function.update_of_ne]
        have := (mem_Ico.mp hi).1
        omega
      rw [sum_eq_sum_Ico_succ_bot (by omega), sum_congr rfl hsame]
      rcases hl.eq_or_lt with rfl | hlt
      · rw [Function.update_self]
        field_simp
        ring
      · rw [Function.update_of_ne hlt.ne', ← sum_eq_sum_Ico_succ_bot (by omega) fun i => f i l * y i]
        exact hsum l hlt hlj

/-- The entries of the first columns on and below the diagonal. -/
def lower (f : Mat ℝ) (j i l : ℕ) : ℝ := if l ≤ i ∧ l < j then f i l else 0

/-- The products of the first columns are the entries of the matrix, all but the next one on the diagonal. -/
theorem lower_mul_eq (h : Factored m j f) (hi : i < m.rows) (hij : i ≤ j) (hki : k ≤ i) :
    ∑ l ∈ range j, lower f j i l * lower f j k l = m i k - if k = j then reduced f j j else 0 := by
  rcases (hki.trans hij).eq_or_lt with rfl | hkj
  · obtain rfl : i = k := le_antisymm hij hki
    have hsum : ∀ l ∈ range i, lower f i i l * lower f i i l = f i l * f i l := by
      intro l hl
      rw [lower, if_pos ⟨(mem_range.mp hl).le, mem_range.mp hl⟩]
    rw [sum_congr rfl hsum, if_pos rfl, reduced_eq, h.rest i i (.inl le_rfl)]
    ring
  · have hzero : ∀ l ∈ range j, l ∉ range (k + 1) → lower f j i l * lower f j k l = 0 := by
      intro l _ hl
      have hlk : lower f j k l = 0 := if_neg fun hl' => hl (mem_range.mpr (Nat.lt_succ_of_le hl'.1))
      rw [hlk, mul_zero]
    rw [if_neg hkj.ne, sub_zero, ← h.product k hkj i hi hki, ← sum_subset (range_mono hkj) hzero]
    refine sum_congr rfl fun l hl => ?_
    have hlk : l ≤ k := Nat.lt_succ_iff.mp (mem_range.mp hl)
    rw [lower, lower, if_pos ⟨hlk.trans hki, by omega⟩, if_pos ⟨hlk, by omega⟩]

theorem entry_eq (h : Factored m j f) (hm : m.IsSPD) (hj : j < m.rows) (hi : i ≤ j) (hk : k ≤ j) :
    m i k = ∑ l ∈ range j, lower f j i l * lower f j k l + if i = j then
      (if k = j then reduced f j j else 0) else 0 := by
  rcases le_total k i with hki | hik
  · rw [h.lower_mul_eq (hi.trans_lt hj) hi hki]
    split_ifs with hkj hij <;> first | omega | ring
  · have hcomm : ∀ l ∈ range j, lower f j i l * lower f j k l = lower f j k l * lower f j i l :=
      fun l _ => mul_comm ..
    rw [hm.symm, sum_congr rfl hcomm, h.lower_mul_eq (hk.trans_lt hj) hk hik]
    split_ifs with hij hkj <;> first | omega | ring

/-- On vectors that end with a one at `j` the quadratic form is that of the first columns, and of the next
    pivot. -/
theorem quad_eq (h : Factored m j f) (hm : m.IsSPD) (hj : j < m.rows) {y : ℕ → ℝ} (hone : y j = 1)
    (hzero : ∀ i, j < i → y i = 0) :
    m.quad y = ∑ l ∈ range j, (∑ i ∈ range (j + 1), lower f j i l * y i) ^ 2 + reduced f j j := by
  have hrange : ∀ i ∉ range (j + 1), y i = 0 := fun i hi => hzero i (by simpa using hi)
  have hsubset : range (j + 1) ⊆ range m.rows := range_mono hj
  -- The columns before `j` give every entry but the last, which lacks the new pivot.
  have hentry : ∀ i ∈ range (j + 1), ∀ k ∈ range (j + 1), y i * m i k * y k =
      ∑ l ∈ range j, lower f j i l * y i * (lower f j k l * y k) +
        if i = j then (if k = j then reduced f j j else 0) else 0 := by
    intro i hi k hk
    rw [h.entry_eq hm hj (Nat.lt_succ_iff.mp (mem_range.mp hi)) (Nat.lt_succ_iff.mp (mem_range.mp hk)),
      mul_add, add_mul, mul_sum, sum_mul]
    congr 1
    · exact sum_congr rfl fun l _ => by ring
    · split_ifs with hij hkj
      · rw [hij, hkj, hone]
        ring
      · ring
      · ring
  calc m.quad y = ∑ i ∈ range (j + 1), ∑ k ∈ range (j + 1), y i * m i k * y k := by
        rw [Mat.quad, ← sum_subset hsubset fun i _ hi => by simp [hrange i hi]]
        refine sum_congr rfl fun i _ => ?_
        rw [← sum_subset hsubset fun k _ hk => by simp [hrange k hk]]
    _ = ∑ i ∈ range (j + 1), ∑ k ∈ range (j + 1), ∑ l ∈ range j, lower f j i l * y i * (lower f j k l * y k) +
        reduced f j j := by
      rw [sum_congr rfl fun i hi => sum_congr rfl (hentry i hi)]
      simp only [sum_add_distrib]
      congr 1
      simp
    _ = ∑ l ∈ range j, (∑ i ∈ range (j + 1), lower f j i l * y i) ^ 2 + reduced f j j := by
      congr 1
      rw [sum_congr rfl fun i _ => sum_comm, sum_comm]
      exact sum_congr rfl fun l _ => by rw [sq, sum_mul_sum]

theorem pivot_pos (h : Factored m j f) (hm : m.IsSPD) (hj : j < m.rows) : 0 < reduced f j j := by
  obtain ⟨y, hone, hzero, hkernel⟩ := h.exists_kernel (Nat.zero_le j)
  have hpos : 0 < m.quad y := hm.pos y ⟨j, hj, by rw [hone]; exact one_ne_zero⟩
  have hcolumns : ∀ l ∈ range j, (∑ i ∈ range (j + 1), lower f j i l * y i) ^ 2 = 0 := by
    intro l hl
    have hlj := mem_range.mp hl
    have hsubset : Ico l (j + 1) ⊆ range (j + 1) := by
      rw [range_eq_Ico]
      exact Ico_subset_Ico_left (Nat.zero_le l)
    have habove : ∀ i ∈ range (j + 1), i ∉ Ico l (j + 1) → lower f j i l * y i = 0 := by
      intro i hi hi'
      have hil : ¬ l ≤ i := fun hil => hi' (mem_Ico.mpr ⟨hil, mem_range.mp hi⟩)
      rw [lower, if_neg fun h => hil h.1, zero_mul]
    rw [← sum_subset hsubset habove, pow_eq_zero_iff two_ne_zero, ← hkernel l (Nat.zero_le l) hlj]
    refine sum_congr rfl fun i hi => ?_
    rw [lower, if_pos ⟨(mem_Ico.mp hi).1, hlj⟩]
  rwa [h.quad_eq hm hj hone hzero, sum_eq_zero hcolumns, zero_add] at hpos

/-- The matrix with its next column written. -/
noncomputable def written (f : Mat ℝ) (j : ℕ) : Mat ℝ :=
  .ofFn f.rows f.cols fun i k =>
    if k ≠ j ∨ i < j then f i k
    else if i = j then √(reduced f j j)
    else reduced f i j / √(reduced f j j)

theorem writeColumn_eq_some (h : 0 < reduced f j j) : writeColumn f j = some (written f j) :=
  if_pos h

theorem written_of_ne (h : k ≠ j ∨ i < j) : written f j i k = f i k := by
  rw [written, Mat.get_ofFn]
  by_cases hik : i < f.rows ∧ k < f.cols
  · rw [if_pos hik, if_pos h]
  · rw [if_neg hik, Mat.get_outside hik]

theorem eq_of_writeColumn {g : Mat ℝ} (h : writeColumn f j = some g) : 0 < reduced f j j ∧
    g = written f j := by
  by_cases hpivot : 0 < reduced f j j
  · rw [writeColumn_eq_some hpivot] at h
    exact ⟨hpivot, (Option.some.inj h).symm⟩
  · rw [writeColumn] at h
    exact absurd ((if_neg hpivot).symm.trans h) nofun

theorem succ (h : Factored m j f) (hsquare : m.cols = m.rows) (hreduced : 0 < reduced f j j)
    (hj : j < m.rows) :
    Factored m (j + 1) (written f j) := by
  have hpivot : 0 < √(reduced f j j) := Real.sqrt_pos.mpr hreduced
  have hrow : j < f.rows := h.rows ▸ hj
  have hcol : j < f.cols := by rw [h.cols, hsquare]; exact hj
  have hdiagonal : written f j j j = √(reduced f j j) := by
    rw [written, Mat.get_ofFn_of_lt hrow hcol, if_neg (by simp), if_pos rfl]
  refine ⟨h.rows, h.cols, fun i k hik => ?_, fun k hk => ?_, fun k hk i hi hki => ?_⟩
  · rw [written_of_ne (by omega)]
    exact h.rest i k (by omega)
  · rcases (Nat.lt_succ_iff.mp hk).eq_or_lt with rfl | hkj
    · rw [hdiagonal]
      exact hpivot
    · rw [written_of_ne (.inl hkj.ne)]
      exact h.pos k hkj
  · rcases (Nat.lt_succ_iff.mp hk).eq_or_lt with rfl | hkj
    · have hbefore : ∀ l ∈ range k, written f k i l * written f k k l = f i l * f k l := by
        intro l hl
        have hne : l ≠ k := (mem_range.mp hl).ne
        rw [written_of_ne (.inl hne), written_of_ne (.inl hne)]
      have hlast : written f k i k * written f k k k = reduced f i k := by
        rw [hdiagonal]
        rcases hki.eq_or_lt with rfl | hlt
        · rw [hdiagonal, Real.mul_self_sqrt hreduced.le]
        · rw [written, Mat.get_ofFn_of_lt (h.rows ▸ hi) hcol, if_neg (by omega), if_neg hlt.ne',
            div_mul_cancel₀ _ hpivot.ne']
      rw [sum_range_succ, sum_congr rfl hbefore, hlast, reduced_eq, h.rest i k (.inl le_rfl)]
      ring
    · rw [← h.product k hkj i hi hki]
      refine sum_congr rfl fun l hl => ?_
      have hne : l ≠ j := by
        have := mem_range.mp hl
        omega
      rw [written_of_ne (.inl hne), written_of_ne (.inl hne)]

end Factored

/-- A symmetric positive definite matrix has a factor, whose lower triangle times its transpose is the
    matrix. -/
theorem exists_factor (hm : m.IsSPD) : ∃ f, factor? m = some f ∧ Factored m m.rows f := by
  have hrun : ∀ n ≤ m.rows, ∃ f, (List.range n).foldlM writeColumn m = some f ∧ Factored m n f := by
    intro n hn
    induction n with
    | zero => exact ⟨m, rfl, .zero m⟩
    | succ n ih =>
      obtain ⟨f, hf, hfactored⟩ := ih (Nat.le_of_succ_le hn)
      refine ⟨Factored.written f n, ?_, hfactored.succ hm.square (hfactored.pivot_pos hm hn) hn⟩
      rw [List.range_succ, List.foldlM_append, hf]
      show ([n].foldlM writeColumn f) = _
      rw [List.foldlM_cons, Factored.writeColumn_eq_some (hfactored.pivot_pos hm hn)]
      rfl
  exact hrun m.rows le_rfl

/-- A factor that was found is one, whether or not the matrix is known to be positive definite. -/
theorem factored_of_factor? (hsquare : m.cols = m.rows) (h : factor? m = some f) : Factored m m.rows f := by
  have hrun : ∀ n ≤ m.rows, ∀ g, (List.range n).foldlM writeColumn m = some g → Factored m n g := by
    intro n hn
    induction n with
    | zero =>
      intro g hg
      cases hg
      exact .zero m
    | succ n ih =>
      intro g hg
      rw [List.range_succ, List.foldlM_append] at hg
      obtain ⟨f, hf, hg⟩ := Option.bind_eq_some_iff.mp hg
      rw [List.foldlM_cons] at hg
      obtain ⟨g', hwrite, hg⟩ := Option.bind_eq_some_iff.mp hg
      obtain rfl : g' = g := Option.some.inj hg
      obtain ⟨hpivot, rfl⟩ := Factored.eq_of_writeColumn hwrite
      exact (ih (Nat.le_of_succ_le hn) f hf).succ hsquare hpivot hn
  exact hrun m.rows le_rfl f h

end CompliantContact.Cholesky
