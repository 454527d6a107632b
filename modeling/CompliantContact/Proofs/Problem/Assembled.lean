import CompliantContact.Problem
import CompliantContact.Proofs.Dense.Algebra

/-!
The dynamics matrix of all velocities.

It has the matrices of the trees along its diagonal, and so its quadratic form is the sum of theirs.
-/

namespace CompliantContact.Problem

open Finset

section
variable {α : Type} [Scalar α]

/-- The entry of the matrix with given blocks along its diagonal. -/
def blockEntry : List (Mat α) → ℕ → ℕ → α
  | [], _, _ => 0
  | a :: rest, i, j =>
    if i < a.rows then (if j < a.rows then a i j else 0)
    else if j < a.rows then 0 else blockEntry rest (i - a.rows) (j - a.rows)

/-- The entry of a block for two places. -/
def placedEntry (blocks : List (Mat α)) : Option (ℕ × ℕ) → Option (ℕ × ℕ) → α
  | some (t, i), some (s, j) => if t = s then ((blocks[t]?.map fun a => a i j).getD 0) else 0
  | _, _ => 0

omit [Scalar α] in
theorem locate_succ (blocks : List (Mat α)) (t v : ℕ) :
    locate blocks (t + 1) v = (locate blocks t v).map fun p => (p.1 + 1, p.2) := by
  induction blocks generalizing t v with
  | nil => rfl
  | cons a rest ih =>
    rw [locate, locate]
    split
    · rfl
    · exact ih (t + 1) (v - a.rows)

theorem placedEntry_cons_succ (a : Mat α) (rest : List (Mat α)) (x y : Option (ℕ × ℕ)) :
    placedEntry (a :: rest) (x.map fun p => (p.1 + 1, p.2)) (y.map fun p => (p.1 + 1, p.2)) =
      placedEntry rest x y := by
  cases x with
  | none => rfl
  | some x =>
    cases y with
    | none => rfl
    | some y => simp [placedEntry]

theorem placedEntry_locate (blocks : List (Mat α)) (i j : ℕ) :
    placedEntry blocks (locate blocks 0 i) (locate blocks 0 j) = blockEntry blocks i j := by
  induction blocks generalizing i j with
  | nil => rfl
  | cons a rest ih =>
    rw [locate, locate, blockEntry]
    by_cases hi : i < a.rows <;> by_cases hj : j < a.rows <;> simp only [hi, hj, if_true, if_false]
    · simp [placedEntry]
    · rw [locate_succ]
      cases locate rest 0 (j - a.rows) <;> simp [placedEntry]
    · rw [locate_succ]
      cases locate rest 0 (i - a.rows) <;> simp [placedEntry]
    · rw [locate_succ, locate_succ, placedEntry_cons_succ]
      exact ih _ _

theorem dynamicsMatrix_get (p : Problem α) {i j : ℕ} (hi : i < p.numVelocities) (hj : j < p.numVelocities) :
    p.dynamicsMatrix i j = blockEntry p.dynamics.toList i j := by
  rw [← placedEntry_locate, dynamicsMatrix, Mat.get_ofFn_of_lt hi hj]
  simp only [Array.getD, Array.size_ofFn, hi, hj, ↓reduceDIte, Array.getInternal_eq_getElem,
    Array.getElem_ofFn]
  cases locate p.dynamics.toList 0 i with
  | none => rfl
  | some x =>
    cases locate p.dynamics.toList 0 j with
    | none => rfl
    | some y => simp [placedEntry]

end

/-- The number of rows of all blocks. -/
def totalRows (blocks : List (Mat ℝ)) : ℕ := total (blocks.map Mat.rows)

/-- In the row of a block stand its entries, and zeros outside its columns. -/
theorem blockEntry_of_block {blocks : List (Mat ℝ)} {t i j : ℕ} {a : Mat ℝ} (ht : blocks[t]? = some a)
    (hfirst : total ((blocks.take t).map Mat.rows) ≤ i)
    (hlast : i < total ((blocks.take t).map Mat.rows) + a.rows) :
    blockEntry blocks i j =
      if total ((blocks.take t).map Mat.rows) ≤ j ∧ j < total ((blocks.take t).map Mat.rows) + a.rows then
        a (i - total ((blocks.take t).map Mat.rows)) (j - total ((blocks.take t).map Mat.rows)) else 0 := by
  induction blocks generalizing t i j with
  | nil => cases ht
  | cons b rest ih =>
    cases t with
    | zero =>
      obtain rfl : b = a := Option.some.inj ht
      have hzero : total (((b :: rest).take 0).map Mat.rows) = 0 := rfl
      rw [hzero] at hlast ⊢
      rw [blockEntry, if_pos (by omega)]
      simp
    | succ t =>
      have hshift : total (((b :: rest).take (t + 1)).map Mat.rows) =
        b.rows + total ((rest.take t).map Mat.rows) := rfl
      rw [hshift] at hfirst hlast ⊢
      rw [blockEntry, if_neg (by omega)]
      by_cases hj : j < b.rows
      · rw [if_pos hj, if_neg (by omega)]
      · rw [if_neg hj, ih (t := t) ht (by omega) (by omega)]
        simp only [Nat.sub_sub]
        congr 1
        exact propext (by omega)

theorem blockEntry_symm {blocks : List (Mat ℝ)} (h : ∀ a ∈ blocks, a.IsSPD) (i j : ℕ) :
    blockEntry blocks i j = blockEntry blocks j i := by
  induction blocks generalizing i j with
  | nil => rfl
  | cons a rest ih =>
    rw [blockEntry, blockEntry]
    by_cases hi : i < a.rows <;> by_cases hj : j < a.rows <;> simp only [hi, hj, if_true, if_false]
    · exact (h a (List.mem_cons_self ..)).symm i j
    · exact ih (fun b hb => h b (List.mem_cons_of_mem _ hb)) _ _

/-- The quadratic form of the matrix with given blocks along its diagonal. -/
noncomputable def blockQuad (blocks : List (Mat ℝ)) (x : ℕ → ℝ) : ℝ :=
  ∑ i ∈ range (totalRows blocks), ∑ j ∈ range (totalRows blocks), x i * blockEntry blocks i j * x j

theorem blockQuad_cons (a : Mat ℝ) (rest : List (Mat ℝ)) (x : ℕ → ℝ) :
    blockQuad (a :: rest) x = a.quad x + blockQuad rest fun i => x (a.rows + i) := by
  have hrows : totalRows (a :: rest) = a.rows + totalRows rest := rfl
  rw [blockQuad, hrows, sum_range_add, Mat.quad, blockQuad]
  congr 1
  · refine sum_congr rfl fun i hi => ?_
    have hi := mem_range.mp hi
    have hright : ∀ j ∈ range (totalRows rest),
        x i * blockEntry (a :: rest) i (a.rows + j) * x (a.rows + j) = 0 := by
      intro j _
      rw [blockEntry, if_pos hi, if_neg (by omega), mul_zero, zero_mul]
    rw [sum_range_add, sum_eq_zero hright, add_zero]
    refine sum_congr rfl fun j hj => ?_
    rw [blockEntry, if_pos hi, if_pos (mem_range.mp hj)]
  · refine sum_congr rfl fun i _ => ?_
    have hleft : ∀ j ∈ range a.rows, x (a.rows + i) * blockEntry (a :: rest) (a.rows + i) j * x j = 0 := by
      intro j hj
      rw [blockEntry, if_neg (by omega), if_pos (mem_range.mp hj), mul_zero, zero_mul]
    rw [sum_range_add, sum_eq_zero hleft, zero_add]
    refine sum_congr rfl fun j _ => ?_
    rw [blockEntry, if_neg (by omega), if_neg (by omega), Nat.add_sub_cancel_left, Nat.add_sub_cancel_left]

theorem blockQuad_nonneg {blocks : List (Mat ℝ)} (h : ∀ a ∈ blocks, a.IsSPD) (x : ℕ → ℝ) :
    0 ≤ blockQuad blocks x := by
  induction blocks generalizing x with
  | nil => exact le_of_eq rfl
  | cons a rest ih =>
    rw [blockQuad_cons]
    have ha := (h a (List.mem_cons_self ..)).quad_nonneg x
    have hrest := ih (fun b hb => h b (List.mem_cons_of_mem _ hb)) fun i => x (a.rows + i)
    exact add_nonneg ha hrest

theorem blockQuad_pos {blocks : List (Mat ℝ)} (h : ∀ a ∈ blocks, a.IsSPD) {x : ℕ → ℝ} {i : ℕ}
    (hi : i < totalRows blocks) (hx : x i ≠ 0) : 0 < blockQuad blocks x := by
  induction blocks generalizing x i with
  | nil => cases hi
  | cons a rest ih =>
    have ha := h a (List.mem_cons_self ..)
    have hrest : ∀ b ∈ rest, b.IsSPD := fun b hb => h b (List.mem_cons_of_mem _ hb)
    rw [blockQuad_cons]
    by_cases hia : i < a.rows
    · exact add_pos_of_pos_of_nonneg (ha.pos x ⟨i, hia, hx⟩) (blockQuad_nonneg hrest _)
    · have hrows : totalRows (a :: rest) = a.rows + totalRows rest := rfl
      have hpos : 0 < blockQuad rest fun k => x (a.rows + k) :=
        ih hrest (i := i - a.rows) (by omega) (by rwa [Nat.add_sub_cancel' (not_lt.mp hia)])
      exact add_pos_of_nonneg_of_pos (ha.quad_nonneg x) hpos

/-- With symmetric positive definite matrices of the trees, that of all velocities is so too. -/
theorem isSPD_dynamicsMatrix {p : Problem ℝ}
    (hsize : p.freeVelocities.size = total (p.dynamics.toList.map Mat.rows))
    (h : ∀ a ∈ p.dynamics.toList, a.IsSPD) : p.dynamicsMatrix.IsSPD := by
  have hrows : p.dynamicsMatrix.rows = totalRows p.dynamics.toList := hsize
  have hentry : ∀ i ∈ range p.dynamicsMatrix.rows, ∀ j ∈ range p.dynamicsMatrix.rows,
      p.dynamicsMatrix i j = blockEntry p.dynamics.toList i j := fun i hi j hj =>
    dynamicsMatrix_get p (mem_range.mp hi) (mem_range.mp hj)
  refine ⟨rfl, fun i j => ?_, fun x ⟨i, hi, hx⟩ => ?_⟩
  · by_cases hij : i < p.numVelocities ∧ j < p.numVelocities
    · rw [dynamicsMatrix_get p hij.1 hij.2, dynamicsMatrix_get p hij.2 hij.1, blockEntry_symm h]
    · have hji : ¬ (j < p.numVelocities ∧ i < p.numVelocities) := fun h => hij h.symm
      have hzero : p.dynamicsMatrix i j = 0 := Mat.get_outside hij
      have hzero' : p.dynamicsMatrix j i = 0 := Mat.get_outside hji
      rw [hzero, hzero']
  · have hquad : p.dynamicsMatrix.quad x = blockQuad p.dynamics.toList x := by
      rw [Mat.quad, blockQuad, ← hrows]
      exact sum_congr rfl fun i hi => sum_congr rfl fun j hj => by rw [hentry i hi j hj]
    rw [hquad]
    exact blockQuad_pos h (hrows ▸ hi) hx

end CompliantContact.Problem
