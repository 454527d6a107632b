import CompliantContact.Proofs.Dense.Cholesky

/-!
Definite matrices.

A symmetric matrix between a matrix and its transpose stays positive semidefinite, and a sum with one
that is positive definite is positive definite. A symmetric matrix that has a Cholesky factor is
positive definite: its form is a sum of squares, with one for each column of the factor.
-/

namespace CompliantContact

open Finset

namespace Mat

variable {m n l : Mat ℝ} {i j : ℕ} {x : ℕ → ℝ}

structure IsPSD (m : Mat ℝ) : Prop where
  square : m.cols = m.rows
  symm : ∀ i j, m i j = m j i
  nonneg : ∀ x : ℕ → ℝ, 0 ≤ m.quad x

theorem quad_congr {y : ℕ → ℝ} (h : ∀ i < m.rows, x i = y i) : m.quad x = m.quad y :=
  sum_congr rfl fun i hi => sum_congr rfl fun j hj => by rw [h i (mem_range.mp hi), h j (mem_range.mp hj)]

/-! ### Sums -/

theorem quad_add (hsquare : m.cols = m.rows) (hrows : n.rows = m.rows) :
    (m + n).quad x = m.quad x + n.quad x := by
  rw [quad, quad, quad, hrows, rows_add, ← sum_add_distrib]
  refine sum_congr rfl fun i hi => ?_
  rw [← sum_add_distrib]
  refine sum_congr rfl fun j hj => ?_
  rw [get_add (mem_range.mp hi) (hsquare ▸ mem_range.mp hj)]
  ring

theorem IsSPD.add (hm : m.IsSPD) (hn : n.IsPSD) (hrows : n.rows = m.rows) : (m + n).IsSPD where
  square := hm.square
  symm i j := by
    by_cases h : i < m.rows ∧ j < m.rows
    · rw [get_add h.1 (hm.square ▸ h.2), get_add h.2 (hm.square ▸ h.1), hm.symm, hn.symm]
    · have hout : ∀ {i j}, ¬ (i < m.rows ∧ j < m.rows) → (m + n) i j = 0 := fun h =>
        get_outside (by rwa [rows_add, cols_add, hm.square])
      rw [hout h, hout fun h' => h h'.symm]
  pos x hx := by
    rw [quad_add hm.square hrows]
    exact add_pos_of_pos_of_nonneg (hm.pos x hx) (hn.nonneg x)

/-- Matrices added one after another. -/
theorem foldl_add (ms : List (Mat ℝ)) (m : Mat ℝ) :
    (ms.foldl (· + ·) m).rows = m.rows ∧ (ms.foldl (· + ·) m).cols = m.cols ∧
      ∀ i < m.rows, ∀ j < m.cols, ms.foldl (· + ·) m i j = m i j + (ms.map fun n => n i j).sum := by
  induction ms generalizing m with
  | nil => exact ⟨rfl, rfl, fun i _ j _ => (add_zero _).symm⟩
  | cons n ms ih =>
    obtain ⟨hrows, hcols, hentry⟩ := ih (m + n)
    refine ⟨hrows, hcols, fun i hi j hj => ?_⟩
    rw [List.foldl_cons, hentry i hi j hj, get_add hi hj, List.map_cons, List.sum_cons, add_assoc]

theorem IsSPD.foldl_add {ms : List (Mat ℝ)} (hm : m.IsSPD) (h : ∀ n ∈ ms, n.IsPSD ∧ n.rows = m.rows) :
    (ms.foldl (· + ·) m).IsSPD := by
  induction ms generalizing m with
  | nil => exact hm
  | cons n ms ih =>
    obtain ⟨hn, hrows⟩ := h n (List.mem_cons_self ..)
    exact ih (hm.add hn hrows) fun l hl => h l (List.mem_cons_of_mem _ hl)

theorem get_add_mulVec (hcols : n.cols = m.cols) (v : Vec ℝ) (hi : i < m.rows) :
    (m + n).mulVec v i = m.mulVec v i + n.mulVec v i := by
  rw [mulVec_get, mulVec_get, mulVec_get, hcols, ← sum_add_distrib]
  refine sum_congr rfl fun j hj => ?_
  rw [get_add hi (mem_range.mp hj), add_mul]

/-! ### Between a matrix and its transpose -/

theorem get_transpose_mul_mul (hi : i < l.cols) (hj : j < l.cols) :
    (l.transpose * m * l) i j = ∑ a ∈ range l.rows, l a i * ∑ b ∈ range m.cols, m a b * l b j := by
  have hproduct : ∀ b < m.cols, (l.transpose * m) i b = ∑ a ∈ range l.rows, l a i * m a b := by
    intro b hb
    refine (mul_get (m := l.transpose) hi hb).trans (sum_congr rfl fun a _ => ?_)
    rw [transpose_get]
  refine (mul_get (m := l.transpose * m) hi hj).trans ?_
  calc ∑ b ∈ range m.cols, (l.transpose * m) i b * l b j
      = ∑ b ∈ range m.cols, ∑ a ∈ range l.rows, l a i * (m a b * l b j) := by
        refine sum_congr rfl fun b hb => ?_
        rw [hproduct b (mem_range.mp hb), sum_mul]
        exact sum_congr rfl fun a _ => mul_assoc ..
    _ = _ := by
        rw [sum_comm]
        exact sum_congr rfl fun a _ => (mul_sum ..).symm

/-- Along a direction it acts on what the matrix makes of the direction. -/
theorem sum_transpose_mul_mul (hi : i < l.cols) (x : ℕ → ℝ) :
    ∑ j ∈ range l.cols, (l.transpose * m * l) i j * x j =
      ∑ a ∈ range l.rows, l a i * ∑ b ∈ range m.cols, m a b * ∑ j ∈ range l.cols, l b j * x j := by
  calc ∑ j ∈ range l.cols, (l.transpose * m * l) i j * x j
      = ∑ j ∈ range l.cols, ∑ a ∈ range l.rows, ∑ b ∈ range m.cols, l a i * (m a b * (l b j * x j)) := by
        refine sum_congr rfl fun j hj => ?_
        rw [get_transpose_mul_mul hi (mem_range.mp hj), sum_mul]
        refine sum_congr rfl fun a _ => ?_
        rw [mul_sum, sum_mul]
        exact sum_congr rfl fun b _ => by ring
    _ = ∑ a ∈ range l.rows, ∑ b ∈ range m.cols, ∑ j ∈ range l.cols, l a i * (m a b * (l b j * x j)) := by
        rw [sum_comm]
        exact sum_congr rfl fun a _ => sum_comm
    _ = _ := by simp only [mul_sum]

theorem quad_eq_sum (m : Mat ℝ) (x : ℕ → ℝ) : m.quad x = ∑ i ∈ range m.rows, x i * ∑ j ∈ range m.rows,
    m i j * x j := by
  refine sum_congr rfl fun i _ => ?_
  rw [mul_sum]
  exact sum_congr rfl fun j _ => mul_assoc ..

theorem quad_transpose_mul_mul (hrows : m.rows = l.rows) (hcols : m.cols = l.rows) (x : ℕ → ℝ) :
    (l.transpose * m * l).quad x = m.quad fun a => ∑ j ∈ range l.cols, l a j * x j := by
  calc (l.transpose * m * l).quad x
      = ∑ i ∈ range l.cols, x i * ∑ j ∈ range l.cols, (l.transpose * m * l) i j * x j := quad_eq_sum _ x
    _ = ∑ i ∈ range l.cols, ∑ a ∈ range l.rows,
          l a i * x i * ∑ b ∈ range l.rows, m a b * ∑ j ∈ range l.cols, l b j * x j := by
        refine sum_congr rfl fun i hi => ?_
        rw [sum_transpose_mul_mul (mem_range.mp hi), hcols, mul_sum]
        exact sum_congr rfl fun a _ => by ring
    _ = ∑ a ∈ range l.rows, (∑ i ∈ range l.cols, l a i * x i) *
          ∑ b ∈ range l.rows, m a b * ∑ j ∈ range l.cols, l b j * x j := by
        rw [sum_comm]
        exact sum_congr rfl fun a _ => (sum_mul ..).symm
    _ = _ := by rw [quad_eq_sum, hrows]

theorem IsPSD.transpose_mul_mul (hm : m.IsPSD) (hrows : m.rows = l.rows) : (l.transpose * m * l).IsPSD where
  square := rfl
  symm i j := by
    have hcols : m.cols = l.rows := hm.square.trans hrows
    by_cases h : i < l.cols ∧ j < l.cols
    · rw [get_transpose_mul_mul h.1 h.2, get_transpose_mul_mul h.2 h.1, hcols]
      simp only [mul_sum]
      rw [sum_comm]
      refine sum_congr rfl fun a _ => sum_congr rfl fun b _ => ?_
      rw [hm.symm]
      ring
    · rw [get_outside h, get_outside fun h' => h h'.symm]
  nonneg x := by
    rw [quad_transpose_mul_mul hrows (hm.square.trans hrows)]
    exact hm.nonneg _

/-! ### Diagonals and blocks -/

section
variable {d : Vec ℝ} {start k : ℕ}

theorem quad_addDiagonal (hsquare : m.cols = m.rows) (d : Vec ℝ) (x : ℕ → ℝ) :
    (m.addDiagonal d).quad x = m.quad x + ∑ i ∈ range m.rows, d i * (x i * x i) := by
  rw [quad, quad, ← sum_add_distrib]
  refine sum_congr rfl fun i hi => ?_
  have hentry : ∀ j ∈ range m.rows, x i * m.addDiagonal d i j * x j =
      x i * m i j * x j + if i = j then d i * (x i * x i) else 0 := by
    intro j hj
    rw [addDiagonal_get (mem_range.mp hi) (hsquare ▸ mem_range.mp hj)]
    split_ifs with heq
    · rw [heq]
      ring
    · ring
  exact (sum_congr rfl hentry).trans (by rw [sum_add_distrib, sum_ite_eq, if_pos hi])

theorem IsPSD.addDiagonal (hm : m.IsPSD) (hd : ∀ i < m.rows, 0 < d i) : (m.addDiagonal d).IsSPD where
  square := hm.square
  symm i j := by
    by_cases h : i < m.rows ∧ j < m.rows
    · rw [addDiagonal_get h.1 (hm.square ▸ h.2), addDiagonal_get h.2 (hm.square ▸ h.1), hm.symm]
      by_cases heq : i = j
      · rw [heq]
      · rw [if_neg heq, if_neg (Ne.symm heq)]
    · have hout : ∀ {i j}, ¬ (i < m.rows ∧ j < m.rows) → m.addDiagonal d i j = 0 := fun h =>
        get_outside (m := m.addDiagonal d) fun h' => h ⟨h'.1, hm.square ▸ h'.2⟩
      rw [hout h, hout fun h' => h h'.symm]
  pos x hx := by
    obtain ⟨i, hi, hne⟩ := hx
    have hterm : ∀ j ∈ range m.rows, 0 ≤ d j * (x j * x j) := fun j hj =>
      mul_nonneg (hd j (mem_range.mp hj)).le (mul_self_nonneg _)
    rw [quad_addDiagonal hm.square]
    refine add_pos_of_nonneg_of_pos (hm.nonneg x) ?_
    exact sum_pos' hterm ⟨i, mem_range.mpr hi, mul_pos (hd i hi) (mul_self_pos.mpr hne)⟩

/-- A sum over all places of what counts in a window only. -/
theorem sum_window {rows : ℕ} (hlast : start + k ≤ rows) {f : ℕ → ℝ}
    (hf : ∀ i, ¬ (start ≤ i ∧ i < start + k) → f i = 0) :
    ∑ i ∈ range rows, f i = ∑ i ∈ range k, f (start + i) := by
  obtain ⟨rest, rfl⟩ := Nat.exists_eq_add_of_le hlast
  have hbefore : ∑ i ∈ range start, f i = 0 :=
    sum_eq_zero fun i hi => hf i fun h => (mem_range.mp hi).not_ge h.1
  have hafter : ∑ i ∈ range rest, f (start + k + i) = 0 := sum_eq_zero fun i _ => hf _ fun h => by omega
  rw [sum_range_add, sum_range_add, hbefore, hafter, zero_add, add_zero]

/-- A block on the diagonal has the form of the whole matrix, for what is in the window of the block. -/
theorem quad_diagonalBlock (hlast : start + k ≤ m.rows) (x : ℕ → ℝ) : (m.diagonalBlock start k).quad x =
    m.quad fun i => if start ≤ i ∧ i < start + k then x (i - start) else 0 := by
  have hinside : ∀ i ∈ range k, (if start ≤ start + i ∧
      start + i < start + k then x (start + i - start) else 0) = x i := by
    intro i hi
    rw [if_pos ⟨Nat.le_add_right .., Nat.add_lt_add_left (mem_range.mp hi) _⟩, Nat.add_sub_cancel_left]
  rw [quad, quad, sum_window hlast fun i hi => sum_eq_zero fun j _ => by rw [if_neg hi, zero_mul, zero_mul]]
  refine sum_congr rfl fun i (hi : i ∈ range k) => ?_
  rw [sum_window hlast fun j hj => by rw [if_neg hj, mul_zero]]
  refine sum_congr rfl fun j (hj : j ∈ range k) => ?_
  rw [hinside i hi, hinside j hj, diagonalBlock, get_ofFn_of_lt (mem_range.mp hi) (mem_range.mp hj)]

theorem IsSPD.diagonalBlock (hm : m.IsSPD) (hlast : start + k ≤ m.rows) :
    (m.diagonalBlock start k).IsSPD where
  square := rfl
  symm i j := by
    rw [Mat.diagonalBlock, get_ofFn, get_ofFn, hm.symm]
    simp only [and_comm]
  pos x hx := by
    obtain ⟨i, hi, hne⟩ := hx
    have hi : i < k := hi
    rw [quad_diagonalBlock hlast]
    refine hm.pos _ ⟨start + i, by omega, ?_⟩
    rwa [if_pos ⟨Nat.le_add_right .., Nat.add_lt_add_left hi _⟩, Nat.add_sub_cancel_left]

end

end Mat

/-! ### Factors of symmetric matrices -/

namespace Cholesky

variable {m f : Mat ℝ} {i j : ℕ}

open Factored in
/-- The products of the columns of a factor are the entries of the matrix. -/
theorem Factored.lower_mul_lower (h : Factored m m.rows f) (hsymm : ∀ i j, m i j = m j i)
    (hi : i < m.rows) (hj : j < m.rows) :
    ∑ l ∈ range m.rows, lower f m.rows i l * lower f m.rows j l = m i j := by
  rcases le_total j i with hji | hij
  · rw [h.lower_mul_eq hi hi.le hji, if_neg hj.ne, sub_zero]
  · have hswapped := h.lower_mul_eq hj hj.le hij
    rw [if_neg hi.ne, sub_zero] at hswapped
    rw [hsymm, ← hswapped]
    exact sum_congr rfl fun l _ => mul_comm ..

open Factored in
/-- A symmetric matrix that has a factor is positive definite: where a vector ends, so does the column
    of the factor. -/
theorem isSPD_of_factor? (hsquare : m.cols = m.rows) (hsymm : ∀ i j, m i j = m j i)
    (h : factor? m = some f) : m.IsSPD := by
  have hfactored := factored_of_factor? hsquare h
  refine ⟨hsquare, hsymm, fun x hx => ?_⟩
  have hsquares : m.quad x = ∑ l ∈ range m.rows, (∑ i ∈ range m.rows, lower f m.rows i l * x i) ^ 2 := by
    have hentry : ∀ i ∈ range m.rows, ∀ j ∈ range m.rows, x i * m i j * x j =
        ∑ l ∈ range m.rows, lower f m.rows i l * x i * (lower f m.rows j l * x j) := by
      intro i hi j hj
      rw [← hfactored.lower_mul_lower hsymm (mem_range.mp hi) (mem_range.mp hj), mul_sum, sum_mul]
      exact sum_congr rfl fun l _ => by ring
    rw [Mat.quad, sum_congr rfl fun i hi => sum_congr rfl (hentry i hi),
      sum_congr rfl fun i _ => sum_comm, sum_comm]
    exact sum_congr rfl fun l _ => by rw [sq, sum_mul_sum]
  have hends : ((range m.rows).filter fun i => x i ≠ 0).Nonempty := by
    obtain ⟨i, hi, hne⟩ := hx
    exact ⟨i, mem_filter.mpr ⟨mem_range.mpr hi, hne⟩⟩
  obtain ⟨i, hmem, hlast⟩ := exists_max_image _ id hends
  obtain ⟨hi, hne⟩ := mem_filter.mp hmem
  have hcolumn : ∑ k ∈ range m.rows, lower f m.rows k i * x k = f i i * x i := by
    rw [sum_eq_single_of_mem i hi]
    · rw [lower, if_pos ⟨le_rfl, mem_range.mp hi⟩]
    · intro k hk hki
      rcases lt_or_gt_of_ne hki with hbefore | hafter
      · rw [lower, if_neg fun h => hbefore.not_ge h.1, zero_mul]
      · have hzero : x k = 0 := by
          by_contra hne'
          exact hafter.not_ge (hlast k (mem_filter.mpr ⟨hk, hne'⟩))
        rw [hzero, mul_zero]
  have hpivot := hfactored.pos i (mem_range.mp hi)
  rw [hsquares]
  refine sum_pos' (fun _ _ => sq_nonneg _) ⟨i, hi, ?_⟩
  rw [hcolumn]
  positivity

end Cholesky

end CompliantContact
