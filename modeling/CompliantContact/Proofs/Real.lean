import CompliantContact.Scalar
import Mathlib.Analysis.SpecialFunctions.Sqrt
import Mathlib.Analysis.SpecialFunctions.Trigonometric.Basic

/-!
Exact arithmetic: the real numbers as the numbers of the library.

Every real number is finite, and the spacing of numbers is zero. What the library computes step by step
is brought to the usual notation here: sums over ranges and lists, the larger of two numbers, halves.
-/

namespace CompliantContact

noncomputable instance : Scalar ℝ where
  sqrt := Real.sqrt
  sin := Real.sin
  cos := Real.cos
  pi := Real.pi
  decimal m e := m * 10 ^ e
  epsilon := 0
  isFinite _ := true
  decidableLT := Classical.decRel _
  decidableLE := Classical.decRel _

-- Division is that of the field, and not the copy of it among the operations of `Scalar`.
noncomputable instance realDiv : Div ℝ := DivInvMonoid.toDiv

namespace Scalar

theorem sum_eq_sum_range (n : ℕ) (f : ℕ → ℝ) : Scalar.sum n f = ∑ i ∈ Finset.range n, f i := by
  induction n with
  | zero => rfl
  | succ n ih => rw [sum_succ, Finset.sum_range_succ, ih]

theorem listSum_eq_sum (xs : List ℝ) : listSum xs = xs.sum := by
  rw [listSum, List.sum_eq_foldl]

theorem sum_map_range (n : ℕ) (f : ℕ → ℝ) : ((List.range n).map f).sum = ∑ i ∈ Finset.range n, f i := by
  induction n with
  | zero => rfl
  | succ n ih =>
    rw [List.range_succ, List.map_append, List.sum_append, ih, Finset.sum_range_succ, List.map_singleton,
      List.sum_singleton]

@[simp] theorem two_eq : (two : ℝ) = 2 := one_add_one_eq_two

@[simp] theorem half_eq : (half : ℝ) = 1 / 2 := by
  rw [half, two_eq]

@[simp] theorem sqrt_eq (x : ℝ) : sqrt x = √x := rfl

@[simp] theorem isFinite_eq (x : ℝ) : isFinite x = true := rfl

@[simp] theorem isNaN_eq (x : ℝ) : isNaN x = false := by
  simp [isNaN]

theorem abs_eq_abs (x : ℝ) : abs x = |x| := by
  rw [abs]
  split_ifs with h
  · exact (abs_of_neg h).symm
  · exact (abs_of_nonneg (not_lt.mp h)).symm

theorem larger_eq_max (x y : ℝ) : larger x y = max x y := by
  rw [larger, isNaN_eq]
  by_cases h : x < y
  · rw [if_pos (.inl h), max_eq_right h.le]
  · rw [if_neg (by simp [h]), max_eq_left (not_lt.mp h)]

theorem ofNat_eq (n : ℕ) : (ofNat n : ℝ) = n := by
  simp [ofNat, decimal]

end Scalar

end CompliantContact
