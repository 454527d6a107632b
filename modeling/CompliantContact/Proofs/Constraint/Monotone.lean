import CompliantContact.Proofs.Constraint.Cone
import CompliantContact.Proofs.Constraint.Kinds
import CompliantContact.Proofs.Dense.Algebra

/-!
Every projection is monotone in the inner product of the regularization.
-/

namespace CompliantContact

open Finset

theorem mul_nonneg_of_monotone {f : ℝ → ℝ} (hf : Monotone f) (a b : ℝ) : 0 ≤ (f a - f b) * (a - b) := by
  rcases le_total a b with h | h
  · exact mul_nonneg_of_nonpos_of_nonpos (sub_nonpos.mpr (hf h)) (sub_nonpos.mpr h)
  · exact mul_nonneg (sub_nonneg.mpr (hf h)) (sub_nonneg.mpr h)

namespace Constraint

theorem monotone_limitRow : Monotone fun y => (limitRow y).1 := by
  intro a b h
  simp only [limitRow]
  split_ifs <;> simp only <;> linarith

theorem monotone_clampRow {lower upper : Option ℝ} (h : Bound.ordered lower upper = true) :
    Monotone fun y => (clampRow lower upper y).1 := by
  intro a b hab
  cases lower <;> cases upper <;> simp only [clampRow, Option.filter] <;>
    simp only [Bound.ordered, decide_eq_true_eq] at h <;> grind

theorem project_monotone {c : Constraint ℝ} (hc : c.InRange) (rInv : Vec ℝ) {r y z : Vec ℝ}
    (hr : ∀ i < c.numEquations, 0 < r i) (htangents : c.isContact = true → r 0 = r 1)
    (hy : y.size = c.numEquations) (hz : z.size = c.numEquations) :
    0 ≤ ∑ i ∈ range c.numEquations,
      r i * (((c.project y r rInv).impulse i - (c.project z r rInv).impulse i) * (y i - z i)) := by
  cases hkind : c.kind with
  | cone p =>
    obtain ⟨hthree, hmu, -⟩ := hc.cone hkind
    have hnormal : 0 < r 2 := hr 2 (by omega)
    have hequal : r 0 = r 1 := htangents (by simp [isContact, hkind])
    have h := FrictionCone.project_monotone hmu (hr 0 (by omega)) hnormal ⟨y 0, y 1, y 2⟩ ⟨z 0, z 1, z 2⟩
    rw [cone_impulse hkind hnormal, cone_impulse hkind hnormal, hthree, sum_range_succ, sum_range_succ,
      sum_range_one, ← hequal]
    exact h
  | limit q0 p =>
    refine sum_nonneg fun i hi => mul_nonneg (hr i (mem_range.mp hi)).le ?_
    rw [limit_impulse hkind (hy ▸ mem_range.mp hi), limit_impulse hkind (hz ▸ mem_range.mp hi)]
    exact mul_nonneg_of_monotone monotone_limitRow _ _
  | holonomic p =>
    refine sum_nonneg fun i hi => mul_nonneg (hr i (mem_range.mp hi)).le ?_
    obtain ⟨hordered, -⟩ := (hc.holonomic hkind).2 i (mem_range.mp hi)
    rw [holonomic_impulse hkind (hy ▸ mem_range.mp hi), holonomic_impulse hkind (hz ▸ mem_range.mp hi)]
    exact mul_nonneg_of_monotone (monotone_clampRow hordered) _ _

end Constraint

end CompliantContact
