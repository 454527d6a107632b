import CompliantContact.Constraint.Projection
import CompliantContact.Proofs.Real
import Mathlib.Tactic.LinearCombination
import Mathlib.Tactic.Positivity
import Mathlib.Tactic.FieldSimp

/-!
The projection onto the cone of friction.

The softening is a third tangential component that is the same for all impulses. With it the projection
is the nearest point of a cone, in the norm of the regularization, with the third component left out
afterwards. So it has the property of nearest points in a convex set (`Projected.obtuse`), and from that
it is monotone (`project_monotone`).
-/

namespace CompliantContact.FrictionCone

variable {y z : Vec3 ℝ} {mu muTilde : ℝ}

theorem softening_pos : 0 < (softening : ℝ) := by
  show (0 : ℝ) < (1 : ℕ) * 10 ^ (-7 : ℤ)
  positivity

theorem softNorm_eq (t1 t2 : ℝ) : softNorm t1 t2 = √(t1 ^ 2 + t2 ^ 2 + softening ^ 2) := by
  rw [softNorm, Scalar.sqrt_eq]
  congr 1
  ring

theorem softNorm_pos (t1 t2 : ℝ) : 0 < softNorm t1 t2 := by
  have hsoft : 0 < (softening : ℝ) := softening_pos
  rw [softNorm_eq]
  positivity

theorem softNorm_sq (t1 t2 : ℝ) : softNorm t1 t2 ^ 2 = t1 ^ 2 + t2 ^ 2 + softening ^ 2 := by
  rw [softNorm_eq, Real.sq_sqrt (by positivity)]

/-! ### The three regions -/

/-- The normal impulse of a contact that slides. -/
noncomputable def slideNormal (y : Vec3 ℝ) (mu muTilde : ℝ) : ℝ :=
  (y.z + muTilde * softNorm y.x y.y) / (1 + mu * muTilde)

theorem project_of_sticks (h : softNorm y.x y.y ≤ mu * y.z) : (project y mu muTilde).1 = y := by
  simp only [project, h, if_true]

theorem project_of_separates (h : ¬ softNorm y.x y.y ≤ mu * y.z) (h' : muTilde * softNorm y.x y.y ≤ -y.z) :
    (project y mu muTilde).1 = 0 := by
  simp only [project, h, h', if_true, if_false]

theorem project_of_slides (h : ¬ softNorm y.x y.y ≤ mu * y.z) (h' : ¬ muTilde * softNorm y.x y.y ≤ -y.z) :
    (project y mu muTilde).1 = ⟨y.x / softNorm y.x y.y * (mu * slideNormal y mu muTilde),
      y.y / softNorm y.x y.y * (mu * slideNormal y mu muTilde), slideNormal y mu muTilde⟩ := by
  simp only [project, h, h', if_false]
  rfl

/-! ### The nearest point of a cone -/

/-- The cone, with three tangential components. -/
def InCone (mu t1 t2 t3 n : ℝ) : Prop := 0 ≤ n ∧ t1 ^ 2 + t2 ^ 2 + t3 ^ 2 ≤ (mu * n) ^ 2

/-- A point of the cone that meets every other point of it at an obtuse angle, seen from the impulse. -/
structure Projected (y : Vec3 ℝ) (mu rt rn : ℝ) (p : Vec3 ℝ) (third : ℝ) : Prop where
  inCone : InCone mu p.x p.y third p.z
  obtuse : ∀ t1 t2 t3 n, InCone mu t1 t2 t3 n →
    rt * ((y.x - p.x) * (t1 - p.x) + (y.y - p.y) * (t2 - p.y) + (softening - third) * (t3 - third)) +
      rn * ((y.z - p.z) * (n - p.z)) ≤ 0

/-- A unit vector makes at most the length of a tangential impulse of it. -/
theorem InCone.dot_le {t1 t2 t3 n u1 u2 u3 : ℝ} (h : InCone mu t1 t2 t3 n) (hmu : 0 ≤ mu)
    (hunit : u1 ^ 2 + u2 ^ 2 + u3 ^ 2 = 1) : u1 * t1 + u2 * t2 + u3 * t3 ≤ mu * n := by
  obtain ⟨hn, ht⟩ := h
  refine abs_le_of_sq_le_sq' ?_ (mul_nonneg hmu hn) |>.2
  have hcross : (u1 * t1 + u2 * t2 + u3 * t3) ^ 2 =
      (u1 ^ 2 + u2 ^ 2 + u3 ^ 2) * (t1 ^ 2 + t2 ^ 2 + t3 ^ 2) -
        ((u1 * t2 - u2 * t1) ^ 2 + (u1 * t3 - u3 * t1) ^ 2 + (u2 * t3 - u3 * t2) ^ 2) := by ring
  rw [hcross, hunit]
  have := sq_nonneg (u1 * t2 - u2 * t1)
  have := sq_nonneg (u1 * t3 - u3 * t1)
  have := sq_nonneg (u2 * t3 - u3 * t2)
  linarith

/-- The impulse along which the softened tangential impulse points. -/
theorem unit_sq (y : Vec3 ℝ) :
    (y.x / softNorm y.x y.y) ^ 2 + (y.y / softNorm y.x y.y) ^ 2 + (softening / softNorm y.x y.y) ^ 2 = 1 := by
  have hpos := softNorm_pos y.x y.y
  rw [div_pow, div_pow, div_pow, ← add_div, ← add_div, ← softNorm_sq, div_self (by positivity)]

/-- A contact that sticks keeps its impulse. -/
theorem projected_of_sticks (hmu : 0 ≤ mu) (rt rn : ℝ) (h : softNorm y.x y.y ≤ mu * y.z) :
    Projected y mu rt rn y softening := by
  have hyr := softNorm_pos y.x y.y
  refine ⟨⟨?_, ?_⟩, fun t1 t2 t3 n _ => ?_⟩
  · by_contra hn
    have : mu * y.z ≤ 0 := mul_nonpos_of_nonneg_of_nonpos hmu (not_le.mp hn).le
    linarith
  · rw [← softNorm_sq]
    exact pow_le_pow_left₀ hyr.le h 2
  · exact le_of_eq (by ring)

theorem projected_of_separates {rt rn : ℝ} (hmu : 0 ≤ mu) (hrt : 0 < rt) (hrn : 0 < rn)
    (h : mu * rt / rn * softNorm y.x y.y ≤ -y.z) : Projected y mu rt rn 0 0 := by
  refine ⟨⟨le_rfl, by simp⟩, fun t1 t2 t3 n hcone => ?_⟩
  have hyr := softNorm_pos y.x y.y
  have hdot := hcone.dot_le hmu (unit_sq y)
  have hnormal : mu * rt * softNorm y.x y.y ≤ rn * -y.z := by
    have := mul_le_mul_of_nonneg_left h hrn.le
    rwa [← mul_assoc, mul_div_cancel₀ _ hrn.ne'] at this
  have htangent : rt * (y.x * t1 + y.y * t2 + softening * t3) ≤ mu * rt * softNorm y.x y.y * n := by
    have hscaled := mul_le_mul_of_nonneg_left hdot (mul_pos hrt hyr).le
    refine le_trans (le_of_eq ?_) (hscaled.trans (le_of_eq ?_))
    · field_simp
    · ring
  have := mul_le_mul_of_nonneg_right hnormal hcone.1
  simp only [Vec3.zero_x, Vec3.zero_y, Vec3.zero_z, sub_zero]
  linarith

/-- How far the impulse of a sliding contact is off the cone, along the tangent. -/
noncomputable def slideGap (y : Vec3 ℝ) (mu muTilde : ℝ) : ℝ :=
  (softNorm y.x y.y - mu * y.z) / (1 + mu * muTilde)

theorem softNorm_eq_slide (hdenom : 0 < 1 + mu * muTilde) :
    softNorm y.x y.y = mu * slideNormal y mu muTilde + slideGap y mu muTilde := by
  rw [slideGap, slideNormal]
  field_simp
  ring

theorem tangent_sub_slide (hdenom : 0 < 1 + mu * muTilde) (t : ℝ) :
    t - t / softNorm y.x y.y * (mu * slideNormal y mu muTilde) =
      slideGap y mu muTilde * (t / softNorm y.x y.y) := by
  have hpos := softNorm_pos y.x y.y
  have ht : t = softNorm y.x y.y * (t / softNorm y.x y.y) := by field_simp
  linear_combination ht + t / softNorm y.x y.y * softNorm_eq_slide (y := y) hdenom

theorem normal_sub_slide (hdenom : 0 < 1 + mu * muTilde) :
    y.z - slideNormal y mu muTilde = -(muTilde * slideGap y mu muTilde) := by
  have hnormal : slideNormal y mu muTilde * (1 + mu * muTilde) = y.z + muTilde * softNorm y.x y.y :=
    div_mul_cancel₀ _ hdenom.ne'
  have hgap : slideGap y mu muTilde * (1 + mu * muTilde) = softNorm y.x y.y - mu * y.z :=
    div_mul_cancel₀ _ hdenom.ne'
  refine mul_right_cancel₀ hdenom.ne' ?_
  linear_combination muTilde * hgap - hnormal

theorem projected_of_slides {rt rn : ℝ} (hmu : 0 ≤ mu) (hrt : 0 < rt) (hrn : 0 < rn)
    (h : ¬ softNorm y.x y.y ≤ mu * y.z) (h' : ¬ mu * rt / rn * softNorm y.x y.y ≤ -y.z) :
    Projected y mu rt rn (project y mu (mu * rt / rn)).1
      (softening / softNorm y.x y.y * (mu * slideNormal y mu (mu * rt / rn))) := by
  rw [project_of_slides h h']
  have htilde : 0 ≤ mu * rt / rn := by positivity
  have hdenom : 0 < 1 + mu * (mu * rt / rn) := by positivity
  have hnormal : 0 < slideNormal y mu (mu * rt / rn) := div_pos (by linarith) hdenom
  have hgap : 0 < slideGap y mu (mu * rt / rn) := div_pos (by linarith) hdenom
  have hunit := unit_sq y
  refine ⟨⟨hnormal.le, ?_⟩, fun t1 t2 t3 n hcone => ?_⟩
  · exact le_of_eq (by linear_combination (mu * slideNormal y mu (mu * rt / rn)) ^ 2 * hunit)
  have hweight : rn * (mu * rt / rn) = mu * rt := by field_simp
  have hdot := hcone.dot_le hmu hunit
  simp only [tangent_sub_slide hdenom, normal_sub_slide hdenom]
  -- Seen from the cone, the impulse is off along the unit vector by the gap, and along the normal against it.
  have hfactored : rt * (slideGap y mu (mu * rt / rn) * (y.x / softNorm y.x y.y) *
        (t1 - y.x / softNorm y.x y.y * (mu * slideNormal y mu (mu * rt / rn))) +
      slideGap y mu (mu * rt / rn) * (y.y / softNorm y.x y.y) *
        (t2 - y.y / softNorm y.x y.y * (mu * slideNormal y mu (mu * rt / rn))) +
      slideGap y mu (mu * rt / rn) * (softening / softNorm y.x y.y) *
        (t3 - softening / softNorm y.x y.y * (mu * slideNormal y mu (mu * rt / rn)))) +
      rn * (-(mu * rt / rn * slideGap y mu (mu * rt / rn)) * (n - slideNormal y mu (mu * rt / rn))) =
      slideGap y mu (mu * rt / rn) * rt *
        (y.x / softNorm y.x y.y * t1 + y.y / softNorm y.x y.y * t2 + softening / softNorm y.x y.y * t3 -
          mu * n) := by
    linear_combination
      -(rt * slideGap y mu (mu * rt / rn) * mu * slideNormal y mu (mu * rt / rn)) * hunit -
        slideGap y mu (mu * rt / rn) * (n - slideNormal y mu (mu * rt / rn)) * hweight
  rw [hfactored]
  exact mul_nonpos_of_nonneg_of_nonpos (mul_pos hgap hrt).le (by linarith)

theorem exists_projected {rt rn : ℝ} (hmu : 0 ≤ mu) (hrt : 0 < rt) (hrn : 0 < rn) (y : Vec3 ℝ) :
    ∃ third, Projected y mu rt rn (project y mu (mu * rt / rn)).1 third := by
  by_cases h : softNorm y.x y.y ≤ mu * y.z
  · rw [project_of_sticks h]
    exact ⟨_, projected_of_sticks hmu rt rn h⟩
  · by_cases h' : mu * rt / rn * softNorm y.x y.y ≤ -y.z
    · rw [project_of_separates h h']
      exact ⟨_, projected_of_separates hmu hrt hrn h'⟩
    · exact ⟨_, projected_of_slides hmu hrt hrn h h'⟩

/-- By the obtuse angles at both projections. -/
theorem project_monotone {rt rn : ℝ} (hmu : 0 ≤ mu) (hrt : 0 < rt) (hrn : 0 < rn) (y z : Vec3 ℝ) :
    0 ≤ rt * (((project y mu (mu * rt / rn)).1.x - (project z mu (mu * rt / rn)).1.x) * (y.x - z.x)) +
      rt * (((project y mu (mu * rt / rn)).1.y - (project z mu (mu * rt / rn)).1.y) * (y.y - z.y)) +
      rn * (((project y mu (mu * rt / rn)).1.z - (project z mu (mu * rt / rn)).1.z) * (y.z - z.z)) := by
  obtain ⟨third, hp⟩ := exists_projected hmu hrt hrn y
  obtain ⟨third', hq⟩ := exists_projected hmu hrt hrn z
  generalize (project y mu (mu * rt / rn)).1 = p at *
  generalize (project z mu (mu * rt / rn)).1 = q at *
  have hpq := hp.obtuse _ _ _ _ hq.inCone
  have hqp := hq.obtuse _ _ _ _ hp.inCone
  have hnorm : 0 ≤ rt * ((p.x - q.x) ^ 2 + (p.y - q.y) ^ 2 + (third - third') ^ 2) +
      rn * (p.z - q.z) ^ 2 := by
    positivity
  linarith

end CompliantContact.FrictionCone
