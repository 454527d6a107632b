import CompliantContact.Proofs.Constraint.Cone
import CompliantContact.Proofs.Constraint.Kinds
import CompliantContact.Proofs.Dense.Definite

/-!
The slope of a projection is symmetric and positive semidefinite.

A slope takes velocities to changes of impulses. That of a limit or a holonomic constraint is diagonal.
That of a contact is symmetric only because the ratio `muTilde` is made from the regularization: what
the slope does along the normal for a tangential velocity, it does along the tangent for a normal one.
In the inner product of the regularization a contact that slides is left with a square of the change of
its normal impulse, and with what the tangential change has across the direction of sliding, since the
softened direction is no longer than one (`weightedDot_slideChange`).
-/

namespace CompliantContact

open Finset

namespace FrictionCone

variable {y v w : Vec3 ℝ} {mu muTilde rt rn : ℝ}

/-- The change of the softened norm along `v`. -/
noncomputable def normChange (y v : Vec3 ℝ) : ℝ := y.x / softNorm y.x y.y * v.x + y.y / softNorm y.x y.y * v.y

/-- The change of the normal impulse of a contact that slides. -/
noncomputable def normalChange (y : Vec3 ℝ) (mu muTilde : ℝ) (v : Vec3 ℝ) : ℝ :=
  (1 + mu * muTilde)⁻¹ * (v.z + muTilde * normChange y v)

/-- The change of its impulse. -/
noncomputable def slideChange (y : Vec3 ℝ) (mu muTilde : ℝ) (v : Vec3 ℝ) : Vec3 ℝ :=
  let yr := softNorm y.x y.y
  ⟨yr⁻¹ * (v.x - y.x / yr * normChange y v) * (mu * slideNormal y mu muTilde) +
    y.x / yr * (mu * normalChange y mu muTilde v),
    yr⁻¹ * (v.y - y.y / yr * normChange y v) * (mu * slideNormal y mu muTilde) +
      y.y / yr * (mu * normalChange y mu muTilde v),
    normalChange y mu muTilde v⟩

theorem mulVec_slope_of_sticks (h : softNorm y.x y.y ≤ mu * y.z) (v : Vec3 ℝ) :
    (project y mu muTilde).2.mulVec v = v := by
  simp only [project, h, if_true]
  ext <;> simp [Mat3.mulVec, Mat3.identity, Vec3.unitX, Vec3.unitY, Vec3.unitZ]

theorem mulVec_slope_of_separates (h : ¬ softNorm y.x y.y ≤ mu * y.z)
    (h' : muTilde * softNorm y.x y.y ≤ -y.z) (v : Vec3 ℝ) :
    (project y mu muTilde).2.mulVec v = 0 := by
  simp only [project, h, h', if_true, if_false]
  have hzero : ∀ a : ℝ, (0 : Vec3 ℝ) * a = 0 := fun a => by ext <;> simp
  show (0 : Vec3 ℝ) * v.x + (0 : Vec3 ℝ) * v.y + (0 : Vec3 ℝ) * v.z = 0
  rw [hzero, hzero, hzero]
  ext <;> simp

theorem mulVec_slope_of_slides (h : ¬ softNorm y.x y.y ≤ mu * y.z)
    (h' : ¬ muTilde * softNorm y.x y.y ≤ -y.z) (v : Vec3 ℝ) :
    (project y mu muTilde).2.mulVec v = slideChange y mu muTilde v := by
  simp only [project, h, h', if_false]
  ext <;> simp only [Mat3.mulVec, Mat3.ofRows, slideChange, normChange, normalChange, slideNormal,
    Vec3.add_x, Vec3.add_y,
    Vec3.add_z, Vec3.mul_x, Vec3.mul_y, Vec3.mul_z] <;> ring

/-- The inner product of the regularization, the same for both tangential components. -/
noncomputable def weightedDot (rt rn : ℝ) (u w : Vec3 ℝ) : ℝ :=
  rt * (u.x * w.x + u.y * w.y) + rn * (u.z * w.z)

theorem weightedDot_slideChange (hweights : rn * muTilde = mu * rt) (hdenom : 1 + mu * muTilde ≠ 0) :
    weightedDot rt rn w (slideChange y mu muTilde v) =
      rt * (mu * slideNormal y mu muTilde / softNorm y.x y.y) * (w.x * v.x + w.y * v.y -
        normChange y w * normChange y v) +
        rn * (1 + mu * muTilde) * (normalChange y mu muTilde w * normalChange y mu muTilde v) := by
  have hnormal : (1 + mu * muTilde) * normalChange y mu muTilde w = w.z + muTilde * normChange y w := by
    rw [normalChange, mul_inv_cancel_left₀ hdenom]
  have htangent : y.x / softNorm y.x y.y * w.x + y.y / softNorm y.x y.y * w.y = normChange y w := rfl
  simp only [weightedDot, slideChange]
  -- What is left along the direction of sliding joins what the normal does, by the balance of the weights.
  linear_combination
    (rt * mu * normalChange y mu muTilde v -
      rt * mu * slideNormal y mu muTilde * (softNorm y.x y.y)⁻¹ * normChange y v) *
      htangent - rn * normalChange y mu muTilde v * hnormal -
        normChange y w * normalChange y mu muTilde v * hweights

/-- The softened direction is shorter than one. -/
theorem normChange_sq_le (y v : Vec3 ℝ) : normChange y v * normChange y v ≤ v.x * v.x + v.y * v.y := by
  have hunit := unit_sq y
  rw [normChange]
  generalize y.x / softNorm y.x y.y = t1 at hunit ⊢
  generalize y.y / softNorm y.x y.y = t2 at hunit ⊢
  generalize softening / softNorm y.x y.y = t3 at hunit
  have hrest : v.x * v.x + v.y * v.y - (t1 * v.x + t2 * v.y) * (t1 * v.x + t2 * v.y) =
      (t1 * v.y - t2 * v.x) ^ 2 + t3 ^ 2 * (v.x ^ 2 + v.y ^ 2) := by
    linear_combination -(v.x ^ 2 + v.y ^ 2) * hunit
  rw [← sub_nonneg, hrest]
  positivity

theorem weightedDot_slope_comm (hmu : 0 ≤ mu) (hrt : 0 < rt) (hrn : 0 < rn) (y v w : Vec3 ℝ) :
    weightedDot rt rn w ((project y mu (mu * rt / rn)).2.mulVec v) =
      weightedDot rt rn v ((project y mu (mu * rt / rn)).2.mulVec w) := by
  have hweights : rn * (mu * rt / rn) = mu * rt := mul_div_cancel₀ _ hrn.ne'
  have hdenom : 1 + mu * (mu * rt / rn) ≠ 0 := by positivity
  by_cases h : softNorm y.x y.y ≤ mu * y.z
  · rw [mulVec_slope_of_sticks h, mulVec_slope_of_sticks h, weightedDot, weightedDot]
    ring
  · by_cases h' : mu * rt / rn * softNorm y.x y.y ≤ -y.z
    · rw [mulVec_slope_of_separates h h', mulVec_slope_of_separates h h', weightedDot, weightedDot]
      simp
    · rw [mulVec_slope_of_slides h h', mulVec_slope_of_slides h h', weightedDot_slideChange hweights hdenom,
        weightedDot_slideChange hweights hdenom]
      ring

theorem weightedDot_slope_nonneg (hmu : 0 ≤ mu) (hrt : 0 < rt) (hrn : 0 < rn) (y v : Vec3 ℝ) :
    0 ≤ weightedDot rt rn v ((project y mu (mu * rt / rn)).2.mulVec v) := by
  have hweights : rn * (mu * rt / rn) = mu * rt := mul_div_cancel₀ _ hrn.ne'
  have hratio : 0 ≤ mu * rt / rn := by positivity
  have hdenom : 0 < 1 + mu * (mu * rt / rn) := by positivity
  by_cases h : softNorm y.x y.y ≤ mu * y.z
  · rw [mulVec_slope_of_sticks h, weightedDot]
    have hsquares : 0 ≤ rt * (v.x ^ 2 + v.y ^ 2) + rn * v.z ^ 2 := by positivity
    linarith
  · by_cases h' : mu * rt / rn * softNorm y.x y.y ≤ -y.z
    · rw [mulVec_slope_of_separates h h', weightedDot]
      simp
    · rw [mulVec_slope_of_slides h h', weightedDot_slideChange hweights hdenom.ne']
      have hnormal : 0 < slideNormal y mu (mu * rt / rn) := div_pos (by linarith) hdenom
      have hsoft := softNorm_pos y.x y.y
      have hacross : 0 ≤ v.x * v.x + v.y * v.y - normChange y v * normChange y v :=
        sub_nonneg.mpr (normChange_sq_le y v)
      have halong : 0 ≤ normalChange y mu (mu * rt / rn) v * normalChange y mu (mu * rt / rn) v :=
        mul_self_nonneg _
      positivity

/-- Entries stand for the components of a vector and their changes along the axes. -/
theorem weightedDot_axis (rt rn : ℝ) (u : Vec3 ℝ) {i : ℕ} (hi : i < 3) :
    weightedDot rt rn (.axis i) u = (if i = 2 then rn else rt) * u.get i := by
  match i, hi with
  | 0, _ | 1, _ | 2, _ => simp [weightedDot, Vec3.axis, Vec3.unitX, Vec3.unitY, Vec3.unitZ, Vec3.get]

theorem mulVec_axis (m : Mat3 ℝ) {j : ℕ} (hj : j < 3) : m.mulVec (.axis j) = m.column j := by
  match j, hj with
  | 0, _ | 1, _ | 2, _ =>
    ext <;> simp [Mat3.mulVec, Mat3.column, Vec3.axis, Vec3.unitX, Vec3.unitY, Vec3.unitZ]

theorem weight_mul_slope_comm (hmu : 0 ≤ mu) (hrt : 0 < rt) (hrn : 0 < rn) (y : Vec3 ℝ) {i j : ℕ}
    (hi : i < 3) (hj : j < 3) :
    (if i = 2 then rn else rt) * (project y mu (mu * rt / rn)).2.get i j =
      (if j = 2 then rn else rt) * (project y mu (mu * rt / rn)).2.get j i := by
  have hcomm := weightedDot_slope_comm hmu hrt hrn y (.axis j) (.axis i)
  rwa [weightedDot_axis _ _ _ hi, weightedDot_axis _ _ _ hj, mulVec_axis _ hj, mulVec_axis _ hi] at hcomm

end FrictionCone

namespace Constraint

variable {c : Constraint ℝ} {y r rInv : Vec ℝ}

/-- A positive regularization, the same for both tangential equations of a contact, and its inverse. -/
structure Regularizes (c : Constraint ℝ) (r rInv : Vec ℝ) : Prop where
  pos : ∀ i < c.numEquations, 0 < r i
  tangents : c.isContact = true → r 0 = r 1
  inv : ∀ i < c.numEquations, rInv i = 1 / r i

theorem cone_slope_comm {p : ConeParameters ℝ} (hc : c.InRange) (h : c.Regularizes r rInv)
    (hkind : c.kind = .cone p) {i j : ℕ} (hi : i < 3) (hj : j < 3) :
    (c.project y r rInv).slope i j = (c.project y r rInv).slope j i := by
  obtain ⟨hthree, hmu, -⟩ := hc.cone hkind
  have hnormal : 0 < r 2 := h.pos 2 (by omega)
  have hequal : r 0 = r 1 := h.tangents (by simp [isContact, hkind])
  have hweight : ∀ k < 3, (if k = 2 then r 2 else r 0) = r k := by
    intro k hk
    obtain rfl | rfl | rfl : k = 0 ∨ k = 1 ∨ k = 2 := by omega
    · rfl
    · exact hequal
    · rfl
  have hcomm := FrictionCone.weight_mul_slope_comm hmu (h.pos 0 (by omega)) hnormal ⟨y 0, y 1, y 2⟩ hi hj
  rw [hweight i hi, hweight j hj] at hcomm
  have hri := (h.pos i (by omega)).ne'
  have hrj := (h.pos j (by omega)).ne'
  rw [cone_slope hkind hnormal hj, cone_slope hkind hnormal hi, h.inv i (by omega), h.inv j (by omega)]
  rw [mul_one_div, mul_one_div, div_eq_div_iff hrj hri]
  exact (mul_comm ..).trans (hcomm.trans (mul_comm ..))

/-- By the change of the impulse along the velocities per regularization. -/
theorem cone_slope_nonneg {p : ConeParameters ℝ} (hc : c.InRange) (h : c.Regularizes r rInv)
    (hkind : c.kind = .cone p)
    (x : ℕ → ℝ) : 0 ≤ ∑ i ∈ range 3, ∑ j ∈ range 3, x i * (c.project y r rInv).slope i j * x j := by
  obtain ⟨hthree, hmu, -⟩ := hc.cone hkind
  have hnormal : 0 < r 2 := h.pos 2 (by omega)
  have htangent : 0 < r 0 := h.pos 0 (by omega)
  have hequal : r 1 = r 0 := (h.tangents (by simp [isContact, hkind])).symm
  refine (FrictionCone.weightedDot_slope_nonneg hmu htangent hnormal ⟨y 0, y 1, y 2⟩
    ⟨x 0 / r 0, x 1 / r 0, x 2 / r 2⟩).trans (le_of_eq ?_)
  have hentry : ∀ i, ∀ j < 3, (c.project y r rInv).slope i j =
      (FrictionCone.project ⟨y 0, y 1, y 2⟩ p.mu (p.mu * r 0 / r 2)).2.get i j * (1 / r j) := fun i j hj => by
    rw [cone_slope hkind hnormal hj, h.inv j (by omega)]
  simp only [sum_range_succ, range_zero, sum_empty, zero_add, hentry _ 0 (by decide), hentry _ 1 (by decide),
    hentry _ 2 (by decide), hequal]
  generalize (FrictionCone.project ⟨y 0, y 1, y 2⟩ p.mu (p.mu * r 0 / r 2)).2 = m
  simp only [FrictionCone.weightedDot, Mat3.mulVec, Mat3.get, Mat3.column, Vec3.get, Vec3.add_x,
    Vec3.add_y, Vec3.add_z, Vec3.mul_x, Vec3.mul_y, Vec3.mul_z]
  field_simp

/-- The slope of equations that are projected one by one. -/
theorem isPSD_projectRows {row : ℕ → ℝ × Bool} (hrInv : ∀ i < y.size, 0 ≤ rInv i) :
    (projectRows y rInv row).slope.IsPSD where
  square := rfl
  symm i j := by
    rw [projectRows, Mat.get_ofFn, Mat.get_ofFn]
    by_cases h : i = j
    · rw [h]
    · simp [h, Ne.symm h]
  nonneg x := by
    refine sum_nonneg fun i hi => ?_
    have hi : i < y.size := mem_range.mp hi
    rw [sum_eq_single i]
    · rw [get_projectRows_slope hi hi, mul_right_comm]
      refine mul_nonneg (mul_self_nonneg _) ?_
      split_ifs
      · exact hrInv i hi
      · exact le_rfl
    · intro j hj hne
      rw [get_projectRows_slope hi (mem_range.mp hj), if_neg fun h => hne h.1.symm, mul_zero, zero_mul]
    · exact fun hout => absurd (mem_range.mpr hi) hout

/-- So is that of every constraint. -/
theorem isPSD_slope (hc : c.InRange) (h : c.Regularizes r rInv) (hy : y.size = c.numEquations) :
    (c.project y r rInv).slope.IsPSD := by
  have hrInv : ∀ i < y.size, 0 ≤ rInv i := fun i hi => by
    rw [h.inv i (hy ▸ hi)]
    exact (one_div_pos.mpr (h.pos i (hy ▸ hi))).le
  cases hkind : c.kind with
  | cone p =>
    have hthree : c.numEquations = 3 := (hc.cone hkind).1
    have hrows : (c.project y r rInv).slope.rows = 3 := (rows_slope hc hy).trans hthree
    have hcols : (c.project y r rInv).slope.cols = 3 := (cols_slope hc hy).trans hthree
    refine ⟨hcols.trans hrows.symm, fun i j => ?_, fun x => ?_⟩
    · by_cases hinside : i < 3 ∧ j < 3
      · exact cone_slope_comm hc h hkind hinside.1 hinside.2
      · rw [Mat.get_outside (by rw [hrows, hcols]; exact hinside),
          Mat.get_outside (by rw [hrows, hcols]; omega)]
    · rw [Mat.quad, hrows]
      exact cone_slope_nonneg hc h hkind x
  | limit q0 p =>
    simp only [project, hkind]
    exact isPSD_projectRows hrInv
  | holonomic p =>
    simp only [project, hkind]
    exact isPSD_projectRows hrInv

end Constraint

end CompliantContact
