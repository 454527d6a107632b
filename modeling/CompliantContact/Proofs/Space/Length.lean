import CompliantContact.Proofs.Space.Algebra
import Mathlib.Tactic.LinearCombination
import Mathlib.Tactic.Positivity

/-!
Lengths in space, and the rotations that keep them.

A rotation of length one keeps inner products, and takes some vector to each. So where a pose puts the
points of a frame, a point of the world is that of one point of the frame, as far from the origin of the
frame.
-/

namespace CompliantContact

/-! ### Vectors -/

namespace Vec3

theorem norm_nonneg (u : Vec3 ℝ) : 0 ≤ u.norm := Real.sqrt_nonneg _

theorem sq_norm (u : Vec3 ℝ) : u.norm ^ 2 = u.dot u := (pow_two _).trans u.norm_mul_norm

theorem norm_mul (u : Vec3 ℝ) (x : ℝ) : (u * x).norm = u.norm * |x| := by
  have hsq : (u * x).normSq = u.normSq * x ^ 2 := by
    simp only [normSq, dot, mul_x, mul_y, mul_z]
    ring
  have hnonneg : 0 ≤ u.normSq := u.dot_self_nonneg
  rw [norm, norm, hsq, Scalar.sqrt_eq, Scalar.sqrt_eq, Real.sqrt_mul hnonneg, Real.sqrt_sq_eq_abs]

theorem norm_sub_comm (u v : Vec3 ℝ) : (u - v).norm = (v - u).norm := by
  have hneg : u - v = -(v - u) := by ext <;> simp
  rw [hneg, norm_neg]

theorem norm_div_self {u : Vec3 ℝ} (h : u.norm ≠ 0) : (u / u.norm).norm = 1 := by
  have hmul : u / u.norm = u * u.norm⁻¹ := by ext <;> exact div_eq_mul_inv ..
  rw [hmul, norm_mul, abs_of_nonneg (inv_nonneg.mpr u.norm_nonneg), mul_inv_cancel₀ h]

theorem dot_mul (u v : Vec3 ℝ) (x : ℝ) : u.dot (v * x) = u.dot v * x := by
  simp only [dot, mul_x, mul_y, mul_z]
  ring

theorem dot_sub (u v w : Vec3 ℝ) : u.dot (v - w) = u.dot v - u.dot w := by
  simp only [dot, sub_x, sub_y, sub_z]
  ring

theorem dot_self_of_norm {u : Vec3 ℝ} (h : u.norm = 1) : u.dot u = 1 := by
  rw [← sq_norm, h, one_pow]

/-- The inequality of Cauchy and Schwarz: what is missing is the square of the cross product. -/
theorem abs_dot_le (u v : Vec3 ℝ) : |u.dot v| ≤ u.norm * v.norm := by
  have hcross : u.dot v ^ 2 + (u.cross v).dot (u.cross v) = u.dot u * v.dot v := by
    simp only [dot, cross]
    ring
  refine abs_le_of_sq_le_sq ?_ (mul_nonneg u.norm_nonneg v.norm_nonneg)
  rw [mul_pow, sq_norm, sq_norm]
  linarith [(u.cross v).dot_self_nonneg]

theorem norm_add_le (u v : Vec3 ℝ) : (u + v).norm ≤ u.norm + v.norm := by
  refine abs_le_of_sq_le_sq' ?_ (add_nonneg u.norm_nonneg v.norm_nonneg) |>.2
  have hsum : (u + v).norm ^ 2 = u.norm ^ 2 + 2 * u.dot v + v.norm ^ 2 := by
    simp only [sq_norm, dot, add_x, add_y, add_z]
    ring
  have hdot := (abs_le.mp (u.abs_dot_le v)).2
  rw [hsum]
  linarith

theorem norm_sub_le (u v w : Vec3 ℝ) : (u - w).norm ≤ (u - v).norm + (v - w).norm := by
  have hsum : u - w = u - v + (v - w) := by ext <;> simp
  rw [hsum]
  exact norm_add_le ..

end Vec3

/-! ### Rotations -/

namespace Rotation

variable {q : Rotation ℝ}

/-- The rotation back. -/
noncomputable def conj (q : Rotation ℝ) : Rotation ℝ := ⟨q.w, -q.v⟩

theorem IsUnit.dot_apply (hq : q.IsUnit) (u v : Vec3 ℝ) : (q.apply u).dot (q.apply v) = u.dot v := by
  simp only [IsUnit, Vec3.normSq, Vec3.dot] at hq
  simp only [apply, Vec3.dot, Vec3.cross, Vec3.add_x, Vec3.add_y, Vec3.add_z, Vec3.mul_x, Vec3.mul_y,
    Vec3.mul_z, Scalar.two_eq]
  linear_combination 4 * ((q.v.y * u.z - q.v.z * u.y) * (q.v.y * v.z - q.v.z * v.y) +
    (q.v.z * u.x - q.v.x * u.z) * (q.v.z * v.x - q.v.x * v.z) +
      (q.v.x * u.y - q.v.y * u.x) * (q.v.x * v.y - q.v.y * v.x)) * hq

theorem IsUnit.norm_apply (hq : q.IsUnit) (u : Vec3 ℝ) : (q.apply u).norm = u.norm := by
  rw [Vec3.norm, Vec3.norm, Vec3.normSq, Vec3.normSq, hq.dot_apply]

theorem IsUnit.apply_conj (hq : q.IsUnit) (u : Vec3 ℝ) : q.apply (q.conj.apply u) = u := by
  simp only [IsUnit, Vec3.normSq, Vec3.dot] at hq
  ext <;> simp [apply, conj, Vec3.cross]
  · linear_combination -4 * (q.v.y * (q.v.x * u.y - q.v.y * u.x) - q.v.z * (q.v.z * u.x - q.v.x * u.z)) * hq
  · linear_combination -4 * (q.v.z * (q.v.y * u.z - q.v.z * u.y) - q.v.x * (q.v.x * u.y - q.v.y * u.x)) * hq
  · linear_combination -4 * (q.v.x * (q.v.z * u.x - q.v.x * u.z) - q.v.y * (q.v.y * u.z - q.v.z * u.y)) * hq

end Rotation

/-! ### Poses -/

namespace Pose

variable {a : Pose ℝ}

theorem norm_apply_sub (ha : a.rotation.IsUnit) (u : Vec3 ℝ) : (a.apply u - a.position).norm = u.norm := by
  rw [apply_sub_position, ha.norm_apply]

/-- Every point of the world is that of a point of the frame. -/
theorem exists_apply_eq (ha : a.rotation.IsUnit) (p : Vec3 ℝ) : ∃ u, a.apply u = p := by
  refine ⟨a.rotation.conj.apply (p - a.position), ?_⟩
  rw [apply, ha.apply_conj]
  ext <;> simp

/-- The height of a point of the frame, along the third axis. -/
theorem dot_apply_sub (ha : a.rotation.IsUnit) (u : Vec3 ℝ) :
    (a.rotation.apply .unitZ).dot (a.apply u - a.position) = u.z := by
  rw [apply_sub_position, ha.dot_apply]
  simp [Vec3.dot, Vec3.unitZ]

end Pose

end CompliantContact
