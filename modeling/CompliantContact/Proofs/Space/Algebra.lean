import CompliantContact.Proofs.Real
import CompliantContact.Space.Pose

/-!
Vectors, matrices and rotations of space over the real numbers.

A rotation is held as a quaternion, and turns vectors only if that has length one (`Rotation.IsUnit`):
the rotations that joints make have it, and products keep it. Then the quaternion and its matrix do the
same to a vector.
-/

namespace CompliantContact

/-! ### Vectors -/

namespace Vec3

@[simp] theorem zero_mul (x : ℝ) : (0 : Vec3 ℝ) * x = 0 := by ext <;> simp

@[simp] theorem mul_zero (u : Vec3 ℝ) : u * (0 : ℝ) = 0 := by ext <;> simp

@[simp] theorem mul_one (u : Vec3 ℝ) : u * (1 : ℝ) = u := by ext <;> simp

@[simp] theorem add_zero (u : Vec3 ℝ) : u + 0 = u := by ext <;> simp

theorem add_comm (u v : Vec3 ℝ) : u + v = v + u := by ext <;> simp <;> ring

theorem add_assoc (u v w : Vec3 ℝ) : u + v + w = u + (v + w) := by ext <;> simp <;> ring

@[simp] theorem zero_add (u : Vec3 ℝ) : 0 + u = u := by ext <;> simp

@[simp] theorem sub_zero (u : Vec3 ℝ) : u - 0 = u := by ext <;> simp

@[simp] theorem zero_cross (u : Vec3 ℝ) : (0 : Vec3 ℝ).cross u = 0 := by ext <;> simp [cross]

@[simp] theorem cross_zero (u : Vec3 ℝ) : u.cross 0 = 0 := by ext <;> simp [cross]

theorem ext_dot {u v : Vec3 ℝ} (h : ∀ w : Vec3 ℝ, w.dot u = w.dot v) : u = v := by
  refine Vec3.ext ?_ ?_ ?_
  · simpa [dot, unitX] using h .unitX
  · simpa [dot, unitY] using h .unitY
  · simpa [dot, unitZ] using h .unitZ

theorem ext_cross {u v : Vec3 ℝ} (h : ∀ w : Vec3 ℝ, u.cross w = v.cross w) : u = v := by
  refine Vec3.ext ?_ ?_ ?_
  · simpa [cross, unitZ] using congrArg y (h .unitZ)
  · simpa [cross, unitX] using congrArg z (h .unitX)
  · simpa [cross, unitY] using congrArg x (h .unitY)

theorem dot_comm (u v : Vec3 ℝ) : u.dot v = v.dot u := by
  simp only [dot]
  ring

theorem dot_add (u v w : Vec3 ℝ) : u.dot (v + w) = u.dot v + u.dot w := by
  simp only [dot, add_x, add_y, add_z]
  ring

theorem dot_sum (w : Vec3 ℝ) (us : List (Vec3 ℝ)) : w.dot us.sum = (us.map w.dot).sum := by
  induction us with
  | nil => simp [dot]
  | cons u us ih => rw [List.sum_cons, List.map_cons, List.sum_cons, ← ih, dot_add]

/-- The volume that three vectors span does not change as they are turned about. -/
theorem dot_cross (u v w : Vec3 ℝ) : u.dot (v.cross w) = (w.cross u).dot v := by
  simp only [dot, cross]
  ring

theorem dot_self_nonneg (u : Vec3 ℝ) : 0 ≤ u.dot u :=
  add_nonneg (add_nonneg (mul_self_nonneg _) (mul_self_nonneg _)) (mul_self_nonneg _)

theorem norm_mul_norm (u : Vec3 ℝ) : u.norm * u.norm = u.normSq := Real.mul_self_sqrt u.dot_self_nonneg

@[simp] theorem norm_zero : (0 : Vec3 ℝ).norm = 0 := by simp [norm, normSq, dot]

theorem norm_neg (u : Vec3 ℝ) : (-u).norm = u.norm := by simp [norm, normSq, dot]

theorem norm_unitX : (unitX : Vec3 ℝ).norm = 1 := by simp [norm, normSq, dot, unitX]

theorem norm_unitZ : (unitZ : Vec3 ℝ).norm = 1 := by simp [norm, normSq, dot, unitZ]

theorem eq_zero_of_norm {u : Vec3 ℝ} (h : u.norm = 0) : u = 0 := by
  have hsum := u.norm_mul_norm
  rw [h, normSq, dot] at hsum
  refine Vec3.ext (mul_self_eq_zero.mp ?_) (mul_self_eq_zero.mp ?_) (mul_self_eq_zero.mp ?_) <;>
    nlinarith only [hsum, mul_self_nonneg u.x, mul_self_nonneg u.y, mul_self_nonneg u.z]

end Vec3

/-! ### Matrices -/

namespace Mat3

@[simp] theorem zero_x : (0 : Mat3 ℝ).x = 0 := rfl

@[simp] theorem zero_y : (0 : Mat3 ℝ).y = 0 := rfl

@[simp] theorem zero_z : (0 : Mat3 ℝ).z = 0 := rfl

@[simp] theorem zero_mulVec (u : Vec3 ℝ) : (0 : Mat3 ℝ).mulVec u = 0 := by ext <;> simp [mulVec]

@[simp] theorem mulVec_zero (m : Mat3 ℝ) : m.mulVec 0 = 0 := by ext <;> simp [mulVec]

theorem mulVec_unitX (m : Mat3 ℝ) : m.mulVec .unitX = m.x := by ext <;> simp [mulVec, Vec3.unitX]

theorem mulVec_unitY (m : Mat3 ℝ) : m.mulVec .unitY = m.y := by ext <;> simp [mulVec, Vec3.unitY]

theorem mulVec_unitZ (m : Mat3 ℝ) : m.mulVec .unitZ = m.z := by ext <;> simp [mulVec, Vec3.unitZ]

theorem transposeMulVec_dot (m : Mat3 ℝ) (u w : Vec3 ℝ) :
    (m.transposeMulVec u).dot w = u.dot (m.mulVec w) := by
  simp only [transposeMulVec, mulVec, Vec3.dot, Vec3.add_x, Vec3.add_y, Vec3.add_z, Vec3.mul_x,
    Vec3.mul_y, Vec3.mul_z]
  ring

/-- A symmetric matrix that is not negative along any vector, as the inertia of a body is. -/
structure IsPSD (m : Mat3 ℝ) : Prop where
  symm : m.transpose = m
  nonneg : ∀ u : Vec3 ℝ, 0 ≤ u.dot (m.mulVec u)

theorem isPSD_zero : (0 : Mat3 ℝ).IsPSD := ⟨rfl, fun u => by simp [mulVec, Vec3.dot]⟩

end Mat3

/-! ### Rotations -/

namespace Rotation

/-- The rotation is a quaternion of length one. -/
def IsUnit (q : Rotation ℝ) : Prop := q.w * q.w + q.v.normSq = 1

theorem isUnit_identity : (identity : Rotation ℝ).IsUnit := by simp [IsUnit, identity, Vec3.normSq, Vec3.dot]

variable {p q : Rotation ℝ}

@[simp] theorem mul_w : (p * q).w = p.w * q.w - p.v.x * q.v.x - p.v.y * q.v.y - p.v.z * q.v.z := rfl

@[simp] theorem mul_v_x : (p * q).v.x = p.w * q.v.x + p.v.x * q.w + p.v.y * q.v.z - p.v.z * q.v.y := rfl

@[simp] theorem mul_v_y : (p * q).v.y = p.w * q.v.y - p.v.x * q.v.z + p.v.y * q.w + p.v.z * q.v.x := rfl

@[simp] theorem mul_v_z : (p * q).v.z = p.w * q.v.z + p.v.x * q.v.y - p.v.y * q.v.x + p.v.z * q.w := rfl

theorem IsUnit.mul (hp : p.IsUnit) (hq : q.IsUnit) : (p * q).IsUnit := by
  simp only [IsUnit, Vec3.normSq, Vec3.dot, mul_w, mul_v_x, mul_v_y, mul_v_z] at hp hq ⊢
  linear_combination (p.w * p.w + (p.v.x * p.v.x + p.v.y * p.v.y + p.v.z * p.v.z)) * hq + hp

/-- A turn within a rotation is the turned one around it. -/
theorem IsUnit.mul_turn (hq : q.IsUnit) (u : Vec3 ℝ) : q * ⟨0, u⟩ = ⟨0, q.apply u⟩ * q := by
  simp only [IsUnit, Vec3.normSq, Vec3.dot] at hq
  ext <;> simp [apply, Vec3.cross]
  · ring
  · linear_combination 2 * (q.v.z * u.y - q.v.y * u.z) * hq
  · linear_combination 2 * (q.v.x * u.z - q.v.z * u.x) * hq
  · linear_combination 2 * (q.v.y * u.x - q.v.x * u.y) * hq

@[simp] theorem apply_zero (q : Rotation ℝ) : q.apply 0 = 0 := by simp [apply]

theorem apply_identity (u : Vec3 ℝ) : identity.apply u = u := by
  ext <;> simp [apply, identity, Vec3.cross]

theorem apply_mul (q : Rotation ℝ) (u : Vec3 ℝ) (x : ℝ) : q.apply (u * x) = q.apply u * x := by
  ext <;> simp [apply, Vec3.cross] <;> ring

/-- The matrix does to a vector what the quaternion does. -/
theorem IsUnit.mulVec_toMat3 (hq : q.IsUnit) (u : Vec3 ℝ) : q.toMat3.mulVec u = q.apply u := by
  simp only [IsUnit, Vec3.normSq, Vec3.dot] at hq
  ext <;> simp [toMat3, Mat3.ofRows, Mat3.mulVec, apply, Vec3.cross]
  · linear_combination u.x * hq
  · linear_combination u.y * hq
  · linear_combination u.z * hq

/-- About an axis by an angle, in closed form. An axis of length zero does not turn. -/
theorem ofScaledAxis_mul (a : Vec3 ℝ) (angle : ℝ) : ofScaledAxis (a * angle) =
    ⟨Real.cos (a.norm * angle / 2), a * (Real.sin (a.norm * angle / 2) / a.norm)⟩ := by
  have hsq : ((a * angle) / (Scalar.two : ℝ)).normSq = (a.norm * angle / 2) ^ 2 := by
    have hnorm := a.norm_mul_norm
    simp only [Vec3.normSq, Vec3.dot, Vec3.div_x, Vec3.div_y, Vec3.div_z, Vec3.mul_x, Vec3.mul_y, Vec3.mul_z,
      Scalar.two_eq] at hnorm ⊢
    linear_combination (-(angle ^ 2) / 4) * hnorm
  have hepsilon : (Scalar.epsilon : ℝ) * Scalar.epsilon = 0 := mul_zero _
  rw [ofScaledAxis, hsq, hepsilon, Scalar.sqrt_eq, Real.sqrt_sq_eq_abs]
  generalize hy : a.norm * angle / 2 = y
  split_ifs with hzero
  · obtain rfl : y = 0 := pow_eq_zero_iff two_ne_zero |>.mp (le_antisymm hzero (sq_nonneg y))
    rw [Real.cos_zero, Real.sin_zero, zero_div, Vec3.mul_zero]
    rfl
  · have hy0 : y ≠ 0 := fun h => hzero (by rw [h]; norm_num)
    have hnorm : a.norm ≠ 0 := fun h => hy0 (by rw [← hy, h]; ring)
    have hangle : angle ≠ 0 := fun h => hy0 (by rw [← hy, h]; ring)
    have hsinc : Real.sin |y| / |y| = Real.sin y / y := by
      rcases abs_choice y with h | h <;> rw [h]
      rw [Real.sin_neg, neg_div_neg_eq]
    have hscale : angle / 2 * (Real.sin y / y) = Real.sin y / a.norm := by
      rw [← hy]
      field_simp
    refine Rotation.ext (Real.cos_abs y) ?_
    show a * angle / Scalar.two * (Real.sin |y| / |y|) = a * (Real.sin y / a.norm)
    rw [hsinc, ← hscale, Scalar.two_eq]
    ext <;> simp only [Vec3.mul_x, Vec3.mul_y, Vec3.mul_z, Vec3.div_x, Vec3.div_y, Vec3.div_z] <;> ring

theorem isUnit_ofScaledAxis (a : Vec3 ℝ) (angle : ℝ) : (ofScaledAxis (a * angle)).IsUnit := by
  have hcircle := Real.cos_sq_add_sin_sq (a.norm * angle / 2)
  have hnorm := a.norm_mul_norm
  rw [ofScaledAxis_mul, IsUnit, Vec3.normSq, Vec3.dot]
  simp only [Vec3.mul_x, Vec3.mul_y, Vec3.mul_z]
  by_cases hzero : a.norm = 0
  · simp [hzero]
  · rw [Vec3.normSq, Vec3.dot] at hnorm
    have hdiv : (Real.sin (a.norm * angle / 2) / a.norm) ^ 2 * (a.norm * a.norm) =
        Real.sin (a.norm * angle / 2) ^ 2 := by
      field_simp
    linear_combination hcircle + hdiv - (Real.sin (a.norm * angle / 2) / a.norm) ^ 2 * hnorm

end Rotation

/-! ### Poses -/

theorem Pose.apply_sub_position (a : Pose ℝ) (p : Vec3 ℝ) : a.apply p - a.position = a.rotation.apply p := by
  rw [apply]
  ext <;> simp

theorem Pose.position_mul_sub (a b : Pose ℝ) : (a * b).position - a.position = a.rotation.apply b.position :=
  a.apply_sub_position b.position

theorem Pose.identity_mul (a : Pose ℝ) : identity * a = a := by
  have hposition : (identity * a).position = 0 + Rotation.identity.apply a.position := rfl
  refine Pose.ext (by rw [hposition, Rotation.apply_identity, Vec3.zero_add]) ?_
  show Rotation.identity * a.rotation = a.rotation
  ext <;> simp [Rotation.identity]

theorem Pose.mul_identity (a : Pose ℝ) : a * identity = a := by
  have hposition : (a * identity).position = a.position + a.rotation.apply 0 := rfl
  refine Pose.ext (by rw [hposition, Rotation.apply_zero, Vec3.add_zero]) ?_
  show a.rotation * Rotation.identity = a.rotation
  ext <;> simp [Rotation.identity]

end CompliantContact
