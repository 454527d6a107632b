import CompliantContact.Proofs.Space.Algebra
import Mathlib.Analysis.InnerProductSpace.Calculus
import Mathlib.Analysis.SpecialFunctions.Trigonometric.Deriv

/-!
Vectors, rotations and poses that change with time.

A rotation turns with an angular velocity `w` if its quaternion `q` changes at the rate `w q / 2`
(`Rotation.TurnsAt`). Then a vector that is carried along changes by `w × u` and by its own rate, and a
product turns with the sum of the angular velocities, the second of them turned by the first rotation. A
pose moves with an angular velocity and the velocity of its origin (`Pose.MovesAt`), and what it places
moves with both and with its own velocities (`Pose.MovesAt.mul`).
-/

namespace CompliantContact

/-! ### Vectors -/

/-- A vector changes at a rate: each coordinate does. -/
structure Vec3.HasRateAt (f : ℝ → Vec3 ℝ) (rate : Vec3 ℝ) (t : ℝ) : Prop where
  x : HasDerivAt (fun s => (f s).x) rate.x t
  y : HasDerivAt (fun s => (f s).y) rate.y t
  z : HasDerivAt (fun s => (f s).z) rate.z t

namespace Vec3.HasRateAt

variable {f g : ℝ → Vec3 ℝ} {f' g' : Vec3 ℝ} {t : ℝ}

theorem congr_rate (h : HasRateAt f f' t) (heq : f' = g') : HasRateAt f g' t := heq ▸ h

theorem const (u : Vec3 ℝ) (t : ℝ) : HasRateAt (fun _ => u) 0 t :=
  ⟨hasDerivAt_const .., hasDerivAt_const .., hasDerivAt_const ..⟩

theorem add (hf : HasRateAt f f' t) (hg : HasRateAt g g' t) : HasRateAt (fun s => f s + g s) (f' + g') t :=
  ⟨hf.x.add hg.x, hf.y.add hg.y, hf.z.add hg.z⟩

theorem sub (hf : HasRateAt f f' t) (hg : HasRateAt g g' t) : HasRateAt (fun s => f s - g s) (f' - g') t :=
  ⟨hf.x.sub hg.x, hf.y.sub hg.y, hf.z.sub hg.z⟩

theorem mul {x : ℝ → ℝ} {x' : ℝ} (hf : HasRateAt f f' t) (hx : HasDerivAt x x' t) :
    HasRateAt (fun s => f s * x s) (f' * x t + f t * x') t :=
  ⟨hf.x.mul hx, hf.y.mul hx, hf.z.mul hx⟩

theorem cross (hf : HasRateAt f f' t) (hg : HasRateAt g g' t) :
    HasRateAt (fun s => (f s).cross (g s)) (f'.cross (g t) + (f t).cross g') t where
  x := ((hf.y.mul hg.z).sub (hf.z.mul hg.y)).congr_deriv (by simp only [Vec3.cross, Vec3.add_x]; ring)
  y := ((hf.z.mul hg.x).sub (hf.x.mul hg.z)).congr_deriv (by simp only [Vec3.cross, Vec3.add_y]; ring)
  z := ((hf.x.mul hg.y).sub (hf.y.mul hg.x)).congr_deriv (by simp only [Vec3.cross, Vec3.add_z]; ring)

theorem dot (hf : HasRateAt f f' t) (hg : HasRateAt g g' t) :
    HasDerivAt (fun s => (f s).dot (g s)) (f'.dot (g t) + (f t).dot g') t :=
  (((hf.x.mul hg.x).add (hf.y.mul hg.y)).add (hf.z.mul hg.z)).congr_deriv (by simp only [Vec3.dot]; ring)

end Vec3.HasRateAt

/-- A matrix changes at a rate: each column does. -/
structure Mat3.HasRateAt (f : ℝ → Mat3 ℝ) (rate : Mat3 ℝ) (t : ℝ) : Prop where
  x : Vec3.HasRateAt (fun s => (f s).x) rate.x t
  y : Vec3.HasRateAt (fun s => (f s).y) rate.y t
  z : Vec3.HasRateAt (fun s => (f s).z) rate.z t

/-- The matrix that takes a vector to its cross product with `w`. -/
def Vec3.crossMatrix (w : Vec3 ℝ) : Mat3 ℝ := .ofRows ⟨0, -w.z, w.y⟩ ⟨w.z, 0, -w.x⟩ ⟨-w.y, w.x, 0⟩

theorem Vec3.mulVec_crossMatrix (w u : Vec3 ℝ) : w.crossMatrix.mulVec u = w.cross u := by
  ext <;> simp [crossMatrix, Mat3.ofRows, Mat3.mulVec, cross] <;> ring

/-! ### Rotations -/

namespace Rotation

/-- A rotation turns with the angular velocity `u`: its quaternion changes at half the rate of `u q`. -/
structure TurnsAt (q : ℝ → Rotation ℝ) (u : Vec3 ℝ) (t : ℝ) : Prop where
  scalar : HasDerivAt (fun s => (q s).w) (((⟨0, u⟩ : Rotation ℝ) * q t).w * (1 / 2)) t
  vector : Vec3.HasRateAt (fun s => (q s).v) (((⟨0, u⟩ : Rotation ℝ) * q t).v * (1 / 2 : ℝ)) t

namespace TurnsAt

variable {p q : ℝ → Rotation ℝ} {u w : Vec3 ℝ} {t : ℝ}

theorem congr_rate (h : TurnsAt q u t) (heq : u = w) : TurnsAt q w t := heq ▸ h

theorem const (q : Rotation ℝ) (t : ℝ) : TurnsAt (fun _ => q) 0 t where
  scalar := (hasDerivAt_const ..).congr_deriv (by simp)
  vector := (Vec3.HasRateAt.const ..).congr_rate (by ext <;> simp)

/-- What turns within something that turns itself. -/
theorem mul (hp : TurnsAt p u t) (hq : TurnsAt q w t) (hunit : (p t).IsUnit) :
    TurnsAt (fun s => p s * q s) (u + (p t).apply w) t := by
  have hturn : p t * ⟨0, w⟩ * q t = ⟨0, (p t).apply w⟩ * p t * q t := by rw [hunit.mul_turn]
  simp only [Rotation.ext_iff, Vec3.ext_iff, mul_w, mul_v_x, mul_v_y, mul_v_z] at hturn
  obtain ⟨hw, hx, hy, hz⟩ := hturn
  have hscalar :=
    (((hp.scalar.mul hq.scalar).sub (hp.vector.x.mul hq.vector.x)).sub (hp.vector.y.mul hq.vector.y)).sub
    (hp.vector.z.mul hq.vector.z)
  have hfirst :=
    (((hp.scalar.mul hq.vector.x).add (hp.vector.x.mul hq.scalar)).add (hp.vector.y.mul hq.vector.z)).sub
    (hp.vector.z.mul hq.vector.y)
  have hsecond :=
    (((hp.scalar.mul hq.vector.y).sub (hp.vector.x.mul hq.vector.z)).add (hp.vector.y.mul hq.scalar)).add
    (hp.vector.z.mul hq.vector.x)
  have hthird :=
    (((hp.scalar.mul hq.vector.z).add (hp.vector.x.mul hq.vector.y)).sub (hp.vector.y.mul hq.vector.x)).add
    (hp.vector.z.mul hq.scalar)
  refine ⟨hscalar.congr_deriv ?_, hfirst.congr_deriv ?_, hsecond.congr_deriv ?_, hthird.congr_deriv ?_⟩ <;>
    simp only [mul_w, mul_v_x, mul_v_y, mul_v_z, Vec3.mul_x, Vec3.mul_y, Vec3.mul_z, Vec3.add_x,
      Vec3.add_y, Vec3.add_z]
  · linear_combination 1 / 2 * hw
  · linear_combination 1 / 2 * hx
  · linear_combination 1 / 2 * hy
  · linear_combination 1 / 2 * hz

/-- A vector that is carried along by a rotation changes with it, and by its own rate. -/
theorem apply (hq : TurnsAt q u t) (hunit : (q t).IsUnit) {r : ℝ → Vec3 ℝ} {r' : Vec3 ℝ}
    (hr : Vec3.HasRateAt r r' t) :
    Vec3.HasRateAt (fun s => (q s).apply (r s)) (u.cross ((q t).apply (r t)) + (q t).apply r') t := by
  have hturn := hq.vector.cross hr
  have htwice := hturn.mul (hasDerivAt_const t (Scalar.two : ℝ))
  refine (((htwice.mul hq.scalar).add (hq.vector.cross htwice)).add hr).congr_rate ?_
  simp only [IsUnit, Vec3.normSq, Vec3.dot] at hunit
  generalize q t = q at *
  generalize r t = r at *
  ext <;> simp [Rotation.apply, Vec3.cross]
  · linear_combination (u.y * r.z - u.z * r.y) * hunit
  · linear_combination (u.z * r.x - u.x * r.z) * hunit
  · linear_combination (u.x * r.y - u.y * r.x) * hunit

/-- The matrix of a rotation changes by the cross products of its columns with the angular velocity. -/
theorem toMat3 (hq : TurnsAt q u t) (hunit : ∀ s, (q s).IsUnit) :
    Mat3.HasRateAt (fun s => (q s).toMat3) (u.crossMatrix * (q t).toMat3) t := by
  have hcolumn : ∀ {c : Mat3 ℝ → Vec3 ℝ} {e : Vec3 ℝ}, (∀ m, c m = m.mulVec e) →
      Vec3.HasRateAt (fun s => c (q s).toMat3) (u.crossMatrix.mulVec (c (q t).toMat3)) t := by
    intro c e hc
    have heach : (fun s => c (q s).toMat3) = fun s => (q s).apply e :=
      funext fun s => (hc _).trans ((hunit s).mulVec_toMat3 e)
    rw [heach, hc, (hunit t).mulVec_toMat3, Vec3.mulVec_crossMatrix]
    exact (hq.apply (hunit t) (.const e t)).congr_rate (by rw [apply_zero, Vec3.add_zero])
  exact ⟨hcolumn fun m => m.mulVec_unitX.symm, hcolumn fun m => m.mulVec_unitY.symm,
    hcolumn fun m => m.mulVec_unitZ.symm⟩

/-- A turn about a fixed axis. -/
theorem ofScaledAxis (a : Vec3 ℝ) {angle : ℝ → ℝ} {rate : ℝ} (h : HasDerivAt angle rate t) :
    TurnsAt (fun s => ofScaledAxis (a * angle s)) (a * rate) t := by
  by_cases hzero : a.norm = 0
  · have hrest : ∀ x : ℝ, Rotation.ofScaledAxis (a * x) = identity := by
      intro x
      rw [ofScaledAxis_mul, a.eq_zero_of_norm hzero]
      ext <;> simp [identity]
    simp only [hrest]
    exact (const identity t).congr_rate (by rw [a.eq_zero_of_norm hzero, Vec3.zero_mul])
  · have hnorm := a.norm_mul_norm
    rw [Vec3.normSq, Vec3.dot] at hnorm
    simp only [ofScaledAxis_mul]
    have hhalf : HasDerivAt (fun s => a.norm * angle s / 2) (a.norm * rate / 2) t :=
      (h.const_mul a.norm).div_const 2
    have hsin : HasDerivAt (fun s => Real.sin (a.norm * angle s / 2) / a.norm)
      (Real.cos (a.norm * angle t / 2) * rate / 2) t :=
      (hhalf.sin.div_const a.norm).congr_deriv (by field_simp)
    refine ⟨hhalf.cos.congr_deriv ?_, ((Vec3.HasRateAt.const a t).mul hsin).congr_rate ?_⟩
    · simp
      field_simp
      linear_combination -(Real.sin (a.norm * angle t / 2) * rate) * hnorm
    · ext <;> simp <;> ring

end TurnsAt

end Rotation

/-! ### Poses -/

namespace Pose

/-- A pose moves with the angular velocity `w` and the velocity `u` of its origin. -/
structure MovesAt (a : ℝ → Pose ℝ) (w u : Vec3 ℝ) (t : ℝ) : Prop where
  rotation : Rotation.TurnsAt (fun s => (a s).rotation) w t
  position : Vec3.HasRateAt (fun s => (a s).position) u t

namespace MovesAt

variable {a b : ℝ → Pose ℝ} {w u w' u' : Vec3 ℝ} {t : ℝ}

theorem congr_rates (h : MovesAt a w u t) (hw : w = w') (hu : u = u') : MovesAt a w' u' t := hw ▸ hu ▸ h

theorem const (a : Pose ℝ) (t : ℝ) : MovesAt (fun _ => a) 0 0 t := ⟨.const .., .const ..⟩

/-- What a moving frame places moves with the frame, and by its own velocities. -/
theorem mul (ha : MovesAt a w u t) (hb : MovesAt b w' u' t) (hunit : (a t).rotation.IsUnit) :
    MovesAt (fun s => a s * b s) (w + (a t).rotation.apply w')
      (u + (w.cross ((a t).rotation.apply (b t).position) + (a t).rotation.apply u')) t :=
  ⟨ha.rotation.mul hb.rotation hunit, ha.position.add (ha.rotation.apply hunit hb.position)⟩

/-- A point that is fixed in a moving frame. -/
theorem apply (ha : MovesAt a w u t) (hunit : (a t).rotation.IsUnit) (p : Vec3 ℝ) :
    Vec3.HasRateAt (fun s => (a s).apply p) (u + w.cross ((a t).rotation.apply p)) t :=
  (ha.position.add (ha.rotation.apply hunit (.const p t))).congr_rate
    (by rw [Rotation.apply_zero, Vec3.add_zero])

end MovesAt

end Pose

end CompliantContact
