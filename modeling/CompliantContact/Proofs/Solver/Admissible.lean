import CompliantContact.Proofs.Constraint.Monotone
import CompliantContact.Proofs.Solver.Evaluate

/-!
Impulses that a constraint can have.

A contact pushes, inside the cone of friction, and against the slip. A limit pushes, and only where it
would be passed. A holonomic constraint stays within its bounds. So it is at whichever velocities the
impulses are evaluated, since only the projection decides it.
-/

namespace CompliantContact

/-! ### Contacts -/

namespace FrictionCone

variable {y : Vec3 ℝ} {mu muTilde : ℝ}

/-- An impulse in the cone that points along the unconstrained one in the tangent plane. -/
structure Follows (y : Vec3 ℝ) (mu : ℝ) (p : Vec3 ℝ) : Prop where
  normal : 0 ≤ p.z
  tangent : √(p.x ^ 2 + p.y ^ 2) ≤ mu * p.z
  along : ∃ k, 0 ≤ k ∧ p.x = k * y.x ∧ p.y = k * y.y

theorem norm_le_softNorm (t1 t2 : ℝ) : √(t1 ^ 2 + t2 ^ 2) ≤ softNorm t1 t2 := by
  rw [softNorm_eq]
  exact Real.sqrt_le_sqrt (le_add_of_nonneg_right (sq_nonneg _))

theorem follows_of_sticks (hmu : 0 ≤ mu) (h : softNorm y.x y.y ≤ mu * y.z) : Follows y mu y := by
  have hpos : 0 < mu * y.z := (softNorm_pos y.x y.y).trans_le h
  exact ⟨(pos_of_mul_pos_right hpos hmu).le, (norm_le_softNorm y.x y.y).trans h, 1, zero_le_one,
    by simp, by simp⟩

theorem follows_zero (y : Vec3 ℝ) (mu : ℝ) : Follows y mu 0 :=
  ⟨le_rfl, by simp, 0, le_rfl, by simp, by simp⟩

theorem follows_of_slides (hmu : 0 ≤ mu) (htilde : 0 ≤ muTilde) (h : ¬ muTilde * softNorm y.x y.y ≤ -y.z) :
    Follows y mu ⟨y.x / softNorm y.x y.y * (mu * slideNormal y mu muTilde),
      y.y / softNorm y.x y.y * (mu * slideNormal y mu muTilde), slideNormal y mu muTilde⟩ := by
  have hyr := softNorm_pos y.x y.y
  have hnormal : 0 ≤ slideNormal y mu muTilde := by
    have hdenom : 0 < 1 + mu * muTilde := by positivity
    exact div_nonneg (by linarith) hdenom.le
  have hscale : 0 ≤ mu * slideNormal y mu muTilde := mul_nonneg hmu hnormal
  refine ⟨hnormal, ?_, mu * slideNormal y mu muTilde / softNorm y.x y.y, by positivity, ?_, ?_⟩
  · show √((y.x / softNorm y.x y.y * (mu * slideNormal y mu muTilde)) ^ 2 +
      (y.y / softNorm y.x y.y * (mu * slideNormal y mu muTilde)) ^ 2) ≤ mu * slideNormal y mu muTilde
    -- The direction has at most unit length, since the norm is softened.
    have hunit := unit_sq y
    have hshort : (y.x / softNorm y.x y.y) ^ 2 + (y.y / softNorm y.x y.y) ^ 2 ≤ 1 := by
      linarith [sq_nonneg (softening / softNorm y.x y.y)]
    refine Real.sqrt_le_iff.mpr ⟨hscale, ?_⟩
    calc (y.x / softNorm y.x y.y * (mu * slideNormal y mu muTilde)) ^ 2 +
          (y.y / softNorm y.x y.y * (mu * slideNormal y mu muTilde)) ^ 2
        = ((y.x / softNorm y.x y.y) ^ 2 + (y.y / softNorm y.x y.y) ^ 2) *
          (mu * slideNormal y mu muTilde) ^ 2 := by ring
      _ ≤ (mu * slideNormal y mu muTilde) ^ 2 := mul_le_of_le_one_left (sq_nonneg _) hshort
  · exact (div_mul_eq_mul_div ..).trans (by ring)
  · exact (div_mul_eq_mul_div ..).trans (by ring)

theorem project_follows (hmu : 0 ≤ mu) (htilde : 0 ≤ muTilde) (y : Vec3 ℝ) :
    Follows y mu (project y mu muTilde).1 := by
  by_cases h : softNorm y.x y.y ≤ mu * y.z
  · rw [project_of_sticks h]
    exact follows_of_sticks hmu h
  · by_cases h' : muTilde * softNorm y.x y.y ≤ -y.z
    · rw [project_of_separates h h']
      exact follows_zero y mu
    · rw [project_of_slides h h']
      exact follows_of_slides hmu htilde h'

end FrictionCone

/-! ### All constraints -/

namespace Constraint

/-- What an impulse of a constraint keeps to, at the velocities of its equations and for a time step. -/
def Admissible (c : Constraint ℝ) (dt : ℝ) (impulse velocity : Vec ℝ) : Prop :=
  match c.kind with
  | .cone p =>
    0 ≤ impulse 2 ∧ √(impulse 0 ^ 2 + impulse 1 ^ 2) ≤ p.mu * impulse 2 ∧
      impulse 0 * velocity 0 + impulse 1 * velocity 1 ≤ 0
  | .limit _ p => ∀ i < c.numEquations,
    0 ≤ impulse i ∧ (impulse i ≠ 0 → c.g0 i + (dt + p.dissipationTime) * velocity i < 0)
  | .holonomic p => ∀ i < c.numEquations,
    (∀ l, p.lower.getD i none = some l → l ≤ impulse i) ∧ (∀ u, p.upper.getD i none = some u → impulse i ≤ u)

variable {lower upper : Option ℝ} {y : ℝ}

theorem limitRow_nonneg (y : ℝ) : 0 ≤ (limitRow y).1 := by
  rw [limitRow]
  split_ifs with h
  · exact h.le
  · exact le_rfl

theorem pos_of_limitRow_ne_zero (h : (limitRow y).1 ≠ 0) : 0 < y := by
  by_contra hy
  rw [limitRow, if_neg hy] at h
  exact h rfl

theorem clampRow_mem (h : Bound.ordered lower upper = true) :
    (∀ l, lower = some l → l ≤ (clampRow lower upper y).1) ∧ ∀ u, upper = some u →
    (clampRow lower upper y).1 ≤ u := by
  cases lower <;> cases upper <;> simp only [clampRow, Option.filter] <;>
    simp only [Bound.ordered, decide_eq_true_eq] at h <;> grind

end Constraint

namespace Coupling

variable {c : Coupling ℝ} {dt : ℝ} {v : Vec ℝ} {i : ℕ}

/-- The bias is that of a time step. -/
structure Stepped (c : Coupling ℝ) (dt : ℝ) : Prop extends c.Regular where
  dt_pos : 0 < dt
  bias : c.bias = c.constraint.bias dt

theorem Regular.rInv_nonneg (h : c.Regular) (hi : i < c.constraint.numEquations) : 0 ≤ c.rInv i := by
  rw [h.rInv_get hi]
  exact one_div_nonneg.mpr (h.weighs.nonneg i hi)

/-- A contact has three equations, and one regularization for both tangential ones. -/
theorem Regular.contact (h : c.Regular) (hcontact : c.constraint.isContact = true) :
    c.constraint.numEquations = 3 ∧ c.r 0 = c.r 1 ∧ c.rInv 0 = c.rInv 1 := by
  have hthree := h.inRange.numEquations_of_isContact hcontact
  have htangents := h.weighs.tangents hcontact
  exact ⟨hthree, htangents, by rw [h.rInv_get (by omega), h.rInv_get (by omega), htangents]⟩

theorem Stepped.bias_tangent (h : c.Stepped dt) (hcontact : c.constraint.isContact = true)
    (hi : i < 2) : c.bias i = 0 := by
  obtain ⟨p, hkind⟩ := Constraint.isContact_iff.mp hcontact
  rw [h.bias, Constraint.bias, hkind]
  have hcases : i = 0 ∨ i = 1 := by omega
  rcases hcases with rfl | rfl <;> rfl

/-- Without a tangential bias the unconstrained impulse of a contact is against the slip. -/
theorem Stepped.unconstrained_tangent (h : c.Stepped dt) (hcontact : c.constraint.isContact = true)
    (v : Vec ℝ) (hi : i < 2) :
    c.unconstrained v i = -(c.jacobian.mulVec v i * c.rInv i) := by
  rw [unconstrained_get (by rw [h.rows, (h.contact hcontact).1]; omega), h.bias_tangent hcontact hi, sub_zero]

theorem admissible_cone {p : ConeParameters ℝ} (h : c.Stepped dt) (hkind : c.constraint.kind = .cone p)
    (v : Vec ℝ) :
    0 ≤ c.impulse v 2 ∧ √(c.impulse v 0 ^ 2 + c.impulse v 1 ^ 2) ≤ p.mu * c.impulse v 2 ∧
      c.impulse v 0 * c.jacobian.mulVec v 0 + c.impulse v 1 * c.jacobian.mulVec v 1 ≤ 0 := by
  obtain ⟨hthree, hmu, -⟩ := h.inRange.cone hkind
  have hcontact : c.constraint.isContact = true := Constraint.isContact_iff.mpr ⟨p, hkind⟩
  have hnormal : 0 < c.r 2 := h.weighs.normal hcontact
  have htilde : 0 ≤ p.mu * c.r 0 / c.r 2 :=
    div_nonneg (mul_nonneg hmu (h.weighs.nonneg 0 (by omega))) hnormal.le
  have hfollows := FrictionCone.project_follows hmu htilde ⟨c.unconstrained v 0, c.unconstrained v 1,
    c.unconstrained v 2⟩
  rw [impulse, Constraint.cone_impulse hkind hnormal]
  obtain ⟨k, hk, hx, hy⟩ := hfollows.along
  refine ⟨hfollows.normal, hfollows.tangent, ?_⟩
  have hrow : ∀ i < 2, k * c.unconstrained v i * c.jacobian.mulVec v i ≤ 0 := by
    intro i hi
    have hweight : 0 ≤ k * c.rInv i := mul_nonneg hk (h.rInv_nonneg (by omega))
    rw [h.unconstrained_tangent hcontact v hi]
    nlinarith [mul_nonneg hweight (mul_self_nonneg (c.jacobian.mulVec v i))]
  have hfirst := hrow 0 (by decide)
  have hsecond := hrow 1 (by decide)
  rw [← hx] at hfirst
  rw [← hy] at hsecond
  exact add_nonpos hfirst hsecond

/-- An impulse of a limit needs a velocity below the one that the limit relaxes to. -/
theorem admissible_limit {q0 : ℝ} {p : LimitParameters ℝ} (h : c.Stepped dt)
    (hkind : c.constraint.kind = .limit q0 p) (hi : i < c.constraint.numEquations) :
    0 ≤ c.impulse v i ∧
      (c.impulse v i ≠ 0 → c.constraint.g0 i + (dt + p.dissipationTime) * c.jacobian.mulVec v i < 0) := by
  obtain ⟨-, hdissipation, -⟩ := h.inRange.limit hkind
  have hrow : i < c.jacobian.rows := h.rows ▸ hi
  rw [impulse, Constraint.limit_impulse hkind (by rwa [size_unconstrained])]
  refine ⟨Constraint.limitRow_nonneg _, fun hne => ?_⟩
  have hpos := Constraint.pos_of_limitRow_ne_zero hne
  rw [unconstrained_get hrow] at hpos
  have hrelax : 0 < dt + p.dissipationTime := add_pos_of_pos_of_nonneg h.dt_pos hdissipation
  have hbias : c.bias i = -c.constraint.g0 i / (dt + p.dissipationTime) := by
    rw [h.bias, Constraint.bias, hkind]
    exact (Vec.get_ofFn_of_lt (by rw [Vec.size_neg]; exact hi)).trans (by rw [Vec.get_neg])
  have hslow : c.jacobian.mulVec v i < c.bias i := by
    by_contra hfast
    have hproduct := mul_nonneg (sub_nonneg.mpr (not_lt.mp hfast)) (h.rInv_nonneg hi)
    linarith
  rw [hbias, lt_div_iff₀ hrelax] at hslow
  linarith

theorem admissible_holonomic {p : HolonomicParameters ℝ} (h : c.Regular)
    (hkind : c.constraint.kind = .holonomic p) (hi : i < c.constraint.numEquations) :
    (∀ l, p.lower.getD i none = some l → l ≤ c.impulse v i) ∧ ∀ u, p.upper.getD i none = some u →
    c.impulse v i ≤ u := by
  obtain ⟨hordered, -⟩ := (h.inRange.holonomic hkind).2 i hi
  rw [impulse, Constraint.holonomic_impulse hkind (by rw [size_unconstrained, h.rows]; exact hi)]
  exact Constraint.clampRow_mem hordered

/-- The impulse of a coupling at given velocities. -/
theorem Stepped.admissible (h : c.Stepped dt) (v : Vec ℝ) :
    c.constraint.Admissible dt (c.impulse v) (c.jacobian.mulVec v) := by
  unfold Constraint.Admissible
  cases hkind : c.constraint.kind with
  | cone p => exact admissible_cone h hkind v
  | limit q0 p => exact fun i hi => admissible_limit h hkind hi
  | holonomic p => exact fun i hi => admissible_holonomic h.toRegular hkind hi

theorem stepped_ofConstraint {p : Problem ℝ} (factors : Array (Mat ℝ)) {c : Constraint ℝ}
    (hdt : 0 < p.timeStep) (hc : c.Made) : (ofConstraint p factors c).Stepped p.timeStep where
  toRegular := regular_ofConstraint factors hdt hc
  dt_pos := hdt
  bias := rfl

end Coupling

end CompliantContact
