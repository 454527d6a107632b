import CompliantContact.Proofs.Dense.Algebra
import CompliantContact.Proofs.Problem.Built
import Mathlib.Tactic.Positivity

/-!
The regularization is never negative, and positive where an equation is compliant.

Only a rigid equation, or the tangential ones of a contact, can have a regularization of zero: where the
constraint sees no inverse inertia.
-/

namespace CompliantContact.Constraint

variable {dt w k tau beta : ℝ}

theorem compliantRegularization_pos (hdt : 0 < dt) (hk : 0 < k) (htau : 0 ≤ tau) :
    0 < compliantRegularization dt w (some k) tau beta := by
  rw [compliantRegularization, Scalar.larger_eq_max]
  have hspring : 0 < dt * k * (dt + tau) := by positivity
  exact lt_max_of_lt_right (one_div_pos.mpr hspring)

theorem compliantRegularization_nonneg {stiffness : Option ℝ} (hdt : 0 < dt)
    (hk : stiffness.all (0 < ·) = true)
    (htau : 0 ≤ tau) : 0 ≤ compliantRegularization dt w stiffness tau beta := by
  cases stiffness with
  | none =>
    rw [compliantRegularization, Scalar.larger_eq_max]
    exact le_max_right ..
  | some k => exact (compliantRegularization_pos hdt (by simpa using hk) htau).le

/-- Without stiffness there is only the part of the inverse inertia. -/
theorem compliantRegularization_none_pos_iff (hbeta : 0 < beta) :
    0 < compliantRegularization dt w none tau beta ↔ 0 < w := by
  have hfactor : 0 < beta * beta / (Scalar.ofNat 4 * Scalar.pi * Scalar.pi : ℝ) := by
    have hpi : (0 : ℝ) < Scalar.pi := Real.pi_pos
    rw [Scalar.ofNat_eq]
    positivity
  rw [compliantRegularization, Scalar.larger_eq_max, lt_max_iff, mul_pos_iff_of_pos_left hfactor]
  exact or_iff_left (lt_irrefl _)

theorem cone_regularization {c : Constraint ℝ} {p : ConeParameters ℝ} (hkind : c.kind = .cone p) (dt w : ℝ) :
    c.regularization dt w 0 = p.sigma * w ∧ c.regularization dt w 1 = p.sigma * w ∧
      c.regularization dt w 2 = compliantRegularization dt w (some p.stiffness) p.dissipationTime p.beta := by
  simp only [regularization, hkind]
  exact ⟨rfl, rfl, rfl⟩

theorem regularization_nonneg {c : Constraint ℝ} (hc : c.InRange) (hdt : 0 < dt) (hw : 0 ≤ w) {i : ℕ}
    (hi : i < c.numEquations) : 0 ≤ c.regularization dt w i := by
  cases hkind : c.kind with
  | cone p =>
    obtain ⟨hthree, -, hstiffness, hdissipation, -, hsigma⟩ := hc.cone hkind
    obtain ⟨hfirst, hsecond, hnormal⟩ := cone_regularization hkind dt w
    have htangent : 0 ≤ p.sigma * w := mul_nonneg hsigma.le hw
    have hcases : i = 0 ∨ i = 1 ∨ i = 2 := by omega
    rcases hcases with rfl | rfl | rfl
    · rwa [hfirst]
    · rwa [hsecond]
    · rw [hnormal]
      exact (compliantRegularization_pos hdt hstiffness hdissipation).le
  | limit q0 p =>
    obtain ⟨hstiffness, hdissipation, -⟩ := hc.limit hkind
    simp only [regularization, hkind]
    rw [Vec.replicate, Vec.get_ofFn_of_lt hi]
    exact (compliantRegularization_pos hdt hstiffness hdissipation).le
  | holonomic p =>
    obtain ⟨-, hstiffness, hrelaxation⟩ := (hc.holonomic hkind).2 i hi
    simp only [regularization, hkind]
    rw [Vec.get_ofFn_of_lt hi]
    exact compliantRegularization_nonneg hdt hstiffness hrelaxation

/-- The equation has a spring of its own: the normal one of a contact, those of limits, and holonomic
    ones that are not rigid. -/
def Compliant (c : Constraint ℝ) (i : ℕ) : Prop :=
  match c.kind with
  | .cone _ => i = 2
  | .limit .. => True
  | .holonomic p => (p.stiffness.getD i none).isSome = true

theorem regularization_pos_iff {c : Constraint ℝ} (hc : c.InRange) (hdt : 0 < dt) {i : ℕ}
    (hi : i < c.numEquations) :
    0 < c.regularization dt w i ↔ c.Compliant i ∨ 0 < w := by
  unfold Compliant
  cases hkind : c.kind with
  | cone p =>
    obtain ⟨hthree, -, hstiffness, hdissipation, -, hsigma⟩ := hc.cone hkind
    obtain ⟨hfirst, hsecond, hnormal⟩ := cone_regularization hkind dt w
    have hcases : i = 0 ∨ i = 1 ∨ i = 2 := by omega
    rcases hcases with rfl | rfl | rfl
    · simp [hfirst, mul_pos_iff_of_pos_left hsigma]
    · simp [hsecond, mul_pos_iff_of_pos_left hsigma]
    · rw [hnormal]
      exact iff_of_true (compliantRegularization_pos hdt hstiffness hdissipation) (.inl rfl)
  | limit q0 p =>
    obtain ⟨hstiffness, hdissipation, -⟩ := hc.limit hkind
    simp only [regularization, hkind]
    rw [Vec.replicate, Vec.get_ofFn_of_lt hi]
    exact iff_of_true (compliantRegularization_pos hdt hstiffness hdissipation) (.inl trivial)
  | holonomic p =>
    obtain ⟨hbeta, hequations⟩ := hc.holonomic hkind
    obtain ⟨-, hstiffness, hrelaxation⟩ := hequations i hi
    simp only [regularization, hkind]
    rw [Vec.get_ofFn_of_lt hi]
    cases hk : p.stiffness.getD i none with
    | none => simp [compliantRegularization_none_pos_iff hbeta]
    | some k =>
      rw [hk] at hstiffness
      exact iff_of_true (compliantRegularization_pos hdt (by simpa using hstiffness) hrelaxation) (.inl rfl)

/-- What the projection asks of the regularization: none is negative, a contact has one for both tangential
    equations, and a positive one along its normal. -/
structure Weighs (c : Constraint ℝ) (r : Vec ℝ) : Prop where
  nonneg : ∀ i < c.numEquations, 0 ≤ r i
  tangents : c.isContact = true → r 0 = r 1
  normal : c.isContact = true → 0 < r 2

theorem weighs_regularization {c : Constraint ℝ} (hc : c.InRange) (hdt : 0 < dt) (hw : 0 ≤ w) :
    c.Weighs (c.regularization dt w) := by
  refine ⟨fun i hi => regularization_nonneg hc hdt hw hi, fun hcontact => ?_, fun hcontact => ?_⟩
  · obtain ⟨p, hkind⟩ := isContact_iff.mp hcontact
    obtain ⟨hfirst, hsecond, -⟩ := cone_regularization hkind dt w
    rw [hfirst, hsecond]
  · obtain ⟨p, hkind⟩ := isContact_iff.mp hcontact
    obtain ⟨-, -, hstiffness, hdissipation, -⟩ := hc.cone hkind
    rw [(cone_regularization hkind dt w).2.2]
    exact compliantRegularization_pos hdt hstiffness hdissipation

end CompliantContact.Constraint
