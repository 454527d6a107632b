import CompliantContact.Proofs.Constraint.Monotone
import CompliantContact.Proofs.Constraint.Slope
import CompliantContact.Proofs.Dense.Point
import Mathlib.Analysis.Calculus.Deriv.Inv
import Mathlib.Analysis.InnerProductSpace.Calculus
import Mathlib.Analysis.SpecialFunctions.Sqrt

/-!
The derivative of a projection by the unconstrained impulse.

Where two regions of a projection meet, their formulas agree, so the impulse is a continuous function of
the unconstrained one. Off these boundaries it has a derivative, and the slope beside the impulse is
that derivative, column by column times the inverse of the regularization
(`project_continuous_and_derivative`). Since the softened norm has a derivative everywhere, so has the
direction of a tangential impulse, even of one that is zero.
-/

namespace CompliantContact

open Filter Topology
open Finset hiding sum_apply

variable {E : Type*} [NormedAddCommGroup E] [NormedSpace ℝ E] {x : E}

/-! ### Contacts -/

namespace FrictionCone

variable {mu muTilde : ℝ}

section Continuity
variable {X : Type*} [TopologicalSpace X] {f g h : X → ℝ}

theorem continuous_softNorm (hf : Continuous f) (hg : Continuous g) :
    Continuous fun z => softNorm (f z) (g z) := by
  simp only [softNorm_eq]
  exact (((hf.pow 2).add (hg.pow 2)).add continuous_const).sqrt

/-- The impulse of a contact that slides. -/
noncomputable def slideImpulse (y : Vec3 ℝ) (mu muTilde : ℝ) : Vec3 ℝ :=
  ⟨y.x / softNorm y.x y.y * (mu * slideNormal y mu muTilde),
    y.y / softNorm y.x y.y * (mu * slideNormal y mu muTilde), slideNormal y mu muTilde⟩

theorem project_eq (y : Vec3 ℝ) (mu muTilde : ℝ) : (project y mu muTilde).1 =
    if softNorm y.x y.y ≤ mu * y.z then y
    else if muTilde * softNorm y.x y.y ≤ -y.z then 0 else slideImpulse y mu muTilde := by
  split_ifs with hsticks hseparates
  · exact project_of_sticks hsticks
  · exact project_of_separates hsticks hseparates
  · exact project_of_slides hsticks hseparates

/-- About to stick, a contact keeps its impulse. -/
theorem slideImpulse_of_sticks {y : Vec3 ℝ} (hdenom : 0 < 1 + mu * muTilde)
    (h : softNorm y.x y.y = mu * y.z) :
    slideImpulse y mu muTilde = y := by
  have hnorm := softNorm_pos y.x y.y
  have hgap : slideGap y mu muTilde = 0 := by rw [slideGap, h, sub_self, zero_div]
  have hnormal : y.z - slideNormal y mu muTilde = 0 := by
    rw [normal_sub_slide hdenom, hgap, mul_zero, neg_zero]
  have htangent : ∀ t, t - t / softNorm y.x y.y * (mu * slideNormal y mu muTilde) = 0 := fun t => by
    rw [tangent_sub_slide hdenom, hgap, zero_mul]
  exact Vec3.ext (sub_eq_zero.mp (htangent y.x)).symm (sub_eq_zero.mp (htangent y.y)).symm
    (sub_eq_zero.mp hnormal).symm

/-- About to separate, it has none. -/
theorem slideImpulse_of_separates {y : Vec3 ℝ} (h : muTilde * softNorm y.x y.y = -y.z) :
    slideImpulse y mu muTilde = 0 := by
  have hnormal : slideNormal y mu muTilde = 0 := by rw [slideNormal, h, add_neg_cancel, zero_div]
  simp only [slideImpulse, hnormal, mul_zero]
  rfl

theorem continuous_slideImpulse (hf : Continuous f) (hg : Continuous g) (hh : Continuous h) (i : ℕ) :
    Continuous fun z => (slideImpulse ⟨f z, g z, h z⟩ mu muTilde).get i := by
  have hnorm := continuous_softNorm hf hg
  have hne : ∀ z, softNorm (f z) (g z) ≠ 0 := fun z => (softNorm_pos _ _).ne'
  have hnormal : Continuous fun z => slideNormal ⟨f z, g z, h z⟩ mu muTilde :=
    (hh.add (continuous_const.mul hnorm)).div_const _
  rcases i with _ | _ | _ | i
  · exact (hf.div hnorm hne).mul (continuous_const.mul hnormal)
  · exact (hg.div hnorm hne).mul (continuous_const.mul hnormal)
  · exact hnormal
  · exact continuous_const

/-- The three formulas agree where their regions meet. -/
theorem continuous_project (hmu : 0 ≤ mu) (hmuTilde : 0 ≤ muTilde) (hf : Continuous f) (hg : Continuous g)
    (hh : Continuous h) (i : ℕ) : Continuous fun z => (project ⟨f z, g z, h z⟩ mu muTilde).1.get i := by
  have hdenom : 0 < 1 + mu * muTilde := by positivity
  have hnorm := continuous_softNorm hf hg
  have hkept : Continuous fun z => (⟨f z, g z, h z⟩ : Vec3 ℝ).get i := by
    rcases i with _ | _ | _ | i
    · exact hf
    · exact hg
    · exact hh
    · exact continuous_const
  have hbelow : Continuous fun z =>
      if muTilde * softNorm (f z) (g z) ≤ -h z then 0
        else (slideImpulse ⟨f z, g z, h z⟩ mu muTilde).get i := by
    refine continuous_const.if_le (continuous_slideImpulse hf hg hh i)
      (continuous_const.mul hnorm) hh.neg fun z hz => ?_
    rw [slideImpulse_of_separates hz]
    rcases i with _ | _ | _ | i <;> rfl
  have hproject : (fun z => (project ⟨f z, g z, h z⟩ mu muTilde).1.get i) = fun z =>
      if softNorm (f z) (g z) ≤ mu * h z then (⟨f z, g z, h z⟩ : Vec3 ℝ).get i
      else if muTilde * softNorm (f z) (g z) ≤ -h z then 0
        else (slideImpulse ⟨f z, g z, h z⟩ mu muTilde).get i := by
    funext z
    rw [project_eq]
    split_ifs
    · rfl
    · rcases i with _ | _ | _ | i <;> rfl
    · rfl
  rw [hproject]
  refine hkept.if_le hbelow hnorm (continuous_const.mul hh) fun z hz => ?_
  -- A contact that is about to stick has a positive normal impulse, so it does not separate.
  have hsoft := softNorm_pos (f z) (g z)
  have hpressed : 0 < h z := pos_of_mul_pos_right (hz ▸ hsoft) hmu
  have hnot : ¬ muTilde * softNorm (f z) (g z) ≤ -h z := fun hle => by
    have hnonneg : 0 ≤ muTilde * softNorm (f z) (g z) := by positivity
    linarith
  rw [if_neg hnot, slideImpulse_of_sticks hdenom hz]

end Continuity

variable {f g h : E → ℝ} {f' g' h' : E →L[ℝ] ℝ}

theorem hasFDerivAt_softNorm (hf : HasFDerivAt f f' x) (hg : HasFDerivAt g g' x) :
    HasFDerivAt (fun z => softNorm (f z) (g z))
      ((f x / softNorm (f x) (g x)) • f' + (g x / softNorm (f x) (g x)) • g') x := by
  have hpos := softNorm_pos (f x) (g x)
  have hsum : f x ^ 2 + g x ^ 2 + softening ^ 2 ≠ 0 := by
    rw [← softNorm_sq]
    positivity
  have hroot := (((hf.pow 2).add (hg.pow 2)).add_const (softening ^ 2)).sqrt hsum
  have hnorm : (fun z => softNorm (f z) (g z)) = fun z => √(f z ^ 2 + g z ^ 2 + softening ^ 2) :=
    funext fun z => softNorm_eq _ _
  rw [hnorm]
  refine hroot.congr_fderiv ?_
  ext w
  have hvalue : √(f x ^ 2 + g x ^ 2 + softening ^ 2) = softNorm (f x) (g x) := (softNorm_eq _ _).symm
  simp [hvalue]
  field_simp

theorem hasFDerivAt_slideNormal (mu muTilde : ℝ) (hf : HasFDerivAt f f' x) (hg : HasFDerivAt g g' x)
    (hh : HasFDerivAt h h' x) :
    HasFDerivAt (fun z => slideNormal ⟨f z, g z, h z⟩ mu muTilde)
      ((1 + mu * muTilde)⁻¹ • (h' +
        muTilde • ((f x / softNorm (f x) (g x)) • f' + (g x / softNorm (f x) (g x)) • g'))) x := by
  have hnorm := hasFDerivAt_softNorm hf hg
  have hsum := (hh.add (hnorm.const_mul muTilde)).mul_const (1 + mu * muTilde)⁻¹
  exact hsum

/-- The component of the unit vector along which a tangential impulse points. -/
theorem hasFDerivAt_direction {k : E → ℝ} {k' : E →L[ℝ] ℝ} (hk : HasFDerivAt k k' x) (hf : HasFDerivAt f f' x)
    (hg : HasFDerivAt g g' x) :
    HasFDerivAt (fun z => k z / softNorm (f z) (g z))
      ((softNorm (f x) (g x))⁻¹ • (k' - (k x / softNorm (f x) (g x)) •
        ((f x / softNorm (f x) (g x)) • f' + (g x / softNorm (f x) (g x)) • g'))) x := by
  have hpos := softNorm_pos (f x) (g x)
  have hinverse := (hasDerivAt_inv hpos.ne').comp_hasFDerivAt x (hasFDerivAt_softNorm hf hg)
  refine (hk.mul hinverse).congr_fderiv ?_
  ext w
  simp only [Function.comp_apply, add_apply, sub_apply, smul_apply, smul_eq_mul]
  field_simp
  ring

/-! Off its boundary a region holds in a whole neighbourhood. -/

theorem eventually_sticks (hf : HasFDerivAt f f' x) (hg : HasFDerivAt g g' x) (hh : HasFDerivAt h h' x)
    (hx : softNorm (f x) (g x) < mu * h x) : ∀ᶠ z in 𝓝 x, softNorm (f z) (g z) ≤ mu * h z :=
  ((hasFDerivAt_softNorm hf hg).continuousAt.eventually_lt (hh.continuousAt.const_mul mu) hx).mono
    fun _ hz => hz.le

theorem eventually_not_sticks (hf : HasFDerivAt f f' x) (hg : HasFDerivAt g g' x) (hh : HasFDerivAt h h' x)
    (hx : mu * h x < softNorm (f x) (g x)) : ∀ᶠ z in 𝓝 x, ¬ softNorm (f z) (g z) ≤ mu * h z :=
  ((hh.continuousAt.const_mul mu).eventually_lt (hasFDerivAt_softNorm hf hg).continuousAt hx).mono
    fun _ hz => hz.not_ge

theorem eventually_separates (hf : HasFDerivAt f f' x) (hg : HasFDerivAt g g' x) (hh : HasFDerivAt h h' x)
    (hx : muTilde * softNorm (f x) (g x) < -h x) : ∀ᶠ z in 𝓝 x, muTilde * softNorm (f z) (g z) ≤ -h z :=
  (((hasFDerivAt_softNorm hf hg).continuousAt.const_mul muTilde).eventually_lt hh.continuousAt.neg
    hx).mono fun _ hz => hz.le

theorem eventually_not_separates (hf : HasFDerivAt f f' x) (hg : HasFDerivAt g g' x) (hh : HasFDerivAt h h' x)
    (hx : -h x < muTilde * softNorm (f x) (g x)) : ∀ᶠ z in 𝓝 x, ¬ muTilde * softNorm (f z) (g z) ≤ -h z :=
  (hh.continuousAt.neg.eventually_lt ((hasFDerivAt_softNorm hf hg).continuousAt.const_mul muTilde) hx).mono
    fun _ hz => hz.not_ge

/-- The derivative whose coefficients are a row of a matrix. -/
noncomputable def rowDerivative (m : Mat3 ℝ) (f' g' h' : E →L[ℝ] ℝ) (i : ℕ) : E →L[ℝ] ℝ :=
  m.get i 0 • f' + m.get i 1 • g' + m.get i 2 • h'

theorem rowDerivative_apply (m : Mat3 ℝ) (i : ℕ) (w : E) :
    rowDerivative m f' g' h' i w = (m.mulVec ⟨f' w, g' w, h' w⟩).get i := by
  rcases i with _ | _ | _ | i
  · rfl
  · rfl
  · rfl
  · simp [rowDerivative, Mat3.get, Vec3.get]

theorem hasFDerivAt_project_of_sticks (hf : HasFDerivAt f f' x) (hg : HasFDerivAt g g' x)
    (hh : HasFDerivAt h h' x) (hsticks : softNorm (f x) (g x) < mu * h x) (i : ℕ) :
    HasFDerivAt (fun z => (project ⟨f z, g z, h z⟩ mu muTilde).1.get i)
      (rowDerivative (project ⟨f x, g x, h x⟩ mu muTilde).2 f' g' h' i) x := by
  have hrow : ∀ w, (⟨f' w, g' w, h' w⟩ : Vec3 ℝ).get i =
      rowDerivative (project ⟨f x, g x, h x⟩ mu muTilde).2 f' g' h' i w := fun w => by
    rw [rowDerivative_apply, mulVec_slope_of_sticks hsticks.le]
  have hkept : HasFDerivAt (fun z => (⟨f z, g z, h z⟩ : Vec3 ℝ).get i)
      (rowDerivative (project ⟨f x, g x, h x⟩ mu muTilde).2 f' g' h' i) x := by
    rcases i with _ | _ | _ | i
    · exact hf.congr_fderiv (ContinuousLinearMap.ext hrow)
    · exact hg.congr_fderiv (ContinuousLinearMap.ext hrow)
    · exact hh.congr_fderiv (ContinuousLinearMap.ext hrow)
    · exact (hasFDerivAt_const 0 x).congr_fderiv (ContinuousLinearMap.ext hrow)
  refine hkept.congr_of_eventuallyEq ((eventually_sticks hf hg hh hsticks).mono fun z hz => ?_)
  exact congrArg (Vec3.get · i) (project_of_sticks hz)

theorem hasFDerivAt_project_of_separates (hf : HasFDerivAt f f' x) (hg : HasFDerivAt g g' x)
    (hh : HasFDerivAt h h' x)
    (hsticks : mu * h x < softNorm (f x) (g x)) (hseparates : muTilde * softNorm (f x) (g x) < -h x) (i : ℕ) :
    HasFDerivAt (fun z => (project ⟨f z, g z, h z⟩ mu muTilde).1.get i)
      (rowDerivative (project ⟨f x, g x, h x⟩ mu muTilde).2 f' g' h' i) x := by
  have hrow : ∀ w, (0 : E →L[ℝ] ℝ) w =
      rowDerivative (project ⟨f x, g x, h x⟩ mu muTilde).2 f' g' h' i w := fun w => by
    rw [rowDerivative_apply, mulVec_slope_of_separates hsticks.not_ge hseparates.le]
    rcases i with _ | _ | _ | i <;> rfl
  refine ((hasFDerivAt_const ((0 : Vec3 ℝ).get i) x).congr_fderiv
    (ContinuousLinearMap.ext hrow)).congr_of_eventuallyEq ?_
  filter_upwards [eventually_not_sticks hf hg hh hsticks,
    eventually_separates hf hg hh hseparates] with z hz hz'
  exact congrArg (Vec3.get · i) (project_of_separates hz hz')

theorem hasFDerivAt_project_of_slides (hf : HasFDerivAt f f' x) (hg : HasFDerivAt g g' x)
    (hh : HasFDerivAt h h' x)
    (hsticks : mu * h x < softNorm (f x) (g x)) (hseparates : -h x < muTilde * softNorm (f x) (g x)) (i : ℕ) :
    HasFDerivAt (fun z => (project ⟨f z, g z, h z⟩ mu muTilde).1.get i)
      (rowDerivative (project ⟨f x, g x, h x⟩ mu muTilde).2 f' g' h' i) x := by
  have hrow : ∀ w, rowDerivative (project ⟨f x, g x, h x⟩ mu muTilde).2 f' g' h' i w =
      (slideChange ⟨f x, g x, h x⟩ mu muTilde ⟨f' w, g' w, h' w⟩).get i := fun w => by
    rw [rowDerivative_apply, mulVec_slope_of_slides hsticks.not_ge hseparates.not_ge]
  have hnormal := hasFDerivAt_slideNormal mu muTilde hf hg hh
  have hslide : HasFDerivAt (fun z => (slideImpulse ⟨f z, g z, h z⟩ mu muTilde).get i)
      (rowDerivative (project ⟨f x, g x, h x⟩ mu muTilde).2 f' g' h' i) x := by
    rcases i with _ | _ | _ | i
    · refine ((hasFDerivAt_direction hf hf hg).mul (hnormal.const_mul mu)).congr_fderiv
        (ContinuousLinearMap.ext fun w => ?_)
      rw [hrow]
      simp only [slideChange, normChange, normalChange, Vec3.get, add_apply, sub_apply, smul_apply,
        smul_eq_mul]
      ring
    · refine ((hasFDerivAt_direction hg hf hg).mul (hnormal.const_mul mu)).congr_fderiv
        (ContinuousLinearMap.ext fun w => ?_)
      rw [hrow]
      simp only [slideChange, normChange, normalChange, Vec3.get, add_apply, sub_apply, smul_apply,
        smul_eq_mul]
      ring
    · exact hnormal.congr_fderiv (ContinuousLinearMap.ext fun w => (hrow w).symm)
    · exact (hasFDerivAt_const 0 x).congr_fderiv (ContinuousLinearMap.ext fun w => (hrow w).symm)
  refine hslide.congr_of_eventuallyEq ?_
  filter_upwards [eventually_not_sticks hf hg hh hsticks,
    eventually_not_separates hf hg hh hseparates] with z hz hz'
  exact congrArg (Vec3.get · i) (project_of_slides hz hz')

/-- Off the boundaries the projection has the derivative that it gives. -/
theorem hasFDerivAt_project (hf : HasFDerivAt f f' x) (hg : HasFDerivAt g g' x) (hh : HasFDerivAt h h' x)
    (hsticks : softNorm (f x) (g x) ≠ mu * h x) (hseparates : muTilde * softNorm (f x) (g x) ≠ -h x) (i : ℕ) :
    HasFDerivAt (fun z => (project ⟨f z, g z, h z⟩ mu muTilde).1.get i)
      (rowDerivative (project ⟨f x, g x, h x⟩ mu muTilde).2 f' g' h' i) x := by
  rcases lt_or_gt_of_ne hsticks with hstick | hslip
  · exact hasFDerivAt_project_of_sticks hf hg hh hstick i
  · rcases lt_or_gt_of_ne hseparates with hseparate | hslide
    · exact hasFDerivAt_project_of_separates hf hg hh hslip hseparate i
    · exact hasFDerivAt_project_of_slides hf hg hh hslip hslide i

end FrictionCone

/-! ### Limits and holonomic constraints -/

namespace Constraint

/-- A row that follows its unconstrained impulse near `y`, or does not move there. -/
def Settled (row : ℝ → ℝ × Bool) (y : ℝ) : Prop :=
  HasDerivAt (fun z => (row z).1) (if (row y).2 then 1 else 0) y

theorem settled_of_follows {row : ℝ → ℝ × Bool} {y : ℝ} (h : ∀ᶠ z in 𝓝 y, row z = (z, true)) :
    Settled row y := by
  rw [Settled, h.self_of_nhds, if_pos rfl]
  exact (hasDerivAt_id y).congr_of_eventuallyEq (h.mono fun z hz => congrArg Prod.fst hz)

theorem settled_of_held {row : ℝ → ℝ × Bool} {y b : ℝ} (h : ∀ᶠ z in 𝓝 y, row z = (b, false)) :
    Settled row y := by
  have hheld : ¬ (row y).2 = true := by simp [h.self_of_nhds]
  rw [Settled, if_neg hheld]
  exact (hasDerivAt_const y b).congr_of_eventuallyEq (h.mono fun z hz => congrArg Prod.fst hz)

theorem settled_limitRow {y : ℝ} (h : y ≠ 0) : Settled limitRow y := by
  rcases lt_or_gt_of_ne h with h | h
  · have hnear : ∀ᶠ z in 𝓝 y, limitRow z = (0, false) :=
      (eventually_lt_nhds h).mono fun z hz => by rw [limitRow, if_neg hz.not_gt]
    exact settled_of_held hnear
  · have hnear : ∀ᶠ z in 𝓝 y, limitRow z = (z, true) :=
      (eventually_gt_nhds h).mono fun z hz => by rw [limitRow, if_pos hz]
    exact settled_of_follows hnear

section Clamp
variable {lower upper : Option ℝ} {y l u : ℝ}

theorem clampRow_of_lt (hl : lower = some l) (h : y < l) : clampRow lower upper y = (l, false) := by
  simp [clampRow, hl, Option.filter_some, h]

theorem filter_below (h : ∀ l, lower = some l → l ≤ y) : lower.filter (y < ·) = none := by
  simpa [Option.filter_eq_none_iff] using h

theorem clampRow_of_gt (hl : ∀ l, lower = some l → l ≤ y) (hu : upper = some u) (h : u < y) :
    clampRow lower upper y = (u, false) := by
  simp [clampRow, filter_below hl, hu, Option.filter_some, h]

theorem clampRow_of_between (hl : ∀ l, lower = some l → l ≤ y) (hu : ∀ u, upper = some u → y ≤ u) :
    clampRow lower upper y = (y, true) := by
  have hupper : upper.filter (· < y) = none := by simpa [Option.filter_eq_none_iff] using hu
  simp [clampRow, filter_below hl, hupper]

theorem eventually_forall_bound {bound : Option ℝ} {P : ℝ → ℝ → Prop}
    (h : ∀ b, bound = some b → ∀ᶠ z in 𝓝 y, P b z) : ∀ᶠ z in 𝓝 y, ∀ b, bound = some b → P b z := by
  cases bound with
  | none => exact Eventually.of_forall fun z b hb => nomatch hb
  | some b =>
    refine (h b rfl).mono fun z hz b' hb' => ?_
    cases hb'
    exact hz

theorem settled_clampRow (hl : ∀ l, lower = some l → y ≠ l) (hu : ∀ u, upper = some u → y ≠ u) :
    Settled (clampRow lower upper) y := by
  by_cases hbelow : ∃ l, lower = some l ∧ y < l
  · obtain ⟨l, hlower, hlt⟩ := hbelow
    have hnear : ∀ᶠ z in 𝓝 y, clampRow lower upper z = (l, false) :=
      (eventually_lt_nhds hlt).mono fun z hz => clampRow_of_lt hlower hz
    exact settled_of_held hnear
  · have habove : ∀ l, lower = some l → ∀ᶠ z in 𝓝 y, l < z := fun l hlower =>
      eventually_gt_nhds (lt_of_le_of_ne (not_lt.mp fun hlt => hbelow ⟨l, hlower, hlt⟩) (hl l hlower).symm)
    by_cases hover : ∃ u, upper = some u ∧ u < y
    · obtain ⟨u, hupper, hgt⟩ := hover
      have hnear : ∀ᶠ z in 𝓝 y, clampRow lower upper z = (u, false) := by
        filter_upwards [eventually_forall_bound habove, eventually_gt_nhds hgt] with z hz hz'
        exact clampRow_of_gt (fun l hlower => (hz l hlower).le) hupper hz'
      exact settled_of_held hnear
    · have hunder : ∀ u, upper = some u → ∀ᶠ z in 𝓝 y, z < u := fun u hupper =>
        eventually_lt_nhds (lt_of_le_of_ne (not_lt.mp fun hgt => hover ⟨u, hupper, hgt⟩) (hu u hupper))
      have hnear : ∀ᶠ z in 𝓝 y, clampRow lower upper z = (z, true) := by
        filter_upwards [eventually_forall_bound habove, eventually_forall_bound hunder] with z hz hz'
        exact clampRow_of_between (fun l hlower => (hz l hlower).le) fun u hupper => (hz' u hupper).le
      exact settled_of_follows hnear

/-- An absent bound asks for nothing. -/
theorem forall_none {P : ℝ → Prop} : ∀ b, (none : Option ℝ) = some b → P b := fun _ h => nomatch h

theorem clampRow_under (u y : ℝ) : (clampRow none (some u) y).1 = if y ≤ u then y else u := by
  split_ifs with h
  · rw [clampRow_of_between forall_none fun _ hu => Option.some.inj hu ▸ h]
  · rw [clampRow_of_gt forall_none rfl (not_le.mp h)]

theorem clampRow_over (l y : ℝ) (upper : Option ℝ) :
    (clampRow (some l) upper y).1 = if l ≤ y then (clampRow none upper y).1 else l := by
  split_ifs with h
  · rw [clampRow, filter_below fun _ hl => Option.some.inj hl ▸ h]
    rfl
  · rw [clampRow_of_lt rfl (not_le.mp h)]

/-- At a bound the clamped value is the bound. -/
theorem continuous_clampRow (h : Bound.ordered lower upper = true) :
    Continuous fun y => (clampRow lower upper y).1 := by
  have hunder : Continuous fun y => (clampRow none upper y).1 := by
    cases upper with
    | none => exact continuous_id
    | some u =>
      simp only [clampRow_under]
      exact continuous_id.if_le continuous_const continuous_id continuous_const fun _ hy => hy
  cases lower with
  | none => exact hunder
  | some l =>
    simp only [clampRow_over]
    refine hunder.if_le continuous_const continuous_const continuous_id fun y hy => ?_
    have hle : ∀ u, upper = some u → y ≤ u := fun u hu => by
      subst hu
      exact hy ▸ of_decide_eq_true h
    rw [clampRow_of_between forall_none hle]
    exact hy.symm

end Clamp

/-! ### Any constraint -/

/-- The projection is not on the boundary between two of its regions. -/
def OffBoundaries (c : Constraint ℝ) (y r : Vec ℝ) : Prop :=
  match c.kind with
  | .cone p =>
    FrictionCone.softNorm (y 0) (y 1) ≠ p.mu * y 2 ∧
    p.mu * r 0 / r 2 * FrictionCone.softNorm (y 0) (y 1) ≠ -y 2
  | .limit .. => ∀ i < c.numEquations, y i ≠ 0
  | .holonomic p => ∀ i < c.numEquations,
    (∀ l, p.lower.getD i none = some l → y i ≠ l) ∧ ∀ u, p.upper.getD i none = some u → y i ≠ u

variable {c : Constraint ℝ} {r rInv : Vec ℝ} {i j : ℕ}

section Continuity
variable {X : Type*} [TopologicalSpace X] {y : X → Vec ℝ}

theorem continuous_limitRow : Continuous fun y => (limitRow y).1 := by
  have hmax : (fun y => (limitRow y).1) = fun y => max y 0 := by
    funext y
    rw [limitRow]
    split_ifs with h
    · exact (max_eq_left h.le).symm
    · exact (max_eq_right (not_lt.mp h)).symm
  rw [hmax]
  exact continuous_id.max continuous_const

theorem continuous_impulse (hc : c.InRange) (hr : ∀ i < c.numEquations, 0 < r i)
    (hsize : ∀ z, (y z).size = c.numEquations)
    (hy : ∀ i < c.numEquations, Continuous fun z => y z i) (hi : i < c.numEquations) :
    Continuous fun z => (c.project (y z) r rInv).impulse i := by
  cases hkind : c.kind with
  | cone p =>
    obtain ⟨hthree, hmu, -⟩ := hc.cone hkind
    have hnormal : 0 < r 2 := hr 2 (by omega)
    have hratio : 0 ≤ p.mu * r 0 / r 2 := div_nonneg (mul_nonneg hmu (hr 0 (by omega)).le) hnormal.le
    simp only [cone_impulse hkind hnormal, get_ofList_toList]
    exact FrictionCone.continuous_project hmu hratio (hy 0 (by omega)) (hy 1 (by omega)) (hy 2 (by omega)) i
  | limit q0 p =>
    have hrow : ∀ z, (c.project (y z) r rInv).impulse i = (limitRow (y z i)).1 := fun z =>
      limit_impulse hkind ((hsize z).symm ▸ hi)
    simp only [hrow]
    exact continuous_limitRow.comp (hy i hi)
  | holonomic p =>
    have hrow : ∀ z, (c.project (y z) r rInv).impulse i =
        (clampRow (p.lower.getD i none) (p.upper.getD i none) (y z i)).1 := fun z =>
      holonomic_impulse hkind ((hsize z).symm ▸ hi)
    simp only [hrow]
    exact (continuous_clampRow ((hc.holonomic hkind).2 i hi).1).comp (hy i hi)

end Continuity

variable {y : E → Vec ℝ} {y' : ℕ → E →L[ℝ] ℝ}

/-- A row that is settled has the derivative of what it follows, which its entry on the diagonal stands
    for. -/
theorem Settled.hasFDerivAt {row : ℝ → ℝ × Bool} {n : ℕ} (h : Settled row (y x i))
    (hy : HasFDerivAt (fun z => y z i) (y' i) x) (hi : i < n) (hr : r i ≠ 0) (hrInv : rInv i = 1 / r i) :
    HasFDerivAt (fun z => (row (y z i)).1)
      (∑ j ∈ range n, ((if i = j ∧ (row (y x i)).2 = true then rInv i else 0) * r j) • y' j) x := by
  refine (HasDerivAt.comp_hasFDerivAt (f := fun z => y z i) x h hy).congr_fderiv ?_
  rw [sum_eq_single i]
  · split_ifs with hfollows hrow hrow
    · rw [hrInv, one_div_mul_cancel hr]
    · exact absurd ⟨rfl, hfollows⟩ hrow
    · exact absurd hrow.2 hfollows
    · rw [zero_mul]
  · intro j _ hj
    rw [if_neg fun h => hj h.1.symm, zero_mul, zero_smul]
  · exact fun hout => absurd (mem_range.mpr hi) hout

/-- Off the boundaries the slope times the regularization is the derivative of the impulses. -/
theorem hasFDerivAt_impulse (hc : c.InRange) (hr : ∀ i < c.numEquations, 0 < r i)
    (hrInv : ∀ i < c.numEquations, rInv i = 1 / r i) (hsize : ∀ z, (y z).size = c.numEquations)
    (hy : ∀ i < c.numEquations, HasFDerivAt (fun z => y z i) (y' i) x) (hoff : c.OffBoundaries (y x) r)
    (hi : i < c.numEquations) :
    HasFDerivAt (fun z => (c.project (y z) r rInv).impulse i)
      (∑ j ∈ range c.numEquations, ((c.project (y x) r rInv).slope i j * r j) • y' j) x := by
  unfold OffBoundaries at hoff
  cases hkind : c.kind with
  | cone p =>
    simp only [hkind] at hoff
    have hthree : c.numEquations = 3 := (hc.cone hkind).1
    have hnormal : 0 < r 2 := hr 2 (by omega)
    have hproject := FrictionCone.hasFDerivAt_project (hy 0 (by omega)) (hy 1 (by omega))
      (hy 2 (by omega)) hoff.1 hoff.2 i
    have hentry : ∀ j ∈ range 3, (c.project (y x) r rInv).slope i j * r j =
        (FrictionCone.project ⟨y x 0, y x 1, y x 2⟩ p.mu (p.mu * r 0 / r 2)).2.get i j := by
      intro j hj
      have hj : j < 3 := mem_range.mp hj
      rw [cone_slope hkind hnormal hj, hrInv j (by omega), mul_assoc,
        one_div_mul_cancel (hr j (by omega)).ne', mul_one]
    simp only [cone_impulse hkind hnormal, get_ofList_toList]
    refine hproject.congr_fderiv ?_
    rw [hthree, sum_congr rfl fun j hj => congrArg (· • y' j) (hentry j hj), sum_range_succ,
      sum_range_succ, sum_range_one]
    rfl
  | limit q0 p =>
    simp only [hkind] at hoff
    have hrow := (settled_limitRow (hoff i hi)).hasFDerivAt (hy i hi) hi (hr i hi).ne' (hrInv i hi)
    refine (hrow.congr_fderiv (sum_congr rfl fun j hj => ?_)).congr_of_eventuallyEq (.of_forall fun z => ?_)
    · rw [limit_slope hkind ((hsize x).symm ▸ hi) ((hsize x).symm ▸ mem_range.mp hj)]
    · exact limit_impulse hkind ((hsize z).symm ▸ hi)
  | holonomic p =>
    simp only [hkind] at hoff
    have hrow := (settled_clampRow (hoff i hi).1 (hoff i hi).2).hasFDerivAt (hy i hi) hi (hr i hi).ne'
      (hrInv i hi)
    refine (hrow.congr_fderiv (sum_congr rfl fun j hj => ?_)).congr_of_eventuallyEq (.of_forall fun z => ?_)
    · rw [holonomic_slope hkind ((hsize x).symm ▸ hi) ((hsize x).symm ▸ mem_range.mp hj)]
    · exact holonomic_impulse hkind ((hsize z).symm ▸ hi)

/-- The impulse as a function of the unconstrained one. -/
noncomputable def impulseMap (c : Constraint ℝ) (r rInv : Vec ℝ) (y : EuclideanSpace ℝ (Fin c.numEquations)) :
    EuclideanSpace ℝ (Fin c.numEquations) :=
  Vec.toPoint c.numEquations (c.project (.ofPoint y) r rInv).impulse

end Constraint

/-- The partial derivatives of a map of a Euclidean space: a column for each coordinate. -/
noncomputable def Mat.derivative {n : ℕ} (f : EuclideanSpace ℝ (Fin n) → EuclideanSpace ℝ (Fin n))
    (y : EuclideanSpace ℝ (Fin n)) : Mat ℝ :=
  .ofFn n n fun i j => Vec.ofPoint (fderiv ℝ f y (Vec.toPoint n fun k => if k = j then 1 else 0)) i

theorem Mat.differentiableAt_and_derivative {n : ℕ} {f : EuclideanSpace ℝ (Fin n) → ℕ → ℝ} {a : ℕ → ℕ → ℝ}
    {y : EuclideanSpace ℝ (Fin n)}
    (h : ∀ i < n, HasFDerivAt (fun z => f z i) (∑ j ∈ range n, a i j • Vec.entry n j) y) :
    DifferentiableAt ℝ (fun z => Vec.toPoint n (f z)) y ∧
    derivative (fun z => Vec.toPoint n (f z)) y = .ofFn n n a := by
  have hdifferentiable : DifferentiableAt ℝ (fun z => Vec.toPoint n (f z)) y :=
    differentiableAt_euclidean.mpr fun i => (h i i.isLt).differentiableAt
  refine ⟨hdifferentiable, Mat.ext rfl rfl fun i hi j hj => ?_⟩
  have hi : i < n := hi
  have hj : j < n := hj
  have hcoordinate : HasFDerivAt (fun z => f z i)
      ((EuclideanSpace.proj ⟨i, hi⟩ : EuclideanSpace ℝ (Fin n) →L[ℝ] ℝ).comp
        (fderiv ℝ (fun z => Vec.toPoint n (f z)) y)) y :=
    (EuclideanSpace.proj ⟨i, hi⟩ : EuclideanSpace ℝ (Fin n) →L[ℝ] ℝ).hasFDerivAt.comp y
      hdifferentiable.hasFDerivAt
  have hunique := hcoordinate.unique (h i hi)
  rw [derivative, get_ofFn_of_lt hi hj, get_ofFn_of_lt hi hj, Vec.get_ofPoint _ hi]
  calc fderiv ℝ (fun z => Vec.toPoint n (f z)) y (Vec.toPoint n fun k => if k = j then 1 else 0) ⟨i, hi⟩
      = (∑ k ∈ range n, a i k • Vec.entry n k) (Vec.toPoint n fun k => if k = j then 1 else 0) := by
        rw [← hunique]; rfl
    _ = ∑ k ∈ range n, a i k * if k = j then 1 else 0 := by
        rw [sum_apply]
        refine sum_congr rfl fun k hk => ?_
        have hk := mem_range.mp hk
        rw [smul_apply, Vec.entry_apply _ hk, Vec.get_ofPoint _ hk]
        rfl
    _ = a i j := by simp [hj]

/-- For every kind of constraint, any parameters that its constructor accepts, and any positive
    regularization: the impulse is a continuous function of the unconstrained one, and off the
    boundaries of its regions it is differentiable, with the slope that comes with it as the derivative
    times the inverse of the regularization. -/
theorem Constraint.project_continuous_and_derivative {c : Constraint ℝ} (hc : c.Made) {r rInv : Vec ℝ}
    (hr : ∀ i < c.numEquations, 0 < r i) (hrInv : ∀ i < c.numEquations, rInv i = 1 / r i) :
    Continuous (c.impulseMap r rInv) ∧
      ∀ y : EuclideanSpace ℝ (Fin c.numEquations),
      (c.project (.ofPoint y) r rInv).impulse.size = c.numEquations ∧
        (c.OffBoundaries (.ofPoint y) r → DifferentiableAt ℝ (c.impulseMap r rInv) y ∧
          (c.project (.ofPoint y) r rInv).slope =
            .ofFn c.numEquations c.numEquations fun i j =>
              Mat.derivative (c.impulseMap r rInv) y i j * (1 / r j)) := by
  have hsize := fun y : EuclideanSpace ℝ (Fin c.numEquations) => Vec.size_ofPoint y
  have hentry : ∀ i < c.numEquations, ∀ y : EuclideanSpace ℝ (Fin c.numEquations),
      HasFDerivAt (fun z : EuclideanSpace ℝ (Fin c.numEquations) => Vec.ofPoint z i)
        (Vec.entry c.numEquations i) y := by
    intro i hi y
    exact (Vec.entry c.numEquations i).hasFDerivAt.congr_of_eventuallyEq
      (.of_forall fun z => (Vec.entry_apply z hi).symm)
  refine ⟨?_, fun y => ⟨size_project hc.inRange (hsize y), fun hoff => ?_⟩⟩
  · refine (PiLp.continuous_toLp 2 _).comp (continuous_pi fun i => ?_)
    exact continuous_impulse hc.inRange hr hsize
      (fun j hj => continuous_iff_continuousAt.mpr fun y => (hentry j hj y).continuousAt) i.isLt
  · obtain ⟨hdifferentiable, hderivative⟩ := Mat.differentiableAt_and_derivative fun i hi =>
      hasFDerivAt_impulse hc.inRange hr hrInv hsize (fun j hj => hentry j hj y) hoff hi
    refine ⟨hdifferentiable, Mat.ext (rows_slope hc.inRange (hsize y)) (cols_slope hc.inRange (hsize y))
      fun i hi j hj => ?_⟩
    have hi : i < c.numEquations := rows_slope hc.inRange (hsize y) ▸ hi
    have hj : j < c.numEquations := cols_slope hc.inRange (hsize y) ▸ hj
    have hentries : Mat.derivative (c.impulseMap r rInv) y i j =
      (c.project (.ofPoint y) r rInv).slope i j * r j :=
      (congrArg (fun m : Mat ℝ => m i j) hderivative).trans (Mat.get_ofFn_of_lt hi hj)
    rw [Mat.get_ofFn_of_lt hi hj, hentries, mul_one_div, mul_div_cancel_right₀ _ (hr j hj).ne']

/-! ### One contact -/

noncomputable section

/-- A contact with the coefficient of friction one. -/
def rub : Constraint ℝ := ⟨.cone ⟨1, 1, 0, 1, 1⟩, .ofList [0, 0, 0], ⟨⟨0⟩, .ofFn 3 1 fun _ _ => 1⟩, none⟩

/-- An unconstrained impulse at which it slides. -/
def rubbing : EuclideanSpace ℝ (Fin rub.numEquations) := Vec.toPoint _ fun i => if i = 0 then 1 else 0

end

theorem made_rub : rub.Made := by
  have hcone : Constraint.cone [rub.first] 0 ⟨1, 1, 0, 1, 1⟩ = .ok rub := by
    rw [Constraint.cone, Outcome.require_bind_eq_ok_iff, Constraint.checkFactors,
      Outcome.require_bind_eq_ok_iff]
    exact ⟨⟨zero_le_one, one_pos, le_rfl⟩, ⟨one_pos, by simp⟩, rfl⟩
  exact .cone hcone

theorem offBoundaries_rubbing : rub.OffBoundaries (.ofPoint rubbing) (.replicate 3 1) := by
  have hsoft : ∀ t1 t2 : ℝ, FrictionCone.softNorm t1 t2 ≠ 0 := fun t1 t2 =>
    (FrictionCone.softNorm_pos t1 t2).ne'
  have hnormal : Vec.ofPoint rubbing 2 = 0 := Vec.get_ofPoint rubbing (show 2 < 3 by decide)
  have hr : ∀ i < 3, (.replicate 3 1 : Vec ℝ) i = 1 := fun i hi => Vec.get_ofFn_of_lt hi
  show FrictionCone.softNorm _ _ ≠ 1 * Vec.ofPoint rubbing 2 ∧
    1 * Vec.replicate 3 (1 : ℝ) 0 / Vec.replicate 3 (1 : ℝ) 2 * FrictionCone.softNorm _ _ ≠
      -Vec.ofPoint rubbing 2
  rw [hnormal, hr 0 (by decide), hr 2 (by decide)]
  simp [hsoft]

/-- The contact slides at this impulse, and its slope is the derivative there. -/
theorem project_continuous_and_derivative_rub : rub.Made ∧
    Continuous (rub.impulseMap (.replicate 3 1) (.replicate 3 1)) ∧
    DifferentiableAt ℝ (rub.impulseMap (.replicate 3 1) (.replicate 3 1)) rubbing := by
  have hr : ∀ i < 3, (.replicate 3 1 : Vec ℝ) i = 1 := fun i hi => Vec.get_ofFn_of_lt hi
  obtain ⟨hcontinuous, hderivative⟩ :=
    Constraint.project_continuous_and_derivative made_rub (r := .replicate 3 1)
    (fun i hi => (hr i hi).symm ▸ one_pos) fun i hi => by rw [hr i hi, one_div_one]
  exact ⟨made_rub, hcontinuous, ((hderivative rubbing).2 offBoundaries_rubbing).1⟩

end CompliantContact
