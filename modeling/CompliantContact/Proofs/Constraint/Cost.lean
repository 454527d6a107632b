import CompliantContact.Proofs.Constraint.Derivative
import CompliantContact.Proofs.Constraint.Regularization

/-!
The derivative of the cost of a constraint by its unconstrained impulse.

The cost accounts for an impulse up to its excess (`Constraint.excess`): along a change of `y` it grows by
`R` times the impulse less the excess. An equation that follows `y`, or is released, has no excess. An
equation at one of its bounds has all of its impulse in excess, since its cost does not change with `y`.
And where a contact slides, the softened norm leaves a small excess.
-/

namespace CompliantContact

open Finset Filter Topology

variable {E : Type*} [NormedAddCommGroup E] [NormedSpace ℝ E] {x : E}

/-! ### Contacts -/

namespace FrictionCone

variable {y : Vec3 ℝ} {mu muTilde : ℝ}

/-- The share of the softening in the norm of a tangential impulse, squared. -/
noncomputable def softShare (y : Vec3 ℝ) : ℝ := (softening / softNorm y.x y.y) ^ 2

/-- What the cost of a sliding contact does not account for. -/
noncomputable def slideExcess (y : Vec3 ℝ) (mu muTilde : ℝ) : Vec3 ℝ :=
  let yr := softNorm y.x y.y
  let gn := slideNormal y mu muTilde
  let across := mu * mu * gn * softShare y * y.z / (yr * (1 + mu * muTilde))
  ⟨-(y.x / yr * across), -(y.y / yr * across), mu * muTilde * gn * softShare y / (1 + mu * muTilde)⟩

noncomputable def excess (y : Vec3 ℝ) (mu muTilde : ℝ) : Vec3 ℝ :=
  if softNorm y.x y.y ≤ mu * y.z ∨ muTilde * softNorm y.x y.y ≤ -y.z then 0 else slideExcess y mu muTilde

/-- The cost of an impulse, with one regularization for both tangential components. -/
noncomputable def cost (rt rn : ℝ) (p : Vec3 ℝ) : ℝ :=
  Scalar.half * rt * p.x * p.x + Scalar.half * rt * p.y * p.y + Scalar.half * rn * p.z * p.z

/-- The unit vector of a tangential impulse falls short of one by the share of the softening. -/
theorem cost_of_slides (rt rn : ℝ) (h : ¬ softNorm y.x y.y ≤ mu * y.z)
    (h' : ¬ muTilde * softNorm y.x y.y ≤ -y.z) :
    cost rt rn (project y mu muTilde).1 = (rt * mu ^ 2 + rn) / 2 * slideNormal y mu muTilde ^ 2 -
      rt * (mu * softening) ^ 2 / 2 * (slideNormal y mu muTilde * (softNorm y.x y.y)⁻¹) ^ 2 := by
  have hunit := unit_sq y
  rw [project_of_slides h h', cost, Scalar.half_eq]
  simp only [div_eq_mul_inv] at hunit ⊢
  linear_combination 1 / 2 * rt * (mu * slideNormal y mu muTilde) ^ 2 * hunit

variable {f g h : E → ℝ} {f' g' h' : E →L[ℝ] ℝ}

/-- By the two quantities that the cost is made of: the normal impulse, and its ratio to the norm. -/
theorem hasFDerivAt_cost_of_slides {rt rn : ℝ} (hf : HasFDerivAt f f' x) (hg : HasFDerivAt g g' x)
    (hh : HasFDerivAt h h' x) (hweights : rn * muTilde = mu * rt) (hdenom : 1 + mu * muTilde ≠ 0)
    (hslides : ¬ softNorm (f x) (g x) ≤ mu * h x) (hslides' : ¬ muTilde * softNorm (f x) (g x) ≤ -h x) :
    HasFDerivAt (fun z => (rt * mu ^ 2 + rn) / 2 * slideNormal ⟨f z, g z, h z⟩ mu muTilde ^ 2 -
        rt * (mu * softening) ^ 2 / 2 *
          (slideNormal ⟨f z, g z, h z⟩ mu muTilde * (softNorm (f z) (g z))⁻¹) ^ 2)
      ((rt * ((project ⟨f x, g x, h x⟩ mu muTilde).1.x - (slideExcess ⟨f x, g x, h x⟩ mu muTilde).x)) • f' +
        (rt * ((project ⟨f x, g x, h x⟩ mu muTilde).1.y - (slideExcess ⟨f x, g x, h x⟩ mu muTilde).y)) • g' +
        (rn * ((project ⟨f x, g x, h x⟩ mu muTilde).1.z -
          (slideExcess ⟨f x, g x, h x⟩ mu muTilde).z)) • h') x := by
  have hpos := softNorm_pos (f x) (g x)
  have hnorm := hasFDerivAt_softNorm hf hg
  have hnormal := hasFDerivAt_slideNormal mu muTilde hf hg hh
  have hinverse := (hasDerivAt_inv hpos.ne').comp_hasFDerivAt x hnorm
  have hratio := hnormal.mul hinverse
  have hcost := ((hnormal.pow 2).const_mul ((rt * mu ^ 2 + rn) / 2)).sub
    ((hratio.pow 2).const_mul (rt * (mu * softening) ^ 2 / 2))
  refine hcost.congr_fderiv ?_
  rw [project_of_slides hslides hslides']
  ext w
  simp only [slideExcess, softShare, div_eq_mul_inv, mul_pow, ← inv_pow, mul_inv_rev,
    Nat.add_one_sub_one, pow_one,
    nsmul_eq_mul, Nat.cast_ofNat, smul_eq_mul, Pi.mul_apply, Function.comp_apply, add_apply,
    sub_apply, smul_apply]
  have hdenom' : (1 + mu * muTilde)⁻¹ * (1 + mu * muTilde) = 1 := inv_mul_cancel₀ hdenom
  have hradius : softNorm (f x) (g x) * (softNorm (f x) (g x))⁻¹ = 1 := mul_inv_cancel₀ hpos.ne'
  have hgn : slideNormal ⟨f x, g x, h x⟩ mu muTilde =
    (h x + muTilde * softNorm (f x) (g x)) * (1 + mu * muTilde)⁻¹ := rfl
  generalize slideNormal ⟨f x, g x, h x⟩ mu muTilde = gn at hgn ⊢
  generalize (1 + mu * muTilde)⁻¹ = d at hgn hdenom' ⊢
  generalize (softNorm (f x) (g x))⁻¹ = k at hradius ⊢
  -- Along the normal the two regularizations balance; along the tangent the norm cancels with its inverse.
  linear_combination
    h' w * (-(gn * d * mu * (1 - softening ^ 2 * k ^ 2)) * hweights + gn * rn * hdenom') +
    (f x * k * f' w + g x * k * g' w) * (gn * d * hweights + gn * mu * rt * hdenom' +
      rt * mu ^ 2 * softening ^ 2 * gn * k ^ 2 * (muTilde * d * hradius + k * hgn))

theorem hasFDerivAt_cost_of_sticks {rt rn : ℝ} (hf : HasFDerivAt f f' x) (hg : HasFDerivAt g g' x)
    (hh : HasFDerivAt h h' x) (hsticks : softNorm (f x) (g x) < mu * h x) :
    HasFDerivAt (fun z => cost rt rn (project ⟨f z, g z, h z⟩ mu muTilde).1)
      ((rt * f x) • f' + (rt * g x) • g' + (rn * h x) • h') x := by
  have hsum := (((hf.const_mul (Scalar.half * rt)).mul hf).add ((hg.const_mul (Scalar.half * rt)).mul hg)).add
    ((hh.const_mul (Scalar.half * rn)).mul hh)
  have hcost : HasFDerivAt (fun z => cost rt rn ⟨f z, g z, h z⟩)
      ((rt * f x) • f' + (rt * g x) • g' + (rn * h x) • h') x := by
    refine hsum.congr_fderiv ?_
    ext w
    simp only [add_apply, smul_apply, smul_eq_mul, Scalar.half_eq]
    ring
  refine hcost.congr_of_eventuallyEq ((eventually_sticks hf hg hh hsticks).mono fun z hz => ?_)
  exact congrArg (cost rt rn) (project_of_sticks hz)

theorem hasFDerivAt_cost_of_separates {rt rn : ℝ} (hf : HasFDerivAt f f' x) (hg : HasFDerivAt g g' x)
    (hh : HasFDerivAt h h' x) (hslides : mu * h x < softNorm (f x) (g x))
    (hseparates : muTilde * softNorm (f x) (g x) < -h x) :
    HasFDerivAt (fun z => cost rt rn (project ⟨f z, g z, h z⟩ mu muTilde).1) (0 : E →L[ℝ] ℝ) x := by
  refine (hasFDerivAt_const (cost rt rn 0) x).congr_of_eventuallyEq ?_
  filter_upwards [eventually_not_sticks hf hg hh hslides,
    eventually_separates hf hg hh hseparates] with z hz hz'
  rw [project_of_separates hz hz']

theorem hasFDerivAt_cost {rt rn : ℝ} (hf : HasFDerivAt f f' x) (hg : HasFDerivAt g g' x)
    (hh : HasFDerivAt h h' x) (hweights : rn * muTilde = mu * rt) (hdenom : 1 + mu * muTilde ≠ 0)
    (hsticks : softNorm (f x) (g x) ≠ mu * h x) (hseparates : muTilde * softNorm (f x) (g x) ≠ -h x) :
    HasFDerivAt (fun z => cost rt rn (project ⟨f z, g z, h z⟩ mu muTilde).1)
      ((rt * ((project ⟨f x, g x, h x⟩ mu muTilde).1.x - (excess ⟨f x, g x, h x⟩ mu muTilde).x)) • f' +
        (rt * ((project ⟨f x, g x, h x⟩ mu muTilde).1.y - (excess ⟨f x, g x, h x⟩ mu muTilde).y)) • g' +
        (rn * ((project ⟨f x, g x, h x⟩ mu muTilde).1.z -
          (excess ⟨f x, g x, h x⟩ mu muTilde).z)) • h') x := by
  rcases lt_or_gt_of_ne hsticks with hstick | hslide
  · have hexcess : excess ⟨f x, g x, h x⟩ mu muTilde = 0 := if_pos (.inl hstick.le)
    rw [project_of_sticks hstick.le, hexcess]
    simp only [Vec3.zero_x, Vec3.zero_y, Vec3.zero_z, sub_zero]
    exact hasFDerivAt_cost_of_sticks hf hg hh hstick
  · rcases lt_or_gt_of_ne hseparates with hseparate | hslide'
    · have hexcess : excess ⟨f x, g x, h x⟩ mu muTilde = 0 := if_pos (.inr hseparate.le)
      rw [project_of_separates hslide.not_ge hseparate.le, hexcess]
      simp only [Vec3.zero_x, Vec3.zero_y, Vec3.zero_z, sub_zero, mul_zero, zero_smul, add_zero]
      exact hasFDerivAt_cost_of_separates hf hg hh hslide hseparate
    · have hexcess : excess ⟨f x, g x, h x⟩ mu muTilde = slideExcess ⟨f x, g x, h x⟩ mu muTilde :=
        if_neg (not_or.mpr ⟨hslide.not_ge, hslide'.not_ge⟩)
      rw [hexcess]
      refine (hasFDerivAt_cost_of_slides hf hg hh hweights hdenom hslide.not_ge
        hslide'.not_ge).congr_of_eventuallyEq ?_
      filter_upwards [eventually_not_sticks hf hg hh hslide,
        eventually_not_separates hf hg hh hslide'] with z hz hz'
      exact cost_of_slides rt rn hz hz'

/-- A tangential component of zero stays so. -/
theorem project_eq_excess_of_zero (y : Vec3 ℝ) (mu muTilde : ℝ) :
    (y.x = 0 → (project y mu muTilde).1.x = (excess y mu muTilde).x) ∧
      (y.y = 0 → (project y mu muTilde).1.y = (excess y mu muTilde).y) := by
  by_cases h : softNorm y.x y.y ≤ mu * y.z
  · rw [project_of_sticks h, excess, if_pos (.inl h)]
    exact ⟨id, id⟩
  · by_cases h' : muTilde * softNorm y.x y.y ≤ -y.z
    · rw [project_of_separates h h', excess, if_pos (.inr h')]
      exact ⟨fun _ => rfl, fun _ => rfl⟩
    · rw [project_of_slides h h', excess, if_neg (not_or.mpr ⟨h, h'⟩)]
      exact ⟨fun hx => by simp [slideExcess, hx], fun hy => by simp [slideExcess, hy]⟩

end FrictionCone

/-! ### Limits and holonomic constraints -/

namespace Constraint

/-- What the cost of a row does not account for: all of an impulse that does not follow `y`. -/
noncomputable def rowExcess (row : ℝ × Bool) : ℝ := if row.2 then 0 else row.1

theorem Settled.hasFDerivAt_cost {row : ℝ → ℝ × Bool} {f : E → ℝ} {f' : E →L[ℝ] ℝ} (h : Settled row (f x))
    (hf : HasFDerivAt f f' x) (r : ℝ) :
    HasFDerivAt (fun z => 1 / 2 * r * (row (f z)).1 * (row (f z)).1)
      ((r * ((row (f x)).1 - rowExcess (row (f x)))) • f') x := by
  have himpulse := HasDerivAt.comp_hasFDerivAt x h hf
  have hcost := (himpulse.const_mul (1 / 2 * r)).mul himpulse
  refine hcost.congr_fderiv ?_
  ext w
  simp only [add_apply, smul_apply, smul_eq_mul, Function.comp_apply, rowExcess]
  split_ifs <;> ring

/-- The cost of equations that are projected one by one. -/
theorem hasFDerivAt_rows {m : ℕ} {row : ℕ → ℝ → ℝ × Bool} {y : E → Vec ℝ} {y' : ℕ → E →L[ℝ] ℝ} (r : ℕ → ℝ)
    (hrow : ∀ i < m, Settled (row i) (y x i)) (hy : ∀ i < m, HasFDerivAt (fun z => y z i) (y' i) x) :
    HasFDerivAt (fun z => ∑ i ∈ range m, 1 / 2 * r i * (row i (y z i)).1 * (row i (y z i)).1)
      (∑ i ∈ range m, (r i * ((row i (y x i)).1 - rowExcess (row i (y x i)))) • y' i) x := by
  refine HasFDerivAt.fun_sum fun i hi => ?_
  have hi := mem_range.mp hi
  exact (hrow i hi).hasFDerivAt_cost (f := fun z => y z i) (hy i hi) (r i)

theorem rowExcess_limitRow (y : ℝ) : rowExcess (limitRow y) = 0 := by
  by_cases h : 0 < y <;> simp [rowExcess, limitRow, h]

theorem clampRow_zero (lower upper : Option ℝ) :
    (clampRow lower upper 0).1 = rowExcess (clampRow lower upper 0) := by
  unfold clampRow rowExcess
  split <;> rfl

/-! ### Any constraint -/

/-- What the cost does not account for of the impulse of a constraint. A limit has nothing of that kind. -/
noncomputable def excess (c : Constraint ℝ) (y r : Vec ℝ) : Vec ℝ :=
  match c.kind with
  | .cone p => .ofList (FrictionCone.excess ⟨y 0, y 1, y 2⟩ p.mu (p.mu * r 0 / r 2)).toList
  | .limit .. => .zeros c.numEquations
  | .holonomic p => .ofFn c.numEquations fun i =>
    rowExcess (clampRow (p.lower.getD i none) (p.upper.getD i none) (y i))

variable {c : Constraint ℝ} {r : Vec ℝ} {y : E → Vec ℝ} {y' : ℕ → E →L[ℝ] ℝ}

theorem hasFDerivAt_cost (hc : c.InRange) (hr : c.Weighs r) (rInv : Vec ℝ)
    (hsize : ∀ z, (y z).size = c.numEquations)
    (hy : ∀ i < c.numEquations, HasFDerivAt (fun z => y z i) (y' i) x) (hoff : c.OffBoundaries (y x) r) :
    HasFDerivAt (fun z => ∑ i ∈ range c.numEquations,
        1 / 2 * r i * (c.project (y z) r rInv).impulse i * (c.project (y z) r rInv).impulse i)
      (∑ i ∈ range c.numEquations,
        (r i * ((c.project (y x) r rInv).impulse i - c.excess (y x) r i)) • y' i) x := by
  unfold OffBoundaries at hoff
  cases hkind : c.kind with
  | cone p =>
    simp only [hkind] at hoff
    obtain ⟨hthree, hmu, -⟩ := hc.cone hkind
    -- The two tangential equations share one regularization, which makes the ratio that the projection takes.
    have hcontact : c.isContact = true := by simp [isContact, hkind]
    have hnormal := hr.normal hcontact
    have hequal := hr.tangents hcontact
    have htangent := hr.nonneg 0 (by omega)
    have hweights : r 2 * (p.mu * r 0 / r 2) = p.mu * r 0 := mul_div_cancel₀ _ hnormal.ne'
    have hdenom : 1 + p.mu * (p.mu * r 0 / r 2) ≠ 0 := by positivity
    have hcost := FrictionCone.hasFDerivAt_cost (hy 0 (by omega)) (hy 1 (by omega))
      (hy 2 (by omega)) hweights hdenom
      hoff.1 hoff.2
    simp only [FrictionCone.cost, Scalar.half_eq] at hcost
    simp only [cone_impulse hkind hnormal, excess, hkind, hthree, sum_range_succ, sum_range_zero,
      zero_add, ← hequal]
    exact hcost
  | limit q0 p =>
    simp only [hkind] at hoff
    have hcost := hasFDerivAt_rows r (fun i hi => settled_limitRow (hoff i hi)) hy
    refine (hcost.congr_fderiv ?_).congr_of_eventuallyEq (.of_forall fun z => ?_)
    · refine sum_congr rfl fun i hi => ?_
      rw [limit_impulse hkind ((hsize x).symm ▸ mem_range.mp hi), rowExcess_limitRow]
      simp only [excess, hkind, Vec.get_zeros]
    · refine sum_congr rfl fun i hi => ?_
      rw [limit_impulse hkind ((hsize z).symm ▸ mem_range.mp hi)]
  | holonomic p =>
    simp only [hkind] at hoff
    have hcost := hasFDerivAt_rows r (fun i hi => settled_clampRow (hoff i hi).1 (hoff i hi).2) hy
    refine (hcost.congr_fderiv ?_).congr_of_eventuallyEq (.of_forall fun z => ?_)
    · refine sum_congr rfl fun i hi => ?_
      rw [holonomic_impulse hkind ((hsize x).symm ▸ mem_range.mp hi)]
      simp only [excess, hkind, Vec.get_ofFn_of_lt (mem_range.mp hi)]
    · refine sum_congr rfl fun i hi => ?_
      rw [holonomic_impulse hkind ((hsize z).symm ▸ mem_range.mp hi)]

/-- The cost does not miss what it has no weight for: without regularization an equation is at rest. -/
theorem impulse_eq_excess {c : Constraint ℝ} {r y : Vec ℝ} {i : ℕ} (hc : c.InRange) (hr : c.Weighs r)
    (rInv : Vec ℝ) (hsize : y.size = c.numEquations) (hi : i < c.numEquations) (hzero : r i = 0)
    (hy : y i = 0) :
    (c.project y r rInv).impulse i = c.excess y r i := by
  cases hkind : c.kind with
  | cone p =>
    have hnormal := hr.normal (by simp [isContact, hkind])
    have htangent : i = 0 ∨ i = 1 := by
      have hne : i ≠ 2 := fun h => hnormal.ne' (h ▸ hzero)
      have hthree : c.numEquations = 3 := (hc.cone hkind).1
      omega
    simp only [cone_impulse hkind hnormal, excess, hkind]
    have hcomponents := FrictionCone.project_eq_excess_of_zero ⟨y 0, y 1, y 2⟩ p.mu (p.mu * r 0 / r 2)
    rcases htangent with rfl | rfl
    · exact hcomponents.1 hy
    · exact hcomponents.2 hy
  | limit q0 p =>
    simp only [limit_impulse hkind (hsize.symm ▸ hi), excess, hkind, Vec.get_zeros, hy, limitRow,
      lt_irrefl, if_false]
  | holonomic p =>
    simp only [holonomic_impulse hkind (hsize.symm ▸ hi), excess, hkind, Vec.get_ofFn_of_lt hi, hy]
    exact clampRow_zero _ _

end Constraint

end CompliantContact
