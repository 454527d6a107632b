import CompliantContact.Proofs.Constraint.Cost
import CompliantContact.Proofs.Dense.Point
import CompliantContact.Proofs.Solver.Evaluate

/-!
The gradient of the cost.

The cost accounts for the impulses less their excess. So its gradient is the one that an evaluation
returns, with the forces of the excess added (`cost_gradient`). They differ where an equation is held at a
bound that is not zero, and where a contact slides.
-/

namespace CompliantContact

open Finset hiding sum_apply

variable {n : ℕ} {x : EuclideanSpace ℝ (Fin n)}

namespace Coupling

variable {c : Coupling ℝ} {i : ℕ}

def OffBoundaries (c : Coupling ℝ) (v : Vec ℝ) : Prop := c.constraint.OffBoundaries (c.unconstrained v) c.r

/-- What the cost does not account for of the impulse at given velocities. -/
noncomputable def excess (c : Coupling ℝ) (v : Vec ℝ) : Vec ℝ := c.constraint.excess (c.unconstrained v) c.r

theorem hasFDerivAt_unconstrained (hcols : c.jacobian.cols = n) (hi : i < c.jacobian.rows) :
    HasFDerivAt (fun z => c.unconstrained (.ofPoint z) i) (-(c.rInv i) • Vec.form n (c.jacobian i)) x := by
  have haffine := (((Vec.form n (c.jacobian i)).hasFDerivAt (x := x)).sub_const (c.bias i)).mul_const
    (-(c.rInv i))
  have hvalue : (fun z : EuclideanSpace ℝ (Fin n) => c.unconstrained (.ofPoint z) i) =
      fun z => (Vec.form n (c.jacobian i) z - c.bias i) * -(c.rInv i) := by
    funext z
    rw [unconstrained_get hi, Mat.get_mulVec hi, hcols, Vec.form_apply, mul_neg]
  rw [hvalue]
  exact haffine

/-- The regularization cancels: without it there is no impulse that the cost accounts for. -/
theorem r_mul_rInv_mul (h : c.Regular) (v : Vec ℝ) (hi : i < c.constraint.numEquations) :
    c.r i * c.rInv i * (c.impulse v i - c.excess v i) = c.impulse v i - c.excess v i := by
  rw [h.rInv_get hi]
  by_cases hr : c.r i = 0
  · have hy : c.unconstrained v i = 0 := by
      rw [unconstrained_get (h.rows ▸ hi), h.rInv_get hi, hr, div_zero, mul_zero, neg_zero]
    have hrest : c.impulse v i = c.excess v i :=
      Constraint.impulse_eq_excess h.inRange h.weighs c.rInv ((c.size_unconstrained v).trans h.rows) hi hr hy
    rw [hrest, sub_self, mul_zero]
  · rw [mul_one_div_cancel hr, one_mul]

theorem Regular.hasFDerivAt_cost (h : c.Regular) (hcols : c.jacobian.cols = n)
    (hoff : c.OffBoundaries (.ofPoint x)) :
    HasFDerivAt (fun z => c.cost (.ofPoint z))
      (∑ i ∈ range c.jacobian.rows,
        (c.excess (.ofPoint x) i - c.impulse (.ofPoint x) i) • Vec.form n (c.jacobian i)) x := by
  have hvalue : (fun z : EuclideanSpace ℝ (Fin n) => c.cost (.ofPoint z)) = fun z =>
    ∑ i ∈ range c.constraint.numEquations,
      1 / 2 * c.r i * c.impulse (.ofPoint z) i * c.impulse (.ofPoint z) i := funext fun z => cost_eq_sum h _
  have hcost := Constraint.hasFDerivAt_cost (y :=
    fun z => c.unconstrained (.ofPoint z)) h.inRange h.weighs c.rInv
    (fun z => (c.size_unconstrained _).trans h.rows)
    (fun i hi => hasFDerivAt_unconstrained (x := x) hcols (h.rows ▸ hi)) hoff
  rw [hvalue]
  refine hcost.congr_fderiv ?_
  rw [h.rows]
  refine sum_congr rfl fun i hi => ?_
  have hcancel := r_mul_rInv_mul h (.ofPoint x) (mem_range.mp hi)
  rw [smul_smul]
  congr 1
  show c.r i * (c.impulse (.ofPoint x) i - c.excess (.ofPoint x) i) * -(c.rInv i) = _
  linear_combination -hcancel

end Coupling

namespace System

variable {s : System ℝ} {v : Vec ℝ} {j : ℕ}

def OffBoundaries (s : System ℝ) (v : Vec ℝ) : Prop := ∀ c ∈ s.couplings, c.OffBoundaries v

/-- The forces of what the cost does not account for. -/
noncomputable def excessForces (s : System ℝ) (v : Vec ℝ) : Vec ℝ :=
  .ofFn s.freeVelocities.size fun j =>
    (s.couplings.map fun c => ∑ i ∈ range c.jacobian.rows, c.jacobian i j * c.excess v i).sum

theorem excessForces_along (s : System ℝ) (v : Vec ℝ) (w : ℕ → ℝ) :
    ∑ j ∈ range s.freeVelocities.size, s.excessForces v j * w j =
      (s.couplings.map fun c => ∑ i ∈ range c.jacobian.rows,
        c.excess v i * ∑ j ∈ range s.freeVelocities.size, c.jacobian i j * w j).sum := by
  rw [← forces_along _ _ fun c => c.excess v]
  refine sum_congr rfl fun j hj => ?_
  rw [excessForces, Vec.get_ofFn_of_lt (mem_range.mp hj)]

/-- Costs of constraints add up, and so do their derivatives. -/
theorem hasFDerivAt_sum_map {cs : List (Coupling ℝ)} {f : Coupling ℝ → EuclideanSpace ℝ (Fin n) → ℝ}
    {f' : Coupling ℝ → EuclideanSpace ℝ (Fin n) →L[ℝ] ℝ} (h : ∀ c ∈ cs, HasFDerivAt (f c) (f' c) x) :
    HasFDerivAt (fun z => (cs.map fun c => f c z).sum) (cs.map f').sum x := by
  induction cs with
  | nil => exact hasFDerivAt_const 0 x
  | cons c cs ih =>
    simp only [List.map_cons, List.sum_cons]
    exact (h c (List.mem_cons_self ..)).add (ih fun d hd => h d (List.mem_cons_of_mem _ hd))

/-- The derivative of the costs of the constraints: along a direction, what the excess does less what the
    impulses do. -/
theorem costs_along (n : ℕ) (cs : List (Coupling ℝ)) (v : Vec ℝ) (w : EuclideanSpace ℝ (Fin n)) :
    (cs.map fun c => ∑ i ∈ range c.jacobian.rows,
      (c.excess v i - c.impulse v i) • Vec.form n (c.jacobian i)).sum w =
      (cs.map fun c => ∑ i ∈ range c.jacobian.rows,
          c.excess v i * ∑ j ∈ range n, c.jacobian i j * Vec.ofPoint w j).sum -
        (cs.map fun c => ∑ i ∈ range c.jacobian.rows,
          c.impulse v i * ∑ j ∈ range n, c.jacobian i j * Vec.ofPoint w j).sum := by
  induction cs with
  | nil => exact (sub_self 0).symm
  | cons c cs ih =>
    have hcoupling : (∑ i ∈ range c.jacobian.rows,
      (c.excess v i - c.impulse v i) • Vec.form n (c.jacobian i)) w =
        ∑ i ∈ range c.jacobian.rows, c.excess v i * ∑ j ∈ range n, c.jacobian i j * Vec.ofPoint w j -
          ∑ i ∈ range c.jacobian.rows, c.impulse v i * ∑ j ∈ range n, c.jacobian i j * Vec.ofPoint w j := by
      rw [← sum_sub_distrib, sum_apply]
      refine sum_congr rfl fun i _ => ?_
      rw [smul_apply, smul_eq_mul, Vec.form_apply, sub_mul]
    simp only [List.map_cons, List.sum_cons, add_apply]
    rw [ih, hcoupling]
    ring

theorem hasFDerivAt_cost (h : s.Regular) (hn : s.freeVelocities.size = n)
    (hoff : s.OffBoundaries (.ofPoint x)) :
    HasFDerivAt (fun z : EuclideanSpace ℝ (Fin n) => (s.evaluate (.ofPoint z)).cost)
      (Vec.form n fun j => (s.evaluate (.ofPoint x)).gradient j + s.excessForces (.ofPoint x) j) x := by
  subst hn
  have hvalue : (fun z : EuclideanSpace ℝ (Fin s.freeVelocities.size) =>
      (s.evaluate (.ofPoint z)).cost) = fun z =>
      (s.couplings.map fun c => c.cost (.ofPoint z)).sum +
        1 / 2 * s.dynamics.quad fun k => Vec.ofPoint z k - s.freeVelocities k :=
    funext fun z => cost_eq h (Vec.size_ofPoint z)
  have hcosts := hasFDerivAt_sum_map fun c hc => (h.couplings c hc).hasFDerivAt_cost (h.cols c hc) (hoff c hc)
  have hmomentum := Mat.hasFDerivAt_quad (x := x) h.rows h.dynamics.symm s.freeVelocities
  rw [hvalue]
  refine (hcosts.add hmomentum).congr_fderiv ?_
  -- Both sides are compared along a direction, where the sums over constraints and velocities separate.
  ext w
  have halong := gradient_along h (Vec.size_ofPoint x) (Vec.ofPoint w)
  have hexcess := excessForces_along s (.ofPoint x) (Vec.ofPoint w)
  have hdynamics := Mat.sum_terms_right s.freeVelocities.size s.dynamics
    (fun k => Vec.ofPoint x k - s.freeVelocities k) (Vec.ofPoint w)
  rw [add_apply, costs_along, Vec.form_apply, Vec.form_apply, ← hdynamics]
  simp only [add_mul, sum_add_distrib]
  rw [halong, hexcess]
  have hterms : ∀ j ∈ range s.freeVelocities.size, ∀ k ∈ range s.freeVelocities.size,
      (Vec.ofPoint x k - s.freeVelocities k) * s.dynamics j k * Vec.ofPoint w j =
        Vec.ofPoint w j * s.dynamics j k * (Vec.ofPoint x k - s.freeVelocities k) := fun j _ k _ => by ring
  rw [sum_congr rfl fun j hj => sum_congr rfl (hterms j hj)]
  ring

end System

/-- Off the boundaries between the regions of the projections, the gradient of the cost is the one that an
    evaluation returns with the forces of the excess added. So the one that is returned is the gradient of
    the cost exactly where these forces vanish. -/
theorem cost_gradient {p : Problem ℝ} (hp : p.Built) (htrees : p.HasSPDTrees) :
    ∃ s, System.ofProblem? p = some s ∧ ∀ v : Vec ℝ, v.size = p.numVelocities → s.OffBoundaries v →
      HasGradientAt (fun z : EuclideanSpace ℝ (Fin p.numVelocities) => (s.evaluate (.ofPoint z)).cost)
        (Vec.toPoint p.numVelocities fun j => (s.evaluate v).gradient j + s.excessForces v j)
        (Vec.toPoint p.numVelocities v) ∧
      (HasGradientAt (fun z : EuclideanSpace ℝ (Fin p.numVelocities) => (s.evaluate (.ofPoint z)).cost)
          (Vec.toPoint p.numVelocities (s.evaluate v).gradient) (Vec.toPoint p.numVelocities v) ↔
        s.excessForces v = .zeros p.numVelocities) := by
  obtain ⟨s, hs, hregular, hfree⟩ := hp.exists_system htrees
  have hsize : s.freeVelocities.size = p.numVelocities := congrArg Vec.size hfree
  refine ⟨s, hs, fun v hv hoff => ?_⟩
  have hpoint : Vec.ofPoint (Vec.toPoint p.numVelocities v) = v := Vec.ofPoint_toPoint hv
  have hgradient :
    HasGradientAt (fun z : EuclideanSpace ℝ (Fin p.numVelocities) => (s.evaluate (.ofPoint z)).cost)
      (Vec.toPoint p.numVelocities fun j => (s.evaluate v).gradient j + s.excessForces v j)
      (Vec.toPoint p.numVelocities v) := by
    have hcost := System.hasFDerivAt_cost (x :=
      Vec.toPoint p.numVelocities v) hregular hsize (hpoint.symm ▸ hoff)
    rw [hpoint] at hcost
    exact Vec.hasGradientAt_iff.mpr hcost
  refine ⟨hgradient, fun hreturned => ?_, fun hzero => ?_⟩
  · have hequal := Vec.toPoint_inj.mp (hgradient.unique hreturned)
    have hexcess : (s.excessForces v).size = p.numVelocities := by
      rw [System.excessForces, Vec.size_ofFn, hsize]
    refine Vec.ext (by rw [hexcess, Vec.size_zeros]) fun j hj => ?_
    rw [Vec.get_zeros]
    exact add_eq_left.mp (hequal j (hexcess ▸ hj))
  · have hreturned := hgradient
    simp only [hzero, Vec.get_zeros, add_zero] at hreturned
    exact hreturned

section Pushed
variable (factors : Array (Mat ℝ))

/-- At rest a push has no unconstrained impulse, and so it is held at its lower bound. -/
theorem unconstrained_push :
    (Coupling.ofConstraint pushed factors push).unconstrained (.ofList [0]) 0 = 0 := by
  have hrest : ∀ j, (Vec.ofList [(0 : ℝ)]) j = 0 := by
    intro j
    cases j <;> simp [Vec.get, Vec.ofList]
  have hvelocity : (Coupling.ofConstraint pushed factors push).jacobian.mulVec (.ofList [0]) 0 = 0 := by
    rw [Mat.get_mulVec one_pos]
    exact sum_eq_zero fun j _ => by rw [hrest, mul_zero]
  have hbias : (Coupling.ofConstraint pushed factors push).bias 0 = 0 := by
    show Vec.ofFn 1 (fun i => -push.g0 i / (1 + pushParameters.relaxationTime i)) 0 = 0
    rw [Vec.get_ofFn_of_lt one_pos]
    show -(Vec.ofList [(0 : ℝ)]) 0 / _ = 0
    rw [hrest, neg_zero, zero_div]
  rw [Coupling.unconstrained_get one_pos, hvelocity, hbias, sub_zero, zero_mul, neg_zero]

theorem offBoundaries_push : (Coupling.ofConstraint pushed factors push).OffBoundaries (.ofList [0]) := by
  intro i hi
  obtain rfl : i = 0 := Nat.lt_one_iff.mp hi
  rw [unconstrained_push]
  refine ⟨fun l hl => ?_, fun u hu => ?_⟩
  · cases hl
    exact zero_ne_one
  · cases hu
    exact zero_ne_one

theorem excess_push : (Coupling.ofConstraint pushed factors push).excess (.ofList [0]) 0 = 1 := by
  have hheld : Constraint.clampRow (some 1) (some 1) (0 : ℝ) = (1, false) :=
    Constraint.clampRow_of_lt rfl one_pos
  have hrow : (Coupling.ofConstraint pushed factors push).excess (.ofList [0]) 0 = Constraint.rowExcess
      (Constraint.clampRow (some 1) (some 1)
        ((Coupling.ofConstraint pushed factors push).unconstrained (.ofList [0]) 0)) := rfl
  rw [hrow, unconstrained_push, hheld]
  rfl

theorem jacobian_push : (Coupling.ofConstraint pushed factors push).jacobian 0 0 = 1 := by
  show (Mat.ofFn 1 1 (pushed.jacobianEntry push)) 0 0 = 1
  rw [Mat.get_ofFn_of_lt one_pos one_pos]
  simp [Problem.jacobianEntry, push, Constraint.blocks, Problem.treeStart, total]

end Pushed

/-- The pushed mass at rest: the impulse is held at one, which the cost does not account for. -/
theorem cost_gradient_pushed : pushed.Built ∧ pushed.HasSPDTrees ∧ ∃ s, System.ofProblem? pushed = some s ∧
    s.OffBoundaries (.ofList [0]) ∧
    ¬ HasGradientAt (fun z : EuclideanSpace ℝ (Fin 1) => (s.evaluate (.ofPoint z)).cost)
      (Vec.toPoint 1 (s.evaluate (.ofList [0])).gradient) (Vec.toPoint 1 (Vec.ofList [(0 : ℝ)])) := by
  obtain ⟨s, hs, hgradient⟩ := cost_gradient built_pushed hasSPDTrees_pushed
  obtain ⟨factors, hcouplings⟩ := couplings_pushed hs
  have hoff : s.OffBoundaries (.ofList [0]) := by
    intro c hc
    rw [hcouplings, List.mem_singleton] at hc
    rw [hc]
    exact offBoundaries_push factors
  refine ⟨built_pushed, hasSPDTrees_pushed, s, hs, hoff, fun hreturned => ?_⟩
  have hzero := (hgradient (.ofList [0]) rfl hoff).2.mp hreturned
  have hforce : s.excessForces (.ofList [0]) 0 = 1 := by
    have hsize : s.freeVelocities.size = 1 := by
      have hsizes := congrArg Vec.size hzero
      rwa [System.excessForces, Vec.size_ofFn, Vec.size_zeros] at hsizes
    rw [System.excessForces, Vec.get_ofFn_of_lt (hsize ▸ one_pos), hcouplings, List.map_singleton,
      List.sum_singleton]
    show ∑ i ∈ range 1, _ = _
    rw [sum_range_one, jacobian_push, excess_push, mul_one]
  rw [hzero, Vec.get_zeros] at hforce
  exact zero_ne_one hforce

end CompliantContact
