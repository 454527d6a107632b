import CompliantContact.Proofs.Constraint.Monotone
import CompliantContact.Proofs.Solver.Inertia
import CompliantContact.Proofs.Solver.Newton

/-!
The gradient of the cost is strongly monotone.

Between any two velocities the gradient grows at least as the momentum of their difference does: the
impulses only add to it, since every projection is monotone. So there is one solution at most, and two
answers of the solver differ by no more than their residuals allow.
-/

namespace CompliantContact

open Finset

namespace Coupling

variable {c : Coupling ℝ} {v w : Vec ℝ} {i : ℕ}

/-- An impulse times its regularization is the velocity that it lacks. -/
theorem r_mul_unconstrained_sub (h : c.Regular) (hr : 0 < c.r i) (hi : i < c.jacobian.rows) :
    c.r i * (c.unconstrained v i - c.unconstrained w i) =
      -(c.jacobian.mulVec v i - c.jacobian.mulVec w i) := by
  rw [unconstrained_get hi, unconstrained_get hi, h.rInv_get (h.rows ▸ hi)]
  field_simp
  ring

/-- What the impulses of a constraint do along a change of the velocities, they do against it. -/
theorem impulse_sub_along_nonpos (h : c.Regular) (hr : ∀ i < c.constraint.numEquations, 0 < c.r i)
    (v w : Vec ℝ) :
    ∑ i ∈ range c.jacobian.rows,
      (c.impulse v i - c.impulse w i) * (c.jacobian.mulVec v i - c.jacobian.mulVec w i) ≤ 0 := by
  have hmonotone := Constraint.project_monotone h.inRange c.rInv hr h.weighs.tangents
    ((c.size_unconstrained v).trans h.rows) ((c.size_unconstrained w).trans h.rows)
  rw [← h.rows] at hmonotone
  rw [← neg_nonneg, ← sum_neg_distrib]
  refine hmonotone.trans (le_of_eq (sum_congr rfl fun i hi => ?_))
  have hi := mem_range.mp hi
  have hlack := r_mul_unconstrained_sub (v := v) (w := w) h (hr i (h.rows ▸ hi)) hi
  rw [impulse, impulse]
  linear_combination ((c.constraint.project (c.unconstrained v) c.r c.rInv).impulse i -
    (c.constraint.project (c.unconstrained w) c.r c.rInv).impulse i) * hlack

end Coupling

namespace System

variable {s : System ℝ} {v w : Vec ℝ}

/-- All entries of the regularization are positive. -/
def PositiveRegularization (s : System ℝ) : Prop :=
  ∀ c ∈ s.couplings, ∀ i < c.constraint.numEquations, 0 < c.r i

/-- The difference of two velocities in the scale of the residuals: divided by the scaling. -/
noncomputable def unscaled (s : System ℝ) (w : Vec ℝ) : Vec ℝ := .ofFn w.size fun i => w i / s.scaling i

/-- Constraint by constraint, the impulses act against a change of the velocities. -/
theorem forces_along_le (h : s.Regular) (hr : s.PositiveRegularization) (v w : Vec ℝ) :
    (s.couplings.map fun c => ∑ i ∈ range c.jacobian.rows,
        c.impulse v i * ∑ j ∈ range s.freeVelocities.size, c.jacobian i j * (v j - w j)).sum ≤
      (s.couplings.map fun c => ∑ i ∈ range c.jacobian.rows,
        c.impulse w i * ∑ j ∈ range s.freeVelocities.size, c.jacobian i j * (v j - w j)).sum := by
  refine List.sum_le_sum fun c hc => ?_
  have hnonpos := Coupling.impulse_sub_along_nonpos (h.couplings c hc) (hr c hc) v w
  have hvelocity : ∀ i ∈ range c.jacobian.rows, c.jacobian.mulVec v i - c.jacobian.mulVec w i =
      ∑ j ∈ range s.freeVelocities.size, c.jacobian i j * (v j - w j) := by
    intro i hi
    rw [Mat.get_mulVec (mem_range.mp hi), Mat.get_mulVec (mem_range.mp hi), h.cols c hc, ← sum_sub_distrib]
    exact sum_congr rfl fun j _ => (mul_sub ..).symm
  rw [← sub_nonpos, ← sum_sub_distrib]
  refine le_trans (le_of_eq (sum_congr rfl fun i hi => ?_)) hnonpos
  rw [hvelocity i hi, sub_mul]

theorem gradient_sub_along (h : s.Regular) (hr : s.PositiveRegularization)
    (hv : v.size = s.freeVelocities.size) (hw : w.size = s.freeVelocities.size) :
    s.dynamics.quad (fun j => v j - w j) ≤
      ∑ j ∈ range s.freeVelocities.size, (s.evaluate v).gradient j * (v j - w j) -
        ∑ j ∈ range s.freeVelocities.size, (s.evaluate w).gradient j * (v j - w j) := by
  have hforces := forces_along_le h hr v w
  have hmomentum : s.dynamics.quad (fun j => v j - w j) =
      ∑ j ∈ range s.freeVelocities.size, ∑ k ∈ range s.freeVelocities.size,
          (v j - w j) * s.dynamics j k * (v k - s.freeVelocities k) -
        ∑ j ∈ range s.freeVelocities.size, ∑ k ∈ range s.freeVelocities.size,
          (v j - w j) * s.dynamics j k * (w k - s.freeVelocities k) := by
    rw [Mat.quad, h.rows, ← sum_sub_distrib]
    refine sum_congr rfl fun j _ => ?_
    rw [← sum_sub_distrib]
    exact sum_congr rfl fun k _ => by ring
  rw [gradient_along h hv, gradient_along h hw, hmomentum]
  linarith

theorem gradient_sub_dot (h : s.Regular) (v w u : Vec ℝ) :
    ((s.evaluate v).gradient - (s.evaluate w).gradient).dot u =
      ∑ j ∈ range s.freeVelocities.size, (s.evaluate v).gradient j * u j -
        ∑ j ∈ range s.freeVelocities.size, (s.evaluate w).gradient j * u j := by
  rw [Vec.dot_eq, Vec.size_sub, size_gradient h, ← sum_sub_distrib]
  refine sum_congr rfl fun j hj => ?_
  rw [Vec.get_sub (by rw [size_gradient h]; exact mem_range.mp hj), sub_mul]

theorem quad_sub_le (h : s.Regular) (hr : s.PositiveRegularization) (hv : v.size = s.freeVelocities.size)
    (hw : w.size = s.freeVelocities.size) :
    (v - w).dot (s.dynamics.mulVec (v - w)) ≤
      ((s.evaluate v).gradient - (s.evaluate w).gradient).dot (v - w) := by
  have hentry : ∀ j ∈ range s.freeVelocities.size, (v - w) j = v j - w j := fun j hj =>
    Vec.get_sub (hv ▸ mem_range.mp hj)
  have hentries : ∀ u : Vec ℝ, ∑ j ∈ range s.freeVelocities.size, u j * (v - w) j =
      ∑ j ∈ range s.freeVelocities.size, u j * (v j - w j) := fun u =>
    sum_congr rfl fun j hj => by rw [hentry j hj]
  rw [gradient_sub_dot h, hentries, hentries,
    Mat.dot_mulVec_eq_quad h.dynamics.square (by rw [Vec.size_sub, hv, h.rows])]
  refine le_trans (le_of_eq ?_) (gradient_sub_along h hr hv hw)
  refine sum_congr rfl fun i hi => sum_congr rfl fun j hj => ?_
  rw [hentry i (h.rows ▸ hi), hentry j (h.rows ▸ hj)]

/-- Where the gradient is zero twice, it is so at one place. -/
theorem eq_of_gradient_eq_zero (h : s.Regular) (hr : s.PositiveRegularization)
    (hv : v.size = s.freeVelocities.size)
    (hw : w.size = s.freeVelocities.size) (hgv : ∀ j < s.freeVelocities.size, (s.evaluate v).gradient j = 0)
    (hgw : ∀ j < s.freeVelocities.size, (s.evaluate w).gradient j = 0) : v = w := by
  have hquad := gradient_sub_along h hr hv hw
  have hzero : ∀ u : Vec ℝ, (∀ j < s.freeVelocities.size, (s.evaluate u).gradient j = 0) →
      ∑ j ∈ range s.freeVelocities.size, (s.evaluate u).gradient j * (v j - w j) = 0 := fun u hu =>
    sum_eq_zero fun j hj => by rw [hu j (mem_range.mp hj), zero_mul]
  rw [hzero v hgv, hzero w hgw, sub_zero] at hquad
  refine Vec.ext (hv.trans hw.symm) fun i hi => ?_
  exact sub_eq_zero.mp (h.dynamics.eq_zero hquad i (by rw [h.rows, ← hv]; exact hi))

theorem scaling_pos (h : s.Regular) {i : ℕ} (hi : i < s.freeVelocities.size) : 0 < s.scaling i := by
  have hrow : i < s.dynamics.rows := h.rows ▸ hi
  rw [h.scaling, Vec.get_map (by rwa [Mat.diagonal, Vec.size_ofFn]), Mat.diagonal, Vec.get_ofFn_of_lt hrow]
  exact one_div_pos.mpr (Real.sqrt_pos.mpr (h.dynamics.diagonal_pos hrow))

/-- A residual bounds the gradient along a direction, of either sign. -/
theorem abs_gradient_along_le (h : s.Regular) (hw : w.size = s.freeVelocities.size) :
    |∑ j ∈ range s.freeVelocities.size, (s.evaluate v).gradient j * w j| ≤
      s.residual (s.evaluate v) * (s.unscaled w).norm := by
  have hsize : (s.unscaled w).size = ((s.evaluate v).gradient.hadamard s.scaling).size := by
    rw [unscaled, Vec.size_ofFn, Vec.size_hadamard, size_gradient h, hw]
  have hdot : ((s.evaluate v).gradient.hadamard s.scaling).dot (s.unscaled w) =
      ∑ j ∈ range s.freeVelocities.size, (s.evaluate v).gradient j * w j := by
    rw [Vec.dot_eq, Vec.size_hadamard, size_gradient h]
    refine sum_congr rfl fun j hj => ?_
    have hpos := scaling_pos h (mem_range.mp hj)
    rw [Vec.get_hadamard, unscaled, Vec.get_ofFn_of_lt (hw ▸ mem_range.mp hj)]
    field_simp
  rw [← hdot]
  exact Vec.abs_dot_le_norm_mul_norm hsize

theorem quad_sub_le_residuals (h : s.Regular) (hr : s.PositiveRegularization)
    (hv : v.size = s.freeVelocities.size) (hw : w.size = s.freeVelocities.size) :
    (v - w).dot (s.dynamics.mulVec (v - w)) ≤
      (s.residual (s.evaluate v) + s.residual (s.evaluate w)) * (s.unscaled (v - w)).norm := by
  have hsize : (v - w).size = s.freeVelocities.size := Vec.size_sub.trans hv
  have hquad := quad_sub_le h hr hv hw
  have hfirst := abs_le.mp (abs_gradient_along_le (v := v) h hsize)
  have hsecond := abs_le.mp (abs_gradient_along_le (v := w) h hsize)
  rw [gradient_sub_dot h] at hquad
  linarith [hfirst.2, hsecond.1]

end System

/-- Between two velocities the gradient grows at least as their difference does, measured by the
    dynamics. So at most one velocity has no gradient, and the answers of two solves that succeed, from
    any guesses, are as close as their residuals allow. -/
theorem gradient_strongly_monotone {p : Problem ℝ} (hp : p.Built) (htrees : p.HasSPDTrees) :
    ∃ s, System.ofProblem? p = some s ∧ (s.PositiveRegularization →
      (∀ v₁ v₂ : Vec ℝ, v₁.size = p.numVelocities → v₂.size = p.numVelocities →
        (v₁ - v₂).dot (p.dynamicsMatrix.mulVec (v₁ - v₂)) ≤
          ((s.evaluate v₁).gradient - (s.evaluate v₂).gradient).dot (v₁ - v₂)) ∧
      (∀ v₁ v₂ : Vec ℝ, v₁.size = p.numVelocities → v₂.size = p.numVelocities →
        (s.evaluate v₁).gradient = .zeros p.numVelocities →
        (s.evaluate v₂).gradient = .zeros p.numVelocities →
          v₁ = v₂) ∧
      ∀ (config₁ config₂ : SolverConfig ℝ) (guess₁ guess₂ : Vec ℝ) (x₁ x₂ : Solution ℝ),
        p.solve config₁ guess₁ = .ok x₁ → x₁.status = .success →
        p.solve config₂ guess₂ = .ok x₂ → x₂.status = .success →
          ∃ r₁ r₂, x₁.residual = some r₁ ∧ x₂.residual = some r₂ ∧
            (x₁.v - x₂.v).dot (p.dynamicsMatrix.mulVec (x₁.v - x₂.v)) ≤
              (r₁ + r₂) * (s.unscaled (x₁.v - x₂.v)).norm) := by
  obtain ⟨s, hs, hregular, hfree⟩ := hp.exists_system htrees
  have hdynamics : p.dynamicsMatrix = s.dynamics := (System.eq_of_ofProblem? hs).1.symm
  have hsize : s.freeVelocities.size = p.numVelocities := congrArg Vec.size hfree
  refine ⟨s, hs, fun hr => ⟨fun v₁ v₂ h₁ h₂ => ?_, fun v₁ v₂ h₁ h₂ hzero₁ hzero₂ => ?_, ?_⟩⟩
  · rw [hdynamics]
    exact System.quad_sub_le hregular hr (h₁.trans hsize.symm) (h₂.trans hsize.symm)
  · refine System.eq_of_gradient_eq_zero hregular hr (h₁.trans hsize.symm) (h₂.trans hsize.symm) ?_ ?_
    · rw [hzero₁]
      exact fun j _ => Vec.get_zeros _ j
    · rw [hzero₂]
      exact fun j _ => Vec.get_zeros _ j
  · intro config₁ config₂ guess₁ guess₂ x₁ x₂ hsolve₁ hstatus₁ hsolve₂ hstatus₂
    obtain ⟨h₁, hresidual₁⟩ := Problem.residual_of_success hs hfree hsolve₁ hstatus₁
    obtain ⟨h₂, hresidual₂⟩ := Problem.residual_of_success hs hfree hsolve₂ hstatus₂
    refine ⟨_, _, hresidual₁, hresidual₂, ?_⟩
    rw [hdynamics]
    exact System.quad_sub_le_residuals hregular hr h₁ h₂

/-- Where some velocity moves each constraint, all regularization is positive. -/
theorem System.positiveRegularization_of_moves {p : Problem ℝ} (hp : p.Built) (htrees : p.HasSPDTrees)
    {s : System ℝ} (hs : System.ofProblem? p = some s) (h : ∀ c ∈ p.constraints.toList, c.Moves) :
    s.PositiveRegularization := by
  obtain ⟨factors, hfactors, rfl⟩ := System.ofProblem?_eq_some hs
  intro c hc i hi
  obtain ⟨constraint, hmem, rfl⟩ := List.mem_map.mp hc
  exact (Coupling.regularization_pos_iff hp htrees hfactors hmem hi).mpr (.inr (h constraint hmem))

/-! ### A mass that is dragged along a contact -/

noncomputable section

/-- A contact with friction. The only velocity moves it along its normal and its tangents. -/
def drag : Constraint ℝ := ⟨.cone ⟨1, 1, 0, 1, 1⟩, .ofList [0, 0, -1], ⟨⟨0⟩, .ofFn 3 1 fun _ _ => 1⟩, none⟩

/-- The pushed mass, dragged along a contact. -/
def dragged : Problem ℝ := { pushed with constraints := #[drag, push] }

end

open Outcome in
theorem built_dragged : dragged.Built := by
  have hnew : Problem.new 1 dragged.dynamics.toList dragged.freeVelocities =
      .ok { dragged with constraints := #[] } := by
    rw [Problem.new, require_bind_eq_ok_iff]
    exact ⟨one_pos, rfl⟩
  have hcone : Constraint.cone [drag.first] (-1) ⟨1, 1, 0, 1, 1⟩ = .ok drag := Constraint.cone_unit rfl
  have hdrag : Problem.Built { dragged with constraints := #[drag] } :=
    .addConstraint (.new hnew) (.cone hcone) rfl
  exact .addConstraint hdrag made_push rfl

theorem positiveRegularization_dragged {s : System ℝ} (h : System.ofProblem? dragged = some s) :
    s.PositiveRegularization := by
  refine System.positiveRegularization_of_moves built_dragged hasSPDTrees_pushed h fun c hc => ?_
  have hmoves : ∀ (c : Constraint ℝ) n, c.first = ⟨⟨0⟩, .ofFn (n + 1) 1 fun _ _ => 1⟩ →
      c.Moves := fun c n hc =>
    ⟨c.first, List.mem_cons_self .., 0, 0, by
      rw [hc, Mat.get_ofFn_of_lt n.succ_pos one_pos]
      exact one_ne_zero⟩
  rcases List.mem_pair.mp hc with rfl | rfl
  · exact hmoves drag 2 rfl
  · exact hmoves push 0 rfl

/-- At most one velocity of the dragged mass has no gradient. -/
theorem gradient_strongly_monotone_dragged : dragged.Built ∧ dragged.HasSPDTrees ∧
    ∃ s, System.ofProblem? dragged = some s ∧ s.PositiveRegularization ∧ ∀ v₁ v₂ : Vec ℝ, v₁.size = 1 →
    v₂.size = 1 →
      (s.evaluate v₁).gradient = .zeros 1 → (s.evaluate v₂).gradient = .zeros 1 → v₁ = v₂ := by
  obtain ⟨s, hs, hmonotone⟩ := gradient_strongly_monotone built_dragged hasSPDTrees_pushed
  have hr := positiveRegularization_dragged hs
  exact ⟨built_dragged, hasSPDTrees_pushed, s, hs, hr, (hmonotone hr).2.1⟩

end CompliantContact
