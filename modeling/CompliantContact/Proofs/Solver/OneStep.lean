import CompliantContact.Proofs.Constraint.Derivative
import CompliantContact.Proofs.Solver.ContactImpulses
import CompliantContact.Proofs.Solver.Curvature

/-!
Problems that are solved in one step.

Where no constraint has a bound, every impulse follows the unconstrained one, so the curvature is the
same at all velocities and the cost is quadratic. A full Newton step ends at the velocities without
gradient, and lowers the cost by half of what the slope promises: a line search that asks for no more
than half takes it as it is. What is left is the test of convergence, which the solution passes if the
tolerances are not negative.
-/

namespace CompliantContact

open Finset

/-- A holonomic constraint none of whose equations has a bound. -/
def Constraint.Unbounded (c : Constraint ℝ) : Prop :=
  ∃ p, c.kind = .holonomic p ∧ ∀ i < c.numEquations, p.lower.getD i none = none ∧ p.upper.getD i none = none

namespace Coupling

variable {c : Coupling ℝ} {v dv : Vec ℝ} {i j k n : ℕ}

theorem impulse_of_unbounded (h : c.Regular) (hfree : c.constraint.Unbounded) (v : Vec ℝ)
    (hi : i < c.jacobian.rows) :
    c.impulse v i = -((c.jacobian.mulVec v i - c.bias i) * c.rInv i) := by
  obtain ⟨p, hkind, hbounds⟩ := hfree
  obtain ⟨hlower, hupper⟩ := hbounds i (h.rows ▸ hi)
  rw [impulse, Constraint.holonomic_impulse hkind (by rwa [size_unconstrained]), hlower, hupper,
    unconstrained_get hi]
  rfl

theorem slope_of_unbounded (h : c.Regular) (hfree : c.constraint.Unbounded) (v : Vec ℝ)
    (hi : i < c.jacobian.rows)
    (hj : j < c.jacobian.rows) : (c.respond v).projection.slope i j = if i = j then c.rInv i else 0 := by
  obtain ⟨p, hkind, hbounds⟩ := hfree
  obtain ⟨hlower, hupper⟩ := hbounds i (h.rows ▸ hi)
  have hsize := c.size_unconstrained v
  have hslope : (c.respond v).projection.slope i j = _ :=
    Constraint.holonomic_slope hkind (y := c.unconstrained v) (hsize ▸ hi) (hsize ▸ hj)
  rw [hslope, hlower, hupper]
  simp [Constraint.clampRow]

/-- What the Jacobian makes of a direction. -/
noncomputable def along (c : Coupling ℝ) (dv : Vec ℝ) (i : ℕ) : ℝ :=
  ∑ j ∈ range c.jacobian.cols, c.jacobian i j * dv j

theorem impulse_add (h : c.Regular) (hfree : c.constraint.Unbounded) (hv : v.size = c.jacobian.cols)
    (dv : Vec ℝ)
    (hi : i < c.jacobian.rows) : c.impulse (v + dv) i = c.impulse v i - c.rInv i * c.along dv i := by
  have hvelocity : c.jacobian.mulVec (v + dv) i = c.jacobian.mulVec v i + c.along dv i := by
    rw [Mat.get_mulVec hi, Mat.get_mulVec hi, along, ← sum_add_distrib]
    refine sum_congr rfl fun j hj => ?_
    rw [Vec.get_add (hv ▸ mem_range.mp hj), mul_add]
  rw [impulse_of_unbounded h hfree _ hi, impulse_of_unbounded h hfree _ hi, hvelocity]
  ring

/-- By the diagonal slope. -/
theorem curvature_along (h : c.Regular) (hfree : c.constraint.Unbounded) (v dv : Vec ℝ)
    (hk : k < c.jacobian.cols) :
    ∑ j ∈ range c.jacobian.cols, c.curvature (c.respond v) k j * dv j =
      ∑ i ∈ range c.jacobian.rows, c.jacobian i k * (c.rInv i * c.along dv i) := by
  have hcols : (c.respond v).projection.slope.cols = c.jacobian.rows :=
    (Constraint.cols_slope h.inRange ((c.size_unconstrained v).trans h.rows)).trans h.rows.symm
  rw [curvature, Mat.sum_transpose_mul_mul hk, hcols]
  refine sum_congr rfl fun i hi => ?_
  rw [sum_eq_single_of_mem i hi]
  · rw [slope_of_unbounded h hfree v (mem_range.mp hi) (mem_range.mp hi), if_pos rfl, along]
  · intro j hj hne
    rw [slope_of_unbounded h hfree v (mem_range.mp hi) (mem_range.mp hj), if_neg hne.symm, zero_mul]

/-- A square is completed in every equation. -/
theorem cost_add (h : c.Regular) (hfree : c.constraint.Unbounded)
    (hr : ∀ i < c.constraint.numEquations, 0 < c.r i) (hv : v.size = c.jacobian.cols) (dv : Vec ℝ) :
    c.cost (v + dv) = c.cost v - ∑ i ∈ range c.jacobian.rows, c.impulse v i * c.along dv i +
      1 / 2 * ∑ i ∈ range c.jacobian.rows, c.rInv i * c.along dv i * c.along dv i := by
  rw [cost_eq_sum h, cost_eq_sum h, ← h.rows, mul_sum, ← sum_sub_distrib, ← sum_add_distrib]
  refine sum_congr rfl fun i hi => ?_
  have hi := mem_range.mp hi
  have hpos := (hr i (h.rows ▸ hi)).ne'
  rw [impulse_add h hfree hv dv hi, h.rInv_get (h.rows ▸ hi)]
  field_simp
  ring

end Coupling

namespace Mat

/-- The form of a sum of vectors. -/
theorem quad_add_vec {m : Mat ℝ} (hsymm : ∀ i j, m i j = m j i) (x d : ℕ → ℝ) :
    (m.quad fun i => x i + d i) =
      m.quad x + 2 * ∑ i ∈ range m.rows, ∑ j ∈ range m.rows, d i * m i j * x j + m.quad d := by
  have hswap : ∑ i ∈ range m.rows, ∑ j ∈ range m.rows, x i * m i j * d j =
      ∑ i ∈ range m.rows, ∑ j ∈ range m.rows, d i * m i j * x j := by
    rw [sum_comm]
    refine sum_congr rfl fun i _ => sum_congr rfl fun j _ => ?_
    rw [hsymm]
    ring
  rw [two_mul]
  nth_rewrite 1 [← hswap]
  simp only [quad, ← sum_add_distrib]
  exact sum_congr rfl fun i _ => sum_congr rfl fun j _ => by ring

end Mat

namespace System

variable {s : System ℝ} {v dv : Vec ℝ} {k : ℕ}

/-- No constraint has a bound, and all are compliant. -/
structure Unbounded (s : System ℝ) : Prop where
  regular : s.Regular
  positive : s.PositiveRegularization
  free : ∀ c ∈ s.couplings, c.constraint.Unbounded

theorem Unbounded.curvature_along (h : s.Unbounded) (v dv : Vec ℝ) (hk : k < s.freeVelocities.size) :
    ∑ j ∈ range s.freeVelocities.size, s.curvature (s.evaluate v) k j * dv j =
      ∑ j ∈ range s.freeVelocities.size, s.dynamics k j * dv j +
        (s.couplings.map fun c => ∑ i ∈ range c.jacobian.rows,
          c.jacobian i k * (c.rInv i * c.along dv i)).sum := by
  have hrows := h.regular.rows
  have hcols := h.regular.dynamics.square.trans hrows
  have hentry : ∀ j ∈ range s.freeVelocities.size,
    s.curvature (s.evaluate v) k j * dv j = s.dynamics k j * dv j +
      (s.couplings.map fun c => c.curvature (c.respond v) k j * dv j).sum := by
    intro j hj
    rw [curvature_evaluate, (Mat.foldl_add _ _).2.2 k (hrows ▸ hk) j (hcols ▸ mem_range.mp hj), add_mul,
      List.sum_map_mul_right, List.map_map]
    rfl
  rw [sum_congr rfl hentry, sum_add_distrib, sum_map_comm]
  congr 2
  refine List.map_congr_left fun c hc => ?_
  have hwidth := h.regular.cols c hc
  rw [← hwidth]
  exact Coupling.curvature_along (h.regular.couplings c hc) (h.free c hc) v dv (hwidth ▸ hk)

theorem Unbounded.along_eq (h : s.Unbounded) {c : Coupling ℝ} (hc : c ∈ s.couplings) (dv : Vec ℝ) (i : ℕ) :
    c.along dv i = ∑ j ∈ range s.freeVelocities.size, c.jacobian i j * dv j := by
  rw [Coupling.along, h.regular.cols c hc]

/-- The gradient is affine. -/
theorem Unbounded.gradient_add (h : s.Unbounded) (hv : v.size = s.freeVelocities.size) (dv : Vec ℝ)
    (hk : k < s.freeVelocities.size) : (s.evaluate (v + dv)).gradient k =
      (s.evaluate v).gradient k + ∑ j ∈ range s.freeVelocities.size,
      s.curvature (s.evaluate v) k j * dv j := by
  have hmomentum : ∑ j ∈ range s.freeVelocities.size, s.dynamics k j * ((v + dv) j - s.freeVelocities j) =
      ∑ j ∈ range s.freeVelocities.size, s.dynamics k j * (v j - s.freeVelocities j) +
        ∑ j ∈ range s.freeVelocities.size, s.dynamics k j * dv j := by
    rw [← sum_add_distrib]
    refine sum_congr rfl fun j hj => ?_
    rw [Vec.get_add (hv ▸ mem_range.mp hj)]
    ring
  have hforces : (s.couplings.map fun c => ∑ i ∈ range c.jacobian.rows, c.jacobian i k * c.impulse v i).sum =
      (s.couplings.map fun c => ∑ i ∈ range c.jacobian.rows, c.jacobian i k * c.impulse (v + dv) i).sum +
        (s.couplings.map fun c => ∑ i ∈ range c.jacobian.rows,
          c.jacobian i k * (c.rInv i * c.along dv i)).sum := by
    rw [← List.sum_map_add]
    refine congrArg List.sum (List.map_congr_left fun c hc => ?_)
    rw [← sum_add_distrib]
    refine sum_congr rfl fun i hi => ?_
    rw [Coupling.impulse_add (h.regular.couplings c hc) (h.free c hc) (hv.trans (h.regular.cols c hc).symm) dv
      (mem_range.mp hi)]
    ring
  have hsize : (v + dv).size = s.freeVelocities.size := Vec.size_add.trans hv
  rw [gradient_get h.regular hsize hk, gradient_get h.regular hv hk, h.curvature_along v dv hk,
    hmomentum, hforces]
  ring

theorem Unbounded.quad_curvature (h : s.Unbounded) (v dv : Vec ℝ) : (s.curvature (s.evaluate v)).quad dv =
    s.dynamics.quad dv + (s.couplings.map fun c => ∑ i ∈ range c.jacobian.rows,
      c.rInv i * c.along dv i * c.along dv i).sum := by
  have hforces : (s.couplings.map fun c => ∑ i ∈ range c.jacobian.rows,
    c.rInv i * c.along dv i * c.along dv i).sum =
      ∑ k ∈ range s.freeVelocities.size, (s.couplings.map fun c =>
        ∑ i ∈ range c.jacobian.rows, c.jacobian i k * (c.rInv i * c.along dv i)).sum * dv k := by
    rw [forces_along _ _ (fun c i => c.rInv i * c.along dv i) dv]
    refine congrArg List.sum (List.map_congr_left fun c hc => sum_congr rfl fun i _ => ?_)
    rw [← h.along_eq hc]
  rw [hforces, Mat.quad_eq_sum, Mat.quad_eq_sum, h.regular.rows_curvature, h.regular.rows, ← sum_add_distrib]
  refine sum_congr rfl fun k hk => ?_
  rw [h.curvature_along v dv (mem_range.mp hk)]
  ring

/-- The cost is quadratic. -/
theorem Unbounded.cost_add (h : s.Unbounded) (hv : v.size = s.freeVelocities.size) (dv : Vec ℝ) :
    (s.evaluate (v + dv)).cost = (s.evaluate v).cost +
      ∑ j ∈ range s.freeVelocities.size, (s.evaluate v).gradient j * dv j +
        1 / 2 * (s.curvature (s.evaluate v)).quad dv := by
  have hsize : (v + dv).size = s.freeVelocities.size := Vec.size_add.trans hv
  have hcosts : (s.couplings.map fun c => c.cost (v + dv)).sum +
        (s.couplings.map fun c => ∑ i ∈ range c.jacobian.rows, c.impulse v i * c.along dv i).sum =
      (s.couplings.map fun c => c.cost v).sum + 1 / 2 * (s.couplings.map fun c =>
        ∑ i ∈ range c.jacobian.rows, c.rInv i * c.along dv i * c.along dv i).sum := by
    rw [← List.sum_map_mul_left, ← List.sum_map_add, ← List.sum_map_add]
    refine congrArg List.sum (List.map_congr_left fun c hc => ?_)
    rw [Coupling.cost_add (h.regular.couplings c hc) (h.free c hc) (h.positive c hc)
      (hv.trans (h.regular.cols c hc).symm)]
    ring
  have hmomentum : (s.dynamics.quad fun j => (v + dv) j - s.freeVelocities j) =
      (s.dynamics.quad fun j => v j - s.freeVelocities j) + 2 * ∑ j ∈ range s.freeVelocities.size,
        ∑ k ∈ range s.freeVelocities.size,
        dv j * s.dynamics j k * (v k - s.freeVelocities k) + s.dynamics.quad dv := by
    have hquad := Mat.quad_add_vec h.regular.dynamics.symm (fun j => v j - s.freeVelocities j) dv
    rw [h.regular.rows] at hquad
    rw [← hquad]
    refine Mat.quad_congr fun i hi => ?_
    rw [Vec.get_add (hv ▸ h.regular.rows ▸ hi)]
    ring
  have hforces : (s.couplings.map fun c => ∑ i ∈ range c.jacobian.rows,
        c.impulse v i * ∑ j ∈ range s.freeVelocities.size, c.jacobian i j * dv j).sum =
      (s.couplings.map fun c => ∑ i ∈ range c.jacobian.rows, c.impulse v i * c.along dv i).sum :=
    congrArg List.sum (List.map_congr_left fun c hc => sum_congr rfl fun i _ => by rw [h.along_eq hc])
  rw [cost_eq h.regular hsize, cost_eq h.regular hv, gradient_along h.regular hv, h.quad_curvature,
    hmomentum, hforces]
  linear_combination hcosts

/-! ### The solve -/

theorem lineSearch_of_accepts {config : SolverConfig ℝ} {current : Evaluation ℝ} {slope : ℝ} {t : Trial ℝ}
    (h : accepts config current slope t = true) (remaining : ℕ) :
    s.lineSearch config v dv current slope remaining t = t := by
  cases remaining with
  | zero => rfl
  | succ remaining => rw [lineSearch, if_pos h]

/-- An iterate of a line search that never backtracks: no step has been taken, or it is at the solution. -/
structure Direct (s : System ℝ) (it : Iterate ℝ) : Prop extends s.Evaluated it where
  tries : it.lineSearchIterations = 0
  settled : 0 < it.iterations → ∀ j < s.freeVelocities.size, (s.evaluate it.v).gradient j = 0

/-- A full step is accepted, since the cost falls by half of the slope. -/
theorem Unbounded.advance_eq (h : s.Unbounded) {config : SolverConfig ℝ}
    (harmijo : config.armijo ≤ 1 / 2) {it : Iterate ℝ}
    (hit : s.Evaluated it) (hstep : s.NewtonStep it.v dv) : s.advance config it dv =
      ⟨it.v + dv, s.evaluate (it.v + dv), it.iterations + 1, it.lineSearchIterations⟩ := by
  have hone : dv * (1 : ℝ) = dv := Vec.ext Vec.size_mul fun i _ => by rw [Vec.get_mul, mul_one]
  have hquad := (h.regular.isSPD_curvature h.positive it.v).quad_nonneg dv
  have hslope := hstep.gradient_dot h.regular
  have hsum : (s.evaluate it.v).gradient.dot dv = ∑ j ∈ range s.freeVelocities.size,
      (s.evaluate it.v).gradient j * dv j := by
    rw [Vec.dot_eq, size_gradient h.regular]
  have haccepts : accepts config it.evaluation (it.evaluation.gradient.dot dv) ⟨1,
      s.evaluate (it.v + dv), 0⟩ = true := by
    rw [accepts, decide_eq_true_eq, hit.evaluation, h.cost_add hit.size, ← hsum, hslope]
    have hshare := mul_le_mul_of_nonneg_right harmijo hquad
    linarith
  rw [advance, lineSearch_of_accepts haccepts, hone]
  rfl

/-- And it ends where there is no gradient. -/
theorem Direct.advance {config : SolverConfig ℝ} {it : Iterate ℝ} (hit : s.Direct it) (h : s.Unbounded)
    (harmijo : config.armijo ≤ 1 / 2) (hstep : s.NewtonStep it.v dv) : s.Direct (s.advance config it dv) := by
  refine ⟨hit.toEvaluated.advance dv, ?_, fun _ j hj => ?_⟩
  · rw [h.advance_eq harmijo hit.toEvaluated hstep]
    exact hit.tries
  · rw [h.advance_eq harmijo hit.toEvaluated hstep, h.gradient_add hit.size dv hj, hstep.solves j hj,
      add_neg_cancel]

theorem Direct.newton {config : SolverConfig ℝ} {it : Iterate ℝ} (hit : s.Direct it) (h : s.Unbounded)
    (harmijo : config.armijo ≤ 1 / 2) (remaining : ℕ) : s.Direct (s.newton config remaining it).2 := by
  induction remaining generalizing it with
  | zero =>
    rw [System.newton]
    split_ifs <;> exact hit
  | succ remaining ih =>
    obtain ⟨dv, hdv, hstep⟩ := h.regular.exists_newtonStep h.positive it.v
    rw [← hit.evaluation] at hdv
    rw [System.newton]
    split
    · exact hit
    · split
      · exact hit
      · simp only [hdv]
        exact ih (hit.advance h harmijo hstep)

theorem momentumScale_nonneg (s : System ℝ) (v : Vec ℝ) (e : Evaluation ℝ) : 0 ≤ s.momentumScale v e := by
  rw [momentumScale, Scalar.larger_eq_max]
  exact le_max_of_le_left (Real.sqrt_nonneg _)

/-- Without a gradient there is no residual. -/
theorem converged_of_gradient_eq_zero (h : s.Regular) {config : SolverConfig ℝ}
    (habs : 0 ≤ config.absTolerance)
    (hrel : 0 ≤ config.relTolerance) {it : Iterate ℝ} (hit : s.Evaluated it)
    (hzero : ∀ j < s.freeVelocities.size, (s.evaluate it.v).gradient j = 0) :
    s.converged config it = true := by
  have hresidual : s.residual (s.evaluate it.v) = 0 := by
    rw [residual, Vec.norm_eq, Vec.size_hadamard, size_gradient h, Real.sqrt_eq_zero']
    refine (sum_eq_zero fun j hj => ?_).le
    rw [Vec.get_hadamard, hzero j (mem_range.mp hj), zero_mul, zero_pow two_ne_zero]
  have hscale := s.momentumScale_nonneg it.v (s.evaluate it.v)
  rw [converged, decide_eq_true_eq, hit.evaluation, hresidual]
  positivity

theorem Unbounded.newton_success (h : s.Unbounded) {config : SolverConfig ℝ} (harmijo : config.armijo ≤ 1 / 2)
    (habs : 0 ≤ config.absTolerance) (hrel : 0 ≤ config.relTolerance) {it : Iterate ℝ} (hit : s.Direct it)
    (hstart : it.iterations = 0) {remaining : ℕ} (hremaining : 1 ≤ remaining) :
    (s.newton config remaining it).1 = .success ∧ (s.newton config remaining it).2.iterations ≤ 1 := by
  by_cases hconverged : s.converged config it = true
  · rw [newton_of_converged hconverged]
    exact ⟨rfl, hstart.trans_le zero_le_one⟩
  · obtain ⟨remaining, rfl⟩ := Nat.exists_eq_add_of_le' hremaining
    obtain ⟨dv, hdv, hstep⟩ := h.regular.exists_newtonStep h.positive it.v
    have hadvance := h.advance_eq harmijo hit.toEvaluated hstep
    have hdirect := hit.advance h harmijo hstep
    have hone : (s.advance config it dv).iterations = 1 := by rw [hadvance, hstart]
    have hend := converged_of_gradient_eq_zero h.regular habs hrel hdirect.toEvaluated
      (hdirect.settled (hone.symm ▸ one_pos))
    rw [← hit.evaluation] at hdv
    have hnewton : s.newton config (remaining + 1) it = (.success, s.advance config it dv) := by
      rw [System.newton, if_neg (not_not.mpr it.evaluation.isFinite_eq), if_neg hconverged]
      simp only [hdv]
      exact newton_of_converged hend remaining
    rw [hnewton]
    exact ⟨rfl, hone.le⟩

end System

/-! ### The linear equation of the solution -/

/-- A matrix with the entries of a vector along its diagonal. -/
noncomputable def Mat.ofDiagonal (d : Vec ℝ) : Mat ℝ :=
  .ofFn d.size d.size fun i j => if i = j then d i else 0

theorem Mat.mulVec_transpose_mul_diagonal_mul {l : Mat ℝ} {d : Vec ℝ} (hd : d.size = l.rows) (u : Vec ℝ) :
    (l.transpose * ofDiagonal d * l).mulVec u = l.transposeMulVec ((l.mulVec u).hadamard d) := by
  refine Vec.ext (by simp only [size_mulVec, transposeMulVec, Vec.size_ofFn]; rfl) fun j hj => ?_
  have hj : j < l.cols := by rwa [size_mulVec] at hj
  have hforces : l.transposeMulVec ((l.mulVec u).hadamard d) j = ∑ a ∈ range l.rows,
      l a j * (l.mulVec u a * d a) := by
    rw [transposeMulVec, Vec.get_ofFn_of_lt hj, Scalar.sum_eq_sum_range]
    exact sum_congr rfl fun a _ => by rw [Vec.get_hadamard]
  refine (get_mulVec (m := l.transpose * ofDiagonal d * l) hj).trans ((sum_transpose_mul_mul hj u).trans ?_)
  rw [hforces]
  refine sum_congr rfl fun a ha => ?_
  have ha := mem_range.mp ha
  have hdiagonal : ∀ b < d.size, ofDiagonal d a b = if a = b then d a else 0 := fun b hb =>
    get_ofFn_of_lt (hd ▸ ha) hb
  have hcols : (ofDiagonal d).cols = d.size := rfl
  rw [hcols, sum_eq_single_of_mem a (mem_range.mpr (hd ▸ ha)), hdiagonal a (hd ▸ ha), if_pos rfl,
    get_mulVec ha, mul_comm (d a)]
  intro b hb hne
  rw [hdiagonal b (mem_range.mp hb), if_neg hne.symm, zero_mul]

namespace System

variable {s : System ℝ} {p : Problem ℝ} {u : Vec ℝ}

/-- The inverses of the regularization of all equations. -/
noncomputable def rInv (s : System ℝ) : Vec ℝ := .concat (s.couplings.map Coupling.rInv)

/-- The velocities that all equations relax to. -/
noncomputable def bias (s : System ℝ) : Vec ℝ := .concat (s.couplings.map Coupling.bias)

/-- The linear equation of velocities that all springs and dampers act on: `(A + Jᵀ R⁻¹ J) u = A v* + Jᵀ
    R⁻¹ v̂`. -/
def Balanced (s : System ℝ) (p : Problem ℝ) (u : Vec ℝ) : Prop :=
  (p.dynamicsMatrix + p.jacobian.transpose * .ofDiagonal s.rInv * p.jacobian).mulVec u =
    p.dynamicsMatrix.mulVec p.freeVelocities + p.jacobian.transposeMulVec (s.bias.hadamard s.rInv)

theorem Of.sizes_rInv (hof : s.Of p) (hp : p.Built) :
    ∀ c ∈ s.couplings, c.rInv.size = c.constraint.numEquations := by
  intro c hc
  have hstepped := hof.stepped hp c hc
  rw [hstepped.rInv, ← hstepped.size_r]
  exact Array.size_map

theorem Of.size_rInv (hof : s.Of p) (hp : p.Built) : s.rInv.size = p.jacobian.rows := by
  rw [rInv, Vec.size_concat, map_size (hof.sizes_rInv hp) fun c hc => hc, hof.constraints, p.rows_jacobian]
  rfl

/-- Forces of impulses that are velocities per regularization. -/
theorem Of.weighted_forces (hof : s.Of p) (hp : p.Built) {f : Coupling ℝ → Vec ℝ}
    (hf : ∀ c ∈ s.couplings, (f c).size = c.jacobian.rows) {j : ℕ} (hj : j < p.numVelocities) :
    p.jacobian.transposeMulVec ((Vec.concat (s.couplings.map f)).hadamard s.rInv) j =
      (s.couplings.map fun c => ∑ i ∈ range c.jacobian.rows, c.jacobian i j * (f c i * c.rInv i)).sum := by
  have hsizes : ∀ c ∈ s.couplings, c.rInv.size = (f c).size := fun c hc =>
    (hof.sizes_rInv hp c hc).trans ((hof.stepped hp c hc).rows.symm.trans (hf c hc).symm)
  rw [rInv, Vec.hadamard_concat hsizes, hof.jacobian,
    Mat.transposeMulVec_stack (fun c hc => Vec.size_hadamard.trans (hf c hc)) hj]
  exact congrArg List.sum (List.map_congr_left fun c _ => sum_congr rfl fun i _ => by rw [Vec.get_hadamard])

/-- The gradient is the difference of the two sides. -/
theorem Unbounded.gradient_eq (h : s.Unbounded) (hof : s.Of p) (hp : p.Built)
    (hu : u.size = p.numVelocities) {j : ℕ} (hj : j < p.numVelocities) : (s.evaluate u).gradient j =
      (p.dynamicsMatrix + p.jacobian.transpose * .ofDiagonal s.rInv * p.jacobian).mulVec u j -
        (p.dynamicsMatrix.mulVec p.freeVelocities +
          p.jacobian.transposeMulVec (s.bias.hadamard s.rInv)) j := by
  have hsize : s.freeVelocities.size = p.numVelocities := congrArg Vec.size hof.freeVelocities
  have hbias : ∀ c ∈ s.couplings, c.bias.size = c.jacobian.rows := fun c hc => by
    have hstepped := hof.stepped hp c hc
    rw [hstepped.bias, Constraint.size_bias hstepped.inRange, hstepped.rows]
  have hforces : (s.couplings.map fun c => ∑ i ∈ range c.jacobian.rows, c.jacobian i j * c.impulse u i).sum +
      (s.couplings.map fun c => ∑ i ∈ range c.jacobian.rows,
        c.jacobian i j * (c.jacobian.mulVec u i * c.rInv i)).sum =
        (s.couplings.map fun c => ∑ i ∈ range c.jacobian.rows,
          c.jacobian i j * (c.bias i * c.rInv i)).sum := by
    rw [← List.sum_map_add]
    refine congrArg List.sum (List.map_congr_left fun c hc => ?_)
    rw [← sum_add_distrib]
    refine sum_congr rfl fun i hi => ?_
    rw [Coupling.impulse_of_unbounded (h.regular.couplings c hc) (h.free c hc) u (mem_range.mp hi)]
    ring
  have hmomentum : ∑ k ∈ range p.numVelocities, p.dynamicsMatrix j k * (u k - p.freeVelocities k) =
      p.dynamicsMatrix.mulVec u j - p.dynamicsMatrix.mulVec p.freeVelocities j := by
    rw [Mat.mulVec_get, Mat.mulVec_get, ← sum_sub_distrib]
    exact sum_congr rfl fun k _ => mul_sub ..
  have hright :
    (p.dynamicsMatrix.mulVec p.freeVelocities + p.jacobian.transposeMulVec (s.bias.hadamard s.rInv)) j =
      p.dynamicsMatrix.mulVec p.freeVelocities j + p.jacobian.transposeMulVec (s.bias.hadamard s.rInv) j :=
    Vec.get_add (by rw [Mat.size_mulVec]; exact hj)
  have hrow : j < p.dynamicsMatrix.rows := hj
  have hcols : (p.jacobian.transpose * .ofDiagonal s.rInv * p.jacobian).cols = p.dynamicsMatrix.cols := rfl
  have hleft : (p.dynamicsMatrix + p.jacobian.transpose * .ofDiagonal s.rInv * p.jacobian).mulVec u j =
      p.dynamicsMatrix.mulVec u j + (p.jacobian.transpose * .ofDiagonal s.rInv * p.jacobian).mulVec u j :=
    Mat.get_add_mulVec hcols u hrow
  rw [gradient_get h.regular (hu.trans hsize.symm) (hsize ▸ hj), hsize, hof.dynamics,
    hof.freeVelocities, hmomentum, hright,
    hleft, Mat.mulVec_transpose_mul_diagonal_mul (hof.size_rInv hp), hof.mulVec_jacobian,
    hof.weighted_forces hp (fun c _ => Mat.size_mulVec) hj, bias, hof.weighted_forces hp hbias hj]
  linear_combination -hforces

theorem Unbounded.balanced_iff (h : s.Unbounded) (hof : s.Of p) (hp : p.Built)
    (hu : u.size = p.numVelocities) :
    s.Balanced p u ↔ ∀ j < p.numVelocities, (s.evaluate u).gradient j = 0 := by
  constructor
  · intro hbalanced j hj
    rw [h.gradient_eq hof hp hu hj, hbalanced, sub_self]
  · intro hzero
    refine Vec.ext (by rw [Mat.size_mulVec, Vec.size_add, Mat.size_mulVec]; rfl) fun j hj => ?_
    have hj : j < p.numVelocities := by rwa [Mat.size_mulVec] at hj
    exact sub_eq_zero.mp ((h.gradient_eq hof hp hu hj).symm.trans (hzero j hj))

end System

namespace Problem

variable {p : Problem ℝ} {config : SolverConfig ℝ} {guess : Vec ℝ}

/-- No residual is within tolerances that are negative. -/
theorem status_ne_success {x : Solution ℝ} (hx : p.solve config guess = .ok x)
    (habs : config.absTolerance < 0) (hrel : config.relTolerance ≤ 0) : x.status ≠ .success := by
  intro hsuccess
  obtain ⟨s, -, hreports⟩ := solve_eq_ok hx (cost_isSome_of_success hx hsuccess)
  have hconverged := hreports.converged hsuccess
  have hresidual : 0 ≤ s.residual (s.evaluate x.v) := Real.sqrt_nonneg _
  have hscale : 0 ≤ s.momentumScale x.v (s.evaluate x.v) := s.momentumScale_nonneg _ _
  have hshare := mul_nonpos_of_nonpos_of_nonneg hrel hscale
  linarith

end Problem

/-- With no bound on any impulse: the linear equation of the springs and dampers has one solution, which
    is the free velocities where there is no constraint. From any guess, with any settings that grant an
    iteration and ask for no more than half of the predicted decrease, a solve does not backtrack, and
    it ends at the solution if it takes an iteration at all. It is a success after at most one
    iteration, if the tolerances are not negative. -/
theorem solved_in_one_step {p : Problem ℝ} (hp : p.Built) (htrees : p.HasSPDTrees)
    (hfree : ∀ c ∈ p.constraints.toList, c.Unbounded) :
    ∃ s, System.ofProblem? p = some s ∧ (s.PositiveRegularization →
      ∃ u : Vec ℝ, u.size = p.numVelocities ∧ s.Balanced p u ∧
        (∀ w : Vec ℝ, w.size = p.numVelocities → s.Balanced p w → w = u) ∧
        (p.constraints = #[] → u = p.freeVelocities) ∧
        ∀ (config : SolverConfig ℝ) (guess : Vec ℝ), guess.size = p.numVelocities → 1 ≤ config.maxIterations →
          config.armijo ≤ 1 / 2 →
            ∃ x, p.solve config guess = .ok x ∧ x.lineSearchIterations = 0 ∧ (0 < x.iterations → x.v = u) ∧
              (0 ≤ config.absTolerance → 0 ≤ config.relTolerance → x.status = .success ∧
                x.iterations ≤ 1)) := by
  obtain ⟨s, hs, hregular, hfreeVelocities⟩ := hp.exists_system htrees
  refine ⟨s, hs, fun hr => ?_⟩
  have hof := System.of_ofProblem? hs
  have hsize : s.freeVelocities.size = p.numVelocities := congrArg Vec.size hfreeVelocities
  have hunbounded : ∀ c ∈ s.couplings, c.constraint.Unbounded := fun c hc =>
    hfree c.constraint (hof.constraints ▸ List.mem_map_of_mem hc)
  have h : s.Unbounded := ⟨hregular, hr, hunbounded⟩
  have hunique : ∀ w w' : Vec ℝ, w.size = p.numVelocities → w'.size = p.numVelocities →
      (∀ j < p.numVelocities, (s.evaluate w).gradient j = 0) →
      (∀ j < p.numVelocities, (s.evaluate w').gradient j = 0) →
        w = w' := by
    rw [← hsize]
    exact fun w w' => System.eq_of_gradient_eq_zero hregular hr
  -- A step from the free velocities finds the solution.
  obtain ⟨dv, -, hstep⟩ := hregular.exists_newtonStep hr p.freeVelocities
  have hgradient : ∀ j < p.numVelocities, (s.evaluate (p.freeVelocities + dv)).gradient j = 0 :=
      fun j hj => by
    rw [h.gradient_add (hfreeVelocities ▸ rfl) dv (hsize ▸ hj), hstep.solves j (hsize ▸ hj), add_neg_cancel]
  have hu : (p.freeVelocities + dv).size = p.numVelocities := Vec.size_add
  refine ⟨p.freeVelocities + dv, hu, (h.balanced_iff hof hp hu).mpr hgradient, fun w hw hbalanced => ?_,
    fun hnone => ?_,
    fun config guess hguess hiterations harmijo => ?_⟩
  · exact hunique _ _ hw hu ((h.balanced_iff hof hp hw).mp hbalanced) hgradient
  · refine hunique _ _ hu rfl hgradient fun j hj => ?_
    have hcouplings : s.couplings = [] := List.map_eq_nil_iff.mp (hof.constraints.trans (by rw [hnone]))
    rw [System.gradient_get hregular hsize.symm (hsize ▸ hj), hcouplings, hfreeVelocities]
    simp
  · have hstart : s.Direct ⟨guess, s.evaluate guess, 0, 0⟩ := ⟨⟨hguess.trans hsize.symm, rfl⟩, rfl, nofun⟩
    have hdirect := hstart.newton h harmijo config.maxIterations
    refine ⟨_, Problem.solve_eq_newton hs hguess.symm config, hdirect.tries, fun htaken => ?_,
      fun habs hrel => h.newton_success harmijo habs hrel hstart rfl hiterations⟩
    exact hunique _ _ (hdirect.size.trans hsize) hu
      (fun j hj => hdirect.settled htaken j (hsize ▸ hj)) hgradient

/-! ### A stretched spring -/

noncomputable section

def springParameters : HolonomicParameters ℝ := ⟨#[none], #[none], #[some 1], .ofList [0], 1⟩

/-- A spring without bounds, stretched by one. -/
def spring : Constraint ℝ := ⟨.holonomic springParameters, .ofList [1], ⟨⟨0⟩, .ofFn 1 1 fun _ _ => 1⟩, none⟩

/-- One velocity with unit mass, and no constraint. -/
def loose : Problem ℝ := ⟨1, #[.ofFn 1 1 fun _ _ => 1], .ofList [0], #[]⟩

/-- The same with a spring. -/
def sprung : Problem ℝ := { loose with constraints := #[spring] }

/-- A single iteration, with no try of the line search and no tolerance. -/
def exacting : SolverConfig ℝ := ⟨1, 0, 0, 0, Scalar.half, Scalar.half⟩

end

open Outcome in
theorem built_loose : loose.Built := by
  have hnew : Problem.new 1 loose.dynamics.toList loose.freeVelocities = .ok loose := by
    rw [Problem.new, require_bind_eq_ok_iff]
    exact ⟨one_pos, rfl⟩
  exact .new hnew

open Outcome in
theorem made_spring : spring.Made := by
  have hrow : ∀ i ∈ List.range 1, Constraint.holonomicEquationOk springParameters i = true := by
    intro i hi
    obtain rfl : i = 0 := by simpa using hi
    simp [Constraint.holonomicEquationOk, springParameters, Bound.ordered, Vec.get, Vec.ofList]
  have hholonomic : Constraint.holonomic [spring.first] spring.g0 springParameters = .ok spring := by
    simp only [Constraint.holonomic, bind_eq_ok_iff]
    refine ⟨(), rfl, (), rfl, (), rfl, (), rfl, (), ?_, (), ?_, _, rfl, rfl⟩
    · exact forM_eq_ok_iff.mpr fun i hi => require_eq_ok_iff.mpr (hrow i hi)
    · exact require_eq_ok_iff.mpr ⟨one_pos, rfl⟩
  exact .holonomic hholonomic

theorem built_sprung : sprung.Built := .addConstraint built_loose made_spring rfl

theorem unbounded_sprung : ∀ c ∈ sprung.constraints.toList, c.Unbounded := by
  intro c hc
  obtain rfl : c = spring := List.mem_singleton.mp hc
  refine ⟨springParameters, rfl, fun i hi => ?_⟩
  obtain rfl : i = 0 := Nat.lt_one_iff.mp hi
  exact ⟨rfl, rfl⟩

theorem positiveRegularization_sprung {s : System ℝ} (h : System.ofProblem? sprung = some s) :
    s.PositiveRegularization := by
  intro c hc i hi
  obtain ⟨-, factors, hcouplings⟩ := System.eq_of_ofProblem? h
  rw [hcouplings] at hc
  obtain rfl : c = Coupling.ofConstraint sprung factors spring := List.mem_singleton.mp hc
  obtain rfl : i = 0 := Nat.lt_one_iff.mp hi
  exact Constraint.compliantRegularization_pos one_pos one_pos le_rfl

/-- The mass on the spring is solved from rest in a single exact step. -/
theorem solved_in_one_step_sprung : sprung.Built ∧ sprung.HasSPDTrees ∧
    (∀ c ∈ sprung.constraints.toList, c.Unbounded) ∧
    ∃ s, System.ofProblem? sprung = some s ∧ s.PositiveRegularization ∧
      ∃ x, sprung.solve exacting (.ofList [0]) = .ok x ∧ x.status = .success ∧ x.iterations ≤ 1 ∧
        x.lineSearchIterations = 0 := by
  obtain ⟨s, hs, hsolved⟩ := solved_in_one_step built_sprung hasSPDTrees_pushed unbounded_sprung
  obtain ⟨u, -, -, -, -, hsolve⟩ := hsolved (positiveRegularization_sprung hs)
  obtain ⟨x, hx, htries, -, hsuccess⟩ := hsolve exacting (.ofList [0]) rfl le_rfl Scalar.half_eq.le
  obtain ⟨hstatus, hiterations⟩ := hsuccess le_rfl le_rfl
  exact ⟨built_sprung, hasSPDTrees_pushed, unbounded_sprung, s, hs, positiveRegularization_sprung hs, x,
    hx, hstatus, hiterations, htries⟩

/-- No residual is within a negative tolerance, so the loose mass is not solved although it needs no
    more than one step. -/
theorem not_solved_with_negative_tolerance : loose.Built ∧ loose.HasSPDTrees ∧
    (∀ c ∈ loose.constraints.toList, c.Unbounded) ∧
    (∃ s, System.ofProblem? loose = some s ∧ s.PositiveRegularization) ∧
      1 ≤ exacting.maxIterations ∧ exacting.armijo ≤ 1 / 2 ∧
        ∃ x, loose.solve { exacting with absTolerance := -1 } (.ofList [1]) = .ok x ∧
        x.status ≠ .success := by
  obtain ⟨s, hs, -⟩ := built_loose.exists_system hasSPDTrees_pushed
  have hpositive : s.PositiveRegularization := by
    intro c hc
    obtain ⟨-, factors, hcouplings⟩ := System.eq_of_ofProblem? hs
    rw [hcouplings] at hc
    exact absurd hc List.not_mem_nil
  obtain ⟨x, hx⟩ := loose.exists_solve { exacting with absTolerance := -1 } (.ofList [1]) rfl
  have hstatus := Problem.status_ne_success hx neg_one_lt_zero le_rfl
  exact ⟨built_loose, hasSPDTrees_pushed, nofun, ⟨s, hs, hpositive⟩, le_rfl, Scalar.half_eq.le, x,
    hx, hstatus⟩

end CompliantContact
