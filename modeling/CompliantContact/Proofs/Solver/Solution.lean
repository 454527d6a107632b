import CompliantContact.Proofs.Dense.Stack
import CompliantContact.Proofs.Solver.Newton

/-!
What a solution says at its velocities.

A solve that got as far as its iteration reports the impulses and the constraint velocities of the
velocities that it returns, whatever the line search has done before, and one that succeeded has passed
the test of its tolerances there. The rest of a solution is in terms of the Jacobian of all equations.
-/

namespace CompliantContact

open Finset

/-- The Jacobian of all equations of a problem, in the order of the constraints. -/
noncomputable def Problem.jacobian (p : Problem ℝ) : Mat ℝ :=
  .stack p.numVelocities (p.constraints.toList.map p.constraintJacobian)

/-- The first equation of a constraint. -/
def Problem.equationStart (p : Problem ℝ) (k : ℕ) : ℕ :=
  total ((p.constraints.toList.take k).map Constraint.numEquations)

/-- The equations of a constraint are among all. -/
theorem Problem.equationStart_add_le {p : Problem ℝ} {k : ℕ} {c : Constraint ℝ}
    (hc : p.constraint? k = some c) :
    p.equationStart k + c.numEquations ≤ p.numEquations := by
  rw [Problem.constraint?_eq] at hc
  have hsize : (p.constraints.toList.map Constraint.numEquations)[k]? = some c.numEquations := by
    rw [List.getElem?_map, hc, Option.map_some]
  have hle := total_take_add_le hsize
  rw [← List.map_take] at hle
  exact hle

/-- The impulses of all equations at given velocities. -/
noncomputable def System.impulses (s : System ℝ) (v : Vec ℝ) : Vec ℝ :=
  .concat (s.couplings.map fun c => c.impulse v)

theorem Problem.rows_jacobian (p : Problem ℝ) : p.jacobian.rows = p.numEquations := by
  show total ((p.constraints.toList.map p.constraintJacobian).map Mat.rows) = _
  rw [List.map_map]
  rfl

namespace System

variable {p : Problem ℝ} {s : System ℝ} {v : Vec ℝ} {config : SolverConfig ℝ}

/-- What a system takes over from its problem. -/
structure Of (s : System ℝ) (p : Problem ℝ) : Prop where
  dynamics : s.dynamics = p.dynamicsMatrix
  freeVelocities : s.freeVelocities = p.freeVelocities
  scaling : s.scaling = p.dynamicsMatrix.diagonal.map fun x => 1 / Scalar.sqrt x
  couplings : ∃ factors, s.couplings = p.constraints.toList.map (Coupling.ofConstraint p factors)

theorem of_ofProblem? (h : ofProblem? p = some s) : s.Of p := by
  obtain ⟨factors, -, rfl⟩ := ofProblem?_eq_some h
  exact ⟨rfl, rfl, rfl, factors.toArray, rfl⟩

theorem Of.constraints (h : s.Of p) : s.couplings.map Coupling.constraint = p.constraints.toList := by
  obtain ⟨factors, hcouplings⟩ := h.couplings
  rw [hcouplings, List.map_map]
  exact List.map_id' _

theorem Of.jacobians (h : s.Of p) : s.couplings.map Coupling.jacobian =
    p.constraints.toList.map p.constraintJacobian := by
  obtain ⟨factors, hcouplings⟩ := h.couplings
  rw [hcouplings, List.map_map]
  rfl

theorem Of.jacobian (h : s.Of p) :
    p.jacobian = .stack p.numVelocities (s.couplings.map Coupling.jacobian) := by
  rw [h.jacobians, Problem.jacobian]

theorem impulses_evaluate (s : System ℝ) (v : Vec ℝ) : (s.evaluate v).impulses = s.impulses v := by
  show Vec.concat ((s.couplings.map (·.respond v)).map _) = _
  rw [List.map_map]
  rfl

theorem Of.mulVec_jacobian (h : s.Of p) (v : Vec ℝ) :
    p.jacobian.mulVec v = .concat (s.couplings.map fun c => c.jacobian.mulVec v) := by
  have hcols : ∀ m ∈ s.couplings.map Coupling.jacobian, m.cols = p.numVelocities := by
    intro m hm
    rw [h.jacobians] at hm
    obtain ⟨c, -, rfl⟩ := List.mem_map.mp hm
    rfl
  rw [h.jacobian, Mat.mulVec_stack hcols, List.map_map]
  rfl

theorem Of.velocities_evaluate (h : s.Of p) (v : Vec ℝ) :
    (s.evaluate v).velocities = p.jacobian.mulVec v := by
  rw [h.mulVec_jacobian]
  show Vec.concat ((s.couplings.map (·.respond v)).map _) = _
  rw [List.map_map]
  rfl

/-- The forces of the impulses are what the transpose of the Jacobian makes of them. -/
theorem Of.impulseForces_evaluate (h : s.Of p)
    (hsizes : ∀ c ∈ s.couplings, (c.impulse v).size = c.jacobian.rows) :
    s.impulseForces (s.evaluate v).responses = p.jacobian.transposeMulVec (s.impulses v) := by
  have hsize : s.freeVelocities.size = p.numVelocities := congrArg Vec.size h.freeVelocities
  refine Vec.ext ?_ fun j hj => ?_
  · rw [impulseForces, Vec.size_ofFn, hsize, Mat.transposeMulVec, Vec.size_ofFn]
    rfl
  have hj : j < s.freeVelocities.size := by rwa [impulseForces, Vec.size_ofFn] at hj
  rw [impulseForces, Vec.get_ofFn_of_lt hj, listSum_flatMap s v fun c r => c.rowForces r j,
    h.jacobian, impulses,
    Mat.transposeMulVec_stack hsizes (hsize ▸ hj)]
  exact congrArg List.sum (List.map_congr_left fun c _ => Scalar.sum_map_range _ _)

/-- A loop that ends with success ends within the tolerances. -/
theorem converged_of_success (remaining : ℕ) (it : Iterate ℝ)
    (h : (s.newton config remaining it).1 = .success) :
    s.converged config (s.newton config remaining it).2 = true := by
  induction remaining generalizing it with
  | zero =>
    rw [newton] at h ⊢
    split_ifs at h ⊢ with hfinite hconverged
    exact hconverged
  | succ remaining ih =>
    rw [newton] at h ⊢
    split_ifs at h ⊢ with hfinite hconverged
    · exact hconverged
    · cases hdirection : s.direction? it.evaluation with
      | none =>
        simp only [hdirection] at h
        cases h
      | some dv =>
        simp only [hdirection] at h
        exact ih _ h

end System

/-- What a solve reports of its last iterate. -/
structure Solution.Reports (x : Solution ℝ) (p : Problem ℝ) (s : System ℝ)
    (config : SolverConfig ℝ) : Prop where
  size : x.v.size = p.numVelocities
  velocities : x.velocities = p.jacobian.mulVec x.v
  impulses : x.impulses = s.impulses x.v
  converged : x.status = .success → s.residual (s.evaluate x.v) ≤
    config.absTolerance + config.relTolerance * s.momentumScale x.v (s.evaluate x.v)

namespace Problem

variable {p : Problem ℝ} {config : SolverConfig ℝ} {guess : Vec ℝ} {x : Solution ℝ}

/-- A solve that got as far as its iteration has a cost to report. -/
theorem solve_eq_ok (h : p.solve config guess = .ok x) (hstarted : x.cost.isSome = true) :
    ∃ s, System.ofProblem? p = some s ∧ x.Reports p s config := by
  have hguess := size_of_solve h
  cases hs : System.ofProblem? p with
  | none =>
    rw [solve_eq_failed hs hguess] at h
    cases h
    cases hstarted
  | some s =>
    have hof := System.of_ofProblem? hs
    have hsize : s.freeVelocities.size = p.numVelocities := congrArg Vec.size hof.freeVelocities
    have hstart : s.Evaluated ⟨guess, s.evaluate guess, 0, 0⟩ := ⟨by rw [hsize]; exact hguess.symm, rfl⟩
    have hend := hstart.newton config config.maxIterations
    have hconverged : (s.newton config config.maxIterations ⟨guess, s.evaluate guess, 0, 0⟩).1 = .success →
        s.converged config (s.newton config config.maxIterations ⟨guess, s.evaluate guess, 0, 0⟩).2 = true :=
      System.converged_of_success _ _
    rw [solve_eq_newton hs hguess] at h
    cases h
    refine ⟨s, rfl, hend.size.trans hsize, ?_, ?_, fun hsuccess => ?_⟩
    · rw [← hof.velocities_evaluate, Solution.ofIterate, hend.evaluation]
    · rw [← System.impulses_evaluate, Solution.ofIterate, hend.evaluation]
    · have h := hconverged hsuccess
      rw [System.converged, decide_eq_true_eq, hend.evaluation] at h
      exact h

/-- A solve that succeeded got as far as that. -/
theorem cost_isSome_of_success (h : p.solve config guess = .ok x) (hsuccess : x.status = .success) :
    x.cost.isSome = true := by
  have hguess := size_of_solve h
  cases hs : System.ofProblem? p with
  | none =>
    rw [solve_eq_failed hs hguess] at h
    cases h
    cases hsuccess
  | some s =>
    rw [solve_eq_newton hs hguess] at h
    cases h
    rfl

end Problem

/-! ### Solves that end at the velocities of free motion -/

namespace System

variable {s : System ℝ} {config : SolverConfig ℝ}

/-- There is no change of momentum yet, so what is left of it is as large as the forces. -/
theorem Regular.residual_free (h : s.Regular) : s.residual (s.evaluate s.freeVelocities) =
    ((s.impulseForces (s.evaluate s.freeVelocities).responses).hadamard s.scaling).norm := by
  have hforces : (s.impulseForces (s.evaluate s.freeVelocities).responses).size =
    s.freeVelocities.size := Vec.size_ofFn ..
  rw [residual, Vec.norm_eq, Vec.norm_eq, Vec.size_hadamard, Vec.size_hadamard, size_gradient h, hforces]
  refine congrArg _ (sum_congr rfl fun i hi => ?_)
  have hrow : i < s.dynamics.rows := h.rows ▸ mem_range.mp hi
  have hmomentum : s.dynamics.mulVec (s.freeVelocities - s.freeVelocities) i = 0 := by
    rw [Mat.get_mulVec hrow]
    refine sum_eq_zero fun j hj => ?_
    rw [Vec.get_sub (by rw [← h.rows, ← h.dynamics.square]; exact mem_range.mp hj), sub_self, mul_zero]
  have hgradient : (s.evaluate s.freeVelocities).gradient i =
      -s.impulseForces (s.evaluate s.freeVelocities).responses i := by
    show (s.dynamics.mulVec (s.freeVelocities - s.freeVelocities) -
      s.impulseForces (s.evaluate s.freeVelocities).responses) i = _
    rw [Vec.get_sub (by rwa [Mat.size_mulVec]), hmomentum, zero_sub]
  rw [Vec.get_hadamard, Vec.get_hadamard, hgradient, neg_mul, neg_sq]

theorem Regular.newton_free (h : s.Regular) (habs : 0 ≤ config.absTolerance) (hrel : 1 ≤ config.relTolerance)
    (remaining : ℕ) : s.newton config remaining ⟨s.freeVelocities, s.evaluate s.freeVelocities, 0, 0⟩ =
      (.success, ⟨s.freeVelocities, s.evaluate s.freeVelocities, 0, 0⟩) := by
  have hconverged : s.converged config ⟨s.freeVelocities, s.evaluate s.freeVelocities, 0, 0⟩ = true := by
    rw [converged, decide_eq_true_eq, h.residual_free, momentumScale, Scalar.larger_eq_max]
    set forces := ((s.impulseForces (s.evaluate s.freeVelocities).responses).hadamard s.scaling).norm
    have hforces : 0 ≤ forces := Real.sqrt_nonneg _
    calc forces ≤ config.relTolerance * forces := le_mul_of_one_le_left hforces hrel
      _ ≤ config.relTolerance * max ((s.dynamics.mulVec s.freeVelocities).hadamard s.scaling).norm forces :=
        mul_le_mul_of_nonneg_left (le_max_right ..) (zero_le_one.trans hrel)
      _ ≤ config.absTolerance + _ := le_add_of_nonneg_left habs
  exact newton_of_converged hconverged remaining

end System

/-- With tolerances as large as the momenta, a solve that starts at free motion ends there. -/
theorem Problem.Built.solve_free {p : Problem ℝ} (hp : p.Built) (htrees : p.HasSPDTrees)
    {config : SolverConfig ℝ} (habs : 0 ≤ config.absTolerance) (hrel : 1 ≤ config.relTolerance) :
    ∃ x, p.solve config p.freeVelocities = .ok x ∧ x.status = .success ∧ x.v = p.freeVelocities := by
  obtain ⟨s, hs, hregular, hfree⟩ := hp.exists_system htrees
  have hnewton := hregular.newton_free habs hrel config.maxIterations
  rw [hfree] at hnewton
  exact ⟨_, solve_eq_newton hs rfl config, congrArg Prod.fst hnewton, congrArg (Iterate.v ∘ Prod.snd) hnewton⟩

end CompliantContact
