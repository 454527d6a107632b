import CompliantContact.Proofs.Constraint.Slope
import CompliantContact.Proofs.Dense.Solve
import CompliantContact.Proofs.Solver.Monotone

/-!
The curvature of the cost is positive definite.

Every slope is positive semidefinite, so with positive regularization the curvature has a Cholesky
factor at all velocities, and the Newton direction goes down wherever there is a gradient to go down.
The loop of Newton's method never stops for want of a factor: a solve that reports a matrix that is not
positive definite has found it among those of the trees (`newton_direction_descends`).
-/

namespace CompliantContact

open Finset

namespace Coupling

variable {c : Coupling ℝ}

theorem Regular.isPSD_slope (h : c.Regular) (hr : ∀ i < c.constraint.numEquations, 0 < c.r i) (v : Vec ℝ) :
    (c.respond v).projection.slope.IsPSD :=
  Constraint.isPSD_slope h.inRange ⟨hr, h.weighs.tangents, fun _ => h.rInv_get⟩
    ((c.size_unconstrained v).trans h.rows)

theorem Regular.rows_slope (h : c.Regular) (v : Vec ℝ) :
    (c.respond v).projection.slope.rows = c.jacobian.rows :=
  (Constraint.rows_slope h.inRange ((c.size_unconstrained v).trans h.rows)).trans h.rows.symm

theorem Regular.isPSD_curvature (h : c.Regular) (hr : ∀ i < c.constraint.numEquations, 0 < c.r i)
    (v : Vec ℝ) :
    (c.curvature (c.respond v)).IsPSD := (h.isPSD_slope hr v).transpose_mul_mul (h.rows_slope v)

end Coupling

namespace System

variable {s : System ℝ} {v dv : Vec ℝ}

theorem Regular.isSPD_curvature (h : s.Regular) (hr : s.PositiveRegularization) (v : Vec ℝ) :
    (s.curvature (s.evaluate v)).IsSPD := by
  rw [curvature_evaluate]
  refine h.dynamics.foldl_add fun n hn => ?_
  obtain ⟨c, hc, rfl⟩ := List.mem_map.mp hn
  exact ⟨(h.couplings c hc).isPSD_curvature (hr c hc) v, (h.cols c hc).trans h.rows.symm⟩

theorem Regular.rows_curvature (h : s.Regular) (v : Vec ℝ) :
    (s.curvature (s.evaluate v)).rows = s.freeVelocities.size := by
  rw [curvature_evaluate]
  exact (Mat.foldl_add ..).1.trans h.rows

/-- The step that takes the gradient to zero, if the curvature stays as it is. -/
structure NewtonStep (s : System ℝ) (v dv : Vec ℝ) : Prop where
  size : dv.size = s.freeVelocities.size
  solves : ∀ i < s.freeVelocities.size,
    ∑ j ∈ range s.freeVelocities.size, s.curvature (s.evaluate v) i j * dv j = -(s.evaluate v).gradient i

theorem Regular.exists_newtonStep (h : s.Regular) (hr : s.PositiveRegularization) (v : Vec ℝ) :
    ∃ dv, s.direction? (s.evaluate v) = some dv ∧ s.NewtonStep v dv := by
  have hspd := h.isSPD_curvature hr v
  have hrows := h.rows_curvature v
  obtain ⟨l, hl, hfactored⟩ := Cholesky.exists_factor hspd
  have hsize : (Cholesky.solve l (-(s.evaluate v).gradient)).size = s.freeVelocities.size := by
    rw [Cholesky.solve, Vec.size_append, Cholesky.size_solveUpper, Vec.slice, Vec.size_ofFn,
      Vec.size_neg, size_gradient h,
      hfactored.rows, hrows, Nat.sub_self, Nat.add_zero]
  refine ⟨_, by rw [direction?, hl, Option.map_some], hsize, fun i hi => ?_⟩
  rw [← hrows, Cholesky.sum_mul_solve_eq hspd.square hspd.symm hl _ (hrows ▸ hi), Vec.get_neg]

/-- Along a Newton step the gradient does the opposite of what the curvature does. -/
theorem NewtonStep.gradient_dot (hstep : s.NewtonStep v dv) (h : s.Regular) :
    (s.evaluate v).gradient.dot dv = -(s.curvature (s.evaluate v)).quad dv := by
  rw [Vec.dot_eq, size_gradient h, Mat.quad_eq_sum, h.rows_curvature, ← sum_neg_distrib]
  refine sum_congr rfl fun i hi => ?_
  rw [hstep.solves i (mem_range.mp hi)]
  ring

theorem NewtonStep.descends (hstep : s.NewtonStep v dv) (h : s.Regular) (hr : s.PositiveRegularization)
    (hgradient : (s.evaluate v).gradient ≠ .zeros s.freeVelocities.size) :
    (s.evaluate v).gradient.dot dv < 0 := by
  rw [hstep.gradient_dot h, neg_lt_zero]
  refine (h.isSPD_curvature hr v).pos dv ?_
  rw [h.rows_curvature]
  by_contra hzero
  push Not at hzero
  refine hgradient (Vec.ext ((size_gradient h).trans (Vec.size_zeros _).symm) fun i hi => ?_)
  have hsolves := hstep.solves i (size_gradient h ▸ hi)
  rw [sum_eq_zero fun j hj => by rw [hzero j (mem_range.mp hj), mul_zero]] at hsolves
  rw [Vec.get_zeros, ← neg_eq_zero, ← hsolves]

/-- At every iterate the curvature has a factor, so the loop does not end for want of one. -/
theorem Evaluated.status_newton {it : Iterate ℝ} (hit : s.Evaluated it) (h : s.Regular)
    (hr : s.PositiveRegularization)
    (config : SolverConfig ℝ) (remaining : ℕ) : (s.newton config remaining it).1 ≠ .notPositiveDefinite := by
  induction remaining generalizing it with
  | zero =>
    rw [System.newton]
    split_ifs <;> simp
  | succ remaining ih =>
    obtain ⟨dv, hdv, -⟩ := h.exists_newtonStep hr it.v
    rw [← hit.evaluation] at hdv
    rw [System.newton]
    split
    · simp
    · split
      · simp
      · simp only [hdv]
        exact ih (hit.advance dv)

end System

/-- There is no system exactly if the matrix of a tree is not positive definite. -/
theorem Problem.Built.ofProblem?_eq_none_iff {p : Problem ℝ} (hp : p.Built)
    (hsymm : ∀ a ∈ p.dynamics.toList, ∀ i j, a i j = a j i) : System.ofProblem? p = none ↔
    ¬ p.HasSPDTrees := by
  constructor
  · intro hnone htrees
    obtain ⟨s, hs, -⟩ := hp.exists_system htrees
    cases hnone.symm.trans hs
  · intro htrees
    rw [Option.eq_none_iff_forall_ne_some]
    intro s hs
    obtain ⟨factors, hfactors, -⟩ := System.ofProblem?_eq_some hs
    refine htrees fun a ha => ?_
    obtain ⟨t, ht⟩ := List.getElem?_of_mem ha
    obtain ⟨l, hl, -⟩ := exists_of_mapM hfactors ht
    exact Cholesky.isSPD_of_factor? (hp.square a ha) (hsymm a ha) hl

/-- Where the matrices of the trees are symmetric and the regularization is positive: there is a system
    exactly if the matrices are positive definite. At all velocities its curvature is symmetric positive
    definite, since the slope of each constraint is positive semidefinite, and the Newton direction
    exists and goes down unless the gradient is zero. So a solve reports a matrix that is not positive
    definite only if there is no system. -/
theorem newton_direction_descends {p : Problem ℝ} (hp : p.Built)
    (hsymm : ∀ a ∈ p.dynamics.toList, ∀ i j, a i j = a j i)
    (hr : ∀ s, System.ofProblem? p = some s → s.PositiveRegularization) :
    (System.ofProblem? p = none ↔ ¬ p.HasSPDTrees) ∧
    (∀ s, System.ofProblem? p = some s → ∀ v : Vec ℝ, v.size = p.numVelocities →
      (∀ c ∈ s.couplings, (c.respond v).projection.slope.IsPSD) ∧
      (s.curvature (s.evaluate v)).rows = p.numVelocities ∧ (s.curvature (s.evaluate v)).IsSPD ∧
      ∃ dv, s.direction? (s.evaluate v) = some dv ∧ dv.size = p.numVelocities ∧
        ((s.evaluate v).gradient ≠ .zeros p.numVelocities → (s.evaluate v).gradient.dot dv < 0)) ∧
    ∀ (config : SolverConfig ℝ) (guess : Vec ℝ) (x : Solution ℝ), p.solve config guess = .ok x →
      (x.status = .notPositiveDefinite ↔ System.ofProblem? p = none) := by
  have hnone := hp.ofProblem?_eq_none_iff hsymm
  have hregular : ∀ s, System.ofProblem? p = some s → s.Regular ∧
      s.freeVelocities.size = p.numVelocities := by
    intro s hs
    have htrees : p.HasSPDTrees := by
      by_contra h
      cases (hnone.mpr h).symm.trans hs
    obtain ⟨s', hs', hregular, hfree⟩ := hp.exists_system htrees
    obtain rfl : s' = s := Option.some.inj (hs'.symm.trans hs)
    exact ⟨hregular, congrArg Vec.size hfree⟩
  refine ⟨hnone, fun s hs v _ => ?_, fun config guess x hx => ⟨fun hstatus => ?_, fun h => ?_⟩⟩
  · obtain ⟨h, hsize⟩ := hregular s hs
    obtain ⟨dv, hdv, hstep⟩ := h.exists_newtonStep (hr s hs) v
    refine ⟨fun c hc => (h.couplings c hc).isPSD_slope (hr s hs c hc) v, (h.rows_curvature v).trans hsize,
      h.isSPD_curvature (hr s hs) v, dv, hdv, hstep.size.trans hsize, fun hgradient => ?_⟩
    exact hstep.descends h (hr s hs) (hsize ▸ hgradient)
  · cases hs : System.ofProblem? p with
    | none => rfl
    | some s =>
      obtain ⟨h, hsize⟩ := hregular s hs
      have hguess := Problem.size_of_solve hx
      have hstart : s.Evaluated ⟨guess, s.evaluate guess, 0, 0⟩ := ⟨hguess.symm.trans hsize.symm, rfl⟩
      rw [Problem.solve_eq_newton hs hguess] at hx
      cases hx
      exact absurd hstatus (hstart.status_newton h (hr s hs) config _)
  · rw [Problem.solve_eq_failed h (Problem.size_of_solve hx)] at hx
    cases hx
    rfl

/-- The Newton direction of the dragged mass goes down, whether the contact sticks, slides or separates. -/
theorem newton_direction_descends_dragged : dragged.Built ∧ dragged.HasSPDTrees ∧
    ∃ s, System.ofProblem? dragged = some s ∧ s.PositiveRegularization ∧ ∀ v : Vec ℝ, v.size = 1 →
      (∀ c ∈ s.couplings, (c.respond v).projection.slope.IsPSD) ∧ (s.curvature (s.evaluate v)).IsSPD ∧
      ∃ dv, s.direction? (s.evaluate v) = some dv ∧
        ((s.evaluate v).gradient ≠ .zeros 1 → (s.evaluate v).gradient.dot dv < 0) := by
  obtain ⟨s, hs, -⟩ := built_dragged.exists_system hasSPDTrees_pushed
  have hsymm : ∀ a ∈ dragged.dynamics.toList, ∀ i j, a i j = a j i := fun a ha =>
    (hasSPDTrees_pushed a ha).symm
  obtain ⟨-, hdirections, -⟩ := newton_direction_descends built_dragged hsymm fun _ =>
    positiveRegularization_dragged
  refine ⟨built_dragged, hasSPDTrees_pushed, s, hs, positiveRegularization_dragged hs, fun v hv => ?_⟩
  obtain ⟨hslopes, -, hcurvature, dv, hdv, -, hdescends⟩ := hdirections s hs v hv
  exact ⟨hslopes, hcurvature, dv, hdv, hdescends⟩

end CompliantContact
