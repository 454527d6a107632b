import CompliantContact.Proofs.Solver.Solution

/-!
Equivalent systems.

Two systems are equivalent if at all velocities they have the same cost, forces and curvature, however
their constraints are written down. Newton's method takes the same course on both: the iterates stay at
the same velocities, and every decision on the way falls alike.
-/

namespace CompliantContact

namespace System

structure Equivalent (s t : System ℝ) : Prop where
  dynamics : t.dynamics = s.dynamics
  freeVelocities : t.freeVelocities = s.freeVelocities
  scaling : t.scaling = s.scaling
  cost : ∀ v, (t.evaluate v).cost = (s.evaluate v).cost
  forces : ∀ v, t.impulseForces (t.evaluate v).responses = s.impulseForces (s.evaluate v).responses
  curvature : ∀ v, t.curvature (t.evaluate v) = s.curvature (s.evaluate v)

/-- Iterates at the same velocities, after the same work. -/
structure Abreast (s t : System ℝ) (it it' : Iterate ℝ) : Prop where
  first : s.Evaluated it
  second : t.Evaluated it'
  v : it'.v = it.v
  iterations : it'.iterations = it.iterations
  lineSearchIterations : it'.lineSearchIterations = it.lineSearchIterations

namespace Equivalent

variable {s t : System ℝ} {config : SolverConfig ℝ} {it it' : Iterate ℝ} {v dv : Vec ℝ}

theorem gradient (h : s.Equivalent t) (v : Vec ℝ) : (t.evaluate v).gradient = (s.evaluate v).gradient := by
  show t.dynamics.mulVec (v - t.freeVelocities) - t.impulseForces (t.evaluate v).responses =
    s.dynamics.mulVec (v - s.freeVelocities) - s.impulseForces (s.evaluate v).responses
  rw [h.dynamics, h.freeVelocities, h.forces]

theorem residual (h : s.Equivalent t) (v : Vec ℝ) :
    t.residual (t.evaluate v) = s.residual (s.evaluate v) := by
  rw [System.residual, System.residual, h.gradient, h.scaling]

theorem momentumScale (h : s.Equivalent t) (v : Vec ℝ) :
    t.momentumScale v (t.evaluate v) = s.momentumScale v (s.evaluate v) := by
  rw [System.momentumScale, System.momentumScale, h.dynamics, h.scaling, h.forces]

theorem direction? (h : s.Equivalent t) (v : Vec ℝ) :
    t.direction? (t.evaluate v) = s.direction? (s.evaluate v) := by
  rw [System.direction?, System.direction?, h.curvature, h.gradient]

theorem abreast_start (h : s.Equivalent t) (hv : v.size = s.freeVelocities.size) :
    Abreast s t ⟨v, s.evaluate v, 0, 0⟩ ⟨v, t.evaluate v, 0, 0⟩ where
  first := ⟨hv, rfl⟩
  second := ⟨hv.trans (congrArg Vec.size h.freeVelocities.symm), rfl⟩
  v := rfl
  iterations := rfl
  lineSearchIterations := rfl

/-- Both line searches stop at the same step after the same number of tries. -/
theorem lineSearch (h : s.Equivalent t) (config : SolverConfig ℝ) (v dv : Vec ℝ)
    {current current' : Evaluation ℝ}
    (hcurrent : current'.cost = current.cost) (slope : ℝ) (remaining : ℕ) (x x' : Trial ℝ)
    (hx : x.evaluation = s.evaluate (v + dv * x.step))
    (hx' : x'.evaluation = t.evaluate (v + dv * x'.step)) (hstep : x'.step = x.step)
    (htries : x'.tries = x.tries) :
    (t.lineSearch config v dv current' slope remaining x').step =
      (s.lineSearch config v dv current slope remaining x).step ∧
      (t.lineSearch config v dv current' slope remaining x').tries =
        (s.lineSearch config v dv current slope remaining x).tries := by
  induction remaining generalizing x x' with
  | zero => exact ⟨hstep, htries⟩
  | succ remaining ih =>
    have haccepts : accepts config current' slope x' = accepts config current slope x := by
      rw [accepts, accepts, hx, hx', hstep, hcurrent, h.cost]
    rw [System.lineSearch, System.lineSearch, haccepts]
    split
    · exact ⟨hstep, htries⟩
    · exact ih _ _ rfl rfl (congrArg (· * config.backtracking) hstep) (congrArg (· + 1) htries)

theorem advance (h : s.Equivalent t) (hit : Abreast s t it it') (dv : Vec ℝ) :
    Abreast s t (s.advance config it dv) (t.advance config it' dv) := by
  have hcost : it'.evaluation.cost = it.evaluation.cost := by
    rw [hit.first.evaluation, hit.second.evaluation, hit.v, h.cost]
  have hslope : it'.evaluation.gradient.dot dv = it.evaluation.gradient.dot dv := by
    rw [hit.first.evaluation, hit.second.evaluation, hit.v, h.gradient]
  have hone : dv * (1 : ℝ) = dv := Vec.ext Vec.size_mul fun i _ => by rw [Vec.get_mul, mul_one]
  obtain ⟨hstep, htries⟩ := h.lineSearch config it.v dv hcost (it.evaluation.gradient.dot dv)
    config.lineSearchMaxIterations ⟨1, s.evaluate (it.v + dv), 0⟩ ⟨1, t.evaluate (it.v + dv), 0⟩
      (by rw [hone]) (by rw [hone]) rfl rfl
  refine ⟨hit.first.advance dv, hit.second.advance dv, ?_, ?_, ?_⟩
  · simp only [System.advance, hit.v, hslope, hstep]
  · simp only [System.advance, hit.iterations]
  · simp only [System.advance, hit.v, hslope, htries, hit.lineSearchIterations]

theorem converged (h : s.Equivalent t) (hit : Abreast s t it it') :
    t.converged config it' = s.converged config it := by
  rw [System.converged, System.converged, hit.first.evaluation, hit.second.evaluation, hit.v,
    h.residual, h.momentumScale]

/-- By induction on the iterations that remain. -/
theorem newton (h : s.Equivalent t) (config : SolverConfig ℝ) (remaining : ℕ) (hit : Abreast s t it it') :
    (t.newton config remaining it').1 = (s.newton config remaining it).1 ∧
      Abreast s t (s.newton config remaining it).2 (t.newton config remaining it').2 := by
  induction remaining generalizing it it' with
  | zero =>
    rw [System.newton, System.newton, Evaluation.isFinite_eq, Evaluation.isFinite_eq, h.converged hit]
    split_ifs <;> exact ⟨rfl, hit⟩
  | succ remaining ih =>
    have hdirection : t.direction? it'.evaluation = s.direction? it.evaluation := by
      rw [hit.first.evaluation, hit.second.evaluation, hit.v, h.direction?]
    rw [System.newton, System.newton, Evaluation.isFinite_eq, Evaluation.isFinite_eq,
      h.converged hit, hdirection]
    split
    · exact ⟨rfl, hit⟩
    · split
      · exact ⟨rfl, hit⟩
      · cases s.direction? it.evaluation with
        | none => exact ⟨rfl, hit⟩
        | some dv => exact ih (h.advance hit dv)

end Equivalent

end System

/-- Two solves that took the same course. -/
structure Solution.Alike (x y : Solution ℝ) : Prop where
  v : y.v = x.v
  status : y.status = x.status
  iterations : y.iterations = x.iterations
  lineSearchIterations : y.lineSearchIterations = x.lineSearchIterations
  cost : y.cost = x.cost
  residual : y.residual = x.residual

namespace Problem

variable {p q : Problem ℝ} {config : SolverConfig ℝ} {guess : Vec ℝ} {x : Solution ℝ}

/-- Problems with equivalent systems, or with none, are solved alike. -/
theorem solve_alike (hsize : q.numVelocities = p.numVelocities)
    (hnone : System.ofProblem? p = none → System.ofProblem? q = none)
    (hsome : ∀ s, System.ofProblem? p = some s → s.freeVelocities.size = p.numVelocities ∧
      ∃ t, System.ofProblem? q = some t ∧ s.Equivalent t)
    (hx : p.solve config guess = .ok x) : ∃ y, q.solve config guess = .ok y ∧ x.Alike y := by
  have hguess := size_of_solve hx
  cases hs : System.ofProblem? p with
  | none =>
    rw [solve_eq_failed hs hguess] at hx
    cases hx
    exact ⟨_, solve_eq_failed (hnone hs) (hsize.trans hguess) config, rfl, rfl, rfl, rfl, rfl, rfl⟩
  | some s =>
    obtain ⟨hfree, t, ht, hequivalent⟩ := hsome s hs
    rw [solve_eq_newton hs hguess] at hx
    cases hx
    obtain ⟨hstatus, hend⟩ := hequivalent.newton config config.maxIterations
      (hequivalent.abreast_start (hguess.symm.trans hfree.symm))
    refine ⟨_, solve_eq_newton ht (hsize.trans hguess) config, hend.v, hstatus, hend.iterations,
      hend.lineSearchIterations, ?_, ?_⟩
    · show some _ = some _
      rw [hend.first.evaluation, hend.second.evaluation, hend.v, hequivalent.cost]
    · show some _ = some _
      rw [hend.first.evaluation, hend.second.evaluation, hend.v, hequivalent.residual]

end Problem

end CompliantContact
