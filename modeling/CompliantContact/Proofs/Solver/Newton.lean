import CompliantContact.Proofs.Solver.Evaluate
import CompliantContact.Solver.Newton

/-!
What every iterate of a solve satisfies, and how a solve ends.

The evaluation beside an iterate is that of its velocities. All numbers are finite, so a problem with a
system is solved by its iteration, and one without it is not solved at all.
-/

namespace CompliantContact

namespace System

variable {s : System ℝ} {config : SolverConfig ℝ} {v dv : Vec ℝ} {current : Evaluation ℝ} {slope : ℝ}

/-- An iterate with the evaluation of its velocities. -/
structure Evaluated (s : System ℝ) (it : Iterate ℝ) : Prop where
  size : it.v.size = s.freeVelocities.size
  evaluation : it.evaluation = s.evaluate it.v

theorem lineSearch_evaluation (remaining : ℕ) (t : Trial ℝ)
    (h : t.evaluation = s.evaluate (v + dv * t.step)) :
    (s.lineSearch config v dv current slope remaining t).evaluation =
      s.evaluate (v + dv * (s.lineSearch config v dv current slope remaining t).step) := by
  induction remaining generalizing t with
  | zero => exact h
  | succ remaining ih =>
    rw [lineSearch]
    split
    · exact h
    · exact ih _ rfl

theorem Evaluated.advance {it : Iterate ℝ} (h : s.Evaluated it) (dv : Vec ℝ) :
    s.Evaluated (s.advance config it dv) where
  size := by
    rw [System.advance]
    exact Vec.size_add.trans h.size
  evaluation := by
    refine lineSearch_evaluation _ _ ?_
    have hone : dv * (1 : ℝ) = dv := Vec.ext Vec.size_mul fun i _ => by rw [Vec.get_mul, mul_one]
    rw [hone]

/-- A loop that ends ends with such an iterate. -/
theorem Evaluated.newton {it : Iterate ℝ} (h : s.Evaluated it) (config : SolverConfig ℝ) (remaining : ℕ) :
    s.Evaluated (s.newton config remaining it).2 := by
  induction remaining generalizing it with
  | zero =>
    rw [System.newton]
    split_ifs <;> exact h
  | succ remaining ih =>
    rw [System.newton]
    split
    · exact h
    · split
      · exact h
      · cases s.direction? it.evaluation with
        | none => exact h
        | some dv => exact ih (h.advance dv)

end System

/-! ### The end of a solve -/

theorem Evaluation.isFinite_eq (e : Evaluation ℝ) : e.isFinite = true := by
  simp [isFinite, Vec.isFinite]

theorem System.isFinite_eq (s : System ℝ) : s.isFinite = true := by
  simp [isFinite, Vec.isFinite, Mat.isFinite, Coupling.isFinite]

theorem System.newton_of_converged {s : System ℝ} {config : SolverConfig ℝ} {it : Iterate ℝ}
    (h : s.converged config it = true) (remaining : ℕ) : s.newton config remaining it = (.success, it) := by
  cases remaining <;> simp [newton, Evaluation.isFinite_eq, h]

namespace Problem

variable {p : Problem ℝ} {s : System ℝ} {config : SolverConfig ℝ} {guess : Vec ℝ} {x : Solution ℝ}

theorem size_of_solve (h : p.solve config guess = .ok x) : p.numVelocities = guess.size := by
  rw [solve, Outcome.bind_eq_ok_iff] at h
  obtain ⟨_, hguess, -⟩ := h
  exact requireSize_eq_ok_iff.mp hguess

theorem solve_eq_failed (hnone : System.ofProblem? p = none) (hguess : p.numVelocities = guess.size)
    (config : SolverConfig ℝ) : p.solve config guess = .ok (.failed p guess .notPositiveDefinite) := by
  rw [solve, Outcome.bind_eq_ok_iff]
  refine ⟨(), requireSize_eq_ok_iff.mpr hguess, ?_⟩
  rw [hnone]
  rfl

theorem solve_eq_newton (hs : System.ofProblem? p = some s) (hguess : p.numVelocities = guess.size)
    (config : SolverConfig ℝ) :
    p.solve config guess =
      .ok (.ofIterate s (s.newton config config.maxIterations ⟨guess, s.evaluate guess, 0, 0⟩).1
      (s.newton config config.maxIterations ⟨guess, s.evaluate guess, 0, 0⟩).2) := by
  have hfinite : guess.isFinite = true := by simp [Vec.isFinite]
  rw [solve, Outcome.bind_eq_ok_iff]
  refine ⟨(), requireSize_eq_ok_iff.mpr hguess, ?_⟩
  simp only [hs, s.isFinite_eq, hfinite, and_self, not_true_eq_false, ↓reduceIte]
  rfl

/-- Only a guess of the wrong size is an error. -/
theorem exists_solve (p : Problem ℝ) (config : SolverConfig ℝ) (guess : Vec ℝ)
    (hguess : p.numVelocities = guess.size) :
    ∃ x, p.solve config guess = .ok x := by
  cases hs : System.ofProblem? p with
  | none => exact ⟨_, solve_eq_failed hs hguess config⟩
  | some s => exact ⟨_, solve_eq_newton hs hguess config⟩

/-- An answer that succeeded reports the residual at its velocities. -/
theorem residual_of_success (hs : System.ofProblem? p = some s) (hsize : s.freeVelocities = p.freeVelocities)
    (hx : p.solve config guess = .ok x) (hsuccess : x.status = .success) :
    x.v.size = s.freeVelocities.size ∧ x.residual = some (s.residual (s.evaluate x.v)) := by
  have hguess := size_of_solve hx
  have hstart : s.Evaluated ⟨guess, s.evaluate guess, 0, 0⟩ := ⟨by rw [hsize]; exact hguess.symm, rfl⟩
  have hend := hstart.newton config config.maxIterations
  rw [solve_eq_newton hs hguess] at hx
  cases hx
  exact ⟨hend.size, by rw [Solution.ofIterate, hend.evaluation]⟩

end Problem

end CompliantContact
