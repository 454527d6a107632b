import CompliantContact.Proofs.Simulation.Faithful

/-!
Evaluation through a faithful cache gives what direct evaluation gives.

The stages are followed in their order. What is in progress while a stage is evaluated can only be a
later one (`After`), so that the stages without actuation never meet a loop. While the free accelerations
are in progress, a source of actuation meets loops at these and at the stages behind them
(`gives_whileFree`).
-/

namespace CompliantContact

variable {α : Type}

/-- Only stages after this one are in progress. -/
def After (busy : Stage → Bool) (stage : Stage) : Prop := ∀ t, busy t = true → stage.index.val < t.index.val

namespace After

variable {busy : Stage → Bool} {stage t : Stage}

theorem none_busy (stage : Stage) : After (fun _ => false) stage := fun _ h => by cases h

theorem idle (h : After busy stage) : busy stage = false := by
  cases hb : busy stage with
  | false => rfl
  | true => exact absurd (h stage hb) (Nat.lt_irrefl _)

theorem of_lt (h : After busy stage) (ht : t.index.val < stage.index.val) : After busy t := fun u hu =>
  Nat.lt_trans ht (h u hu)

theorem withStage (h : After busy t) (ht : t.index.val < stage.index.val) :
    After (withStage busy stage) t := by
  intro u hu
  rcases Bool.or_eq_true_iff.mp hu with hu | hu
  · rw [beq_iff_eq.mp hu]
    exact ht
  · exact h u hu

/-- What a stage meets that is evaluated for a later one. -/
theorem before (h : After busy stage) (ht : t.index.val < stage.index.val) :
    After (CompliantContact.withStage busy stage) t := (h.of_lt ht).withStage ht

end After

variable [Scalar α] {s : Simulator α} {c : Setting α} {held : Held α} {busy : Stage → Bool}

open Cached

theorem Gives.bind_error {β γ : Type} {work : Staged α β} {next : β → Staged α γ} {e : Failure α}
    (h : Gives s c held busy work (.error e)) : Gives s c held busy (work >>= next) (.error e) :=
  h.bind (f := fun _ => .error e) fun x hx => by cases hx

/-! ### Stages without actuation -/

theorem gives_kinematics (h : After busy .positionKinematics) :
    Gives s c held busy (s.evalPositionKinematics c) (Direct.kinematics s c held) :=
  .evalStage h.idle (fun _ => rfl) (.lift _) fun _ => .refl _

theorem gives_pairs (h : After busy .contactPairs) :
    Gives s c held busy (s.evalContactPairs c) (Direct.pairs s c held) := by
  refine .evalStage h.idle (fun _ => rfl) ?_ fun _ => .refl _
  exact (gives_kinematics (h.before (by decide))).bind fun _ _ => .lift _

theorem gives_contacts (h : After busy .contactKinematics) :
    Gives s c held busy (s.evalContactKinematics c) (Direct.contacts s c held) := by
  refine .evalStage h.idle (fun _ => rfl) ?_ fun _ => .refl _
  exact (gives_kinematics (h.before (by decide))).bind fun _ _ =>
    (gives_pairs (h.before (by decide))).bind fun _ _ => .lift _

theorem gives_linearDynamics (h : After busy .positionKinematics) :
    Gives s c held busy (s.evalLinearDynamics c) (Direct.linearDynamics s c held) :=
  (gives_kinematics h).bind fun _ _ => .lift _

/-! ### What a source of actuation reads -/

theorem Gives.outcome {β : Type} {work : Staged α β} {r : Outcome α β} (h : Gives s c held busy work r) :
    Gives s c held busy work.outcome (.ok r) := fun cache hc => by
  obtain ⟨hr, hP⟩ := h cache hc
  exact ⟨congrArg Except.ok hr, hP⟩

theorem gives_run {ask : Stage → Staged α (StageValue α)} {answer : Stage → Outcome α (StageValue α)}
    (h : ∀ stage, Gives s c held busy (ask stage) (answer stage)) (r : Reading α) :
    Gives s c held busy (r.run ask) (r.under answer) := by
  induction r with
  | done result => exact .lift result
  | read stage next ih =>
    refine (h stage).outcome.bind (f := fun x => (next x).under answer) fun x _ => ?_
    exact ih x

theorem gives_actuationAt {level : Nat} {answer : Stage → Outcome α (StageValue α)}
    (h : ∀ stage, Gives s c held busy (s.evalAnyUnder c (s.actuationAt c level) stage) (answer stage)) :
    Gives s c held busy (s.actuationAt c (level + 1)) (Direct.actuation c answer) := by
  rw [Simulator.actuationAt, Direct.actuation]
  cases c.actuation with
  | none => exact .pure _
  | fixed tau => exact .lift _
  | source source => exact (gives_run h _).bind fun _ _ => .lift _

theorem Faithful.stale_problem {cache : Cache (StageValue α)} (hfree : busy .freeAccelerations = true)
    (h : Faithful s c held busy cache) : cache.current? c.versions (Stage.index .problem) = none := by
  obtain ⟨e, he, -, hp⟩ := h.staged .problem
  refine h.sound.current?_eq_none he (j := Stage.index .freeAccelerations) ?_ ?_
  · rw [hp]
    simp [Stage.prerequisites]
  · exact h.sound.busy _ ((h.inProgress _).trans hfree)

theorem Faithful.stale_results {cache : Cache (StageValue α)} (hfree : busy .freeAccelerations = true)
    (h : Faithful s c held busy cache) : cache.current? c.versions (Stage.index .results) = none := by
  obtain ⟨e, he, -, hp⟩ := h.staged .results
  refine h.sound.current?_eq_none he (j := Stage.index .problem) ?_ ?_
  · rw [hp]
    simp [Stage.prerequisites]
  · exact Cache.isUpToDate_eq_false (h.stale_problem hfree)

section
variable (hfree : busy .freeAccelerations = true) (hafter : After busy .contactKinematics)
  (actuation : Staged α (Vec α))
include hfree

theorem gives_free_whileFree :
    Gives s c held busy (s.evalFreeAccelerationsUnder c actuation)
      (.error (Direct.loop s c .freeAccelerations)) :=
  .evalStage_busy hfree

include hafter

theorem gives_problem_whileFree :
    Gives s c held busy (s.evalProblemUnder c actuation)
      (.error (Direct.blocked s c held (busy .problem))) := by
  cases hidle : busy .problem with
  | true => exact .evalStage_busy hidle
  | false =>
    refine .evalStage_failing hidle (fun _ h => h.stale_problem hfree) ?_
    have hafter' : After (withStage busy .problem) .positionKinematics :=
      (hafter.of_lt (by decide)).withStage (by decide)
    have hdynamics : Gives s c held (withStage busy .problem) _ _ := gives_linearDynamics hafter'
    cases hm : Direct.linearDynamics s c held with
    | error e =>
      rw [hm] at hdynamics
      exact hdynamics.bind_error
    | ok m =>
      rw [hm] at hdynamics
      refine hdynamics.bind (f := fun _ => .error (Direct.loop s c .freeAccelerations)) fun _ _ => ?_
      refine (gives_free_whileFree ?_ actuation).bind_error
      rw [withStage_of_ne (by decide), hfree]

theorem gives_results_whileFree :
    Gives s c held busy (s.evalResultsUnder c actuation)
      (.error (if busy .results then Direct.loop s c .results
        else Direct.refused s c (Direct.blocked s c held (busy .problem)))) := by
  cases hidle : busy .results with
  | true => exact .evalStage_busy hidle
  | false =>
    refine .evalStage_failing hidle (fun _ h => h.stale_results hfree) ?_
    have hproblem : withStage busy .results .problem = busy .problem := withStage_of_ne (by decide)
    rw [← hproblem]
    exact (gives_problem_whileFree ((withStage_of_ne (by decide)).trans hfree) (hafter.withStage (by decide))
      actuation).bind_error

end

/-- What a source of actuation reads while the free accelerations are evaluated. -/
theorem gives_whileFree (asker : Asker) (actuation : Staged α (Vec α)) (stage : Stage) :
    Gives s c held (withStage asker.waiting .freeAccelerations) (s.evalAnyUnder c actuation stage)
      (Direct.answer s c held asker stage) := by
  have hfree : withStage asker.waiting .freeAccelerations .freeAccelerations = true := withStage_self _ _
  have hafter : After (withStage asker.waiting .freeAccelerations) .contactKinematics := by
    refine After.withStage (fun t ht => ?_) (by decide)
    cases asker <;> cases t <;> simp [Asker.waiting, Stage.index] at ht ⊢
  cases stage with
  | positionKinematics => exact (gives_kinematics (hafter.of_lt (by decide))).bind fun _ _ => .pure _
  | contactPairs => exact (gives_pairs (hafter.of_lt (by decide))).bind fun _ _ => .pure _
  | contactKinematics => exact (gives_contacts hafter).bind fun _ _ => .pure _
  | freeAccelerations => exact (gives_free_whileFree hfree actuation).bind_error
  | problem => exact (gives_problem_whileFree hfree hafter actuation).bind_error
  | results => exact (gives_results_whileFree hfree hafter actuation).bind_error

/-! ### Stages with actuation -/

section
variable (blind : c.actuation.Blind)
include blind

/-- The free accelerations, on whose behalf ever. A stage that waits for them has found the linear
    dynamics before. -/
theorem gives_free (asker : Asker) (h : asker ≠ .client → ∃ m, Direct.linearDynamics s c held = .ok m) :
    Gives s c held asker.waiting (s.evalFreeAccelerationsUnder c (s.actuationAt c 1))
      (Direct.free s c held asker) := by
  have hafter : After asker.waiting .freeAccelerations := by
    intro t ht
    cases asker <;> cases t <;> simp [Asker.waiting, Stage.index] at ht ⊢
  refine .evalStage hafter.idle (fun _ => rfl) ?_ fun _ => ?_
  · exact (gives_kinematics (hafter.before (by decide))).bind fun _ _ =>
      (gives_actuationAt (gives_whileFree asker _)).bind fun _ _ => .lift _
  · by_cases ha : asker = .client
    · rw [ha]
      exact .refl _
    · obtain ⟨m, hm⟩ := h ha
      exact (Direct.sameValue_workFree blind hm asker .client).bind fun _ _ => .refl _

/-- The problem, for a client or for the results. -/
theorem gives_problem (asker : Asker) (hidle : busy .problem = false)
    (hbusy : withStage busy .problem = asker.throughProblem.waiting) :
    Gives s c held busy (s.evalProblemUnder c (s.actuationAt c 1)) (Direct.problem s c held asker) := by
  have hafter : After (withStage busy .problem) .contactKinematics := by
    rw [hbusy]
    intro t ht
    cases asker <;> cases t <;> simp [Asker.throughProblem, Asker.waiting, Stage.index] at ht ⊢
  refine .evalStage hidle (fun _ => rfl) ?_ fun _ => ?_
  · refine (gives_linearDynamics (hafter.of_lt (by decide))).bind fun m hm => ?_
    have hfree := gives_free blind asker.throughProblem fun _ => ⟨m, hm⟩
    rw [← hbusy] at hfree
    exact hfree.bind fun _ _ => (Yields.lift _).bind fun _ _ =>
      (gives_pairs (hafter.of_lt (by decide))).bind fun _ _ => (gives_contacts hafter).bind fun _ _ =>
      (Yields.lift _).bind fun _ _ => (Yields.lift _).bind fun _ _ => .pure _
  · exact (Direct.sameValue_workProblem blind asker .client).bind fun _ _ => .refl _

theorem gives_evalProblem :
    Gives s c held (fun _ => false) (s.evalProblem c) (Direct.problem s c held .client) := by
  refine gives_problem blind .client rfl ?_
  funext t
  cases t <;> rfl

theorem gives_results :
    Gives s c held (fun _ => false) (s.evalResultsUnder c (s.actuationAt c 1)) (Direct.results s c held) := by
  refine .evalStage rfl (fun _ => rfl) ?_ fun _ => .refl _
  refine (gives_problem blind .results rfl ?_).bind fun _ _ => .lift _
  funext t
  cases t <;> rfl

theorem gives_any (stage : Stage) :
    Gives s c held (fun _ => false) (s.evalAnyUnder c (s.actuationAt c 1) stage)
      (Direct.any s c held stage) := by
  cases stage with
  | positionKinematics => exact (gives_kinematics (.none_busy _)).bind fun _ _ => .pure _
  | contactPairs => exact (gives_pairs (.none_busy _)).bind fun _ _ => .pure _
  | contactKinematics => exact (gives_contacts (.none_busy _)).bind fun _ _ => .pure _
  | freeAccelerations =>
    exact (gives_free blind .client fun h => absurd rfl h).bind fun _ _ => .pure _
  | problem => exact (gives_evalProblem blind).bind fun _ _ => .pure _
  | results => exact (gives_results blind).bind fun _ _ => .pure _

theorem gives_actuation :
    Gives s c held (fun _ => false) (s.evalActuation c) (Direct.actuation c (Direct.any s c held)) :=
  gives_actuationAt (gives_any blind)

end

end CompliantContact
