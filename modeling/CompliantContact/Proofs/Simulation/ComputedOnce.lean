import CompliantContact.Proofs.Cache.Recomputed
import CompliantContact.Proofs.Simulation.Unnoticed

/-!
Stages are computed once for each change of what they depend on.

The work of a stage evaluates every stage before it that it depends on, so when it is done all of them
are up to date and the versions that are seen with the value are those of now (`Staged.Settles`). An
answer thus leaves its stages up to date under exactly those versions that agree with the present ones
on the sources they depend on. From this it follows that between two changes of such a source a stage is
computed at most once, and a change of another source does not make it be computed again
(`Context.Reachable.computed_once`).
-/

namespace CompliantContact

variable {α β γ : Type} {v : SourceVersions}

/-- What work does to a cache of stages: no entry is computed more than once, and after an answer the
    given stages are up to date. -/
structure Staged.Settled (v : SourceVersions) (stages : List Stage) (cache : Cache (StageValue α))
    (result : Outcome α β × Cache (StageValue α)) : Prop where
  kept : Cache.Kept v cache result.2
  once : ∀ i, Cache.Once v i cache result.2
  fresh : ∀ x, result.1 = .ok x → ∀ stage ∈ stages, result.2.isUpToDate v stage.index = true

/-- Work that does so to every sound cache. -/
def Staged.Settles (v : SourceVersions) (stages : List Stage) (work : Staged α β) : Prop :=
  ∀ cache : Cache (StageValue α), cache.Sound v → cache.Staged → Staged.Settled v stages cache (work cache)

namespace Staged.Settles

variable {stages stages' : List Stage} {work : Staged α β}

theorem lift (o : Outcome α β) : Settles v [] (liftM o : Staged α β) := fun cache h _ => by
  rw [Cached.lift_apply]
  exact ⟨.refl h, fun _ => .refl cache, fun _ _ _ hstage => by cases hstage⟩

theorem pure (x : β) : Settles v [] (pure x : Staged α β) := lift (.ok x)

/-- What the first part has brought up to date still is after the rest. -/
theorem bind {next : β → Staged α γ} (hwork : Settles v stages work)
    (hnext : ∀ x, Settles v stages' (next x)) :
    Settles v (stages ++ stages') (work >>= next) := fun cache h hstaged => by
  have hfirst := hwork cache h hstaged
  cases hw : work cache with
  | mk r d =>
    rw [hw] at hfirst
    cases r with
    | error e =>
      rw [Cached.bind_of_error hw]
      exact ⟨hfirst.kept, hfirst.once, fun x hx => by cases hx⟩
    | ok x =>
      rw [Cached.bind_of_ok hw]
      have hrest := hnext x d hfirst.kept.sound (hstaged.kept hfirst.kept)
      refine ⟨hfirst.kept.trans hrest.kept,
        fun i => (hfirst.once i).trans hfirst.kept (hrest.once i) hrest.kept,
        fun y hy stage hstage => ?_⟩
      rcases List.mem_append.mp hstage with hold | hnew
      · exact hrest.kept.isUpToDate (hfirst.fresh x rfl stage hold)
      · exact hrest.fresh y hy stage hnew

theorem weaken (h : Settles v stages work) (hstages : stages' ⊆ stages) :
    Settles v stages' work := fun cache hsound hstaged =>
  { h cache hsound hstaged with
    fresh := fun x hx stage hstage => (h cache hsound hstaged).fresh x hx stage (hstages hstage) }

theorem outcome (h : Settles v stages work) : Settles v [] work.outcome := fun cache hsound hstaged =>
  { h cache hsound hstaged with fresh := fun _ _ _ hstage => by cases hstage }

/-- A stage is brought up to date by work that does so to the stages that it depends on. -/
theorem eval {stage : Stage} {toValue : β → StageValue α} {ofValue? : StageValue α → Option β}
    (h : Settles v stages work)
    (hstages : ∀ j, .entry j ∈ stage.prerequisites → ∃ t ∈ stages, j = t.index) :
    Settles v [stage] (Cache.eval v stage.index toValue ofValue? work) := fun cache hsound hstaged => by
  obtain ⟨e, he, -, hprerequisites⟩ := hstaged stage
  cases hidle : cache.isInProgress stage.index with
  | true =>
    rw [Cache.eval_of_busy he hidle]
    exact ⟨.refl hsound, fun _ => .refl cache, fun x hx => by cases hx⟩
  | false =>
    cases hx : cache.current? v stage.index with
    | some x =>
      rw [Cache.eval_of_current he hidle hx]
      refine ⟨.refl hsound, fun _ => .refl cache, fun _ _ t ht => ?_⟩
      rw [List.mem_singleton.mp ht]
      exact (Cache.current?_eq_some.mp hx).1
    | none =>
      rw [Cache.eval_of_stale he hidle hx]
      have hstale := Cache.isUpToDate_eq_false hx
      have hwork := h (cache.start stage.index) (hsound.start hstale) (hstaged.start _)
      cases hw : work (cache.start stage.index) with
      | mk r d =>
        rw [hw] at hwork
        cases r with
        | error f =>
          rw [Cache.compute_of_error hw]
          exact ⟨hwork.kept.finish hidle, fun i => (hwork.once i).finish he hidle hstale,
            fun x hx => by cases hx⟩
        | ok x =>
          rw [Cache.compute_of_ok hw]
          have hentries : ∀ j, .entry j ∈ e.prerequisites → d.isUpToDate v j = true := fun j hj => by
            obtain ⟨t, ht, rfl⟩ := hstages j (hprerequisites ▸ hj)
            exact hwork.fresh x rfl t ht
          refine ⟨hwork.kept.keep he hidle hx,
            fun i => (hwork.once i).keep he hidle hstale hwork.kept hentries, fun _ _ t ht => ?_⟩
          rw [List.mem_singleton.mp ht]
          exact hwork.kept.isUpToDate_keep he hentries

theorem evalStage {s : Simulator α} {c : Setting α} {stage : Stage} {toValue : β → StageValue α}
    {ofValue? : StageValue α → Option β} (h : Settles c.versions stages work)
    (hstages : ∀ j, .entry j ∈ stage.prerequisites → ∃ t ∈ stages, j = t.index) :
    Settles c.versions [stage] (s.evalStage c stage toValue ofValue? work) :=
  (lift _).bind fun _ => h.eval hstages

end Staged.Settles

/-! ### The stages -/

section
variable [Scalar α] (s : Simulator α) (c : Setting α)

open Staged

theorem settles_positionKinematics : Settles c.versions [.positionKinematics] (s.evalPositionKinematics c) :=
  (Settles.lift _).evalStage (by simp [Stage.prerequisites])

theorem settles_contactPairs : Settles c.versions [.contactPairs] (s.evalContactPairs c) :=
  ((settles_positionKinematics s c).bind fun _ => .lift _).evalStage (by simp [Stage.prerequisites])

theorem settles_contactKinematics : Settles c.versions [.contactKinematics] (s.evalContactKinematics c) :=
  ((settles_positionKinematics s c).bind fun _ => (settles_contactPairs s c).bind fun _ => .lift _).evalStage
    (by simp [Stage.prerequisites])

theorem settles_linearDynamics : Settles c.versions [.positionKinematics] (s.evalLinearDynamics c) :=
  (settles_positionKinematics s c).bind fun _ => .lift _

variable {actuation : Staged α (Vec α)} (hactuation : Settles c.versions [] actuation)
include hactuation

theorem settles_freeAccelerations :
    Settles c.versions [.freeAccelerations] (s.evalFreeAccelerationsUnder c actuation) :=
  ((settles_positionKinematics s c).bind fun _ => hactuation.bind fun _ => .lift _).evalStage
    (by simp [Stage.prerequisites])

theorem settles_problem : Settles c.versions [.problem] (s.evalProblemUnder c actuation) :=
  ((settles_linearDynamics s c).bind fun _ => (settles_freeAccelerations s c hactuation).bind
    fun _ => (Settles.lift _).bind fun _ =>
    (settles_contactPairs s c).bind fun _ => (settles_contactKinematics s c).bind fun _ =>
      (Settles.lift _).bind fun _ =>
    (Settles.lift _).bind fun _ => .pure _).evalStage (by simp [Stage.prerequisites])

theorem settles_results : Settles c.versions [.results] (s.evalResultsUnder c actuation) :=
  ((settles_problem s c hactuation).bind fun _ => .lift _).evalStage (by simp [Stage.prerequisites])

theorem settles_any (stage : Stage) : Settles c.versions [stage] (s.evalAnyUnder c actuation stage) := by
  cases stage with
  | positionKinematics => exact (settles_positionKinematics s c).bind fun _ => .pure _
  | contactPairs => exact (settles_contactPairs s c).bind fun _ => .pure _
  | contactKinematics => exact (settles_contactKinematics s c).bind fun _ => .pure _
  | freeAccelerations => exact (settles_freeAccelerations s c hactuation).bind fun _ => .pure _
  | problem => exact (settles_problem s c hactuation).bind fun _ => .pure _
  | results => exact (settles_results s c hactuation).bind fun _ => .pure _

omit [Scalar α] hactuation in
theorem settles_run {ask : Stage → Staged α (StageValue α)}
    (hask : ∀ stage, Settles v [stage] (ask stage)) (r : Reading α) :
    Settles v [] (r.run ask) := by
  induction r with
  | done result => exact .lift result
  | read stage next ih => exact (hask stage).outcome.bind ih

omit hactuation in
/-- Whatever a source of actuation reads. -/
theorem settles_actuationAt (level : Nat) : Settles c.versions [] (s.actuationAt c level) := by
  induction level with
  | zero => exact .lift (.error _)
  | succ level ih =>
    rw [Simulator.actuationAt]
    split
    · exact .pure _
    · exact .lift _
    · exact (settles_run (fun stage => settles_any s c ih stage) _).bind fun _ => .lift _

omit hactuation in
theorem settles_nextState : Settles c.versions [] (s.evalNextState c) :=
  ((settles_results s c (settles_actuationAt s c 1)).bind fun _ => (Settles.lift _).bind
    fun _ => .pure _).weaken (List.nil_subset _)

omit hactuation in
theorem settles_ask (q : Query) : Settles c.versions [] (s.ask c q) := by
  have hactuation := settles_actuationAt s c 1
  have hresults := settles_results s c hactuation
  cases q with
  | stage stage => exact ((settles_any s c hactuation stage).bind fun _ => .pure _).weaken (List.nil_subset _)
  | actuation => exact (settles_actuationAt s c 2).bind fun _ => .pure _
  | freeVelocities =>
    exact (((settles_freeAccelerations s c hactuation).bind fun _ => .pure _).bind
      fun _ => .pure _).weaken (List.nil_subset _)
  | linearDynamics => exact ((settles_linearDynamics s c).bind fun _ => .pure _).weaken (List.nil_subset _)
  | nextState => exact (settles_nextState s c).bind fun _ => .pure _
  | accelerations => exact ((hresults.bind fun _ => .pure _).bind fun _ => .pure _).weaken (List.nil_subset _)
  | reports =>
    exact (((settles_contactPairs s c).bind fun _ => (settles_problem s c hactuation).bind
        fun _ => hresults.bind fun _ =>
      .lift _).bind fun _ => .pure _).weaken (List.nil_subset _)

end

/-! ### Contexts -/

/-- The caches that evaluations of a context find: its own, also while stages are computed, and after
    others that were evaluated meanwhile. -/
inductive Context.Finds [Scalar α] (c : Context α) : Cache (StageValue α) → Prop where
  | resting : Finds c c.cache
  | started {cache : Cache (StageValue α)} {stage : Stage} (h : Finds c cache)
      (hstale : cache.isUpToDate c.versions stage.index = false) : Finds c (cache.start stage.index)
  | evaluated {cache : Cache (StageValue α)} (s : Simulator α) (level : Nat) (stage : Stage)
    (h : Finds c cache) :
      Finds c (s.evalAnyUnder c.toSetting (s.actuationAt c.toSetting level) stage cache).2

/-- How often a stage was computed, and how often that was tried. -/
def Context.timesComputed (c : Context α) (stage : Stage) : Nat := (c.cache.version? stage.index).getD 0

def Context.timesTried (c : Context α) (stage : Stage) : Nat := c.cache.started.count stage.index

/-- The operation goes on with the same context and the values that it has. -/
def Operation.Continues : Operation α → Prop
  | clone | invalidateAll => False
  | _ => True

/-- What operations of simulators do to a stage of a context while the sources that it reads do not
    change: they compute it once if it is stale, and not at all if it is not. -/
structure Context.Proceeds (stage : Stage) (c d : Context α) : Prop where
  resting : d.Resting
  le : ∀ s, c.versions.get s ≤ d.versions.get s
  once : (∀ s, stage.reads s = true → d.versions.get s = c.versions.get s) →
    (d.cache.version? stage.index = c.cache.version? stage.index ∧
      (c.cache.isUpToDate c.versions stage.index = true →
      d.cache.isUpToDate d.versions stage.index = true ∧ d.timesTried stage = c.timesTried stage)) ∨
    (c.cache.isUpToDate c.versions stage.index = false ∧ d.cache.isUpToDate d.versions stage.index = true ∧
      d.cache.version? stage.index = (c.cache.version? stage.index).map (· + 1))

namespace Context.Proceeds

variable {stage : Stage} {c d e : Context α}

theorem refl (h : c.Resting) : Proceeds stage c c :=
  ⟨h, fun _ => Nat.le_refl _, fun _ => .inl ⟨rfl, fun hi => ⟨hi, rfl⟩⟩⟩

theorem trans (h : Proceeds stage c d) (h' : Proceeds stage d e) : Proceeds stage c e where
  resting := h'.resting
  le s := Nat.le_trans (h.le s) (h'.le s)
  once hagree := by
    have hd : ∀ s, stage.reads s = true → d.versions.get s = c.versions.get s := fun s hs =>
      Nat.le_antisymm (hagree s hs ▸ h'.le s) (h.le s)
    have he : ∀ s, stage.reads s = true → e.versions.get s = d.versions.get s := fun s hs =>
      (hagree s hs).trans (hd s hs).symm
    rcases h.once hd with ⟨hversion, hkept⟩ | ⟨hstale, hfresh, hversion⟩
    · rcases h'.once he with ⟨hversion', hkept'⟩ | ⟨hstale', hfresh', hversion'⟩
      · refine .inl ⟨hversion'.trans hversion, fun hi => ?_⟩
        obtain ⟨hi', htried⟩ := hkept hi
        obtain ⟨hi'', htried'⟩ := hkept' hi'
        exact ⟨hi'', htried'.trans htried⟩
      · refine .inr ⟨?_, hfresh', by rw [hversion', hversion]⟩
        cases hi : c.cache.isUpToDate c.versions stage.index with
        | false => rfl
        | true => exact absurd (hkept hi).1 (by simp [hstale'])
    · rcases h'.once he with ⟨hversion', hkept'⟩ | ⟨hstale', -⟩
      · exact .inr ⟨hstale, (hkept' hfresh).1, hversion'.trans hversion⟩
      · exact absurd hfresh (by simp [hstale'])

/-- Work on the cache of a context. -/
theorem of_settled (h : c.Resting) {stages : List Stage} {result : Outcome α β × Cache (StageValue α)}
    (hsettled : Staged.Settled c.versions stages c.cache result) :
    Proceeds stage c { c with cache := result.2 } where
  resting := h.of_kept hsettled.kept
  le _ := Nat.le_refl _
  once _ := by
    rcases hsettled.once stage.index with ⟨hversion, hstarted⟩ | ⟨hstale, -, hfresh, hversion⟩
    · exact .inl ⟨hversion, fun hi => ⟨hsettled.kept.isUpToDate hi, hstarted hi⟩⟩
    · exact .inr ⟨hstale, hfresh, hversion⟩

variable [Scalar α]

/-- A change of a source that the stage does not read leaves it up to date. -/
theorem next (h : c.Resting) (x : Change α) : Proceeds stage c ⟨x.next c.toSetting, c.cache⟩ where
  resting := h.next x
  le s := c.versions.get_le_get_bump x.source s
  once hagree := .inl ⟨rfl, fun hi =>
    ⟨Cache.isUpToDate_of_agree h.sound.ordered hi
      fun s hdep => hagree s (h.staged.reads hdep stage rfl), rfl⟩⟩

theorem perform (h : c.Resting) (s : Simulator α) {op : Operation α} (hop : op.Continues) :
    Proceeds stage c (op.perform s c).2 := by
  cases op with
  | change x =>
    rw [Operation.perform_change]
    cases x.check c.toSetting with
    | error e => exact refl h
    | ok u => exact next h x
  | ask q => exact of_settled h (settles_ask s c.toSetting q c.cache h.sound h.staged)
  | advance =>
    have hsettled := settles_nextState s c.toSetting c.cache h.sound h.staged
    have hproceeds : Proceeds stage c _ := of_settled h hsettled
    rw [Operation.perform]
    cases hw : s.evalNextState c.toSetting c.cache with
    | mk r cache =>
      rw [hw] at hproceeds
      cases r with
      | error e =>
        rw [Simulator.advance_of_error hw]
        exact hproceeds
      | ok x =>
        rw [Simulator.advance_of_ok hw, Direct.commit]
        cases Change.check c.toSetting (.discreteState x) with
        | error e => exact hproceeds
        | ok u =>
          have hmoved : Proceeds stage _ _ := next hproceeds.resting (.discreteState x)
          exact (hproceeds.trans hmoved).trans (next hmoved.resting (.time _))
  | clone => exact hop.elim
  | invalidateAll => exact hop.elim

end Context.Proceeds

variable [Scalar α] {c : Context α}

/-- The context after operations of simulators, one after another. -/
def Context.performEach (c : Context α) (ops : List (Simulator α × Operation α)) : Context α :=
  ops.foldl (fun c (s, op) => (op.perform s c).2) c

theorem Context.Resting.performEach (h : c.Resting) (stage : Stage) {ops : List (Simulator α × Operation α)}
    (hops : ∀ op ∈ ops, op.2.Continues) : Context.Proceeds stage c (c.performEach ops) := by
  induction ops generalizing c with
  | nil => exact .refl h
  | cons op ops ih =>
    have hfirst : Context.Proceeds stage c _ := .perform h op.1 (hops op (List.mem_cons_self ..))
    exact hfirst.trans (ih hfirst.resting fun op' h' => hops op' (List.mem_cons_of_mem _ h'))

/-- What evaluations find is sound, as it is between operations. -/
theorem Context.Finds.sound {cache : Cache (StageValue α)} (h : c.Finds cache) (hrest : c.Resting) :
    cache.Sound c.versions ∧ cache.Staged := by
  induction h with
  | resting => exact ⟨hrest.sound, hrest.staged⟩
  | started _ hstale ih => exact ⟨ih.1.start hstale, ih.2.start _⟩
  | evaluated s level stage _ ih =>
    have hkept := (settles_any s c.toSetting (settles_actuationAt s c.toSetting level) stage _ ih.1 ih.2).kept
    exact ⟨hkept.sound, ih.2.kept hkept⟩

/-- A stage that was evaluated is up to date, with all that it depends on, and it is so under exactly
    the versions that agree on the sources that it depends on. So until one of them changes no operation
    computes it more than once, and none computes it while it is up to date. -/
theorem Context.Reachable.computed_once (hc : c.Reachable) (stage : Stage) :
    (∀ (cache : Cache (StageValue α)) (s : Simulator α) (level : Nat) (x : StageValue α)
      (d : Cache (StageValue α)),
      c.Finds cache → s.evalAnyUnder c.toSetting (s.actuationAt c.toSetting level) stage cache = (.ok x, d) →
        (∀ i, d.Reaches stage.index i → d.isUpToDate c.versions i = true) ∧
          ∀ w : SourceVersions, d.isUpToDate w stage.index = true ↔
            ∀ source, d.DependsOn stage.index source → w.get source = c.versions.get source) ∧
    ∀ ops : List (Simulator α × Operation α), (∀ op ∈ ops, op.2.Continues) →
      (∀ source, c.cache.DependsOn stage.index source →
        (c.performEach ops).versions.get source = c.versions.get source) →
        (c.performEach ops).timesComputed stage ≤ c.timesComputed stage + 1 ∧
          (c.cache.isUpToDate c.versions stage.index = true →
            (c.performEach ops).cache.isUpToDate (c.performEach ops).versions stage.index = true ∧
              (c.performEach ops).timesComputed stage = c.timesComputed stage ∧
              (c.performEach ops).timesTried stage = c.timesTried stage) := by
  have hrest := hc.resting
  refine ⟨fun cache s level x d hfinds hx => ?_, fun ops hops hagree => ?_⟩
  · obtain ⟨hsound, hstaged⟩ := hfinds.sound hrest
    have hsettled :=
      settles_any s c.toSetting (settles_actuationAt s c.toSetting level) stage cache hsound hstaged
    rw [hx] at hsettled
    have hfresh := hsettled.fresh x rfl stage (List.mem_singleton.mpr rfl)
    exact ⟨fun i hi => hi.isUpToDate hsettled.kept.sound.regular hfresh,
      Cache.isUpToDate_iff_agree hsettled.kept.sound.regular hfresh⟩
  · have hproceeds := hrest.performEach stage hops
    rcases hproceeds.once fun source hs => hagree source (hrest.staged.dependsOn hs) with
      ⟨hversion, hkept⟩ | ⟨hstale, -, hversion⟩
    · have hcomputed : (c.performEach ops).timesComputed stage = c.timesComputed stage := by
        rw [timesComputed, hversion, timesComputed]
      exact ⟨Nat.le_trans (Nat.le_of_eq hcomputed) (Nat.le_succ _),
        fun hi => ⟨(hkept hi).1, hcomputed, (hkept hi).2⟩⟩
    · obtain ⟨e, he, -⟩ := hrest.staged stage
      refine ⟨?_, fun hi => absurd hi (by simp [hstale])⟩
      rw [timesComputed, hversion, timesComputed, Cache.version?, he]
      exact Nat.le_refl _

/-- Contacts do not depend on the time, but on the parameters. -/
theorem computed_once_sliderIn : ∃ x d,
    (sliderIn grip).evalAnyUnder (sliderIn grip).defaultContext.toSetting
        ((sliderIn grip).actuationAt (sliderIn grip).defaultContext.toSetting 1) .contactKinematics
        (sliderIn grip).defaultContext.cache = (.ok x, d) ∧
      d.isUpToDate (SourceVersions.zero.bump .time) (Stage.index .contactKinematics) = true ∧
      d.isUpToDate (SourceVersions.zero.bump .parameters) (Stage.index .contactKinematics) = false ∧
      ((sliderIn grip).defaultContext.performEach [(sliderIn grip, .ask (.stage .results)),
        (sliderIn grip, .change (.time 1)),
        (sliderIn grip, .ask .reports)]).timesComputed .contactKinematics ≤ 1 := by
  have hc : (sliderIn grip).defaultContext.Reachable := .created (sliderIn grip)
  obtain ⟨hexact, honce⟩ := hc.computed_once .contactKinematics
  have hstaged :=
    (Context.Finds.sound (.evaluated (sliderIn grip) 1 .contactKinematics .resting) hc.resting).2
  have hok : ((sliderIn grip).evalAnyUnder (sliderIn grip).defaultContext.toSetting
      ((sliderIn grip).actuationAt (sliderIn grip).defaultContext.toSetting 1) .contactKinematics
      (sliderIn grip).defaultContext.cache).1.isOk = true := by decide +kernel
  obtain ⟨x, d, hrun⟩ : ∃ x d, (sliderIn grip).evalAnyUnder (sliderIn grip).defaultContext.toSetting
      ((sliderIn grip).actuationAt (sliderIn grip).defaultContext.toSetting 1) .contactKinematics
      (sliderIn grip).defaultContext.cache = (.ok x, d) := by
    generalize (sliderIn grip).evalAnyUnder _ _ _ _ = answer at hok ⊢
    obtain ⟨_ | x, d⟩ := answer
    · cases hok
    · exact ⟨x, d, rfl⟩
  have hiff := (hexact _ (sliderIn grip) 1 x d .resting hrun).2
  rw [hrun] at hstaged
  refine ⟨x, d, hrun, (hiff _).mpr fun source hdep => ?_, ?_, (honce _ ?_ fun source hdep => ?_).1⟩
  · have hreads := hstaged.reads hdep _ rfl
    cases source <;> first | rfl | cases hreads
  · refine Bool.eq_false_iff.mpr fun hfresh => ?_
    have hget := (hiff _).mp hfresh .parameters (hstaged.dependsOn rfl)
    cases hget
  · intro op hop
    simp only [List.mem_cons, List.not_mem_nil, or_false] at hop
    rcases hop with rfl | rfl | rfl <;> trivial
  · have hreads := hc.resting.staged.reads hdep _ rfl
    cases source <;> first | rfl | cases hreads

end CompliantContact
