import CompliantContact.Proofs.Cache.Evaluation
import CompliantContact.Simulation.Step

/-!
The entries of the stages, and what every evaluation of a stage keeps of them.
-/

namespace CompliantContact

variable {α : Type}

namespace Stage

theorem index_injective {a b : Stage} (h : a.index = b.index) : a = b := by
  cases a <;> cases b <;> first | rfl | cases h

theorem index_ne {a b : Stage} (h : a ≠ b) : a.index ≠ b.index := fun h' => h (index_injective h')

/-- Whether a stage depends on a source, by itself or through a stage before it. -/
def reads : Stage → Source → Bool
  | _, .discreteState => true
  | positionKinematics, _ => false
  | contactPairs, s | contactKinematics, s => s == .parameters
  | freeAccelerations, _ | problem, _ | results, _ => true

/-- An entry that a stage depends on is that of a stage, and what this one reads the stage reads too. -/
theorem prerequisite_entry {stage : Stage} {j : EntryIndex} (h : .entry j ∈ stage.prerequisites) :
    ∃ t : Stage, j = t.index ∧ ∀ s, t.reads s = true → stage.reads s = true := by
  have kinematics : ∀ s, Stage.reads .positionKinematics s = true → stage.reads s = true := by
    intro s hs
    cases s <;> simp [reads] at hs ⊢
  cases stage <;> simp only [prerequisites, List.mem_cons, List.not_mem_nil, or_false, reduceCtorEq,
    false_or, Prerequisite.entry.injEq] at h
  case contactPairs => exact ⟨.positionKinematics, h, kinematics⟩
  case contactKinematics =>
    rcases h with h | h
    · exact ⟨.positionKinematics, h, kinematics⟩
    · exact ⟨.contactPairs, h, fun s hs => by cases s <;> simp [reads] at hs ⊢⟩
  case freeAccelerations => exact ⟨.positionKinematics, h, kinematics⟩
  case problem =>
    rcases h with h | h
    · exact ⟨.contactKinematics, h, fun s _ => by cases s <;> rfl⟩
    · exact ⟨.freeAccelerations, h, fun s _ => by cases s <;> rfl⟩
  case results => exact ⟨.problem, h, fun s _ => by cases s <;> rfl⟩

end Stage

namespace Cache

variable {c : Cache (StageValue α)}

/-- A cache with the entries of the stages. -/
def Staged (c : Cache (StageValue α)) : Prop :=
  ∀ stage : Stage, ∃ e, c.entry? stage.index = some e ∧ e.name = stage.name ∧
    e.prerequisites = stage.prerequisites

theorem staged_stageCache : (stageCache α).Staged := by
  intro stage
  cases stage <;> exact ⟨_, rfl, rfl, rfl⟩

theorem Staged.kept {v : SourceVersions} {d : Cache (StageValue α)} (h : c.Staged) (hkept : Kept v c d) :
    d.Staged := fun stage => by
  obtain ⟨e, he, hname, hprerequisites⟩ := h stage
  obtain ⟨e', he', hname', hprerequisites'⟩ := hkept.declared _ e he
  exact ⟨e', he', hname'.trans hname, hprerequisites'.trans hprerequisites⟩

theorem Staged.start (h : c.Staged) (i : EntryIndex) : (c.start i).Staged := fun stage => by
  obtain ⟨e, he, hname, hprerequisites⟩ := h stage
  rw [entry?_start, he]
  split
  · exact ⟨_, rfl, hname, hprerequisites⟩
  · exact ⟨_, rfl, hname, hprerequisites⟩

theorem Staged.finish (h : c.Staged) (i : EntryIndex) : (c.finish i).Staged := fun stage => by
  obtain ⟨e, he, hname, hprerequisites⟩ := h stage
  rw [entry?_finish, he]
  split
  · exact ⟨_, rfl, hname, hprerequisites⟩
  · exact ⟨_, rfl, hname, hprerequisites⟩

theorem Staged.keep (h : c.Staged) (v : SourceVersions) (i : EntryIndex) (x : StageValue α) :
    (c.keep v i x).Staged :=
  fun stage => by
    obtain ⟨e, he, hname, hprerequisites⟩ := h stage
    rw [entry?_keep, he]
    split
    · exact ⟨_, rfl, hname, hprerequisites⟩
    · exact ⟨_, rfl, hname, hprerequisites⟩

theorem Staged.invalidateAll (h : c.Staged) : c.invalidateAll.Staged := fun stage => by
  obtain ⟨e, he, hname, hprerequisites⟩ := h stage
  rw [entry?_invalidateAll, he]
  exact ⟨_, rfl, hname, hprerequisites⟩

theorem Staged.emptyLike (h : c.Staged) : c.emptyLike.Staged := fun stage => by
  obtain ⟨e, he, hname, hprerequisites⟩ := h stage
  rw [entry?_emptyLike, he]
  exact ⟨_, rfl, hname, hprerequisites⟩

theorem mem_stageCache {i : EntryIndex} {e : Entry (StageValue α)}
    (h : Cache.entry? (stageCache α) i = some e) :
    ∃ stage : Stage, i = stage.index ∧ e = .declared stage.name stage.prerequisites := by
  obtain ⟨k⟩ := i
  match k with
  | 0 => exact ⟨.positionKinematics, rfl, (Option.some.inj h).symm⟩
  | 1 => exact ⟨.contactPairs, rfl, (Option.some.inj h).symm⟩
  | 2 => exact ⟨.contactKinematics, rfl, (Option.some.inj h).symm⟩
  | 3 => exact ⟨.freeAccelerations, rfl, (Option.some.inj h).symm⟩
  | 4 => exact ⟨.problem, rfl, (Option.some.inj h).symm⟩
  | 5 => exact ⟨.results, rfl, (Option.some.inj h).symm⟩
  | k + 6 => cases h

theorem ordered_stageCache : (stageCache α).Ordered := by
  intro i e j he hj
  obtain ⟨stage, rfl, rfl⟩ := mem_stageCache he
  cases stage <;> simp [Entry.declared, Stage.prerequisites, Stage.index] at hj ⊢ <;> grind

theorem sound_stageCache (v : SourceVersions) : (stageCache α).Sound v :=
  .of_declared ordered_stageCache fun _ _ he => by
    obtain ⟨stage, -, rfl⟩ := mem_stageCache he
    exact ⟨_, _, rfl⟩

theorem current?_stageCache (v : SourceVersions) (i : EntryIndex) : (stageCache α).current? v i = none := by
  refine current?_of_value_eq_none fun e he => ?_
  obtain ⟨stage, -, rfl⟩ := mem_stageCache he
  rfl

theorem isInProgress_stageCache (i : EntryIndex) : (stageCache α).isInProgress i = false := by
  rw [isInProgress]
  cases he : Cache.entry? (stageCache α) i with
  | none => rfl
  | some e =>
    obtain ⟨-, -, rfl⟩ := mem_stageCache he
    rfl

/-- By the stages between: each names the one before it among its prerequisites. -/
theorem Staged.dependsOn (h : c.Staged) {stage : Stage} {s : Source} (hs : stage.reads s = true) :
    c.DependsOn stage.index s := by
  have direct : ∀ (t : Stage), .source s ∈ t.prerequisites → c.DependsOn t.index s := fun t ht => by
    obtain ⟨e, he, -, hp⟩ := h t
    exact .source he (hp ▸ ht)
  have through : ∀ (t u : Stage), .entry u.index ∈ t.prerequisites → c.DependsOn u.index s →
      c.DependsOn t.index s := fun t u ht hu => by
    obtain ⟨e, he, -, hp⟩ := h t
    exact .entry he (hp ▸ ht) hu
  have kinematics : s = .discreteState → c.DependsOn (Stage.index .positionKinematics) s := by
    rintro rfl
    exact direct .positionKinematics (by simp [Stage.prerequisites])
  have pairs : Stage.reads .contactPairs s = true → c.DependsOn (Stage.index .contactPairs) s := by
    intro hs
    exact direct .contactPairs (by cases s <;> simp [Stage.reads, Stage.prerequisites] at hs ⊢)
  have free : c.DependsOn (Stage.index .freeAccelerations) s :=
    direct .freeAccelerations (by cases s <;> simp [Stage.prerequisites])
  have problem : c.DependsOn (Stage.index .problem) s :=
    through .problem .freeAccelerations (by simp [Stage.prerequisites]) free
  cases stage with
  | positionKinematics => exact kinematics (by cases s <;> simp [Stage.reads] at hs ⊢)
  | contactPairs => exact pairs hs
  | contactKinematics =>
    exact through .contactKinematics .contactPairs (by simp [Stage.prerequisites])
      (pairs (by cases s <;> simp [Stage.reads] at hs ⊢))
  | freeAccelerations => exact free
  | problem => exact problem
  | results => exact through .results .problem (by simp [Stage.prerequisites]) problem

/-- And on no other source: what a stage depends on is read by the stages before it, and so by itself. -/
theorem Staged.reads (h : c.Staged) {i : EntryIndex} {s : Source} (hdep : c.DependsOn i s) :
    ∀ stage : Stage, i = stage.index → stage.reads s = true := by
  induction hdep with
  | source he hs =>
    rintro stage rfl
    obtain ⟨e, he', -, hp⟩ := h stage
    rw [he] at he'
    cases he'
    rw [hp] at hs
    cases stage <;> simp [Stage.prerequisites] at hs <;> grind [Stage.reads]
  | entry he hj _ ih =>
    rintro stage rfl
    obtain ⟨e, he', -, hp⟩ := h stage
    rw [he] at he'
    cases he'
    rw [hp] at hj
    obtain ⟨t, rfl, ht⟩ := Stage.prerequisite_entry hj
    exact ht _ (ih t rfl)

end Cache

/-! ### What evaluations are composed of -/

/-- The stage that yields values of this kind. -/
def StageValue.stage : StageValue α → Stage
  | positionKinematics _ => .positionKinematics
  | contactPairs _ => .contactPairs
  | contactKinematics _ => .contactKinematics
  | freeAccelerations _ => .freeAccelerations
  | problem _ => .problem
  | results _ => .results

/-- A property of computations that carries over to what is composed of them. -/
structure Staged.Composed (s : Simulator α) (c : Setting α) (P : ∀ {β : Type}, Staged α β → Prop) : Prop where
  lift : ∀ {β : Type} (o : Outcome α β), P (liftM o : Staged α β)
  bind : ∀ {β γ : Type} {work : Staged α β} {next : β → Staged α γ}, P work → (∀ x, P (next x)) →
  P (work >>= next)
  outcome : ∀ {β : Type} {work : Staged α β}, P work → P work.outcome
  evalStage : ∀ {β : Type} {stage : Stage} {toValue : β → StageValue α} {ofValue? : StageValue α → Option β}
    {work : Staged α β}, (∀ x, (toValue x).stage = stage) → P work →
    P (s.evalStage c stage toValue ofValue? work)

namespace Staged.Composed

variable {s : Simulator α} {c : Setting α} {P : ∀ {β : Type}, Staged α β → Prop}

theorem pure {β : Type} (h : Composed s c P) (x : β) : P (pure x : Staged α β) := h.lift (.ok x)

theorem run (h : Composed s c P) {ask : Stage → Staged α (StageValue α)} (hask : ∀ stage, P (ask stage))
    (r : Reading α) :
    P (r.run ask) := by
  induction r with
  | done result => exact h.lift result
  | read stage next ih => exact h.bind (h.outcome (hask stage)) fun answer => ih answer

variable [Scalar α] (h : Composed s c P)
include h

theorem evalPositionKinematics : P (s.evalPositionKinematics c) := h.evalStage (fun _ => rfl) (h.lift _)

theorem evalContactPairs : P (s.evalContactPairs c) :=
  h.evalStage (fun _ => rfl) (h.bind h.evalPositionKinematics fun _ => h.lift _)

theorem evalContactKinematics : P (s.evalContactKinematics c) :=
  h.evalStage (fun _ => rfl) (h.bind h.evalPositionKinematics fun _ => h.bind h.evalContactPairs
    fun _ => h.lift _)

theorem evalLinearDynamics : P (s.evalLinearDynamics c) := h.bind h.evalPositionKinematics fun _ => h.lift _

section
variable {actuation : Staged α (Vec α)} (hactuation : P actuation)
include hactuation

theorem evalFreeAccelerationsUnder : P (s.evalFreeAccelerationsUnder c actuation) :=
  h.evalStage (fun _ => rfl) (h.bind h.evalPositionKinematics fun _ => h.bind hactuation fun _ => h.lift _)

theorem evalProblemUnder : P (s.evalProblemUnder c actuation) :=
  h.evalStage (fun _ => rfl) (h.bind h.evalLinearDynamics fun _ =>
    h.bind (h.evalFreeAccelerationsUnder hactuation) fun _ => h.bind (h.lift _) fun _ =>
    h.bind h.evalContactPairs fun _ => h.bind h.evalContactKinematics fun _ =>
    h.bind (h.lift _) fun _ => h.bind (h.lift _) fun _ => h.pure _)

theorem evalResultsUnder : P (s.evalResultsUnder c actuation) :=
  h.evalStage (fun _ => rfl) (h.bind (h.evalProblemUnder hactuation) fun _ => h.lift _)

theorem evalAnyUnder (stage : Stage) : P (s.evalAnyUnder c actuation stage) := by
  cases stage with
  | positionKinematics => exact h.bind h.evalPositionKinematics fun _ => h.pure _
  | contactPairs => exact h.bind h.evalContactPairs fun _ => h.pure _
  | contactKinematics => exact h.bind h.evalContactKinematics fun _ => h.pure _
  | freeAccelerations => exact h.bind (h.evalFreeAccelerationsUnder hactuation) fun _ => h.pure _
  | problem => exact h.bind (h.evalProblemUnder hactuation) fun _ => h.pure _
  | results => exact h.bind (h.evalResultsUnder hactuation) fun _ => h.pure _

end

theorem actuationAt (level : Nat) : P (s.actuationAt c level) := by
  induction level with
  | zero => exact h.lift (.error _)
  | succ level ih =>
    rw [Simulator.actuationAt]
    split
    · exact h.pure _
    · exact h.lift _
    · exact h.bind (h.run (h.evalAnyUnder ih) _) fun _ => h.lift _

end Staged.Composed

/-- Evaluations keep what a cache has. -/
theorem Cached.composed_keeps (s : Simulator α) (c : Setting α) :
    Staged.Composed s c (Cached.Keeps c.versions) where
  lift := .lift
  bind := .bind
  outcome h cache hcache := h cache hcache
  evalStage _ h := (Cached.Keeps.lift _).bind fun _ => h.eval

/-! ### What an evaluation leaves -/

/-- The evaluation leaves the entry of a stage as it is. -/
def Staged.Leaves {α β : Type} (t : Stage) (work : Staged α β) : Prop :=
  ∀ cache, Cache.entry? (work cache).2 t.index = cache.entry? t.index

namespace Staged.Leaves

variable {α β γ : Type} {t : Stage}

theorem lift (o : Outcome α β) : Leaves t (liftM o : Staged α β) := fun cache => by rw [Cached.lift_apply]

theorem bind {work : Staged α β} {next : β → Staged α γ} (hwork : Leaves t work)
    (hnext : ∀ x, Leaves t (next x)) :
    Leaves t (work >>= next) := fun cache => by
  have hentry := hwork cache
  cases hw : work cache with
  | mk r d =>
    rw [hw] at hentry
    cases r with
    | error e =>
      rw [Cached.bind_of_error hw]
      exact hentry
    | ok x =>
      rw [Cached.bind_of_ok hw]
      exact (hnext x d).trans hentry

/-- So does that of another stage, if its work does. -/
theorem evalStage {s : Simulator α} {c : Setting α} {stage : Stage} {toValue : β → StageValue α}
    {ofValue? : StageValue α → Option β} {work : Staged α β} (ht : t ≠ stage) (hwork : Leaves t work) :
    Leaves t (s.evalStage c stage toValue ofValue? work) := by
  have hindex := Stage.index_ne ht
  refine (lift _).bind fun _ cache => ?_
  cases he : cache.entry? stage.index with
  | none => rw [Cache.eval_of_none he]
  | some e =>
    cases hidle : cache.isInProgress stage.index with
    | true => rw [Cache.eval_of_busy he hidle]
    | false =>
      cases hx : cache.current? c.versions stage.index with
      | some x => rw [Cache.eval_of_current he hidle hx]
      | none =>
        have hentry := hwork (cache.start stage.index)
        rw [Cache.entry?_start, if_neg (Ne.symm hindex)] at hentry
        rw [Cache.eval_of_stale he hidle hx]
        cases hw : work (cache.start stage.index) with
        | mk r d =>
          rw [hw] at hentry
          cases r with
          | error f =>
            rw [Cache.compute_of_error hw, Cache.entry?_finish, if_neg (Ne.symm hindex)]
            exact hentry
          | ok x =>
            rw [Cache.compute_of_ok hw, Cache.entry?_keep_of_ne hindex]
            exact hentry

theorem evalContactPairs [Scalar α] (s : Simulator α) (c : Setting α) (hk : t ≠ .positionKinematics)
    (hpairs : t ≠ .contactPairs) : Leaves t (s.evalContactPairs c) :=
  evalStage hpairs ((evalStage hk (lift _)).bind fun _ => lift _)

/-- Without actuation to read them, a problem leaves the results alone that are made of it. -/
theorem evalProblem [Scalar α] (s : Simulator α) (c : Setting α) (hactuation : c.actuation = .none) :
    Leaves .results (s.evalProblem c) := by
  have hkinematics : Leaves .results (s.evalPositionKinematics c) := evalStage (by decide) (lift _)
  have hpairs : Leaves .results (s.evalContactPairs c) := .evalContactPairs s c (by decide) (by decide)
  have hcontacts : Leaves .results (s.evalContactKinematics c) :=
    evalStage (by decide) (hkinematics.bind fun _ => hpairs.bind fun _ => lift _)
  have htau : Leaves .results (s.actuationAt c 1) := by
    rw [Simulator.actuationAt, hactuation]
    exact lift (.ok _)
  have hfree : Leaves .results (s.evalFreeAccelerationsUnder c (s.actuationAt c 1)) :=
    evalStage (by decide) (hkinematics.bind fun _ => htau.bind fun _ => lift _)
  exact evalStage (by decide) ((hkinematics.bind fun _ => lift _).bind fun _ => hfree.bind
      fun _ => (lift _).bind fun _ =>
    hpairs.bind fun _ => hcontacts.bind fun _ => (lift _).bind fun _ => (lift _).bind fun _ => lift (.ok _))

end Staged.Leaves

end CompliantContact
