import CompliantContact.Proofs.Simulation.Rest
import CompliantContact.Proofs.Simulation.Unnoticed

/-!
Contexts that several simulators use.

A simulator checks the revision and the sizes of a context, not who has made or used it. What it then
answers follows from the values that are up to date in the context, whoever has worked these out. So it
answers as on a new context of its own if and only if it refuses the context, or all values that it
finds are those that it would have worked out itself (`Simulator.answersAsOwn_iff`). The contacts of
another simulator of the same sizes are served to it without notice.
-/

namespace CompliantContact

open Outcome

variable {α : Type}

/-! ### Kinds of values -/

namespace Cache

variable {c : Cache (StageValue α)}

/-- The entry of a stage holds only values that this stage yields. -/
def Kinded (c : Cache (StageValue α)) : Prop :=
  ∀ (stage : Stage) e x, c.entry? stage.index = some e → e.value = some x → x.stage = stage

namespace Kinded

/-- What changes no value, and may drop some. -/
theorem of_map {d : Cache (StageValue α)} (h : c.Kinded)
    (hd : ∀ i e, d.entry? i = some e → ∃ e', c.entry? i = some e' ∧
      (e.value = e'.value ∨ e.value = none)) : d.Kinded := by
  intro stage e x he hx
  obtain ⟨e', he', hvalue | hvalue⟩ := hd _ e he
  · exact h stage e' x he' (hvalue.symm.trans hx)
  · rw [hvalue] at hx
    cases hx

theorem modify {i : EntryIndex} {f : Entry (StageValue α) → Entry (StageValue α)} (h : c.Kinded)
    (hf : ∀ e, (f e).value = e.value) : Kinded (c.modify i f) := by
  refine h.of_map fun j e he => ?_
  rw [entry?_modify] at he
  split at he
  · obtain ⟨e', he', rfl⟩ := Option.map_eq_some_iff.mp he
    exact ⟨e', he', .inl (hf e')⟩
  · exact ⟨e, he, .inl rfl⟩

theorem start (h : c.Kinded) (i : EntryIndex) : (c.start i).Kinded := h.modify (i := i) fun _ => rfl

theorem finish (h : c.Kinded) (i : EntryIndex) : (c.finish i).Kinded := h.modify fun _ => rfl

theorem keep (h : c.Kinded) (v : SourceVersions) {stage : Stage} {x : StageValue α} (hx : x.stage = stage) :
    (c.keep v stage.index x).Kinded := by
  intro t e y he hy
  rw [entry?_keep] at he
  split at he
  next ht =>
    obtain ⟨e', -, rfl⟩ := Option.map_eq_some_iff.mp he
    cases hy
    exact hx.trans (Stage.index_injective ht)
  next => exact h t e y he hy

theorem invalidateAll (h : c.Kinded) : c.invalidateAll.Kinded := by
  refine h.of_map fun i e he => ?_
  rw [entry?_invalidateAll] at he
  obtain ⟨e', he', rfl⟩ := Option.map_eq_some_iff.mp he
  exact ⟨e', he', .inr rfl⟩

theorem emptyLike (h : c.Kinded) : c.emptyLike.Kinded := by
  refine h.of_map fun i e he => ?_
  rw [entry?_emptyLike] at he
  obtain ⟨e', he', rfl⟩ := Option.map_eq_some_iff.mp he
  exact ⟨e', he', .inr rfl⟩

theorem current (h : c.Kinded) {v : SourceVersions} {stage : Stage} {x : StageValue α}
    (hx : c.current? v stage.index = some x) : x.stage = stage := by
  rw [current?] at hx
  split at hx
  · obtain ⟨e, he, hvalue⟩ := Option.bind_eq_some_iff.mp hx
    exact h stage e x he hvalue
  · cases hx

end Kinded

theorem kinded_stageCache : (stageCache α).Kinded := by
  intro stage e x he hx
  obtain ⟨_, _, rfl⟩ := mem_stageCache he
  cases hx

end Cache

/-- Evaluations keep the values of a cache of their kinds. -/
theorem Cache.composed_kinded (s : Simulator α) (c : Setting α) :
    Staged.Composed s c fun work => ∀ cache : Cache (StageValue α), cache.Kinded → (work cache).2.Kinded where
  lift o cache h := by
    rw [Cached.lift_apply]
    exact h
  bind {_ _ work next} hwork hnext cache h := by
    have hkinded := hwork cache h
    cases hw : work cache with
    | mk r d =>
      rw [hw] at hkinded
      cases r with
      | error e =>
        rw [Cached.bind_of_error hw]
        exact hkinded
      | ok x =>
        rw [Cached.bind_of_ok hw]
        exact hnext x d hkinded
  outcome h cache hcache := h cache hcache
  evalStage {_ stage _ _ work} hkind hwork cache h := by
    have hlift := Cached.lift_apply (s.validate c) cache
    cases hvalid : s.validate c with
    | error e =>
      rw [hvalid] at hlift
      rw [Simulator.evalStage, hvalid, Cached.bind_of_error hlift]
      exact h
    | ok u =>
      rw [hvalid] at hlift
      rw [Simulator.evalStage, hvalid, Cached.bind_of_ok hlift]
      cases he : cache.entry? stage.index with
      | none =>
        rw [Cache.eval_of_none he]
        exact h
      | some e =>
        cases hidle : cache.isInProgress stage.index with
        | true =>
          rw [Cache.eval_of_busy he hidle]
          exact h
        | false =>
          cases hx : cache.current? c.versions stage.index with
          | some x =>
            rw [Cache.eval_of_current he hidle hx]
            exact h
          | none =>
            rw [Cache.eval_of_stale he hidle hx]
            have hkinded := hwork _ (h.start stage.index)
            cases hw : work (cache.start stage.index) with
            | mk r d =>
              rw [hw] at hkinded
              cases r with
              | error f =>
                rw [Cache.compute_of_error hw]
                exact hkinded.finish _
              | ok x =>
                rw [Cache.compute_of_ok hw]
                exact hkinded.keep _ (hkind x)

variable [Scalar α]

/-- Whoever has used a context, its cache has values of the right kinds. -/
theorem Context.Reachable.kinded {c : Context α} (h : c.Reachable) : c.cache.Kinded := by
  induction h with
  | created s => exact Cache.kinded_stageCache
  | @performed s op c _ ih =>
    cases op with
    | change x =>
      rw [Operation.perform_change]
      cases x.check c.toSetting <;> exact ih
    | ask q => exact (Cache.composed_kinded s c.toSetting).ask q c.cache ih
    | advance =>
      have hkinded := (Cache.composed_kinded s c.toSetting).evalNextState c.cache ih
      rw [Operation.perform]
      cases hw : s.evalNextState c.toSetting c.cache with
      | mk r cache =>
        rw [hw] at hkinded
        cases r with
        | error e =>
          rw [Simulator.advance_of_error hw]
          exact hkinded
        | ok x =>
          rw [Simulator.advance_of_ok hw, Direct.commit]
          cases Change.check c.toSetting (.discreteState x) <;> exact hkinded
    | clone => exact ih.emptyLike
    | invalidateAll => exact ih.invalidateAll

/-! ### Held values that a simulator works out itself -/

/-- What is held is what the simulator works out when nothing is held. -/
def Held.Own (s : Simulator α) (c : Setting α) (held : Held α) : Prop :=
  ∀ stage x, held stage = some x → Direct.any s c (fun _ => none) stage = .ok x

namespace Direct

variable {s : Simulator α} {c : Setting α} {held : Held α}

omit [Scalar α] in
theorem stage_eq_of_own {β : Type} {t : Stage} {ofValue? : StageValue α → Option β} {work work' : Outcome α β}
    (hwork : held t = none → work = work')
    (hheld : ∀ x, held t = some x → ∃ y, stage s c (fun _ => none) t ofValue? work' = .ok y ∧
      ofValue? x = some y) :
    stage s c held t ofValue? work = stage s c (fun _ => none) t ofValue? work' := by
  cases ht : held t with
  | none => rw [stage, stage, ht, hwork ht]
  | some x =>
    obtain ⟨y, hy, hread⟩ := hheld x ht
    rw [hy, stage, ht]
    obtain ⟨_, hvalid, -⟩ := bind_eq_ok_iff.mp hy
    refine bind_eq_ok_iff.mpr ⟨_, hvalid, ?_⟩
    simp only [Cache.readKept, hread]

variable (h : held.Own s c)
include h

theorem kinematics_eq_of_own : kinematics s c held = kinematics s c fun _ => none := by
  refine stage_eq_of_own (fun _ => rfl) fun x hx => ?_
  obtain ⟨k, hk, hkind⟩ := bind_eq_ok_iff.mp (h _ x hx)
  cases hkind
  exact ⟨k, hk, rfl⟩

theorem pairs_eq_of_own : pairs s c held = pairs s c fun _ => none := by
  refine stage_eq_of_own (fun _ => ?_) fun x hx => ?_
  · rw [workPairs, workPairs, kinematics_eq_of_own h]
  · obtain ⟨pairs, hpairs, hkind⟩ := bind_eq_ok_iff.mp (h _ x hx)
    cases hkind
    exact ⟨pairs, hpairs, rfl⟩

theorem contacts_eq_of_own : contacts s c held = contacts s c fun _ => none := by
  refine stage_eq_of_own (fun _ => ?_) fun x hx => ?_
  · rw [workContacts, workContacts, kinematics_eq_of_own h, pairs_eq_of_own h]
  · obtain ⟨contacts, hcontacts, hkind⟩ := bind_eq_ok_iff.mp (h _ x hx)
    cases hkind
    exact ⟨contacts, hcontacts, rfl⟩

theorem linearDynamics_eq_of_own : linearDynamics s c held = linearDynamics s c fun _ => none := by
  rw [linearDynamics, linearDynamics, kinematics_eq_of_own h]

theorem answer_eq_of_own (asker : Asker) : answer s c held asker = answer s c (fun _ => none) asker := by
  have hblocked : blocked s c held = blocked s c fun _ => none := by
    funext inProgress
    rw [blocked, blocked, linearDynamics_eq_of_own h]
  funext stage
  cases stage with
  | positionKinematics => rw [answer, answer, kinematics_eq_of_own h]
  | contactPairs => rw [answer, answer, pairs_eq_of_own h]
  | contactKinematics => rw [answer, answer, contacts_eq_of_own h]
  | freeAccelerations => rfl
  | problem => rw [answer, answer, hblocked]
  | results => rw [answer, answer, hblocked]

variable (blind : c.actuation.Blind)
include blind

/-- A value that is held was worked out for a client. For whoever waits it is the same, if the linear
    dynamics are found. -/
theorem free_eq_of_own {asker : Asker}
    (hasker : asker ≠ .client → ∃ m, linearDynamics s c (fun _ => none) = .ok m) :
    free s c held asker = free s c (fun _ => none) asker := by
  refine stage_eq_of_own (fun _ => ?_) fun x hx => ?_
  · rw [workFree, workFree, kinematics_eq_of_own h, answer_eq_of_own h]
  · obtain ⟨a, ha, hkind⟩ := bind_eq_ok_iff.mp (h _ x hx)
    cases hkind
    refine ⟨a, ?_, rfl⟩
    by_cases hclient : asker = .client
    · rw [hclient]
      exact ha
    · obtain ⟨m, hm⟩ := hasker hclient
      exact (sameValue_stage _ (sameValue_workFree blind hm .client asker) a).mp ha

theorem problem_eq_of_own (asker : Asker) : problem s c held asker = problem s c (fun _ => none) asker := by
  refine stage_eq_of_own (fun _ => ?_) fun x hx => ?_
  · rw [workProblem, workProblem, linearDynamics_eq_of_own h, pairs_eq_of_own h, contacts_eq_of_own h]
    cases hm : linearDynamics s c fun _ => none with
    | error e => rfl
    | ok m => rw [free_eq_of_own h blind fun _ => ⟨m, hm⟩]
  · obtain ⟨p, hp, hkind⟩ := bind_eq_ok_iff.mp (h _ x hx)
    cases hkind
    exact ⟨p, (sameValue_stage _ (sameValue_workProblem blind .client asker) p).mp hp, rfl⟩

theorem results_eq_of_own : results s c held = results s c fun _ => none := by
  refine stage_eq_of_own (fun _ => ?_) fun x hx => ?_
  · rw [workResults, workResults, problem_eq_of_own h blind]
  · obtain ⟨r, hr, hkind⟩ := bind_eq_ok_iff.mp (h _ x hx)
    cases hkind
    exact ⟨r, hr, rfl⟩

theorem any_eq_of_own : any s c held = any s c fun _ => none := by
  funext stage
  cases stage with
  | positionKinematics => rw [any, any, kinematics_eq_of_own h]
  | contactPairs => rw [any, any, pairs_eq_of_own h]
  | contactKinematics => rw [any, any, contacts_eq_of_own h]
  | freeAccelerations => rw [any, any, free_eq_of_own h blind fun hclient => absurd rfl hclient]
  | problem => rw [any, any, problem_eq_of_own h blind]
  | results => rw [any, any, results_eq_of_own h blind]

theorem reports_eq_of_own : reports s c held = reports s c fun _ => none := by
  rw [reports, reports, pairs_eq_of_own h, problem_eq_of_own h blind, results_eq_of_own h blind]

theorem ask_eq_of_own (q : Query) : ask s c held q = ask s c (fun _ => none) q := by
  cases q with
  | stage stage => rw [ask, ask, any_eq_of_own h blind]
  | actuation => rw [ask, ask, any_eq_of_own h blind]
  | freeVelocities =>
    rw [ask, ask, freeVelocities, freeVelocities, free_eq_of_own h blind fun hclient => absurd rfl hclient]
  | linearDynamics => rw [ask, ask, linearDynamics_eq_of_own h]
  | nextState => rw [ask, ask, nextState, nextState, results_eq_of_own h blind]
  | accelerations => rw [ask, ask, accelerations, accelerations, results_eq_of_own h blind]
  | reports => rw [ask, ask, reports_eq_of_own h blind]

end Direct

/-! ### Answers from a shared context -/

namespace Simulator

variable (s : Simulator α) (c : Context α)

/-- A new context of the simulator with the same time, state, parameters and actuation. -/
def ownContext : Context α :=
  { c with versions := .zero, revision := s.revision, cache := stageCache α }

/-- What the simulator evaluates in the context fails for a structural reason, or is what it evaluates
    in a new context of its own. -/
def AnswersAsOwn : Prop :=
  ∀ q ≠ .actuation, (∃ e, e.isStructural = true ∧ ((Operation.ask q).perform s c).1 = .error e) ∨
    ((Operation.ask q).perform s c).1 = ((Operation.ask q).perform s (s.ownContext c)).1

/-- Every value that is up to date in the context is the one that the simulator evaluates in a new
    context of its own. -/
def FindsOwn : Prop :=
  ∀ stage x, c.current c.cache stage = some x →
    ((Operation.ask (.stage stage)).perform s (s.ownContext c)).1 = .ok (.value x)

variable {s c}

omit [Scalar α] in
/-- A refusal has a structural reason. -/
theorem isStructural_of_validate {c : Setting α} {e : Failure α} (h : s.validate c = .error e) :
    e.isStructural = true := by
  rw [validate, require, require] at h
  by_cases hrevision : c.revision = s.revision
  · rw [if_pos hrevision] at h
    by_cases hsizes : c.state.numPositions = s.model.numPositions ∧
      c.state.numVelocities = s.model.numVelocities
    · rw [if_pos hsizes] at h
      cases h
    · rw [if_neg hsizes] at h
      cases h
      rfl
  · rw [if_neg hrevision] at h
    cases h
    rfl

omit [Scalar α] in
theorem stage_of_refused {c : Setting α} {held : Held α} {e : Failure α}
    (h : s.validate c = .error e) {β : Type}
    (t : Stage) (ofValue? : StageValue α → Option β) (work : Outcome α β) :
    Direct.stage s c held t ofValue? work = .error e := by
  rw [Direct.stage, h]
  rfl

/-- A simulator that refuses a setting refuses whatever it evaluates in it. -/
theorem ask_of_refused {c : Setting α} {held : Held α} {e : Failure α}
    (h : s.validate c = .error e) {q : Query}
    (hq : q ≠ .actuation) : Direct.ask s c held q = .error e := by
  have hkinematics : Direct.kinematics s c held = .error e := stage_of_refused h ..
  have hpairs : Direct.pairs s c held = .error e := stage_of_refused h ..
  have hcontacts : Direct.contacts s c held = .error e := stage_of_refused h ..
  have hfree : ∀ asker, Direct.free s c held asker = .error e := fun _ => stage_of_refused h ..
  have hproblem : ∀ asker, Direct.problem s c held asker = .error e := fun _ => stage_of_refused h ..
  have hresults : Direct.results s c held = .error e := stage_of_refused h ..
  cases q with
  | stage stage =>
    cases stage with
    | positionKinematics => rw [Direct.ask, Direct.any, hkinematics]; rfl
    | contactPairs => rw [Direct.ask, Direct.any, hpairs]; rfl
    | contactKinematics => rw [Direct.ask, Direct.any, hcontacts]; rfl
    | freeAccelerations => rw [Direct.ask, Direct.any, hfree]; rfl
    | problem => rw [Direct.ask, Direct.any, hproblem]; rfl
    | results => rw [Direct.ask, Direct.any, hresults]; rfl
  | actuation => exact absurd rfl hq
  | freeVelocities => rw [Direct.ask, Direct.freeVelocities, hfree]; rfl
  | linearDynamics => rw [Direct.ask, Direct.linearDynamics, hkinematics]; rfl
  | nextState => rw [Direct.ask, Direct.nextState, hresults]; rfl
  | accelerations => rw [Direct.ask, Direct.accelerations, hresults]; rfl
  | reports => rw [Direct.ask, Direct.reports, hpairs]; rfl

omit [Scalar α] in
theorem stage_of_held {c : Setting α} {held : Held α} (hvalid : s.validate c = .ok ()) {β : Type} {t : Stage}
    {ofValue? : StageValue α → Option β} {work : Outcome α β} {x : StageValue α} {y : β}
    (hx : held t = some x)
    (hread : ofValue? x = some y) : Direct.stage s c held t ofValue? work = .ok y := by
  rw [Direct.stage, hvalid, hx]
  refine bind_eq_ok_iff.mpr ⟨(), rfl, ?_⟩
  simp only [Cache.readKept, hread]

/-- A simulator works results out from the problem that a context has, whoever has assembled it. -/
theorem exists_run_results {c : Context α} (h : c.Resting) (hvalid : s.validate c.toSetting = .ok ())
    (blind : c.actuation.Blind) {p : AssembledProblem α} {r : ContactResults α}
    (hp : c.current c.cache .problem = some (.problem p)) (hnone : c.current c.cache .results = none)
    (hr : s.contactResults c.state p = .ok r) : ∃ d, c.run (s.evalResults c.toSetting) = (.ok r, d) := by
  have hproblem : Direct.problem s c.toSetting (c.current c.cache) .results = .ok p :=
    stage_of_held hvalid hp rfl
  have hresults : Direct.results s c.toSetting (c.current c.cache) = .ok r := by
    rw [Direct.results, Direct.stage, hvalid, hnone]
    exact bind_eq_ok_iff.mpr ⟨(), rfl, bind_eq_ok_iff.mpr ⟨p, hproblem, hr⟩⟩
  obtain ⟨hrun, -⟩ := gives_results blind _ (h.agrees s).faithful
  exact ⟨_, Prod.ext (hrun.trans hresults) rfl⟩

/-- A simulator that does not refuse a setting is served what is held. -/
theorem any_of_held {c : Setting α} {held : Held α} (hvalid : s.validate c = .ok ()) {t : Stage}
    {x : StageValue α}
    (hx : held t = some x) (hkind : x.stage = t) : Direct.any s c held t = .ok x := by
  subst hkind
  cases x with
  | positionKinematics k => exact bind_eq_ok_iff.mpr ⟨k, stage_of_held hvalid hx rfl, rfl⟩
  | contactPairs pairs => exact bind_eq_ok_iff.mpr ⟨pairs, stage_of_held hvalid hx rfl, rfl⟩
  | contactKinematics contacts => exact bind_eq_ok_iff.mpr ⟨contacts, stage_of_held hvalid hx rfl, rfl⟩
  | freeAccelerations a => exact bind_eq_ok_iff.mpr ⟨a, stage_of_held hvalid hx rfl, rfl⟩
  | problem p => exact bind_eq_ok_iff.mpr ⟨p, stage_of_held hvalid hx rfl, rfl⟩
  | results r => exact bind_eq_ok_iff.mpr ⟨r, stage_of_held hvalid hx rfl, rfl⟩

/-- In a context that the simulator does not refuse, it evaluates as in a new one of its own if the
    values that it finds are its own. -/
theorem ask_ownContext (hvalid : s.validate c.toSetting = .ok ()) (blind : c.actuation.Blind) (q : Query) :
    ((Operation.ask q).perform s (s.ownContext c)).1 = Direct.ask s c.toSetting (fun _ => none) q := by
  have hagrees : Agrees s (s.ownContext c).toSetting (fun _ => none) (s.ownContext c) := ⟨rfl, .of_stageCache⟩
  have hsetting : (s.ownContext c).toSetting = { c.toSetting with versions := .zero } := by
    rw [ownContext, ← (validate_eq_ok hvalid).1]
  refine (hagrees.perform blind (.ask q)).1.trans ?_
  rw [hsetting]
  exact Direct.ask_versions .zero q

/-- Whoever has made a context and has used it before: a simulator evaluates in it as in a new context
    of its own, or fails for a structural reason, if and only if it refuses the context or the values
    that it finds up to date are its own. -/
theorem answersAsOwn_iff (s : Simulator α) (c : Context α) (hc : c.Reachable) (blind : c.actuation.Blind) :
    s.AnswersAsOwn c ↔ s.validate c.toSetting ≠ .ok () ∨ s.FindsOwn c := by
  have hanswer : ∀ q, ((Operation.ask q).perform s c).1 =
      Direct.ask s c.toSetting (c.current c.cache) q := fun q =>
    ((hc.resting.agrees s).perform blind (.ask q)).1
  cases hvalid : s.validate c.toSetting with
  | error e =>
    refine iff_of_true (fun q hq => .inl ⟨e, isStructural_of_validate hvalid, ?_⟩) (.inl nofun)
    rw [hanswer, ask_of_refused hvalid hq]
  | ok u =>
    have hown := ask_ownContext hvalid blind
    have hfinds : s.FindsOwn c ↔ Held.Own s c.toSetting (c.current c.cache) := by
      refine forall_congr' fun stage => forall_congr' fun x => imp_congr_right fun _ => ?_
      rw [hown, Direct.ask]
      cases Direct.any s c.toSetting (fun _ => none) stage with
      | error e => exact iff_of_false nofun nofun
      | ok y => exact ⟨fun h => by cases h; rfl, fun h => by cases h; rfl⟩
    constructor
    · intro hanswers
      refine .inr fun stage x hx => ?_
      have hx' : ((Operation.ask (.stage stage)).perform s c).1 = .ok (.value x) := by
        rw [hanswer, Direct.ask, any_of_held hvalid hx (hc.kinded.current hx)]
        rfl
      obtain ⟨e, -, he⟩ | hsame := hanswers (.stage stage) nofun
      · rw [hx'] at he
        cases he
      · rw [← hsame, hx']
    · rintro (hrefused | hfound)
      · exact absurd rfl hrefused
      · refine fun q _ => .inr ?_
        rw [hanswer, hown, Direct.ask_eq_of_own (hfinds.mp hfound) blind]

theorem perform_ask_results {d : Context α} {r : ContactResults α}
    (h : c.run (s.evalResults c.toSetting) = (.ok r, d)) :
    (Operation.ask (.stage .results)).perform s c = (.ok (.value (.results r)), d) :=
  Context.run_map (Context.run_map h)

/-- The settings are accepted whatever the geometry. -/
theorem new_of_geometry {model : Model α} {geometry : GeometryQuery α} {config : Config α}
    (h : new model geometry config = .ok s) (other : GeometryQuery α) :
    new model other config = .ok { s with geometry := other } := by
  obtain ⟨_, hconfig, hnew⟩ := bind_eq_ok_iff.mp h
  obtain ⟨_, hsolver, hs⟩ := bind_eq_ok_iff.mp hnew
  cases hs
  exact bind_eq_ok_iff.mpr ⟨_, hconfig, bind_eq_ok_iff.mpr ⟨_, hsolver, rfl⟩⟩

/-- The ball, for a simulator that knows of no geometry. -/
noncomputable def ballInVoid : Simulator ℝ := { ballOnGround with geometry := .ofTable [] (.ok []) }

theorem pairs_ballInVoid {c : Setting ℝ} (hvalid : ballInVoid.validate c = .ok ()) :
    Direct.pairs ballInVoid c (fun _ => none) = .ok [] := by
  obtain ⟨k, hk, -⟩ := kinematics_ball none none c.state.positions (validate_eq_ok hvalid).2.1
  have hkinematics : Direct.kinematics ballInVoid c (fun _ => none) = .ok k :=
    bind_eq_ok_iff.mpr ⟨_, hvalid, hk⟩
  exact bind_eq_ok_iff.mpr ⟨_, hvalid, bind_eq_ok_iff.mpr ⟨k, hkinematics, rfl⟩⟩

/-- Two simulators of the same ball, one of them with ground under it. A context that the first has
    evaluated serves its contact to the second, which has none in a new context of its own. -/
theorem answersAsOwn_ballInVoid :
    new ⟨ball, []⟩ ground ballOnGround.config = .ok ballOnGround ∧
      new ⟨ball, []⟩ ballInVoid.geometry ballOnGround.config = .ok ballInVoid ∧
      ∃ c, ((Operation.ask (.stage .results)).perform ballOnGround ballOnGround.defaultContext).2 = c ∧
        ((Operation.ask (.stage .contactPairs)).perform ballInVoid c).1 =
          .ok (.value (.contactPairs [restingPair])) ∧
        ((Operation.ask (.stage .contactPairs)).perform ballInVoid (ballInVoid.ownContext c)).1 =
          .ok (.value (.contactPairs [])) ∧ ¬ ballInVoid.AnswersAsOwn c := by
  refine ⟨new_ballOnGround, new_of_geometry new_ballOnGround _, _, rfl, ?_⟩
  obtain ⟨y, d, -, -, hrun⟩ := exists_results_ballOnGround
  have hd : ((Operation.ask (.stage .results)).perform ballOnGround ballOnGround.defaultContext).2 = d := by
    rw [perform_ask_results hrun]
  rw [hd]
  have hreachable : d.Reachable := hd ▸ .performed ballOnGround _ (.created ballOnGround)
  have hvalid := ballOnGround.validate_defaultContext
  obtain ⟨hsetting, hworked, -, hcurrent⟩ :=
    ballOnGround.vouches_defaultContext.learned (.created ballOnGround) hvalid (learns_evalResults rfl) hrun
  rw [← hsetting] at hvalid
  obtain ⟨y, -, hfollows, hknown⟩ := Held.WorkedBy.exists_follows hworked hvalid hcurrent
  have hpairs := hknown.pairs
  rw [Except.ok.inj (hfollows.pairs.symm.trans (pairs_ball _))] at hpairs
  have hvalid : ballInVoid.validate d.toSetting = .ok () := hvalid
  have blind : d.actuation.Blind := by
    rw [hsetting]
    exact ballOnGround.blind_defaultContext
  have hown : ((Operation.ask (.stage .contactPairs)).perform ballInVoid (ballInVoid.ownContext d)).1 =
      .ok (.value (.contactPairs [])) := by
    rw [ask_ownContext hvalid blind, Direct.ask, Direct.any, pairs_ballInVoid hvalid]
    rfl
  refine ⟨?_, hown, fun hanswers => ?_⟩
  · refine ((hreachable.resting.agrees ballInVoid).perform blind (.ask (.stage .contactPairs))).1.trans ?_
    exact bind_eq_ok_iff.mpr ⟨_, any_of_held hvalid hpairs rfl, rfl⟩
  · obtain hrefused | hfinds := (answersAsOwn_iff ballInVoid d hreachable blind).mp hanswers
    · exact hrefused hvalid
    · have hserved := hfinds .contactPairs _ hpairs
      rw [hown] at hserved
      cases hserved

end Simulator

end CompliantContact
