import CompliantContact.Proofs.Outcome
import CompliantContact.Proofs.Simulation.Unnoticed

/-!
Coherent contexts: the values of the stages fit together.

Every value that is up to date was worked out from the values of the stages before it that are up to
date now, by one of a crew of simulators that has the revision of the context. Evaluation keeps a
context so, with any source of actuation, because it keeps what is up to date and only adds what it has
worked out. A change keeps it so as well: a stage that does not read the source of the change was worked
out from stages that do not read it either.
-/

namespace CompliantContact

variable {α : Type}

/-- The values of the stages that are up to date. -/
def Setting.current (c : Setting α) (cache : Cache (StageValue α)) : Held α := fun stage =>
  cache.current? c.versions stage.index

/-- What is known here is known there. -/
def Held.Le (known more : Held α) : Prop := ∀ stage x, known stage = some x → more stage = some x

/-- A property that further knowledge leaves. -/
def Held.Lasts (property : Held α → Prop) : Prop :=
  ∀ known more, Held.Le known more → property known → property more

theorem Held.lasts_known (stage : Stage) (x : StageValue α) : Held.Lasts fun known => known stage = some x :=
  fun _ _ hle hx => hle stage x hx

theorem Cache.Kept.current_le {c : Setting α} {cache d : Cache (StageValue α)}
    (h : Cache.Kept c.versions cache d) :
    (c.current cache).Le (c.current d) := fun stage x hx => h.current stage.index x hx

variable [Scalar α]

namespace Simulator

/-- The problem of a step from the stages that it needs. -/
def assemble (s : Simulator α) (x : State α) (dynamics : List (Mat α)) (a : FreeAccelerations α)
    (pairs : List (ContactPair α)) (kinematics : List (ContactKinematics α)) :
    Outcome α (AssembledProblem α) := do
  let p ← Problem.new s.timeStep dynamics (s.freeVelocities x a)
  let contacts ← s.addContacts p pairs kinematics
  let p ← s.addJointConstraints x contacts.problem
  return ⟨p, contacts.frames⟩

def discretizer (s : Simulator α) : Discretizer α :=
  ⟨s.geometry, s.model.toMechanism, s.config.defaultContactStiffness⟩

omit [Scalar α] in
theorem validate_eq_ok {s : Simulator α} {c : Setting α} (h : s.validate c = .ok ()) :
    c.revision = s.revision ∧ c.state.numPositions = s.model.numPositions ∧
    c.state.numVelocities = s.model.numVelocities := by
  rw [validate, Outcome.require_bind_eq_ok_iff, require_eq_ok_iff] at h
  exact ⟨h.1, h.2.1, h.2.2⟩

end Simulator

/-- Actuation that readings end with, when the stages that answer give known values. -/
inductive Reading.Yields (known : Held α) : Reading α → Vec α → Prop where
  | done (tau : Vec α) : Yields known (.done (.ok tau)) tau
  | value {stage : Stage} {next : Outcome α (StageValue α) → Reading α} {x : StageValue α} {tau : Vec α}
      (hx : known stage = some x) (h : Yields known (next (.ok x)) tau) : Yields known (.read stage next) tau
  | failure {stage : Stage} {next : Outcome α (StageValue α) → Reading α} {e : Failure α} {tau : Vec α}
      (h : Yields known (next (.error e)) tau) : Yields known (.read stage next) tau

/-- A vector that the actuation of a context supplies. -/
def Setting.Supplies (c : Setting α) (known : Held α) (tau : Vec α) : Prop :=
  match c.actuation with
  | .none => tau = .zeros c.state.numVelocities
  | .fixed given => tau = given
  | .source source => (source c.state).Yields known tau

/-- A value of a stage, worked out from known values of the stages before it. -/
inductive Worked (s : Simulator α) (c : Setting α) (known : Held α) : Stage → StageValue α → Prop where
  | positionKinematics {k : PositionKinematics α} (h : s.model.positionKinematics c.state.positions = .ok k) :
      Worked s c known .positionKinematics (.positionKinematics k)
  | contactPairs {k : PositionKinematics α} {pairs : List (ContactPair α)}
      (hk : known .positionKinematics = some (.positionKinematics k))
      (h : s.discretizer.contactPairs k s.config.contactModel = .ok pairs) :
      Worked s c known .contactPairs (.contactPairs pairs)
  | contactKinematics {k : PositionKinematics α} {pairs : List (ContactPair α)}
      {kinematics : List (ContactKinematics α)}
      (hk : known .positionKinematics = some (.positionKinematics k))
      (hpairs : known .contactPairs = some (.contactPairs pairs))
      (h : ContactKinematics.ofPairs s.model.toMechanism k s.geometry pairs = .ok kinematics) :
      Worked s c known .contactKinematics (.contactKinematics kinematics)
  | freeAccelerations {k : PositionKinematics α} {tau : Vec α} {a : FreeAccelerations α}
      (hk : known .positionKinematics = some (.positionKinematics k)) (htau : c.Supplies known tau)
      (h : s.freeAccelerations c.state k tau = .ok a) :
      Worked s c known .freeAccelerations (.freeAccelerations a)
  | problem {k : PositionKinematics α} {dynamics : List (Mat α)} {a : FreeAccelerations α}
      {pairs : List (ContactPair α)} {kinematics : List (ContactKinematics α)} {p : AssembledProblem α}
      (hk : known .positionKinematics = some (.positionKinematics k))
      (hdynamics : s.linearDynamics c.state k = .ok dynamics)
      (ha : known .freeAccelerations = some (.freeAccelerations a))
      (hpairs : known .contactPairs = some (.contactPairs pairs))
      (hkinematics : known .contactKinematics = some (.contactKinematics kinematics))
      (h : s.assemble c.state dynamics a pairs kinematics = .ok p) : Worked s c known .problem (.problem p)
  | results {p : AssembledProblem α} {r : ContactResults α} (hp : known .problem = some (.problem p))
      (h : s.contactResults c.state p = .ok r) : Worked s c known .results (.results r)

/-- A cache whose values fit together: each is the work of one of a crew of simulators. -/
structure Coherent (crew : Simulator α → Prop) (c : Setting α) (cache : Cache (StageValue α)) : Prop where
  sound : cache.Sound c.versions
  staged : cache.Staged
  worked : ∀ stage x, c.current cache stage = some x →
    ∃ s, crew s ∧ c.revision = s.revision ∧ Worked s c (c.current cache) stage x

variable {crew : Simulator α → Prop} {s : Simulator α} {c : Setting α} {known more : Held α}
  {cache d : Cache (StageValue α)} {stage : Stage} {x : StageValue α}

omit [Scalar α] in
theorem Reading.Yields.mono {r : Reading α} {tau : Vec α} (h : r.Yields known tau)
    (hle : known.Le more) : r.Yields more tau := by
  induction h with
  | done tau => exact .done tau
  | value hx _ ih => exact .value (hle _ _ hx) ih
  | failure _ ih => exact .failure ih

theorem Setting.Supplies.mono {tau : Vec α} (h : c.Supplies known tau) (hle : known.Le more) :
    c.Supplies more tau := by
  rw [Setting.Supplies] at h ⊢
  split at h
  · exact h
  · exact h
  · exact Reading.Yields.mono h hle

namespace Worked

theorem mono (h : Worked s c known stage x) (hle : known.Le more) : Worked s c more stage x := by
  cases h with
  | positionKinematics h => exact .positionKinematics h
  | contactPairs hk h => exact .contactPairs (hle _ _ hk) h
  | contactKinematics hk hpairs h => exact .contactKinematics (hle _ _ hk) (hle _ _ hpairs) h
  | freeAccelerations hk htau h => exact .freeAccelerations (hle _ _ hk) (htau.mono hle) h
  | problem hk hdynamics ha hpairs hkinematics h =>
    exact .problem (hle _ _ hk) hdynamics (hle _ _ ha) (hle _ _ hpairs) (hle _ _ hkinematics) h
  | results hp h => exact .results (hle _ _ hp) h

/-- All stages that a stage depends on are known. -/
theorem prerequisite (h : Worked s c known stage x) {j : EntryIndex} (hj : .entry j ∈ stage.prerequisites) :
    ∃ t : Stage, j = t.index ∧ ∃ y, known t = some y := by
  cases h <;> simp only [Stage.prerequisites, List.mem_cons, List.not_mem_nil, or_false,
    reduceCtorEq, false_or, Prerequisite.entry.injEq] at hj
  case contactPairs hk _ => exact ⟨_, hj, _, hk⟩
  case contactKinematics hk hpairs _ =>
    rcases hj with hj | hj
    · exact ⟨_, hj, _, hk⟩
    · exact ⟨_, hj, _, hpairs⟩
  case freeAccelerations hk _ _ => exact ⟨_, hj, _, hk⟩
  case problem ha _ hkinematics _ =>
    rcases hj with hj | hj
    · exact ⟨_, hj, _, hkinematics⟩
    · exact ⟨_, hj, _, ha⟩
  case results hp _ => exact ⟨_, hj, _, hp⟩

end Worked

namespace Coherent

/-- Only what is current decides. -/
theorem of_current_eq (h : Coherent crew c cache) (sound : d.Sound c.versions) (staged : d.Staged)
    (hcurrent : c.current d = c.current cache) : Coherent crew c d where
  sound := sound
  staged := staged
  worked stage x hx := by
    rw [hcurrent] at hx ⊢
    exact h.worked stage x hx

theorem of_current_eq_none (sound : cache.Sound c.versions) (staged : cache.Staged)
    (hnone : ∀ stage, c.current cache stage = none) : Coherent crew c cache where
  sound := sound
  staged := staged
  worked stage x hx := by
    rw [hnone] at hx
    cases hx

/-- A larger crew will do as well. -/
theorem mono {others : Simulator α → Prop} (h : Coherent crew c cache) (hle : ∀ s, crew s → others s) :
    Coherent others c cache where
  sound := h.sound
  staged := h.staged
  worked stage x hx := by
    obtain ⟨s, hs, hworked⟩ := h.worked stage x hx
    exact ⟨s, hle s hs, hworked⟩

theorem start (h : Coherent crew c cache) (hx : c.current cache stage = none) :
    Coherent crew c (cache.start stage.index) := by
  refine h.of_current_eq (h.sound.start (Cache.isUpToDate_eq_false hx)) (h.staged.start stage.index) ?_
  exact funext fun t => Cache.current?_start cache stage.index t.index

/-- A value that was worked out is kept: what it depends on is up to date. -/
theorem keep (h : Coherent crew c d) (hstale : d.isUpToDate c.versions stage.index = false) (hs : crew s)
    (hrevision : c.revision = s.revision) (hx : Worked s c (c.current d) stage x) :
    Coherent crew c (d.keep c.versions stage.index x) ∧
      c.current (d.keep c.versions stage.index x) stage = some x := by
  have hother : ∀ t ≠ stage, c.current (d.keep c.versions stage.index x) t = c.current d t := fun t ht =>
    Cache.current?_keep_of_ne h.sound hstale (Stage.index_ne ht)
  have hself : c.current (d.keep c.versions stage.index x) stage = some x := by
    obtain ⟨e, he, -, hprerequisites⟩ := h.staged stage
    have hentries : ∀ j, .entry j ∈ e.prerequisites → d.isUpToDate c.versions j = true := by
      intro j hj
      rw [hprerequisites] at hj
      obtain ⟨t, rfl, y, hy⟩ := hx.prerequisite hj
      exact (Cache.current?_eq_some.mp hy).1
    have hkept := Cache.entry?_keep d c.versions stage.index stage.index x
    rw [if_pos rfl, he] at hkept
    exact Cache.current?_eq_some.mpr ⟨Cache.isUpToDate_keep_self h.sound hstale he hentries, _, hkept, rfl⟩
  have hle : (c.current d).Le (c.current (d.keep c.versions stage.index x)) := by
    intro t y hy
    have ht : t ≠ stage := by
      rintro rfl
      rw [Setting.current, Cache.current?, hstale] at hy
      cases hy
    rw [hother t ht]
    exact hy
  refine ⟨⟨h.sound.keep, h.staged.keep c.versions stage.index x, fun t y hy => ?_⟩, hself⟩
  by_cases ht : t = stage
  · subst ht
    rw [hself] at hy
    cases hy
    exact ⟨s, hs, hrevision, hx.mono hle⟩
  · rw [hother t ht] at hy
    obtain ⟨r, hr, hrevision', hworked⟩ := h.worked t y hy
    exact ⟨r, hr, hrevision', hworked.mono hle⟩

end Coherent

/-! ### What evaluation learns -/

open Cached

/-- From a coherent cache, a computation leaves a coherent one with all that was up to date, and its
    answer has a property, given what is up to date in the end. -/
def Learns (crew : Simulator α → Prop) (c : Setting α) {β : Type} (work : Staged α β)
    (property : Held α → β → Prop) : Prop :=
  ∀ cache, Coherent crew c cache → Coherent crew c (work cache).2 ∧
  Cache.Kept c.versions cache (work cache).2 ∧
    ∀ x, (work cache).1 = .ok x → property (c.current (work cache).2) x

namespace Learns

variable {β γ : Type} {work : Staged α β} {next : β → Staged α γ} {property middle : Held α → β → Prop}
  {after : Held α → γ → Prop}

theorem lift (o : Outcome α β) : Learns crew c (liftM o) fun _ x => o = .ok x := fun cache h => by
  rw [lift_apply]
  exact ⟨h, .refl h.sound, fun _ hx => hx⟩

theorem pure (x : β) : Learns crew c (pure x) fun _ y => y = x := fun _ h =>
  ⟨h, .refl h.sound, fun _ hx => (Except.ok.inj hx).symm⟩

theorem weaken (h : Learns crew c work middle) (himp : ∀ known x, middle known x → property known x) :
    Learns crew c work property := fun cache hc => by
  obtain ⟨hcoherent, hkept, hx⟩ := h cache hc
  exact ⟨hcoherent, hkept, fun x h => himp _ _ (hx x h)⟩

theorem bind (hwork : Learns crew c work middle) (hlasts : ∀ x, Held.Lasts (middle · x))
    (hnext : ∀ x, Learns crew c (next x) fun known y => middle known x → after known y) :
    Learns crew c (work >>= next) after := fun cache h => by
  obtain ⟨hcoherent, hkept, hx⟩ := hwork cache h
  cases hw : work cache with
  | mk r d =>
    rw [hw] at hcoherent hkept hx
    cases r with
    | error e =>
      rw [bind_of_error hw]
      exact ⟨hcoherent, hkept, nofun⟩
    | ok x =>
      rw [bind_of_ok hw]
      obtain ⟨hcoherent', hkept', hy⟩ := hnext x d hcoherent
      refine ⟨hcoherent', hkept.trans hkept', fun y h => hy y h ?_⟩
      exact hlasts x _ _ hkept'.current_le (hx x rfl)

/-- An outcome that does not look at the cache. -/
theorem lift_bind {o : Outcome α β} (hnext : ∀ x, o = .ok x → Learns crew c (next x) after) :
    Learns crew c (liftM o >>= next) after := fun cache h => by
  cases o with
  | error e =>
    rw [bind_of_error (lift_apply (.error e) cache)]
    exact ⟨h, .refl h.sound, fun _ hx => by cases hx⟩
  | ok x =>
    rw [bind_of_ok (lift_apply (.ok x) cache)]
    exact hnext x rfl cache h

theorem outcome (h : Learns crew c work property) :
    Learns crew c work.outcome fun known o => ∀ x, o = .ok x → property known x := fun cache hc => by
  obtain ⟨hcoherent, hkept, hx⟩ := h cache hc
  refine ⟨hcoherent, hkept, fun o ho x hox => hx x ?_⟩
  cases ho
  exact hox

/-- A stage whose work gives a value of it has that value in the end. -/
theorem evalStage (hs : crew s) {toValue : β → StageValue α} {ofValue? : StageValue α → Option β}
    (hread : ∀ v x, ofValue? v = some x → v = toValue x)
    (hwork : Learns crew c work fun known x => Worked s c known stage (toValue x)) :
    Learns crew c (s.evalStage c stage toValue ofValue? work) fun known x =>
      known stage = some (toValue x) := by
  refine lift_bind fun _ hvalid cache h => ?_
  obtain ⟨e, he, -⟩ := h.staged stage
  cases hidle : cache.isInProgress stage.index with
  | true =>
    rw [Cache.eval_of_busy he hidle]
    exact ⟨h, .refl h.sound, fun _ hx => by cases hx⟩
  | false =>
    cases hx : cache.current? c.versions stage.index with
    | some v =>
      rw [Cache.eval_of_current he hidle hx]
      refine ⟨h, .refl h.sound, fun x hv => ?_⟩
      rw [Setting.current, hx]
      cases hv' : ofValue? v with
      | none => simp [Cache.readKept, hv'] at hv
      | some y =>
        simp only [Cache.readKept, hv', Except.ok.injEq] at hv
        rw [hread v y hv', hv]
    | none =>
      rw [Cache.eval_of_stale he hidle hx]
      obtain ⟨hcoherent, hkept, hworked⟩ := hwork _ (h.start hx)
      cases hw : work (cache.start stage.index) with
      | mk r d =>
        rw [hw] at hcoherent hkept hworked
        cases r with
        | error f =>
          rw [Cache.compute_of_error hw]
          have hfinish := hkept.finish hidle
          refine ⟨hcoherent.of_current_eq hfinish.sound (hcoherent.staged.finish stage.index) ?_, hfinish,
            fun _ hy => by cases hy⟩
          exact funext fun t => Cache.current?_finish d stage.index t.index
        | ok x =>
          rw [Cache.compute_of_ok hw]
          have hkeep : Cache.Kept c.versions cache (d.keep c.versions stage.index (toValue x)) :=
            hkept.keep he hidle hx
          obtain ⟨hkeeps, hself⟩ :=
            hcoherent.keep (hkept.stale he) hs (Simulator.validate_eq_ok hvalid).1 (hworked x rfl)
          refine ⟨hkeeps, hkeep, fun y hy => ?_⟩
          cases hy
          exact hself

end Learns

/-! ### The stages -/

section
variable (hs : crew s)
include hs

theorem learns_kinematics :
    Learns crew c (s.evalPositionKinematics c) fun known k =>
      known .positionKinematics = some (.positionKinematics k) := by
  refine .evalStage hs (fun v x h => ?_) ((Learns.lift _).weaken fun _ _ h => .positionKinematics h)
  cases v <;> cases h
  rfl

theorem learns_pairs :
    Learns crew c (s.evalContactPairs c) fun known pairs =>
      known .contactPairs = some (.contactPairs pairs) := by
  refine .evalStage hs (fun v x h => ?_) ?_
  · cases v <;> cases h
    rfl
  · exact (learns_kinematics hs).bind (fun _ => Held.lasts_known _ _) fun k =>
      (Learns.lift _).weaken fun _ _ h hk => .contactPairs hk h

theorem learns_contacts :
    Learns crew c (s.evalContactKinematics c) fun known kinematics =>
      known .contactKinematics = some (.contactKinematics kinematics) := by
  refine .evalStage hs (fun v x h => ?_) ?_
  · cases v <;> cases h
    rfl
  · exact (learns_kinematics hs).bind (fun _ => Held.lasts_known _ _) fun k =>
      (learns_pairs hs).bind (fun _ => Held.lasts_known _ _) fun pairs =>
        (Learns.lift _).weaken fun _ _ h hpairs hk => .contactKinematics hk hpairs h

theorem learns_linearDynamics :
    Learns crew c (s.evalLinearDynamics c) fun known dynamics =>
      ∃ k, known .positionKinematics = some (.positionKinematics k) ∧
      s.linearDynamics c.state k = .ok dynamics :=
  (learns_kinematics hs).bind (fun _ => Held.lasts_known _ _) fun k =>
    (Learns.lift _).weaken fun _ _ h hk => ⟨k, hk, h⟩

omit hs in
theorem Held.lasts_supplies (c : Setting α) (tau : Vec α) :
    Held.Lasts (c.Supplies · tau) := fun _ _ hle h => h.mono hle

variable {actuation : Staged α (Vec α)} (h : Learns crew c actuation c.Supplies)
include h

theorem learns_free :
    Learns crew c (s.evalFreeAccelerationsUnder c actuation) fun known a =>
      known .freeAccelerations = some (.freeAccelerations a) := by
  refine .evalStage hs (fun v x h => ?_) ?_
  · cases v <;> cases h
    rfl
  · exact (learns_kinematics hs).bind (fun _ => Held.lasts_known _ _) fun k =>
      h.bind (Held.lasts_supplies c) fun tau =>
        (Learns.lift _).weaken fun _ _ h htau hk => .freeAccelerations hk htau h

theorem learns_problem :
    Learns crew c (s.evalProblemUnder c actuation) fun known p => known .problem = some (.problem p) := by
  refine .evalStage hs (fun v x h => ?_) ?_
  · cases v <;> cases h
    rfl
  refine (learns_linearDynamics hs).bind (fun _ _ _ hle ⟨k, hk, h⟩ => ⟨k, hle _ _ hk, h⟩) fun dynamics => ?_
  refine (learns_free hs h).bind (fun _ => Held.lasts_known _ _) fun a => ?_
  refine Learns.lift_bind fun p hp => ?_
  refine (learns_pairs hs).bind (fun _ => Held.lasts_known _ _) fun pairs => ?_
  refine (learns_contacts hs).bind (fun _ => Held.lasts_known _ _) fun kinematics => ?_
  refine Learns.lift_bind fun contacts hcontacts => Learns.lift_bind fun q hq => ?_
  refine (Learns.pure _).weaken fun known x hx hkinematics hpairs ha ⟨k, hk, hdynamics⟩ => ?_
  refine .problem hk hdynamics ha hpairs hkinematics ?_
  rw [Simulator.assemble, hp, Outcome.bind_eq_ok_iff]
  refine ⟨p, rfl, ?_⟩
  rw [Outcome.bind_eq_ok_iff]
  refine ⟨contacts, hcontacts, ?_⟩
  rw [Outcome.bind_eq_ok_iff]
  exact ⟨q, hq, congrArg Except.ok hx.symm⟩

theorem learns_results :
    Learns crew c (s.evalResultsUnder c actuation) fun known r => known .results = some (.results r) := by
  refine .evalStage hs (fun v x h => ?_) ?_
  · cases v <;> cases h
    rfl
  · exact (learns_problem hs h).bind (fun _ => Held.lasts_known _ _) fun p =>
      (Learns.lift _).weaken fun _ _ h hp => .results hp h

theorem learns_any (stage : Stage) :
    Learns crew c (s.evalAnyUnder c actuation stage) fun known x => known stage = some x := by
  cases stage with
  | positionKinematics =>
    exact (learns_kinematics hs).bind (fun _ => Held.lasts_known _ _) fun k =>
      (Learns.pure _).weaken fun _ _ hx hk => hx ▸ hk
  | contactPairs =>
    exact (learns_pairs hs).bind (fun _ => Held.lasts_known _ _) fun k =>
      (Learns.pure _).weaken fun _ _ hx hk => hx ▸ hk
  | contactKinematics =>
    exact (learns_contacts hs).bind (fun _ => Held.lasts_known _ _) fun k =>
      (Learns.pure _).weaken fun _ _ hx hk => hx ▸ hk
  | freeAccelerations =>
    exact (learns_free hs h).bind (fun _ => Held.lasts_known _ _) fun k =>
      (Learns.pure _).weaken fun _ _ hx hk => hx ▸ hk
  | problem =>
    exact (learns_problem hs h).bind (fun _ => Held.lasts_known _ _) fun k =>
      (Learns.pure _).weaken fun _ _ hx hk => hx ▸ hk
  | results =>
    exact (learns_results hs h).bind (fun _ => Held.lasts_known _ _) fun k =>
      (Learns.pure _).weaken fun _ _ hx hk => hx ▸ hk

end

theorem learns_run {ask : Stage → Staged α (StageValue α)}
    (h : ∀ stage, Learns crew c (ask stage) fun known x => known stage = some x) (r : Reading α) :
    Learns crew c (r.run ask) r.Yields := by
  induction r with
  | done result =>
    refine (Learns.lift _).weaken fun known tau htau => ?_
    rw [htau]
    exact .done tau
  | read stage next ih =>
    refine (h stage).outcome.bind (fun o known more hle hanswer x hx => hle _ _ (hanswer x hx)) fun o => ?_
    refine (ih o).weaken fun known tau htau hanswer => ?_
    cases o with
    | error e => exact .failure htau
    | ok x => exact .value (hanswer x rfl) htau

theorem learns_actuationAt (hs : crew s) (level : Nat) :
    Learns crew c (s.actuationAt c level) c.Supplies := by
  have hchecked : ∀ tau, Learns crew c (liftM (Simulator.checkActuation c tau)) fun _ x => x = tau := by
    intro tau
    refine (Learns.lift _).weaken fun _ x h => ?_
    obtain ⟨_, -, h⟩ := Outcome.bind_eq_ok_iff.mp h
    exact (Except.ok.inj h).symm
  induction level with
  | zero =>
    refine (Learns.lift (.error (.algebraicLoop Stage.freeAccelerations.name))).weaken fun _ _ h => ?_
    cases h
  | succ level ih =>
    rw [Simulator.actuationAt]
    unfold Setting.Supplies
    cases c.actuation with
    | none => exact Learns.pure _
    | fixed given => exact hchecked given
    | source source =>
      refine (learns_run (learns_any hs ih) (source c.state)).bind (fun _ _ _ hle h => h.mono hle)
        fun tau => ?_
      exact (hchecked tau).weaken fun _ _ hx h => hx ▸ h

theorem learns_evalFreeAccelerations (hs : crew s) : Learns crew c (s.evalFreeAccelerations c) fun known a =>
    known .freeAccelerations = some (.freeAccelerations a) :=
  learns_free hs (learns_actuationAt hs 1)

theorem learns_evalProblem (hs : crew s) :
    Learns crew c (s.evalProblem c) fun known p => known .problem = some (.problem p) :=
  learns_problem hs (learns_actuationAt hs 1)

theorem learns_evalResults (hs : crew s) :
    Learns crew c (s.evalResults c) fun known r => known .results = some (.results r) :=
  learns_results hs (learns_actuationAt hs 1)

/-! ### Changes -/

/-- A change has no part in working out the stages that do not read its source. -/
theorem Worked.next {y : Change α} (h : Worked s c known stage x) (hstage : stage.reads y.source = false)
    (hknown : ∀ t z, t.reads y.source = false → known t = some z → more t = some z) :
    Worked s (y.next c) more stage x := by
  have hsource : y.source ≠ .discreteState := by
    intro hy
    rw [hy] at hstage
    cases stage <;> cases hstage
  have hkinematics : Stage.reads .positionKinematics y.source = false := by
    cases hy : y.source <;> first | rfl | exact absurd hy hsource
  cases h with
  | positionKinematics h => exact .positionKinematics (by rwa [Direct.positions_next hsource])
  | contactPairs hk h => exact .contactPairs (hknown _ _ hkinematics hk) h
  | contactKinematics hk hpairs h =>
    have hpairs' : Stage.reads .contactPairs y.source = false := by
      cases hy : y.source <;> rw [hy] at hstage <;> first | rfl | exact hstage
    exact .contactKinematics (hknown _ _ hkinematics hk) (hknown _ _ hpairs' hpairs) h
  | freeAccelerations => cases hy : y.source <;> rw [hy] at hstage <;> cases hstage
  | problem => cases hy : y.source <;> rw [hy] at hstage <;> cases hstage
  | results => cases hy : y.source <;> rw [hy] at hstage <;> cases hstage

theorem Coherent.next (h : Coherent crew c cache) (y : Change α) : Coherent crew (y.next c) cache where
  sound := h.sound.bump y.source
  staged := h.staged
  worked stage x hx := by
    obtain ⟨hold, hdep⟩ := Cache.current?_bump h.sound hx
    have hstage : stage.reads y.source = false := by
      cases hstage : stage.reads y.source with
      | false => rfl
      | true => exact absurd (h.staged.dependsOn hstage) hdep
    obtain ⟨s, hs, hrevision, hworked⟩ := h.worked stage x hold
    refine ⟨s, hs, hrevision, hworked.next hstage fun t z ht hz => ?_⟩
    refine Cache.current?_bump_of_not_dependsOn h.sound.ordered hz fun hdep => ?_
    rw [h.staged.reads hdep t rfl] at ht
    cases ht

end CompliantContact
