import CompliantContact.Proofs.Simulation.Coherent

/-!
Contexts and the simulators that have used them.

The values in a context are the work of the simulators that have made and used it
(`Context.UsedBy.coherent`). A simulator vouches for a context if it would have worked out itself, from
the values before it, each value that is up to date there. Then whatever it evaluates follows from one
another (`Simulator.Vouches.evalResults`). It vouches for the contexts that it owns, those that no other
simulator has used: it refuses what is left in them from before it changed (`Simulator.Owns.vouches`).
-/

namespace CompliantContact

variable {α : Type} [Scalar α]

namespace Simulator

/-- Simulators as clients can make them: of a model that was built, with couplers and deformable models
    added. -/
inductive Made : Simulator α → Prop where
  | new {bodies : List (Body α)} {joints : List (Joint α)} {elements : List (ForceElement α)}
      {model : Model α} {geometry : GeometryQuery α} {config : Config α} {s : Simulator α}
      (hmodel : Model.build bodies joints elements = .ok model)
      (h : Simulator.new model geometry config = .ok s) : Made s
  | coupled {s t : Simulator α} {coupler : Coupler α} (h : Made s)
    (ht : s.addCoupler coupler = .ok t) : Made t
  | registered {s t : Simulator α} {d : DeformableModel} (h : Made s)
    (ht : s.registerDeformable d = .ok t) : Made t

/-- Only the simulator has used the context, and it may have changed between. -/
inductive Owns : Simulator α → Context α → Prop where
  | created (s t : Simulator α) : Owns s t.defaultContext
  | performed {s : Simulator α} {c : Context α} (op : Operation α) (h : Owns s c) : Owns s (op.perform s c).2
  | coupled {s t : Simulator α} {c : Context α} {coupler : Coupler α} (h : Owns s c)
      (ht : s.addCoupler coupler = .ok t) : Owns t c
  | registered {s t : Simulator α} {c : Context α} {d : DeformableModel} (h : Owns s c)
      (ht : s.registerDeformable d = .ok t) : Owns t c

open Assigning Outcome

/-- The conditions under which a coupler is not refused. -/
def checkCoupler (s : Simulator α) (c : Coupler α) : Outcome α Unit := do
  s.requireCouplable c.a
  s.requireCouplable c.b
  require (c.a ≠ c.b) (.invalidConfig .couplerSelf)
  require (Scalar.isFinite c.ratio ∧ Scalar.isFinite c.offset)
    (.invalidConfig (.couplerNotFinite c.ratio c.offset))

/-- Nothing is assigned before the last check of a coupler, so the simulator stays as it was if the
    coupler is refused. -/
theorem apply_couple (s : Simulator α) (c : Coupler α) : (couple c).apply s = match s.checkCoupler c with
    | .ok _ => (.ok (), { s with couplers := s.couplers ++ [c], revision := s.revision + 1 })
    | .error e => (.error e, s) := by
  show Assigning.apply (check (s.requireCouplable c.a) >>=
      fun _ => check (s.requireCouplable c.b) >>= fun _ =>
    check (require (c.a ≠ c.b) _) >>= fun _ => check (require _ _) >>= fun _ => _) s = _
  simp only [check_bind_check]
  exact apply_check_then _ (s.checkCoupler c) rfl

omit [Scalar α] in
theorem apply_register (s : Simulator α) (d : DeformableModel) : (register d).apply s =
    match require (α := α) s.deformable.isNone (.duplicateModel "deformable") with
    | .ok _ => (.ok (), { s with deformable := some d, revision := s.revision + 1 })
    | .error e => (.error e, s) :=
  apply_check_then _ _ rfl

theorem addCoupler_eq_ok_iff {s t : Simulator α} {c : Coupler α} : s.addCoupler c = .ok t ↔
    s.checkCoupler c = .ok () ∧ { s with couplers := s.couplers ++ [c], revision := s.revision + 1 } = t := by
  rw [addCoupler, attempt_eq (apply_couple s c), bind_eq_ok_iff]
  exact ⟨fun ⟨_, hcheck, ht⟩ => ⟨hcheck, Except.ok.inj ht⟩,
    fun ⟨hcheck, ht⟩ => ⟨_, hcheck, congrArg Except.ok ht⟩⟩

theorem addCoupler_eq_ok {s t : Simulator α} {coupler : Coupler α} (h : s.addCoupler coupler = .ok t) :
    t = { s with couplers := s.couplers ++ [coupler], revision := s.revision + 1 } :=
  (addCoupler_eq_ok_iff.mp h).2.symm

omit [Scalar α] in
theorem registerDeformable_eq_ok {s t : Simulator α} {d : DeformableModel}
    (h : s.registerDeformable d = .ok t) :
    t = { s with deformable := some d, revision := s.revision + 1 } := by
  rw [registerDeformable, attempt_eq (apply_register s d), bind_eq_ok_iff] at h
  obtain ⟨_, -, h⟩ := h
  cases h
  rfl

end Simulator

variable {crew : Simulator α → Prop} {s : Simulator α} {c d : Context α}

/-! ### Operations keep contexts coherent -/

section
variable {c : Setting α} (hs : crew s)
include hs

theorem learns_nextState : Learns crew c (s.evalNextState c) fun _ _ => True :=
  (learns_evalResults hs).bind (fun _ => Held.lasts_known _ _) fun _ => Learns.lift_bind fun _ _ =>
    (Learns.pure _).weaken fun _ _ _ _ => trivial

theorem learns_ask (q : Query) : Learns crew c (s.ask c q) fun _ _ => True := by
  have hactuation : Learns crew c (s.actuationAt c 1) c.Supplies := learns_actuationAt hs 1
  cases q with
  | stage stage =>
    exact (learns_any hs hactuation stage).bind (fun _ => Held.lasts_known _ _) fun _ =>
      (Learns.pure _).weaken fun _ _ _ _ => trivial
  | actuation =>
    exact (learns_actuationAt hs 2).bind (Held.lasts_supplies c) fun _ =>
      (Learns.pure _).weaken fun _ _ _ _ => trivial
  | freeVelocities =>
    have hfree : Learns crew c (s.evalFreeVelocities c) fun _ _ => True :=
      (learns_free hs hactuation).bind (fun _ => Held.lasts_known _ _) fun _ =>
        (Learns.pure _).weaken fun _ _ _ _ => trivial
    exact hfree.bind (fun _ _ _ _ _ => trivial) fun _ => (Learns.pure _).weaken fun _ _ _ _ => trivial
  | linearDynamics =>
    have hdynamics : Learns crew c (s.evalLinearDynamics c) fun _ _ => True :=
      (learns_linearDynamics hs).weaken fun _ _ _ => trivial
    exact hdynamics.bind (fun _ _ _ _ _ => trivial) fun _ => (Learns.pure _).weaken fun _ _ _ _ => trivial
  | nextState =>
    exact (learns_nextState hs).bind (fun _ _ _ _ _ => trivial) fun _ =>
      (Learns.pure _).weaken fun _ _ _ _ => trivial
  | accelerations =>
    have haccelerations : Learns crew c (s.evalGeneralizedAccelerations c) fun _ _ => True :=
      (learns_evalResults hs).bind (fun _ => Held.lasts_known _ _) fun _ =>
        (Learns.pure _).weaken fun _ _ _ _ => trivial
    exact haccelerations.bind (fun _ _ _ _ _ => trivial) fun _ =>
      (Learns.pure _).weaken fun _ _ _ _ => trivial
  | reports =>
    have hreports : Learns crew c (s.evalContactReports c) fun _ _ => True :=
      (learns_pairs hs).bind (fun _ => Held.lasts_known _ _) fun _ =>
        (learns_problem hs hactuation).bind (fun _ => Held.lasts_known _ _) fun _ =>
          (learns_evalResults hs).bind (fun _ => Held.lasts_known _ _) fun _ =>
            (Learns.lift _).weaken fun _ _ _ _ _ _ => trivial
    exact hreports.bind (fun _ _ _ _ _ => trivial) fun _ => (Learns.pure _).weaken fun _ _ _ _ => trivial

end

namespace Context

/-- The values in the cache of a context fit together. -/
abbrev Coherent (crew : Simulator α → Prop) (c : Context α) : Prop :=
  CompliantContact.Coherent crew c.toSetting c.cache

theorem Coherent.perform (h : c.Coherent crew) (hs : crew s) (op : Operation α) :
    (op.perform s c).2.Coherent crew := by
  cases op with
  | change x =>
    rw [Operation.perform_change]
    cases x.check c.toSetting with
    | error e => exact h
    | ok u => exact h.next x
  | ask q => exact (learns_ask hs q c.cache h).1
  | advance =>
    have hlearns := (learns_nextState hs c.cache h).1
    rw [Operation.perform]
    cases hw : s.evalNextState c.toSetting c.cache with
    | mk r cache =>
      rw [hw] at hlearns
      cases r with
      | error e =>
        rw [Simulator.advance_of_error hw]
        exact hlearns
      | ok x =>
        rw [Simulator.advance_of_ok hw, Direct.commit]
        cases Change.check c.toSetting (.discreteState x) with
        | error e => exact hlearns
        | ok u => exact (hlearns.next (.discreteState x)).next (.time _)
  | clone =>
    exact .of_current_eq_none (.emptyLike h.sound.ordered) h.staged.emptyLike fun _ =>
      c.cache.current?_emptyLike _ _
  | invalidateAll =>
    exact .of_current_eq_none h.sound.invalidateAll h.staged.invalidateAll fun _ =>
      c.cache.current?_invalidateAll _ _

theorem Coherent.defaultContext (crew : Simulator α → Prop) (s : Simulator α) :
    s.defaultContext.Coherent crew :=
  .of_current_eq_none (Cache.sound_stageCache _) Cache.staged_stageCache fun _ =>
    Cache.current?_stageCache _ _

/-- What an evaluation by one of the crew learns. -/
theorem Coherent.learned {β : Type} {work : Staged α β} {property : Held α → β → Prop} {x : β}
    (h : c.Coherent crew)
    (hrest : c.Resting) (hwork : Learns crew c.toSetting work property) (hr : c.run work = (.ok x, d)) :
    d.toSetting = c.toSetting ∧ d.Coherent crew ∧ d.Resting ∧ property (d.current d.cache) x := by
  obtain ⟨hcoherent, hkept, hlearned⟩ := hwork c.cache h
  cases hw : work c.cache with
  | mk o cache =>
    rw [Context.run, hw] at hr
    cases hr
    rw [hw] at hcoherent hkept hlearned
    exact ⟨rfl, hcoherent, hrest.of_kept hkept, hlearned x rfl⟩

/-- A context that simulators of a crew have made and used. -/
inductive UsedBy (crew : Simulator α → Prop) : Context α → Prop where
  | created {s : Simulator α} (hs : crew s) : UsedBy crew s.defaultContext
  | performed {s : Simulator α} (hs : crew s) (op : Operation α) {c : Context α} (h : UsedBy crew c) :
      UsedBy crew (op.perform s c).2

theorem UsedBy.reachable (h : c.UsedBy crew) : c.Reachable := by
  induction h with
  | @created s _ => exact .created s
  | @performed s _ op _ _ ih => exact .performed s op ih

/-- Its values are the work of the crew. -/
theorem UsedBy.coherent (h : c.UsedBy crew) : c.Coherent crew := by
  induction h with
  | @created s _ => exact .defaultContext crew s
  | performed hs op _ ih => exact ih.perform hs op

end Context

/-! ### Contexts that a simulator vouches for -/

/-- A simulator would work out each known value itself, from known values of the stages before it. -/
def Held.WorkedBy (s : Simulator α) (c : Setting α) (known : Held α) : Prop :=
  ∀ stage x, known stage = some x → Worked s c known stage x

namespace Simulator

/-- The simulator would work out itself all values that are up to date in the context, whoever has done so. -/
def Vouches (s : Simulator α) (c : Context α) : Prop := (c.current c.cache).WorkedBy s c.toSetting

theorem Vouches.coherent (h : s.Vouches c) (hc : c.Reachable) (hvalid : s.validate c.toSetting = .ok ()) :
    c.Coherent (· = s) where
  sound := hc.resting.sound
  staged := hc.resting.staged
  worked stage x hx := ⟨s, rfl, (validate_eq_ok hvalid).1, h stage x hx⟩

namespace Owns

theorem reachable (h : s.Owns c) : c.Reachable := by
  induction h with
  | created s t => exact .created t
  | performed op _ ih => exact .performed _ op ih
  | coupled _ _ ih => exact ih
  | registered _ _ ih => exact ih

theorem coherent_of_newer {t : Simulator α} (hrevision : t.revision = s.revision + 1)
    (h : c.Coherent fun r => r = s ∨ r.revision < s.revision) : c.Coherent fun r => r = t ∨
    r.revision < t.revision :=
  h.mono fun r hr => .inr <| by
    rcases hr with rfl | hr
    · exact Nat.lt_of_lt_of_eq r.revision.lt_succ_self hrevision.symm
    · exact Nat.lt_of_lt_of_eq (Nat.lt_succ_of_lt hr) hrevision.symm

/-- The values in a context are the work of the simulator that owns it, as it is or as it was. -/
theorem coherent (h : s.Owns c) : c.Coherent fun t => t = s ∨ t.revision < s.revision := by
  induction h with
  | created s t => exact .defaultContext _ t
  | performed op _ ih => exact ih.perform (.inl rfl) op
  | coupled _ ht ih =>
    obtain rfl := addCoupler_eq_ok ht
    exact coherent_of_newer rfl ih
  | registered _ ht ih =>
    obtain rfl := registerDeformable_eq_ok ht
    exact coherent_of_newer rfl ih

/-- What the simulator has worked out before it changed belongs to contexts that it refuses now. -/
theorem vouches (h : s.Owns c) (hvalid : s.validate c.toSetting = .ok ()) :
    s.Vouches c := fun stage x hx => by
  obtain ⟨t, rfl | holder, hrevision, hworked⟩ := h.coherent.worked stage x hx
  · exact hworked
  · have hvalid := (validate_eq_ok hvalid).1
    omega

end Owns

end Simulator

/-- What the stages of a step yield. -/
structure StepValues (α : Type) where
  kinematics : PositionKinematics α
  pairs : List (ContactPair α)
  contacts : List (ContactKinematics α)
  dynamics : List (Mat α)
  free : FreeAccelerations α
  problem : AssembledProblem α
  results : ContactResults α

/-- The stages of a step, each worked out from those before it. -/
structure StepValues.Follows (y : StepValues α) (s : Simulator α) (x : State α) : Prop where
  numVelocities : x.numVelocities = s.model.numVelocities
  kinematics : s.model.positionKinematics x.positions = .ok y.kinematics
  pairs : s.discretizer.contactPairs y.kinematics s.config.contactModel = .ok y.pairs
  contacts : ContactKinematics.ofPairs s.model.toMechanism y.kinematics s.geometry y.pairs = .ok y.contacts
  dynamics : s.linearDynamics x y.kinematics = .ok y.dynamics
  free : ∃ tau, s.freeAccelerations x y.kinematics tau = .ok y.free
  problem : s.assemble x y.dynamics y.free y.pairs y.contacts = .ok y.problem
  results : s.contactResults x y.problem = .ok y.results

/-- What the stages of a context yield that has them all up to date. -/
structure Context.Has (c : Context α) (s : Simulator α) (y : StepValues α) : Prop where
  pairs : c.run (s.evalContactPairs c.toSetting) = (.ok y.pairs, c)
  problem : c.run (s.evalProblem c.toSetting) = (.ok y.problem, c)
  results : c.run (s.evalResults c.toSetting) = (.ok y.results, c)

omit [Scalar α] in
/-- A computation that gives a value and leaves the context as it is. -/
theorem Context.run_eq_ok_iff {β : Type} {work : Staged α β} {x : β} :
    c.run work = (.ok x, c) ↔ work c.cache = (.ok x, c.cache) := by
  constructor
  · intro h
    cases hw : work c.cache with
    | mk o cache =>
      rw [run, hw] at h
      obtain ⟨hvalue, hcontext⟩ := Prod.mk.inj h
      exact Prod.ext hvalue (congrArg Context.cache hcontext)
  · intro h
    rw [run, h]

omit [Scalar α] in
/-- A computation whose value is put in another form. -/
theorem Context.run_map {β γ : Type} {work : Staged α β} {f : β → γ} {x : β} (h : c.run work = (.ok x, d)) :
    c.run (do return f (← work)) = (.ok (f x), d) := by
  cases hw : work c.cache with
  | mk o cache =>
    rw [run, hw] at h
    cases h
    rw [run, Cached.bind_of_ok hw]
    rfl

/-- Such a context makes its reports of these values. -/
theorem Context.Has.reports {y : StepValues α} (h : c.Has s y) :
    (c.run (s.evalContactReports c.toSetting)).1 = Simulator.contactReports y.pairs y.problem y.results := by
  rw [Context.run, Simulator.evalContactReports, Cached.bind_of_ok (run_eq_ok_iff.mp h.pairs),
    Cached.bind_of_ok (run_eq_ok_iff.mp h.problem), Cached.bind_of_ok (run_eq_ok_iff.mp h.results),
    Cached.lift_apply]

/-- The stages up to the problem of a step, each worked out from those before it. -/
structure Simulator.Assembles (s : Simulator α) (x : State α) (k : PositionKinematics α)
    (ps : List (ContactPair α))
    (ks : List (ContactKinematics α)) (ms : List (Mat α)) (a : FreeAccelerations α)
    (p : AssembledProblem α) : Prop where
  kinematics : s.model.positionKinematics x.positions = .ok k
  pairs : s.discretizer.contactPairs k s.config.contactModel = .ok ps
  contacts : ContactKinematics.ofPairs s.model.toMechanism k s.geometry ps = .ok ks
  dynamics : s.linearDynamics x k = .ok ms
  free : ∃ tau, s.freeAccelerations x k tau = .ok a
  problem : s.assemble x ms a ps ks = .ok p

/-- The values of the stages of a step, all of them known. -/
structure StepValues.KnownIn (y : StepValues α) (known : Held α) : Prop where
  kinematics : known .positionKinematics = some (.positionKinematics y.kinematics)
  pairs : known .contactPairs = some (.contactPairs y.pairs)
  contacts : known .contactKinematics = some (.contactKinematics y.contacts)
  free : known .freeAccelerations = some (.freeAccelerations y.free)
  problem : known .problem = some (.problem y.problem)
  results : known .results = some (.results y.results)

namespace Held.WorkedBy

variable {c : Setting α} {known : Held α}

/-- From a known problem back to the positions. -/
theorem exists_assembles (h : known.WorkedBy s c) {p : AssembledProblem α}
    (hp : known .problem = some (.problem p)) :
    ∃ k pairs contacts dynamics a, s.Assembles c.state k pairs contacts dynamics a p ∧
      known .positionKinematics = some (.positionKinematics k) ∧
      known .contactPairs = some (.contactPairs pairs) ∧
      known .contactKinematics = some (.contactKinematics contacts) ∧
      known .freeAccelerations = some (.freeAccelerations a) := by
  cases h _ _ hp with
  | @problem k dynamics a pairs contacts _ hk hdynamics ha hpairs hcontacts hproblem =>
    have hsame : ∀ {k'}, known .positionKinematics = some (.positionKinematics k') → k' = k := fun hk' => by
      rw [hk] at hk'
      cases hk'
      rfl
    cases h _ _ hk with
    | positionKinematics hkinematics =>
      cases h _ _ ha with
      | @freeAccelerations _ tau _ hk' _ hfree =>
        obtain rfl := hsame hk'
        cases h _ _ hpairs with
        | contactPairs hk' hpairs' =>
          obtain rfl := hsame hk'
          cases h _ _ hcontacts with
          | contactKinematics hk' hpairs'' hcontacts' =>
            obtain rfl := hsame hk'
            rw [hpairs] at hpairs''
            cases hpairs''
            exact ⟨_, pairs, contacts, dynamics, a,
              ⟨hkinematics, hpairs', hcontacts', hdynamics, ⟨tau, hfree⟩, hproblem⟩, hk, hpairs,
              hcontacts, ha⟩

/-- From known results back to the positions. -/
theorem exists_follows (h : known.WorkedBy s c) (hvalid : s.validate c = .ok ()) {r : ContactResults α}
    (hr : known .results = some (.results r)) :
    ∃ y : StepValues α, y.results = r ∧ y.Follows s c.state ∧ y.KnownIn known := by
  cases h _ _ hr with
  | @results p _ hp hresults =>
    obtain ⟨k, pairs, contacts, dynamics, a, hassembles, hk, hpairs, hcontacts, ha⟩ := h.exists_assembles hp
    exact ⟨⟨k, pairs, contacts, dynamics, a, p, r⟩, rfl,
      ⟨(Simulator.validate_eq_ok hvalid).2.2, hassembles.kinematics,
      hassembles.pairs, hassembles.contacts, hassembles.dynamics, hassembles.free,
      hassembles.problem, hresults⟩, ⟨hk, hpairs, hcontacts, ha, hp, hr⟩⟩

end Held.WorkedBy

section
variable {c : Setting α} {cache : Cache (StageValue α)} {β : Type} {stage : Stage}
  {toValue : β → StageValue α} {ofValue? : StageValue α → Option β} {work : Staged α β} {x : β}

omit [Scalar α] in
theorem Simulator.evalStage_of_current (hvalid : s.validate c = .ok ()) (staged : cache.Staged)
    (hidle : cache.isInProgress stage.index = false) (hx : c.current cache stage = some (toValue x))
    (hread : ofValue? (toValue x) = some x) :
    s.evalStage c stage toValue ofValue? work cache = (.ok x, cache) := by
  obtain ⟨e, he, -⟩ := staged stage
  have hlift := Cached.lift_apply (s.validate c) cache
  rw [hvalid] at hlift
  rw [evalStage, hvalid, Cached.bind_of_ok hlift, Cache.eval_of_current he hidle hx, Cache.readKept, hread]

omit [Scalar α] in
/-- A simulator answers for contexts of its revision only. -/
theorem Simulator.validate_of_evalStage (h : (s.evalStage c stage toValue ofValue? work cache).1 = .ok x) :
    s.validate c = .ok () := by
  cases hvalid : s.validate c with
  | ok u => rfl
  | error e =>
    have hlift := Cached.lift_apply (s.validate c) cache
    rw [hvalid] at hlift
    rw [evalStage, hvalid, Cached.bind_of_error hlift] at h
    cases h

end

omit [Scalar α] in
/-- A context gives what it has up to date, whoever has worked it out, and stays as it is. -/
theorem Context.Resting.run_evalStage {β : Type} {stage : Stage} {toValue : β → StageValue α}
    {ofValue? : StageValue α → Option β} {work : Staged α β} {x : β} (h : c.Resting)
    (hvalid : s.validate c.toSetting = .ok ()) (hx : c.current c.cache stage = some (toValue x))
    (hread : ofValue? (toValue x) = some x) :
    c.run (s.evalStage c.toSetting stage toValue ofValue? work) = (.ok x, c) := by
  rw [Context.run, Simulator.evalStage_of_current hvalid h.staged (h.idle _) hx hread]

theorem Context.Resting.has {y : StepValues α} (h : c.Resting) (hvalid : s.validate c.toSetting = .ok ())
    (hy : y.KnownIn (c.current c.cache)) : c.Has s y where
  pairs := h.run_evalStage hvalid hy.pairs rfl
  problem := h.run_evalStage hvalid hy.problem rfl
  results := h.run_evalStage hvalid hy.results rfl

namespace Simulator.Vouches

/-- What an evaluation learns of a context that the simulator vouches for, and has validated. -/
theorem learned {β : Type} {work : Staged α β} {property : Held α → β → Prop} {x : β} (h : s.Vouches c)
    (hc : c.Reachable) (hvalid : s.validate c.toSetting = .ok ())
    (hwork : Learns (· = s) c.toSetting work property) (hr : c.run work = (.ok x, d)) :
    d.toSetting = c.toSetting ∧ s.Vouches d ∧ d.Resting ∧ property (d.current d.cache) x := by
  obtain ⟨hsetting, hcoherent, hrest, hlearned⟩ := (h.coherent hc hvalid).learned hc.resting hwork hr
  refine ⟨hsetting, fun stage x hx => ?_, hrest, hlearned⟩
  obtain ⟨_, rfl, -, hworked⟩ := hcoherent.worked stage x hx
  exact hworked

/-- Behind results stand values of all stages, which the context has from then on. -/
theorem evalResults {r : ContactResults α} (h : s.Vouches c) (hc : c.Reachable)
    (hr : c.run (s.evalResults c.toSetting) = (.ok r, d)) :
    d.toSetting = c.toSetting ∧ ∃ y : StepValues α, y.results = r ∧ y.Follows s d.state ∧ d.Has s y := by
  have hvalid : s.validate c.toSetting = .ok () := validate_of_evalStage (congrArg Prod.fst hr)
  obtain ⟨hsetting, hworked, hrest, hcurrent⟩ := h.learned hc hvalid (learns_evalResults rfl) hr
  rw [← hsetting] at hvalid
  obtain ⟨y, rfl, hfollows, hknown⟩ := Held.WorkedBy.exists_follows hworked hvalid hcurrent
  exact ⟨hsetting, y, rfl, hfollows, hrest.has hvalid hknown⟩

/-- Behind a problem stand values of all stages before it; the context has the contact pairs from then on. -/
theorem evalProblem {p : AssembledProblem α} (h : s.Vouches c) (hc : c.Reachable)
    (hp : c.run (s.evalProblem c.toSetting) = (.ok p, d)) :
    d.toSetting = c.toSetting ∧ s.validate d.toSetting = .ok () ∧ ∃ k pairs contacts dynamics a,
      s.Assembles d.state k pairs contacts dynamics a p ∧
      d.run (s.evalContactPairs d.toSetting) = (.ok pairs, d) := by
  have hvalid : s.validate c.toSetting = .ok () := validate_of_evalStage (congrArg Prod.fst hp)
  obtain ⟨hsetting, hworked, hrest, hcurrent⟩ := h.learned hc hvalid (learns_evalProblem rfl) hp
  rw [← hsetting] at hvalid
  obtain ⟨k, pairs, contacts, dynamics, a, hassembles, -, hpairs, -⟩ :=
    Held.WorkedBy.exists_assembles hworked hcurrent
  exact ⟨hsetting, hvalid, k, pairs, contacts, dynamics, a, hassembles, hrest.run_evalStage hvalid hpairs rfl⟩

/-- Behind free accelerations stand the positions and actuation that was supplied; the context has the free
    accelerations and what follows from them from then on. -/
theorem evalFreeAccelerations {a : FreeAccelerations α} (h : s.Vouches c) (hc : c.Reachable)
    (ha : c.run (s.evalFreeAccelerations c.toSetting) = (.ok a, d)) :
    d.toSetting = c.toSetting ∧ s.validate d.toSetting = .ok () ∧ ∃ k tau,
      s.model.positionKinematics d.state.positions = .ok k ∧ d.Supplies (d.current d.cache) tau ∧
      s.freeAccelerations d.state k tau = .ok a ∧
      (d.run (s.evalLinearDynamics d.toSetting)).1 = s.linearDynamics d.state k ∧
      d.run (s.evalFreeVelocities d.toSetting) = (.ok (s.freeVelocities d.state a), d) := by
  have hvalid : s.validate c.toSetting = .ok () := validate_of_evalStage (congrArg Prod.fst ha)
  obtain ⟨hsetting, hworked, hrest, hcurrent⟩ := h.learned hc hvalid (learns_evalFreeAccelerations rfl) ha
  rw [← hsetting] at hvalid
  cases hworked _ _ hcurrent with
  | @freeAccelerations k tau _ hk htau hfree =>
    cases hworked _ _ hk with
    | positionKinematics hkinematics =>
      have hrunk : d.run (s.evalPositionKinematics d.toSetting) = (.ok k, d) :=
        hrest.run_evalStage hvalid hk rfl
      have hruna : d.run (s.evalFreeAccelerations d.toSetting) = (.ok a, d) :=
        hrest.run_evalStage hvalid hcurrent rfl
      refine ⟨hsetting, hvalid, k, tau, hkinematics, htau, hfree, ?_, ?_⟩
      · rw [Context.run, evalLinearDynamics, Cached.bind_of_ok (Context.run_eq_ok_iff.mp hrunk),
          Cached.lift_apply]
      · rw [Context.run_eq_ok_iff, evalFreeVelocities, Cached.bind_of_ok (Context.run_eq_ok_iff.mp hruna)]
        rfl

end Simulator.Vouches

end CompliantContact
