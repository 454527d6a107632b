import Mathlib.Control.Monad.Basic
import CompliantContact.Proofs.Simulation.Session

/-!
What clients cannot notice: the cache, and operations that failed.

Both follow from the refinement of sessions by direct ones. A new context agrees with its setting and no
stage held, and so does every context of a session that it starts; an empty cache agrees with them too.
Any context that was reached agrees with its setting and the values that are up to date in it held. A
failed operation keeps this agreement, whatever it has computed before it failed.
-/

namespace CompliantContact

variable {α : Type}

/-- What holds of a context between operations. -/
structure Context.Resting (c : Context α) : Prop where
  sound : c.cache.Sound c.versions
  staged : c.cache.Staged
  idle : ∀ i, c.cache.isInProgress i = false

theorem Context.Resting.of_kept {c : Context α} {d : Cache (StageValue α)} (h : c.Resting)
    (hkept : Cache.Kept c.versions c.cache d) : Resting { c with cache := d } where
  sound := hkept.sound
  staged := h.staged.kept hkept
  idle i := (hkept.inProgress i).trans (h.idle i)

variable [Scalar α] {s : Simulator α} {c : Context α} {held : Held α} {setting : Setting α}

/-! ### Sessions and direct sessions -/

/-- What agrees with a setting gives the traces of the setting. -/
theorem Agrees.trace (h : Agrees s setting held c) (blind : setting.actuation.Blind)
    (ops : List (Operation α))
    (hops : ∀ op ∈ ops, op.Blind) : s.trace c ops = Direct.trace s setting held ops := by
  induction ops generalizing c setting held with
  | nil => rfl
  | cons op ops ih =>
    obtain ⟨hreply, hnext⟩ := h.perform blind op
    rw [Simulator.trace, Direct.trace, hreply, hnext.toSetting,
      ih hnext (Direct.blind_perform blind (hops op (List.mem_cons_self ..))) fun op' h' =>
        hops op' (List.mem_cons_of_mem _ h')]

/-- With no stage held, none is held after an operation. -/
theorem Direct.held_perform (op : Operation α) :
    (perform s setting (fun _ => none) op).2.2 = fun _ => none := by
  cases op with
  | change x =>
    rw [perform]
    cases x.check setting with
    | error e => rfl
    | ok u => exact Held.without_none x.source
  | ask q => rfl
  | advance =>
    rw [perform]
    cases nextState s setting fun _ => none with
    | error e => rfl
    | ok x =>
      simp only
      cases commit s setting x <;> rfl
  | clone => rfl
  | invalidateAll => rfl

/-- A session with no stage held. -/
theorem Agrees.performAll (h : Agrees s setting (fun _ => none) c) (blind : setting.actuation.Blind)
    (ops : List (Operation α)) (hops : ∀ op ∈ ops, op.Blind) :
    ∃ setting', setting'.actuation.Blind ∧ Agrees s setting' (fun _ => none) (s.perform c ops) := by
  induction ops generalizing c setting with
  | nil => exact ⟨setting, blind, h⟩
  | cons op ops ih =>
    obtain ⟨-, hnext⟩ := h.perform blind op
    rw [Direct.held_perform] at hnext
    exact ih hnext (Direct.blind_perform blind (hops op (List.mem_cons_self ..))) fun op' h' =>
      hops op' (List.mem_cons_of_mem _ h')

theorem Agrees.defaultContext (s : Simulator α) :
    Agrees s s.defaultContext.toSetting (fun _ => none) s.defaultContext :=
  ⟨rfl, .of_stageCache⟩

/-- Direct answers do not look at the versions of the sources. -/
theorem Direct.ask_versions (v : SourceVersions) (q : Query) :
    ask s { setting with versions := v } held q = ask s setting held q := by
  rfl

/-! ### The cache -/

/-- After any session on a new context, a reply is the one that an empty cache gives for the same time,
    state, parameters and actuation. -/
theorem reply_eq_of_empty_cache (s : Simulator α) (ops : List (Operation α)) (hops : ∀ op ∈ ops, op.Blind)
    (q : Query) (v : SourceVersions) :
    (Operation.perform s (s.perform s.defaultContext ops) (.ask q)).1 =
      (Operation.perform s { s.perform s.defaultContext ops with versions := v, cache := stageCache α }
        (.ask q)).1 := by
  obtain ⟨setting, blind, hagrees⟩ := (Agrees.defaultContext s).performAll nofun ops hops
  obtain ⟨hreply, -⟩ := hagrees.perform blind (.ask q)
  have hempty : Agrees s { setting with versions := v } (fun _ => none)
      { s.perform s.defaultContext ops with versions := v, cache := stageCache α } :=
    ⟨by rw [← hagrees.toSetting], .of_stageCache⟩
  obtain ⟨hreply', -⟩ := hempty.perform blind (.ask q)
  rw [hreply, hreply']
  exact (Direct.ask_versions v q).symm

/-! ### A slider in the ground -/

def slide : Joint Float := .ofKind "slide" (.prismatic .unitZ) .world ⟨1⟩

def slider : Mechanism Float where
  bodies := #[.world, .pointMass "slider" 1]
  joints := #[slide]
  inboard := #[none, some ⟨0⟩]
  layout := ⟨#[none, some ⟨0⟩], #[⟨0⟩], #[1]⟩

/-- The slider in the ground, both of the same material. -/
def sunk (material : Material Float) : GeometryQuery Float :=
  .ofTable [⟨⟨0⟩, some .world, some "ground", some material⟩, ⟨⟨1⟩, some ⟨1⟩, some "slider", some material⟩]
    (.ok [⟨⟨0⟩, ⟨1⟩, 0, 0, -.unitZ, 0.01⟩])

def grip : Material Float := ⟨some 1000, some 0, some ⟨0.5, 0.5⟩⟩

def quarterSteps : Config Float := { Config.standard with timeStep := 0.25 }

def sliderIn (material : Material Float) : Simulator Float where
  model := ⟨slider, []⟩
  geometry := sunk material
  config := quarterSteps
  couplers := []
  deformable := none
  revision := 0

/-- The operations of a client whose source of actuation looks at the contacts. -/
def feedback : List (Operation Float) :=
  [.change (.connectActuation (.depthFeedback 2)), .ask (.stage .problem), .change (.time 1), .advance]

theorem reply_eq_of_empty_cache_of_feedback :
    (Operation.perform (sliderIn grip) ((sliderIn grip).perform (sliderIn grip).defaultContext feedback)
        (.ask (.stage .results))).1.isOk = true ∧
      (Operation.perform (sliderIn grip) ((sliderIn grip).perform (sliderIn grip).defaultContext feedback)
        (.ask (.stage .results))).1 =
      (Operation.perform (sliderIn grip)
        { (sliderIn grip).perform (sliderIn grip).defaultContext feedback with
          versions := .zero, cache := stageCache Float }
        (.ask (.stage .results))).1 := by
  refine ⟨by decide +kernel, reply_eq_of_empty_cache (sliderIn grip) _ (fun op hop => ?_) _ .zero⟩
  simp only [feedback, List.mem_cons, List.not_mem_nil, or_false] at hop
  rcases hop with rfl | rfl | rfl | rfl
  · exact ActuationSource.blind_ofStage _ _
  all_goals trivial

/-! ### Failed operations -/

namespace Context.Resting

theorem next (h : c.Resting) (x : Change α) : Resting ⟨x.next c.toSetting, c.cache⟩ where
  sound := h.sound.bump x.source
  staged := h.staged
  idle := h.idle

theorem agrees (h : c.Resting) (s : Simulator α) :
    Agrees s c.toSetting (fun stage => c.cache.current? c.versions stage.index) c :=
  ⟨rfl, .of_held h.sound h.staged fun stage => h.idle stage.index⟩

end Context.Resting

namespace Staged.Composed

variable {c : Setting α} {P : ∀ {β : Type}, Staged α β → Prop} (h : Composed s c P)
include h

theorem ask (q : Query) : P (s.ask c q) := by
  have hactuation := h.actuationAt 1
  have hresults := h.evalResultsUnder hactuation
  cases q with
  | stage stage => exact h.bind (h.evalAnyUnder hactuation stage) fun _ => h.pure _
  | actuation => exact h.bind (h.actuationAt 2) fun _ => h.pure _
  | freeVelocities =>
    exact h.bind (h.bind (h.evalFreeAccelerationsUnder hactuation) fun _ => h.pure _) fun _ => h.pure _
  | linearDynamics => exact h.bind h.evalLinearDynamics fun _ => h.pure _
  | nextState => exact h.bind (h.bind hresults fun _ => h.bind (h.lift _) fun _ => h.pure _) fun _ => h.pure _
  | accelerations => exact h.bind (h.bind hresults fun _ => h.pure _) fun _ => h.pure _
  | reports =>
    exact h.bind (h.bind h.evalContactPairs fun _ => h.bind (h.evalProblemUnder hactuation) fun _ =>
      h.bind hresults fun _ => h.lift _) fun _ => h.pure _

theorem evalNextState : P (s.evalNextState c) :=
  h.bind (h.evalResultsUnder (h.actuationAt 1)) fun _ => h.bind (h.lift _) fun _ => h.pure _

end Staged.Composed

/-- Every operation, of whichever simulator and with whichever source of actuation, leaves a context at
    rest. -/
theorem Context.Resting.perform (h : c.Resting) (s : Simulator α) (op : Operation α) :
    (op.perform s c).2.Resting := by
  cases op with
  | change x =>
    rw [Operation.perform_change]
    cases x.check c.toSetting with
    | error e => exact h
    | ok u => exact h.next x
  | ask q => exact h.of_kept ((Cached.composed_keeps s _).ask q _ h.sound)
  | advance =>
    have hkept := (Cached.composed_keeps s _).evalNextState _ h.sound
    rw [Operation.perform]
    cases hw : s.evalNextState c.toSetting c.cache with
    | mk r cache =>
      rw [hw] at hkept
      have hrest := h.of_kept hkept
      cases r with
      | error e =>
        rw [Simulator.advance_of_error hw]
        exact hrest
      | ok x =>
        rw [Simulator.advance_of_ok hw, Direct.commit]
        cases Change.check c.toSetting (.discreteState x) with
        | error e => exact hrest
        | ok u => exact (hrest.next (.discreteState x)).next (.time _)
  | clone =>
    exact ⟨.emptyLike h.sound.ordered, h.staged.emptyLike, c.cache.isInProgress_emptyLike⟩
  | invalidateAll =>
    exact ⟨h.sound.invalidateAll, h.staged.invalidateAll, fun i =>
      (c.cache.isInProgress_invalidateAll i).trans (h.idle i)⟩

theorem Context.Reachable.resting (h : c.Reachable) : c.Resting := by
  induction h with
  | created s => exact ⟨Cache.sound_stageCache _, Cache.staged_stageCache, Cache.isInProgress_stageCache⟩
  | performed s op _ ih => exact ih.perform s op

/-- In a direct session a failed operation leaves what is held too. -/
theorem Direct.perform_of_error {op : Operation α} {e : Failure α}
    (h : (perform s setting held op).1 = .error e) :
    (perform s setting held op).2 = (setting, held) := by
  cases op with
  | change x =>
    rw [perform] at h ⊢
    cases hcheck : x.check setting with
    | error f => rfl
    | ok u =>
      rw [hcheck] at h
      cases h
  | ask q => rfl
  | advance =>
    rw [perform] at h ⊢
    cases hx : nextState s setting held with
    | error f => rfl
    | ok x =>
      rw [hx] at h
      simp only at h ⊢
      cases hcommit : commit s setting x with
      | error f => rfl
      | ok d =>
        rw [hcommit] at h
        cases h
  | clone => cases h
  | invalidateAll => cases h

end CompliantContact
