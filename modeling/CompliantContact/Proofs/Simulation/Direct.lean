import CompliantContact.Proofs.Cache.Evaluation
import CompliantContact.Simulation.Step

/-!
The stages of a step, evaluated directly.

What a stage yields is worked out from the stages before it, without a cache. A stage may be held: then
its value is taken as given, and nothing is worked out for it. That is how a cache looks from outside
which had some values from the start.

A source of actuation may read stages while the free accelerations are worked out. For whom these are
worked out decides which stages wait for them, and so at which stage an algebraic loop is noticed; it
decides nothing else, as long as the source asks for no name (`ActuationSource.Blind`).
-/

namespace CompliantContact

variable {α : Type}

/-! ### Sources that cannot tell algebraic loops apart -/

/-- The same answer, or algebraic loops noticed at any two stages. -/
def SameAnswer {β : Type} (a b : Outcome α β) : Prop :=
  a = b ∨ ∃ m n, a = .error (.algebraicLoop m) ∧ b = .error (.algebraicLoop n)

/-- The same value, or failures of any two kinds. -/
def SameValue {β : Type} (a b : Outcome α β) : Prop := ∀ x, a = .ok x ↔ b = .ok x

namespace SameValue

variable {β γ : Type} {a b c : Outcome α β}

theorem refl (a : Outcome α β) : SameValue a a := fun _ => Iff.rfl

theorem of_errors {e f : Failure α} : SameValue (.error e : Outcome α β) (.error f) := fun x =>
  ⟨fun h => (by cases h), fun h => (by cases h)⟩

theorem bind {f g : β → Outcome α γ} (h : SameValue a b) (hfg : ∀ x, a = .ok x → SameValue (f x) (g x)) :
    SameValue (a >>= f) (b >>= g) := by
  cases ha : a with
  | ok x =>
    have hb : b = .ok x := (h x).mp ha
    rw [hb]
    exact hfg x ha
  | error e =>
    cases hb : b with
    | ok y =>
      have := (h y).mpr hb
      rw [ha] at this
      cases this
    | error f => exact of_errors

end SameValue

namespace Reading

/-- Readings that end alike, whatever two alike answers they get. -/
inductive Alike : Reading α → Reading α → Prop where
  | failed (e f : Failure α) : Alike (.done (.error e)) (.done (.error f))
  | done (tau : Vec α) : Alike (.done (.ok tau)) (.done (.ok tau))
  | read (stage : Stage) (next next' : Outcome α (StageValue α) → Reading α)
      (h : ∀ a b, SameAnswer a b → Alike (next a) (next' b)) : Alike (.read stage next) (.read stage next')

theorem Alike.ended (result : Outcome α (Vec α)) : Alike (.done result) (.done result) := by
  cases result with
  | error e => exact .failed e e
  | ok tau => exact .done tau

/-- Carries out readings under given answers. -/
def under (answer : Stage → Outcome α (StageValue α)) : Reading α → Outcome α (Vec α)
  | done result => result
  | read stage next => under answer (next (answer stage))

theorem Alike.under {r r' : Reading α} (h : Alike r r') {answer answer' : Stage → Outcome α (StageValue α)}
    (hanswer : ∀ stage, SameAnswer (answer stage) (answer' stage)) :
    SameValue (r.under answer) (r'.under answer') := by
  induction h with
  | failed e f => exact .of_errors
  | done tau => exact .refl _
  | read stage next next' _ ih => exact ih _ _ (hanswer stage)

end Reading

/-- A source that may act on the failure of a reading, but not on the stage at which an algebraic loop
    was noticed. -/
def ActuationSource.Blind (source : ActuationSource α) : Prop := ∀ x, (source x).Alike (source x)

namespace ActuationSource

/-- A source that reads one stage and passes its failure on. -/
theorem blind_ofStage [Scalar α] (stage : Stage) (tau : State α → StageValue α → Vec α) :
    (ofStage stage tau).Blind := by
  intro x
  refine .read stage _ _ fun a b hab => ?_
  rcases hab with rfl | ⟨m, n, rfl, rfl⟩
  · exact .ended _
  · exact .failed _ _

end ActuationSource

/-- The source, if there is one, is blind. -/
def Actuation.Blind (a : Actuation α) : Prop := ∀ source, a = .source source → source.Blind

/-! ### Direct evaluation -/

/-- On whose behalf a stage is evaluated: of a client, or of a stage that waits for it. -/
inductive Asker where
  | client
  | problem
  | results
deriving DecidableEq

namespace Asker

/-- The stages that wait. -/
def waiting : Asker → Stage → Bool
  | client, _ => false
  | problem, stage => stage == .problem
  | results, stage => stage == .problem || stage == .results

/-- On whose behalf the problem evaluates the free accelerations. -/
def throughProblem : Asker → Asker
  | client => problem
  | _ => results

end Asker

/-- Stages that are held, with their values. -/
abbrev Held (α : Type) := Stage → Option (StageValue α)

namespace Direct

variable (s : Simulator α) (c : Setting α) (held : Held α)

/-- A stage that is held is taken as it is, any other is worked out. -/
def stage {β : Type} (stage : Stage) (ofValue? : StageValue α → Option β) (work : Outcome α β) :
    Outcome α β := do
  s.validate c
  match held stage with
  | some x => Cache.readKept stage.name ofValue? x
  | none => work

/-- The failure of a stage whose work fails. -/
def refused (e : Failure α) : Failure α :=
  match s.validate c with
  | .error e => e
  | .ok () => e

/-- The failure of a stage that is asked for while it is in progress. -/
def loop (stage : Stage) : Failure α := refused s c (.algebraicLoop stage.name)

section
variable {s c held}

theorem error_refused {β : Type} (e : Failure α) :
    (.error (refused s c e) : Outcome α β) = (do s.validate c; .error e) := by
  unfold refused
  cases s.validate c <;> rfl

theorem refused_loop (t : Stage) : refused s c (loop s c t) = loop s c t := by
  unfold loop refused
  cases s.validate c <;> rfl

theorem sameAnswer_loop {β : Type} (m n : Stage) :
    SameAnswer (.error (loop s c m) : Outcome α β) (.error (loop s c n)) := by
  unfold loop refused
  cases s.validate c with
  | error e => exact .inl rfl
  | ok u => exact .inr ⟨_, _, rfl, rfl⟩

theorem sameValue_stage {β : Type} {w w' : Outcome α β} {ofValue? : StageValue α → Option β} (t : Stage)
    (h : SameValue w w') : SameValue (stage s c held t ofValue? w) (stage s c held t ofValue? w') := by
  unfold stage
  refine (SameValue.refl _).bind fun _ _ => ?_
  split
  · exact .refl _
  · exact h

end

variable [Scalar α]

def workKinematics : Outcome α (PositionKinematics α) := s.model.positionKinematics c.state.positions

def kinematics : Outcome α (PositionKinematics α) :=
  stage s c held .positionKinematics StageValue.positionKinematics? (workKinematics s c)

def workPairs : Outcome α (List (ContactPair α)) := do
  let k ← kinematics s c held
  let d : Discretizer α := ⟨s.geometry, s.model.toMechanism, s.config.defaultContactStiffness⟩
  d.contactPairs k s.config.contactModel

def pairs : Outcome α (List (ContactPair α)) :=
  stage s c held .contactPairs StageValue.contactPairs? (workPairs s c held)

def workContacts : Outcome α (List (ContactKinematics α)) := do
  let k ← kinematics s c held
  let pairs ← pairs s c held
  ContactKinematics.ofPairs s.model.toMechanism k s.geometry pairs

def contacts : Outcome α (List (ContactKinematics α)) :=
  stage s c held .contactKinematics StageValue.contactKinematics? (workContacts s c held)

def linearDynamics : Outcome α (List (Mat α)) := do
  let k ← kinematics s c held
  s.linearDynamics c.state k

/-- The failure of the problem while the free accelerations are in progress. Unless it is so itself, it
    comes as far as these. -/
def blocked (inProgress : Bool) : Failure α :=
  if inProgress then loop s c .problem
  else refused s c <|
    match linearDynamics s c held with
    | .error e => e
    | .ok _ => loop s c .freeAccelerations

/-- What a stage answers to a source of actuation while the free accelerations are in progress. -/
def answer (asker : Asker) : Stage → Outcome α (StageValue α)
  | .positionKinematics => return .positionKinematics (← kinematics s c held)
  | .contactPairs => return .contactPairs (← pairs s c held)
  | .contactKinematics => return .contactKinematics (← contacts s c held)
  | .freeAccelerations => .error (loop s c .freeAccelerations)
  | .problem => .error (blocked s c held (asker.waiting .problem))
  | .results =>
    .error (if asker.waiting .results then loop s c .results
      else refused s c (blocked s c held (asker.waiting .problem)))

/-- Actuation, given what stages answer to its source. -/
def actuation (answer : Stage → Outcome α (StageValue α)) : Outcome α (Vec α) :=
  match c.actuation with
  | .none => return .zeros c.state.numVelocities
  | .fixed tau => Simulator.checkActuation c tau
  | .source source => do
    let tau ← (source c.state).under answer
    Simulator.checkActuation c tau

def workFree (asker : Asker) : Outcome α (FreeAccelerations α) := do
  let k ← kinematics s c held
  let tau ← actuation c (answer s c held asker)
  s.freeAccelerations c.state k tau

def free (asker : Asker) : Outcome α (FreeAccelerations α) :=
  stage s c held .freeAccelerations StageValue.freeAccelerations? (workFree s c held asker)

def workProblem (asker : Asker) : Outcome α (AssembledProblem α) := do
  let dynamics ← linearDynamics s c held
  let a ← free s c held asker.throughProblem
  let p ← Problem.new s.timeStep dynamics (s.freeVelocities c.state a)
  let pairs ← pairs s c held
  let kinematics ← contacts s c held
  let contacts ← s.addContacts p pairs kinematics
  let p ← s.addJointConstraints c.state contacts.problem
  return ⟨p, contacts.frames⟩

def problem (asker : Asker) : Outcome α (AssembledProblem α) :=
  stage s c held .problem StageValue.problem? (workProblem s c held asker)

def workResults : Outcome α (ContactResults α) := do
  let p ← problem s c held .results
  s.contactResults c.state p

def results : Outcome α (ContactResults α) :=
  stage s c held .results StageValue.results? (workResults s c held)

/-- What working out a stage gives a client. -/
def work : Stage → Outcome α (StageValue α)
  | .positionKinematics => return .positionKinematics (← workKinematics s c)
  | .contactPairs => return .contactPairs (← workPairs s c held)
  | .contactKinematics => return .contactKinematics (← workContacts s c held)
  | .freeAccelerations => return .freeAccelerations (← workFree s c held .client)
  | .problem => return .problem (← workProblem s c held .client)
  | .results => return .results (← workResults s c held)

/-- What a stage answers to a client. -/
def any : Stage → Outcome α (StageValue α)
  | .positionKinematics => return .positionKinematics (← kinematics s c held)
  | .contactPairs => return .contactPairs (← pairs s c held)
  | .contactKinematics => return .contactKinematics (← contacts s c held)
  | .freeAccelerations => return .freeAccelerations (← free s c held .client)
  | .problem => return .problem (← problem s c held .client)
  | .results => return .results (← results s c held)

/-! ### What the asker decides -/

variable {s c held}

/-- Where the linear dynamics are found, only a stage in progress stands in the way of the problem. -/
theorem blocked_eq_loop {m : List (Mat α)} (h : linearDynamics s c held = .ok m) (inProgress : Bool) :
    ∃ t, blocked s c held inProgress = loop s c t := by
  cases inProgress with
  | true => exact ⟨.problem, rfl⟩
  | false =>
    refine ⟨.freeAccelerations, ?_⟩
    simp only [blocked, h, Bool.false_eq_true, ↓reduceIte, refused_loop]

theorem answer_results {m : List (Mat α)} (h : linearDynamics s c held = .ok m) (asker : Asker) :
    ∃ t, answer s c held asker .results = .error (loop s c t) := by
  obtain ⟨t, ht⟩ := blocked_eq_loop h (asker.waiting .problem)
  simp only [answer, ht, refused_loop]
  split
  · exact ⟨_, rfl⟩
  · exact ⟨t, rfl⟩

theorem sameAnswer_answer {m : List (Mat α)} (h : linearDynamics s c held = .ok m) (a b : Asker)
    (stage : Stage) :
    SameAnswer (answer s c held a stage) (answer s c held b stage) := by
  cases stage with
  | positionKinematics => exact .inl rfl
  | contactPairs => exact .inl rfl
  | contactKinematics => exact .inl rfl
  | freeAccelerations => exact .inl rfl
  | problem =>
    obtain ⟨t, ht⟩ := blocked_eq_loop h (a.waiting .problem)
    obtain ⟨t', ht'⟩ := blocked_eq_loop h (b.waiting .problem)
    rw [answer, answer, ht, ht']
    exact sameAnswer_loop t t'
  | results =>
    obtain ⟨t, ht⟩ := answer_results h a
    obtain ⟨t', ht'⟩ := answer_results h b
    rw [ht, ht']
    exact sameAnswer_loop t t'

theorem sameValue_actuation (blind : c.actuation.Blind) {answer answer' : Stage → Outcome α (StageValue α)}
    (h : ∀ stage, SameAnswer (answer stage) (answer' stage)) :
    SameValue (actuation c answer) (actuation c answer') := by
  unfold actuation
  split
  · exact .refl _
  · exact .refl _
  · rename_i source hsource
    exact ((blind source hsource c.state).under h).bind fun _ _ => .refl _

theorem sameValue_workFree (blind : c.actuation.Blind) {m : List (Mat α)}
    (h : linearDynamics s c held = .ok m)
    (a b : Asker) : SameValue (workFree s c held a) (workFree s c held b) :=
  (SameValue.refl _).bind fun _ _ =>
    (sameValue_actuation blind (sameAnswer_answer h a b)).bind fun _ _ => .refl _

theorem sameValue_workProblem (blind : c.actuation.Blind) (a b : Asker) :
    SameValue (workProblem s c held a) (workProblem s c held b) :=
  (SameValue.refl _).bind fun _ h =>
    (sameValue_stage _ (sameValue_workFree blind h _ _)).bind fun _ _ => .refl _

end Direct

end CompliantContact
