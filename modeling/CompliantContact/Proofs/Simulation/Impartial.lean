import CompliantContact.Proofs.Contact.Mirror
import CompliantContact.Proofs.Simulation.Direct

/-!
Sources of actuation that do not tell the two geometries of a contact apart.

A source may read the contacts, and act on them. If it acts alike on contacts that are seen from the
other side, then it is impartial: it ends with the same actuation. A source that reads depths only is
so.
-/

namespace CompliantContact

/-- The same value, but that some contacts may be seen from the other side. -/
inductive StageValue.Mirrored : StageValue ℝ → StageValue ℝ → Prop where
  | same (value : StageValue ℝ) : Mirrored value value
  | contactPairs (places : ℕ → Bool) (pairs : List (ContactPair ℝ)) :
      Mirrored (.contactPairs pairs) (.contactPairs (changeAt ContactPair.mirrored places pairs))
  | contactKinematics (places : ℕ → Bool) (kinematics : List (ContactKinematics ℝ)) :
      Mirrored (.contactKinematics kinematics)
        (.contactKinematics (changeAt ContactKinematics.mirrored places kinematics))

/-- The same answer, but that some contacts may be seen from the other side. -/
def MirroredAnswer (a b : Outcome ℝ (StageValue ℝ)) : Prop :=
  SameAnswer a b ∨ ∃ value value', a = .ok value ∧ b = .ok value' ∧ value.Mirrored value'

/-- Readings that end with the same actuation, whatever two answers they get that differ in the sides of
    contacts only. -/
inductive Reading.Impartial : Reading ℝ → Reading ℝ → Prop where
  | failed (e f : Failure ℝ) : Impartial (.done (.error e)) (.done (.error f))
  | done (tau : Vec ℝ) : Impartial (.done (.ok tau)) (.done (.ok tau))
  | read (stage : Stage) (next next' : Outcome ℝ (StageValue ℝ) → Reading ℝ)
      (h : ∀ a b, MirroredAnswer a b → Impartial (next a) (next' b)) :
      Impartial (.read stage next) (.read stage next')

namespace Reading.Impartial

variable {r r' : Reading ℝ}

theorem under (h : r.Impartial r') {answer answer' : Stage → Outcome ℝ (StageValue ℝ)}
    (hanswer : ∀ stage, MirroredAnswer (answer stage) (answer' stage)) :
    SameValue (r.under answer) (r'.under answer') := by
  induction h with
  | failed e f => exact .of_errors
  | done tau => exact .refl _
  | read stage next next' _ ih => exact ih _ _ (hanswer stage)

theorem alike (h : r.Impartial r') : r.Alike r' := by
  induction h with
  | failed e f => exact .failed e f
  | done tau => exact .done tau
  | read stage next next' _ ih => exact .read stage next next' fun a b hab => ih a b (.inl hab)

end Reading.Impartial

def ActuationSource.Impartial (source : ActuationSource ℝ) : Prop := ∀ x, (source x).Impartial (source x)

/-- The source, if there is one, is impartial. -/
def Actuation.Impartial (a : Actuation ℝ) : Prop := ∀ source, a = .source source → source.Impartial

/-- No loop is told apart either. -/
theorem Actuation.Impartial.blind {a : Actuation ℝ} (h : a.Impartial) : a.Blind := fun source hsource x =>
  (h source hsource x).alike

namespace ActuationSource

/-- A source that reads one stage and makes the same of it from both sides. -/
theorem impartial_ofStage {stage : Stage} {tau : State ℝ → StageValue ℝ → Vec ℝ}
    (h : ∀ x value value', StageValue.Mirrored value value' → tau x value = tau x value') :
    (ofStage stage tau).Impartial := by
  intro x
  refine .read stage _ _ fun a b hab => ?_
  obtain (rfl | ⟨m, n, rfl, rfl⟩) | ⟨value, value', rfl, rfl, hvalue⟩ := hab
  · cases a with
    | error e => exact .failed e e
    | ok value => exact .done _
  · exact .failed _ _
  · show Reading.Impartial (.done (.ok (tau x value))) (.done (.ok (tau x value')))
    rw [h x value value' hvalue]
    exact .done _

theorem impartial_depthFeedback (gain : ℝ) : (depthFeedback gain).Impartial := by
  refine impartial_ofStage fun x value value' h => ?_
  cases h with
  | same => rfl
  | contactPairs places pairs =>
    have hdepth : ∀ p : ContactPair ℝ, -p.mirrored.phi = -p.phi := fun _ => rfl
    simp only [StageValue.contactPairs?, Option.getD_some]
    rw [map_changeAt hdepth]
  | contactKinematics => rfl

end ActuationSource

/-- Impartial actuation is the same for answers that differ in the sides of contacts only. -/
theorem Direct.actuation_of_impartial {c d : Setting ℝ} (himpartial : c.actuation.Impartial)
    (hstate : d.state = c.state)
    (hactuation : d.actuation = c.actuation) {answer answer' : Stage → Outcome ℝ (StageValue ℝ)}
    (h : ∀ stage, MirroredAnswer (answer stage) (answer' stage)) :
    SameValue (actuation c answer) (actuation d answer') := by
  have hcheck : Simulator.checkActuation d = Simulator.checkActuation c := by
    funext tau
    rw [Simulator.checkActuation, Simulator.checkActuation, hstate]
  rw [actuation, actuation, hactuation, hstate, hcheck]
  split
  · exact .refl _
  · exact .refl _
  · rename_i source hsource
    exact ((himpartial source hsource c.state).under h).bind fun _ _ => .refl _

end CompliantContact
