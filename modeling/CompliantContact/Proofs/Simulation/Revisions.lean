import CompliantContact.Proofs.Simulation.ConstraintVelocities
import CompliantContact.Proofs.Simulation.TreesApart

/-!
Simulators that are modified, and the contexts that outlive it.

Couplers and a deformable model are added to a simulator as it is used, and a context remembers nothing
of that but the number of the revision that it was made at. Whatever the course of modifications, new
contexts and copies, this number is enough: a context is accepted exactly if the simulator has not been
modified since the first context of its line was made (`Simulator.accepts_iff_not_modified`). A
modification that fails changes nothing, and the couplers that are there join two joints with one degree
of freedom each.
-/

namespace CompliantContact

open Outcome

variable {α : Type} [Scalar α]

namespace Simulator

/-! ### Courses of events -/

/-- What clients add to a simulator. -/
inductive Modification (α : Type) where
  | couple (coupler : Coupler α)
  | register (d : DeformableModel)

/-- What a modification does to a simulator in place. -/
def Modification.assign : Modification α → Assigning (Simulator α) α Unit
  | .couple coupler => Simulator.couple coupler
  | .register d => Simulator.register d

/-- What is done with a simulator: it is modified, makes a context, or one of the contexts so far is
    copied. -/
inductive Act (α : Type) where
  | modify (x : Modification α)
  | create
  | clone (i : ℕ)

/-- A simulator with the contexts so far, the oldest first. -/
structure Bench (α : Type) where
  simulator : Simulator α
  contexts : List (Context α)

namespace Bench

/-- A modification leaves the simulator that it has made in place, also where it fails. -/
def step (w : Bench α) : Act α → Bench α
  | .modify x => { w with simulator := (x.assign.apply w.simulator).2 }
  | .create => { w with contexts := w.contexts ++ [w.simulator.defaultContext] }
  | .clone i =>
    match w.contexts[i]? with
    | some c => { w with contexts := w.contexts ++ [c.clone] }
    | none => w

def after (s : Simulator α) (acts : List (Act α)) : Bench α := acts.foldl step ⟨s, []⟩

/-- An act that modifies the simulator. -/
def Modifies (w : Bench α) (act : Act α) : Prop :=
  ∃ x, act = .modify x ∧ (x.assign.apply w.simulator).1 = .ok ()

end Bench

/-- The lines of the contexts, each by the number of the act that made its first context, extended by an
    act with the given number. A copy is of the line of its original. -/
def Act.lines (number : ℕ) (lines : List ℕ) : Act α → List ℕ
  | .modify _ => lines
  | .create => lines ++ [number]
  | .clone i =>
    match lines[i]? with
    | some line => lines ++ [line]
    | none => lines

def lines (acts : List (Act α)) : List ℕ :=
  acts.zipIdx.foldl (fun lines (act, number) => act.lines number lines) []

omit [Scalar α] in
theorem lines_concat (acts : List (Act α)) (act : Act α) :
    lines (acts ++ [act]) = act.lines acts.length (lines acts) := by
  rw [lines, List.zipIdx_append, List.foldl_append, Nat.zero_add]
  rfl

/-! ### What a modification does -/

theorem Modification.assign_eq_ok {s t : Simulator α} {x : Modification α}
    (h : x.assign.apply s = (.ok (), t)) :
    t.model = s.model ∧ t.revision = s.revision + 1 := by
  cases x with
  | couple coupler =>
    obtain rfl := addCoupler_eq_ok (Assigning.attempt_of_ok h)
    exact ⟨rfl, rfl⟩
  | register d =>
    obtain rfl := registerDeformable_eq_ok (Assigning.attempt_of_ok h)
    exact ⟨rfl, rfl⟩

/-- A modification that fails has assigned nothing before. -/
theorem Modification.assign_eq_error {s t : Simulator α} {x : Modification α} {e : Failure α}
    (h : x.assign.apply s = (.error e, t)) : t = s := by
  cases x with
  | couple coupler =>
    rw [assign, apply_couple] at h
    cases hcheck : s.checkCoupler coupler with
    | ok u =>
      rw [hcheck] at h
      cases h
    | error f =>
      rw [hcheck] at h
      cases h
      rfl
  | register d =>
    rw [assign, apply_register] at h
    cases hcheck : require (α := α) s.deformable.isNone (.duplicateModel "deformable") with
    | ok u =>
      rw [hcheck] at h
      cases h
    | error f =>
      rw [hcheck] at h
      cases h
      rfl

theorem Couplable.assign {s t : Simulator α} {x : Modification α} (hs : s.Couplable)
    (h : x.assign.apply s = (.ok (), t)) : t.Couplable := by
  cases x with
  | couple coupler => exact hs.addCoupler (Assigning.attempt_of_ok h)
  | register d => exact hs.registerDeformable (Assigning.attempt_of_ok h)

namespace Bench

variable {w : Bench α} {act : Act α}

/-- What an act leaves of the simulator: it is the same, or has been modified. -/
theorem simulator_step (w : Bench α) (act : Act α) :
    (¬ w.Modifies act ∧ (w.step act).simulator = w.simulator) ∨
      (w.Modifies act ∧ ∃ x : Modification α,
        x.assign.apply w.simulator = (.ok (), (w.step act).simulator)) := by
  cases act with
  | modify x =>
    cases hx : x.assign.apply w.simulator with
    | mk o s =>
      have hstep : (w.step (.modify x)).simulator = s := congrArg Prod.snd hx
      have hmodifies : w.Modifies (.modify x) ↔ o = .ok () := by
        constructor
        · rintro ⟨y, heq, hy⟩
          cases heq
          exact (congrArg Prod.fst hx).symm.trans hy
        · exact fun ho => ⟨x, rfl, (congrArg Prod.fst hx).trans ho⟩
      rw [hstep, hmodifies]
      cases o with
      | error e => exact .inl ⟨nofun, Modification.assign_eq_error hx⟩
      | ok u => exact .inr ⟨rfl, x, hx⟩
  | create =>
    refine .inl ⟨?_, rfl⟩
    rintro ⟨x, heq, -⟩
    cases heq
  | clone i =>
    refine .inl ⟨?_, ?_⟩
    · rintro ⟨x, heq, -⟩
      cases heq
    · rw [step]
      cases w.contexts[i]? <;> rfl

theorem model_step (w : Bench α) (act : Act α) : (w.step act).simulator.model = w.simulator.model := by
  rcases w.simulator_step act with ⟨-, hsame⟩ | ⟨-, x, hx⟩
  · rw [hsame]
  · exact (Modification.assign_eq_ok hx).1

theorem couplable_step (h : w.simulator.Couplable) (act : Act α) : (w.step act).simulator.Couplable := by
  rcases w.simulator_step act with ⟨-, hsame⟩ | ⟨-, x, hx⟩
  · rwa [hsame]
  · exact h.assign hx

/-- The revision counts the modifications. -/
theorem revision_step (w : Bench α) (act : Act α) : w.simulator.revision ≤ (w.step act).simulator.revision ∧
    ((w.step act).simulator.revision = w.simulator.revision ↔ ¬ w.Modifies act) := by
  rcases w.simulator_step act with ⟨hnot, hsame⟩ | ⟨hmodifies, x, hx⟩
  · rw [hsame]
    exact ⟨le_rfl, iff_of_true rfl hnot⟩
  · have hnext := (Modification.assign_eq_ok hx).2
    exact ⟨by omega, iff_of_false (by omega) (not_not_intro hmodifies)⟩

/-! ### Runs -/

variable {s : Simulator α} {acts : List (Act α)}

theorem after_concat (s : Simulator α) (acts : List (Act α)) (act : Act α) :
    after s (acts ++ [act]) = (after s acts).step act := by
  rw [after, List.foldl_append]
  rfl

theorem model_after (s : Simulator α) (acts : List (Act α)) : (after s acts).simulator.model = s.model := by
  induction acts using List.reverseRecOn with
  | nil => rfl
  | append_singleton acts act ih => rw [after_concat, model_step, ih]

theorem couplable_after (h : s.Couplable) (acts : List (Act α)) : (after s acts).simulator.Couplable := by
  induction acts using List.reverseRecOn with
  | nil => exact h
  | append_singleton acts act ih =>
    rw [after_concat]
    exact couplable_step ih act

/-- The revision stays the same as long as nothing is modified, and never comes back after that. -/
theorem revision_after (s : Simulator α) (acts more : List (Act α)) :
    (after s acts).simulator.revision ≤ (after s (acts ++ more)).simulator.revision ∧
      ((after s (acts ++ more)).simulator.revision = (after s acts).simulator.revision ↔
        ∀ k act, more[k]? = some act → ¬ (after s (acts ++ more.take k)).Modifies act) := by
  induction more using List.reverseRecOn with
  | nil =>
    rw [List.append_nil]
    exact ⟨le_rfl, iff_of_true rfl fun k act h => nomatch h⟩
  | append_singleton more last ih =>
    rw [← List.append_assoc, after_concat]
    obtain ⟨hle, hsame⟩ := ih
    obtain ⟨hle', hsame'⟩ := (after s (acts ++ more)).revision_step last
    refine ⟨hle.trans hle', ?_⟩
    have hlast : (∀ k act, (more ++ [last])[k]? = some act →
      ¬ (after s (acts ++ (more ++ [last]).take k)).Modifies act) ↔
        (∀ k act, more[k]? = some act → ¬ (after s (acts ++ more.take k)).Modifies act) ∧
          ¬ (after s (acts ++ more)).Modifies last := by
      constructor
      · intro hall
        refine ⟨fun k act hk => ?_, ?_⟩
        · have hlt := (List.getElem?_eq_some_iff.mp hk).1
          have hnot := hall k act (by rwa [List.getElem?_append_left hlt])
          rwa [List.take_append_of_le_length hlt.le] at hnot
        · have hnot := hall more.length last (by rw [List.getElem?_append_right le_rfl, Nat.sub_self]; rfl)
          rwa [List.take_left] at hnot
      · rintro ⟨hall, hnot⟩ k act hk
        rcases Nat.lt_or_ge k more.length with hlt | hge
        · rw [List.getElem?_append_left hlt] at hk
          rw [List.take_append_of_le_length hlt.le]
          exact hall k act hk
        · rw [List.getElem?_append_right hge, List.getElem?_singleton] at hk
          split at hk
          · cases hk
            obtain rfl : k = more.length := by omega
            rwa [List.take_left]
          · cases hk
    rw [hlast, ← hsame, ← hsame']
    omega

/-! ### Contexts -/

/-- A context of a line has the sizes of the model and the revision at which the line was begun. -/
structure Dated (s : Simulator α) (acts : List (Act α)) (c : Context α) (line : ℕ) : Prop where
  created : acts[line]? = some .create
  revision : c.revision = (after s (acts.take line)).simulator.revision
  numPositions : c.state.numPositions = s.model.numPositions
  numVelocities : c.state.numVelocities = s.model.numVelocities

theorem Dated.clone {c : Context α} {line : ℕ} (h : Dated s acts c line) : Dated s acts c.clone line :=
  ⟨h.created, h.revision, h.numPositions, h.numVelocities⟩

theorem Dated.concat {c : Context α} {line : ℕ} (h : Dated s acts c line) (act : Act α) :
    Dated s (acts ++ [act]) c line := by
  have hlt := (List.getElem?_eq_some_iff.mp h.created).1
  refine ⟨?_, ?_, h.numPositions, h.numVelocities⟩
  · rw [List.getElem?_append_left hlt]
    exact h.created
  · rw [List.take_append_of_le_length hlt.le]
    exact h.revision

theorem Dated.create (s : Simulator α) (acts : List (Act α)) :
    Dated s (acts ++ [.create]) (after s acts).simulator.defaultContext acts.length where
  created := by rw [List.getElem?_append_right le_rfl, Nat.sub_self]; rfl
  revision := by rw [List.take_left]; rfl
  numPositions := (validate_eq_ok (validate_defaultContext _)).2.1.trans (by rw [model_after])
  numVelocities := (validate_eq_ok (validate_defaultContext _)).2.2.trans (by rw [model_after])

/-- Every context belongs to its line. -/
theorem forall₂_dated (s : Simulator α) (acts : List (Act α)) :
    List.Forall₂ (Dated s acts) (after s acts).contexts (lines acts) := by
  induction acts using List.reverseRecOn with
  | nil => exact .nil
  | append_singleton acts act ih =>
    have hold : List.Forall₂ (Dated s (acts ++ [act])) (after s acts).contexts (lines acts) :=
      ih.imp fun _ _ h => h.concat act
    rw [after_concat, lines_concat]
    cases act with
    | modify x => exact hold
    | create => exact List.rel_append hold (.cons (.create s acts) .nil)
    | clone i =>
      rw [step, Act.lines]
      have hlength := ih.length_eq
      by_cases hi : i < (after s acts).contexts.length
      · rw [List.getElem?_eq_getElem hi, List.getElem?_eq_getElem (hlength ▸ hi)]
        exact List.rel_append hold (.cons (hold.get hi (hlength ▸ hi)).clone .nil)
      · rw [List.getElem?_eq_none (Nat.le_of_not_lt hi), List.getElem?_eq_none (by omega)]
        exact hold

/-- The simulator accepts a context if it has the revision that the line of the context began with. -/
theorem Dated.validate_iff {c : Context α} {line : ℕ} (h : Dated s acts c line) :
    (after s acts).simulator.validate c.toSetting = .ok () ↔
      ∀ k, line ≤ k → ∀ act, acts[k]? = some act → ¬ (after s (acts.take k)).Modifies act := by
  have hsplit : acts.take line ++ acts.drop line = acts := List.take_append_drop line acts
  have hrevision := (revision_after s (acts.take line) (acts.drop line)).2
  rw [hsplit] at hrevision
  rw [validate, require_bind_eq_ok_iff, require_eq_ok_iff, model_after, h.revision]
  have hsizes : c.state.numPositions = s.model.numPositions ∧ c.state.numVelocities = s.model.numVelocities :=
    ⟨h.numPositions, h.numVelocities⟩
  rw [and_iff_left hsizes, eq_comm, hrevision]
  constructor
  · intro hall k hk act hact
    have hnot := hall (k - line) act (by rwa [List.getElem?_drop, Nat.add_sub_cancel' hk])
    rwa [← List.take_add, Nat.add_sub_cancel' hk] at hnot
  · intro hall k act hact
    rw [← List.take_add]
    exact hall (line + k) (Nat.le_add_right ..) act (by rwa [List.getElem?_drop] at hact)

end Bench

/-- Whatever is done with a new simulator, it accepts a context exactly if it has not been modified
    since the first context of the line was made. A modification that fails changes neither what the
    simulator holds nor which contexts it accepts, and the couplers join different joints of one degree
    of freedom. -/
theorem accepts_iff_not_modified {model : Model α} {geometry : GeometryQuery α} {config : Config α}
    {s : Simulator α} (h : Simulator.new model geometry config = .ok s) (acts : List (Act α)) :
    (∀ (i : ℕ) (c : Context α), (Bench.after s acts).contexts[i]? = some c →
      ∃ line, (lines acts)[i]? = some line ∧ acts[line]? = some .create ∧
        ((Bench.after s acts).simulator.validate c.toSetting = .ok () ↔
          ∀ k, line ≤ k → ∀ act, acts[k]? = some act → ¬ (Bench.after s (acts.take k)).Modifies act)) ∧
    (∀ (x : Modification α) (e : Failure α), (x.assign.apply (Bench.after s acts).simulator).1 = .error e →
      let failed := (Bench.after s (acts ++ [.modify x])).simulator
      failed.couplers = (Bench.after s acts).simulator.couplers ∧
        failed.deformable = (Bench.after s acts).simulator.deformable ∧
        ∀ c, failed.validate c = (Bench.after s acts).simulator.validate c) ∧
    ∀ c ∈ (Bench.after s acts).simulator.couplers, c.a ≠ c.b ∧
    (∃ joint, s.model.joint? c.a = some joint ∧ joint.dofs = 1) ∧
      ∃ joint, s.model.joint? c.b = some joint ∧ joint.dofs = 1 := by
  refine ⟨fun i c hc => ?_, fun x e hx => ?_, ?_⟩
  · have hdated := Bench.forall₂_dated s acts
    obtain ⟨hi, rfl⟩ := List.getElem?_eq_some_iff.mp hc
    have hi' := hdated.length_eq ▸ hi
    have hline := hdated.get hi hi'
    exact ⟨_, List.getElem?_eq_getElem hi', hline.created, hline.validate_iff⟩
  · have hsame : (Bench.after s (acts ++ [.modify x])).simulator = (Bench.after s acts).simulator := by
      rw [Bench.after_concat]
      exact Modification.assign_eq_error (Prod.ext hx rfl)
    intro failed
    rw [show failed = (Bench.after s acts).simulator from hsame]
    exact ⟨rfl, rfl, fun _ => rfl⟩
  · have hcouplable := Bench.couplable_after (couplable_of_new h) acts
    rw [Couplable, Bench.model_after] at hcouplable
    exact hcouplable

/-! ### Two hoists that are linked -/

noncomputable section

/-- The hoists rise together. -/
def hoistLink : Coupler ℝ := ⟨⟨0⟩, ⟨1⟩, 1, 0⟩

def ofLinkedHoists : Simulator ℝ := { ofHoisted with couplers := [hoistLink], revision := 1 }

/-- The hoists are linked after a context was made and copied. The copy is copied again, and a new
    context is made. -/
def linkingHoists : List (Act ℝ) :=
  [.create, .modify (.couple ⟨⟨0⟩, ⟨0⟩, 1, 0⟩), .clone 0, .modify (.couple hoistLink), .clone 1, .create]

end

theorem couple_ofHoisted : (couple hoistLink).apply ofHoisted = (.ok (), ofLinkedHoists) ∧
    (couple ⟨⟨0⟩, ⟨0⟩, 1, 0⟩).apply ofHoisted = (.error (.invalidConfig .couplerSelf), ofHoisted) := by
  have hjoints : ofHoisted.requireCouplable ⟨0⟩ = .ok () ∧
    ofHoisted.requireCouplable ⟨1⟩ = .ok () := ⟨rfl, rfl⟩
  constructor
  · have hcheck : ofHoisted.checkCoupler hoistLink = .ok () := by
      simp only [checkCoupler, bind_eq_ok_iff]
      exact ⟨(), hjoints.1, (), hjoints.2, (), require_eq_ok_iff.mpr (by decide),
        require_eq_ok_iff.mpr ⟨rfl, rfl⟩⟩
    rw [apply_couple, hcheck]
    rfl
  · have hcheck : ofHoisted.checkCoupler ⟨⟨0⟩, ⟨0⟩, 1, 0⟩ = .error (.invalidConfig .couplerSelf) := by
      rw [checkCoupler, hjoints.1]
      rfl
    rw [apply_couple, hcheck]

theorem after_linkingHoists :
    Bench.after ofHoisted linkingHoists =
      ⟨ofLinkedHoists, [ofHoisted.defaultContext, ofHoisted.defaultContext.clone,
      ofHoisted.defaultContext.clone.clone, ofLinkedHoists.defaultContext]⟩ ∧
    Bench.after ofHoisted (linkingHoists.take 3) =
      ⟨ofHoisted, [ofHoisted.defaultContext, ofHoisted.defaultContext.clone]⟩ := by
  have hself := couple_ofHoisted.2
  constructor
  · simp only [linkingHoists, Bench.after, List.foldl_cons, List.foldl_nil, Bench.step,
      Modification.assign, hself]
    rfl
  · simp only [linkingHoists, List.take_succ_cons, List.take_zero, Bench.after, List.foldl_cons,
      List.foldl_nil, Bench.step, Modification.assign, hself]
    rfl

/-- The last copy is refused, although it was made after the hoists were linked, and the new context is
    accepted. -/
theorem accepts_iff_not_modified_hoisted :
    ∃ copy created, (Bench.after ofHoisted linkingHoists).contexts[2]? = some copy ∧
      (Bench.after ofHoisted linkingHoists).contexts[3]? = some created ∧
      (Bench.after ofHoisted linkingHoists).simulator.validate copy.toSetting ≠ .ok () ∧
      (Bench.after ofHoisted linkingHoists).simulator.validate created.toSetting = .ok () ∧
      (Bench.after ofHoisted linkingHoists).simulator.couplers = [hoistLink] := by
  have hnew : Simulator.new hoisted (.ofTable [] (.ok [])) ballOnGround.config = .ok ofHoisted :=
    new_ball _ _ one_pos zero_le_one
  obtain ⟨hafter, hbefore⟩ := after_linkingHoists
  have haccepts := (accepts_iff_not_modified hnew linkingHoists).1
  have hcopy : (Bench.after ofHoisted linkingHoists).contexts[2]? =
    some ofHoisted.defaultContext.clone.clone := by rw [hafter]; rfl
  have hcreated : (Bench.after ofHoisted linkingHoists).contexts[3]? =
    some ofLinkedHoists.defaultContext := by rw [hafter]; rfl
  refine ⟨_, _, hcopy, hcreated, ?_, ?_, by rw [hafter]; rfl⟩
  · obtain ⟨line, hline, -, hiff⟩ := haccepts 2 _ hcopy
    obtain rfl : 0 = line := Option.some.inj hline
    rw [Ne, hiff]
    intro hnot
    refine hnot 3 (Nat.zero_le 3) _ rfl ⟨.couple hoistLink, rfl, ?_⟩
    rw [hbefore]
    exact congrArg Prod.fst couple_ofHoisted.1
  · obtain ⟨line, hline, -, hiff⟩ := haccepts 3 _ hcreated
    obtain rfl : 5 = line := Option.some.inj hline
    refine hiff.mpr fun k hk act hact => ?_
    rcases Nat.eq_or_lt_of_le hk with rfl | hlt
    · cases hact
      rintro ⟨x, heq, -⟩
      cases heq
    · rw [List.getElem?_eq_none (Nat.succ_le_of_lt hlt)] at hact
      cases hact

end Simulator

end CompliantContact
