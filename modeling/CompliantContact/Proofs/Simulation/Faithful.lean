import CompliantContact.Proofs.Simulation.Direct
import CompliantContact.Proofs.Simulation.Stages

/-!
Caches that agree with direct evaluation.

A cache is faithful to a setting if every value that is up to date in it is held from the start, or is
the one that working out the stage gives. Evaluation of a stage keeps a cache faithful, and answers from
it as direct evaluation does, as soon as the work of the stage does so (`Gives.evalStage`).
-/

namespace CompliantContact

variable {α : Type}

/-- The stages in progress, and one more. -/
def withStage (busy : Stage → Bool) (stage : Stage) : Stage → Bool := fun t => t == stage || busy t

@[simp] theorem withStage_self (busy : Stage → Bool) (stage : Stage) : withStage busy stage stage = true := by
  simp [withStage]

theorem withStage_of_ne {busy : Stage → Bool} {stage t : Stage} (h : t ≠ stage) :
    withStage busy stage t = busy t := by
  simp [withStage, h]

/-- A cache that agrees with a setting, while some stages are in progress. -/
structure Faithful [Scalar α] (s : Simulator α) (c : Setting α) (held : Held α) (busy : Stage → Bool)
    (cache : Cache (StageValue α)) : Prop where
  sound : cache.Sound c.versions
  staged : cache.Staged
  inProgress : ∀ stage : Stage, cache.isInProgress stage.index = busy stage
  holds : ∀ (stage : Stage) x, held stage = some x → cache.current? c.versions stage.index = some x
  worked : ∀ (stage : Stage) x, cache.current? c.versions stage.index = some x →
    held stage = some x ∨ held stage = none ∧ Direct.work s c held stage = .ok x

variable [Scalar α] {s : Simulator α} {c : Setting α} {held : Held α} {busy : Stage → Bool}
  {cache : Cache (StageValue α)} {stage : Stage}

namespace Faithful

/-- What holds of any cache with its own values held. -/
theorem of_held (sound : cache.Sound c.versions) (staged : cache.Staged)
    (idle : ∀ stage : Stage, cache.isInProgress stage.index = false) :
    Faithful s c (fun stage => cache.current? c.versions stage.index) (fun _ => false) cache where
  sound := sound
  staged := staged
  inProgress := idle
  holds _ _ h := h
  worked _ _ h := .inl h

/-- A cache without values. -/
theorem of_current?_eq_none (sound : cache.Sound c.versions) (staged : cache.Staged)
    (idle : ∀ stage : Stage, cache.isInProgress stage.index = false)
    (hnone : ∀ i, cache.current? c.versions i = none) :
    Faithful s c (fun _ => none) (fun _ => false) cache where
  sound := sound
  staged := staged
  inProgress := idle
  holds _ _ h := by cases h
  worked stage x h := by
    rw [hnone] at h
    cases h

theorem of_stageCache : Faithful s c (fun _ => none) (fun _ => false) (stageCache α) :=
  of_current?_eq_none (Cache.sound_stageCache _) Cache.staged_stageCache
    (fun _ => Cache.isInProgress_stageCache _) (Cache.current?_stageCache _)

theorem invalidateAll (h : Faithful s c held (fun _ => false) cache) :
    Faithful s c (fun _ => none) (fun _ => false) cache.invalidateAll :=
  of_current?_eq_none h.sound.invalidateAll h.staged.invalidateAll
    (fun stage => (cache.isInProgress_invalidateAll _).trans (h.inProgress stage))
    (cache.current?_invalidateAll _)

theorem emptyLike (h : Faithful s c held busy cache) :
    Faithful s c (fun _ => none) (fun _ => false) cache.emptyLike :=
  of_current?_eq_none (.emptyLike h.sound.ordered) h.staged.emptyLike
    (fun _ => cache.isInProgress_emptyLike _) (cache.current?_emptyLike _)

theorem held_eq_none (h : Faithful s c held busy cache) (hx : cache.current? c.versions stage.index = none) :
    held stage = none := by
  cases hh : held stage with
  | none => rfl
  | some x =>
    rw [h.holds stage x hh] at hx
    cases hx

theorem start (h : Faithful s c held busy cache) (hx : cache.current? c.versions stage.index = none) :
    Faithful s c held (withStage busy stage) (cache.start stage.index) where
  sound := h.sound.start (Cache.isUpToDate_eq_false hx)
  staged := h.staged.start stage.index
  inProgress t := by
    by_cases ht : t = stage
    · obtain ⟨e, he, -⟩ := h.staged stage
      rw [ht, Cache.isInProgress_start_self he, withStage_self]
    · rw [Cache.isInProgress_start_of_ne (Stage.index_ne ht), h.inProgress, withStage_of_ne ht]
  holds t x hx := by
    rw [Cache.current?_start]
    exact h.holds t x hx
  worked t x hx := by
    rw [Cache.current?_start] at hx
    exact h.worked t x hx

theorem finish (hidle : busy stage = false) (h : Faithful s c held (withStage busy stage) cache) :
    Faithful s c held busy (cache.finish stage.index) where
  sound := h.sound.finish
  staged := h.staged.finish stage.index
  inProgress t := by
    by_cases ht : t = stage
    · rw [ht, Cache.isInProgress_finish_self, hidle]
    · rw [Cache.isInProgress_finish_of_ne (Stage.index_ne ht), h.inProgress, withStage_of_ne ht]
  holds t x hx := by
    rw [Cache.current?_finish]
    exact h.holds t x hx
  worked t x hx := by
    rw [Cache.current?_finish] at hx
    exact h.worked t x hx

theorem keep {x : StageValue α} (hidle : busy stage = false) (hheld : held stage = none)
    (hx : Direct.work s c held stage = .ok x) (h : Faithful s c held (withStage busy stage) cache) :
    Faithful s c held busy (cache.keep c.versions stage.index x) := by
  have hstale : cache.isUpToDate c.versions stage.index = false :=
    h.sound.busy _ (by rw [h.inProgress, withStage_self])
  have other : ∀ {t : Stage}, t ≠ stage →
      (cache.keep c.versions stage.index x).current? c.versions t.index = cache.current? c.versions t.index :=
    fun ht => Cache.current?_keep_of_ne h.sound hstale (Stage.index_ne ht)
  refine ⟨h.sound.keep, h.staged.keep c.versions stage.index x, fun t => ?_, fun t y hy => ?_,
    fun t y hy => ?_⟩
  · by_cases ht : t = stage
    · rw [ht, Cache.keep, Cache.isInProgress_finish_self, hidle]
    · rw [Cache.isInProgress_keep_of_ne (Stage.index_ne ht), h.inProgress, withStage_of_ne ht]
  · have ht : t ≠ stage := by
      rintro rfl
      rw [hheld] at hy
      cases hy
    rw [other ht]
    exact h.holds t y hy
  · by_cases ht : t = stage
    · subst ht
      rw [Cache.current?_keep_self hy]
      exact .inr ⟨hheld, hx⟩
    · rw [other ht] at hy
      exact h.worked t y hy

end Faithful

/-! ### Evaluation of a stage -/

open Cached

/-- A computation on a faithful cache. -/
abbrev Gives (s : Simulator α) (c : Setting α) (held : Held α) (busy : Stage → Bool) {β : Type}
    (work : Staged α β) (result : Outcome α β) : Prop :=
  Yields (Faithful s c held busy) work result

namespace Gives

variable {β : Type} {toValue : β → StageValue α} {ofValue? : StageValue α → Option β} {work : Staged α β}
  {r : Outcome α β}

/-- The computation of a stage that is stale. What it gives for a value is kept. -/
theorem compute (hidle : busy stage = false) (hwork : Gives s c held (withStage busy stage) work r)
    (hsame : ∀ x, r = .ok x → Direct.work s c held stage = .ok (toValue x))
    (h : Faithful s c held busy cache) (hx : cache.current? c.versions stage.index = none) :
    (Cache.compute c.versions stage.index toValue work cache).1 = r ∧
      Faithful s c held busy (Cache.compute c.versions stage.index toValue work cache).2 := by
  obtain ⟨hr, hP⟩ := hwork _ (h.start hx)
  cases hw : work (cache.start stage.index) with
  | mk o d =>
    rw [hw] at hr hP
    subst hr
    cases o with
    | error e =>
      rw [Cache.compute_of_error hw]
      exact ⟨rfl, hP.finish hidle⟩
    | ok x =>
      rw [Cache.compute_of_ok hw]
      exact ⟨rfl, hP.keep hidle (h.held_eq_none hx) (hsame x rfl)⟩

/-- A stage that is not in progress, with work that gives the value of the stage. -/
theorem evalStage (hidle : busy stage = false) (hread : ∀ x, ofValue? (toValue x) = some x)
    (hwork : Gives s c held (withStage busy stage) work r)
    (hsame : held stage = none → SameValue (r >>= fun x => .ok (toValue x)) (Direct.work s c held stage)) :
    Gives s c held busy (s.evalStage c stage toValue ofValue? work)
      (Direct.stage s c held stage ofValue? r) := by
  refine (Yields.lift _).bind fun _ _ cache h => ?_
  obtain ⟨e, he, hname, -⟩ := h.staged stage
  have hidle' : cache.isInProgress stage.index = false := (h.inProgress stage).trans hidle
  cases hx : cache.current? c.versions stage.index with
  | some x =>
    rw [Cache.eval_of_current he hidle' hx, hname]
    refine ⟨?_, h⟩
    rcases h.worked stage x hx with hh | ⟨hh, hw⟩
    · simp only [hh]
    · -- The value was worked out, so working it out gives it again.
      have hr := (hsame hh x).mpr hw
      simp only [hh]
      cases r with
      | error f => cases hr
      | ok y =>
        cases hr
        simp only [Cache.readKept, hread]
  | none =>
    rw [Cache.eval_of_stale he hidle' hx]
    have hh := h.held_eq_none hx
    simp only [hh]
    refine compute hidle hwork (fun x hr => (hsame hh (toValue x)).mp ?_) h hx
    rw [hr]
    rfl

/-- A stage that is stale and whose work fails. -/
theorem evalStage_failing {f : Failure α} (hidle : busy stage = false)
    (hstale : ∀ cache, Faithful s c held busy cache → cache.current? c.versions stage.index = none)
    (hwork : Gives s c held (withStage busy stage) work (.error f)) :
    Gives s c held busy (s.evalStage c stage toValue ofValue? work) (.error (Direct.refused s c f)) := by
  rw [Direct.error_refused]
  refine (Yields.lift _).bind fun _ _ cache h => ?_
  obtain ⟨e, he, -⟩ := h.staged stage
  rw [Cache.eval_of_stale he ((h.inProgress stage).trans hidle) (hstale cache h)]
  exact compute hidle hwork (fun x hx => by cases hx) h (hstale cache h)

/-- A stage that is in progress. -/
theorem evalStage_busy (hbusy : busy stage = true) :
    Gives s c held busy (s.evalStage c stage toValue ofValue? work) (.error (Direct.loop s c stage)) := by
  rw [Direct.loop, Direct.error_refused]
  refine (Yields.lift _).bind fun _ _ cache h => ?_
  obtain ⟨e, he, hname, -⟩ := h.staged stage
  rw [Cache.eval_of_busy he ((h.inProgress stage).trans hbusy), hname]
  exact ⟨rfl, h⟩

end Gives

end CompliantContact
