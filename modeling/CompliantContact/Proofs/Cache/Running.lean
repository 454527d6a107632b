import CompliantContact.Proofs.Cache.Recomputed
import Mathlib.Logic.Relation

/-!
Entries while others are computed.

What clients do with a cache is work that evaluates entries by work of the same kind, to any depth. A
machine carries it out step by step, with the entries that are being computed on a stack, and comes to
the same end as evaluation (`Work.steps_run`). An entry that is stale under some versions stays so until
its own computation is completed, because the versions of what it depends on only grow
(`Work.Inv.stale_of_steps`). So while an entry is computed, it and all that depends on it are stale, and
asking for it again fails (`Work.stale_until_completed`).
-/

namespace CompliantContact

variable {V α : Type}

/-- What a client does with a cache: it looks at it, drops its values, and evaluates entries, going on
    as it likes with what it finds. -/
inductive Work (V α : Type) where
  | done (result : Outcome α V)
  | look (next : Cache V → Work V α)
  | invalidateAll (next : Work V α)
  | eval (versions : SourceVersions) (i : EntryIndex) (ofValue? : V → Option V) (work : Work V α)
      (next : Outcome α V → Work V α)

namespace Work

/-- Carries out work on a cache. -/
def run : Work V α → Cached V α V
  | done result => fun c => (result, c)
  | look next => fun c => (next c).run c
  | invalidateAll next => fun c => next.run c.invalidateAll
  | eval versions i ofValue? work next => fun c =>
    match Cache.eval versions i id ofValue? work.run c with
    | (result, c) => (next result).run c

end Work

/-- The caches that clients can have, with failures in `α`. -/
inductive Cache.Reachable (α : Type) : Cache V → Prop where
  | empty : Reachable α .empty
  | declared {c d : Cache V} {name : String} {prerequisites : List Prerequisite} {i : EntryIndex}
      (h : Reachable α c)
      (hd : (c.declare name prerequisites : Outcome α (Cache V × EntryIndex)) = .ok (d, i)) : Reachable α d
  | copied {c : Cache V} (h : Reachable α c) : Reachable α c.emptyLike
  | worked {c : Cache V} (w : Work V α) (h : Reachable α c) : Reachable α (w.run c).2

namespace Work

/-! ### A machine -/

/-- An entry that is being computed, the versions it is computed for, and what comes after it. -/
structure Frame (V α : Type) where
  index : EntryIndex
  versions : SourceVersions
  next : Outcome α V → Work V α

/-- Work that is underway, within the entries that are being computed, the innermost first. -/
structure Machine (V α : Type) where
  work : Work V α
  frames : List (Frame V α)
  cache : Cache V

namespace Machine

/-- One step, if there is any left. -/
def step : Machine V α → Option (Machine V α)
  | ⟨done _, [], _⟩ => none
  | ⟨done (.error e), f :: frames, c⟩ => some ⟨f.next (.error e), frames, c.finish f.index⟩
  | ⟨done (.ok x), f :: frames, c⟩ => some ⟨f.next (.ok x), frames, c.keep f.versions f.index x⟩
  | ⟨look next, frames, c⟩ => some ⟨next c, frames, c⟩
  | ⟨invalidateAll next, frames, c⟩ => some ⟨next, frames, c.invalidateAll⟩
  | ⟨eval versions i ofValue? work next, frames, c⟩ =>
    match c.entry? i with
    | none => some ⟨next (.error (.invalidIndex "cache entry" i.val)), frames, c⟩
    | some e =>
      if e.inProgress then some ⟨next (.error (.algebraicLoop e.name)), frames, c⟩
      else match c.current? versions i with
        | none => some ⟨work, ⟨i, versions, next⟩ :: frames, c.start i⟩
        | some x => some ⟨next (Cache.readKept e.name ofValue? x), frames, c⟩

/-- The step with which the computation of an entry is completed. -/
def Completes (i : EntryIndex) (m : Machine V α) : Prop :=
  ∃ x f frames, m.work = done (.ok x) ∧ m.frames = f :: frames ∧ f.index = i

/-- Any number of steps. -/
def Steps : Machine V α → Machine V α → Prop := Relation.ReflTransGen fun m m' => m.step = some m'

/-- Any number of steps in which the computation of an entry is not completed. -/
def StepsWithout (i : EntryIndex) : Machine V α → Machine V α → Prop :=
  Relation.ReflTransGen fun m m' => m.step = some m' ∧ ¬ m.Completes i

variable {m m' m'' : Machine V α} {v : SourceVersions} {i : EntryIndex}

theorem Steps.head (h : m.step = some m') (hsteps : Steps m' m'') : Steps m m'' :=
  Relation.ReflTransGen.head h hsteps

theorem Steps.trans (h : Steps m m') (hsteps : Steps m' m'') : Steps m m'' :=
  Relation.ReflTransGen.trans h hsteps

section
variable {ofValue? : V → Option V} {work : Work V α} {next : Outcome α V → Work V α}
  {frames : List (Frame V α)} {c : Cache V} {e : Entry V}

theorem step_eval_of_none (he : c.entry? i = none) : step ⟨eval v i ofValue? work next, frames, c⟩ =
    some ⟨next (.error (.invalidIndex "cache entry" i.val)), frames, c⟩ := by
  rw [step, he]

theorem step_eval_of_busy (he : c.entry? i = some e) (hbusy : c.isInProgress i = true) :
    step ⟨eval v i ofValue? work next, frames, c⟩ =
      some ⟨next (.error (.algebraicLoop e.name)), frames, c⟩ := by
  have hbusy : e.inProgress = true := by simpa [Cache.isInProgress, he] using hbusy
  rw [step, he]
  simp only [hbusy, ↓reduceIte]

theorem step_eval_of_current {x : V} (he : c.entry? i = some e) (hidle : c.isInProgress i = false)
    (hx : c.current? v i = some x) : step ⟨eval v i ofValue? work next, frames, c⟩ =
      some ⟨next (Cache.readKept e.name ofValue? x), frames, c⟩ := by
  have hidle : e.inProgress = false := by simpa [Cache.isInProgress, he] using hidle
  rw [step, he]
  simp only [hidle, Bool.false_eq_true, ↓reduceIte, hx]

theorem step_eval_of_stale (he : c.entry? i = some e) (hidle : c.isInProgress i = false)
    (hstale : c.current? v i = none) : step ⟨eval v i ofValue? work next, frames, c⟩ =
      some ⟨work, ⟨i, v, next⟩ :: frames, c.start i⟩ := by
  have hidle : e.inProgress = false := by simpa [Cache.isInProgress, he] using hidle
  rw [step, he]
  simp only [hidle, Bool.false_eq_true, ↓reduceIte, hstale]

end

/-- What a step does to the stack and the cache. -/
theorem step_cases (h : m.step = some m') :
    (m'.frames = m.frames ∧ (m'.cache = m.cache ∨ m'.cache = m.cache.invalidateAll)) ∨
    (∃ f e, m'.frames = f :: m.frames ∧ m'.cache = m.cache.start f.index ∧ m.cache.entry? f.index = some e ∧
      m.cache.isInProgress f.index = false ∧ m.cache.isUpToDate f.versions f.index = false) ∨
    (∃ f, m.frames = f :: m'.frames ∧ m'.cache = m.cache.finish f.index) ∨
    ∃ f x, m.frames = f :: m'.frames ∧ m'.cache = m.cache.keep f.versions f.index x ∧
    m.Completes f.index := by
  obtain ⟨work, frames, c⟩ := m
  cases work with
  | done result =>
    cases frames with
    | nil => cases h
    | cons f frames =>
      cases result with
      | error e =>
        cases h
        exact .inr (.inr (.inl ⟨f, rfl, rfl⟩))
      | ok x =>
        cases h
        exact .inr (.inr (.inr ⟨f, x, rfl, rfl, x, f, frames, rfl, rfl, rfl⟩))
  | look next =>
    cases h
    exact .inl ⟨rfl, .inl rfl⟩
  | invalidateAll next =>
    cases h
    exact .inl ⟨rfl, .inr rfl⟩
  | eval versions i ofValue? work next =>
    cases he : c.entry? i with
    | none =>
      rw [step_eval_of_none he] at h
      cases h
      exact .inl ⟨rfl, .inl rfl⟩
    | some e =>
      cases hidle : c.isInProgress i with
      | true =>
        rw [step_eval_of_busy he hidle] at h
        cases h
        exact .inl ⟨rfl, .inl rfl⟩
      | false =>
        cases hx : c.current? versions i with
        | some x =>
          rw [step_eval_of_current he hidle hx] at h
          cases h
          exact .inl ⟨rfl, .inl rfl⟩
        | none =>
          rw [step_eval_of_stale he hidle hx] at h
          cases h
          exact .inr (.inl ⟨⟨i, versions, next⟩, e, rfl, rfl, he, hidle, Cache.isUpToDate_eq_false hx⟩)

end Machine

/-- The machine comes to the end that evaluation comes to. -/
theorem steps_run (w : Work V α) (frames : List (Frame V α)) (c : Cache V) :
    Machine.Steps ⟨w, frames, c⟩ ⟨done (w.run c).1, frames, (w.run c).2⟩ := by
  induction w generalizing frames c with
  | done result => exact .refl
  | look next ih => exact .head rfl (ih c frames c)
  | invalidateAll next ih => exact .head rfl (ih frames c.invalidateAll)
  | eval versions i ofValue? work next ihwork ihnext =>
    have hrun : ∀ r d, Cache.eval versions i id ofValue? work.run c = (r, d) →
        (eval versions i ofValue? work next).run c = (next r).run d := fun r d h => by
      show (match Cache.eval versions i id ofValue? work.run c with | (result, c) => (next result).run c) = _
      rw [h]
    cases he : c.entry? i with
    | none =>
      rw [hrun _ _ (Cache.eval_of_none he)]
      exact .head (Machine.step_eval_of_none he) (ihnext _ frames c)
    | some e =>
      cases hidle : c.isInProgress i with
      | true =>
        rw [hrun _ _ (Cache.eval_of_busy he hidle)]
        exact .head (Machine.step_eval_of_busy he hidle) (ihnext _ frames c)
      | false =>
        cases hx : c.current? versions i with
        | some x =>
          rw [hrun _ _ (Cache.eval_of_current he hidle hx)]
          exact .head (Machine.step_eval_of_current he hidle hx) (ihnext _ frames c)
        | none =>
          have hbegun : Machine.Steps ⟨eval versions i ofValue? work next, frames, c⟩ _ :=
            .head (Machine.step_eval_of_stale he hidle hx)
              (ihwork (⟨i, versions, next⟩ :: frames) (c.start i))
          cases hw : work.run (c.start i) with
          | mk r d =>
            rw [hw] at hbegun
            cases r with
            | error f =>
              rw [hrun _ _ ((Cache.eval_of_stale he hidle hx).trans (Cache.compute_of_error hw))]
              exact hbegun.trans (.head rfl (ihnext _ frames (d.finish i)))
            | ok x =>
              rw [hrun _ _ ((Cache.eval_of_stale he hidle hx).trans (Cache.compute_of_ok hw))]
              exact hbegun.trans (.head rfl (ihnext _ frames (d.keep versions i x)))

/-! ### What holds underway -/

/-- What holds of a machine: the entries in progress are those on the stack, each of them once, and they
    are stale. -/
structure Inv (m : Machine V α) : Prop where
  regular : m.cache.Regular
  nodup : (m.frames.map Frame.index).Nodup
  busy : ∀ i, m.cache.isInProgress i = true ↔ i ∈ m.frames.map Frame.index
  stale : ∀ f ∈ m.frames, m.cache.isUpToDate f.versions f.index = false

namespace Inv

variable {m m' : Machine V α} {v : SourceVersions} {i : EntryIndex}

/-- A step brings no entry up to date but the one that it completes. -/
theorem stale_step (h : Inv m) (hstep : m.step = some m') (hi : m.cache.isUpToDate v i = false)
    (hother : ¬ m.Completes i) :
    m'.cache.isUpToDate v i = false := by
  rcases Machine.step_cases hstep with ⟨-, hcache | hcache⟩ | ⟨f, -, -, hcache, -⟩ | ⟨f, -,
    hcache⟩ | ⟨f, x, -, hcache, hdone⟩ <;>
    rw [hcache]
  · exact hi
  · exact Cache.isUpToDate_eq_false (Cache.current?_invalidateAll ..)
  · rw [Cache.isUpToDate_start, hi]
  · rw [Cache.isUpToDate_finish, hi]
  · have hne : i ≠ f.index := fun heq => hother (heq ▸ hdone)
    refine Bool.eq_false_iff.mpr fun hfresh => ?_
    rw [Cache.isUpToDate_of_keep h.regular hne hfresh] at hi
    cases hi

theorem regular_step (h : Inv m) (hstep : m.step = some m') : m'.cache.Regular := by
  rcases Machine.step_cases hstep with ⟨-, hcache | hcache⟩ | ⟨f, -, -, hcache, -⟩ | ⟨f, -,
    hcache⟩ | ⟨f, x, -, hcache, -⟩ <;>
    rw [hcache]
  · exact h.regular
  · exact h.regular.invalidateAll
  · exact h.regular.of_settled? (m.cache.settled?_start f.index)
  · exact h.regular.of_settled? (m.cache.settled?_finish f.index)
  · exact h.regular.keep

/-- An entry is taken from the stack when it is no longer in progress. -/
theorem pop {f : Frame V α} (h : Inv m) (hframes : m.frames = f :: m'.frames) (hregular : m'.cache.Regular)
    (hself : m'.cache.isInProgress f.index = false)
    (hbusy : ∀ i, i ≠ f.index → m'.cache.isInProgress i = m.cache.isInProgress i)
    (hstale : ∀ g ∈ m'.frames, g.index ≠ f.index → m'.cache.isUpToDate g.versions g.index = false) :
    Inv m' := by
  have hnodup := h.nodup
  rw [hframes, List.map_cons, List.nodup_cons] at hnodup
  refine ⟨hregular, hnodup.2, fun i => ?_, fun g hg => ?_⟩
  · by_cases hi : i = f.index
    · rw [hi]
      exact ⟨fun hself' => absurd hself' (by simp [hself]), fun hmem => absurd hmem hnodup.1⟩
    · rw [hbusy i hi, h.busy, hframes, List.map_cons, List.mem_cons]
      exact or_iff_right hi
  · exact hstale g hg fun heq => hnodup.1 (heq ▸ List.mem_map_of_mem hg)

theorem step (h : Inv m) (hstep : m.step = some m') : Inv m' := by
  have hregular := h.regular_step hstep
  rcases Machine.step_cases hstep with
    ⟨hframes, hcache⟩ | ⟨f, e, hframes, hcache, he, hidle, hf⟩ | ⟨f, hframes, hcache⟩ | ⟨f, x,
      hframes, hcache, -⟩
  · refine ⟨hregular, hframes ▸ h.nodup, fun i => ?_, fun f hf => ?_⟩
    · rcases hcache with hcache | hcache <;> rw [hcache, hframes]
      · exact h.busy i
      · rw [Cache.isInProgress_invalidateAll]
        exact h.busy i
    · rcases hcache with hcache | hcache <;> rw [hcache]
      · exact h.stale f (hframes ▸ hf)
      · exact Cache.isUpToDate_eq_false (Cache.current?_invalidateAll ..)
  · have hnew : f.index ∉ m.frames.map Frame.index := fun hmem => by
      rw [← h.busy, hidle] at hmem
      cases hmem
    refine ⟨hregular, ?_, fun i => ?_, fun g hg => ?_⟩
    · rw [hframes, List.map_cons]
      exact List.nodup_cons.mpr ⟨hnew, h.nodup⟩
    · rw [hframes, hcache, List.map_cons, List.mem_cons]
      by_cases hi : i = f.index
      · rw [hi]
        exact ⟨fun _ => .inl rfl, fun _ => Cache.isInProgress_start_self he⟩
      · rw [Cache.isInProgress_start_of_ne hi, h.busy, or_iff_right hi]
    · rw [hcache, Cache.isUpToDate_start]
      rw [hframes] at hg
      rcases List.mem_cons.mp hg with rfl | hg
      · exact hf
      · exact h.stale g hg
  all_goals
    have hold : ∀ g ∈ m'.frames, m.cache.isUpToDate g.versions g.index = false := fun g hg =>
      h.stale g (hframes ▸ List.mem_cons_of_mem _ hg)
  · refine h.pop hframes hregular ?_ (fun i hi => ?_) fun g hg _ => ?_ <;> rw [hcache]
    · exact Cache.isInProgress_finish_self ..
    · exact Cache.isInProgress_finish_of_ne hi
    · rw [Cache.isUpToDate_finish, hold g hg]
  · refine h.pop hframes hregular ?_ (fun i hi => ?_) fun g hg hne => ?_ <;> rw [hcache]
    · exact Cache.isInProgress_finish_self ..
    · exact Cache.isInProgress_keep_of_ne hi
    · refine Bool.eq_false_iff.mpr fun hfresh => ?_
      have hback := Cache.isUpToDate_of_keep h.regular hne hfresh
      rw [hold g hg] at hback
      cases hback

theorem of_idle {c : Cache V} (hc : c.Regular) (hidle : ∀ i, c.isInProgress i = false) (w : Work V α) :
    Inv ⟨w, [], c⟩ :=
  ⟨hc, List.nodup_nil, fun i => by simp [hidle], fun _ hf => by cases hf⟩

/-- When nothing is computed nothing is in progress. -/
theorem idle (h : Inv m) (hframes : m.frames = []) (i : EntryIndex) : m.cache.isInProgress i = false := by
  refine Bool.eq_false_iff.mpr fun hbusy => ?_
  rw [h.busy, hframes] at hbusy
  cases hbusy

theorem steps (h : Inv m) (hsteps : Machine.Steps m m') : Inv m' := by
  induction hsteps with
  | refl => exact h
  | tail _ hstep ih => exact ih.step hstep

/-- What is stale stays so until its own computation is completed. -/
theorem stale_of_steps (h : Inv m) (hi : m.cache.isUpToDate v i = false)
    (hsteps : Machine.StepsWithout i m m') :
    m'.cache.isUpToDate v i = false := by
  suffices hboth : Inv m' ∧ m'.cache.isUpToDate v i = false from hboth.2
  induction hsteps with
  | refl => exact ⟨h, hi⟩
  | tail _ hstep ih => exact ⟨ih.1.step hstep.1, ih.1.stale_step hstep.1 ih.2 hstep.2⟩

/-- With an entry that is computed, all that depends on it is stale. -/
theorem stale_of_reaches {f : Frame V α} (h : Inv m) (hf : f ∈ m.frames) (hi : m.cache.Reaches i f.index) :
    m.cache.isUpToDate f.versions i = false := by
  refine Bool.eq_false_iff.mpr fun hfresh => ?_
  have hself := hi.isUpToDate h.regular hfresh
  rw [h.stale f hf] at hself
  cases hself

end Inv

end Work

namespace Cache

variable {c d : Cache V} {name : String} {prerequisites : List Prerequisite} {i : EntryIndex}

/-! ### The caches that clients can have -/

theorem declare_eq_ok (h : (c.declare name prerequisites : Outcome α (Cache V × EntryIndex)) = .ok (d, i)) :
    d = { c with entries := c.entries.push (.declared name prerequisites) } ∧
      ∀ j, .entry j ∈ prerequisites → j.val < c.size := by
  rw [declare] at h
  split at h
  · cases h
  · rename_i hnone
    cases h
    refine ⟨rfl, fun j hj => ?_⟩
    have hj := List.findSome?_eq_none_iff.mp hnone _ hj
    dsimp only at hj
    split at hj
    · assumption
    · cases hj

theorem entry?_push (c : Cache V) (e : Entry V) (i : EntryIndex) :
    Cache.entry? { c with entries := c.entries.push e } i = if i.val = c.size then some e else c.entry? i :=
  Array.getElem?_push

theorem Regular.push (h : c.Regular) (hprerequisites : ∀ j, .entry j ∈ prerequisites → j.val < c.size) :
    Regular { c with entries := c.entries.push (.declared name prerequisites) } := by
  refine ⟨fun i e j he hj => ?_, fun i e he hvalue => ?_, fun i e j n he hmem => ?_⟩
  all_goals
    rw [entry?_push] at he
    split at he
  · rename_i hi
    cases he
    exact hi ▸ hprerequisites j hj
  · exact h.ordered i e j he hj
  · cases he
    cases hvalue
  · exact h.complete i e he hvalue
  · cases he
    simp [Entry.declared] at hmem
  · refine Nat.le_trans (h.past i e j n he hmem) ?_
    rw [version?, version?, entry?_push]
    split
    · rename_i hj
      have hnone : c.entry? j = none := Array.getElem?_eq_none (Nat.le_of_eq hj.symm)
      rw [hnone]
      exact Nat.zero_le _
    · exact Nat.le_refl _

theorem Reachable.regular_and_idle (h : c.Reachable α) : c.Regular ∧ ∀ i, c.isInProgress i = false := by
  induction h with
  | empty =>
    have hnone : ∀ i, Cache.entry? (Cache.empty : Cache V) i = none := fun i =>
      Array.getElem?_eq_none (Nat.zero_le _)
    refine ⟨⟨fun i e j he => ?_, fun i e he => ?_, fun i e j n he => ?_⟩,
      fun i => by rw [isInProgress, hnone]; rfl⟩
    all_goals
      rw [hnone] at he
      cases he
  | declared _ hd ih =>
    obtain ⟨rfl, hprerequisites⟩ := declare_eq_ok hd
    refine ⟨ih.1.push hprerequisites, fun i => ?_⟩
    rw [isInProgress, entry?_push]
    split
    · rfl
    · exact ih.2 i
  | copied _ ih => exact ⟨(Sound.emptyLike ih.1.ordered (v := .zero)).regular, isInProgress_emptyLike _⟩
  | worked w _ ih =>
    have hend := (Work.Inv.of_idle ih.1 ih.2 w).steps (w.steps_run [] _)
    exact ⟨hend.regular, hend.idle rfl⟩

end Cache

/-- Whatever is done with a cache, an entry that is stale under some versions stays so until its own
    computation is completed. While an entry is computed all that depends on it is stale, is computed
    anew when it is asked for, and asking for the entry itself is an algebraic loop. When nothing is
    computed, nothing is in progress. -/
theorem Work.stale_until_completed {c : Cache V} (hc : c.Reachable α) (w : Work V α) :
    Machine.Steps ⟨w, [], c⟩ ⟨done (w.run c).1, [], (w.run c).2⟩ ∧
    ∀ m : Machine V α, Machine.Steps ⟨w, [], c⟩ m →
      (∀ i versions m', m.cache.isUpToDate versions i = false → Machine.StepsWithout i m m' →
        m'.cache.isUpToDate versions i = false) ∧
      (∀ f ∈ m.frames, (∀ i, m.cache.Reaches i f.index → m.cache.isUpToDate f.versions i = false) ∧
        ∀ versions i ofValue? work next, m.work = eval versions i ofValue? work next →
          (i = f.index → ∃ name, m.cache.name? i = some name ∧
            m.step = some ⟨next (.error (.algebraicLoop name)), m.frames, m.cache⟩) ∧
          (versions = f.versions → m.cache.Reaches i f.index → m.cache.isInProgress i = false →
            m.step = some ⟨work, ⟨i, versions, next⟩ :: m.frames, m.cache.start i⟩)) ∧
      (m.frames = [] → ∀ i, m.cache.isInProgress i = false) := by
  obtain ⟨hregular, hidle⟩ := hc.regular_and_idle
  refine ⟨w.steps_run [] c, fun m hsteps => ?_⟩
  have hinv : Inv m := (Inv.of_idle hregular hidle w).steps hsteps
  refine ⟨fun i versions m' hi => hinv.stale_of_steps hi,
    fun f hf => ⟨fun i => hinv.stale_of_reaches hf, ?_⟩, hinv.idle⟩
  rintro versions i ofValue? work next hwork
  obtain ⟨_, frames, cache⟩ := m
  cases hwork
  refine ⟨?_, ?_⟩
  · rintro rfl
    have hbusy : cache.isInProgress f.index = true := (hinv.busy _).mpr (List.mem_map_of_mem hf)
    obtain ⟨e, he⟩ : ∃ e, cache.entry? f.index = some e := by
      rw [Cache.isInProgress] at hbusy
      exact Option.isSome_iff_exists.mp (Option.isSome_of_any hbusy)
    exact ⟨e.name, by rw [Cache.name?, he]; rfl, Machine.step_eval_of_busy he hbusy⟩
  · rintro rfl hreaches hfree
    have hstale : cache.current? f.versions i = none := by
      rw [Cache.current?, hinv.stale_of_reaches hf hreaches]
      rfl
    cases hreaches with
    | refl => exact absurd ((hinv.busy _).mpr (List.mem_map_of_mem hf)) (by simp [hfree])
    | entry he => exact Machine.step_eval_of_stale he hfree hstale

namespace Work

/-! ### A feedback loop -/

/-- Two entries, of which the second depends on the first. -/
def loopCache : Cache Nat := ⟨#[.declared "a" [.source .time], .declared "b" [.entry ⟨0⟩]], []⟩

/-- The first entry, computed by way of the second, which asks for the first. -/
def feedback : Work Nat Float :=
  eval .zero ⟨0⟩ some (eval .zero ⟨1⟩ some (eval .zero ⟨0⟩ some (done (.ok 1)) done) done) done

theorem reachable_loopCache : loopCache.Reachable Float := by
  have hfirst : (Cache.empty.declare "a" [.source .time] : Outcome Float (Cache Nat × EntryIndex)) =
      .ok (⟨#[.declared "a" [.source .time]], []⟩, ⟨0⟩) := rfl
  have hsecond : (Cache.declare ⟨#[.declared "a" [.source .time]], []⟩ "b" [.entry ⟨0⟩] :
      Outcome Float (Cache Nat × EntryIndex)) = .ok (loopCache, ⟨1⟩) := rfl
  exact .declared (.declared .empty hfirst) hsecond

theorem stale_until_completed_feedback : ∃ m : Machine Nat Float,
    Machine.Steps ⟨feedback, [], loopCache⟩ m ∧ m.frames.map Frame.index = [⟨1⟩, ⟨0⟩] ∧
      m.cache.isUpToDate .zero ⟨1⟩ = false ∧
      m.step = some ⟨done (.error (.algebraicLoop "a")), m.frames, m.cache⟩ ∧
      ∀ i, (feedback.run loopCache).2.isInProgress i = false := by
  obtain ⟨hrun, hstates⟩ := stale_until_completed reachable_loopCache feedback
  have hfirst : Machine.step ⟨feedback, [], loopCache⟩ =
    some ⟨eval .zero ⟨1⟩ some (eval .zero ⟨0⟩ some (done (.ok 1)) done) done,
      [⟨⟨0⟩, .zero, done⟩], loopCache.start ⟨0⟩⟩ :=
    Machine.step_eval_of_stale rfl rfl (Cache.current?_of_value_eq_none fun e he => Option.some.inj he ▸ rfl)
  obtain ⟨-, hframes, -⟩ := hstates _ (.head hfirst .refl)
  -- The second entry depends on the first, which is computed.
  have hreaches : (loopCache.start ⟨0⟩).Reaches ⟨1⟩ ⟨0⟩ := .entry rfl (List.mem_singleton.mpr rfl) (.refl _)
  obtain ⟨-, hnested⟩ := hframes _ (List.mem_singleton.mpr rfl)
  have hsecond := (hnested _ _ _ _ _ rfl).2 rfl hreaches rfl
  have hsteps := Machine.Steps.head hfirst (.head hsecond .refl)
  obtain ⟨-, hframes, -⟩ := hstates _ hsteps
  obtain ⟨hstale, hnested⟩ := hframes ⟨⟨0⟩, .zero, done⟩ (by simp)
  obtain ⟨name, hname, hloop⟩ := (hnested _ _ _ _ _ rfl).1 rfl
  have hreaches : ((loopCache.start ⟨0⟩).start ⟨1⟩).Reaches ⟨1⟩ ⟨0⟩ :=
    .entry rfl (List.mem_singleton.mpr rfl) (.refl _)
  cases hname
  exact ⟨_, hsteps, rfl, hstale _ hreaches, hloop, (hstates _ hrun).2.2 rfl⟩

end Work

end CompliantContact
