import CompliantContact.Proofs.Cache.UpToDate

/-!
What an evaluation does to a cache.

An evaluation may compute entries on its way, and may fail after it has kept some of them. Whatever it
does, the declarations stay, the marks of entries in progress are as before, and values that were up to
date still are (`Cached.Keeps`). What it answers is said by `Cached.Yields`, under an invariant of the
cache. Both follow the way in which an evaluation is put together.
-/

namespace CompliantContact

variable {V α β γ : Type} {v : SourceVersions}

namespace Cached

/-! ### Sequences of computations -/

theorem bind_of_ok {work : Cached V α β} {next : β → Cached V α γ} {c d : Cache V} {x : β}
    (h : work c = (.ok x, d)) : (work >>= next) c = next x d :=
  Assigning.apply_bind_of_ok h

theorem bind_of_error {work : Cached V α β} {next : β → Cached V α γ} {c d : Cache V} {e : Failure α}
    (h : work c = (.error e, d)) : (work >>= next) c = (.error e, d) :=
  Assigning.apply_bind_of_error h

theorem lift_apply (o : Outcome α β) (c : Cache V) : (liftM o : Cached V α β) c = (o, c) := by
  cases o <;> rfl

end Cached

/-! ### What every evaluation keeps -/

/-- What an evaluation under fixed versions keeps of a cache. -/
structure Cache.Kept (v : SourceVersions) (c d : Cache V) : Prop where
  sound : d.Sound v
  declared : ∀ i e, c.entry? i = some e →
    ∃ e', d.entry? i = some e' ∧ e'.name = e.name ∧ e'.prerequisites = e.prerequisites
  inProgress : ∀ i, d.isInProgress i = c.isInProgress i
  current : ∀ i x, c.current? v i = some x → d.current? v i = some x

namespace Cache.Kept

variable {c d e : Cache V}

theorem refl (h : c.Sound v) : Kept v c c :=
  ⟨h, fun _ e he => ⟨e, he, rfl, rfl⟩, fun _ => rfl, fun _ _ hx => hx⟩

theorem trans (h₁ : Kept v c d) (h₂ : Kept v d e) : Kept v c e where
  sound := h₂.sound
  declared i x hx := by
    obtain ⟨x', hx', hn', hp'⟩ := h₁.declared i x hx
    obtain ⟨x'', hx'', hn'', hp''⟩ := h₂.declared i x' hx'
    exact ⟨x'', hx'', hn''.trans hn', hp''.trans hp'⟩
  inProgress i := (h₂.inProgress i).trans (h₁.inProgress i)
  current i x hx := h₂.current i x (h₁.current i x hx)

end Cache.Kept

/-- From a sound cache, a computation keeps what every evaluation keeps. -/
def Cached.Keeps (v : SourceVersions) (work : Cached V α β) : Prop :=
  ∀ c : Cache V, c.Sound v → Cache.Kept v c (work c).2

namespace Cached.Keeps

theorem lift (o : Outcome α β) : Keeps v (liftM o : Cached V α β) := fun c h => by
  rw [lift_apply]
  exact .refl h

theorem bind {work : Cached V α β} {next : β → Cached V α γ} (hwork : Keeps v work)
    (hnext : ∀ x, Keeps v (next x)) : Keeps v (work >>= next) := fun c h => by
  have hkept := hwork c h
  cases hw : work c with
  | mk r d =>
    rw [hw] at hkept
    cases r with
    | error e =>
      rw [bind_of_error hw]
      exact hkept
    | ok x =>
      rw [bind_of_ok hw]
      exact hkept.trans (hnext x d hkept.sound)

end Cached.Keeps

namespace Cache

variable {c d : Cache V} {i : EntryIndex}

theorem isUpToDate_eq_false (h : c.current? v i = none) : c.isUpToDate v i = false := by
  cases hi : c.isUpToDate v i with
  | false => rfl
  | true =>
    rw [current?, if_pos hi] at h
    rw [isUpToDate.eq_def] at hi
    cases he : c.entry? i with
    | none => simp [he] at hi
    | some e =>
      simp only [he, Bool.and_eq_true] at hi
      simp only [he, Option.bind_some] at h
      simp [h] at hi

theorem isInProgress_start_self {e : Entry V} (he : c.entry? i = some e) :
    (c.start i).isInProgress i = true := by
  simp [isInProgress, entry?_start, he]

theorem isInProgress_start_of_ne {j : EntryIndex} (h : j ≠ i) :
    (c.start i).isInProgress j = c.isInProgress j := by
  rw [isInProgress, entry?_start, if_neg (Ne.symm h), isInProgress]

theorem isInProgress_finish_self (c : Cache V) (i : EntryIndex) : (c.finish i).isInProgress i = false := by
  rw [isInProgress, entry?_finish, if_pos rfl]
  cases c.entry? i <;> rfl

theorem isInProgress_finish_of_ne {j : EntryIndex} (h : j ≠ i) :
    (c.finish i).isInProgress j = c.isInProgress j := by
  rw [isInProgress, entry?_finish, if_neg (Ne.symm h), isInProgress]

theorem isInProgress_keep_of_ne {j : EntryIndex} {x : V} (h : j ≠ i) :
    (c.keep v i x).isInProgress j = c.isInProgress j := by
  rw [isInProgress, entry?_keep_of_ne h, isInProgress]

/-- After work that kept the cache with an entry in progress, the entry is still stale. -/
theorem Kept.stale {e : Entry V} (he : c.entry? i = some e) (h : Kept v (c.start i) d) :
    d.isUpToDate v i = false :=
  h.sound.busy i (by rw [h.inProgress, isInProgress_start_self he])

/-- The end of a computation without a value. -/
theorem Kept.finish (hidle : c.isInProgress i = false) (h : Kept v (c.start i) d) :
    Kept v c (d.finish i) where
  sound := h.sound.finish
  declared j e he := by
    obtain ⟨e₁, he₁, hn₁, hp₁⟩ : ∃ e₁, Cache.entry? (c.start i) j = some e₁ ∧ e₁.name = e.name ∧
        e₁.prerequisites = e.prerequisites := by
      rw [entry?_start, he]
      split
      · exact ⟨_, rfl, rfl, rfl⟩
      · exact ⟨_, rfl, rfl, rfl⟩
    obtain ⟨e₂, he₂, hn₂, hp₂⟩ := h.declared j e₁ he₁
    rw [entry?_finish, he₂]
    split
    · exact ⟨_, rfl, hn₂.trans hn₁, hp₂.trans hp₁⟩
    · exact ⟨_, rfl, hn₂.trans hn₁, hp₂.trans hp₁⟩
  inProgress j := by
    by_cases hj : j = i
    · rw [hj, isInProgress_finish_self, hidle]
    · rw [isInProgress_finish_of_ne hj, h.inProgress, isInProgress_start_of_ne hj]
  current j x hx := by
    rw [current?_finish]
    exact h.current j x ((current?_start c i j).trans hx)

/-- The end of a computation with a value. -/
theorem Kept.keep {e : Entry V} {x : V} (he : c.entry? i = some e) (hidle : c.isInProgress i = false)
    (hstale : c.current? v i = none) (h : Kept v (c.start i) d) : Kept v c (d.keep v i x) where
  sound := h.sound.keep
  declared j e₀ he₀ := by
    obtain ⟨e₁, he₁, hn₁, hp₁⟩ := (h.finish hidle).declared j e₀ he₀
    rw [entry?_finish] at he₁
    rw [entry?_keep]
    split
    · rename_i hij
      rw [if_pos hij] at he₁
      obtain ⟨e₂, he₂, rfl⟩ := Option.map_eq_some_iff.mp he₁
      rw [he₂]
      exact ⟨_, rfl, hn₁, hp₁⟩
    · rename_i hij
      rw [if_neg hij] at he₁
      exact ⟨e₁, he₁, hn₁, hp₁⟩
  inProgress j := (h.finish hidle).inProgress j ▸ by
    by_cases hj : j = i
    · rw [hj, isInProgress_finish_self, Cache.keep, isInProgress_finish_self]
    · rw [isInProgress_keep_of_ne hj, isInProgress_finish_of_ne hj]
  current j y hy := by
    have hne : j ≠ i := by
      rintro rfl
      simp [hstale] at hy
    rw [current?_keep_of_ne h.sound (h.stale he) hne]
    exact h.current j y ((current?_start c i j).trans hy)

/-! ### Evaluation of an entry -/

variable {toValue : β → V} {ofValue? : V → Option β} {work : Cached V α β} {e : Entry V}

theorem eval_of_none (he : c.entry? i = none) :
    eval v i toValue ofValue? work c = (.error (.invalidIndex "cache entry" i.val), c) := by
  rw [eval, he]

theorem eval_of_busy (he : c.entry? i = some e) (hbusy : c.isInProgress i = true) :
    eval v i toValue ofValue? work c = (.error (.algebraicLoop e.name), c) := by
  have hbusy : e.inProgress = true := by simpa [isInProgress, he] using hbusy
  rw [eval, he]
  simp only [hbusy, ↓reduceIte]

/-- The reading of a kept value, which may be of another kind than asked for. -/
def readKept (name : String) (ofValue? : V → Option β) (x : V) : Outcome α β :=
  match ofValue? x with
  | none => .error (.structural (.entryOfOtherType name))
  | some y => .ok y

theorem eval_of_current {x : V} (he : c.entry? i = some e) (hidle : c.isInProgress i = false)
    (hx : c.current? v i = some x) :
    eval v i toValue ofValue? work c = (readKept e.name ofValue? x, c) := by
  have hidle : e.inProgress = false := by simpa [isInProgress, he] using hidle
  rw [eval, he]
  simp only [hidle, Bool.false_eq_true, ↓reduceIte, hx, readKept]
  cases ofValue? x <;> rfl

theorem eval_of_stale (he : c.entry? i = some e) (hidle : c.isInProgress i = false)
    (hx : c.current? v i = none) : eval v i toValue ofValue? work c = compute v i toValue work c := by
  have hidle : e.inProgress = false := by simpa [isInProgress, he] using hidle
  rw [eval, he]
  simp only [hidle, Bool.false_eq_true, ↓reduceIte, hx]

theorem compute_of_error {f : Failure α} (h : work (c.start i) = (.error f, d)) :
    compute v i toValue work c = (.error f, d.finish i) := by
  rw [compute, h]

theorem compute_of_ok {x : β} (h : work (c.start i) = (.ok x, d)) :
    compute v i toValue work c = (.ok x, d.keep v i (toValue x)) := by
  rw [compute, h, Cache.keep]

end Cache

theorem Cached.Keeps.eval {i : EntryIndex} {toValue : β → V} {ofValue? : V → Option β} {work : Cached V α β}
    (hwork : Cached.Keeps v work) : Cached.Keeps v (Cache.eval v i toValue ofValue? work) := fun c hc => by
  cases he : c.entry? i with
  | none =>
    rw [Cache.eval_of_none he]
    exact .refl hc
  | some e =>
    cases hidle : c.isInProgress i with
    | true =>
      rw [Cache.eval_of_busy he hidle]
      exact .refl hc
    | false =>
      cases hx : c.current? v i with
      | some x =>
        rw [Cache.eval_of_current he hidle hx]
        exact .refl hc
      | none =>
        -- Only a stale entry changes the cache.
        rw [Cache.eval_of_stale he hidle hx]
        have hkept := hwork (c.start i) (hc.start (Cache.isUpToDate_eq_false hx))
        cases hw : work (c.start i) with
        | mk r d =>
          rw [hw] at hkept
          cases r with
          | error f =>
            rw [Cache.compute_of_error hw]
            exact hkept.finish hidle
          | ok x =>
            rw [Cache.compute_of_ok hw]
            exact hkept.keep he hidle hx

/-! ### What an evaluation answers -/

/-- Under an invariant of the cache, which it keeps, a computation has this result. -/
def Cached.Yields (P : Cache V → Prop) (work : Cached V α β) (result : Outcome α β) : Prop :=
  ∀ c, P c → (work c).1 = result ∧ P (work c).2

namespace Cached.Yields

variable {P : Cache V → Prop}

theorem lift (o : Outcome α β) : Yields P (liftM o : Cached V α β) o := fun c h => by
  rw [lift_apply]
  exact ⟨rfl, h⟩

theorem pure (x : β) : Yields P (pure x : Cached V α β) (.ok x) := fun _ h => ⟨rfl, h⟩

theorem bind {work : Cached V α β} {next : β → Cached V α γ} {r : Outcome α β} {f : β → Outcome α γ}
    (hwork : Yields P work r) (hnext : ∀ x, r = .ok x → Yields P (next x) (f x)) :
    Yields P (work >>= next) (r >>= f) := fun c h => by
  obtain ⟨hr, hP⟩ := hwork c h
  cases hw : work c with
  | mk o d =>
    rw [hw] at hr hP
    cases o with
    | error e =>
      subst hr
      rw [bind_of_error hw]
      exact ⟨rfl, hP⟩
    | ok x =>
      rw [bind_of_ok hw]
      obtain ⟨hnow, hP'⟩ := hnext x hr.symm d hP
      subst hr
      exact ⟨hnow, hP'⟩

end Cached.Yields

end CompliantContact
