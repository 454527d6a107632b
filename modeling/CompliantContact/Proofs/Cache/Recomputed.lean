import CompliantContact.Proofs.Cache.Evaluation

/-!
When an entry is computed again.

An entry that is up to date under some versions is so under exactly those that agree with them on the
sources that it depends on (`Cache.isUpToDate_iff_agree`). And work under fixed versions computes an
entry at most once, because the computation leaves the entry up to date: it either leaves the version of
an entry alone, or counts the version of a stale one up by one and leaves it up to date (`Cache.Once`).
-/

namespace CompliantContact

variable {V α β : Type} {v : SourceVersions}

namespace Cache

variable {c d k : Cache V} {i j : EntryIndex}

/-! ### Entries that an entry depends on -/

/-- An entry leads to itself, and to all that its prerequisites lead to. -/
inductive Reaches (c : Cache V) : EntryIndex → EntryIndex → Prop where
  | refl (i : EntryIndex) : Reaches c i i
  | entry {i j k : EntryIndex} {e : Entry V} (he : c.entry? i = some e) (hj : .entry j ∈ e.prerequisites)
      (h : Reaches c j k) : Reaches c i k

/-- With an entry all that it depends on is up to date. -/
theorem Reaches.isUpToDate (hij : c.Reaches i j) (h : c.Regular) (hi : c.isUpToDate v i = true) :
    c.isUpToDate v j = true := by
  induction hij with
  | refl i => exact hi
  | entry he hj _ ih =>
    obtain ⟨e, he', hvalue, hall⟩ := (isUpToDate_iff h.ordered).mp hi
    obtain rfl := Option.some.inj (he.symm.trans he')
    obtain ⟨m, hm⟩ := h.seen he hvalue hj
    exact ih (hall _ m hm).1

theorem DependsOn.get_eq {w : SourceVersions} {s : Source} (hdep : c.DependsOn i s) (h : c.Regular)
    (hv : c.isUpToDate v i = true) (hw : c.isUpToDate w i = true) : w.get s = v.get s := by
  induction hdep with
  | source he hs =>
    obtain ⟨e, he', hvalue, hall⟩ := (isUpToDate_iff h.ordered).mp hv
    obtain ⟨_, hw', -, hall'⟩ := (isUpToDate_iff h.ordered).mp hw
    obtain rfl := Option.some.inj (he.symm.trans he')
    obtain rfl := Option.some.inj (he.symm.trans hw')
    obtain ⟨m, hm⟩ := h.seen he hvalue hs
    have hold : v.get _ = m := hall _ m hm
    have hnew : w.get _ = m := hall' _ m hm
    rw [hold, hnew]
  | entry he hj _ ih =>
    obtain ⟨e, he', hvalue, hall⟩ := (isUpToDate_iff h.ordered).mp hv
    obtain ⟨_, hw', -, hall'⟩ := (isUpToDate_iff h.ordered).mp hw
    obtain rfl := Option.some.inj (he.symm.trans he')
    obtain rfl := Option.some.inj (he.symm.trans hw')
    obtain ⟨m, hm⟩ := h.seen he hvalue hj
    exact ih (hall _ m hm).1 (hall' _ m hm).1

/-- What is up to date under some versions is so under those that agree on the sources that it depends
    on, and no others. -/
theorem isUpToDate_iff_agree (h : c.Regular) (hi : c.isUpToDate v i = true) (w : SourceVersions) :
    c.isUpToDate w i = true ↔ ∀ s, c.DependsOn i s → w.get s = v.get s :=
  ⟨fun hw _ hdep => hdep.get_eq h hi hw, isUpToDate_of_agree h.ordered hi⟩

/-! ### Computed once -/

/-- What work does to an entry: it leaves the version alone, and does not start on what is up to date,
    or it computes a stale entry once and leaves it up to date. -/
def Once (v : SourceVersions) (i : EntryIndex) (c d : Cache V) : Prop :=
  (d.version? i = c.version? i ∧ (c.isUpToDate v i = true → d.started.count i = c.started.count i)) ∨
    (c.isUpToDate v i = false ∧ c.isInProgress i = false ∧ d.isUpToDate v i = true ∧
      d.version? i = (c.version? i).map (· + 1))

theorem Once.refl (c : Cache V) : Once v i c c := .inl ⟨rfl, fun _ => rfl⟩

theorem Kept.isUpToDate (h : Kept v c d) (hi : c.isUpToDate v i = true) : d.isUpToDate v i = true := by
  cases hx : c.current? v i with
  | none => exact absurd (isUpToDate_eq_false hx) (by simp [hi])
  | some x => exact (current?_eq_some.mp (h.current i x hx)).1

theorem Once.trans (h : Once v i c d) (hkept : Kept v c d) (h' : Once v i d k) (hkept' : Kept v d k) :
    Once v i c k := by
  rcases h with ⟨hversion, hstarted⟩ | ⟨hstale, hidle, hfresh, hversion⟩
  · rcases h' with ⟨hversion', hstarted'⟩ | ⟨hstale', hidle', hfresh', hversion'⟩
    · exact .inl ⟨hversion'.trans hversion, fun hi => (hstarted' (hkept.isUpToDate hi)).trans (hstarted hi)⟩
    · refine .inr ⟨?_, (hkept.inProgress i).symm.trans hidle', hfresh', by rw [hversion', hversion]⟩
      cases hi : c.isUpToDate v i with
      | false => rfl
      | true => exact absurd (hkept.isUpToDate hi) (by simp [hstale'])
  · rcases h' with ⟨hversion', -⟩ | ⟨hstale', -⟩
    · exact .inr ⟨hstale, hidle, hkept'.isUpToDate hfresh, hversion'.trans hversion⟩
    · exact absurd hfresh (by simp [hstale'])

theorem isUpToDate_start (c : Cache V) (i j : EntryIndex) : (c.start i).isUpToDate v j = c.isUpToDate v j :=
  isUpToDate_congr (settled?_start c i) j

theorem isUpToDate_finish (c : Cache V) (i j : EntryIndex) : (c.finish i).isUpToDate v j = c.isUpToDate v j :=
  isUpToDate_congr (settled?_finish c i) j

theorem version?_start (c : Cache V) (i j : EntryIndex) : (c.start i).version? j = c.version? j := by
  rw [version?_eq_settled?, settled?_start, version?_eq_settled?]

theorem version?_finish (c : Cache V) (i j : EntryIndex) : (c.finish i).version? j = c.version? j := by
  rw [version?_eq_settled?, settled?_finish, version?_eq_settled?]

theorem count_started_start_of_ne (h : j ≠ i) : (c.start i).started.count j = c.started.count j :=
  List.count_cons_of_ne (Ne.symm h)

section
variable {e : Entry V} (he : c.entry? i = some e) (hidle : c.isInProgress i = false)
  (hstale : c.isUpToDate v i = false) (hkept : Kept v (c.start i) d)
include he

/-- While an entry is computed its version stays. -/
theorem Once.version?_busy (h : Once v i (c.start i) d) : d.version? i = c.version? i := by
  rcases h with ⟨hversion, -⟩ | ⟨-, hidle, -⟩
  · rw [hversion, version?_start]
  · rw [isInProgress_start_self he] at hidle
    cases hidle

include hidle hstale

/-- The end of a computation without a value. -/
theorem Once.finish (h : Once v j (c.start i) d) : Once v j c (d.finish i) := by
  by_cases hj : j = i
  · subst hj
    exact .inl ⟨(version?_finish ..).trans (h.version?_busy he), fun hi => absurd hi (by simp [hstale])⟩
  · rw [Once, version?_finish, isUpToDate_finish]
    rwa [Once, version?_start, isUpToDate_start, isInProgress_start_of_ne hj,
      count_started_start_of_ne hj] at h

include hkept

omit hidle hstale in
theorem Kept.entry?_start : ∃ e', d.entry? i = some e' ∧ e'.prerequisites = e.prerequisites := by
  have hstart : Cache.entry? (c.start i) i = some { e with inProgress := true } := by
    rw [Cache.entry?_start, if_pos rfl, he]; rfl
  obtain ⟨e', he', -, hprerequisites⟩ := hkept.declared i _ hstart
  exact ⟨e', he', hprerequisites⟩

variable (hentries : ∀ j, .entry j ∈ e.prerequisites → d.isUpToDate v j = true)
include hentries

omit hidle hstale in
/-- An entry is up to date when its computation has ended, if its prerequisites are. -/
theorem Kept.isUpToDate_keep {x : V} : (d.keep v i x).isUpToDate v i = true := by
  obtain ⟨e', he', hprerequisites⟩ := hkept.entry?_start he
  exact isUpToDate_keep_self hkept.sound (hkept.stale he) he' fun k hk => hentries k (hprerequisites ▸ hk)

/-- The end of a computation with a value. -/
theorem Once.keep {x : V} (h : Once v j (c.start i) d) : Once v j c (d.keep v i x) := by
  by_cases hj : j = i
  · subst hj
    obtain ⟨e', he', -⟩ := hkept.entry?_start he
    have hversion : some e'.version = c.version? j := by rw [← h.version?_busy he, version?, he']; rfl
    refine .inr ⟨hstale, hidle, hkept.isUpToDate_keep he hentries, ?_⟩
    rw [version?_keep_self he', ← hversion]
    rfl
  · rw [Once, version?_start, isUpToDate_start, isInProgress_start_of_ne hj,
      count_started_start_of_ne hj] at h
    rw [Once, version?_keep_of_ne hj]
    rcases h with hsame | ⟨hold, hfree, hfresh, hversion⟩
    · exact .inl hsame
    · exact .inr ⟨hold, hfree, Cache.isUpToDate_keep hkept.sound (hkept.stale he) hfresh, hversion⟩

end

end Cache

end CompliantContact
