import CompliantContact.Cache.Basic

/-!
What keeps an entry of a cache up to date, and what makes it stale.

Versions only grow. So an entry that has seen an old version of a prerequisite is stale from then on:
a change of a source makes stale all that depends on the source (`isUpToDate_bump`), and a new value
makes stale all that depends on the entry, but brings nothing else up to date (`isUpToDate_keep`). What
these facts need of a cache is `Cache.Sound`.
-/

namespace CompliantContact

namespace SourceVersions

@[simp] theorem get_bump_self (v : SourceVersions) (s : Source) : (v.bump s).get s = v.get s + 1 := by
  cases s <;> rfl

theorem get_bump_of_ne {v : SourceVersions} {s t : Source} (h : t ≠ s) : (v.bump s).get t = v.get t := by
  cases s <;> cases t <;> first | rfl | exact absurd rfl h

theorem get_le_get_bump (v : SourceVersions) (s t : Source) : v.get t ≤ (v.bump s).get t := by
  by_cases h : t = s
  · subst h
    simp
  · exact Nat.le_of_eq (get_bump_of_ne h).symm

end SourceVersions

/-- Induction along the order of declaration. -/
theorem EntryIndex.strongRec {P : EntryIndex → Prop} (h : ∀ i, (∀ j, j.val < i.val → P j) → P i) :
    ∀ i, P i := by
  have key : ∀ n, ∀ i : EntryIndex, i.val = n → P i := by
    intro n
    induction n using Nat.strongRecOn with
    | ind n ih =>
      rintro i rfl
      exact h i fun j hj => ih j.val hj j rfl
  exact fun i => key i.val i rfl

namespace Entry

variable {V : Type} {e e' : Entry V}

/-- An entry without the mark of being in progress. -/
def settled (e : Entry V) : Entry V := { e with inProgress := false }

theorem eq_of_settled (h : e.settled = e'.settled) :
    e.prerequisites = e'.prerequisites ∧ e.value = e'.value ∧ e.seen = e'.seen := by
  simp only [settled, Entry.mk.injEq, and_true] at h
  exact ⟨h.2.1, h.2.2.1, h.2.2.2.1⟩

end Entry

namespace Cache

variable {V : Type} {c d : Cache V} {v : SourceVersions} {i j : EntryIndex}

/-! ### Entries -/

theorem entry?_modify (c : Cache V) (i j : EntryIndex) (f : Entry V → Entry V) :
    Cache.entry? (c.modify i f) j = if i = j then (c.entry? j).map f else c.entry? j := by
  simp only [ entry?, modify, Array.getElem?_modify]
  by_cases h : i = j
  · simp [h]
  · have : i.val ≠ j.val := fun h' => h (by cases i; cases j; simp_all)
    simp [h, this]

theorem entry?_start (c : Cache V) (i j : EntryIndex) :
    Cache.entry? (c.start i) j =
      if i = j then (c.entry? j).map fun e => { e with inProgress := true } else c.entry? j :=
  entry?_modify c i j _

theorem entry?_finish (c : Cache V) (i j : EntryIndex) :
    Cache.entry? (c.finish i) j =
      if i = j then (c.entry? j).map fun e => { e with inProgress := false } else c.entry? j :=
  entry?_modify c i j _

theorem entry?_invalidateAll (c : Cache V) (i : EntryIndex) :
    c.invalidateAll.entry? i = (c.entry? i).map fun e => { e with value := none } := by
  simp [ entry?, invalidateAll]

theorem entry?_emptyLike (c : Cache V) (i : EntryIndex) :
    c.emptyLike.entry? i = (c.entry? i).map fun e => .declared e.name e.prerequisites := by
  simp [ entry?, emptyLike]

/-- The cache when the computation of an entry has ended with a value. -/
def keep (c : Cache V) (v : SourceVersions) (i : EntryIndex) (x : V) : Cache V := (c.store v i x).finish i

theorem entry?_keep (c : Cache V) (v : SourceVersions) (i j : EntryIndex) (x : V) :
    Cache.entry? (c.keep v i x) j =
      if i = j then (c.entry? j).map fun e => { e with
        value := some x
        seen := e.prerequisites.map (c.prerequisiteVersion v)
        version := e.version + 1
        inProgress := false }
      else c.entry? j := by
  rw [keep, entry?_finish, store, entry?_modify]
  split
  · simp [Option.map_map, Function.comp_def]
  · rfl

/-! ### Being up to date -/

/-- The prerequisite still has the version that was seen, and is up to date itself. -/
def Holds (c : Cache V) (v : SourceVersions) : Prerequisite → Nat → Prop
  | .source s, seen => v.get s = seen
  | .entry j, seen => c.isUpToDate v j = true ∧ c.version? j = some seen

/-- The entries that an entry depends on were declared before it. -/
def Ordered (c : Cache V) : Prop :=
  ∀ i e j, c.entry? i = some e → .entry j ∈ e.prerequisites → j.val < i.val

theorem isUpToDate_iff (ordered : c.Ordered) : c.isUpToDate v i = true ↔
    ∃ e, c.entry? i = some e ∧ e.value.isSome ∧
      ∀ p n, (p, n) ∈ e.prerequisites.zip e.seen → c.Holds v p n := by
  rw [isUpToDate.eq_def]
  cases he : c.entry? i with
  | none => simp
  | some e =>
    simp only [Option.some.injEq, exists_eq_left', Bool.and_eq_true, List.all_eq_true, Prod.forall]
    refine and_congr_right fun _ => forall_congr' fun p => forall_congr' fun n =>
      forall_congr' fun hmem => ?_
    cases p with
    | source s => simp [Holds]
    | entry j =>
      have hlt : j.val < i.val := ordered i e j he (List.of_mem_zip hmem).1
      simp [Holds, hlt]

def settled? (c : Cache V) (i : EntryIndex) : Option (Entry V) := (c.entry? i).map Entry.settled

theorem version?_eq_settled? (c : Cache V) (i : EntryIndex) :
    c.version? i = (c.settled? i).map Entry.version := by
  simp only [version?, settled?, Option.map_map]
  rfl

/-- Being in progress has no part in being up to date. -/
theorem isUpToDate_congr (h : ∀ i, c.settled? i = d.settled? i) (i : EntryIndex) :
    c.isUpToDate v i = d.isUpToDate v i := by
  induction i using EntryIndex.strongRec with
  | h i ih =>
    have hi := h i
    rw [isUpToDate.eq_def c, isUpToDate.eq_def d]
    simp only [settled?] at hi
    cases hc : c.entry? i <;> cases hd : d.entry? i <;> simp only [hc, hd, Option.map_some, Option.map_none,
      Option.some.injEq, reduceCtorEq] at hi ⊢
    rename_i e e'
    obtain ⟨hprerequisites, hvalue, hseen⟩ := Entry.eq_of_settled hi
    rw [hvalue, hprerequisites, hseen]
    congr 1
    apply List.all_congr rfl
    rintro ⟨p, m⟩
    cases p with
    | source s => rfl
    | entry j =>
      by_cases hlt : j.val < i.val
      · simp only [hlt, ↓reduceIte, ih j hlt, version?_eq_settled?, h j]
      · simp only [hlt, ↓reduceIte]

theorem current?_congr (h : ∀ i, c.settled? i = d.settled? i) (i : EntryIndex) :
    c.current? v i = d.current? v i := by
  have hvalue : (c.entry? i).bind Entry.value = (d.entry? i).bind Entry.value := by
    have hi := congrArg (Option.bind · Entry.value) (h i)
    simpa [settled?, Option.bind_map, Function.comp_def, Entry.settled] using hi
  rw [current?, current?, isUpToDate_congr h, hvalue]

theorem settled?_start (c : Cache V) (i j : EntryIndex) : (c.start i).settled? j = c.settled? j := by
  rw [settled?, entry?_start, settled?]
  split
  · rw [Option.map_map]
    rfl
  · rfl

theorem settled?_finish (c : Cache V) (i j : EntryIndex) : (c.finish i).settled? j = c.settled? j := by
  rw [settled?, entry?_finish, settled?]
  split
  · rw [Option.map_map]
    rfl
  · rfl

theorem current?_start (c : Cache V) (i j : EntryIndex) : (c.start i).current? v j = c.current? v j :=
  current?_congr (settled?_start c i) j

theorem current?_finish (c : Cache V) (i j : EntryIndex) : (c.finish i).current? v j = c.current? v j :=
  current?_congr (settled?_finish c i) j

theorem current?_eq_some {x : V} : c.current? v i = some x ↔
    c.isUpToDate v i = true ∧ ∃ e, c.entry? i = some e ∧ e.value = some x := by
  rw [current?]
  split
  · rename_i h
    simp [h, Option.bind_eq_some_iff]
  · rename_i h
    simp [h]

theorem current?_of_value_eq_none (h : ∀ e, c.entry? i = some e → e.value = none) :
    c.current? v i = none := by
  cases hx : c.current? v i with
  | none => rfl
  | some x =>
    obtain ⟨-, e, he, hvalue⟩ := current?_eq_some.mp hx
    rw [h e he] at hvalue
    cases hvalue

theorem current?_invalidateAll (c : Cache V) (v : SourceVersions) (i : EntryIndex) :
    c.invalidateAll.current? v i = none := by
  refine current?_of_value_eq_none fun e he => ?_
  rw [entry?_invalidateAll] at he
  obtain ⟨e', -, rfl⟩ := Option.map_eq_some_iff.mp he
  rfl

theorem current?_emptyLike (c : Cache V) (v : SourceVersions) (i : EntryIndex) :
    c.emptyLike.current? v i = none := by
  refine current?_of_value_eq_none fun e he => ?_
  rw [entry?_emptyLike] at he
  obtain ⟨e', -, rfl⟩ := Option.map_eq_some_iff.mp he
  rfl

theorem isInProgress_invalidateAll (c : Cache V) (i : EntryIndex) :
    c.invalidateAll.isInProgress i = c.isInProgress i := by
  rw [isInProgress, entry?_invalidateAll, isInProgress]
  cases c.entry? i <;> rfl

theorem isInProgress_emptyLike (c : Cache V) (i : EntryIndex) : c.emptyLike.isInProgress i = false := by
  rw [isInProgress, entry?_emptyLike]
  cases c.entry? i <;> rfl

/-! ### Sound caches -/

/-- What every use keeps of a cache, under whatever versions. -/
structure Regular (c : Cache V) : Prop where
  ordered : c.Ordered
  /-- With a value stand the versions of all prerequisites. -/
  complete : ∀ i e, c.entry? i = some e → e.value.isSome → e.seen.length = e.prerequisites.length
  /-- No version of an entry was seen before its time. -/
  past : ∀ i e j n, c.entry? i = some e → (.entry j, n) ∈ e.prerequisites.zip e.seen →
  n ≤ (c.version? j).getD 0

/-- What evaluation keeps of a cache, whatever is computed. -/
structure Sound (c : Cache V) (v : SourceVersions) : Prop where
  ordered : c.Ordered
  /-- With a value stand the versions of all prerequisites. -/
  complete : ∀ i e, c.entry? i = some e → e.value.isSome → e.seen.length = e.prerequisites.length
  /-- No version was seen before its time. -/
  past : ∀ i e p n, c.entry? i = some e → (p, n) ∈ e.prerequisites.zip e.seen → n ≤ c.prerequisiteVersion v p
  /-- Only a stale entry is computed. -/
  busy : ∀ i, c.isInProgress i = true → c.isUpToDate v i = false

theorem Sound.regular (h : c.Sound v) : c.Regular :=
  ⟨h.ordered, h.complete, fun i e j n => h.past i e (.entry j) n⟩

/-- Every prerequisite of an entry with a value stands beside a version that was seen. -/
theorem Regular.seen {e : Entry V} {p : Prerequisite} (h : c.Regular) (he : c.entry? i = some e)
    (hvalue : e.value.isSome) (hp : p ∈ e.prerequisites) : ∃ m, (p, m) ∈ e.prerequisites.zip e.seen := by
  have hlength : e.seen.length = e.prerequisites.length := h.complete i e he hvalue
  obtain ⟨k, hk, rfl⟩ := List.getElem_of_mem hp
  have hk' : k < e.seen.length := hlength ▸ hk
  exact ⟨e.seen[k], List.mem_iff_getElem.mpr ⟨k, by rw [List.length_zip]; omega, by simp⟩⟩

/-- An entry is up to date only if the entries among its prerequisites are. -/
theorem Sound.current?_eq_none {e : Entry V} (h : c.Sound v) (he : c.entry? i = some e)
    (hj : .entry j ∈ e.prerequisites) (hstale : c.isUpToDate v j = false) : c.current? v i = none := by
  rw [current?, if_neg]
  intro hi
  obtain ⟨e', he', hvalue, hall⟩ := (isUpToDate_iff h.ordered).mp hi
  rw [he] at he'
  cases he'
  obtain ⟨m, hm⟩ := h.regular.seen he hvalue hj
  have hupToDate : c.isUpToDate v j = true := (hall _ m hm).1
  rw [hstale] at hupToDate
  cases hupToDate

theorem version?_keep_self {x : V} {e : Entry V} (he : c.entry? i = some e) :
    (c.keep v i x).version? i = some (e.version + 1) := by
  simp [version?, entry?_keep, he]

theorem entry?_keep_of_ne {x : V} (h : j ≠ i) : Cache.entry? (c.keep v i x) j = c.entry? j := by
  rw [entry?_keep, if_neg (Ne.symm h)]

theorem version?_keep_of_ne {x : V} (h : j ≠ i) : (c.keep v i x).version? j = c.version? j := by
  rw [version?, entry?_keep_of_ne h, version?]

theorem ordered_keep {x : V} (h : c.Ordered) : (c.keep v i x).Ordered := by
  intro j e k he hk
  rw [entry?_keep] at he
  split at he
  · obtain ⟨e', he', rfl⟩ := Option.map_eq_some_iff.mp he
    exact h j e' k he' hk
  · exact h j e k he hk

/-- A new value brings no other entry up to date, under whatever versions it was computed. By induction
    along the declarations: a prerequisite that is the entry itself has a version that was never seen.
    -/
theorem isUpToDate_of_keep {w : SourceVersions} {x : V} (h : c.Regular) (hne : j ≠ i)
    (hj : (c.keep w i x).isUpToDate v j = true) : c.isUpToDate v j = true := by
  induction j using EntryIndex.strongRec with
  | h j ih =>
    obtain ⟨e, he, hvalue, hall⟩ := (isUpToDate_iff (ordered_keep h.ordered)).mp hj
    rw [entry?_keep_of_ne hne] at he
    refine (isUpToDate_iff h.ordered).mpr ⟨e, he, hvalue, fun p m hmem => ?_⟩
    have hp := hall p m hmem
    cases p with
    | source s => exact hp
    | entry k =>
      have hlt : k.val < j.val := h.ordered j e k he (List.of_mem_zip hmem).1
      obtain ⟨hk, hversion⟩ := hp
      by_cases hki : k = i
      · subst hki
        have hpast := h.past j e k m he hmem
        cases hk' : c.entry? k with
        | none =>
          simp [version?, entry?_keep, hk'] at hversion
        | some e' =>
          rw [version?_keep_self hk', Option.some.injEq] at hversion
          simp only [version?, hk', Option.map_some, Option.getD_some] at hpast
          omega
      · rw [version?_keep_of_ne hki] at hversion
        exact ⟨ih k hlt hki hk, hversion⟩

/-- A new value of a stale entry leaves up to date what was: none of it depends on the entry. -/
theorem isUpToDate_keep {x : V} (h : c.Sound v) (hi : c.isUpToDate v i = false)
    (hj : c.isUpToDate v j = true) :
    (c.keep v i x).isUpToDate v j = true := by
  induction j using EntryIndex.strongRec with
  | h j ih =>
    have hne : j ≠ i := fun h' => by simp [h', hi] at hj
    obtain ⟨e, he, hvalue, hall⟩ := (isUpToDate_iff h.ordered).mp hj
    refine (isUpToDate_iff (ordered_keep h.ordered)).mpr
      ⟨e, (entry?_keep_of_ne hne).trans he, hvalue, fun p m hmem => ?_⟩
    have hp := hall p m hmem
    cases p with
    | source s => exact hp
    | entry k =>
      have hlt : k.val < j.val := h.ordered j e k he (List.of_mem_zip hmem).1
      obtain ⟨hk, hversion⟩ := hp
      have hki : k ≠ i := fun h' => by simp [h', hi] at hk
      exact ⟨ih k hlt hk, (version?_keep_of_ne hki).trans hversion⟩

theorem eq_of_mem_zip_map {ps : List Prerequisite} {f : Prerequisite → Nat} {p : Prerequisite} {n : Nat}
    (h : (p, n) ∈ ps.zip (ps.map f)) : n = f p := by
  obtain ⟨k, hk, heq⟩ := List.getElem_of_mem h
  simp only [List.getElem_zip, List.getElem_map, Prod.mk.injEq] at heq
  rw [← heq.1, heq.2]

/-- A new value is up to date if the entries that it depends on are. -/
theorem isUpToDate_keep_self {x : V} {e : Entry V} (h : c.Sound v) (hi : c.isUpToDate v i = false)
    (he : c.entry? i = some e) (hentries : ∀ j, .entry j ∈ e.prerequisites → c.isUpToDate v j = true) :
    (c.keep v i x).isUpToDate v i = true := by
  have hkept := entry?_keep c v i i x
  rw [if_pos rfl, he] at hkept
  refine (isUpToDate_iff (ordered_keep h.ordered)).mpr ⟨_, hkept, rfl, fun p m hmem => ?_⟩
  have hp : p ∈ e.prerequisites := (List.of_mem_zip hmem).1
  rw [eq_of_mem_zip_map hmem]
  cases p with
  | source s => rfl
  | entry j =>
    have hne : j ≠ i := fun h' => absurd (h.ordered i e j he hp) (by rw [h']; exact Nat.lt_irrefl _)
    obtain ⟨e', he', -⟩ := (isUpToDate_iff h.ordered).mp (hentries j hp)
    refine ⟨isUpToDate_keep h hi (hentries j hp), ?_⟩
    rw [version?_keep_of_ne hne, prerequisiteVersion, version?, he']
    rfl

theorem current?_keep_self {x y : V} (h : (c.keep v i x).current? v i = some y) : y = x := by
  obtain ⟨-, e, he, hy⟩ := current?_eq_some.mp h
  rw [entry?_keep, if_pos rfl] at he
  obtain ⟨e', -, rfl⟩ := Option.map_eq_some_iff.mp he
  exact (Option.some.inj hy).symm

theorem current?_keep_of_ne {x : V} (h : c.Sound v) (hi : c.isUpToDate v i = false) (hne : j ≠ i) :
    (c.keep v i x).current? v j = c.current? v j := by
  have heq : (c.keep v i x).isUpToDate v j = c.isUpToDate v j := by
    cases hj : c.isUpToDate v j with
    | true => exact isUpToDate_keep h hi hj
    | false =>
      cases hj' : (c.keep v i x).isUpToDate v j with
      | true => exact absurd (isUpToDate_of_keep h.regular hne hj') (by simp [hj])
      | false => rfl
  rw [current?, current?, heq, entry?_keep_of_ne hne]

/-- An entry of a cache stands for what is settled of it. -/
theorem entry?_of_settled? {e : Entry V} (heq : ∀ i, d.settled? i = c.settled? i) (he : d.entry? i = some e) :
    ∃ e', c.entry? i = some e' ∧ e'.prerequisites = e.prerequisites ∧ e'.value = e.value ∧
    e'.seen = e.seen := by
  have hi := heq i
  rw [settled?, he, settled?] at hi
  obtain ⟨e', he', hs⟩ := Option.map_eq_some_iff.mp hi.symm
  exact ⟨e', he', Entry.eq_of_settled hs⟩

theorem Regular.of_settled? (h : c.Regular) (heq : ∀ i, d.settled? i = c.settled? i) : d.Regular where
  ordered i e j he hj := by
    obtain ⟨e', he', hp, -, -⟩ := entry?_of_settled? heq he
    exact h.ordered i e' j he' (hp ▸ hj)
  complete i e he hvalue := by
    obtain ⟨e', he', hp, hv, hn⟩ := entry?_of_settled? heq he
    rw [← hp, ← hn]
    exact h.complete i e' he' (hv ▸ hvalue)
  past i e j n he hmem := by
    obtain ⟨e', he', hp, -, hn⟩ := entry?_of_settled? heq he
    rw [← hp, ← hn] at hmem
    rw [version?_eq_settled?, heq, ← version?_eq_settled?]
    exact h.past i e' j n he' hmem

theorem prerequisiteVersion_le_keep (c : Cache V) (v w : SourceVersions) (i : EntryIndex) (x : V)
    (p : Prerequisite) : c.prerequisiteVersion v p ≤ (c.keep w i x).prerequisiteVersion v p := by
  cases p with
  | source s => exact Nat.le_refl _
  | entry j =>
    by_cases hj : j = i
    · subst hj
      cases he : c.entry? j with
      | none => simp [prerequisiteVersion, version?, he]
      | some e =>
        simp only [prerequisiteVersion, version?_keep_self he, Option.getD_some]
        simp [version?, he]
    · simp only [prerequisiteVersion, version?_keep_of_ne hj, Nat.le_refl]

theorem Regular.keep {x : V} (h : c.Regular) : (c.keep v i x).Regular where
  ordered := ordered_keep h.ordered
  complete j e he hvalue := by
    rw [entry?_keep] at he
    split at he
    · obtain ⟨e', -, rfl⟩ := Option.map_eq_some_iff.mp he
      simp
    · exact h.complete j e he hvalue
  past j e k n he hmem := by
    refine Nat.le_trans ?_ (prerequisiteVersion_le_keep c v v i x (.entry k))
    rw [entry?_keep] at he
    split at he
    · obtain ⟨e', -, rfl⟩ := Option.map_eq_some_iff.mp he
      -- What was seen is what stands there now.
      exact Nat.le_of_eq (eq_of_mem_zip_map hmem)
    · exact h.past j e k n he hmem

theorem version?_invalidateAll (c : Cache V) (i : EntryIndex) :
    c.invalidateAll.version? i = c.version? i := by
  simp [version?, entry?_invalidateAll, Function.comp_def]

theorem Regular.invalidateAll (h : c.Regular) : c.invalidateAll.Regular := by
  refine ⟨fun i e j he hj => ?_, fun i e he hvalue => ?_, fun i e j n he hmem => ?_⟩
  all_goals
    rw [entry?_invalidateAll] at he
    obtain ⟨e', he', rfl⟩ := Option.map_eq_some_iff.mp he
  · exact h.ordered i e' j he' hj
  · cases hvalue
  · rw [version?_invalidateAll]
    exact h.past i e' j n he' hmem

namespace Sound

theorem of_settled? (h : c.Sound v) (heq : ∀ i, d.settled? i = c.settled? i)
    (busy : ∀ i, d.isInProgress i = true → c.isUpToDate v i = false) : d.Sound v where
  ordered := (h.regular.of_settled? heq).ordered
  complete := (h.regular.of_settled? heq).complete
  past i e p n he hmem := by
    obtain ⟨e', he', hp, -, hn⟩ := entry?_of_settled? heq he
    rw [← hp, ← hn] at hmem
    have hversion : d.prerequisiteVersion v p = c.prerequisiteVersion v p := by
      cases p with
      | source s => rfl
      | entry j => simp only [prerequisiteVersion, version?_eq_settled?, heq j]
    rw [hversion]
    exact h.past i e' p n he' hmem
  busy i hi := by
    rw [isUpToDate_congr heq]
    exact busy i hi

theorem isInProgress_start {c : Cache V} {i j : EntryIndex} (h : (c.start i).isInProgress j = true) :
    j = i ∨ c.isInProgress j = true := by
  rw [isInProgress, entry?_start] at h
  split at h
  · rename_i hij
    exact Or.inl hij.symm
  · exact Or.inr h

theorem start (h : c.Sound v) (hi : c.isUpToDate v i = false) : (c.start i).Sound v := by
  refine h.of_settled? (settled?_start c i) fun j hj => ?_
  rcases isInProgress_start hj with rfl | hj
  · exact hi
  · exact h.busy j hj

theorem isInProgress_finish {c : Cache V} {i j : EntryIndex} (h : (c.finish i).isInProgress j = true) :
    j ≠ i ∧ c.isInProgress j = true := by
  rw [isInProgress, entry?_finish] at h
  split at h
  · cases hj : c.entry? j <;> simp [hj] at h
  · rename_i hij
    exact ⟨fun h' => hij h'.symm, h⟩

theorem finish (h : c.Sound v) : (c.finish i).Sound v :=
  h.of_settled? (settled?_finish c i) fun j hj => h.busy j (isInProgress_finish hj).2

theorem isInProgress_keep {c : Cache V} {x : V} (h : (c.keep v i x).isInProgress j = true) :
    j ≠ i ∧ c.isInProgress j = true := by
  obtain ⟨hne, hj⟩ := isInProgress_finish h
  refine ⟨hne, ?_⟩
  rwa [isInProgress, store, entry?_modify, if_neg (Ne.symm hne)] at hj

theorem keep {x : V} (h : c.Sound v) : (c.keep v i x).Sound v where
  ordered := ordered_keep h.ordered
  complete := h.regular.keep.complete
  past j e p n he hmem := by
    refine Nat.le_trans ?_ (prerequisiteVersion_le_keep c v v i x p)
    rw [entry?_keep] at he
    split at he
    · obtain ⟨e', -, rfl⟩ := Option.map_eq_some_iff.mp he
      -- What was seen is what stands there now.
      exact Nat.le_of_eq (eq_of_mem_zip_map hmem)
    · exact h.past j e p n he hmem
  busy j hj := by
    obtain ⟨hne, hj⟩ := isInProgress_keep hj
    have hstale := h.busy j hj
    cases hk : (c.keep v i x).isUpToDate v j with
    | false => rfl
    | true => exact absurd (isUpToDate_of_keep h.regular hne hk) (by simp [hstale])

/-- Without values everything is stale. -/
theorem of_value_eq_none (ordered : c.Ordered) (hnone : ∀ i e, c.entry? i = some e → e.value = none)
    (past : ∀ i e p n, c.entry? i = some e → (p, n) ∈ e.prerequisites.zip e.seen →
      n ≤ c.prerequisiteVersion v p) : c.Sound v where
  ordered := ordered
  complete i e he hvalue := by simp [hnone i e he] at hvalue
  past := past
  busy i _ := by
    cases hi : c.isUpToDate v i with
    | false => rfl
    | true =>
      obtain ⟨e, he, hvalue, -⟩ := (isUpToDate_iff ordered).mp hi
      simp [hnone i e he] at hvalue

theorem invalidateAll (h : c.Sound v) : c.invalidateAll.Sound v := by
  refine of_value_eq_none h.regular.invalidateAll.ordered (fun i e he => ?_) fun i e p n he hmem => ?_
  all_goals
    rw [entry?_invalidateAll] at he
    obtain ⟨e', he', rfl⟩ := Option.map_eq_some_iff.mp he
  · rfl
  · have hversion : c.invalidateAll.prerequisiteVersion v p = c.prerequisiteVersion v p := by
      cases p with
      | source s => rfl
      | entry j => rw [prerequisiteVersion, version?_invalidateAll, prerequisiteVersion]
    rw [hversion]
    exact h.past i e' p n he' hmem

/-- Declared entries that were never computed. -/
theorem of_declared (ordered : c.Ordered)
    (h : ∀ i e, c.entry? i = some e → ∃ name prerequisites, e = .declared name prerequisites) :
    c.Sound v := by
  refine of_value_eq_none ordered (fun i e he => ?_) fun i e p n he hmem => ?_
  all_goals obtain ⟨name, prerequisites, rfl⟩ := h i e he
  · rfl
  · simp [Entry.declared] at hmem

theorem emptyLike (h : c.Ordered) : c.emptyLike.Sound v := by
  refine of_declared (fun i e j he hj => ?_) fun i e he => ?_
  all_goals
    rw [entry?_emptyLike] at he
    obtain ⟨e', he', rfl⟩ := Option.map_eq_some_iff.mp he
  · exact h i e' j he' hj
  · exact ⟨_, _, rfl⟩

end Sound

/-! ### Changes of sources -/

/-- A source is among the prerequisites of an entry, or of an entry that it depends on. -/
inductive DependsOn (c : Cache V) : EntryIndex → Source → Prop where
  | source {i : EntryIndex} {e : Entry V} {s : Source} (he : c.entry? i = some e)
      (hs : .source s ∈ e.prerequisites) : DependsOn c i s
  | entry {i j : EntryIndex} {e : Entry V} {s : Source} (he : c.entry? i = some e)
      (hj : .entry j ∈ e.prerequisites) (h : DependsOn c j s) : DependsOn c i s

/-- What is up to date after a change of a source was so before, and does not depend on the source. -/
theorem isUpToDate_bump {s : Source} (h : c.Sound v) (hi : c.isUpToDate (v.bump s) i = true) :
    c.isUpToDate v i = true ∧ ¬ c.DependsOn i s := by
  -- Along the order of declaration: an entry depends only on entries declared before it.
  induction i using EntryIndex.strongRec with
  | h i ih =>
    obtain ⟨e, he, hvalue, hall⟩ := (isUpToDate_iff h.ordered).mp hi
    have hentry : ∀ j, .entry j ∈ e.prerequisites → c.isUpToDate (v.bump s) j = true →
        c.isUpToDate v j = true ∧ ¬ c.DependsOn j s := fun j hj =>
      ih j (h.ordered i e j he hj)
    -- The changed source has a version now that nothing has seen.
    have hsource : ∀ t n, (.source t, n) ∈ e.prerequisites.zip e.seen → t ≠ s ∧ v.get t = n := by
      intro t n hmem
      have hnow : (v.bump s).get t = n := hall _ n hmem
      have hpast : n ≤ v.get t := h.past i e _ n he hmem
      have hne : t ≠ s := by
        rintro rfl
        rw [SourceVersions.get_bump_self] at hnow
        omega
      exact ⟨hne, by rw [← SourceVersions.get_bump_of_ne hne, hnow]⟩
    refine ⟨(isUpToDate_iff h.ordered).mpr ⟨e, he, hvalue, fun p m hmem => ?_⟩, fun hdep => ?_⟩
    · cases p with
      | source t => exact (hsource t m hmem).2
      | entry j =>
        obtain ⟨hj, hversion⟩ := hall _ m hmem
        exact ⟨(hentry j (List.of_mem_zip hmem).1 hj).1, hversion⟩
    · cases hdep with
      | source he' hs =>
        rw [he] at he'
        cases he'
        obtain ⟨m, hm⟩ := h.regular.seen he hvalue hs
        exact (hsource s m hm).1 rfl
      | entry he' hj hdep =>
        rw [he] at he'
        cases he'
        obtain ⟨m, hm⟩ := h.regular.seen he hvalue hj
        exact (hentry _ hj (hall _ m hm).1).2 hdep

theorem current?_bump {s : Source} {x : V} (h : c.Sound v) (hi : c.current? (v.bump s) i = some x) :
    c.current? v i = some x ∧ ¬ c.DependsOn i s := by
  obtain ⟨hi, hx⟩ := current?_eq_some.mp hi
  obtain ⟨hold, hdep⟩ := isUpToDate_bump h hi
  exact ⟨current?_eq_some.mpr ⟨hold, hx⟩, hdep⟩

/-- The versions of the sources that an entry depends on are all that matters to it. -/
theorem isUpToDate_of_agree {w : SourceVersions} (ordered : c.Ordered) (hi : c.isUpToDate v i = true)
    (hagree : ∀ s, c.DependsOn i s → w.get s = v.get s) : c.isUpToDate w i = true := by
  induction i using EntryIndex.strongRec with
  | h i ih =>
    obtain ⟨e, he, hvalue, hall⟩ := (isUpToDate_iff ordered).mp hi
    refine (isUpToDate_iff ordered).mpr ⟨e, he, hvalue, fun p m hmem => ?_⟩
    have hp := hall p m hmem
    have hmem' : p ∈ e.prerequisites := (List.of_mem_zip hmem).1
    cases p with
    | source t => exact (hagree t (.source he hmem')).trans hp
    | entry j =>
      obtain ⟨hj, hversion⟩ := hp
      exact ⟨ih j (ordered i e j he hmem') hj fun s hdep => hagree s (.entry he hmem' hdep), hversion⟩

/-- What does not depend on the source stays up to date. -/
theorem isUpToDate_bump_of_not_dependsOn {s : Source} (ordered : c.Ordered) (hi : c.isUpToDate v i = true)
    (hdep : ¬ c.DependsOn i s) : c.isUpToDate (v.bump s) i = true :=
  isUpToDate_of_agree ordered hi fun _ ht => SourceVersions.get_bump_of_ne fun heq => hdep (heq ▸ ht)

theorem current?_bump_of_not_dependsOn {s : Source} {x : V} (ordered : c.Ordered)
    (hi : c.current? v i = some x) (hdep : ¬ c.DependsOn i s) : c.current? (v.bump s) i = some x := by
  obtain ⟨hi, hx⟩ := current?_eq_some.mp hi
  exact current?_eq_some.mpr ⟨isUpToDate_bump_of_not_dependsOn ordered hi hdep, hx⟩

theorem Sound.bump (h : c.Sound v) (s : Source) : c.Sound (v.bump s) where
  ordered := h.ordered
  complete := h.complete
  past i e p n he hmem := by
    refine Nat.le_trans (h.past i e p n he hmem) ?_
    cases p with
    | source t => exact SourceVersions.get_le_get_bump v s t
    | entry j => exact Nat.le_refl _
  busy i hi := by
    have hstale := h.busy i hi
    cases hnow : c.isUpToDate (v.bump s) i with
    | false => rfl
    | true => exact absurd (isUpToDate_bump h hnow).1 (by simp [hstale])

end Cache

end CompliantContact
