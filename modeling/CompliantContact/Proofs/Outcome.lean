import CompliantContact.Failure

/-!
Outcomes of several steps: they are values if every step has one.
-/

namespace CompliantContact.Outcome

variable {α β γ : Type}

theorem bind_eq_ok_iff {x : Outcome α β} {f : β → Outcome α γ} {y : γ} :
    (x >>= f) = .ok y ↔ ∃ a, x = .ok a ∧ f a = .ok y := by
  cases x with
  | error e => exact ⟨fun h => (by cases h), fun ⟨_, h, _⟩ => (by cases h)⟩
  | ok a => exact ⟨fun h => ⟨a, rfl, h⟩, fun ⟨_, h, h'⟩ => (by cases h; exact h')⟩

theorem eq_ok_iff_toOption {x : Outcome α β} {y : β} : x = .ok y ↔ x.toOption = some y := by
  cases x with
  | error e => exact ⟨nofun, nofun⟩
  | ok a => exact ⟨fun h => congrArg Except.toOption h, fun h => congrArg Except.ok (Option.some.inj h)⟩

theorem require_bind_eq_ok_iff {condition : Prop} [Decidable condition] {reason : Failure α}
    {f : Unit → Outcome α β} {y : β} : (require condition reason >>= f) = .ok y ↔ condition ∧
    f () = .ok y := by
  rw [bind_eq_ok_iff]
  exact ⟨fun ⟨_, h, h'⟩ => ⟨require_eq_ok_iff.mp h, h'⟩, fun ⟨h, h'⟩ => ⟨(), require_eq_ok_iff.mpr h, h'⟩⟩

/-- A failure is that of the first step, or of the second on what the first gives. -/
theorem bind_eq_error_iff {x : Outcome α β} {f : β → Outcome α γ} {e : Failure α} :
    (x >>= f) = .error e ↔ x = .error e ∨ ∃ a, x = .ok a ∧ f a = .error e := by
  cases x with
  | error e' =>
    refine ⟨fun h => .inl (by cases h; rfl), ?_⟩
    rintro (h | ⟨_, h, -⟩)
    · cases h
      rfl
    · cases h
  | ok a =>
    refine ⟨fun h => .inr ⟨a, rfl, h⟩, ?_⟩
    rintro (h | ⟨_, h, h'⟩)
    · cases h
    · cases h
      exact h'

theorem require_bind_eq_error_iff {condition : Prop} [Decidable condition] {reason e : Failure α}
    {f : Unit → Outcome α β} :
    (require condition reason >>= f) = .error e ↔ (¬ condition ∧ e = reason) ∨
    (condition ∧ f () = .error e) := by
  rw [require]
  by_cases h : condition
  · rw [if_pos h]
    exact ⟨fun hf => .inr ⟨h, hf⟩, fun hf => (hf.resolve_left fun hnot => hnot.1 h).2⟩
  · rw [if_neg h]
    exact ⟨fun he => .inl ⟨h, (Except.error.inj he).symm⟩,
      fun he => he.elim (fun hnot => hnot.2 ▸ rfl) fun hf => absurd hf.1 h⟩

theorem require_eq_error_iff {condition : Prop} [Decidable condition] {reason e : Failure α} :
    require condition reason = .error e ↔ ¬ condition ∧ e = reason := by
  rw [require]
  by_cases h : condition
  · rw [if_pos h]
    exact ⟨fun he => (by cases he), fun hnot => absurd h hnot.1⟩
  · rw [if_neg h]
    exact ⟨fun he => ⟨h, (Except.error.inj he).symm⟩, fun he => he.2 ▸ rfl⟩

/-- Steps for the members of a list all succeed. -/
theorem forM_eq_ok_iff {f : β → Outcome α Unit} {xs : List β} :
    xs.forM f = .ok () ↔ ∀ x ∈ xs, f x = .ok () := by
  induction xs with
  | nil => exact ⟨fun _ _ h => absurd h List.not_mem_nil, fun _ => rfl⟩
  | cons x xs ih =>
    show (f x >>= fun _ => xs.forM f) = .ok () ↔ _
    rw [bind_eq_ok_iff, List.forall_mem_cons]
    exact ⟨fun ⟨_, h, h'⟩ => ⟨h, ih.mp h'⟩, fun ⟨h, h'⟩ => ⟨(), h, ih.mpr h'⟩⟩

/-- They fail where the step for one of the members fails. -/
theorem exists_of_forM_eq_error {f : β → Outcome α Unit} {xs : List β} {e : Failure α}
    (h : xs.forM f = .error e) :
    ∃ x ∈ xs, f x = .error e := by
  induction xs with
  | nil => cases h
  | cons x xs ih =>
    rcases bind_eq_error_iff.mp (show (f x >>= fun _ => xs.forM f) = .error e from h) with h | ⟨_, -, h⟩
    · exact ⟨x, List.mem_cons_self .., h⟩
    · obtain ⟨x', hx', hfail⟩ := ih h
      exact ⟨x', List.mem_cons_of_mem _ hx', hfail⟩

/-- Steps that give a value each succeed where each of them does. -/
theorem mapM_eq_ok_iff {f : β → Outcome α γ} {xs : List β} {ys : List γ} :
    xs.mapM f = .ok ys ↔ xs.map f = ys.map .ok := by
  induction xs generalizing ys with
  | nil => cases ys <;> simp [pure, Except.pure]
  | cons x xs ih =>
    rw [List.mapM_cons, bind_eq_ok_iff]
    constructor
    · rintro ⟨y, hy, h⟩
      obtain ⟨ys', hys, h⟩ := bind_eq_ok_iff.mp h
      cases h
      rw [List.map_cons, List.map_cons, hy, ih.mp hys]
    · intro h
      cases ys with
      | nil => cases h
      | cons y ys =>
        rw [List.map_cons, List.map_cons, List.cons.injEq] at h
        exact ⟨y, h.1, bind_eq_ok_iff.mpr ⟨ys, ih.mpr h.2, rfl⟩⟩

/-- They, too, fail where the step for one of the members fails. -/
theorem exists_of_mapM_eq_error {f : β → Outcome α γ} {xs : List β} {e : Failure α}
    (h : xs.mapM f = .error e) :
    ∃ x ∈ xs, f x = .error e := by
  induction xs with
  | nil => cases h
  | cons x xs ih =>
    rw [List.mapM_cons, bind_eq_error_iff] at h
    rcases h with h | ⟨y, -, h⟩
    · exact ⟨x, List.mem_cons_self .., h⟩
    · rcases bind_eq_error_iff.mp h with h | ⟨ys, -, h⟩
      · obtain ⟨x', hx', hfail⟩ := ih h
        exact ⟨x', List.mem_cons_of_mem _ hx', hfail⟩
      · cases h

/-- Steps that all give a value give a list of values. -/
theorem exists_map_eq_ok {f : β → Outcome α γ} {xs : List β} (h : ∀ x ∈ xs, ∃ y, f x = .ok y) :
    ∃ ys : List γ, xs.map f = ys.map .ok := by
  induction xs with
  | nil => exact ⟨[], rfl⟩
  | cons x xs ih =>
    obtain ⟨y, hy⟩ := h x (List.mem_cons_self ..)
    obtain ⟨ys, hys⟩ := ih fun z hz => h z (List.mem_cons_of_mem _ hz)
    exact ⟨y :: ys, by rw [List.map_cons, List.map_cons, hy, hys]⟩

/-- Each of the values is what a step gives. -/
theorem exists_mem_of_map_eq_ok {f : β → Outcome α γ} {xs : List β} {ys : List γ}
    (h : xs.map f = ys.map .ok) {y : γ} (hy : y ∈ ys) : ∃ x ∈ xs, f x = .ok y := by
  have hmem : Except.ok y ∈ ys.map (Except.ok (ε := Failure α)) := List.mem_map_of_mem hy
  rw [← h] at hmem
  exact List.mem_map.mp hmem

/-- Each of the steps gives one of the values. -/
theorem exists_of_mem_map_eq_ok {f : β → Outcome α γ} {xs : List β} {ys : List γ}
    (h : xs.map f = ys.map .ok) {x : β} (hx : x ∈ xs) : ∃ y ∈ ys, f x = .ok y := by
  have hmem : f x ∈ xs.map f := List.mem_map_of_mem hx
  rw [h] at hmem
  obtain ⟨y, hy, hok⟩ := List.mem_map.mp hmem
  exact ⟨y, hy, hok.symm⟩

/-- The values stand at the places of their steps. -/
theorem exists_getElem?_of_map_eq_ok {f : β → Outcome α γ} {xs : List β} {ys : List γ}
    (h : xs.map f = ys.map .ok) {i : Nat}
    {x : β} (hx : xs[i]? = some x) : ∃ y, ys[i]? = some y ∧ f x = .ok y := by
  have hentry := congrArg (fun zs : List (Outcome α γ) => zs[i]?) h
  simp only [List.getElem?_map, hx, Option.map_some] at hentry
  obtain ⟨y, hy, hok⟩ := Option.map_eq_some_iff.mp hentry.symm
  exact ⟨y, hy, hok.symm⟩

/-- What holds of each value that a step gives holds of the values of all steps. -/
theorem forall_mem_zip {f : β → Outcome α γ} {xs : List β} {ys : List γ} (h : xs.map f = ys.map .ok) :
    ∀ x y, (x, y) ∈ xs.zip ys → f x = .ok y := by
  induction xs generalizing ys with
  | nil => intro x y hmem; cases hmem
  | cons x xs ih =>
    cases ys with
    | nil => cases h
    | cons y ys =>
      rw [List.map_cons, List.map_cons, List.cons.injEq] at h
      intro x' y' hmem
      rw [List.zip_cons_cons, List.mem_cons, Prod.mk.injEq] at hmem
      rcases hmem with ⟨rfl, rfl⟩ | hmem
      · exact h.1
      · exact ih h.2 x' y' hmem

/-- What is made of each value that a step gives is made of all of them. -/
theorem map_eq_of_map_eq {δ : Type} {f : β → Outcome α γ} {xs : List β} {ys : List γ} {g : γ → δ} {k : β → δ}
    (h : xs.map f = ys.map .ok) (hstep : ∀ x ∈ xs, ∀ y, f x = .ok y → g y = k x) : ys.map g = xs.map k := by
  induction xs generalizing ys with
  | nil =>
    cases ys with
    | nil => rfl
    | cons y ys => cases h
  | cons x xs ih =>
    cases ys with
    | nil => cases h
    | cons y ys =>
      rw [List.map_cons, List.map_cons, List.cons.injEq] at h
      rw [List.map_cons, List.map_cons, hstep x (List.mem_cons_self ..) y h.1,
        ih h.2 fun x hx => hstep x (List.mem_cons_of_mem _ hx)]

/-- So is what is made of the values of two kinds of steps, if it is the same for each member. -/
theorem map_eq_of_map_eq_map {δ ε : Type} {f : β → Outcome α γ} {g : β → Outcome α δ} {xs : List β}
    {ys : List γ} {zs : List δ}
    {k : γ → ε} {m : δ → ε} (hf : xs.map f = ys.map .ok) (hg : xs.map g = zs.map .ok)
    (hstep : ∀ x ∈ xs, ∀ y z, f x = .ok y → g x = .ok z → k y = m z) : ys.map k = zs.map m := by
  induction xs generalizing ys zs with
  | nil =>
    obtain rfl := List.map_eq_nil_iff.mp hf.symm
    obtain rfl := List.map_eq_nil_iff.mp hg.symm
    rfl
  | cons x xs ih =>
    obtain ⟨y, ys, rfl, hy, hys⟩ := List.map_eq_cons_iff.mp hf.symm
    obtain ⟨z, zs, rfl, hz, hzs⟩ := List.map_eq_cons_iff.mp hg.symm
    rw [List.map_cons, List.map_cons, hstep x (List.mem_cons_self ..) y z hy.symm hz.symm,
      ih hys.symm hzs.symm fun x hx => hstep x (List.mem_cons_of_mem _ hx)]

theorem flatMap_eq_of_map_eq {δ : Type} {f : β → Outcome α γ} {xs : List β} {ys : List γ}
    {g : γ → List δ} {k : β → List δ}
    (h : xs.map f = ys.map .ok) (hstep : ∀ x ∈ xs, ∀ y, f x = .ok y → g y = k x) :
    ys.flatMap g = xs.flatMap k := by
  rw [List.flatMap_def, List.flatMap_def, map_eq_of_map_eq h hstep]

/-! ### Kinds of failures -/

/-- Fails, if at all, in a certain way. -/
def FailsAs (P : Failure α → Prop) (x : Outcome α β) : Prop := ∀ e, x = .error e → P e

namespace FailsAs

variable {P Q : Failure α → Prop} {x : Outcome α β}

theorem ok (y : β) : FailsAs P (.ok y) := nofun

theorem error {e : Failure α} (h : P e) : FailsAs P (.error e : Outcome α β) := fun _ he =>
    Except.error.inj he ▸ h

theorem mono (h : FailsAs P x) (hPQ : ∀ e, P e → Q e) : FailsAs Q x := fun e he => hPQ e (h e he)

theorem require {condition : Prop} [Decidable condition] {reason : Failure α} (h : P reason) :
    FailsAs P (CompliantContact.require condition reason) := fun _ he => (require_eq_error_iff.mp he).2 ▸ h

theorem bind {f : β → Outcome α γ} (h : FailsAs P x) (hf : ∀ y, x = .ok y → FailsAs P (f y)) :
    FailsAs P (x >>= f) := by
  intro e he
  rcases bind_eq_error_iff.mp he with he | ⟨y, hy, he⟩
  · exact h e he
  · exact hf y hy e he

theorem map {f : β → γ} (h : FailsAs P x) : FailsAs P (x.map f) := by
  cases x with
  | ok y => exact ok _
  | error e => exact error (h e rfl)

theorem forM {f : β → Outcome α Unit} {xs : List β} (h : ∀ x ∈ xs, FailsAs P (f x)) :
    FailsAs P (xs.forM f) := by
  intro e he
  obtain ⟨x, hx, hfail⟩ := exists_of_forM_eq_error he
  exact h x hx e hfail

theorem mapM {f : β → Outcome α γ} {xs : List β} (h : ∀ x ∈ xs, FailsAs P (f x)) : FailsAs P (xs.mapM f) := by
  intro e he
  obtain ⟨x, hx, hfail⟩ := exists_of_mapM_eq_error he
  exact h x hx e hfail

theorem foldlM {f : γ → β → Outcome α γ} (h : ∀ y x, FailsAs P (f y x)) (xs : List β) (y : γ) :
    FailsAs P (xs.foldlM f y) := by
  induction xs generalizing y with
  | nil => exact ok y
  | cons x xs ih =>
    rw [List.foldlM_cons]
    exact (h y x).bind fun y' _ => ih y'

end FailsAs

end CompliantContact.Outcome
