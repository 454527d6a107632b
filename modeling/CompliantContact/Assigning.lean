import CompliantContact.Failure

/-!
Changes in place.

A change assigns one thing after another, and may fail in between. What it has assigned before a failure
stays so: there is a state after a change that failed, and nothing says that it is the one before.
-/

namespace CompliantContact

/-- Changes of a state in place. What was assigned before a failure stays so. -/
abbrev Assigning (σ α β : Type) := ExceptT (Failure α) (StateM σ) β

namespace Assigning

variable {σ α β γ : Type}

/-- A check, which assigns nothing. -/
def check (x : Outcome α β) : Assigning σ α β := ExceptT.mk fun s => (x, s)

/-- The outcome of changes in place, and the state after them. -/
def apply (x : Assigning σ α β) (s : σ) : Outcome α β × σ := x.run s

/-- The state after changes that succeed. -/
def attempt (x : Assigning σ α Unit) (s : σ) : Outcome α σ :=
  match x.apply s with
  | (.ok _, s) => .ok s
  | (.error e, _) => .error e

theorem apply_check_bind (x : Outcome α β) (f : β → Assigning σ α γ) (s : σ) :
    apply (check x >>= f) s = match x with
      | .ok y => apply (f y) s
      | .error e => (.error e, s) := by
  cases x <;> rfl

/-- One check after another is one check. -/
theorem check_bind_check (x : Outcome α β) (y : Outcome α Unit) (f : Assigning σ α γ) :
    (check x >>= fun _ => check y >>= fun _ => f) = check (x >>= fun _ => y) >>= fun _ => f := by
  cases x <;> rfl

/-- What is assigned after a check, if the check passes. -/
theorem apply_check_then (f : Assigning σ α Unit) {s t : σ} (x : Outcome α Unit)
    (h : f.apply s = (.ok (), t)) :
    apply (check x >>= fun _ => f) s = match x with
      | .ok _ => (.ok (), t)
      | .error e => (.error e, s) := by
  rw [apply_check_bind]
  cases x with
  | ok u => exact h
  | error e => rfl

theorem apply_bind_of_ok {x : Assigning σ α β} {f : β → Assigning σ α γ} {s t : σ} {y : β}
    (h : x.apply s = (.ok y, t)) : apply (x >>= f) s = apply (f y) t := by
  show (ExceptT.bind x f) s = _
  simp only [ExceptT.bind, ExceptT.mk, bind, StateT.bind, ExceptT.bindCont]
  rw [show x s = (.ok y, t) from h]
  rfl

theorem apply_bind_of_error {x : Assigning σ α β} {f : β → Assigning σ α γ} {s t : σ} {e : Failure α}
    (h : x.apply s = (.error e, t)) : apply (x >>= f) s = (.error e, t) := by
  show (ExceptT.bind x f) s = _
  simp only [ExceptT.bind, ExceptT.mk, bind, StateT.bind, ExceptT.bindCont]
  rw [show x s = (.error e, t) from h]
  rfl

theorem attempt_of_ok {f : Assigning σ α Unit} {s t : σ} (h : f.apply s = (.ok (), t)) :
    f.attempt s = .ok t := by
  rw [attempt, h]

/-- A change that is refused as a whole is a check and a new state. -/
theorem attempt_eq {f : Assigning σ α Unit} {x : Outcome α Unit} {s t : σ}
    (h : f.apply s = match x with
      | .ok _ => (.ok (), t)
      | .error e => (.error e, s)) : f.attempt s = (do x; return t) := by
  rw [attempt, h]
  cases x <;> rfl

end Assigning

end CompliantContact
