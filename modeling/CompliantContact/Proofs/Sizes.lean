import CompliantContact.Mechanism.Layout
import Mathlib.Tactic.Ring

/-!
Parts of given sizes, one after another.
-/

namespace CompliantContact

variable {sizes : List ℕ} {k n : ℕ}

@[simp] theorem total_nil : total [] = 0 := rfl

@[simp] theorem total_cons (n : ℕ) (sizes : List ℕ) : total (n :: sizes) = n + total sizes := rfl

theorem total_append (sizes rest : List ℕ) : total (sizes ++ rest) = total sizes + total rest := by
  induction sizes with
  | nil => exact (Nat.zero_add _).symm
  | cons n sizes ih => rw [List.cons_append, total_cons, total_cons, ih, Nat.add_assoc]

theorem total_flatMap {β γ : Type} (xs : List β) (f : β → List γ) (g : γ → ℕ) :
    total ((xs.flatMap f).map g) = total (xs.map fun x => total ((f x).map g)) := by
  induction xs with
  | nil => rfl
  | cons x xs ih => rw [List.flatMap_cons, List.map_append, total_append, ih, List.map_cons, total_cons]

theorem total_eq_mul (h : ∀ m ∈ sizes, m = n) : total sizes = n * sizes.length := by
  induction sizes with
  | nil => rfl
  | cons m sizes ih =>
    rw [total_cons, ih fun k hk => h k (List.mem_cons_of_mem _ hk), h m (List.mem_cons_self ..),
      List.length_cons]
    ring

theorem total_take_add (sizes : List ℕ) {t u : ℕ} (h : t < u) :
    total (sizes.take t) + sizes.getD t 0 ≤ total (sizes.take u) := by
  induction sizes generalizing t u with
  | nil => simp
  | cons n sizes ih =>
    obtain ⟨u, rfl⟩ : ∃ k, u = k + 1 := ⟨u - 1, by omega⟩
    cases t with
    | zero =>
      simp only [List.take_zero, total_nil, List.getD_cons_zero, List.take_succ_cons, total_cons]
      omega
    | succ t =>
      have h := ih (t := t) (u := u) (by omega)
      simp only [List.take_succ_cons, total_cons, List.getD_cons_succ]
      omega

/-- A part ends before the end of all. -/
theorem total_take_add_le (h : sizes[k]? = some n) : total (sizes.take k) + n ≤ total sizes := by
  have hk := (List.getElem?_eq_some_iff.mp h).1
  have hpart := total_take_add sizes hk
  rwa [List.take_length, List.getD_eq_getElem?_getD, h] at hpart

/-- Where parts of the given sizes start one after another, the first of them at `next`. -/
def startsFrom (next : ℕ) (sizes : List ℕ) : List ℕ :=
  (List.range sizes.length).map fun k => next + total (sizes.take k)

theorem startsFrom_cons (next n : ℕ) (sizes : List ℕ) :
    startsFrom next (n :: sizes) = next :: startsFrom (next + n) sizes := by
  rw [startsFrom, List.length_cons, List.range_succ_eq_map, List.map_cons, List.map_map]
  refine congrArg (next :: ·) (List.map_congr_left fun k _ => ?_)
  show next + (n + total (sizes.take k)) = _
  rw [Nat.add_assoc]

theorem getElem?_startsFrom (next : ℕ) (hk : k < sizes.length) :
    (startsFrom next sizes)[k]? = some (next + total (sizes.take k)) := by
  rw [startsFrom, List.getElem?_map, List.getElem?_range hk, Option.map_some]

end CompliantContact
