import CompliantContact.Proofs.Problem.Built
import CompliantContact.Proofs.Sizes

/-!
The shape of constraints and problems.

The blocks of a constraint have a row for each of its equations, and belong to different trees. In a problem
every block is as wide as its tree, and the contacts are the first of the constraints.
-/

namespace CompliantContact

variable {α : Type}

namespace Constraint

structure Shaped (c : Constraint α) : Prop where
  rows : ∀ b ∈ c.blocks, b.jacobian.rows = c.numEquations
  trees : ∀ b, c.second = some b → c.first.tree ≠ b.tree

variable {c : Constraint α} {blocks : List (JacobianBlock α)} {first : JacobianBlock α}
  {second : Option (JacobianBlock α)} {rows : Nat}

open Outcome

theorem checkRows_eq_ok_iff {b : JacobianBlock α} : checkRows rows b = .ok () ↔ rows = b.jacobian.rows :=
  requireSize_eq_ok_iff

theorem checkBlocks_eq_ok (h : checkBlocks rows blocks = .ok (first, second)) :
    blocks = first :: second.toList ∧ (∀ b ∈ blocks, b.jacobian.rows = rows) ∧
      ∀ b, second = some b → first.tree ≠ b.tree := by
  match blocks, h with
  | [a], h =>
    rw [checkBlocks, bind_eq_ok_iff] at h
    obtain ⟨_, hrows, h⟩ := h
    cases h
    have hrows := checkRows_eq_ok_iff.mp hrows
    exact ⟨rfl, fun b hb => by rw [List.mem_singleton.mp hb, hrows], nofun⟩
  | [a, b], h =>
    rw [checkBlocks, require_bind_eq_ok_iff, bind_eq_ok_iff] at h
    obtain ⟨htrees, _, ha, h⟩ := h
    rw [bind_eq_ok_iff] at h
    obtain ⟨_, hb, h⟩ := h
    cases h
    have ha := checkRows_eq_ok_iff.mp ha
    have hb := checkRows_eq_ok_iff.mp hb
    refine ⟨rfl, fun d hd => ?_, fun d hd => ?_⟩
    · rcases List.mem_cons.mp hd with rfl | hd
      · exact ha.symm
      · rw [List.mem_singleton.mp hd, hb]
    · cases hd
      exact htrees

variable [Scalar α]

/-- What a contact is made of. -/
theorem cone_eq_ok {phi : α} {p : ConeParameters α} (h : cone blocks phi p = .ok c) :
    c.kind = .cone p ∧ c.g0 = .ofList [0, 0, phi] ∧ c.blocks = blocks ∧ c.Shaped := by
  rw [cone, require_bind_eq_ok_iff, bind_eq_ok_iff] at h
  obtain ⟨-, _, -, h⟩ := h
  rw [bind_eq_ok_iff] at h
  obtain ⟨⟨first, second⟩, hblocks, h⟩ := h
  cases h
  obtain ⟨rfl, hrows, htrees⟩ := checkBlocks_eq_ok hblocks
  exact ⟨rfl, rfl, rfl, hrows, htrees⟩

theorem limit_eq_ok {tree : TreeIndex} {dof size : Nat} {q0 : α} {p : LimitParameters α}
    (h : limit tree dof size q0 p = .ok c) : c.isContact = false ∧ c.Shaped := by
  rw [limit, require_bind_eq_ok_iff, require_bind_eq_ok_iff, bind_eq_ok_iff] at h
  obtain ⟨-, -, _, -, h⟩ := h
  simp only [require_bind_eq_ok_iff] at h
  obtain ⟨-, h⟩ := h
  cases h
  refine ⟨rfl, fun b hb => ?_, fun b hb => by cases hb⟩
  obtain rfl := List.mem_singleton.mp hb
  show _ = (Vec.ofList _).size
  rw [Vec.size_ofList, List.length_map, Mat.rows_ofFn]

theorem holonomic_eq_ok {g0 : Vec α} {p : HolonomicParameters α} (h : holonomic blocks g0 p = .ok c) :
    c.isContact = false ∧ c.Shaped := by
  simp only [holonomic, bind_eq_ok_iff] at h
  obtain ⟨_, -, _, -, _, -, _, -, _, -, _, -, ⟨first, second⟩, hblocks, h⟩ := h
  cases h
  obtain ⟨rfl, hrows, htrees⟩ := checkBlocks_eq_ok hblocks
  exact ⟨rfl, hrows, htrees⟩

theorem Made.shaped (h : c.Made) : c.Shaped := by
  cases h with
  | cone h => exact (cone_eq_ok h).2.2.2
  | limit h => exact (limit_eq_ok h).2
  | holonomic h => exact (holonomic_eq_ok h).2

end Constraint

namespace Problem

variable {p : Problem α}

/-- A block is as wide as the tree that it names. -/
structure Fits (p : Problem α) (b : JacobianBlock α) : Prop where
  tree : b.tree.val < p.numTrees
  cols : b.jacobian.cols = p.treeSize b.tree

theorem treeSize_eq {t : TreeIndex} {a : Mat α} (ha : p.dynamics.toList[t.val]? = some a) :
    p.treeSize t = a.rows := by
  rw [treeSize, ← Array.getElem?_toList, ha]
  rfl

/-- The contacts are the first of the constraints. -/
structure ContactsFirst (p : Problem α) : Prop where
  contacts : ∀ c ∈ p.constraints.toList.take p.numContacts, c.isContact = true
  others : ∀ c ∈ p.constraints.toList.drop p.numContacts, c.isContact = false

open Outcome

theorem addConstraint_eq_ok {q : Problem α} {c : Constraint α} {i : Nat}
    (h : p.addConstraint c = .ok (q, i)) :
    (c.isContact = true → p.numContacts = p.numConstraints) ∧ (∀ b ∈ c.blocks, p.Fits b) ∧
      q = { p with constraints := p.constraints.push c } := by
  rw [addConstraint, require_bind_eq_ok_iff, bind_eq_ok_iff] at h
  obtain ⟨hfirst, _, hblocks, h⟩ := h
  cases h
  refine ⟨hfirst, fun b hb => ?_, rfl⟩
  have hblock := forM_eq_ok_iff.mp hblocks b hb
  rw [checkBlock, require_bind_eq_ok_iff, requireSize_eq_ok_iff] at hblock
  exact ⟨hblock.1, hblock.2.symm⟩

/-- A constraint whose blocks fit is added, unless it is a contact after other constraints. -/
theorem addConstraint_of_fits {c : Constraint α}
    (hfirst : c.isContact = true → p.numContacts = p.numConstraints)
    (hfits : ∀ b ∈ c.blocks, p.Fits b) :
    p.addConstraint c = .ok ({ p with constraints := p.constraints.push c }, p.numConstraints) := by
  rw [addConstraint, require_bind_eq_ok_iff, bind_eq_ok_iff]
  refine ⟨hfirst, (), forM_eq_ok_iff.mpr fun b hb => ?_, rfl⟩
  rw [checkBlock, require_bind_eq_ok_iff, requireSize_eq_ok_iff]
  exact ⟨(hfits b hb).tree, (hfits b hb).cols.symm⟩

theorem numContacts_le (p : Problem α) : p.numContacts ≤ p.constraints.toList.length := by
  rw [numContacts, ← Array.countP_toList]
  exact List.countP_le_length

theorem numContacts_push (p : Problem α) (c : Constraint α) :
    numContacts { p with constraints := p.constraints.push c } =
      p.numContacts + if c.isContact then 1 else 0 := by
  rw [numContacts, Array.countP_push]
  rfl

theorem ContactsFirst.push (h : p.ContactsFirst) {c : Constraint α}
    (hfirst : c.isContact = true → p.numContacts = p.numConstraints) :
    ContactsFirst { p with constraints := p.constraints.push c } := by
  have hle := p.numContacts_le
  have hlist : (p.constraints.push c).toList = p.constraints.toList ++ [c] := Array.toList_push
  cases hc : c.isContact with
  | true =>
    -- Before a contact there are contacts only.
    have hall : p.numContacts = p.constraints.toList.length := hfirst hc
    have hcount : numContacts { p with constraints := p.constraints.push c } =
        p.constraints.toList.length + 1 := by
      rw [numContacts_push, hc, if_pos rfl, hall]
    have hcontacts := h.contacts
    rw [hall, List.take_length] at hcontacts
    refine ⟨fun d hd => ?_, fun d hd => ?_⟩
    · have hd := List.mem_of_mem_take hd
      rw [hlist, List.mem_append, List.mem_singleton] at hd
      rcases hd with hd | rfl
      · exact hcontacts d hd
      · exact hc
    · rw [hcount, hlist, List.drop_of_length_le (by simp)] at hd
      cases hd
  | false =>
    have hcount : numContacts { p with constraints := p.constraints.push c } = p.numContacts := by
      rw [numContacts_push, hc]
      rfl
    refine ⟨fun d hd => ?_, fun d hd => ?_⟩
    · rw [hcount, hlist, List.take_append_of_le_length hle] at hd
      exact h.contacts d hd
    · rw [hcount, hlist, List.drop_append_of_le_length hle, List.mem_append, List.mem_singleton] at hd
      rcases hd with hd | rfl
      · exact h.others d hd
      · exact hc

theorem contactsFirst_of_empty (h : p.constraints = #[]) : p.ContactsFirst := ⟨by simp [h], by simp [h]⟩

variable [Scalar α]

theorem Built.contactsFirst (h : p.Built) : p.ContactsFirst := by
  induction h with
  | new h =>
    rw [Problem.new, require_bind_eq_ok_iff, bind_eq_ok_iff] at h
    obtain ⟨-, _, -, h⟩ := h
    cases h
    exact contactsFirst_of_empty rfl
  | reset _ h _ =>
    rw [Problem.reset, bind_eq_ok_iff] at h
    obtain ⟨_, -, h⟩ := h
    cases h
    exact contactsFirst_of_empty rfl
  | addConstraint _ _ h ih =>
    obtain ⟨hfirst, -, rfl⟩ := addConstraint_eq_ok h
    exact ih.push hfirst

theorem Built.fits (h : p.Built) : ∀ c ∈ p.constraints.toList, ∀ b ∈ c.blocks, p.Fits b := by
  induction h with
  | new h =>
    rw [Problem.new, require_bind_eq_ok_iff, bind_eq_ok_iff] at h
    obtain ⟨-, _, -, h⟩ := h
    cases h
    exact List.forall_mem_nil _
  | reset _ h _ =>
    rw [Problem.reset, bind_eq_ok_iff] at h
    obtain ⟨_, -, h⟩ := h
    cases h
    exact List.forall_mem_nil _
  | addConstraint _ _ h ih =>
    obtain ⟨-, hfits, rfl⟩ := addConstraint_eq_ok h
    intro c hc b hb
    rw [Array.toList_push, List.mem_append, List.mem_singleton] at hc
    rcases hc with hc | rfl
    · exact ⟨(ih c hc b hb).tree, (ih c hc b hb).cols⟩
    · exact ⟨(hfits b hb).tree, (hfits b hb).cols⟩

/-- The velocities of a tree are velocities of the problem. -/
theorem Built.treeStart_add_rows_le (h : p.Built) {t : TreeIndex} {a : Mat α}
    (ha : p.dynamics.toList[t.val]? = some a) :
    p.treeStart t + a.rows ≤ p.numVelocities := by
  have hsize : (p.dynamics.toList.map Mat.rows)[t.val]? = some a.rows := by
    rw [List.getElem?_map, ha, Option.map_some]
  have hle := total_take_add_le hsize
  rw [← List.map_take, ← h.valid.size] at hle
  exact hle

theorem Built.numEquations_eq_three (h : p.Built) {c : Constraint α}
    (hc : c ∈ p.constraints.toList.take p.numContacts) :
    c.numEquations = 3 :=
  (h.valid.made c (List.mem_of_mem_take hc)).inRange.numEquations_of_isContact (h.contactsFirst.contacts c hc)

/-- Among the contacts each has three equations. -/
theorem Built.total_take_eq (h : p.Built) {k : Nat} (hk : k ≤ p.numContacts) :
    total ((p.constraints.toList.take k).map Constraint.numEquations) = 3 * k := by
  have hthree : ∀ m ∈ (p.constraints.toList.take k).map Constraint.numEquations, m = 3 := by
    intro m hm
    obtain ⟨c, hc, rfl⟩ := List.mem_map.mp hm
    exact h.numEquations_eq_three (List.take_subset_take_left _ hk hc)
  rw [total_eq_mul hthree, List.length_map, List.length_take, Nat.min_eq_left (hk.trans p.numContacts_le)]

end Problem

end CompliantContact
