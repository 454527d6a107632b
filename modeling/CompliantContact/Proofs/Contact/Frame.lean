import CompliantContact.Contact.Frame
import CompliantContact.Proofs.Mechanism.Trees

/-!
The blocks of a contact make up its whole Jacobian.

The relative velocity of two bodies has columns for the velocities of their trees only, and each of
these columns is in one block. A force along the axes of the contact frame does the same on the blocks
as the force in the world does on the relative velocity.
-/

namespace CompliantContact

open Finset

namespace Columns

variable {c d : Columns ℝ} {i : ℕ}

@[simp] theorem size_sub : (c - d).size = c.size := size_ofFn ..

theorem get_sub (h : i < c.size) : (c - d) i = c i - d i := by
  show ofFn c.size (fun i => c i - d i) i = _
  rw [get_ofFn, if_pos h]

theorem dot_mulVec (u : Vec3 ℝ) (c : Columns ℝ) (v : Vec ℝ) :
    u.dot (c.mulVec v) = ∑ i ∈ range c.size, u.dot (c i) * v i := by
  rw [mulVec]
  generalize c.size = n
  induction n with
  | zero => simp [Vec3.dot]
  | succ n ih =>
    rw [List.range_succ, List.foldl_append, sum_range_succ, ← ih]
    simp only [List.foldl_cons, List.foldl_nil, Vec3.dot, Vec3.add_x, Vec3.add_y, Vec3.add_z,
      Vec3.mul_x, Vec3.mul_y, Vec3.mul_z]
    ring

end Columns

/-- The coordinates of a vector along the columns of a matrix, weighted. -/
theorem Mat3.sum_transposeMulVec (m : Mat3 ℝ) (f w : Vec3 ℝ) :
    ∑ n ∈ range 3, (m.transposeMulVec w).get n * f.get n = (m.mulVec f).dot w := by
  simp only [sum_range_succ, range_zero, sum_empty, Vec3.get, transposeMulVec, mulVec, Vec3.dot,
    Vec3.add_x, Vec3.add_y,
    Vec3.add_z, Vec3.mul_x, Vec3.mul_y, Vec3.mul_z]
  ring

namespace Mechanism

variable {α : Type} [Scalar α] {m : Mechanism α} {k : PositionKinematics α} {b : BodyIndex}
    {p : Vec3 α} {i : ℕ}

@[simp] theorem size_translationalJacobian : (m.translationalJacobian k b p).size = m.numVelocities :=
  Columns.size_ofFn ..

/-- No joint on the way from a body to the world has velocities that are not of the tree of the body. -/
theorem Orderly.owner?_eq_none (hm : m.Orderly)
    (h : ∀ t, m.layout.bodyTree? b = some t → ¬ m.layout.Within t i) :
    owner? k (m.chain b) i = none := by
  rw [owner?, Option.map_eq_none_iff, List.find?_eq_none]
  intro found hfound hrange
  obtain ⟨hstart, hend⟩ := of_decide_eq_true hrange
  obtain ⟨t, htree, hwithin⟩ := hm b found hfound i hstart hend
  exact h t htree hwithin

/-- A body does not move with velocities that are not of its tree. -/
theorem Orderly.translationalJacobian_eq_zero (hm : m.Orderly)
    (h : ∀ t, m.layout.bodyTree? b = some t → ¬ m.layout.Within t i) :
    m.translationalJacobian k b p i = 0 := by
  rw [translationalJacobian, Columns.get_ofFn, hm.owner?_eq_none h]
  exact ite_self _

theorem Orderly.angularJacobian_eq_zero (hm : m.Orderly)
    (h : ∀ t, m.layout.bodyTree? b = some t → ¬ m.layout.Within t i) :
    m.angularJacobian k b i = 0 := by
  rw [angularJacobian, Columns.get_ofFn, hm.owner?_eq_none h]
  exact ite_self _

end Mechanism

/-- What stands for the one range that a velocity is in, if there is one. -/
theorem TreeLayout.sum_within (l : TreeLayout) {trees : List TreeIndex} (hnodup : trees.Nodup) {i : ℕ} {x : ℝ}
    (hx : (∀ t ∈ trees, ¬ l.Within t i) → x = 0) :
    (trees.map fun t => if l.Within t i then x else 0).sum = x := by
  induction trees with
  | nil => exact (hx fun _ h => absurd h List.not_mem_nil).symm
  | cons t trees ih =>
    obtain ⟨hfresh, hnodup⟩ := List.nodup_cons.mp hnodup
    rw [List.map_cons, List.sum_cons]
    by_cases ht : l.Within t i
    · have hrest : trees.map (fun u => if l.Within u i then x else 0) = trees.map fun _ => 0 :=
        List.map_congr_left fun u hu => if_neg fun hwithin => hfresh (ht.unique hwithin ▸ hu)
      rw [if_pos ht, hrest, List.map_const', List.sum_replicate, smul_zero, add_zero]
    · rw [if_neg ht, zero_add]
      exact ih hnodup fun hnone => hx fun u hu => by
        rcases List.mem_cons.mp hu with rfl | hu
        · exact ht
        · exact hnone u hu

namespace ContactKinematics

variable {α : Type} {query : GeometryQuery α} {m : Mechanism α} {id : GeometryId} {layout : TreeLayout}
  {a b : BodyIndex} {t : TreeIndex}

theorem bodyOf_eq_ok (h : bodyOf query m id = .ok b) : query.body? id = some b := by
  rw [bodyOf] at h
  split at h
  · cases h
  · rename_i found hfound
    rw [Outcome.require_bind_eq_ok_iff] at h
    obtain ⟨-, h⟩ := h
    cases h
    exact hfound

theorem mem_treesOf : t ∈ treesOf layout a b ↔ layout.bodyTree? a = some t ∨ layout.bodyTree? b = some t := by
  rw [treesOf, List.mem_append, Option.mem_toList, Option.mem_toList]
  cases layout.bodyTree? a <;> cases layout.bodyTree? b <;> grind

theorem nodup_treesOf (layout : TreeLayout) (a b : BodyIndex) : (treesOf layout a b).Nodup := by
  rw [treesOf]
  cases layout.bodyTree? a <;> cases layout.bodyTree? b <;> grind

variable [Scalar α]

/-- The velocity of the second body of a contact relative to the first, at a point. -/
def relative (m : Mechanism α) (k : PositionKinematics α) (a b : BodyIndex) (p : Vec3 α) : Columns α :=
  m.translationalJacobian k b p - m.translationalJacobian k a p

theorem ofPair_eq_ok {k : PositionKinematics α} {pair : ContactPair α} {c : ContactKinematics α}
    (h : ofPair m k query pair = .ok c) :
    ∃ a b, query.body? pair.a = some a ∧ query.body? pair.b = some b ∧
    c.frame = ContactFrame.alongAxis (-pair.normal) 2 ∧
      c.blocks = (treesOf m.layout a b).map (block m.layout c.frame (relative m k a b pair.point)) := by
  simp only [ofPair, Outcome.bind_eq_ok_iff] at h
  obtain ⟨a, ha, b, hb, _, -, h⟩ := h
  cases h
  exact ⟨a, b, bodyOf_eq_ok ha, bodyOf_eq_ok hb, rfl, rfl⟩

theorem phi_of_ofPair {k : PositionKinematics α} {pair : ContactPair α} {c : ContactKinematics α}
    (h : ofPair m k query pair = .ok c) : c.phi = pair.phi := by
  simp only [ofPair, Outcome.bind_eq_ok_iff] at h
  obtain ⟨_, -, _, -, _, -, h⟩ := h
  cases h
  rfl

omit [Scalar α] in
/-- The columns of all blocks are those of the relative velocity. -/
theorem sum_blocks {m : Mechanism ℝ} (hm : m.Orderly) (k : PositionKinematics ℝ) (p : Vec3 ℝ)
    (frame : Mat3 ℝ) (n i : ℕ) (hi : i < m.numVelocities) :
    ((treesOf m.layout a b).map fun t =>
      if m.layout.Within t i then (frame.transposeMulVec (relative m k a b p i)).get n else 0).sum =
      (frame.transposeMulVec (relative m k a b p i)).get n := by
  refine m.layout.sum_within (nodup_treesOf ..) fun hnone => ?_
  have hzero : ∀ body, body = a ∨ body = b → m.translationalJacobian k body p i = 0 := fun body hbody =>
    hm.translationalJacobian_eq_zero fun t ht =>
      hnone t (mem_treesOf.mpr (by rcases hbody with rfl | rfl <;> simp [ht]))
  rw [relative, Columns.get_sub (by rwa [Mechanism.size_translationalJacobian]), hzero a (.inl rfl),
    hzero b (.inr rfl)]
  rcases n with _ | _ | _ | n <;> simp [Vec3.get, Mat3.transposeMulVec, Vec3.dot]

end ContactKinematics

end CompliantContact
