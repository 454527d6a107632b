import CompliantContact.Mechanism.Kinematics
import CompliantContact.Mechanism.Model
import CompliantContact.Proofs.Dense.Stack
import CompliantContact.Proofs.Outcome

/-!
The velocities of a body and the trees of a mechanism.

In a mechanism that was built, all joints on the way from a body to the world that can move have their
velocities in the range of the tree of the body (`Mechanism.build_orderly`). So a point of the body
moves with the velocities of its tree only.
-/

namespace CompliantContact

open Outcome

variable {α : Type}

/-! ### Ranges -/

namespace TreeLayout

/-- A velocity in the range of a tree. -/
def Within (l : TreeLayout) (t : TreeIndex) (i : ℕ) : Prop := l.start t ≤ i ∧ i < l.start t + l.size t

instance (l : TreeLayout) (t : TreeIndex) (i : ℕ) : Decidable (l.Within t i) :=
  inferInstanceAs (Decidable (_ ∧ _))

theorem map_size_trees (l : TreeLayout) : l.trees.map l.size = l.sizes.toList := by
  refine List.ext_getElem (by simp [trees, numTrees]) fun i hi hi' => ?_
  have hi : i < l.sizes.size := by simpa using hi'
  simp [trees, size, Array.getD_eq_getD_getElem?, hi]

theorem start_add_size_le (l : TreeLayout) {t u : TreeIndex} (h : t.val < u.val) :
    l.start t + l.size t ≤ l.start u := by
  have hle := total_take_add l.sizes.toList h
  rwa [List.getD_eq_getElem?_getD, Array.getElem?_toList, ← Array.getD_eq_getD_getElem?] at hle

/-- A velocity is in the range of one tree at most. -/
theorem Within.unique {l : TreeLayout} {t u : TreeIndex} {i : ℕ} (ht : l.Within t i)
    (hu : l.Within u i) : t = u := by
  obtain ⟨t⟩ := t
  obtain ⟨u⟩ := u
  rcases Nat.lt_trichotomy t u with h | rfl | h
  · have := l.start_add_size_le (t := ⟨t⟩) (u := ⟨u⟩) h
    have := ht.2
    have := hu.1
    omega
  · rfl
  · have := l.start_add_size_le (t := ⟨u⟩) (u := ⟨t⟩) h
    have := ht.1
    have := hu.2
    omega

end TreeLayout

namespace Mechanism

namespace Connections

variable {n b : ℕ} {c d : Connections α} {j : JointIndex} {joint joint' : Joint α} {t : TreeIndex}

/-- A body hangs on a joint of which it is the child, from a parent before it. -/
structure Sound (c : Connections α) (n : ℕ) : Prop where
  size : c.inboard.size = n
  joint : ∀ b j, c.inboard.getD b none = some j →
    ∃ joint, c.joints[j.val]? = some joint ∧ joint.child.val = b ∧ joint.parent.val < b ∧ b < n

theorem Sound.inboardJoint? (h : c.Sound n) (hb : c.inboardJoint? b = some (j, joint)) :
    c.inboard.getD b none = some j ∧ c.joints[j.val]? = some joint ∧ joint.child.val = b ∧
    joint.parent.val < b ∧ b < n := by
  obtain ⟨j', hj, hjoint⟩ := Option.bind_eq_some_iff.mp hb
  obtain ⟨joint', hget, heq⟩ := Option.map_eq_some_iff.mp hjoint
  cases heq
  obtain ⟨joint', hget', hplace⟩ := h.joint b j hj
  obtain rfl : joint = joint' := Option.some.inj (hget.symm.trans hget')
  exact ⟨hj, hget, hplace⟩

/-- A joint carries one body. -/
theorem Sound.eq_of_same_joint (h : c.Sound n) {b' : ℕ} (hb : c.inboardJoint? b = some (j, joint))
    (hb' : c.inboardJoint? b' = some (j, joint')) : b = b' := by
  obtain ⟨-, hget, hchild, -⟩ := h.inboardJoint? hb
  obtain ⟨-, hget', hchild', -⟩ := h.inboardJoint? hb'
  obtain rfl : joint = joint' := Option.some.inj (hget.symm.trans hget')
  exact hchild.symm.trans hchild'

theorem sound_empty (n : ℕ) : (⟨#[], Array.replicate n none⟩ : Connections α).Sound n where
  size := Array.size_replicate
  joint b j h := by
    rw [Array.getD_eq_getD_getElem?, Array.getElem?_replicate] at h
    split at h <;> cases h

/-! ### The trees of the bodies -/

/-- The trees of the bodies before `b`: a body is in the tree of its parent, and on a joint that moves
    it is in some tree. -/
structure Placed (c : Connections α) (b : ℕ) (s : Array (Option TreeIndex) × ℕ) : Prop where
  size : s.1.size = b
  lt : ∀ b t, s.1.getD b none = some t → t.val < s.2
  parent : ∀ b' < b, ∀ j joint t, c.inboardJoint? b' = some (j, joint) →
  s.1.getD joint.parent.val none = some t →
    s.1.getD b' none = some t
  moves : ∀ b' < b, ∀ j joint, c.inboardJoint? b' = some (j, joint) → joint.kind.isWeld = false →
    ∃ t, s.1.getD b' none = some t

theorem Placed.push {s : Array (Option TreeIndex) × ℕ} {o : Option TreeIndex} {count : ℕ} (h : c.Sound n)
    (hs : c.Placed b s) (hcount : s.2 ≤ count) (ho : ∀ t, o = some t → t.val < count)
    (hparent : ∀ j joint t, c.inboardJoint? b = some (j, joint) →
      s.1.getD joint.parent.val none = some t → o = some t)
    (hmoves : ∀ j joint, c.inboardJoint? b = some (j, joint) → joint.kind.isWeld = false → ∃ t, o = some t) :
    c.Placed (b + 1) (s.1.push o, count) where
  size := by rw [Array.size_push, hs.size]
  lt b' t ht := by
    rw [getD_push] at ht
    split at ht
    · exact ho t ht
    · exact (hs.lt b' t ht).trans_le hcount
  parent b' hb' j joint t hj ht := by
    obtain ⟨-, -, -, hlt, -⟩ := h.inboardJoint? hj
    rw [getD_push, hs.size, if_neg (by omega)] at ht
    rw [getD_push, hs.size]
    split
    · rename_i heq
      exact hparent j joint t (heq ▸ hj) ht
    · exact hs.parent b' (by omega) j joint t hj ht
  moves b' hb' j joint hj hkind := by
    rw [getD_push, hs.size]
    split
    · rename_i heq
      exact hmoves j joint (heq ▸ hj) hkind
    · exact hs.moves b' (by omega) j joint hj hkind

theorem Placed.placeBody {s : Array (Option TreeIndex) × ℕ} (h : c.Sound n) (hs : c.Placed b s) :
    c.Placed (b + 1) (c.placeBody s b) := by
  rw [Connections.placeBody]
  cases hb : c.inboardJoint? b with
  | none =>
    refine hs.push h le_rfl (fun t ht => by cases ht) (fun j joint t hj => ?_) fun j joint hj => ?_ <;>
      exact absurd (hb.symm.trans hj) (by simp)
  | some found =>
    obtain ⟨j, joint⟩ := found
    dsimp only
    cases hparent : s.1.getD joint.parent.val none with
    | some t =>
      refine hs.push h le_rfl (fun u hu => ?_) (fun j' joint' u hj hu => ?_) fun _ _ _ _ => ⟨t, rfl⟩
      · cases hu
        exact hs.lt _ _ hparent
      · cases hb.symm.trans hj
        exact hparent.symm.trans hu
    | none =>
      dsimp only
      split
      · rename_i hweld
        refine hs.push h le_rfl (fun t ht => by cases ht) (fun j' joint' u hj hu => ?_)
          fun j' joint' hj hkind => ?_
        · cases hb.symm.trans hj
          exact absurd (hparent.symm.trans hu) (by simp)
        · cases hb.symm.trans hj
          exact absurd (hweld.symm.trans hkind) (by decide)
      · refine hs.push h (Nat.le_succ _) (fun t ht => ?_) (fun j' joint' u hj hu => ?_)
          fun _ _ _ _ => ⟨_, rfl⟩
        · cases ht
          exact Nat.lt_succ_self _
        · cases hb.symm.trans hj
          exact absurd (hparent.symm.trans hu) (by simp)

/-- What holds of the world alone and is kept as bodies are placed holds of all bodies. -/
theorem Sound.bodyTrees_induction (h : c.Sound n) {P : ℕ → Array (Option TreeIndex) × ℕ → Prop}
    (start : P 1 (#[none], 0))
    (place : ∀ b s, P b s → P (b + 1) (c.placeBody s b)) : P (1 + (n - 1)) c.bodyTrees := by
  rw [bodyTrees, movable, h.size]
  generalize n - 1 = k
  induction k with
  | zero => exact start
  | succ k ih =>
    rw [List.range'_1_concat, List.foldl_append]
    exact place _ _ ih

theorem Sound.placed_world (h : c.Sound n) : c.Placed 1 (#[none], 0) := by
  refine ⟨rfl, fun b t ht => ?_, fun b hb j joint t hj => ?_, fun b hb j joint hj => ?_⟩
  · rw [Array.getD_eq_getD_getElem?] at ht
    cases b <;> cases ht
  all_goals
    obtain ⟨-, -, -, hlt, -⟩ := h.inboardJoint? hj
    omega

theorem Sound.placed_bodyTrees (h : c.Sound n) : c.Placed (1 + (n - 1)) c.bodyTrees :=
  h.bodyTrees_induction h.placed_world fun _ _ hs => hs.placeBody h

/-! ### The places of the velocities -/

theorem snd_foldl_placeVelocities (bodies : List ℕ) (s : Array (Joint α) × ℕ) :
    (bodies.foldl c.placeVelocities s).2 = s.2 + total (bodies.map c.bodyDofs) := by
  induction bodies generalizing s with
  | nil => rfl
  | cons b bodies ih =>
    rw [List.foldl_cons, ih, List.map_cons, total_cons, placeVelocities, bodyDofs]
    cases c.inboardJoint? b with
    | none => exact congrArg _ (Nat.zero_add _).symm
    | some found => exact Nat.add_assoc ..

/-- Only the places of joints change. -/
theorem getElem?_foldl_placeVelocities (bodies : List ℕ) (s : Array (Joint α) × ℕ) {i : ℕ}
    (h : (bodies.foldl c.placeVelocities s).1[i]? = some joint) :
    ∃ old, s.1[i]? = some old ∧ joint = { old with velocityStart := joint.velocityStart } := by
  induction bodies generalizing s with
  | nil => exact ⟨joint, h, rfl⟩
  | cons b bodies ih =>
    obtain ⟨next, hnext, heq⟩ := ih _ h
    rw [placeVelocities] at hnext
    split at hnext
    · exact ⟨next, hnext, heq⟩
    · rw [Array.getElem?_modify] at hnext
      split at hnext
      · obtain ⟨old, hold, rfl⟩ := Option.map_eq_some_iff.mp hnext
        exact ⟨old, hold, heq⟩
      · exact ⟨next, hnext, heq⟩

theorem getElem?_foldl_placeVelocities_of_ne {bodies : List ℕ} (s : Array (Joint α) × ℕ)
    (h : ∀ b ∈ bodies, ∀ joint, c.inboardJoint? b ≠ some (j, joint)) :
    (bodies.foldl c.placeVelocities s).1[j.val]? = s.1[j.val]? := by
  induction bodies generalizing s with
  | nil => rfl
  | cons b bodies ih =>
    rw [List.foldl_cons, ih _ fun b' hb' => h b' (List.mem_cons_of_mem _ hb'), placeVelocities]
    split
    · rfl
    · rename_i j' joint' hb
      have hne : j'.val ≠ j.val := fun heq => by
        obtain ⟨j'⟩ := j'
        obtain rfl : j' = j.val := heq
        exact h b (List.mem_cons_self ..) joint' hb
      rw [Array.getElem?_modify, if_neg hne]

/-- The velocities of a body follow those of the bodies before it. -/
theorem Sound.velocityStart_placed (h : c.Sound n) {before after : List ℕ}
    (hb : c.inboardJoint? b = some (j, joint)) (hafter : b ∉ after)
    (hplaced : ((before ++ b :: after).foldl c.placeVelocities (c.joints, 0)).1[j.val]? = some joint') :
    joint'.velocityStart = total (before.map c.bodyDofs) := by
  have hother : ∀ b' ∈ after, ∀ joint', c.inboardJoint? b' ≠ some (j, joint') := fun b' hb' joint' hsame =>
    hafter (h.eq_of_same_joint hb hsame ▸ hb')
  rw [List.foldl_append, List.foldl_cons, getElem?_foldl_placeVelocities_of_ne _ hother,
    placeVelocities, hb] at hplaced
  dsimp only at hplaced
  rw [Array.getElem?_modify, if_pos rfl, snd_foldl_placeVelocities, Nat.zero_add] at hplaced
  obtain ⟨old, -, rfl⟩ := Option.map_eq_some_iff.mp hplaced
  rfl

/-- The trees up to a given one, and those after it. -/
theorem range_eq_append {count t : ℕ} (h : t < count) :
    List.range count = List.range t ++ t :: (List.range count).drop (t + 1) := by
  have hdrop := List.drop_eq_getElem_cons (l := List.range count) (i := t) (by rwa [List.length_range])
  rw [List.getElem_range] at hdrop
  conv_lhs => rw [← List.take_append_drop t (List.range count), hdrop, List.take_range, Nat.min_eq_left h.le]

theorem Sound.mem_treeBodies (h : c.Sound n) (hb : c.inboardJoint? b = some (j, joint))
    (ht : c.bodyTrees.1.getD b none = some t) : b ∈ c.treeBodies c.bodyTrees.1 t.val := by
  obtain ⟨-, -, -, hparent, hlt⟩ := h.inboardJoint? hb
  refine List.mem_filter.mpr ⟨?_, decide_eq_true ht⟩
  rw [movable, List.mem_range'_1, h.size]
  omega

theorem start_layout (ht : t.val < c.bodyTrees.2) :
    c.layout.start t = total (((List.range t.val).flatMap (c.treeBodies c.bodyTrees.1)).map c.bodyDofs) := by
  rw [total_flatMap, TreeLayout.start]
  show total (((List.range c.bodyTrees.2).map
    fun t => total ((c.treeBodies c.bodyTrees.1 t).map c.bodyDofs)).take t.val) = _
  rw [← List.map_take, List.take_range, Nat.min_eq_left ht.le]

theorem size_layout (ht : t.val < c.bodyTrees.2) :
    c.layout.size t = total ((c.treeBodies c.bodyTrees.1 t.val).map c.bodyDofs) := by
  show (((List.range c.bodyTrees.2).map fun t =>
    total ((c.treeBodies c.bodyTrees.1 t).map c.bodyDofs)).toArray).getD t.val 0 = _
  rw [Array.getD_eq_getD_getElem?, List.getElem?_toArray, List.getElem?_map, List.getElem?_range ht]
  rfl

/-- The joint of a body has its velocities in the range of the tree of the body. -/
theorem Sound.within (h : c.Sound n) (hb : c.inboardJoint? b = some (j, joint))
    (ht : c.bodyTrees.1.getD b none = some t) (hplaced : c.placedJoints[j.val]? = some joint') :
    c.layout.start t ≤ joint'.velocityStart ∧
    joint'.velocityStart + joint.dofs ≤ c.layout.start t + c.layout.size t := by
  have hcount : t.val < c.bodyTrees.2 := h.placed_bodyTrees.lt b t ht
  obtain ⟨before, after, hsplit⟩ := List.append_of_mem (h.mem_treeBodies hb ht)
  have hrange := range_eq_append hcount
  have horder : (List.range c.bodyTrees.2).flatMap (c.treeBodies c.bodyTrees.1) =
      ((List.range t.val).flatMap (c.treeBodies c.bodyTrees.1) ++ before) ++
        b :: (after ++ ((List.range c.bodyTrees.2).drop (t.val + 1)).flatMap
          (c.treeBodies c.bodyTrees.1)) := by
    conv_lhs => rw [hrange, List.flatMap_append, List.flatMap_cons, hsplit]
    simp only [List.append_assoc, List.cons_append]
  have hlast : b ∉ after ++ ((List.range c.bodyTrees.2).drop (t.val + 1)).flatMap
      (c.treeBodies c.bodyTrees.1) := by
    intro hmem
    rcases List.mem_append.mp hmem with hmem | hmem
    · have hnodup : (c.treeBodies c.bodyTrees.1 t.val).Nodup := (List.nodup_range' ..).filter _
      rw [hsplit] at hnodup
      exact (List.nodup_cons.mp (List.nodup_append.mp hnodup).2.1).1 hmem
    · -- A body of a later tree would be in two trees.
      obtain ⟨u, hu, hmem⟩ := List.mem_flatMap.mp hmem
      have htree := of_decide_eq_true (List.mem_filter.mp hmem).2
      have hsame : t = ⟨u⟩ := Option.some.inj (ht.symm.trans htree)
      have hnodup := List.nodup_range (n := c.bodyTrees.2)
      rw [hrange] at hnodup
      refine (List.nodup_cons.mp (List.nodup_append.mp hnodup).2.1).1 ?_
      rw [hsame] at hu ⊢
      exact hu
  have hjoints : c.placedJoints =
      (((List.range c.bodyTrees.2).flatMap (c.treeBodies c.bodyTrees.1)).foldl c.placeVelocities
        (c.joints, 0)).1 := rfl
  rw [hjoints, horder] at hplaced
  have hstart := h.velocityStart_placed hb hlast hplaced
  have hdofs : c.bodyDofs b = joint.dofs := by rw [bodyDofs, hb]
  rw [start_layout hcount, size_layout hcount, hsplit, hstart, List.map_append, total_append,
    List.map_append, total_append, List.map_cons, total_cons, hdofs]
  omega

/-! ### Building -/

variable [Scalar α]

/-- A joint with its axis normalized differs from the given one in the axis only. -/
theorem normalizeAxis_eq_ok (h : joint.normalizeAxis = .ok joint') :
    joint' = { joint with kind := joint'.kind } := by
  rw [Joint.normalizeAxis] at h
  split at h
  · cases h
    rfl
  · obtain ⟨-, h⟩ := require_bind_eq_ok_iff.mp h
    cases h
    rfl

theorem Sound.connect (h : c.Sound n) (hd : connect n c joint = .ok d) : d.Sound n := by
  rw [Mechanism.connect, bind_eq_ok_iff] at hd
  obtain ⟨_, hcheck, hd⟩ := hd
  obtain ⟨joint', hnormal, hd⟩ := bind_eq_ok_iff.mp hd
  obtain ⟨-, hd⟩ := require_bind_eq_ok_iff.mp hd
  cases hd
  have hsame := normalizeAxis_eq_ok hnormal
  have hparent : joint'.parent = joint.parent := by rw [hsame]
  have hchild : joint'.child = joint.child := by rw [hsame]
  rw [Joint.check, require_bind_eq_ok_iff, require_bind_eq_ok_iff, require_bind_eq_ok_iff] at hcheck
  obtain ⟨-, hlt, horder, -⟩ := hcheck
  rw [← hparent, ← hchild] at horder
  rw [← hchild] at hlt
  refine ⟨(Array.size_setIfInBounds ..).trans h.size, fun b j hb => ?_⟩
  by_cases hbody : b = joint'.child.val
  · subst hbody
    rw [Array.getD_eq_getD_getElem?, Array.getElem?_setIfInBounds_self_of_lt (h.size ▸ hlt)] at hb
    cases hb
    exact ⟨joint', Array.getElem?_push_size, rfl, horder, hlt⟩
  · rw [Array.getD_eq_getD_getElem?, Array.getElem?_setIfInBounds_ne (Ne.symm hbody),
      ← Array.getD_eq_getD_getElem?] at hb
    obtain ⟨old, hget, hplace⟩ := h.joint b j hb
    obtain ⟨hlt, rfl⟩ := Array.getElem?_eq_some_iff.mp hget
    exact ⟨_, Array.getElem?_push_lt hlt, hplace⟩

theorem Sound.foldlM_connect {joints : List (Joint α)} (h : c.Sound n)
    (hd : joints.foldlM (Mechanism.connect n) c = .ok d) :
    d.Sound n := by
  induction joints generalizing c with
  | nil =>
    cases hd
    exact h
  | cons joint joints ih =>
    rw [List.foldlM_cons, bind_eq_ok_iff] at hd
    obtain ⟨next, hnext, hd⟩ := hd
    exact ih (h.connect hnext) hd

end Connections

/-- The connections that a mechanism was laid out from. -/
theorem build_eq_ok [Scalar α] {bodies : List (Body α)} {joints : List (Joint α)} {m : Mechanism α}
    (h : build bodies joints = .ok m) :
    ∃ (n : ℕ) (c : Connections α), c.Sound n ∧ m.joints = c.placedJoints ∧ m.inboard = c.inboard ∧
    m.layout = c.layout := by
  simp only [build, bind_eq_ok_iff] at h
  obtain ⟨_, -, c, hc, _, -, h⟩ := h
  cases h
  exact ⟨_, c, (Connections.sound_empty _).foldlM_connect hc, rfl, rfl, rfl⟩

/-- The joints on the way from a body to the world have their velocities in the range of the tree of the
    body. -/
def Orderly (m : Mechanism α) : Prop :=
  ∀ b, ∀ found ∈ m.chain b, ∀ i, found.2.velocityStart ≤ i → i < found.2.velocityStart + found.2.dofs →
    ∃ t, m.layout.bodyTree? b = some t ∧ m.layout.Within t i

section
variable {n : ℕ} {m : Mechanism α} {c : Connections α} {b : BodyIndex} {j : JointIndex} {joint : Joint α}

theorem inboardJoint?_placed (hjoints : m.joints = c.placedJoints) (hinboard : m.inboard = c.inboard)
    (hb : m.inboardJoint? b = some (j, joint)) :
    c.placedJoints[j.val]? = some joint ∧
      ∃ old, c.inboardJoint? b.val = some (j, old) ∧
      joint = { old with velocityStart := joint.velocityStart } := by
  obtain ⟨j', hj, hjoint⟩ := Option.bind_eq_some_iff.mp hb
  obtain ⟨joint', hget, heq⟩ := Option.map_eq_some_iff.mp hjoint
  cases heq
  rw [joint?, hjoints] at hget
  obtain ⟨old, hold, heq⟩ := Connections.getElem?_foldl_placeVelocities _ _ hget
  refine ⟨hget, old, ?_, heq⟩
  rw [inboardIndex?, hinboard] at hj
  exact Option.bind_eq_some_iff.mpr ⟨j, hj, by rw [hold]; rfl⟩

/-- From a joint that moves down to a body all bodies are in one tree. -/
theorem mem_chain (h : c.Sound n) (hjoints : m.joints = c.placedJoints) (hinboard : m.inboard = c.inboard)
    (hmem : (j, joint) ∈ m.chain b) (hmoves : joint.kind.isWeld = false) :
    ∃ t, c.bodyTrees.1.getD b.val none = some t ∧ c.bodyTrees.1.getD joint.child.val none = some t ∧
      m.inboardJoint? joint.child = some (j, joint) := by
  obtain ⟨k, hk⟩ : ∃ k, b.val = k := ⟨_, rfl⟩
  induction k using Nat.strong_induction_on generalizing b with
  | _ k ih =>
    rw [chain] at hmem
    cases hb : m.inboardJoint? b with
    | none => simp [hb] at hmem
    | some found =>
      obtain ⟨j', joint'⟩ := found
      obtain ⟨hplaced, old, hold, heq⟩ := inboardJoint?_placed hjoints hinboard hb
      obtain ⟨-, -, hchild, hparent, hlt⟩ := h.inboardJoint? hold
      have htrees := h.placed_bodyTrees
      have hkind : joint'.kind = old.kind := by rw [heq]
      have hparent' : joint'.parent = old.parent := by rw [heq]
      have hchild' : joint'.child = b := by
        have hsame : joint'.child = old.child := by rw [heq]
        rw [hsame]
        exact congrArg BodyIndex.mk hchild
      simp only [hb, List.mem_cons] at hmem
      rcases hmem with hhead | htail
      · cases hhead
        obtain ⟨t, ht⟩ := htrees.moves b.val (by omega) j old hold (hkind ▸ hmoves)
        exact ⟨t, ht, by rw [hchild']; exact ht, by rw [hchild']; exact hb⟩
      · split at htail
        · rename_i horder
          obtain ⟨t, ht, hrest⟩ := ih joint'.parent.val (hk ▸ horder) htail rfl
          exact ⟨t, htrees.parent b.val (by omega) j' old t hold (hparent' ▸ ht), hrest⟩
        · cases htail

end

theorem build_orderly [Scalar α] {bodies : List (Body α)} {joints : List (Joint α)} {m : Mechanism α}
    (h : build bodies joints = .ok m) : m.Orderly := by
  obtain ⟨n, c, hc, hjoints, hinboard, hlayout⟩ := build_eq_ok h
  rintro b ⟨j, joint⟩ hmem i hstart hend
  have hmoves : joint.kind.isWeld = false := by
    cases hkind : joint.kind with
    | weld =>
      rw [Joint.dofs, hkind] at hend
      exact absurd hend (Nat.not_lt.mpr hstart)
    | _ => rfl
  obtain ⟨t, htree, hchild, hinboardJoint⟩ := mem_chain hc hjoints hinboard hmem hmoves
  obtain ⟨hplaced, old, hold, heq⟩ := inboardJoint?_placed hjoints hinboard hinboardJoint
  have hdofs : joint.dofs = old.dofs := by rw [heq]; rfl
  obtain ⟨hfirst, hlast⟩ := hc.within hold hchild hplaced
  refine ⟨t, by rw [hlayout]; exact htree, ?_⟩
  rw [hlayout]
  exact ⟨hfirst.trans hstart, (hdofs ▸ hend).trans_le hlast⟩

end Mechanism

end CompliantContact
