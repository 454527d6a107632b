import CompliantContact.Proofs.Mechanism.Trees

/-!
The places of the velocities of a mechanism.

In a mechanism that was built every velocity is in the range of the tree that the layout names for it,
and belongs to one joint at most (`Mechanism.build_laidOut`). So velocities of different joints never
share a column.
-/

namespace CompliantContact

open Outcome

variable {α : Type}

/-- A velocity of a joint. -/
def Joint.Moves (joint : Joint α) (v : ℕ) : Prop :=
  joint.velocityStart ≤ v ∧ v < joint.velocityStart + joint.dofs

/-! ### The trees of the velocities -/

/-- One run of tree indices for each size, one after another. -/
theorem exists_getElem?_runs {sizes : List ℕ} {v : ℕ} (hv : v < total sizes) (first : ℕ) :
    ∃ t, ((sizes.zipIdx first).flatMap fun (n, t) => List.replicate n (⟨t⟩ : TreeIndex))[v]? =
      some ⟨first + t⟩ ∧
      t < sizes.length ∧ total (sizes.take t) ≤ v ∧ v < total (sizes.take t) + sizes.getD t 0 := by
  induction sizes generalizing v first with
  | nil => exact absurd hv (Nat.not_lt_zero v)
  | cons n sizes ih =>
    rw [total_cons] at hv
    rw [List.zipIdx_cons, List.flatMap_cons, List.getElem?_append, List.length_replicate]
    by_cases hhead : v < n
    · refine ⟨0, ?_, Nat.succ_pos _, Nat.zero_le v, ?_⟩
      · rw [if_pos hhead, List.getElem?_replicate, if_pos hhead]
        rfl
      · rw [List.take_zero, total_nil, Nat.zero_add, List.getD_cons_zero]
        exact hhead
    · obtain ⟨t, hget, hlength, hfirst, hlast⟩ := ih (v := v - n) (by omega) (first + 1)
      refine ⟨t + 1, ?_, Nat.succ_lt_succ hlength, ?_⟩
      · rw [if_neg hhead, hget, Nat.add_right_comm, Nat.add_assoc]
      · rw [List.take_succ_cons, total_cons, List.getD_cons_succ]
        omega

theorem length_runs (sizes : List ℕ) (first : ℕ) :
    ((sizes.zipIdx first).flatMap fun (n, t) => List.replicate n (⟨t⟩ : TreeIndex)).length = total sizes := by
  induction sizes generalizing first with
  | nil => rfl
  | cons n sizes ih =>
    rw [List.zipIdx_cons, List.flatMap_cons, List.length_append, List.length_replicate, ih, total_cons]

namespace TreeLayout

variable {l : TreeLayout} {t : TreeIndex} {i : ℕ}

/-- A tree with a velocity is one of the trees. -/
theorem Within.mem_trees (h : l.Within t i) : t ∈ l.trees := by
  have hlt : t.val < l.numTrees := by
    by_contra hge
    have hzero : l.size t = 0 := by
      rw [size, Array.getD_eq_getD_getElem?, Array.getElem?_eq_none (not_lt.mp hge), Option.getD_none]
    have hlast := h.2
    rw [hzero] at hlast
    exact absurd h.1 (not_le.mpr hlast)
  exact List.mem_map.mpr ⟨t.val, List.mem_range.mpr hlt, rfl⟩

theorem exists_within (hi : i < total l.sizes.toList) : ∃ t, l.Within t i := by
  obtain ⟨t, -, -, hfirst, hlast⟩ := exists_getElem?_runs hi 0
  refine ⟨⟨t⟩, hfirst, ?_⟩
  rwa [size, Array.getD_eq_getD_getElem?, ← Array.getElem?_toList, ← List.getD_eq_getElem?_getD]

end TreeLayout

namespace Mechanism

namespace Connections

variable {n b : ℕ} {c d : Connections α} {i j : JointIndex} {joint joint' : Joint α} {t : TreeIndex} {v : ℕ}

/-- The sizes of the trees. -/
def treeSizes (c : Connections α) : List ℕ :=
  (List.range c.bodyTrees.2).map fun t => total ((c.treeBodies c.bodyTrees.1 t).map c.bodyDofs)

theorem size_layout_eq_getD (c : Connections α) (t : TreeIndex) :
    c.layout.size t = c.treeSizes.getD t.val 0 := by
  show c.treeSizes.toArray.getD t.val 0 = _
  rw [Array.getD_eq_getD_getElem?, List.getElem?_toArray, List.getD_eq_getElem?_getD]

theorem numVelocities_layout (c : Connections α) : c.layout.numVelocities = total c.treeSizes :=
  length_runs c.treeSizes 0

/-- The layout names the tree in whose range a velocity is. -/
theorem exists_velocityTree (hv : v < c.layout.numVelocities) :
    ∃ t, c.layout.velocityTree? v = some t ∧ c.layout.Within t v := by
  rw [numVelocities_layout] at hv
  obtain ⟨t, hget, hlength, hfirst, hlast⟩ := exists_getElem?_runs hv 0
  rw [Nat.zero_add] at hget
  refine ⟨⟨t⟩, (List.getElem?_toArray ..).trans hget, hfirst, ?_⟩
  rw [size_layout_eq_getD]
  exact hlast

/-- Every joint carries the body that it names. -/
def Hung (c : Connections α) : Prop :=
  ∀ (j : ℕ) (joint : Joint α), c.joints[j]? = some joint → c.inboard.getD joint.child.val none = some ⟨j⟩

/-- The velocities of a tree are velocities of the mechanism. -/
theorem start_add_size_le_numVelocities (ht : t.val < c.bodyTrees.2) :
    c.layout.start t + c.layout.size t ≤ c.layout.numVelocities := by
  have hlength : c.treeSizes.length = c.bodyTrees.2 := by rw [treeSizes, List.length_map, List.length_range]
  have htotal := total_take_add c.treeSizes (hlength ▸ ht)
  rw [List.take_length] at htotal
  rw [size_layout_eq_getD, numVelocities_layout]
  exact htotal

/-- The bodies in the order in which they take their velocities. -/
def order (c : Connections α) : List ℕ := (List.range c.bodyTrees.2).flatMap (c.treeBodies c.bodyTrees.1)

theorem nodup_order (c : Connections α) : c.order.Nodup := by
  refine List.nodup_flatMap.mpr ⟨fun t _ => (List.nodup_range' ..).filter _, ?_⟩
  refine List.nodup_range.pairwise_of_forall_ne fun t _ u _ hne b ht hu => hne ?_
  have htree := of_decide_eq_true (List.mem_filter.mp ht).2
  have htree' := of_decide_eq_true (List.mem_filter.mp hu).2
  exact congrArg TreeIndex.val (Option.some.inj (htree.symm.trans htree'))

/-- A body on a joint that moves takes velocities. -/
theorem Sound.mem_order (h : c.Sound n) (hb : c.inboardJoint? b = some (j, joint))
    (hmoves : joint.kind.isWeld = false) :
    b ∈ c.order := by
  obtain ⟨-, -, -, -, hlt⟩ := h.inboardJoint? hb
  obtain ⟨t, ht⟩ := h.placed_bodyTrees.moves b (by omega) j joint hb hmoves
  exact List.mem_flatMap.mpr ⟨t.val, List.mem_range.mpr (h.placed_bodyTrees.lt b t ht),
    h.mem_treeBodies hb ht⟩

/-- A joint with a velocity carries a body that takes velocities. -/
theorem Sound.exists_body (h : c.Sound n) (hhung : c.Hung) (hplaced : c.placedJoints[j.val]? = some joint)
    (hv : joint.Moves v) : ∃ old, c.inboardJoint? old.child.val = some (j, old) ∧ joint.dofs = old.dofs ∧
      old.kind.isWeld = false ∧ old.child.val ∈ c.order := by
  obtain ⟨old, hold, heq⟩ := getElem?_foldl_placeVelocities _ _ hplaced
  have hkind : joint.kind = old.kind := by rw [heq]
  have hfound : c.inboardJoint? old.child.val = some (j, old) :=
    Option.bind_eq_some_iff.mpr ⟨j, hhung j.val old hold, by rw [hold]; rfl⟩
  have hmoves : old.kind.isWeld = false := by
    cases hold : old.kind with
    | weld =>
      obtain ⟨hfirst, hlast⟩ := hv
      rw [Joint.dofs, hkind, hold] at hlast
      exact absurd hlast (Nat.not_lt.mpr hfirst)
    | _ => rfl
  exact ⟨old, hfound, congrArg JointKind.dofs hkind, hmoves, h.mem_order hfound hmoves⟩

/-- Of two bodies the later takes its velocities after the earlier. -/
theorem Sound.le_velocityStart (h : c.Sound n) {before between after : List ℕ} {b' : ℕ}
    (horder : c.order = before ++ b :: (between ++ b' :: after)) (hb : c.inboardJoint? b = some (i, joint))
    (hb' : c.inboardJoint? b' = some (j, joint')) {placed placed' : Joint α}
    (hplaced : c.placedJoints[i.val]? = some placed) (hplaced' : c.placedJoints[j.val]? = some placed') :
    placed.velocityStart + joint.dofs ≤ placed'.velocityStart := by
  have hnodup := c.nodup_order
  have hjoints : c.placedJoints = (c.order.foldl c.placeVelocities (c.joints, 0)).1 := rfl
  rw [horder] at hnodup
  rw [hjoints, horder] at hplaced hplaced'
  rw [← List.cons_append, ← List.append_assoc] at hplaced'
  have hrest := (List.nodup_append.mp hnodup).2.1
  have hlast : b' ∉ after := (List.nodup_cons.mp (List.nodup_append.mp (List.nodup_cons.mp hrest).2).2.1).1
  have hdofs : c.bodyDofs b = joint.dofs := by rw [bodyDofs, hb]
  rw [h.velocityStart_placed hb (List.nodup_cons.mp hrest).1 hplaced,
    h.velocityStart_placed hb' hlast hplaced',
    List.map_append, total_append, List.map_cons, total_cons, hdofs]
  omega

/-- Joints of different bodies have no velocity in common. -/
theorem Sound.eq_of_moves (h : c.Sound n) {b' : ℕ} (hb : c.inboardJoint? b = some (i, joint))
    (hb' : c.inboardJoint? b' = some (j, joint')) {placed placed' : Joint α}
    (hplaced : c.placedJoints[i.val]? = some placed) (hplaced' : c.placedJoints[j.val]? = some placed')
    (hdofs : placed.dofs = joint.dofs) (hdofs' : placed'.dofs = joint'.dofs) (hmem : b ∈ c.order)
    (hmem' : b' ∈ c.order) (hv : placed.Moves v) (hv' : placed'.Moves v) : b = b' := by
  by_contra hne
  obtain ⟨before, after, horder⟩ := List.append_of_mem hmem
  rw [horder] at hmem'
  obtain ⟨hfirst, hlast⟩ := hv
  obtain ⟨hfirst', hlast'⟩ := hv'
  rcases List.mem_append.mp hmem' with hbefore | hafter
  · obtain ⟨first, between, rfl⟩ := List.append_of_mem hbefore
    rw [List.append_assoc, List.cons_append] at horder
    have hle := h.le_velocityStart horder hb' hb hplaced' hplaced
    omega
  · obtain ⟨between, last, rfl⟩ := List.append_of_mem ((List.mem_cons.mp hafter).resolve_left (Ne.symm hne))
    have hle := h.le_velocityStart horder hb hb' hplaced hplaced'
    omega

variable [Scalar α]

theorem Hung.connect (h : c.Hung) (hsound : c.Sound n) (hd : connect n c joint = .ok d) : d.Hung := by
  rw [Mechanism.connect, bind_eq_ok_iff] at hd
  obtain ⟨_, hcheck, hd⟩ := hd
  obtain ⟨joint', hnormal, hd⟩ := bind_eq_ok_iff.mp hd
  obtain ⟨hfree, hd⟩ := require_bind_eq_ok_iff.mp hd
  cases hd
  rw [Joint.check, require_bind_eq_ok_iff, require_bind_eq_ok_iff] at hcheck
  have hlt : joint'.child.val < c.inboard.size := by
    rw [hsound.size, normalizeAxis_eq_ok hnormal]
    exact hcheck.2.1
  intro j found hfound
  rw [Array.getElem?_push] at hfound
  rw [Array.getD_eq_getD_getElem?]
  split at hfound
  · rename_i heq
    cases hfound
    rw [Array.getElem?_setIfInBounds_self_of_lt hlt, heq]
    rfl
  · have hold := h j found hfound
    have hother : joint'.child.val ≠ found.child.val := by
      intro heq
      rw [heq, hold] at hfree
      cases hfree
    rw [Array.getElem?_setIfInBounds_ne hother, ← Array.getD_eq_getD_getElem?, hold]

theorem Hung.foldlM_connect {joints : List (Joint α)} (h : c.Hung) (hsound : c.Sound n)
    (hd : joints.foldlM (Mechanism.connect n) c = .ok d) : d.Hung := by
  induction joints generalizing c with
  | nil =>
    cases hd
    exact h
  | cons joint joints ih =>
    rw [List.foldlM_cons, bind_eq_ok_iff] at hd
    obtain ⟨next, hnext, hd⟩ := hd
    exact ih (h.connect hsound hnext) (hsound.connect hnext) hd

end Connections

/-! ### Building -/

/-- A body hangs on a joint that names it, and every velocity is in the range of the tree that the
    layout names and belongs to one joint at most. -/
structure LaidOut (m : Mechanism α) : Prop where
  sizes : total m.layout.sizes.toList = m.numVelocities
  child : ∀ b j joint, m.inboardJoint? b = some (j, joint) → joint.child = b
  located : ∀ v < m.numVelocities, ∃ t, m.layout.velocityTree? v = some t ∧ m.layout.Within t v
  lt : ∀ j joint v, m.joint? j = some joint → joint.Moves v → v < m.numVelocities
  unique : ∀ i j joint joint' v, m.joint? i = some joint → m.joint? j = some joint' → joint.Moves v →
  joint'.Moves v → i = j

theorem build_laidOut [Scalar α] {bodies : List (Body α)} {joints : List (Joint α)} {m : Mechanism α}
    (h : build bodies joints = .ok m) : m.LaidOut := by
  simp only [build, bind_eq_ok_iff] at h
  obtain ⟨_, -, c, hc, _, -, h⟩ := h
  cases h
  have hsound := (Connections.sound_empty _).foldlM_connect hc
  have hhung : c.Hung :=
    Connections.Hung.foldlM_connect (fun j joint hj => by simp at hj) (Connections.sound_empty _) hc
  refine ⟨c.numVelocities_layout.symm, fun b j joint hb => ?_,
    fun v hv => Connections.exists_velocityTree hv, fun j joint v hj hmoves => ?_,
    fun i j joint joint' v hi hj hmoves hmoves' => ?_⟩
  · obtain ⟨-, old, hold, heq⟩ := inboardJoint?_placed (c := c) rfl rfl hb
    obtain ⟨-, -, hchild, -⟩ := hsound.inboardJoint? hold
    rw [heq]
    exact congrArg BodyIndex.mk hchild
  · obtain ⟨old, hold, hdofs, hweld, -⟩ := hsound.exists_body hhung hj hmoves
    obtain ⟨-, -, -, -, hlt⟩ := hsound.inboardJoint? hold
    obtain ⟨t, ht⟩ := hsound.placed_bodyTrees.moves _ (by omega) _ _ hold hweld
    obtain ⟨-, hend⟩ := hsound.within hold ht hj
    have hsize := Connections.start_add_size_le_numVelocities (hsound.placed_bodyTrees.lt _ t ht)
    have hlast := hmoves.2
    show v < c.layout.numVelocities
    omega
  · obtain ⟨old, hold, hdofs, -, hmem⟩ := hsound.exists_body hhung hi hmoves
    obtain ⟨old', hold', hdofs', -, hmem'⟩ := hsound.exists_body hhung hj hmoves'
    have hbody := hsound.eq_of_moves hold hold' hi hj hdofs hdofs' hmem hmem' hmoves hmoves'
    rw [hbody] at hold
    exact congrArg Prod.fst (Option.some.inj (hold.symm.trans hold'))

end Mechanism

end CompliantContact
