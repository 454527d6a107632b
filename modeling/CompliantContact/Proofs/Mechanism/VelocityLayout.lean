import CompliantContact.Proofs.Mechanism.Places
import Mathlib.Data.Set.Function

/-!
How the velocities of a mechanism are divided.

In a mechanism that was built the trees take their velocities one after another, none without any, and
inside a tree the joints that move do the same (`Model.build_divided`). The layout states sizes and
sums; grown in one pass over the trees, with the next free velocity carried along, it comes out the same
(`Connections.grown_eq`).
-/

namespace CompliantContact

open Outcome

variable {α : Type}

/-! ### Sums of sizes -/

theorem le_total_of_mem {sizes : List ℕ} {n : ℕ} (h : n ∈ sizes) : n ≤ total sizes := by
  obtain ⟨before, after, rfl⟩ := List.append_of_mem h
  rw [total_append, total_cons]
  omega

theorem startsFrom_concat (next n : ℕ) (sizes : List ℕ) :
    startsFrom next (sizes ++ [n]) = startsFrom next sizes ++ [next + total sizes] := by
  induction sizes generalizing next with
  | nil => rfl
  | cons k sizes ih =>
    rw [List.cons_append, startsFrom_cons, startsFrom_cons, ih, total_cons, Nat.add_assoc]
    rfl

/-- A place below the sum of the sizes is in one of the parts. -/
theorem exists_part {β : Type} (f : β → ℕ) {xs : List β} {v : ℕ} (hv : v < total (xs.map f)) :
    ∃ before x after, xs = before ++ x :: after ∧ total (before.map f) ≤ v ∧
    v < total (before.map f) + f x := by
  induction xs generalizing v with
  | nil => exact absurd hv (Nat.not_lt_zero v)
  | cons x xs ih =>
    rw [List.map_cons, total_cons] at hv
    by_cases hhead : v < f x
    · exact ⟨[], x, xs, rfl, Nat.zero_le v, by simpa using hhead⟩
    · obtain ⟨before, y, after, rfl, hfirst, hlast⟩ := ih (v := v - f x) (by omega)
      refine ⟨x :: before, y, after, rfl, ?_⟩
      rw [List.map_cons, total_cons]
      omega

theorem TreeLayout.mem_trees {l : TreeLayout} {t : TreeIndex} : t ∈ l.trees ↔ t.val < l.numTrees := by
  rw [trees, List.mem_map]
  constructor
  · rintro ⟨n, hn, rfl⟩
    exact List.mem_range.mp hn
  · intro ht
    exact ⟨t.val, List.mem_range.mpr ht, rfl⟩

namespace Mechanism

namespace Connections

variable {n b : ℕ} {c : Connections α} {j : JointIndex} {joint : Joint α} {t : TreeIndex} {v : ℕ}

/-! ### Trees have velocities -/

/-- Each tree so far has a body on a joint that moves. -/
def Rooted (c : Connections α) (s : Array (Option TreeIndex) × ℕ) : Prop :=
  ∀ t < s.2, ∃ b j joint, c.inboardJoint? b = some (j, joint) ∧ joint.kind.isWeld = false ∧
  s.1.getD b none = some ⟨t⟩

theorem Rooted.push {s : Array (Option TreeIndex) × ℕ} (hs : c.Rooted s) (o : Option TreeIndex) :
    c.Rooted (s.1.push o, s.2) := by
  intro t ht
  obtain ⟨b, j, joint, hb, hmoves, htree⟩ := hs t ht
  refine ⟨b, j, joint, hb, hmoves, ?_⟩
  have hold : b ≠ s.1.size := by
    rintro rfl
    rw [Array.getD_eq_getD_getElem?, Array.getElem?_eq_none le_rfl] at htree
    cases htree
  rw [getD_push, if_neg hold, htree]

theorem Rooted.pushNew {s : Array (Option TreeIndex) × ℕ} (hs : c.Rooted s)
    (hb : c.inboardJoint? s.1.size = some (j, joint)) (hmoves : joint.kind.isWeld = false) :
    c.Rooted (s.1.push (some ⟨s.2⟩), s.2 + 1) := by
  intro t ht
  rcases Nat.lt_succ_iff_lt_or_eq.mp ht with hold | rfl
  · exact hs.push _ t hold
  · exact ⟨_, j, joint, hb, hmoves, by rw [getD_push, if_pos rfl]⟩

theorem Rooted.placeBody {s : Array (Option TreeIndex) × ℕ} (hs : c.Rooted s) (hsize : s.1.size = b) :
    c.Rooted (c.placeBody s b) := by
  rw [Connections.placeBody]
  cases hb : c.inboardJoint? b with
  | none => exact hs.push none
  | some found =>
    obtain ⟨j, joint⟩ := found
    dsimp only
    cases s.1.getD joint.parent.val none with
    | some t => exact hs.push (some t)
    | none =>
      dsimp only
      cases hweld : joint.kind.isWeld with
      | true => exact hs.push none
      | false => exact hs.pushNew (hsize ▸ hb) hweld

theorem Sound.rooted_bodyTrees (h : c.Sound n) : c.Rooted c.bodyTrees := by
  have hinv : c.bodyTrees.1.size = 1 + (n - 1) ∧ c.Rooted c.bodyTrees := by
    refine h.bodyTrees_induction (P := fun b s => s.1.size = b ∧ c.Rooted s) ⟨rfl, fun t ht => ?_⟩
      fun b s hs => ⟨?_, ?_⟩
    · exact absurd ht (Nat.not_lt_zero t)
    · rw [Connections.placeBody]
      split
      · rw [Array.size_push, hs.1]
      · split
        · rw [Array.size_push, hs.1]
        · split <;> rw [Array.size_push, hs.1]
    · exact hs.2.placeBody hs.1
  exact hinv.2

theorem numTrees_layout (c : Connections α) : c.layout.numTrees = c.bodyTrees.2 := by
  show c.treeSizes.toArray.size = _
  rw [List.size_toArray, treeSizes, List.length_map, List.length_range]

theorem dofs_pos (h : joint.kind.isWeld = false) : 0 < joint.dofs := by
  rw [Joint.dofs]
  cases hkind : joint.kind with
  | weld => rw [hkind] at h; cases h
  | _ => exact Nat.succ_pos _

/-- A tree has a velocity of the joint that it starts with. -/
theorem Sound.size_pos (h : c.Sound n) (ht : t.val < c.bodyTrees.2) : 0 < c.layout.size t := by
  obtain ⟨b, j, joint, hb, hmoves, htree⟩ := h.rooted_bodyTrees t.val ht
  have hmem : c.bodyDofs b ∈ (c.treeBodies c.bodyTrees.1 t.val).map c.bodyDofs :=
    List.mem_map_of_mem (h.mem_treeBodies hb htree)
  have hdofs : c.bodyDofs b = joint.dofs := by rw [bodyDofs, hb]
  rw [size_layout ht]
  exact (hdofs ▸ dofs_pos hmoves).trans_le (le_total_of_mem hmem)

/-! ### Velocities belong to joints -/

theorem size_foldl_placeVelocities (bodies : List ℕ) (s : Array (Joint α) × ℕ) :
    (bodies.foldl c.placeVelocities s).1.size = s.1.size := by
  induction bodies generalizing s with
  | nil => rfl
  | cons b bodies ih =>
    rw [List.foldl_cons, ih, placeVelocities]
    split
    · rfl
    · exact Array.size_modify

/-- Every velocity is taken by a joint. -/
theorem Sound.exists_moves (h : c.Sound n) (hv : v < c.layout.numVelocities) :
    ∃ (j : JointIndex) (joint : Joint α), c.placedJoints[j.val]? = some joint ∧ joint.Moves v := by
  have htotal : total (c.order.map c.bodyDofs) = c.layout.numVelocities := by
    rw [order, total_flatMap, numVelocities_layout, treeSizes]
  obtain ⟨before, b, after, horder, hfirst, hlast⟩ := exists_part c.bodyDofs (htotal ▸ hv)
  cases hb : c.inboardJoint? b with
  | none =>
    rw [bodyDofs, hb] at hlast
    exact absurd hlast (Nat.not_lt.mpr hfirst)
  | some found =>
    obtain ⟨j, joint⟩ := found
    obtain ⟨-, hjoint, -⟩ := h.inboardJoint? hb
    have hdofs : c.bodyDofs b = joint.dofs := by rw [bodyDofs, hb]
    obtain ⟨placed, hget⟩ : ∃ placed, c.placedJoints[j.val]? = some placed := by
      have hlt : j.val < c.placedJoints.size := by
        rw [placedJoints, size_foldl_placeVelocities]
        exact (Array.getElem?_eq_some_iff.mp hjoint).1
      exact ⟨_, Array.getElem?_eq_getElem hlt⟩
    obtain ⟨old, hold, heq⟩ := getElem?_foldl_placeVelocities _ _ hget
    obtain rfl : joint = old := Option.some.inj (hjoint.symm.trans hold)
    have hkept : placed.dofs = joint.dofs := by rw [heq]; rfl
    have hafter : b ∉ after := by
      have hnodup := c.nodup_order
      rw [horder] at hnodup
      exact (List.nodup_cons.mp (List.nodup_append.mp hnodup).2.1).1
    have hstart : placed.velocityStart = total (before.map c.bodyDofs) := by
      have hjoints : c.placedJoints = (c.order.foldl c.placeVelocities (c.joints, 0)).1 := rfl
      rw [hjoints, horder] at hget
      exact h.velocityStart_placed hb hafter hget
    exact ⟨j, placed, hget, hstart.trans_le hfirst, by rw [hstart, hkept, ← hdofs]; exact hlast⟩

/-- A joint that moves has its velocities in the range of the tree of its child. -/
theorem Sound.inside (h : c.Sound n) (hhung : c.Hung) (hj : c.placedJoints[j.val]? = some joint)
    (hdofs : 0 < joint.dofs) :
    ∃ t, t.val < c.bodyTrees.2 ∧ c.layout.bodyTree? joint.child = some t ∧
    c.layout.start t ≤ joint.velocityStart ∧
      joint.velocityStart + joint.dofs ≤ c.layout.start t + c.layout.size t := by
  obtain ⟨old, hfound, hsame, hmoves, -⟩ :=
    h.exists_body hhung (v := joint.velocityStart) hj ⟨le_rfl, Nat.lt_add_of_pos_right hdofs⟩
  obtain ⟨-, hold, -, -, hlt⟩ := h.inboardJoint? hfound
  obtain ⟨t, ht⟩ := h.placed_bodyTrees.moves _ (by omega) j old hfound hmoves
  obtain ⟨placed, hplaced, heq⟩ := getElem?_foldl_placeVelocities _ _ hj
  obtain rfl : old = placed := Option.some.inj (hold.symm.trans hplaced)
  have hchild : joint.child = old.child := by rw [heq]
  rw [hsame, hchild]
  exact ⟨t, h.placed_bodyTrees.lt _ _ ht, ht, h.within hfound ht hj⟩

/-! ### One pass over the trees -/

/-- A layout that is being grown: the joints and the next free velocity, and for each tree so far its
    first velocity, how many velocities it has, and one entry for each of them. -/
@[ext] structure Growth (α : Type) where
  joints : Array (Joint α)
  next : ℕ
  starts : Array ℕ
  sizes : Array ℕ
  velocityTrees : Array TreeIndex

/-- Grows a layout by a tree, which begins at the next free velocity and ends where its bodies leave off. -/
def growTree (c : Connections α) (g : Growth α) (t : ℕ) : Growth α :=
  let (joints, next) := (c.treeBodies c.bodyTrees.1 t).foldl c.placeVelocities (g.joints, g.next)
  { joints
    next
    starts := g.starts.push g.next
    sizes := g.sizes.push (next - g.next)
    velocityTrees := g.velocityTrees ++ Array.replicate (next - g.next) ⟨t⟩ }

/-- The layout grown in one pass. -/
def grown (c : Connections α) : Growth α :=
  (List.range c.bodyTrees.2).foldl c.growTree ⟨c.joints, 0, #[], #[], #[]⟩

/-- The layout of the first trees. -/
def grownTo (c : Connections α) (count : ℕ) : Growth α :=
  let sizes := (List.range count).map fun t => total ((c.treeBodies c.bodyTrees.1 t).map c.bodyDofs)
  { joints :=
    (((List.range count).flatMap (c.treeBodies c.bodyTrees.1)).foldl c.placeVelocities (c.joints, 0)).1
    next := total sizes
    starts := (startsFrom 0 sizes).toArray
    sizes := sizes.toArray
    velocityTrees := (sizes.zipIdx.flatMap fun (n, t) => List.replicate n (⟨t⟩ : TreeIndex)).toArray }

theorem growTree_grownTo (c : Connections α) (count : ℕ) :
    c.growTree (c.grownTo count) count = c.grownTo (count + 1) := by
  have hplaced : (c.treeBodies c.bodyTrees.1 count).foldl c.placeVelocities ((c.grownTo count).joints,
    (c.grownTo count).next) =
      ((c.grownTo (count + 1)).joints,
        (c.grownTo count).next + total ((c.treeBodies c.bodyTrees.1 count).map c.bodyDofs)) := by
    refine Prod.ext ?_ (snd_foldl_placeVelocities ..)
    have hnext : (c.grownTo count).next =
        (((List.range count).flatMap (c.treeBodies c.bodyTrees.1)).foldl c.placeVelocities
          (c.joints, 0)).2 := by
      rw [snd_foldl_placeVelocities, total_flatMap, Nat.zero_add]
      rfl
    rw [hnext]
    simp only [grownTo, List.range_succ, List.flatMap_append, List.flatMap_singleton, List.foldl_append]
  rw [growTree, hplaced]
  simp only [grownTo, List.range_succ, List.map_append, List.map_singleton, total_append,
    total_cons, total_nil,
    startsFrom_concat, List.zipIdx_append, List.flatMap_append, List.zipIdx_singleton,
    List.flatMap_singleton, Nat.add_sub_cancel_left,
    List.length_map, List.length_range, Nat.add_zero, Nat.zero_add]
  ext1 <;> simp

/-- In one pass over the trees the same layout comes out. -/
theorem grown_eq (c : Connections α) : c.grown = {
    joints := c.placedJoints
    next := c.layout.numVelocities
    starts := (c.layout.trees.map c.layout.start).toArray
    sizes := c.layout.sizes
    velocityTrees := c.layout.velocityTrees } := by
  have hgrown : ∀ count, (List.range count).foldl c.growTree ⟨c.joints, 0, #[], #[], #[]⟩ =
      c.grownTo count := by
    intro count
    induction count with
    | zero => rfl
    | succ count ih => rw [List.range_succ, List.foldl_append, ih, List.foldl_cons, growTree_grownTo]; rfl
  have hstarts : startsFrom 0 c.treeSizes = c.layout.trees.map c.layout.start := by
    have hcount : c.treeSizes.length = c.layout.numTrees := List.size_toArray.symm
    rw [startsFrom, TreeLayout.trees, List.map_map, hcount]
    exact List.map_congr_left fun t _ => Nat.zero_add _
  rw [grown, hgrown, numVelocities_layout, ← hstarts]
  rfl

end Connections

/-! ### Building -/

/-- How the velocities of a mechanism are divided among its trees and its joints. -/
structure Divided (m : Mechanism α) : Prop where
  /-- A tree starts after the trees before it. -/
  start : ∀ t ∈ m.layout.trees, m.layout.start t = total ((m.layout.trees.take t.val).map m.layout.size)
  size_pos : ∀ t ∈ m.layout.trees, 1 ≤ m.layout.size t
  sizes : total (m.layout.trees.map m.layout.size) = m.numVelocities
  velocityTree_iff : ∀ v t, m.layout.velocityTree? v = some t ↔
    m.layout.start t ≤ v ∧ v < m.layout.start t + m.layout.size t
  /-- The joints take velocities of the mechanism only, and each velocity is taken by one joint. -/
  joint_lt : ∀ j joint v, m.joint? j = some joint → joint.Moves v → v < m.numVelocities
  joint_unique : ∀ v < m.numVelocities, ∃! j, ∃ joint, m.joint? j = some joint ∧ joint.Moves v
  /-- A joint that moves takes them from the tree of its child. -/
  inside : ∀ j joint, m.joint? j = some joint → 1 ≤ joint.dofs → ∃ t ∈ m.layout.trees,
    m.layout.bodyTree? joint.child = some t ∧ m.layout.start t ≤ joint.velocityStart ∧
      joint.velocityStart + joint.dofs ≤ m.layout.start t + m.layout.size t
  locate_bijective : Set.BijOn m.layout.locate? {v | v < m.numVelocities}
    (some '' {p | p.1 ∈ m.layout.trees ∧ p.2 < m.layout.size p.1})
  locate_none : ∀ v, m.numVelocities ≤ v → m.layout.locate? v = none

section
variable {m : Mechanism α} {t : TreeIndex} {v : ℕ}

theorem LaidOut.start_add_size_le (h : m.LaidOut) (ht : t ∈ m.layout.trees) :
    m.layout.start t + m.layout.size t ≤ m.numVelocities := by
  have ht : t.val < m.layout.sizes.size := TreeLayout.mem_trees.mp ht
  have hsize : m.layout.sizes.toList[t.val]? = some (m.layout.size t) := by
    rw [Array.getElem?_toList, TreeLayout.size, Array.getD_eq_getD_getElem?,
      Array.getElem?_eq_getElem ht, Option.getD_some]
  rw [← h.sizes]
  exact total_take_add_le hsize

/-- The velocities of a tree are velocities of the mechanism. -/
theorem LaidOut.lt_of_within (h : m.LaidOut) (hv : m.layout.Within t v) : v < m.numVelocities :=
  hv.2.trans_le (h.start_add_size_le hv.mem_trees)

theorem LaidOut.velocityTree?_eq_some_iff (h : m.LaidOut) : m.layout.velocityTree? v = some t ↔
    m.layout.Within t v := by
  constructor
  · intro ht
    obtain ⟨u, hu, hwithin⟩ := h.located v (Array.getElem?_eq_some_iff.mp ht).1
    obtain rfl : t = u := Option.some.inj (ht.symm.trans hu)
    exact hwithin
  · intro hwithin
    have hlt : v < m.numVelocities := h.lt_of_within hwithin
    obtain ⟨u, hu, hother⟩ := h.located v hlt
    rw [hu, hwithin.unique hother]

theorem LaidOut.locate?_eq_some_iff (h : m.LaidOut) {k : ℕ} :
    m.layout.locate? v = some (t, k) ↔ k < m.layout.size t ∧ v = m.layout.start t + k := by
  rw [TreeLayout.locate?, Option.map_eq_some_iff]
  constructor
  · rintro ⟨u, hu, heq⟩
    cases heq
    obtain ⟨hfirst, hlast⟩ := h.velocityTree?_eq_some_iff.mp hu
    omega
  · rintro ⟨hk, rfl⟩
    refine ⟨t, h.velocityTree?_eq_some_iff.mpr ⟨Nat.le_add_right .., Nat.add_lt_add_left hk _⟩, ?_⟩
    rw [Nat.add_sub_cancel_left]

/-- A velocity is a tree and a place in it. -/
theorem LaidOut.bijOn_locate? (h : m.LaidOut) : Set.BijOn m.layout.locate? {v | v < m.numVelocities}
    (some '' {p | p.1 ∈ m.layout.trees ∧ p.2 < m.layout.size p.1}) := by
  refine ⟨fun v hv => ?_, fun v hv w hw heq => ?_, ?_⟩
  · obtain ⟨t, ht, hwithin⟩ := h.located v hv
    have hlocate : m.layout.locate? v = some (t, v - m.layout.start t) := by rw [TreeLayout.locate?, ht]; rfl
    exact ⟨_, ⟨hwithin.mem_trees, (h.locate?_eq_some_iff.mp hlocate).1⟩, hlocate.symm⟩
  · obtain ⟨t, ht, -⟩ := h.located v hv
    have hlocate : m.layout.locate? v = some (t, v - m.layout.start t) := by rw [TreeLayout.locate?, ht]; rfl
    rw [(h.locate?_eq_some_iff.mp hlocate).2, ← (h.locate?_eq_some_iff.mp (heq.symm.trans hlocate)).2]
  · rintro _ ⟨⟨t, k⟩, ⟨-, hk⟩, rfl⟩
    have hwithin : m.layout.Within t (m.layout.start t + k) := ⟨Nat.le_add_right .., Nat.add_lt_add_left hk _⟩
    exact ⟨m.layout.start t + k, h.lt_of_within hwithin, h.locate?_eq_some_iff.mpr ⟨hk, rfl⟩⟩

end

/-- The layout of connections that hold together divides the velocities. -/
theorem divided_of_connections {m : Mechanism α} {n : ℕ} {c : Connections α} (hlaid : m.LaidOut)
    (hsound : c.Sound n)
    (hhung : c.Hung) (hjoints : m.joints = c.placedJoints) (hlayout : m.layout = c.layout) : m.Divided where
  start t _ := by rw [List.map_take, TreeLayout.map_size_trees]; rfl
  size_pos t ht := by
    rw [hlayout] at ht ⊢
    refine hsound.size_pos ?_
    exact c.numTrees_layout ▸ TreeLayout.mem_trees.mp ht
  sizes := by rw [TreeLayout.map_size_trees, hlaid.sizes]
  velocityTree_iff _ _ := hlaid.velocityTree?_eq_some_iff
  joint_lt := hlaid.lt
  joint_unique v hv := by
    rw [numVelocities, hlayout] at hv
    obtain ⟨j, joint, hj, hmoves⟩ := hsound.exists_moves hv
    rw [← hjoints] at hj
    refine ⟨j, ⟨joint, hj, hmoves⟩, fun i ⟨other, hi, hother⟩ => hlaid.unique _ _ _ _ v hi hj hother hmoves⟩
  inside j joint hj hdofs := by
    rw [joint?, hjoints] at hj
    obtain ⟨t, ht, hchild, hrange⟩ := hsound.inside hhung hj hdofs
    rw [hlayout]
    exact ⟨t, TreeLayout.mem_trees.mpr (c.numTrees_layout.symm ▸ ht), hchild, hrange⟩
  locate_bijective := hlaid.bijOn_locate?
  locate_none v hv := by rw [TreeLayout.locate?, TreeLayout.velocityTree?, Array.getElem?_eq_none hv]; rfl

end Mechanism

/-- The mechanism of a model that was built was built from the same bodies and joints. -/
theorem Model.build_mechanism [Scalar α] {bodies : List (Body α)} {joints : List (Joint α)}
    {elements : List (ForceElement α)} {m : Model α} (h : Model.build bodies joints elements = .ok m) :
    Mechanism.build bodies joints = .ok m.toMechanism := by
  simp only [Model.build, bind_eq_ok_iff] at h
  obtain ⟨mechanism, hmechanism, _, -, h⟩ := h
  cases h
  exact hmechanism

/-- In every model that was built the velocities are divided among the trees and the joints, as they are
    when the layout is grown in one pass. -/
theorem Model.build_divided [Scalar α] {bodies : List (Body α)} {joints : List (Joint α)}
    {elements : List (ForceElement α)} {m : Model α} (h : Model.build bodies joints elements = .ok m) :
    m.Divided ∧ ∃ c : Mechanism.Connections α,
      joints.foldlM (Mechanism.connect (bodies.length + 1)) ⟨#[],
        Array.replicate (bodies.length + 1) none⟩ = .ok c ∧
        c.grown = {
          joints := m.joints
          next := m.numVelocities
          starts := (m.layout.trees.map m.layout.start).toArray
          sizes := m.layout.sizes
          velocityTrees := m.layout.velocityTrees } := by
  rw [Model.build, bind_eq_ok_iff] at h
  obtain ⟨mechanism, hmechanism, h⟩ := h
  obtain ⟨_, -, h⟩ := bind_eq_ok_iff.mp h
  cases h
  have hlaid := Mechanism.build_laidOut hmechanism
  simp only [Mechanism.build, bind_eq_ok_iff] at hmechanism
  obtain ⟨_, -, c, hc, _, -, hmechanism⟩ := hmechanism
  cases hmechanism
  have hempty := Mechanism.Connections.sound_empty (α := α) (bodies.length + 1)
  have hhung : c.Hung := .foldlM_connect (fun j joint hj => by simp at hj) hempty hc
  exact ⟨Mechanism.divided_of_connections hlaid (hempty.foldlM_connect hc) hhung rfl rfl, c, hc, c.grown_eq⟩

/-! ### Interleaved trees -/

theorem Mechanism.requireMass_pointMass (name : String) {mass : ℝ} (h : 0 ≤ mass) :
    requireMass (.pointMass name mass) = .ok () := require_eq_ok_iff.mpr ⟨h, rfl⟩

theorem Joint.check_ofKind (name : String) (kind : JointKind ℝ) {parent child : BodyIndex} {numBodies : ℕ}
    (horder : parent.val < child.val) (hchild : child.val < numBodies) :
    (Joint.ofKind name kind parent child).check numBodies = .ok () := by
  have hzeros : (Vec.zeros kind.dofs : Vec ℝ).toArray.all (0 ≤ ·) = true := by
    rw [Array.all_eq_true]
    intro i hi
    simp [Vec.zeros, Vec.replicate, Vec.ofFn]
  have hlimits : ((Array.replicate kind.dofs (none : Option ℝ)).zip (Array.replicate kind.dofs none)).all
      (fun bounds => Bound.ordered bounds.1 bounds.2) = true := by
    rw [Array.all_eq_true]
    intro i hi
    simp [Bound.ordered]
  simp only [Joint.check, bind_eq_ok_iff]
  exact ⟨(), require_eq_ok_iff.mpr (horder.trans hchild), (), require_eq_ok_iff.mpr hchild, (),
    require_eq_ok_iff.mpr horder,
    (), requireSize_eq_ok_iff.mpr (Vec.size_zeros _).symm, (),
    requireSize_eq_ok_iff.mpr (Vec.size_zeros _).symm,
    (), requireSize_eq_ok_iff.mpr Array.size_replicate.symm, (),
    requireSize_eq_ok_iff.mpr Array.size_replicate.symm,
    (), require_eq_ok_iff.mpr hzeros, (), require_eq_ok_iff.mpr hzeros, require_eq_ok_iff.mpr hlimits⟩

/-- An axis of length one is kept. -/
theorem Joint.normalizeAxis_of_norm {joint : Joint ℝ} {a : Vec3 ℝ} (h : joint.kind.axis? = some a)
    (hnorm : a.norm = 1) :
    joint.normalizeAxis = .ok joint := by
  have hdiv : a / (1 : ℝ) = a := by ext <;> simp
  have hkept : joint.kind.withAxis a = joint.kind := by
    cases hkind : joint.kind <;> rw [hkind] at h <;> cases h <;> rfl
  rw [normalizeAxis, h]
  dsimp only
  rw [hnorm, hdiv, hkept]
  refine require_bind_eq_ok_iff.mpr ⟨?_, rfl⟩
  simp only [minAxisNorm, Scalar.decimal]
  norm_num

theorem Mechanism.connect_ofKind {c : Connections ℝ} {numBodies : ℕ} {name : String} {kind : JointKind ℝ}
    {parent child : BodyIndex}
    (hnormal : (Joint.ofKind name kind parent child).normalizeAxis = .ok (.ofKind name kind parent child))
    (horder : parent.val < child.val) (hchild : child.val < numBodies)
    (hfree : (c.inboard.getD child.val none).isNone = true) :
    connect numBodies c (.ofKind name kind parent child) =
      .ok ⟨c.joints.push (.ofKind name kind parent child),
        c.inboard.setIfInBounds child.val (some ⟨c.joints.size⟩)⟩ := by
  rw [connect, Joint.check_ofKind name kind horder hchild]
  exact bind_eq_ok_iff.mpr ⟨(), rfl, bind_eq_ok_iff.mpr ⟨_, hnormal, require_bind_eq_ok_iff.mpr ⟨hfree, rfl⟩⟩⟩

noncomputable section

/-- Two bodies that slide, and a third, which slides on a bracket that is welded to the first; a post is
    welded to the world. -/
def slidingBodies : List (Body ℝ) :=
  [.pointMass "a" 1, .pointMass "b" 1, .pointMass "bracket" 1, .pointMass "post" 1, .pointMass "c" 1]

def slidingJoints : List (Joint ℝ) :=
  [.ofKind "slide_a" .translational .world ⟨1⟩, .ofKind "slide_b" .translational .world ⟨2⟩,
    .ofKind "mount" .weld ⟨1⟩ ⟨3⟩, .ofKind "anchor" .weld .world ⟨4⟩,
    .ofKind "slide_c" .translational ⟨3⟩ ⟨5⟩]

def slidingConnections : Mechanism.Connections ℝ :=
  ⟨slidingJoints.toArray, #[none, some ⟨0⟩, some ⟨1⟩, some ⟨2⟩, some ⟨3⟩, some ⟨4⟩]⟩

def sliding : Model ℝ where
  bodies := (Body.world :: slidingBodies).toArray
  joints := slidingConnections.placedJoints
  inboard := slidingConnections.inboard
  layout := slidingConnections.layout
  elements := []

end

theorem build_eq_sliding : Model.build slidingBodies slidingJoints [] = .ok sliding := by
  have hmass : ∀ b ∈ Body.world :: slidingBodies, Mechanism.requireMass b = .ok () := by
    simp only [slidingBodies, List.forall_mem_cons]
    exact ⟨Mechanism.requireMass_pointMass "world" le_rfl, Mechanism.requireMass_pointMass "a" zero_le_one,
      Mechanism.requireMass_pointMass "b" zero_le_one, Mechanism.requireMass_pointMass "bracket" zero_le_one,
      Mechanism.requireMass_pointMass "post" zero_le_one,
      Mechanism.requireMass_pointMass "c" zero_le_one, List.forall_mem_nil _⟩
  have hconnect : slidingJoints.foldlM (Mechanism.connect 6) ⟨#[], Array.replicate 6 none⟩ =
      .ok slidingConnections := by
    simp only [slidingJoints, List.foldlM_cons, List.foldlM_nil, bind_eq_ok_iff]
    exact ⟨_, Mechanism.connect_ofKind rfl (by decide) (by decide) rfl, _,
      Mechanism.connect_ofKind rfl (by decide) (by decide) rfl,
      _, Mechanism.connect_ofKind rfl (by decide) (by decide) rfl, _,
      Mechanism.connect_ofKind rfl (by decide) (by decide) rfl,
      _, Mechanism.connect_ofKind rfl (by decide) (by decide) rfl, rfl⟩
  have hbuild : Mechanism.build slidingBodies slidingJoints = .ok sliding.toMechanism := by
    simp only [Mechanism.build, bind_eq_ok_iff]
    exact ⟨(), forM_eq_ok_iff.mpr hmass, slidingConnections, hconnect, (), rfl, rfl⟩
  exact bind_eq_ok_iff.mpr ⟨_, hbuild, rfl⟩

theorem build_sliding :
    ∃ m : Model ℝ, Model.build slidingBodies slidingJoints [] = .ok m ∧
    m.layout = slidingConnections.layout :=
  ⟨sliding, build_eq_sliding, rfl⟩

/-- The third body is in the tree of the first, and the second starts another tree after it. -/
theorem divided_sliding : ∃ m : Model ℝ, Model.build slidingBodies slidingJoints [] = .ok m ∧ m.Divided ∧
    m.layout.sizes = #[6, 3] ∧ m.layout.bodyTrees = #[none, some ⟨0⟩, some ⟨1⟩, some ⟨0⟩, none, some ⟨0⟩] ∧
      m.layout.locate? 4 = some (⟨0⟩, 4) ∧ m.layout.locate? 7 = some (⟨1⟩, 1) := by
  obtain ⟨m, hm, hlayout⟩ := build_sliding
  refine ⟨m, hm, (Model.build_divided hm).1, ?_⟩
  rw [hlayout]
  exact ⟨rfl, rfl, rfl, rfl⟩

end CompliantContact
