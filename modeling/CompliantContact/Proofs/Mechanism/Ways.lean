import CompliantContact.Proofs.Mechanism.Positions

/-!
The ways from the bodies of a mechanism to the world.

Whoever goes from a body inward, joint after joint, does not count the steps. In a mechanism that was
built each body but the world hangs on the one joint that names it, from a parent before it, so every
way ends at the world after different joints (`Mechanism.Way`). And the trees, which are dealt out body
by body, are what the ways say: a body is in none if everything on its way is welded, and two bodies are
in the same tree if their ways have the same first joint that moves, as seen from the world
(`Model.build_forest`).
-/

namespace CompliantContact

open Outcome

variable {α : Type}

namespace Mechanism

/-! ### Going inward -/

/-- The joints that are met from a body inward, until a body hangs on nothing. -/
inductive Way (m : Mechanism α) : BodyIndex → List (JointIndex × Joint α) → Prop where
  | arrived {b : BodyIndex} (h : m.inboardJoint? b = none) : m.Way b []
  | step {b : BodyIndex} {j : JointIndex} {joint : Joint α} {way : List (JointIndex × Joint α)}
      (h : m.inboardJoint? b = some (j, joint)) (rest : m.Way joint.parent way) : m.Way b ((j, joint) :: way)

/-- The bodies on a way. -/
def stops (b : BodyIndex) (way : List (JointIndex × Joint α)) : List BodyIndex :=
  b :: way.map fun found => found.2.parent

/-- The joint of a way that moves and is next to the world. -/
def firstMoving? (way : List (JointIndex × Joint α)) : Option (JointIndex × Joint α) :=
  way.reverse.find? fun found => !found.2.kind.isWeld

theorem firstMoving?_cons (found : JointIndex × Joint α) (way : List (JointIndex × Joint α)) :
    firstMoving? (found :: way) = (firstMoving? way).or
      (if found.2.kind.isWeld then none else some found) := by
  rw [firstMoving?, List.reverse_cons, List.find?_append, List.find?_singleton]
  cases found.2.kind.isWeld <;> rfl

theorem firstMoving?_eq_none_iff {way : List (JointIndex × Joint α)} :
    firstMoving? way = none ↔ ∀ found ∈ way, found.2.kind.isWeld = true := by
  rw [firstMoving?, List.find?_eq_none]
  simp only [List.mem_reverse, Bool.not_eq_true', Bool.not_eq_false]

namespace Way

variable {m : Mechanism α} {b : BodyIndex} {way way' : List (JointIndex × Joint α)}

theorem unique (h : m.Way b way) (h' : m.Way b way') : way = way' := by
  induction h generalizing way' with
  | arrived h =>
    cases h' with
    | arrived _ => rfl
    | step hfound _ => cases h.symm.trans hfound
  | step hfound _ ih =>
    cases h' with
    | arrived h => cases hfound.symm.trans h
    | step hfound' hrest =>
      cases hfound.symm.trans hfound'
      rw [ih hrest]

end Way

/-! ### Ways of a mechanism that is laid out -/

section
variable {m : Mechanism α} {c : Connections α} (h : m.ComesFrom c) {b b' : BodyIndex} {j : JointIndex}
  {joint : Joint α} {way way' : List (JointIndex × Joint α)}
include h

/-- A body hangs on a joint that names it, from a parent before it. -/
theorem ComesFrom.inboardJoint? (hb : m.inboardJoint? b = some (j, joint)) :
    m.joint? j = some joint ∧ joint.child = b ∧ joint.parent.val < b.val ∧ b.val < m.numBodies := by
  obtain ⟨hplaced, old, hold, heq⟩ := inboardJoint?_placed h.joints h.inboard hb
  obtain ⟨-, -, hchild, hparent, hlt⟩ := h.sound.inboardJoint? hold
  refine ⟨by rw [joint?, h.joints]; exact hplaced, ?_, ?_, hlt⟩
  · rw [heq]
    exact congrArg BodyIndex.mk hchild
  · rw [heq]
    exact hparent

theorem ComesFrom.inboardJoint?_world : m.inboardJoint? .world = none := by
  cases hworld : m.inboardJoint? .world with
  | none => rfl
  | some found => exact absurd (h.inboardJoint? hworld).2.2.1 (Nat.not_lt_zero _)

theorem ComesFrom.exists_inboardJoint? (hb : b ≠ .world) (hlt : b.val < m.numBodies) :
    ∃ j joint, m.inboardJoint? b = some (j, joint) := by
  have hfirst : 1 ≤ b.val := Nat.one_le_iff_ne_zero.mpr fun heq => hb (congrArg BodyIndex.mk heq)
  obtain ⟨j, hj⟩ := Option.isSome_iff_exists.mp (h.full b.val hfirst hlt)
  obtain ⟨old, hold, -⟩ := h.sound.joint b.val j hj
  have hsize : j.val < c.placedJoints.size := by
    rw [Connections.placedJoints, Connections.size_foldl_placeVelocities]
    exact (Array.getElem?_eq_some_iff.mp hold).1
  refine ⟨j, c.placedJoints[j.val], Option.bind_eq_some_iff.mpr ⟨j, ?_, ?_⟩⟩
  · rw [inboardIndex?, h.inboard]
    exact hj
  · rw [joint?, h.joints, Array.getElem?_eq_getElem hsize]
    rfl

theorem ComesFrom.eq_world_of_arrived (hb : m.inboardJoint? b = none) (hlt : b.val < m.numBodies) :
    b = .world := by
  by_contra hne
  obtain ⟨j, joint, hfound⟩ := h.exists_inboardJoint? hne hlt
  cases hb.symm.trans hfound

/-- The chain of a body is a way. -/
theorem ComesFrom.way_chain (b : BodyIndex) : m.Way b (m.chain b) := by
  obtain ⟨n, hn⟩ : ∃ n, b.val = n := ⟨_, rfl⟩
  induction n using Nat.strong_induction_on generalizing b with
  | _ n ih =>
    rw [chain]
    cases hb : m.inboardJoint? b with
    | none => exact .arrived hb
    | some found =>
      obtain ⟨j, joint⟩ := found
      obtain ⟨-, -, hparent, -⟩ := h.inboardJoint? hb
      dsimp only
      rw [if_pos hparent]
      exact .step hb (ih _ (hn ▸ hparent) _ rfl)

/-- The bodies on a way come ever earlier. -/
theorem ComesFrom.pairwise_stops (hway : m.Way b way) :
    (stops b way).Pairwise fun b b' => b'.val < b.val := by
  induction hway with
  | arrived _ => exact List.pairwise_singleton ..
  | step hfound _ ih =>
    obtain ⟨-, -, hparent, -⟩ := h.inboardJoint? hfound
    refine List.pairwise_cons.mpr ⟨fun b' hmem => ?_, ih⟩
    rcases List.mem_cons.mp hmem with rfl | hmem
    · exact hparent
    · exact ((List.pairwise_cons.mp ih).1 b' hmem).trans hparent

theorem ComesFrom.getLast?_stops (hway : m.Way b way) (hlt : b.val < m.numBodies) :
    (stops b way).getLast? = some .world := by
  induction hway with
  | arrived hb => exact congrArg some (h.eq_world_of_arrived hb hlt)
  | step hfound _ ih =>
    obtain ⟨-, -, hparent, -⟩ := h.inboardJoint? hfound
    exact List.getLast?_cons_cons.trans (ih (hparent.trans hlt))

theorem ComesFrom.mem_way (hway : m.Way b way) {found : JointIndex × Joint α} (hmem : found ∈ way) :
    m.joint? found.1 = some found.2 ∧ found.2.child.val ≤ b.val := by
  induction hway with
  | arrived _ => cases hmem
  | step hfound _ ih =>
    obtain ⟨hjoint, hchild, hparent, -⟩ := h.inboardJoint? hfound
    rcases List.mem_cons.mp hmem with rfl | hmem
    · exact ⟨hjoint, hchild ▸ le_rfl⟩
    · exact ⟨(ih hmem).1, (ih hmem).2.trans hparent.le⟩

/-- No joint is met twice. -/
theorem ComesFrom.nodup_way (hway : m.Way b way) : (way.map Prod.fst).Nodup := by
  induction hway with
  | arrived _ => exact List.nodup_nil
  | step hfound hrest ih =>
    obtain ⟨hjoint, hchild, hparent, -⟩ := h.inboardJoint? hfound
    refine List.nodup_cons.mpr ⟨fun hmem => ?_, ih⟩
    obtain ⟨other, hother, heq⟩ := List.mem_map.mp hmem
    obtain ⟨hget, hle⟩ := h.mem_way hrest hother
    rw [heq, hjoint] at hget
    obtain rfl := Option.some.inj hget
    rw [hchild] at hle
    exact absurd hparent (Nat.not_lt.mpr hle)

end

/-! ### How the trees are dealt out -/

namespace Connections

variable {n b : ℕ} {c : Connections α} {j : JointIndex} {joint : Joint α}

/-- A body that starts a tree: its parent is in none, and its joint moves. -/
def Starts (c : Connections α) (trees : Array (Option TreeIndex)) (b : ℕ) : Prop :=
  ∃ j joint, c.inboardJoint? b = some (j, joint) ∧ trees.getD joint.parent.val none = none ∧
  joint.kind.isWeld = false

/-- The trees of the bodies before `b`: the world is in none, neither is a body that is welded to an
    anchored one, and each tree is started by one body. -/
structure Founded (c : Connections α) (b : ℕ) (s : Array (Option TreeIndex) × ℕ) : Prop where
  placed : c.Placed b s
  world : s.1.getD 0 none = none
  anchored : ∀ b' < b, ∀ j joint, c.inboardJoint? b' = some (j, joint) →
  s.1.getD joint.parent.val none = none →
    joint.kind.isWeld = true → s.1.getD b' none = none
  unique : ∀ b' < b, ∀ b'' < b, c.Starts s.1 b' → c.Starts s.1 b'' →
  s.1.getD b' none = s.1.getD b'' none → b' = b''

/-- Whether a body starts a tree is known from the bodies before it. -/
theorem Sound.starts_push_iff (h : c.Sound n) {trees : Array (Option TreeIndex)} {o : Option TreeIndex}
    (hb : b ≤ trees.size) :
    c.Starts (trees.push o) b ↔ c.Starts trees b := by
  refine exists_congr fun j => exists_congr fun joint => and_congr_right fun hfound => ?_
  obtain ⟨-, -, -, hparent, -⟩ := h.inboardJoint? hfound
  rw [getD_push, if_neg (by omega)]

theorem Founded.push {s : Array (Option TreeIndex) × ℕ} {o : Option TreeIndex} {count : ℕ} (h : c.Sound n)
    (hs : c.Founded b s) (hfirst : 0 < b) (hplaced : c.Placed (b + 1) (s.1.push o, count))
    (hanchored : ∀ j joint, c.inboardJoint? b = some (j, joint) → s.1.getD joint.parent.val none = none →
      joint.kind.isWeld = true → o = none)
    (hnew : c.Starts s.1 b → o = some ⟨s.2⟩) : c.Founded (b + 1) (s.1.push o, count) where
  placed := hplaced
  world := by
    rw [getD_push, hs.placed.size, if_neg (by omega)]
    exact hs.world
  anchored b' hb' j joint hfound hparent hweld := by
    obtain ⟨-, -, -, hlt, -⟩ := h.inboardJoint? hfound
    rw [getD_push, hs.placed.size, if_neg (by omega)] at hparent
    rw [getD_push, hs.placed.size]
    split
    · rename_i heq
      exact hanchored j joint (heq ▸ hfound) hparent hweld
    · exact hs.anchored b' (by omega) j joint hfound hparent hweld
  unique := by
    -- A tree that is new was not there before.
    have hfresh : ∀ b' < b, c.Starts s.1 b' → c.Starts s.1 b → s.1.getD b' none ≠ o := by
      rintro b' hb' ⟨j, joint, hfound, -, hmoves⟩ hstarts heq
      obtain ⟨t, ht⟩ := hs.placed.moves b' hb' j joint hfound hmoves
      have hlt := hs.placed.lt b' t ht
      rw [ht, hnew hstarts] at heq
      cases heq
      exact absurd hlt (Nat.lt_irrefl _)
    intro b' hb' b'' hb'' hstarts hstarts' hsame
    have hsize := hs.placed.size
    rw [h.starts_push_iff (by omega)] at hstarts hstarts'
    rw [getD_push, getD_push, hsize] at hsame
    split at hsame <;> rename_i hlast
    · split at hsame <;> rename_i hlast'
      · exact hlast.trans hlast'.symm
      · exact absurd hsame.symm (hfresh b'' (by omega) hstarts' (hlast ▸ hstarts))
    · split at hsame <;> rename_i hlast'
      · exact absurd hsame (hfresh b' (by omega) hstarts (hlast' ▸ hstarts'))
      · exact hs.unique b' (by omega) b'' (by omega) hstarts hstarts' hsame

theorem Founded.placeBody {s : Array (Option TreeIndex) × ℕ} (h : c.Sound n) (hs : c.Founded b s)
    (hfirst : 0 < b) :
    c.Founded (b + 1) (c.placeBody s b) := by
  have hplaced := hs.placed.placeBody h
  rw [Connections.placeBody] at hplaced ⊢
  cases hb : c.inboardJoint? b with
  | none =>
    rw [hb] at hplaced
    refine hs.push h hfirst hplaced (fun _ _ _ _ _ => rfl) ?_
    rintro ⟨j, joint, hfound, -⟩
    cases hb.symm.trans hfound
  | some found =>
    obtain ⟨j, joint⟩ := found
    rw [hb] at hplaced
    dsimp only at hplaced ⊢
    cases hparent : s.1.getD joint.parent.val none with
    | some t =>
      rw [hparent] at hplaced
      refine hs.push h hfirst hplaced (fun j' joint' hfound hnone _ => ?_) ?_
      · cases hb.symm.trans hfound
        cases hparent.symm.trans hnone
      · rintro ⟨j', joint', hfound, hnone, -⟩
        cases hb.symm.trans hfound
        cases hparent.symm.trans hnone
    | none =>
      rw [hparent] at hplaced
      dsimp only at hplaced ⊢
      cases hweld : joint.kind.isWeld with
      | true =>
        rw [hweld] at hplaced
        refine hs.push h hfirst hplaced (fun _ _ _ _ _ => rfl) ?_
        rintro ⟨j', joint', hfound, -, hmoves⟩
        cases hb.symm.trans hfound
        cases hweld.symm.trans hmoves
      | false =>
        rw [hweld] at hplaced
        refine hs.push h hfirst hplaced (fun j' joint' hfound _ hweld' => ?_) fun _ => rfl
        cases hb.symm.trans hfound
        cases hweld.symm.trans hweld'

theorem Sound.founded_bodyTrees (h : c.Sound n) : c.Founded (1 + (n - 1)) c.bodyTrees := by
  have hall : 0 < 1 + (n - 1) ∧ c.Founded (1 + (n - 1)) c.bodyTrees := by
    refine h.bodyTrees_induction (P := fun b s => 0 < b ∧
      c.Founded b s) ⟨Nat.one_pos, h.placed_world, rfl, ?_, ?_⟩
      fun b s hs => ⟨Nat.succ_pos b, hs.2.placeBody h hs.1⟩
    · intro b hb j joint hfound
      obtain ⟨-, -, -, hparent, -⟩ := h.inboardJoint? hfound
      omega
    · intro b hb b' hb' _ _ _
      omega
  exact hall.2

end Connections

/-! ### What the ways say of the trees -/

section
variable {m : Mechanism α} {c : Connections α} (h : m.ComesFrom c) {b b' : BodyIndex} {j : JointIndex}
  {joint : Joint α} {way way' : List (JointIndex × Joint α)}
include h

theorem ComesFrom.bodyTree?_eq (b : BodyIndex) : m.layout.bodyTree? b = c.bodyTrees.1.getD b.val none := by
  rw [h.layout]
  rfl

/-- A body is where its parent is. If that is in no tree, a weld leaves the body in none, and any other
    joint starts one. -/
theorem ComesFrom.bodyTree?_inboard (hb : m.inboardJoint? b = some (j, joint)) :
    (∀ t, m.layout.bodyTree? joint.parent = some t → m.layout.bodyTree? b = some t) ∧
      (m.layout.bodyTree? joint.parent = none → joint.kind.isWeld = true → m.layout.bodyTree? b = none) ∧
      (m.layout.bodyTree? joint.parent = none → joint.kind.isWeld = false →
        c.Starts c.bodyTrees.1 b.val) := by
  obtain ⟨-, old, hold, heq⟩ := inboardJoint?_placed h.joints h.inboard hb
  obtain ⟨-, -, -, -, hlt⟩ := h.sound.inboardJoint? hold
  have hparent : joint.parent = old.parent := by rw [heq]
  have hkind : joint.kind = old.kind := by rw [heq]
  have htrees := h.sound.founded_bodyTrees
  rw [h.bodyTree?_eq, h.bodyTree?_eq, hparent, hkind]
  exact ⟨fun t ht => htrees.placed.parent b.val (by omega) j old t hold ht,
    fun hnone hweld => htrees.anchored b.val (by omega) j old hold hnone hweld, fun hnone hmoves =>
      ⟨j, old, hold, hnone, hmoves⟩⟩

/-- A body is in no tree if everything on its way is welded. -/
theorem ComesFrom.bodyTree?_eq_none (hway : m.Way b way) (hlt : b.val < m.numBodies)
    (hnone : firstMoving? way = none) :
    m.layout.bodyTree? b = none := by
  induction hway with
  | arrived hb =>
    rw [h.eq_world_of_arrived hb hlt, h.bodyTree?_eq]
    exact h.sound.founded_bodyTrees.world
  | step hfound _ ih =>
    obtain ⟨-, -, hparent, -⟩ := h.inboardJoint? hfound
    rw [firstMoving?_cons, Option.or_eq_none_iff] at hnone
    obtain ⟨hrest, hweld⟩ := hnone
    refine (h.bodyTree?_inboard hfound).2.1 (ih (hparent.trans hlt) hrest) ?_
    by_contra hmoves
    rw [if_neg hmoves] at hweld
    cases hweld

/-- Else it is in the tree that the child of the first joint that moves has started. -/
theorem ComesFrom.bodyTree?_eq_of_firstMoving (hway : m.Way b way) (hlt : b.val < m.numBodies)
    (hfirst : firstMoving? way = some (j, joint)) : m.inboardJoint? joint.child = some (j, joint) ∧
      c.Starts c.bodyTrees.1 joint.child.val ∧ ∃ t, m.layout.bodyTree? joint.child = some t ∧
      m.layout.bodyTree? b = some t := by
  induction hway with
  | arrived _ => cases hfirst
  | @step b i other rest hfound hrest ih =>
    obtain ⟨-, hchild, hparent, -⟩ := h.inboardJoint? hfound
    rw [firstMoving?_cons, Option.or_eq_some_iff] at hfirst
    rcases hfirst with hfirst | ⟨hnone, hfirst⟩
    · obtain ⟨hinboard, hstarts, t, ht, hsame⟩ := ih (hparent.trans hlt) hfirst
      exact ⟨hinboard, hstarts, t, ht, (h.bodyTree?_inboard hfound).1 t hsame⟩
    · split at hfirst
      · cases hfirst
      · rename_i hmoves
        cases hfirst
        obtain ⟨j', old, hold, hanchored, hmoves'⟩ := (h.bodyTree?_inboard hfound).2.2
          (h.bodyTree?_eq_none hrest (hparent.trans hlt) hnone) (Bool.eq_false_iff.mpr hmoves)
        obtain ⟨-, -, -, -, hbody⟩ := h.sound.inboardJoint? hold
        obtain ⟨t, ht⟩ := h.sound.placed_bodyTrees.moves b.val (by omega) j' old hold hmoves'
        rw [hchild]
        exact ⟨hfound, ⟨j', old, hold, hanchored, hmoves'⟩, t, (h.bodyTree?_eq b).trans ht,
          (h.bodyTree?_eq b).trans ht⟩

theorem ComesFrom.bodyTree?_eq_none_iff (hway : m.Way b way) (hlt : b.val < m.numBodies) :
    m.layout.bodyTree? b = none ↔ ∀ found ∈ way, found.2.kind.isWeld = true := by
  rw [← firstMoving?_eq_none_iff]
  refine ⟨fun hnone => ?_, h.bodyTree?_eq_none hway hlt⟩
  cases hfirst : firstMoving? way with
  | none => rfl
  | some found =>
    obtain ⟨-, -, t, -, ht⟩ := h.bodyTree?_eq_of_firstMoving hway hlt hfirst
    cases hnone.symm.trans ht

theorem ComesFrom.sameTree_iff (hway : m.Way b way) (hlt : b.val < m.numBodies) (hway' : m.Way b' way')
    (hlt' : b'.val < m.numBodies) : (∃ t, m.layout.bodyTree? b = some t ∧ m.layout.bodyTree? b' = some t) ↔
      ∃ found, firstMoving? way = some found ∧ firstMoving? way' = some found := by
  constructor
  · rintro ⟨t, ht, ht'⟩
    obtain ⟨⟨j, joint⟩, hfirst⟩ : ∃ found, firstMoving? way = some found :=
        Option.ne_none_iff_exists'.mp fun hnone =>
      absurd (h.bodyTree?_eq_none hway hlt hnone) (by rw [ht]; exact nofun)
    obtain ⟨⟨j', joint'⟩, hfirst'⟩ : ∃ found, firstMoving? way' = some found :=
        Option.ne_none_iff_exists'.mp fun hnone =>
      absurd (h.bodyTree?_eq_none hway' hlt' hnone) (by rw [ht']; exact nofun)
    obtain ⟨hinboard, hstarts, u, hu, hbody⟩ := h.bodyTree?_eq_of_firstMoving hway hlt hfirst
    obtain ⟨hinboard', hstarts', u', hu', hbody'⟩ := h.bodyTree?_eq_of_firstMoving hway' hlt' hfirst'
    cases ht.symm.trans hbody
    cases ht'.symm.trans hbody'
    -- One tree is started by one body, which hangs on one joint.
    have hbound : joint.child.val < 1 + (m.numBodies - 1) := by have := (h.inboardJoint? hinboard).2.2; omega
    have hbound' : joint'.child.val < 1 + (m.numBodies - 1) := by
      have := (h.inboardJoint? hinboard').2.2; omega
    rw [h.bodyTree?_eq] at hu hu'
    have hchild : joint.child = joint'.child := congrArg BodyIndex.mk
      (h.sound.founded_bodyTrees.unique _ hbound _ hbound' hstarts hstarts' (hu.trans hu'.symm))
    rw [hchild, hinboard'] at hinboard
    exact ⟨_, hfirst, hinboard ▸ hfirst'⟩
  · rintro ⟨⟨j, joint⟩, hfirst, hfirst'⟩
    obtain ⟨-, -, t, ht, hbody⟩ := h.bodyTree?_eq_of_firstMoving hway hlt hfirst
    obtain ⟨-, -, t', ht', hbody'⟩ := h.bodyTree?_eq_of_firstMoving hway' hlt' hfirst'
    cases ht.symm.trans ht'
    exact ⟨t, hbody, hbody'⟩

end

/-! ### Building -/

/-- The bodies of a mechanism hang together as trees on the world. -/
structure Forest (m : Mechanism α) : Prop where
  /-- The world hangs on nothing, and any other body on the one joint that names it. -/
  world : m.inboardJoint? .world = none
  inboard : ∀ b, b ≠ .world → b.val < m.numBodies → ∃! j, ∃ joint, m.joint? j = some joint ∧ joint.child = b
  inboardJoint?_iff : ∀ b j joint, m.inboardJoint? b = some (j, joint) ↔ m.joint? j = some joint ∧
  joint.child = b
  /-- From each body there is one way. It comes to ever earlier bodies, ends at the world and meets no
      joint twice. -/
  way_iff : ∀ b way, m.Way b way ↔ way = m.chain b
  decreasing : ∀ b, (stops b (m.chain b)).Pairwise fun b b' => b'.val < b.val
  home : ∀ b, b.val < m.numBodies → (stops b (m.chain b)).getLast? = some .world
  once : ∀ b, ((m.chain b).map Prod.fst).Nodup
  /-- The trees are what the ways say. -/
  anchored_iff : ∀ b, b.val < m.numBodies →
    (m.layout.bodyTree? b = none ↔ ∀ found ∈ m.chain b, found.2.kind.isWeld = true)
  sameTree_iff : ∀ b b', b.val < m.numBodies → b'.val < m.numBodies →
    ((∃ t, m.layout.bodyTree? b = some t ∧ m.layout.bodyTree? b' = some t) ↔
      ∃ found, firstMoving? (m.chain b) = some found ∧ firstMoving? (m.chain b') = some found)

theorem ComesFrom.forest {m : Mechanism α} {c : Connections α} (h : m.ComesFrom c) : m.Forest where
  world := h.inboardJoint?_world
  inboard b hb hlt := by
    obtain ⟨j, joint, hfound⟩ := h.exists_inboardJoint? hb hlt
    obtain ⟨hjoint, hchild, -⟩ := h.inboardJoint? hfound
    refine ⟨j, ⟨joint, hjoint, hchild⟩, ?_⟩
    rintro i ⟨other, hi, rfl⟩
    exact congrArg Prod.fst (Option.some.inj ((h.inboardJoint?_child hi).1.symm.trans hfound))
  inboardJoint?_iff b j joint := by
    refine ⟨fun hfound => ⟨(h.inboardJoint? hfound).1, (h.inboardJoint? hfound).2.1⟩, ?_⟩
    rintro ⟨hj, rfl⟩
    exact (h.inboardJoint?_child hj).1
  way_iff b way := ⟨fun hway => hway.unique (h.way_chain b), fun heq => heq ▸ h.way_chain b⟩
  decreasing b := h.pairwise_stops (h.way_chain b)
  home b hlt := h.getLast?_stops (h.way_chain b) hlt
  once b := h.nodup_way (h.way_chain b)
  anchored_iff b hlt := h.bodyTree?_eq_none_iff (h.way_chain b) hlt
  sameTree_iff b b' hlt hlt' := h.sameTree_iff (h.way_chain b) hlt (h.way_chain b') hlt'

end Mechanism

/-- In every model that was built the bodies hang together as trees on the world: each on one joint,
    from where the way to the world is followed to its end, and two in the same tree if their ways first
    move at the same joint. -/
theorem Model.build_forest [Scalar α] {bodies : List (Body α)} {joints : List (Joint α)}
    {elements : List (ForceElement α)}
    {m : Model α} (h : Model.build bodies joints elements = .ok m) : m.Forest := by
  rw [Model.build, bind_eq_ok_iff] at h
  obtain ⟨mechanism, hmechanism, h⟩ := h
  obtain ⟨_, -, h⟩ := bind_eq_ok_iff.mp h
  cases h
  obtain ⟨c, hc, -⟩ := Mechanism.build_comesFrom hmechanism
  exact hc.forest

/-- What slides on the bracket has a way over the weld and the first slide, and so is in the tree of the
    first body but not of the second. The post is in none. -/
theorem forest_sliding : Model.build slidingBodies slidingJoints [] = .ok sliding ∧ sliding.Forest ∧
    (sliding.chain ⟨5⟩).map Prod.fst = [⟨4⟩, ⟨2⟩, ⟨0⟩] ∧ sliding.layout.bodyTree? ⟨4⟩ = none ∧
    (∃ t, sliding.layout.bodyTree? ⟨5⟩ = some t ∧ sliding.layout.bodyTree? ⟨1⟩ = some t) ∧
    ¬ ∃ t, sliding.layout.bodyTree? ⟨5⟩ = some t ∧ sliding.layout.bodyTree? ⟨2⟩ = some t := by
  have hforest := Model.build_forest build_eq_sliding
  have hway : ∃ way, sliding.Way ⟨5⟩ way ∧ way.map Prod.fst = [⟨4⟩, ⟨2⟩, ⟨0⟩] :=
    ⟨_, .step rfl (.step rfl (.step rfl (.arrived rfl))), rfl⟩
  obtain ⟨way, hway, hjoints⟩ := hway
  obtain rfl := (hforest.way_iff _ _).mp hway
  have hsame : sliding.layout.bodyTree? ⟨5⟩ = some ⟨0⟩ ∧ sliding.layout.bodyTree? ⟨1⟩ = some ⟨0⟩ ∧
      sliding.layout.bodyTree? ⟨2⟩ = some ⟨1⟩ := ⟨rfl, rfl, rfl⟩
  refine ⟨build_eq_sliding, hforest, hjoints, rfl, ⟨_, hsame.1, hsame.2.1⟩, ?_⟩
  rintro ⟨t, ht, ht'⟩
  cases hsame.1.symm.trans ht
  cases hsame.2.2.symm.trans ht'

end CompliantContact
