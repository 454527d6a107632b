import CompliantContact.Proofs.Mechanism.VelocityLayout

/-!
The positions of the joints.

The poses of the bodies are worked out from the positions of their joints, and these stand where the
velocities of the joints do. A joint that is laid out has its place among the positions of the
mechanism. A weld of an anchored body is laid out nowhere and keeps the place that it came with; it
takes no positions there, but the place must exist. So a mechanism that was built gives its bodies poses
exactly if no such weld comes with a place past the end, as one that was laid out in a larger mechanism
may (`Model.build_positions`).
-/

namespace CompliantContact

open Outcome

variable {α : Type}

namespace Mechanism

/-! ### Poses -/

section
variable {m : Mechanism α} {q : Vec α}

/-- The positions of the joints that the bodies hang on are among the first so many. -/
def PositionsWithin (m : Mechanism α) (count : ℕ) : Prop :=
  ∀ b ∈ m.movableBodies, ∀ j joint, m.inboardJoint? b = some (j, joint) →
  joint.velocityStart + joint.dofs ≤ count

/-- Where the bodies are known one looks at them in turn. -/
theorem positionsWithin_of_all {count : ℕ}
    (h : (m.movableBodies.all fun b => (m.inboardJoint? b).all fun found =>
    decide (found.2.velocityStart + found.2.dofs ≤ count)) = true) : m.PositionsWithin count := by
  intro b hb j joint hfound
  have hbody := List.all_eq_true.mp h b hb
  rw [hfound] at hbody
  exact of_decide_eq_true hbody

theorem requirePositions_eq_ok_iff {b : BodyIndex} : m.requirePositions q b = .ok () ↔
    ∀ j joint, m.inboardJoint? b = some (j, joint) → joint.velocityStart + joint.dofs ≤ q.size := by
  rw [requirePositions]
  cases hb : m.inboardJoint? b with
  | none => exact ⟨fun _ _ _ h => (by cases h), fun _ => rfl⟩
  | some found =>
    refine require_eq_ok_iff.trans ⟨fun h j joint hfound => ?_, fun h => h _ _ rfl⟩
    cases hfound
    exact h

variable [Scalar α] {k : PositionKinematics α} {e : Failure α}

/-- Positions of the right number give poses if every joint finds its own among them. -/
theorem positionKinematics_eq_ok_iff : m.positionKinematics q = .ok k ↔
    q.size = m.numPositions ∧ m.PositionsWithin q.size ∧
      k = ⟨m.bodyPoses q, m.joints.map (jointFrame (m.bodyPoses q))⟩ := by
  rw [positionKinematics, bind_eq_ok_iff]
  constructor
  · rintro ⟨_, hsize, h⟩
    obtain ⟨_, hwithin, h⟩ := bind_eq_ok_iff.mp h
    cases h
    exact ⟨(requireSize_eq_ok_iff.mp hsize).symm,
      fun b hb => requirePositions_eq_ok_iff.mp (forM_eq_ok_iff.mp hwithin b hb), rfl⟩
  · rintro ⟨hsize, hwithin, rfl⟩
    exact ⟨(), requireSize_eq_ok_iff.mpr hsize.symm, bind_eq_ok_iff.mpr ⟨(),
      forM_eq_ok_iff.mpr fun b hb => requirePositions_eq_ok_iff.mpr (hwithin b hb), rfl⟩⟩

/-- Positions of the right number give no poses where those of a joint would lie past the end. -/
theorem positionKinematics_eq_error (hsize : q.size = m.numPositions)
    (h : m.positionKinematics q = .error e) :
    ∃ last, q.size < last ∧ e = .outOfRange last q.size := by
  rw [positionKinematics, bind_eq_error_iff, requireSize_eq_ok_iff.mpr hsize.symm] at h
  obtain ⟨_, -, h⟩ := h.resolve_left nofun
  rcases bind_eq_error_iff.mp h with h | ⟨_, -, h⟩
  · obtain ⟨b, -, hb⟩ := exists_of_forM_eq_error h
    rw [requirePositions] at hb
    split at hb
    · cases hb
    · obtain ⟨hpast, rfl⟩ := require_eq_error_iff.mp hb
      exact ⟨_, not_le.mp hpast, rfl⟩
  · cases h

end

/-! ### Connections -/

namespace Connections

variable {n : ℕ} {c d : Connections α} {j : JointIndex} {joint old : Joint α}

/-- A weld of an anchored body keeps the place that it came with. -/
theorem Sound.getElem?_placedJoints_of_anchored (h : c.Sound n) (hold : c.joints[j.val]? = some old)
    (hanchored : c.bodyTrees.1.getD old.child.val none = none) : c.placedJoints[j.val]? = some old := by
  refine (getElem?_foldl_placeVelocities_of_ne _ fun b hb joint hfound => ?_).trans hold
  obtain ⟨-, hget, hchild, -⟩ := h.inboardJoint? hfound
  obtain rfl : joint = old := Option.some.inj (hget.symm.trans hold)
  obtain ⟨t, -, hb⟩ := List.mem_flatMap.mp hb
  have htree : c.bodyTrees.1.getD b none = some ⟨t⟩ := of_decide_eq_true (List.mem_filter.mp hb).2
  rw [← hchild, hanchored] at htree
  cases htree

/-- The place of a joint is inside if the joint is laid out, and else where it came from. -/
theorem Sound.velocityStart_le_iff (h : c.Sound n) (hhung : c.Hung) (hold : c.joints[j.val]? = some old)
    (hj : c.placedJoints[j.val]? = some joint) : joint.velocityStart + joint.dofs ≤ c.layout.numVelocities ↔
      (c.layout.bodyTree? old.child = none → old.velocityStart ≤ c.layout.numVelocities) := by
  have hfound : c.inboardJoint? old.child.val = some (j, old) :=
    Option.bind_eq_some_iff.mpr ⟨j, hhung j.val old hold, by rw [hold]; rfl⟩
  obtain ⟨old', hold', heq⟩ := getElem?_foldl_placeVelocities _ _ hj
  obtain rfl : old = old' := Option.some.inj (hold.symm.trans hold')
  have hdofs : joint.dofs = old.dofs := by rw [heq]; rfl
  have htree : c.layout.bodyTree? old.child = c.bodyTrees.1.getD old.child.val none := rfl
  rw [htree]
  cases ht : c.bodyTrees.1.getD old.child.val none with
  | some t =>
    obtain ⟨-, hlast⟩ := h.within hfound ht hj
    have hend := start_add_size_le_numVelocities (h.placed_bodyTrees.lt _ t ht)
    exact iff_of_true (hdofs ▸ hlast.trans hend) nofun
  | none =>
    have hweld : old.kind.isWeld = true := by
      by_contra hmoves
      obtain ⟨-, -, -, -, hlt⟩ := h.inboardJoint? hfound
      obtain ⟨t, ht'⟩ := h.placed_bodyTrees.moves _ (by omega) j old hfound (Bool.eq_false_iff.mpr hmoves)
      rw [ht] at ht'
      cases ht'
    have hnone : joint.dofs = 0 := by
      rw [hdofs, Joint.dofs]
      cases hkind : old.kind with
      | weld => rfl
      | _ => rw [hkind] at hweld; cases hweld
    obtain rfl : joint = old := Option.some.inj (hj.symm.trans (h.getElem?_placedJoints_of_anchored hold ht))
    rw [hnone, Nat.add_zero]
    exact ⟨fun hle _ => hle, fun hle => hle rfl⟩

/-- The joints have their places inside if those that are not laid out come with one. -/
theorem Sound.forall_placedJoints_iff (h : c.Sound n) (hhung : c.Hung) :
    (∀ joint ∈ c.placedJoints, joint.velocityStart + joint.dofs ≤ c.layout.numVelocities) ↔
      ∀ joint ∈ c.joints, c.layout.bodyTree? joint.child = none →
      joint.velocityStart ≤ c.layout.numVelocities := by
  constructor
  · intro hall old hmem
    obtain ⟨i, hold⟩ := Array.getElem?_of_mem hmem
    have hlt : i < c.placedJoints.size := by
      rw [placedJoints, size_foldl_placeVelocities]
      exact (Array.getElem?_eq_some_iff.mp hold).1
    exact (h.velocityStart_le_iff hhung (j := ⟨i⟩) hold (Array.getElem?_eq_getElem hlt)).mp
      (hall _ (Array.getElem_mem hlt))
  · intro hall joint hmem
    obtain ⟨i, hj⟩ := Array.getElem?_of_mem hmem
    obtain ⟨old, hold, -⟩ := getElem?_foldl_placeVelocities _ _ hj
    exact (h.velocityStart_le_iff hhung (j := ⟨i⟩) hold hj).mpr (hall old (Array.mem_of_getElem? hold))

variable [Scalar α]

theorem joints_connect (hd : connect n c joint = .ok d) :
    d.joints.toList.map .ok = c.joints.toList.map .ok ++ [joint.normalizeAxis] := by
  rw [connect, bind_eq_ok_iff] at hd
  obtain ⟨_, -, hd⟩ := hd
  obtain ⟨joint', hnormal, hd⟩ := bind_eq_ok_iff.mp hd
  obtain ⟨-, hd⟩ := require_bind_eq_ok_iff.mp hd
  cases hd
  rw [hnormal, Array.toList_push, List.map_append, List.map_singleton]

/-- The joints of the connections are the given ones with their axes normalized. -/
theorem joints_foldlM_connect {joints : List (Joint α)} (hd : joints.foldlM (connect n) c = .ok d) :
    d.joints.toList.map .ok = c.joints.toList.map .ok ++ joints.map Joint.normalizeAxis := by
  induction joints generalizing c with
  | nil =>
    cases hd
    rw [List.map_nil, List.append_nil]
  | cons joint joints ih =>
    rw [List.foldlM_cons, bind_eq_ok_iff] at hd
    obtain ⟨next, hnext, hd⟩ := hd
    rw [ih hd, joints_connect hnext, List.append_assoc, List.singleton_append, List.map_cons]

end Connections

/-- A mechanism that is laid out from connections in which every body but the world hangs on a joint. -/
structure ComesFrom (m : Mechanism α) (c : Connections α) : Prop where
  sound : c.Sound m.numBodies
  hung : c.Hung
  full : ∀ b, 1 ≤ b → b < m.numBodies → (c.inboard.getD b none).isSome = true
  joints : m.joints = c.placedJoints
  inboard : m.inboard = c.inboard
  layout : m.layout = c.layout

theorem build_comesFrom [Scalar α] {bodies : List (Body α)} {joints : List (Joint α)} {m : Mechanism α}
    (h : build bodies joints = .ok m) :
    ∃ c : Connections α, m.ComesFrom c ∧ c.joints.toList.map .ok = joints.map Joint.normalizeAxis := by
  simp only [build, bind_eq_ok_iff] at h
  obtain ⟨_, -, c, hc, _, hfull, h⟩ := h
  cases h
  have hempty := Connections.sound_empty (α := α) (bodies.length + 1)
  refine ⟨c, ⟨hempty.foldlM_connect hc, .foldlM_connect (fun j joint hj => by simp at hj) hempty hc,
    fun b hfirst hlast => ?_,
    rfl, rfl, rfl⟩, (Connections.joints_foldlM_connect hc)⟩
  obtain ⟨body, hbody⟩ : ∃ body, (Body.world :: bodies)[b]? = some body :=
    ⟨_, List.getElem?_eq_getElem (by simpa [numBodies] using hlast)⟩
  have hplace : (Body.world :: bodies).zipIdx.tail[b - 1]? = some (body, b) := by
    rw [List.getElem?_tail, Nat.sub_add_cancel hfirst, List.getElem?_zipIdx, hbody, Option.map_some,
      Nat.zero_add]
  exact require_eq_ok_iff.mp (forM_eq_ok_iff.mp hfull _ (List.mem_of_getElem? hplace))

section
variable {m : Mechanism α} {c : Connections α} {count : ℕ}

/-- Every joint carries a body of the mechanism. -/
theorem ComesFrom.inboardJoint?_child (h : m.ComesFrom c) {j : JointIndex} {joint : Joint α}
    (hj : m.joint? j = some joint) :
    m.inboardJoint? joint.child = some (j, joint) ∧ joint.child ∈ m.movableBodies := by
  have hplaced := hj
  rw [joint?, h.joints] at hplaced
  obtain ⟨old, hold, heq⟩ := Connections.getElem?_foldl_placeVelocities _ _ hplaced
  have hchild : joint.child = old.child := by rw [heq]
  have hindex := h.hung j.val old hold
  obtain ⟨old', hold', -, hparent, hlt⟩ := h.sound.joint _ _ hindex
  refine ⟨Option.bind_eq_some_iff.mpr ⟨j, ?_, by rw [hj]; rfl⟩, ?_⟩
  · rw [inboardIndex?, h.inboard, hchild]
    exact hindex
  · rw [hchild]
    exact List.mem_map.mpr ⟨old.child.val, List.mem_range'_1.mpr ⟨by omega, by omega⟩, rfl⟩

/-- The joints that bodies hang on are all joints. -/
theorem ComesFrom.positionsWithin_iff (h : m.ComesFrom c) :
    m.PositionsWithin count ↔ ∀ joint ∈ m.joints, joint.velocityStart + joint.dofs ≤ count := by
  constructor
  · intro hwithin joint hmem
    obtain ⟨j, hj⟩ := Array.getElem?_of_mem hmem
    obtain ⟨hfound, hbody⟩ := h.inboardJoint?_child (j := ⟨j⟩) hj
    exact hwithin _ hbody _ _ hfound
  · intro hall b _ j joint hfound
    obtain ⟨j', -, hjoint⟩ := Option.bind_eq_some_iff.mp hfound
    obtain ⟨joint', hget, heq⟩ := Option.map_eq_some_iff.mp hjoint
    cases heq
    exact hall joint (Array.mem_of_getElem? hget)

end

end Mechanism

/-! ### Building -/

/-- An axis has nothing to do with where a joint stands. -/
theorem Joint.forall_normalizeAxis_iff [Scalar α] {given joints : List (Joint α)} {P : BodyIndex → ℕ → Prop}
    (h : given.map normalizeAxis = joints.map .ok) :
    (∀ joint ∈ joints, P joint.child joint.velocityStart) ↔
    ∀ joint ∈ given, P joint.child joint.velocityStart := by
  constructor
  · intro hall joint hmem
    obtain ⟨joint', hmem', hnormal⟩ := exists_of_mem_map_eq_ok h hmem
    have hkept := hall joint' hmem'
    rwa [Mechanism.Connections.normalizeAxis_eq_ok hnormal] at hkept
  · intro hall joint' hmem'
    obtain ⟨joint, hmem, hnormal⟩ := exists_mem_of_map_eq_ok h hmem'
    rw [Mechanism.Connections.normalizeAxis_eq_ok hnormal]
    exact hall joint hmem

/-- A model that was built, whatever its joints were taken from, gives its bodies poses for positions of
    the right number exactly if each of its joints has its place among them. All joints have but the
    welds of anchored bodies, which keep the place that they came with. Where a joint has not, the poses
    are not worked out to the end. -/
theorem Model.build_positions [Scalar α] {bodies : List (Body α)} {joints : List (Joint α)}
    {elements : List (ForceElement α)}
    {m : Model α} (h : Model.build bodies joints elements = .ok m) {q : Vec α}
    (hq : q.size = m.numPositions) :
    ((∃ k, m.positionKinematics q = .ok k) ↔ ∀ joint ∈ m.joints, joint.velocityStart + joint.dofs ≤ q.size) ∧
      ((∃ k, m.positionKinematics q = .ok k) ↔
        ∀ joint ∈ joints, m.layout.bodyTree? joint.child = none → joint.velocityStart ≤ q.size) ∧
      ∀ e, m.positionKinematics q = .error e → ∃ last, q.size < last ∧ e = .outOfRange last q.size := by
  rw [Model.build, bind_eq_ok_iff] at h
  obtain ⟨mechanism, hmechanism, h⟩ := h
  obtain ⟨_, -, h⟩ := bind_eq_ok_iff.mp h
  cases h
  obtain ⟨c, hc, hgiven⟩ := Mechanism.build_comesFrom hmechanism
  have hwithin : (∃ k, mechanism.positionKinematics q = .ok k) ↔
      ∀ joint ∈ mechanism.joints, joint.velocityStart + joint.dofs ≤ q.size := by
    rw [← hc.positionsWithin_iff]
    refine ⟨fun h => ?_, fun hall => ⟨_, Mechanism.positionKinematics_eq_ok_iff.mpr ⟨hq, hall, rfl⟩⟩⟩
    obtain ⟨k, hk⟩ := h
    exact (Mechanism.positionKinematics_eq_ok_iff.mp hk).2.1
  refine ⟨hwithin, hwithin.trans ?_, fun e he => Mechanism.positionKinematics_eq_error hq he⟩
  have hcount : q.size = c.layout.numVelocities := hq.trans (congrArg TreeLayout.numVelocities hc.layout)
  rw [hcount, hc.layout, hc.joints, hc.sound.forall_placedJoints_iff hc.hung]
  refine Iff.trans ?_ (Joint.forall_normalizeAxis_iff
    (P := fun child start => c.layout.bodyTree? child = none → start ≤ c.layout.numVelocities) hgiven.symm)
  exact ⟨fun hall joint hmem => hall joint (Array.mem_toList_iff.mp hmem),
    fun hall joint hmem => hall joint (Array.mem_toList_iff.mpr hmem)⟩

/-! ### A joint taken from another model -/

noncomputable section

/-- A cart that slides, and a post mounted on it. -/
def cartJoints : List (Joint ℝ) := [.ofKind "slide" .translational .world ⟨1⟩, .ofKind "mount" .weld ⟨1⟩ ⟨2⟩]

def cartConnections : Mechanism.Connections ℝ := ⟨cartJoints.toArray, #[none, some ⟨0⟩, some ⟨1⟩]⟩

/-- The mount as it was laid out in the cart. -/
def cartMount : Joint ℝ := { Joint.ofKind "mount" .weld ⟨1⟩ ⟨2⟩ with velocityStart := 3 }

/-- The same mount, with the post on the ground. -/
def groundMount : Joint ℝ := { cartMount with parent := .world, child := ⟨1⟩ }

def groundConnections : Mechanism.Connections ℝ := ⟨#[groundMount], #[none, some ⟨0⟩]⟩

end

theorem build_cart : ∃ m : Model ℝ,
    Model.build [.pointMass "cart" 1, .pointMass "post" 1] cartJoints [] = .ok m ∧
    m.joint? ⟨1⟩ = some cartMount := by
  have hmass : ∀ b ∈ Body.world :: [.pointMass "cart" 1, .pointMass "post" 1],
      Mechanism.requireMass (α := ℝ) b = .ok () := by
    simp only [List.forall_mem_cons]
    exact ⟨Mechanism.requireMass_pointMass "world" le_rfl, Mechanism.requireMass_pointMass "cart" zero_le_one,
      Mechanism.requireMass_pointMass "post" zero_le_one, List.forall_mem_nil _⟩
  have hconnect : cartJoints.foldlM (Mechanism.connect 3) ⟨#[], Array.replicate 3 none⟩ =
      .ok cartConnections := by
    simp only [cartJoints, List.foldlM_cons, List.foldlM_nil, bind_eq_ok_iff]
    exact ⟨_, Mechanism.connect_ofKind rfl (by decide) (by decide) rfl, _,
      Mechanism.connect_ofKind rfl (by decide) (by decide) rfl, rfl⟩
  have hbuild : Mechanism.build [.pointMass "cart" 1, .pointMass "post" 1] cartJoints =
    .ok ⟨#[.world, .pointMass "cart" 1,
      .pointMass "post" 1], cartConnections.placedJoints, cartConnections.inboard,
        cartConnections.layout⟩ := by
    simp only [Mechanism.build, bind_eq_ok_iff]
    exact ⟨(), forM_eq_ok_iff.mpr hmass, cartConnections, hconnect, (), rfl, rfl⟩
  exact ⟨_, bind_eq_ok_iff.mpr ⟨_, hbuild, rfl⟩, rfl⟩

theorem build_ground : ∃ m : Model ℝ, Model.build [.pointMass "post" 1] [groundMount] [] = .ok m ∧
    m.numPositions = 0 ∧
    m.layout.bodyTree? ⟨1⟩ = none := by
  have hmass : ∀ b ∈ Body.world :: [.pointMass "post" 1], Mechanism.requireMass (α := ℝ) b = .ok () := by
    simp only [List.forall_mem_cons]
    exact ⟨Mechanism.requireMass_pointMass "world" le_rfl,
      Mechanism.requireMass_pointMass "post" zero_le_one, List.forall_mem_nil _⟩
  have horder : BodyIndex.world.val < 1 := Nat.one_pos
  have hcheck : groundMount.check 2 = .ok () := Joint.check_ofKind "mount" .weld horder Nat.one_lt_two
  have hconnect : [groundMount].foldlM (Mechanism.connect 2) ⟨#[], Array.replicate 2 none⟩ =
      .ok groundConnections := by
    simp only [List.foldlM_cons, List.foldlM_nil, bind_eq_ok_iff]
    refine ⟨_, ?_, rfl⟩
    rw [Mechanism.connect, hcheck]
    exact bind_eq_ok_iff.mpr ⟨(), rfl, bind_eq_ok_iff.mpr ⟨_, rfl, require_bind_eq_ok_iff.mpr ⟨rfl, rfl⟩⟩⟩
  have hbuild : Mechanism.build [.pointMass "post" 1] [groundMount] = .ok ⟨#[.world, .pointMass "post" 1],
      groundConnections.placedJoints, groundConnections.inboard, groundConnections.layout⟩ := by
    simp only [Mechanism.build, bind_eq_ok_iff]
    exact ⟨(), forM_eq_ok_iff.mpr hmass, groundConnections, hconnect, (), rfl, rfl⟩
  exact ⟨_, bind_eq_ok_iff.mpr ⟨_, hbuild, rfl⟩, rfl, rfl⟩

/-- A post that was mounted on a cart and is put on the ground has no pose there: its mount keeps its
    place behind the velocities of the cart. -/
theorem build_positions_groundMount : ∃ cart ground : Model ℝ,
    Model.build [.pointMass "cart" 1, .pointMass "post" 1] cartJoints [] = .ok cart ∧
    cart.joint? ⟨1⟩ = some cartMount ∧
      Model.build [.pointMass "post" 1] [{ cartMount with parent := .world, child := ⟨1⟩ }] [] = .ok ground ∧
      (Vec.zeros 0 : Vec ℝ).size = ground.numPositions ∧
      (¬ ∃ k, ground.positionKinematics (.zeros 0) = .ok k) := by
  obtain ⟨cart, hcart, hmount⟩ := build_cart
  obtain ⟨ground, hground, hnone, hanchored⟩ := build_ground
  have hsize : (Vec.zeros 0 : Vec ℝ).size = ground.numPositions := (Vec.size_zeros 0).trans hnone.symm
  refine ⟨cart, ground, hcart, hmount, hground, hsize, fun hk => ?_⟩
  have hplace : groundMount.velocityStart ≤ (Vec.zeros 0 : Vec ℝ).size :=
    (Model.build_positions hground hsize).2.1.mp hk groundMount (List.mem_singleton_self _) hanchored
  rw [Vec.size_zeros] at hplace
  exact absurd hplace (by decide)

end CompliantContact
