import CompliantContact.Proofs.Mechanism.ForwardDynamics
import CompliantContact.Proofs.Mechanism.Positions
import CompliantContact.Proofs.Mechanism.Rest

/-!
What one tree of a mechanism depends on.

A body moves with the velocities of its tree only. So where two states agree on what belongs to one
tree, all that the dynamics work out for this tree is the same: the poses and the motions of its bodies,
its part of the Jacobians, its block of the mass matrix, the forces along its velocities and, in the
end, its accelerations (`Mechanism.Bound.forwardDynamics_same`). What the other trees add is zero there,
whatever they do.
-/

namespace CompliantContact

open Outcome

variable {α : Type}

namespace TreeLayout

/-- A body of the tree, or one that is anchored to the world: no other tree has it. -/
def OnlyIn (l : TreeLayout) (t : TreeIndex) (b : BodyIndex) : Prop := ∀ u, l.bodyTree? b = some u → u = t

/-- A body of another tree does not move with the velocities of this one. -/
theorem not_within_of_not_onlyIn {l : TreeLayout} {t : TreeIndex} {b : BodyIndex} {i : ℕ}
    (hb : ¬ l.OnlyIn t b) (hi : l.Within t i) : ∀ u, l.bodyTree? b = some u → ¬ l.Within u i := by
  intro u hu hwithin
  refine hb fun w hw => ?_
  obtain rfl : u = w := Option.some.inj (hu.symm.trans hw)
  exact hwithin.unique hi

/-- Vectors of one size with the same entries along the velocities of a tree. -/
structure Same (l : TreeLayout) (t : TreeIndex) (v w : Vec ℝ) : Prop where
  size : v.size = w.size
  entry : ∀ i, l.Within t i → v i = w i

namespace Same

variable {l : TreeLayout} {t : TreeIndex} {v v' w w' : Vec ℝ}

theorem refl (v : Vec ℝ) : l.Same t v v := ⟨rfl, fun _ _ => rfl⟩

theorem add (h : l.Same t v w) (h' : l.Same t v' w') : l.Same t (v + v') (w + w') where
  size := by rw [Vec.size_add, Vec.size_add, h.size]
  entry i hi := by
    by_cases hlt : i < v.size
    · rw [Vec.get_add hlt, Vec.get_add (h.size ▸ hlt), h.entry i hi, h'.entry i hi]
    · rw [Vec.get_of_size_le (by rw [Vec.size_add]; omega),
        Vec.get_of_size_le (by rw [Vec.size_add, ← h.size]; omega)]

theorem sub (h : l.Same t v w) (h' : l.Same t v' w') : l.Same t (v - v') (w - w') where
  size := by rw [Vec.size_sub, Vec.size_sub, h.size]
  entry i hi := by
    by_cases hlt : i < v.size
    · rw [Vec.get_sub hlt, Vec.get_sub (h.size ▸ hlt), h.entry i hi, h'.entry i hi]
    · rw [Vec.get_of_size_le (by rw [Vec.size_sub]; omega),
        Vec.get_of_size_le (by rw [Vec.size_sub, ← h.size]; omega)]

theorem hadamard (h : l.Same t v w) (h' : l.Same t v' w') : l.Same t (v.hadamard v') (w.hadamard w') where
  size := by rw [Vec.size_hadamard, Vec.size_hadamard, h.size]
  entry i hi := by rw [Vec.get_hadamard, Vec.get_hadamard, h.entry i hi, h'.entry i hi]

theorem mul (h : l.Same t v w) (x : ℝ) : l.Same t (v * x) (w * x) where
  size := by rw [Vec.size_mul, Vec.size_mul, h.size]
  entry i hi := by rw [Vec.get_mul, Vec.get_mul, h.entry i hi]

theorem slice (h : l.Same t v w) : v.slice (l.start t) (l.size t) = w.slice (l.start t) (l.size t) := by
  refine Vec.ext ((Vec.size_ofFn ..).trans (Vec.size_ofFn ..).symm) fun i hi => ?_
  have hi : i < l.size t := by rwa [Vec.slice, Vec.size_ofFn] at hi
  rw [Vec.slice, Vec.slice, Vec.get_ofFn_of_lt hi, Vec.get_ofFn_of_lt hi]
  exact h.entry _ ⟨Nat.le_add_right .., Nat.add_lt_add_left hi _⟩

theorem of_slice (hsize : v.size = w.size)
    (h : v.slice (l.start t) (l.size t) = w.slice (l.start t) (l.size t)) :
    l.Same t v w where
  size := hsize
  entry i hi := by
    obtain ⟨hfirst, hlast⟩ := hi
    have hplace : i - l.start t < l.size t := by omega
    have hentry := congrArg (fun x : Vec ℝ => x (i - l.start t)) h
    simpa only [Vec.slice, Vec.get_ofFn_of_lt hplace, Nat.add_sub_cancel' hfirst] using hentry

end Same

end TreeLayout

/-! ### Joints -/

section
variable [Scalar α]

/-- A joint moves its child by its own positions. -/
theorem JointKind.motion_congr (kind : JointKind α) {q q' : ℕ → α} (h : ∀ i < kind.dofs, q i = q' i) :
    kind.motion q = kind.motion q' := by
  cases kind with
  | weld => rfl
  | revolute a => rw [motion, motion, h 0 Nat.one_pos]
  | prismatic a => rw [motion, motion, h 0 Nat.one_pos]
  | translational => rw [motion, motion, h 0 (Nat.succ_pos 2), h 1 (Nat.lt_of_sub_pos Nat.two_pos),
      h 2 (Nat.lt_succ_self 2)]

theorem Mechanism.relativeVelocity_congr (frame : Pose α) (kind : JointKind α) {v v' : ℕ → α}
    (h : ∀ i < kind.dofs, v i = v' i) : relativeVelocity frame kind v = relativeVelocity frame kind v' := by
  cases kind with
  | weld => rfl
  | revolute a => rw [relativeVelocity, relativeVelocity, h 0 Nat.one_pos]
  | prismatic a => rw [relativeVelocity, relativeVelocity, h 0 Nat.one_pos]
  | translational =>
    rw [relativeVelocity, relativeVelocity, h 0 (Nat.succ_pos 2), h 1 (Nat.lt_of_sub_pos Nat.two_pos),
      h 2 (Nat.lt_succ_self 2)]

end

namespace Mechanism

/-- Bodies are bound to trees: a body is in the tree of its parent, hangs on a joint that names it, and
    moves with the velocities of its tree only. -/
structure Bound (m : Mechanism α) : Prop where
  orderly : m.Orderly
  laidOut : m.LaidOut
  parent : ∀ b j joint t, m.inboardJoint? b = some (j, joint) → m.layout.bodyTree? joint.parent = some t →
    m.layout.bodyTree? b = some t

theorem build_bound [Scalar α] {bodies : List (Body α)} {joints : List (Joint α)} {m : Mechanism α}
    (h : build bodies joints = .ok m) : m.Bound where
  orderly := build_orderly h
  laidOut := build_laidOut h
  parent b j joint t hb ht := by
    obtain ⟨n, c, hc, hjoints, hinboard, hlayout⟩ := build_eq_ok h
    obtain ⟨-, old, hold, heq⟩ := inboardJoint?_placed hjoints hinboard hb
    obtain ⟨-, -, -, -, hlt⟩ := hc.inboardJoint? hold
    have hparent : joint.parent = old.parent := by rw [heq]
    rw [hlayout] at ht ⊢
    exact hc.placed_bodyTrees.parent b.val (by omega) j old t hold (hparent ▸ ht)

section
variable {m : Mechanism α} {t : TreeIndex} {b : BodyIndex} {j : JointIndex} {joint : Joint α} (hm : m.Bound)
include hm

/-- No other tree has the parent of such a body. -/
theorem Bound.onlyIn_parent (hb : m.inboardJoint? b = some (j, joint)) (h : m.layout.OnlyIn t b) :
    m.layout.OnlyIn t joint.parent := fun u hu => h u (hm.parent b j joint u hb hu)

/-- The joint of such a body has its velocities in the tree. -/
theorem Bound.within (hb : m.inboardJoint? b = some (j, joint)) (h : m.layout.OnlyIn t b) {i : ℕ}
    (hi : i < joint.dofs) :
    m.layout.Within t (joint.velocityStart + i) := by
  have hmem : (j, joint) ∈ m.chain b := by
    rw [chain, hb]
    exact List.mem_cons_self ..
  obtain ⟨u, hu, hwithin⟩ := hm.orderly b _ hmem _ (Nat.le_add_right ..) (Nat.add_lt_add_left hi _)
  exact h u hu ▸ hwithin

/-- The joints on its way to the world carry bodies that no other tree has. -/
theorem Bound.exists_onlyIn (h : m.layout.OnlyIn t b) {found : JointIndex × Joint α}
    (hfound : found ∈ m.chain b) :
    ∃ b', m.layout.OnlyIn t b' ∧ m.inboardJoint? b' = some found := by
  obtain ⟨n, hn⟩ : ∃ n, b.val = n := ⟨_, rfl⟩
  induction n using Nat.strong_induction_on generalizing b with
  | _ n ih =>
    rw [chain] at hfound
    cases hb : m.inboardJoint? b with
    | none => simp [hb] at hfound
    | some first =>
      obtain ⟨j, joint⟩ := first
      simp only [hb, List.mem_cons] at hfound
      rcases hfound with rfl | htail
      · exact ⟨b, h, hb⟩
      · split at htail
        · rename_i hlt
          exact ih _ (hn ▸ hlt) (hm.onlyIn_parent hb h) htail rfl
        · cases htail

end

/-! ### Poses -/

section
variable {m : Mechanism α} {t : TreeIndex}

/-- What is placed body by body is the same for the bodies that no other tree has, if each step keeps it
    so. -/
theorem getD_foldl_movableBodies {β : Type} {d start : β} {f g : Array β → BodyIndex → Array β}
    (hstep : ∀ xs ys b, (∀ b', m.layout.OnlyIn t b' → xs.getD b'.val d = ys.getD b'.val d) →
      ∃ x y, f xs b = xs.push x ∧ g ys b = ys.push y ∧ (m.layout.OnlyIn t b → x = y))
    {b : BodyIndex} (hb : m.layout.OnlyIn t b) :
    (m.movableBodies.foldl f #[start]).getD b.val d = (m.movableBodies.foldl g #[start]).getD b.val d := by
  have hall : ∀ n, (((List.range' 1 n).map BodyIndex.mk).foldl f #[start]).size = 1 + n ∧
      (((List.range' 1 n).map BodyIndex.mk).foldl g #[start]).size = 1 + n ∧
      ∀ b : BodyIndex, m.layout.OnlyIn t b →
        (((List.range' 1 n).map BodyIndex.mk).foldl f #[start]).getD b.val d =
          (((List.range' 1 n).map BodyIndex.mk).foldl g #[start]).getD b.val d := by
    intro n
    induction n with
    | zero => exact ⟨rfl, rfl, fun _ _ => rfl⟩
    | succ n ih =>
      obtain ⟨hsize, hsize', hsame⟩ := ih
      obtain ⟨x, y, hx, hy, hxy⟩ := hstep _ _ ⟨1 + n⟩ hsame
      rw [List.range'_1_concat, List.map_append, List.foldl_append, List.foldl_append,
        List.map_singleton, List.foldl_cons,
        List.foldl_nil, List.foldl_cons, List.foldl_nil, hx, hy]
      refine ⟨by rw [Array.size_push, hsize]; omega, by rw [Array.size_push, hsize']; omega, fun b' hb' => ?_⟩
      rw [getD_push, getD_push, hsize, hsize']
      split
      · rename_i hlast
        obtain ⟨b'⟩ := b'
        obtain rfl : b' = 1 + n := hlast
        exact hxy hb'
      · exact hsame b' hb'
  exact (hall _).2.2 b hb

variable [Scalar α] {b : BodyIndex} {q q' : Vec α} {k k' : PositionKinematics α} {p : Vec3 α}

/-- The same to a tree: the poses of the bodies that no other tree has, and the frames that these hang on. -/
structure SameKinematics (m : Mechanism α) (t : TreeIndex) (k k' : PositionKinematics α) : Prop where
  pose : ∀ b, m.layout.OnlyIn t b → k.bodyPose b = k'.bodyPose b
  frame : ∀ b j joint, m.layout.OnlyIn t b → m.inboardJoint? b = some (j, joint) →
  k.jointFrame j = k'.jointFrame j

theorem Bound.bodyPoses_same (hm : m.Bound) (hq : ∀ i, m.layout.Within t i → q i = q' i)
    (hb : m.layout.OnlyIn t b) :
    (m.bodyPoses q).getD b.val .identity = (m.bodyPoses q').getD b.val .identity := by
  refine getD_foldl_movableBodies (fun poses poses' b hsame => ?_) hb
  rw [placeBody, placeBody]
  cases hfound : m.inboardJoint? b with
  | none => exact ⟨_, _, rfl, rfl, fun _ => rfl⟩
  | some found =>
    obtain ⟨j, joint⟩ := found
    refine ⟨_, _, rfl, rfl, fun hb => ?_⟩
    rw [jointFrame, jointFrame, hsame _ (hm.onlyIn_parent hfound hb),
      joint.kind.motion_congr fun i hi => hq _ (hm.within hfound hb hi)]

/-- Positions that agree on a tree are the same to it. -/
theorem Bound.sameKinematics (hm : m.Bound) (hq : ∀ i, m.layout.Within t i → q i = q' i)
    (hk : m.positionKinematics q = .ok k) (hk' : m.positionKinematics q' = .ok k') :
    m.SameKinematics t k k' := by
  obtain ⟨-, -, rfl⟩ := positionKinematics_eq_ok_iff.mp hk
  obtain ⟨-, -, rfl⟩ := positionKinematics_eq_ok_iff.mp hk'
  refine ⟨fun b hb => hm.bodyPoses_same hq hb, fun b j joint hb hfound => ?_⟩
  obtain ⟨j', -, hjoint⟩ := Option.bind_eq_some_iff.mp hfound
  obtain ⟨joint', hget, heq⟩ := Option.map_eq_some_iff.mp hjoint
  cases heq
  have hget : m.joints[j.val]? = some joint := hget
  simp only [PositionKinematics.jointFrame, Array.getD_eq_getD_getElem?, Array.getElem?_map, hget,
    Option.map_some, Option.getD_some]
  rw [jointFrame, jointFrame, hm.bodyPoses_same hq (hm.onlyIn_parent hfound hb)]

/-! ### Jacobians -/

theorem owner?_congr {chain : List (JointIndex × Joint α)}
    (h : ∀ found ∈ chain, k.jointFrame found.1 = k'.jointFrame found.1)
    (i : ℕ) : owner? k chain i = owner? k' chain i := by
  rw [owner?, owner?]
  cases hfound : chain.find? _ with
  | none => rfl
  | some found =>
    have hframe := h found (List.mem_of_find?_eq_some hfound)
    simp only [Option.map_some, hframe]

section
variable (hm : m.Bound) (hk : m.SameKinematics t k k') (hb : m.layout.OnlyIn t b)
include hm hk hb

theorem Bound.owner?_same (i : ℕ) : owner? k (m.chain b) i = owner? k' (m.chain b) i := by
  refine owner?_congr (fun found hfound => ?_) i
  obtain ⟨b', hb', hfound'⟩ := hm.exists_onlyIn hb hfound
  exact hk.frame b' _ _ hb' hfound'

theorem Bound.translationalJacobian_same :
    m.translationalJacobian k b p = m.translationalJacobian k' b p := by
  rw [translationalJacobian, translationalJacobian]
  simp only [hm.owner?_same hk hb]

theorem Bound.angularJacobian_same : m.angularJacobian k b = m.angularJacobian k' b := by
  rw [angularJacobian, angularJacobian]
  simp only [hm.owner?_same hk hb]

end

end

end Mechanism

/-! ### The mass matrix -/

/-- A block is its entries. -/
theorem Mat.diagonalBlock_congr {a b : Mat ℝ} {start n : ℕ}
    (h : ∀ i < n, ∀ j < n, a (start + i) (start + j) = b (start + i) (start + j)) :
    a.diagonalBlock start n = b.diagonalBlock start n := by
  refine Mat.ext rfl rfl fun i (hi : i < n) j (hj : j < n) => ?_
  rw [diagonalBlock, diagonalBlock, get_ofFn_of_lt hi hj, get_ofFn_of_lt hi hj, h i hi j hj]

namespace Mechanism

section
variable {m : Mechanism ℝ} {t : TreeIndex} {k k' : PositionKinematics ℝ} {i j : ℕ} (hm : m.Bound)
  (hk : m.SameKinematics t k k')
include hm hk

theorem Bound.massTerm_same {b : BodyIndex} (hb : m.layout.OnlyIn t b) (body : Body ℝ) :
    m.massTerm k b body = m.massTerm k' b body := by
  rw [massTerm, massTerm, comPosition, comPosition, hk.pose b hb, hm.translationalJacobian_same hk hb,
    hm.angularJacobian_same hk hb]

/-- The mass matrix has the same block for the tree. -/
theorem Bound.rigidMassMatrix_same (hi : m.layout.Within t i) (hj : m.layout.Within t j) :
    m.rigidMassMatrix k i j = m.rigidMassMatrix k' i j := by
  rw [rigidMassMatrix_get (hm.laidOut.lt_of_within hi) (hm.laidOut.lt_of_within hj),
    rigidMassMatrix_get (hm.laidOut.lt_of_within hi) (hm.laidOut.lt_of_within hj)]
  refine congrArg List.sum (List.map_congr_left fun found _ => ?_)
  by_cases hb : m.layout.OnlyIn t found.1
  · rw [hm.massTerm_same hk hb]
  · have hzero := TreeLayout.not_within_of_not_onlyIn hb hj
    rw [hm.orderly.entry_eq_zero hzero, hm.orderly.entry_eq_zero hzero]

/-- So has the matrix with inertia added that is the same to the tree. -/
theorem Bound.diagonalBlock_same {d d' : Vec ℝ} (hd : ∀ i, m.layout.Within t i → d i = d' i) :
    ((m.rigidMassMatrix k).addDiagonal d).diagonalBlock (m.layout.start t) (m.layout.size t) =
      ((m.rigidMassMatrix k').addDiagonal d').diagonalBlock (m.layout.start t) (m.layout.size t) := by
  refine Mat.diagonalBlock_congr fun i hi j hj => ?_
  have hi : m.layout.Within t (m.layout.start t + i) := ⟨Nat.le_add_right .., Nat.add_lt_add_left hi _⟩
  have hj : m.layout.Within t (m.layout.start t + j) := ⟨Nat.le_add_right .., Nat.add_lt_add_left hj _⟩
  have hlt := hm.laidOut.lt_of_within hi
  have hlt' := hm.laidOut.lt_of_within hj
  rw [addDiagonal_get hlt hlt', addDiagonal_get hlt hlt', hm.rigidMassMatrix_same hk hi hj, hd _ hi]

/-! ### Forces that the motion asks for -/

theorem Bound.biasMotions_same {v v' : Vec ℝ} (hv : ∀ i, m.layout.Within t i → v i = v' i) {b : BodyIndex}
    (hb : m.layout.OnlyIn t b) : (m.biasMotions k v).getD b.val .rest =
      (m.biasMotions k' v').getD b.val .rest := by
  refine getD_foldl_movableBodies (fun motions motions' b hsame => ?_) hb
  rw [placeMotion, placeMotion]
  cases hfound : m.inboardJoint? b with
  | none => exact ⟨_, _, rfl, rfl, fun _ => rfl⟩
  | some found =>
    obtain ⟨j, joint⟩ := found
    refine ⟨_, _, rfl, rfl, fun hb => ?_⟩
    have hparent := hm.onlyIn_parent hfound hb
    have hchild : joint.child = b := hm.laidOut.child b j joint hfound
    have hrelative := relativeVelocity_congr (k'.jointFrame j) joint.kind fun i hi =>
      hv _ (hm.within hfound hb hi)
    rw [hchild, hsame _ hparent, hk.frame b j joint hb hfound, hk.pose b hb, hk.pose _ hparent]
    exact congrArg (fun moved => childMotion _ _ moved.1 moved.2) hrelative

end

end Mechanism

theorem Columns.get_transposeMulVec (c : Columns ℝ) (u : Vec3 ℝ) (i : ℕ) :
    c.transposeMulVec u i = (c i).dot u := by
  rw [transposeMulVec, Vec.get_ofFn]
  split
  · rfl
  · rename_i hi
    have hzero : c i = 0 := by
      rw [get, Array.getD_eq_getD_getElem?, Array.getElem?_eq_none (not_lt.mp hi), Option.getD_none]
    rw [hzero]
    simp [Vec3.dot]

namespace Mechanism

variable {m : Mechanism ℝ} {t : TreeIndex} {k k' : PositionKinematics ℝ} (hm : m.Bound)

section
include hm

/-- What acts on a body at a point does the same along the velocities of the tree, if it is the same on
    the bodies that no other tree has. On the others it does nothing there. -/
theorem Bound.along_same (hk : m.SameKinematics t k k') {b : BodyIndex}
    {p p' force force' torque torque' : Vec3 ℝ}
    (h : m.layout.OnlyIn t b → p = p' ∧ force = force' ∧ torque = torque') {v w : Vec ℝ}
    (hvw : m.layout.Same t v w) :
    m.layout.Same t (v + (m.translationalJacobian k b p).transposeMulVec force +
      (m.angularJacobian k b).transposeMulVec torque)
      (w + (m.translationalJacobian k' b p').transposeMulVec force' +
        (m.angularJacobian k' b).transposeMulVec torque') := by
  have hsize : ∀ {k p force}, ((m.translationalJacobian k b p).transposeMulVec force).size =
      m.numVelocities := fun {_ _ _} =>
    (Vec.size_ofFn ..).trans size_translationalJacobian
  have hsize' : ∀ {k torque}, ((m.angularJacobian k b).transposeMulVec torque).size = m.numVelocities :=
      fun {_ _} =>
    (Vec.size_ofFn ..).trans (Columns.size_ofFn ..)
  refine (hvw.add ⟨hsize.trans hsize.symm, fun i hi => ?_⟩).add ⟨hsize'.trans hsize'.symm, fun i hi => ?_⟩
  · rw [Columns.get_transposeMulVec, Columns.get_transposeMulVec]
    by_cases hb : m.layout.OnlyIn t b
    · obtain ⟨rfl, rfl, -⟩ := h hb
      rw [hm.translationalJacobian_same hk hb]
    · have hzero := TreeLayout.not_within_of_not_onlyIn hb hi
      rw [hm.orderly.translationalJacobian_eq_zero hzero, hm.orderly.translationalJacobian_eq_zero hzero]
      simp [Vec3.dot]
  · rw [Columns.get_transposeMulVec, Columns.get_transposeMulVec]
    by_cases hb : m.layout.OnlyIn t b
    · obtain ⟨-, -, rfl⟩ := h hb
      rw [hm.angularJacobian_same hk hb]
    · have hzero := TreeLayout.not_within_of_not_onlyIn hb hi
      rw [hm.orderly.angularJacobian_eq_zero hzero, hm.orderly.angularJacobian_eq_zero hzero]
      simp [Vec3.dot]

theorem Bound.biasForces_same (hk : m.SameKinematics t k k') {v v' bias bias' : Vec ℝ}
    (hv : ∀ i, m.layout.Within t i → v i = v' i) (hbias : m.biasForces k v = .ok bias)
    (hbias' : m.biasForces k' v' = .ok bias') :
    m.layout.Same t bias bias' := by
  simp only [biasForces, bind_eq_ok_iff] at hbias hbias'
  obtain ⟨_, -, hbias⟩ := hbias
  obtain ⟨_, -, hbias'⟩ := hbias'
  cases hbias
  cases hbias'
  refine List.foldl_rel (TreeLayout.Same.refl _) fun found _ v w hvw => ?_
  obtain ⟨b, body⟩ := found
  refine hm.along_same hk (fun hb => ?_) hvw
  rw [hm.biasMotions_same hk hv hb, hk.pose b hb]
  exact ⟨rfl, rfl, rfl⟩

end

end Mechanism

/-! ### Applied forces -/

/-- Forces that are the same to a tree: along its velocities, and on the bodies that no other tree has. -/
structure Forces.Same (m : Mechanism ℝ) (t : TreeIndex) (f f' : Forces ℝ) : Prop where
  generalized : m.layout.Same t f.generalized f'.generalized
  size : f.bodies.size = f'.bodies.size
  body : ∀ b, m.layout.OnlyIn t b → f.bodies.getD b.val 0 = f'.bodies.getD b.val 0

namespace Forces.Same

variable {m : Mechanism ℝ} {t : TreeIndex} {f f' : Forces ℝ} {k k' : PositionKinematics ℝ} {q q' v v' : Vec ℝ}

theorem addBody (h : Same m t f f') {b : BodyIndex} {g g' : SpatialForce ℝ}
    (hg : m.layout.OnlyIn t b → g = g') :
    Same m t (f.addBody b g) (f'.addBody b g') where
  generalized := h.generalized
  size := by
    rw [Forces.addBody, Forces.addBody, Array.size_modify, Array.size_modify, h.size]
  body b' hb' := by
    have hbody := h.body b' hb'
    simp only [Forces.addBody, Array.getD_eq_getD_getElem?, Array.getElem?_modify] at hbody ⊢
    split
    · rename_i hsame
      obtain ⟨b⟩ := b
      obtain rfl : b = b'.val := hsame
      rw [hg hb']
      by_cases hlt : b'.val < f.bodies.size
      · rw [Array.getElem?_eq_getElem hlt, Array.getElem?_eq_getElem (h.size ▸ hlt)] at hbody ⊢
        simpa using congrArg (· + g') hbody
      · rw [Array.getElem?_eq_none (not_lt.mp hlt), Array.getElem?_eq_none (h.size ▸ not_lt.mp hlt)]
    · exact hbody

theorem addWeight (h : Same m t f f') (hk : m.SameKinematics t k k') (g : Vec3 ℝ) (b : BodyIndex) :
    Same m t (ForceElement.addWeight m g k f b) (ForceElement.addWeight m g k' f' b) := by
  rw [ForceElement.addWeight, ForceElement.addWeight]
  split
  · exact h
  · split
    · exact h
    · exact h.addBody fun hb => by rw [hk.pose b hb]

/-- Uniform gravity pulls at each body by itself. -/
theorem gravity (h : Same m t f f') (hk : m.SameKinematics t k k') (g : Vec3 ℝ) :
    Same m t ((ForceElement.gravity g).addForces m k q v f)
      ((ForceElement.gravity g).addForces m k' q' v' f') :=
  List.foldl_rel h fun b _ _ _ h => h.addWeight hk g b

/-- A spring pulls along one velocity, by its position. -/
theorem spring (h : Same m t f f') (hq : ∀ i, m.layout.Within t i → q i = q' i) (j : JointIndex)
    (stiffness rest : ℝ) :
    Same m t ((ForceElement.spring j stiffness rest).addForces m k q v f)
      ((ForceElement.spring j stiffness rest).addForces m k' q' v' f') := by
  dsimp only [ForceElement.spring]
  cases m.joint? j with
  | none => exact h
  | some joint =>
    refine ⟨⟨?_, fun i hi => ?_⟩, h.size, h.body⟩
    · rw [Vec.size_ofFn, Vec.size_ofFn, h.generalized.size]
    · rw [Vec.get_ofFn, Vec.get_ofFn, h.generalized.size, h.generalized.entry i hi]
      by_cases hplace : i = joint.velocityStart
      · subst hplace
        rw [h.generalized.entry _ hi, hq _ hi]
      · rw [if_neg hplace, if_neg hplace]

end Forces.Same

namespace Mechanism

variable {m : Mechanism ℝ} {t : TreeIndex} {k k' : PositionKinematics ℝ} {f f' : Forces ℝ}

/-- Without a force a body adds nothing. -/
theorem spatialForceTerm_eq (tau : Vec ℝ) (b : BodyIndex) (g : SpatialForce ℝ) :
    m.spatialForceTerm k tau (b, g) =
    tau + (m.translationalJacobian k b (k.bodyPose b).position).transposeMulVec g.force +
      (m.angularJacobian k b).transposeMulVec g.torque := by
  rw [spatialForceTerm]
  split
  · rename_i hzero
    have hisZero : ∀ u : Vec3 ℝ, u.isZero = true → u = 0 := by
      intro u hu
      simp only [Vec3.isZero, Scalar.isZero, Bool.and_eq_true, decide_eq_true_eq] at hu
      exact Vec3.ext (le_antisymm hu.1.1.1 hu.1.1.2) (le_antisymm hu.1.2.1 hu.1.2.2)
        (le_antisymm hu.2.1 hu.2.2)
    obtain ⟨hforce, htorque⟩ := Bool.and_eq_true_iff.mp hzero
    rw [hisZero _ hforce, hisZero _ htorque, Columns.add_transposeMulVec_zero,
      Columns.add_transposeMulVec_zero]
  · rfl

theorem Bound.generalizedForces_same (hm : m.Bound) (hk : m.SameKinematics t k k') (hf : Forces.Same m t f f')
    {applied applied' : Vec ℝ} (h : m.generalizedForces k f = .ok applied)
    (h' : m.generalizedForces k' f' = .ok applied') :
    m.layout.Same t applied applied' := by
  obtain ⟨-, rfl⟩ := generalizedForces_eq_ok h
  obtain ⟨-, rfl⟩ := generalizedForces_eq_ok h'
  rw [List.foldl_map, List.foldl_map]
  refine List.foldl_rel hf.generalized fun b _ v w hvw => ?_
  rw [spatialForceTerm_eq, spatialForceTerm_eq]
  exact hm.along_same hk (fun hb => by rw [hf.body b hb, hk.pose b hb]; exact ⟨rfl, rfl, rfl⟩) hvw

/-! ### Forward dynamics -/

/-- The accelerations of a tree follow from what there is of the tree. -/
theorem Bound.forwardDynamics_same (hm : m.Bound) (hk : m.SameKinematics t k k')
    {v v' added added' acc acc' : Vec ℝ}
    (hv : ∀ i, m.layout.Within t i → v i = v' i) (hadded : ∀ i, m.layout.Within t i → added i = added' i)
    (hf : Forces.Same m t f f') (h : m.forwardDynamics k v added f = .ok acc)
    (h' : m.forwardDynamics k' v' added' f' = .ok acc') : m.layout.Same t acc acc' := by
  obtain ⟨-, hsize, applied, bias, happlied, hbias, hsolved⟩ := forwardDynamics_trees hm.laidOut h
  obtain ⟨-, hsize', applied', bias', happlied', hbias', hsolved'⟩ := forwardDynamics_trees hm.laidOut h'
  by_cases ht : t ∈ m.layout.trees
  · have hrhs := (hm.generalizedForces_same hk hf happlied happlied').sub
      (hm.biasForces_same hk hv hbias hbias')
    have hsolve := hsolved t ht
    rw [solveTree, hm.diagonalBlock_same hk hadded, hrhs.slice] at hsolve
    exact .of_slice (hsize.trans hsize'.symm) (Except.ok.inj (hsolve.symm.trans (hsolved' t ht)))
  · exact ⟨hsize.trans hsize'.symm, fun i hi => absurd hi.mem_trees ht⟩

end Mechanism

end CompliantContact
