import CompliantContact.Proofs.Mechanism.Transport

/-!
What is worked out outward, from the world to the bodies.

The poses and the motions of the bodies are worked out one after another, each from that of the parent.
Parents come first, so in the end each body has what its joint makes of the end of its parent
(`Mechanism.ComesFrom.getD_foldl_outward`), and what holds of the world and passes along joints holds of
every body (`Mechanism.ComesFrom.outward`). The angular velocities that the Jacobians give, which look
inward, pass outward as well: each joint adds its own
(`Mechanism.LaidOut.mulVec_angularJacobian_of_inboard`).
-/

namespace CompliantContact

open Outcome

theorem JointKind.isUnit_motion (kind : JointKind ℝ) (q : ℕ → ℝ) : (kind.motion q).rotation.IsUnit := by
  cases kind with
  | revolute a => exact Rotation.isUnit_ofScaledAxis a (q 0)
  | _ => exact Rotation.isUnit_identity

namespace Mechanism

section
variable {α : Type} {m : Mechanism α} {c : Connections α} (h : m.ComesFrom c)
include h

/-- What holds of the world, and of a body if it holds of the parent, holds of all bodies. -/
theorem ComesFrom.outward {P : BodyIndex → Prop} (start : ∀ b, m.inboardJoint? b = none → P b)
    (next : ∀ b j joint, m.inboardJoint? b = some (j, joint) → P joint.parent → P b)
    (b : BodyIndex) : P b := by
  have hway := h.way_chain b
  generalize m.chain b = way at hway
  induction hway with
  | arrived hb => exact start _ hb
  | step hb _ ih => exact next _ _ _ hb ih

/-- What is worked out body by body is at the end what the step makes of the end of the parent. -/
theorem ComesFrom.getD_foldl_outward {β : Type} {d : β} {f : Array β → BodyIndex → Array β}
    (next : BodyIndex → JointIndex → Joint α → β → β)
    (hnone : ∀ xs b, m.inboardJoint? b = none → f xs b = xs.push d)
    (hsome : ∀ xs b j joint, m.inboardJoint? b = some (j, joint) →
      f xs b = xs.push (next b j joint (xs.getD joint.parent.val d))) (b : BodyIndex) :
    (m.inboardJoint? b = none → (m.movableBodies.foldl f #[d]).getD b.val d = d) ∧
      ∀ j joint, m.inboardJoint? b = some (j, joint) → (m.movableBodies.foldl f #[d]).getD b.val d =
        next b j joint ((m.movableBodies.foldl f #[d]).getD joint.parent.val d) := by
  -- So it is with the bodies so far, which include their parents.
  have hall : ∀ n, (((List.range' 1 n).map BodyIndex.mk).foldl f #[d]).size = 1 + n ∧
    ∀ b : BodyIndex, b.val < 1 + n →
      (m.inboardJoint? b = none → (((List.range' 1 n).map BodyIndex.mk).foldl f #[d]).getD b.val d = d) ∧
        ∀ j joint, m.inboardJoint? b = some (j, joint) →
        (((List.range' 1 n).map BodyIndex.mk).foldl f #[d]).getD b.val d =
          next b j joint ((((List.range' 1 n).map BodyIndex.mk).foldl f #[d]).getD joint.parent.val d) := by
    intro n
    induction n with
    | zero =>
      refine ⟨rfl, fun b hb => ?_⟩
      obtain rfl : b = .world := congrArg BodyIndex.mk (Nat.lt_one_iff.mp hb)
      exact ⟨fun _ => rfl, fun j joint hfound => by cases h.inboardJoint?_world.symm.trans hfound⟩
    | succ n ih =>
      obtain ⟨hsize, hearlier⟩ := ih
      rw [List.range'_1_concat, List.map_append, List.foldl_append, List.map_singleton, List.foldl_cons,
        List.foldl_nil]
      generalize ((List.range' 1 n).map BodyIndex.mk).foldl f #[d] = xs at *
      obtain ⟨x, hx, hxnone, hxsome⟩ : ∃ x, f xs ⟨1 + n⟩ = xs.push x ∧
        (m.inboardJoint? ⟨1 + n⟩ = none → x = d) ∧
          ∀ j joint, m.inboardJoint? ⟨1 + n⟩ = some (j, joint) →
          x = next ⟨1 + n⟩ j joint (xs.getD joint.parent.val d) := by
        cases hlast : m.inboardJoint? ⟨1 + n⟩ with
        | none => exact ⟨_, hnone xs _ hlast, fun _ => rfl, nofun⟩
        | some found =>
          refine ⟨_, hsome xs _ _ _ hlast, nofun, fun j joint hfound => ?_⟩
          cases hfound
          rfl
      rw [hx]
      refine ⟨by rw [Array.size_push, hsize, Nat.add_assoc], fun b hb => ?_⟩
      have hparent : ∀ j joint, m.inboardJoint? b = some (j, joint) →
          (xs.push x).getD joint.parent.val d = xs.getD joint.parent.val d := by
        intro j joint hfound
        have hlt := (h.inboardJoint? hfound).2.2.1
        rw [getD_push, if_neg (by omega)]
      rw [getD_push, hsize]
      split
      · rename_i hlast
        obtain rfl : b = ⟨1 + n⟩ := congrArg BodyIndex.mk hlast
        exact ⟨hxnone, fun j joint hfound => by rw [hparent j joint hfound, hxsome j joint hfound]⟩
      · obtain ⟨hstart, hnext⟩ := hearlier b (by omega)
        exact ⟨hstart, fun j joint hfound => by rw [hparent j joint hfound, hnext j joint hfound]⟩
  obtain ⟨hsize, hbodies⟩ := hall (m.numBodies - 1)
  by_cases hb : b.val < 1 + (m.numBodies - 1)
  · exact hbodies b hb
  · refine ⟨fun _ => ?_, fun j joint hfound => ?_⟩
    · rw [Array.getD_eq_getD_getElem?, Array.getElem?_eq_none (by rw [movableBodies]; omega),
        Option.getD_none]
    · have hlt := (h.inboardJoint? hfound).2.2.2
      omega

end

/-! ### Poses -/

section
variable {α : Type} [Scalar α] {m : Mechanism α} {c : Connections α} {b : BodyIndex} {j : JointIndex}
    {joint : Joint α}

/-- The bodies and the joint frames, where positions put them. -/
def placed (m : Mechanism α) (q : Vec α) : PositionKinematics α :=
  ⟨m.bodyPoses q, m.joints.map (jointFrame (m.bodyPoses q))⟩

/-- The frame of a joint is fixed on the parent. -/
theorem ComesFrom.jointFrame_of_inboard (h : m.ComesFrom c) (q : Vec α)
    (hb : m.inboardJoint? b = some (j, joint)) :
    (m.placed q).jointFrame j = (m.placed q).bodyPose joint.parent * joint.offset := by
  have hget : m.joints[j.val]? = some joint := (h.inboardJoint? hb).1
  rw [PositionKinematics.jointFrame, placed, Array.getD_eq_getD_getElem?, Array.getElem?_map, hget]
  rfl

theorem ComesFrom.bodyPose_outward (h : m.ComesFrom c) (q : Vec α) (b : BodyIndex) :
    (m.inboardJoint? b = none → (m.placed q).bodyPose b = .identity) ∧
      ∀ j joint, m.inboardJoint? b = some (j, joint) → (m.placed q).bodyPose b =
        (m.placed q).bodyPose joint.parent * joint.offset * joint.kind.motion fun i =>
          q (joint.velocityStart + i) := by
  refine h.getD_foldl_outward (fun _ _ joint pose => pose * joint.offset *
    joint.kind.motion fun i => q (joint.velocityStart + i)) (fun poses b hb =>
      ?_) (fun poses b j joint hb => ?_) b
  · rw [placeBody, hb]
  · rw [placeBody, hb]
    rfl

/-- A body that hangs on nothing is where the world is. -/
theorem ComesFrom.bodyPose_of_none (h : m.ComesFrom c) (q : Vec α) (hb : m.inboardJoint? b = none) :
    (m.placed q).bodyPose b = .identity :=
  (h.bodyPose_outward q b).1 hb

/-- A joint moves a body out of its frame. -/
theorem ComesFrom.bodyPose_of_inboard (h : m.ComesFrom c) (q : Vec α)
    (hb : m.inboardJoint? b = some (j, joint)) :
    (m.placed q).bodyPose b = (m.placed q).jointFrame j * joint.kind.motion fun i =>
      q (joint.velocityStart + i) := by
  rw [h.jointFrame_of_inboard q hb]
  exact (h.bodyPose_outward q b).2 j joint hb

/-! ### Motions -/

theorem ComesFrom.biasMotion_outward (h : m.ComesFrom c) (k : PositionKinematics α) (v : Vec α)
    (b : BodyIndex) :
    (m.inboardJoint? b = none → (m.biasMotions k v).getD b.val .rest = .rest) ∧
      ∀ j joint, m.inboardJoint? b = some (j, joint) → (m.biasMotions k v).getD b.val .rest =
        childMotion ((m.biasMotions k v).getD joint.parent.val .rest)
          ((k.bodyPose b).position - (k.bodyPose joint.parent).position)
          (relativeVelocity (k.jointFrame j) joint.kind fun i => v (joint.velocityStart + i)).1
          (relativeVelocity (k.jointFrame j) joint.kind fun i => v (joint.velocityStart + i)).2 := by
  refine h.getD_foldl_outward (fun b j joint motion => childMotion motion
    ((k.bodyPose b).position - (k.bodyPose joint.parent).position)
    (relativeVelocity (k.jointFrame j) joint.kind fun i => v (joint.velocityStart + i)).1
    (relativeVelocity (k.jointFrame j) joint.kind fun i => v (joint.velocityStart + i)).2)
    (fun motions b hb => ?_) (fun motions b j joint hb => ?_) b
  · rw [placeMotion, hb]
  · rw [placeMotion, hb, ← (h.inboardJoint? hb).2.1]

end

/-! ### Rotations of length one -/

/-- The joints sit in their parents by proper rotations. -/
def UnitOffsets (m : Mechanism ℝ) : Prop := ∀ joint ∈ m.joints, joint.offset.rotation.IsUnit

theorem build_unitOffsets {bodies : List (Body ℝ)} {joints : List (Joint ℝ)} {m : Mechanism ℝ}
    (h : build bodies joints = .ok m) (hunit : ∀ joint ∈ joints, joint.offset.rotation.IsUnit) :
    m.UnitOffsets := by
  obtain ⟨c, hc, hgiven⟩ := build_comesFrom h
  intro joint hjoint
  obtain ⟨i, hget⟩ := Array.getElem?_of_mem hjoint
  rw [hc.joints] at hget
  obtain ⟨old, hold, heq⟩ := Connections.getElem?_foldl_placeVelocities _ _ hget
  obtain ⟨given, hmem, hnormal⟩ :=
    exists_mem_of_map_eq_ok hgiven.symm (Array.mem_toList_iff.mpr (Array.mem_of_getElem? hold))
  rw [heq, Connections.normalizeAxis_eq_ok hnormal]
  exact hunit given hmem

section
variable {m : Mechanism ℝ} {c : Connections ℝ} {b : BodyIndex} {j : JointIndex} {joint : Joint ℝ}

theorem ComesFrom.isUnit_bodyPose (h : m.ComesFrom c) (hunit : m.UnitOffsets) (q : Vec ℝ) (b : BodyIndex) :
    ((m.placed q).bodyPose b).rotation.IsUnit := by
  induction b using h.outward with
  | start b hb =>
    rw [h.bodyPose_of_none q hb]
    exact Rotation.isUnit_identity
  | next b j joint hb ih =>
    rw [h.bodyPose_of_inboard q hb, h.jointFrame_of_inboard q hb]
    exact (ih.mul (hunit joint (Array.mem_of_getElem? (h.inboardJoint? hb).1))).mul
      (joint.kind.isUnit_motion _)

theorem ComesFrom.isUnit_jointFrame (h : m.ComesFrom c) (hunit : m.UnitOffsets) (q : Vec ℝ)
    (hb : m.inboardJoint? b = some (j, joint)) : ((m.placed q).jointFrame j).rotation.IsUnit := by
  rw [h.jointFrame_of_inboard q hb]
  exact (h.isUnit_bodyPose hunit q _).mul (hunit joint (Array.mem_of_getElem? (h.inboardJoint? hb).1))

end

/-! ### Angular velocities -/

section
variable {m : Mechanism ℝ} (hm : m.LaidOut) {k : PositionKinematics ℝ} {v : Vec ℝ} {b : BodyIndex}
  {j : JointIndex} {joint : Joint ℝ}
include hm

theorem LaidOut.bodyVelocity_transport (o p : Vec3 ℝ) :
    m.bodyVelocity k v b p = m.bodyVelocity k v b o + ((m.angularJacobian k b).mulVec v).cross (p - o) := by
  rw [← hm.mulVec_translationalJacobian, ← hm.mulVec_translationalJacobian, mulVec_transport m k b o p]

/-- The world does not turn. -/
theorem LaidOut.mulVec_angularJacobian_of_none (hb : m.inboardJoint? b = none) :
    (m.angularJacobian k b).mulVec v = 0 := by
  refine Vec3.ext_cross fun u => ?_
  have htransport := hm.bodyVelocity_transport (k := k) (v := v) (b := b) 0 u
  rw [bodyVelocity_of_none hb, bodyVelocity_of_none hb, Vec3.sub_zero, Vec3.zero_add] at htransport
  rw [← htransport, Vec3.zero_cross]

/-- A body turns as its parent does, and as the joint makes it. -/
theorem LaidOut.mulVec_angularJacobian_of_inboard (hb : m.inboardJoint? b = some (j, joint))
    (hlt : joint.parent.val < b.val) :
    (m.angularJacobian k b).mulVec v = (m.angularJacobian k joint.parent).mulVec v +
      (relativeVelocity (k.jointFrame j) joint.kind fun i => v (joint.velocityStart + i)).1 := by
  refine Vec3.ext_cross fun u => ?_
  have htransport := hm.bodyVelocity_transport (k := k) (v := v) (b := b) 0 u
  rw [bodyVelocity_of_inboard hb hlt, bodyVelocity_of_inboard hb hlt, hm.bodyVelocity_transport 0 u,
    Vec3.sub_zero] at htransport
  generalize (m.angularJacobian k b).mulVec v = w at *
  generalize (m.angularJacobian k joint.parent).mulVec v = w' at *
  simp only [jointVelocity] at htransport
  generalize relativeVelocity (k.jointFrame j) joint.kind _ = moved at *
  simp only [Vec3.ext_iff, Vec3.cross, Vec3.add_x, Vec3.add_y, Vec3.add_z, Vec3.sub_x, Vec3.sub_y,
    Vec3.sub_z, Vec3.zero_x, Vec3.zero_y, Vec3.zero_z] at htransport ⊢
  obtain ⟨hx, hy, hz⟩ := htransport
  refine ⟨?_, ?_, ?_⟩
  · linear_combination -hx
  · linear_combination -hy
  · linear_combination -hz

end

end Mechanism

end CompliantContact
