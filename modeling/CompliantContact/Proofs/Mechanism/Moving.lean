import CompliantContact.Proofs.Mechanism.Outward
import CompliantContact.Proofs.Space.Turning

/-!
The velocities of the bodies are the rates of their poses.

As the positions change at the velocities, a joint moves its child out of its frame with the relative
velocities of the joint, and the frame moves with the parent. So body by body outward, the origin of
each body moves with the velocity that the translational Jacobian gives it there, and the body turns as
the angular Jacobian says (`Mechanism.ComesFrom.movesAt_bodyPose`). Every point of the body then moves
as its own translational Jacobian says (`Model.build_velocities`).
-/

namespace CompliantContact

open Outcome

/-! ### Joints -/

namespace Mechanism

theorem relativeVelocity_turned (frame : Pose ℝ) (kind : JointKind ℝ) (v : ℕ → ℝ) :
    relativeVelocity frame kind v =
    (frame.rotation.apply (relativeVelocity .identity kind v).1,
      frame.rotation.apply (relativeVelocity .identity kind v).2) := by
  cases kind <;>
    simp only [relativeVelocity, Pose.identity, Rotation.apply_identity, Rotation.apply_zero,
      Rotation.apply_mul]

/-- A joint that turns its child turns it in place. -/
theorem relativeVelocity_cross_motion (frame : Pose ℝ) (kind : JointKind ℝ) (v q : ℕ → ℝ) :
    (relativeVelocity frame kind v).1.cross (frame.rotation.apply (kind.motion q).position) = 0 := by
  cases kind with
  | revolute a => rw [JointKind.motion, Rotation.apply_zero, Vec3.cross_zero]
  | _ => exact Vec3.zero_cross _

end Mechanism

/-- A joint moves its child by its own velocities. -/
theorem JointKind.movesAt_motion (kind : JointKind ℝ) {q : ℝ → ℕ → ℝ} {v : ℕ → ℝ} {t : ℝ}
    (h : ∀ i, HasDerivAt (fun s => q s i) (v i) t) : Pose.MovesAt (fun s => kind.motion (q s))
      (Mechanism.relativeVelocity .identity kind v).1 (Mechanism.relativeVelocity .identity kind v).2 t := by
  cases kind with
  | weld => exact .const .identity t
  | revolute a =>
    refine ⟨?_, .const 0 t⟩
    rw [Mechanism.relativeVelocity, Pose.identity, Rotation.apply_identity]
    exact .ofScaledAxis a (h 0)
  | prismatic a =>
    refine ⟨.const .identity t, ((Vec3.HasRateAt.const a t).mul (h 0)).congr_rate ?_⟩
    rw [Mechanism.relativeVelocity, Pose.identity, Rotation.apply_identity, Vec3.zero_mul, Vec3.zero_add]
  | translational =>
    rw [Mechanism.relativeVelocity, Pose.identity, Rotation.apply_identity]
    exact ⟨.const .identity t, h 0, h 1, h 2⟩

/-! ### Bodies -/

namespace Mechanism

section
variable {m : Mechanism ℝ} {c : Connections ℝ} (h : m.ComesFrom c) (hm : m.LaidOut)
  (hunit : m.UnitOffsets) {q : ℝ → Vec ℝ}
  {v : Vec ℝ} {t : ℝ} {b : BodyIndex} {j : JointIndex} {joint : Joint ℝ}
include h hm

/-- The origin of a body moves as with the parent, and as the joint moves it. -/
theorem ComesFrom.bodyVelocity_origin (hb : m.inboardJoint? b = some (j, joint)) (q v : Vec ℝ) (o : Vec3 ℝ) :
    m.bodyVelocity (m.placed q) v b ((m.placed q).bodyPose b).position =
      m.bodyVelocity (m.placed q) v joint.parent o +
      ((m.angularJacobian (m.placed q) joint.parent).mulVec v).cross
        (((m.placed q).bodyPose b).position - o) +
      (relativeVelocity ((m.placed q).jointFrame j) joint.kind fun i => v (joint.velocityStart + i)).2 := by
  have hlever := Pose.position_mul_sub ((m.placed q).jointFrame j)
    (joint.kind.motion fun i => q (joint.velocityStart + i))
  have hplace := relativeVelocity_cross_motion ((m.placed q).jointFrame j) joint.kind
    (fun i => v (joint.velocityStart + i)) fun i => q (joint.velocityStart + i)
  rw [← h.bodyPose_of_inboard q hb] at hlever
  rw [bodyVelocity_of_inboard hb (h.inboardJoint? hb).2.2.1, hm.bodyVelocity_transport o]
  simp only [jointVelocity]
  rw [hlever, hplace]
  ext <;> simp <;> ring

include hunit

/-- The frame of a joint moves with the parent. -/
theorem ComesFrom.movesAt_jointFrame (hb : m.inboardJoint? b = some (j, joint))
    (hparent : Pose.MovesAt (fun s => (m.placed (q s)).bodyPose joint.parent)
      ((m.angularJacobian (m.placed (q t)) joint.parent).mulVec v)
      (m.bodyVelocity (m.placed (q t)) v joint.parent ((m.placed (q t)).bodyPose joint.parent).position) t) :
    Pose.MovesAt (fun s => (m.placed (q s)).jointFrame j)
      ((m.angularJacobian (m.placed (q t)) joint.parent).mulVec v)
      (m.bodyVelocity (m.placed (q t)) v joint.parent ((m.placed (q t)).jointFrame j).position) t := by
  have hlever := Pose.position_mul_sub ((m.placed (q t)).bodyPose joint.parent) joint.offset
  simp only [h.jointFrame_of_inboard _ hb]
  refine (hparent.mul (.const joint.offset t) (h.isUnit_bodyPose hunit (q t) joint.parent)).congr_rates ?_ ?_
  · rw [Rotation.apply_zero, Vec3.add_zero]
  · rw [Rotation.apply_zero, Vec3.add_zero, ← hlever, ← hm.bodyVelocity_transport]

/-- Each body moves as the velocities say, if the positions change so. -/
theorem ComesFrom.movesAt_bodyPose (hq : ∀ i, HasDerivAt (fun s => q s i) (v i) t) (b : BodyIndex) :
    Pose.MovesAt (fun s => (m.placed (q s)).bodyPose b) ((m.angularJacobian (m.placed (q t)) b).mulVec v)
      (m.bodyVelocity (m.placed (q t)) v b ((m.placed (q t)).bodyPose b).position) t := by
  induction b using h.outward with
  | start b hb =>
    rw [hm.mulVec_angularJacobian_of_none hb, bodyVelocity_of_none hb]
    simp only [h.bodyPose_of_none _ hb]
    exact .const .identity t
  | next b j joint hb ih =>
    have hframe := h.movesAt_jointFrame hm hunit hb ih
    have hmotion := joint.kind.movesAt_motion fun i => hq (joint.velocityStart + i)
    have hrelative := relativeVelocity_turned ((m.placed (q t)).jointFrame j) joint.kind fun i =>
      v (joint.velocityStart + i)
    have hlever := Pose.position_mul_sub ((m.placed (q t)).jointFrame j)
      (joint.kind.motion fun i => q t (joint.velocityStart + i))
    rw [← h.bodyPose_of_inboard _ hb] at hlever
    rw [hm.mulVec_angularJacobian_of_inboard hb (h.inboardJoint? hb).2.2.1,
      h.bodyVelocity_origin hm hb _ _ ((m.placed (q t)).jointFrame j).position, hlever, hrelative,
      Vec3.add_assoc]
    simp only [h.bodyPose_of_inboard _ hb]
    exact hframe.mul hmotion (h.isUnit_jointFrame hunit (q t) hb)

/-- And so does each point of it. -/
theorem ComesFrom.hasRateAt_point (hq : ∀ i, HasDerivAt (fun s => q s i) (v i) t) (b : BodyIndex)
    (p : Vec3 ℝ) :
    Vec3.HasRateAt (fun s => ((m.placed (q s)).bodyPose b).apply p)
      (m.bodyVelocity (m.placed (q t)) v b (((m.placed (q t)).bodyPose b).apply p)) t := by
  refine ((h.movesAt_bodyPose hm hunit hq b).apply (h.isUnit_bodyPose hunit (q t) b) p).congr_rate ?_
  rw [hm.bodyVelocity_transport ((m.placed (q t)).bodyPose b).position
    (((m.placed (q t)).bodyPose b).apply p), Pose.apply_sub_position]

end

/-! ### Positions that change at the velocities -/

theorem hasDerivAt_line {q v : Vec ℝ} (h : v.size = q.size) (i : ℕ) (t : ℝ) :
    HasDerivAt (fun s => (q + v * s) i) (v i) t := by
  have hentry : (fun s => (q + v * s) i) = fun s => q i + v i * s := by
    funext s
    by_cases hi : i < q.size
    · rw [Vec.get_add hi, Vec.get_mul]
    · rw [Vec.get_of_size_le (by rw [Vec.size_add]; omega), Vec.get_of_size_le (v := q) (by omega),
        Vec.get_of_size_le (v := v) (by omega), zero_mul, add_zero]
  rw [hentry]
  exact (((hasDerivAt_id t).const_mul (v i)).const_add (q i)).congr_deriv (mul_one _)

/-- Positions that have poses have them wherever they change to. -/
theorem positionKinematics_line {m : Mechanism ℝ} {q : Vec ℝ} {k : PositionKinematics ℝ}
    (hk : m.positionKinematics q = .ok k)
    (v : Vec ℝ) (t : ℝ) : m.positionKinematics (q + v * t) = .ok (m.placed (q + v * t)) := by
  obtain ⟨hsize, hwithin, -⟩ := positionKinematics_eq_ok_iff.mp hk
  exact positionKinematics_eq_ok_iff.mpr ⟨Vec.size_add.trans hsize, Vec.size_add (v := q) ▸ hwithin, rfl⟩

theorem placed_line_zero {m : Mechanism ℝ} {q : Vec ℝ} {k : PositionKinematics ℝ}
    (hk : m.positionKinematics q = .ok k) (v : Vec ℝ) : m.placed (q + v * (0 : ℝ)) = k := by
  have hline : q + v * (0 : ℝ) = q := Vec.ext Vec.size_add fun i hi => by
    rw [Vec.get_add (by rwa [Vec.size_add] at hi), Vec.get_mul, mul_zero, add_zero]
  rw [hline]
  exact (positionKinematics_eq_ok_iff.mp hk).2.2.symm

end Mechanism

/-! ### Models -/

/-- In every model the Jacobians give the rates at which the bodies move. As the positions change at the
    rates of given velocities, each point of a body moves as its translational Jacobian says, and the
    rotation of the body changes as its angular Jacobian says. The rotations in which joints sit in
    their parents are of length one. -/
theorem Model.build_velocities {bodies : List (Body ℝ)} {joints : List (Joint ℝ)}
    {elements : List (ForceElement ℝ)} {m : Model ℝ} (h : Model.build bodies joints elements = .ok m)
    (hunit : ∀ joint ∈ joints, joint.offset.rotation.IsUnit)
    {q v : Vec ℝ} {k : PositionKinematics ℝ} (hk : m.positionKinematics q = .ok k)
    (hv : v.size = m.numVelocities) :
    ∃ (rates : Vec ℝ) (path : ℝ → PositionKinematics ℝ), m.positionRates q v = .ok rates ∧
      (∀ t, m.positionKinematics (q + rates * t) = .ok (path t)) ∧ path 0 = k ∧ ∀ b,
        (∀ p, Vec3.HasRateAt (fun t => ((path t).bodyPose b).apply p)
          ((m.translationalJacobian k b ((k.bodyPose b).apply p)).mulVec v) 0) ∧
        Mat3.HasRateAt (fun t => ((path t).bodyPose b).rotation.toMat3)
          (((m.angularJacobian k b).mulVec v).crossMatrix * (k.bodyPose b).rotation.toMat3) 0 := by
  have hbuild := Model.build_mechanism h
  obtain ⟨c, hc, -⟩ := Mechanism.build_comesFrom hbuild
  have hlaid := Mechanism.build_laidOut hbuild
  have hunit := Mechanism.build_unitOffsets hbuild hunit
  have hstart : m.placed (q + v * (0 : ℝ)) = k := Mechanism.placed_line_zero hk v
  have hsize : v.size = q.size := hv.trans (Mechanism.positionKinematics_eq_ok_iff.mp hk).1.symm
  have hline := fun i => Mechanism.hasDerivAt_line hsize i 0
  refine ⟨v, fun t => m.placed (q + v * t), bind_eq_ok_iff.mpr ⟨(), requireSize_eq_ok_iff.mpr hv.symm, rfl⟩,
    Mechanism.positionKinematics_line hk v, hstart, fun b => ?_⟩
  rw [← hstart]
  refine ⟨fun p => ?_, (hc.movesAt_bodyPose hlaid hunit hline b).rotation.toMat3
    fun t => hc.isUnit_bodyPose hunit _ b⟩
  exact (hc.hasRateAt_point hlaid hunit hline b p).congr_rate (hlaid.mulVec_translationalJacobian ..).symm

/-! ### The bead and the arm in motion -/

theorem positionKinematics_arm : arm.positionKinematics armPositions = .ok armOut := by
  have hbodies : arm.movableBodies = [⟨1⟩, ⟨2⟩] := rfl
  have hspin : arm.placeBody armPositions #[.identity] ⟨1⟩ = #[.identity, .identity] := by
    have hmotion : (⟨0, .ofScaledAxis ((Vec3.unitZ : Vec3 ℝ) * (0 : ℝ))⟩ : Pose ℝ) = .identity := by
      rw [Rotation.ofScaledAxis_mul, mul_zero, zero_div, Real.cos_zero, Real.sin_zero, zero_div,
        Vec3.mul_zero]
      rfl
    show #[Pose.identity, Pose.identity * Pose.identity *
      (⟨0, .ofScaledAxis ((Vec3.unitZ : Vec3 ℝ) * (0 : ℝ))⟩ : Pose ℝ)] = _
    rw [hmotion, Pose.mul_identity, Pose.mul_identity]
  have hslide : arm.placeBody armPositions #[.identity, .identity] ⟨2⟩ =
      #[.identity, .identity, .ofPosition .unitX] := by
    have hmotion : (Vec3.unitX : Vec3 ℝ) * (1 : ℝ) = .unitX := by ext <;> simp
    show #[Pose.identity, Pose.identity,
      Pose.identity * Pose.identity * Pose.ofPosition ((Vec3.unitX : Vec3 ℝ) * (1 : ℝ))] = _
    rw [hmotion, Pose.mul_identity, Pose.identity_mul]
  have hposes : arm.bodyPoses armPositions = #[.identity, .identity, .ofPosition .unitX] := by
    rw [Mechanism.bodyPoses, hbodies, List.foldl_cons, List.foldl_cons, List.foldl_nil, hspin, hslide]
  refine Mechanism.positionKinematics_eq_ok_iff.mpr ⟨rfl, Mechanism.positionsWithin_of_all rfl, ?_⟩
  have hspinFrame : Mechanism.jointFrame #[.identity, .identity, .ofPosition .unitX] armSpin = .identity :=
    Pose.identity_mul _
  have hslideFrame : Mechanism.jointFrame #[.identity, .identity, .ofPosition .unitX] armSlide = .identity :=
    Pose.identity_mul _
  rw [hposes]
  simp [armOut, arm, hspinFrame, hslideFrame]

theorem isUnit_armJoints : ∀ joint ∈ armJoints, joint.offset.rotation.IsUnit := by
  simp only [armJoints, List.forall_mem_cons]
  exact ⟨Rotation.isUnit_identity, Rotation.isUnit_identity, List.forall_mem_nil _⟩

theorem relativeVelocity_armSpin : (Mechanism.relativeVelocity (armOut.jointFrame ⟨0⟩) armSpin.kind
    fun i => armVelocities (armSpin.velocityStart + i)) = (.unitZ, 0) := by
  show (Rotation.identity.apply .unitZ * (1 : ℝ), (0 : Vec3 ℝ)) = _
  rw [Rotation.apply_identity, Vec3.mul_one]

theorem relativeVelocity_armSlide : (Mechanism.relativeVelocity (armOut.jointFrame ⟨1⟩) armSlide.kind
    fun i => armVelocities (armSlide.velocityStart + i)) = (0, .unitX) := by
  show ((0 : Vec3 ℝ), Rotation.identity.apply .unitX * (1 : ℝ)) = _
  rw [Rotation.apply_identity, Vec3.mul_one]

/-- The velocities of the bead, as the arm spins and the bead slides out. -/
theorem mulVec_jacobians_arm : (arm.angularJacobian armOut ⟨2⟩).mulVec armVelocities = .unitZ ∧
    (arm.translationalJacobian armOut ⟨2⟩ .unitX).mulVec armVelocities = ⟨1, 1, 0⟩ := by
  have hlaid := Mechanism.build_laidOut (Model.build_mechanism build_arm)
  have hworld : arm.inboardJoint? armSpin.parent = none := rfl
  have hspin : arm.inboardJoint? armSlide.parent = some (⟨0⟩, armSpin) := rfl
  have hslide : arm.inboardJoint? ⟨2⟩ = some (⟨1⟩, armSlide) := rfl
  have hframe : (armOut.jointFrame ⟨0⟩).position = 0 := rfl
  constructor
  · rw [hlaid.mulVec_angularJacobian_of_inboard hslide (by decide),
      hlaid.mulVec_angularJacobian_of_inboard hspin (by decide),
      hlaid.mulVec_angularJacobian_of_none hworld, relativeVelocity_armSpin,
      relativeVelocity_armSlide, Vec3.zero_add, Vec3.add_zero]
  · rw [hlaid.mulVec_translationalJacobian, Mechanism.bodyVelocity_of_inboard hslide (by decide),
      Mechanism.bodyVelocity_of_inboard hspin (by decide), Mechanism.bodyVelocity_of_none hworld,
      Mechanism.jointVelocity,
      Mechanism.jointVelocity, relativeVelocity_armSpin,
      relativeVelocity_armSlide, hframe]
    ext <;> simp [Vec3.cross, Vec3.unitX, Vec3.unitZ]

/-- The bead moves out along the arm and across it, and turns with it. -/
theorem velocities_arm : Model.build armBodies armJoints [] = .ok arm ∧
    arm.positionKinematics armPositions = .ok armOut ∧
    ∃ (rates : Vec ℝ) (path : ℝ → PositionKinematics ℝ),
    arm.positionRates armPositions armVelocities = .ok rates ∧
      (∀ t, arm.positionKinematics (armPositions + rates * t) = .ok (path t)) ∧
      Vec3.HasRateAt (fun t => ((path t).bodyPose ⟨2⟩).apply 0) ⟨1, 1, 0⟩ 0 ∧
      Mat3.HasRateAt (fun t => ((path t).bodyPose ⟨2⟩).rotation.toMat3)
        (Vec3.unitZ.crossMatrix * Rotation.identity.toMat3) 0 := by
  obtain ⟨hturn, hmove⟩ := mulVec_jacobians_arm
  obtain ⟨rates, path, hrates, hpath, -, hbodies⟩ :=
    Model.build_velocities build_arm isUnit_armJoints positionKinematics_arm (v := armVelocities) rfl
  obtain ⟨hpoint, hrotation⟩ := hbodies ⟨2⟩
  refine ⟨build_arm, positionKinematics_arm, rates, path, hrates, hpath, (hpoint 0).congr_rate ?_,
    hturn ▸ hrotation⟩
  have horigin : (armOut.bodyPose ⟨2⟩).apply 0 = .unitX := comPosition_bead
  rw [horigin, hmove]

end CompliantContact
