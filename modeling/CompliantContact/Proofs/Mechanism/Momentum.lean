import CompliantContact.Proofs.Mechanism.KineticEnergy
import CompliantContact.Proofs.Mechanism.Moving

/-!
The forces that the motion itself asks for.

With constant velocities the bodies still accelerate, as their joints turn with their parents. The
outward recursion finds these accelerations: the rates of the angular velocities and of the velocities
of the origins (`Mechanism.ComesFrom.hasRateAt_motion`). So a mechanism that keeps its velocities
changes the momenta of its bodies by what the recursion puts into them, and the velocity-product forces
are these changes along the velocities (`Model.build_biasForces`).
-/

namespace CompliantContact

open Finset Outcome

/-! ### Inertia in the world -/

theorem Vec3.HasRateAt.mulVec {f : ℝ → Vec3 ℝ} {f' : Vec3 ℝ} {t : ℝ} (hf : HasRateAt f f' t) (a : Mat3 ℝ) :
    HasRateAt (fun s => a.mulVec (f s)) (a.mulVec f') t := by
  refine ((((const a.x t).mul hf.x).add ((const a.y t).mul hf.y)).add ((const a.z t).mul hf.z)).congr_rate ?_
  simp [Mat3.mulVec]

namespace Mechanism

/-- The angular momentum of a body changes as its angular velocity does, and because its inertia turns
    with it. -/
theorem hasRateAt_angularMomentum {q : ℝ → Rotation ℝ} {w : ℝ → Vec3 ℝ} {w' : Vec3 ℝ} {t : ℝ}
    (hq : Rotation.TurnsAt q (w t) t)
    (hunit : ∀ s, (q s).IsUnit) (hw : Vec3.HasRateAt w w' t) (inertia : Mat3 ℝ) :
    Vec3.HasRateAt (fun s => (worldInertia (q s) inertia).mulVec (w s))
      ((worldInertia (q t) inertia).mulVec w' +
      (w t).cross ((worldInertia (q t) inertia).mulVec (w t))) t := by
  simp only [mulVec_worldInertia, (hunit _).mulVec_toMat3]
  have hmatrix := hq.toMat3 hunit
  -- Seen from the body, the angular velocity changes as it does in the world: its own axis does not move it.
  have haxis : ∀ u : Vec3 ℝ, ((w t).crossMatrix.mulVec u).dot (w t) + u.dot w' = u.dot w' := by
    intro u
    rw [Vec3.mulVec_crossMatrix]
    simp only [Vec3.cross, Vec3.dot]
    ring
  have hseen : Vec3.HasRateAt (fun s => (q s).toMat3.transposeMulVec (w s))
    ((q t).toMat3.transposeMulVec w') t :=
    ⟨(hmatrix.x.dot hw).congr_deriv (haxis _), (hmatrix.y.dot hw).congr_deriv (haxis _),
      (hmatrix.z.dot hw).congr_deriv (haxis _)⟩
  exact (hq.apply (hunit t) (hseen.mulVec inertia)).congr_rate (Vec3.add_comm ..)

/-- What a joint adds turns with its frame. -/
theorem hasRateAt_relativeVelocity {frame : ℝ → Pose ℝ} {w : Vec3 ℝ} {t : ℝ}
    (hframe : Rotation.TurnsAt (fun s => (frame s).rotation) w t) (hunit : (frame t).rotation.IsUnit)
    (kind : JointKind ℝ) (v : ℕ → ℝ) :
    Vec3.HasRateAt (fun s => (relativeVelocity (frame s) kind v).1)
      (w.cross (relativeVelocity (frame t) kind v).1) t ∧
      Vec3.HasRateAt (fun s => (relativeVelocity (frame s) kind v).2)
        (w.cross (relativeVelocity (frame t) kind v).2) t := by
  have hturned := fun s => relativeVelocity_turned (frame s) kind v
  simp only [hturned]
  constructor
  · exact (hframe.apply hunit (.const _ t)).congr_rate (by rw [Rotation.apply_zero, Vec3.add_zero])
  · exact (hframe.apply hunit (.const _ t)).congr_rate (by rw [Rotation.apply_zero, Vec3.add_zero])

end Mechanism

/-! ### Bodies -/

namespace Mechanism

section
variable {m : Mechanism ℝ} {c : Connections ℝ} (h : m.ComesFrom c) (hm : m.LaidOut)
  (hunit : m.UnitOffsets) {q : ℝ → Vec ℝ}
  {v : Vec ℝ} {t : ℝ} {b : BodyIndex} {j : JointIndex} {joint : Joint ℝ}
include h hm

/-- The angular velocities that are passed on outward are those that the Jacobians give. -/
theorem ComesFrom.angularVelocity_biasMotion (k : PositionKinematics ℝ) (v : Vec ℝ) (b : BodyIndex) :
    ((m.biasMotions k v).getD b.val .rest).angularVelocity = (m.angularJacobian k b).mulVec v := by
  induction b using h.outward with
  | start b hb =>
    rw [(h.biasMotion_outward k v b).1 hb, hm.mulVec_angularJacobian_of_none hb]
    rfl
  | next b j joint hb ih =>
    rw [(h.biasMotion_outward k v b).2 j joint hb,
      hm.mulVec_angularJacobian_of_inboard hb (h.inboardJoint? hb).2.2.1, ← ih]
    rfl

include hunit

/-- The accelerations that are passed on outward are the rates of the velocities. -/
theorem ComesFrom.hasRateAt_motion (hq : ∀ i, HasDerivAt (fun s => q s i) (v i) t) (b : BodyIndex) :
    Vec3.HasRateAt (fun s => (m.angularJacobian (m.placed (q s)) b).mulVec v)
        ((m.biasMotions (m.placed (q t)) v).getD b.val .rest).angularAcceleration t ∧
      Vec3.HasRateAt (fun s => m.bodyVelocity (m.placed (q s)) v b ((m.placed (q s)).bodyPose b).position)
        ((m.biasMotions (m.placed (q t)) v).getD b.val .rest).acceleration t := by
  induction b using h.outward with
  | start b hb =>
    rw [(h.biasMotion_outward _ v b).1 hb]
    simp only [hm.mulVec_angularJacobian_of_none hb, bodyVelocity_of_none hb]
    exact ⟨.const 0 t, .const 0 t⟩
  | next b j joint hb ih =>
    have hparent := h.movesAt_bodyPose hm hunit hq joint.parent
    have hchild := h.movesAt_bodyPose hm hunit hq b
    have hframe := h.movesAt_jointFrame hm hunit hb hparent
    obtain ⟨hturn, hslide⟩ :=
      hasRateAt_relativeVelocity hframe.rotation (h.isUnit_jointFrame hunit (q t) hb) joint.kind
      fun i => v (joint.velocityStart + i)
    have horigin := fun s =>
      h.bodyVelocity_origin hm hb (q s) v ((m.placed (q s)).bodyPose joint.parent).position
    rw [(h.biasMotion_outward _ v b).2 j joint hb, childMotion, h.angularVelocity_biasMotion hm]
    constructor
    · simp only [hm.mulVec_angularJacobian_of_inboard hb (h.inboardJoint? hb).2.2.1]
      exact ih.1.add hturn
    · have hnow := horigin t
      rw [funext horigin]
      refine ((ih.2.add (ih.1.cross (hchild.position.sub hparent.position))).add hslide).congr_rate ?_
      rw [hnow]
      generalize (m.angularJacobian (m.placed (q t)) joint.parent).mulVec v = w
      generalize (relativeVelocity ((m.placed (q t)).jointFrame j) joint.kind _).2 = u
      ext <;> simp [Vec3.cross] <;> ring

end

/-! ### Momenta -/

section
variable {α : Type} [Scalar α]

/-- The momentum of a body: its mass times the velocity of its center of mass. -/
def linearMomentum (m : Mechanism α) (k : PositionKinematics α) (v : Vec α) (b : BodyIndex) : Vec3 α :=
  (m.translationalJacobian k b (comPosition k b (m.bodyAt b))).mulVec v * (m.bodyAt b).mass

/-- The angular momentum of a body about its center of mass. -/
def angularMomentum (m : Mechanism α) (k : PositionKinematics α) (v : Vec α) (b : BodyIndex) : Vec3 α :=
  (worldInertia (k.bodyPose b).rotation (m.bodyAt b).inertia).mulVec ((m.angularJacobian k b).mulVec v)

/-- What acts on a body, at its center of mass, when no velocity changes. -/
def biasWrench (m : Mechanism α) (k : PositionKinematics α) (v : Vec α) (b : BodyIndex) : SpatialForce α :=
  let motion := (m.biasMotions k v).getD b.val .rest
  let w := motion.angularVelocity
  let lever := (k.bodyPose b).rotation.apply (m.bodyAt b).com
  let inertia := worldInertia (k.bodyPose b).rotation (m.bodyAt b).inertia
  { force := (motion.acceleration + motion.angularAcceleration.cross lever + w.cross (w.cross lever)) *
    (m.bodyAt b).mass
    torque := inertia.mulVec motion.angularAcceleration + w.cross (inertia.mulVec w) }

end

section
variable {m : Mechanism ℝ} {c : Connections ℝ} (h : m.ComesFrom c) (hm : m.LaidOut)
  (hunit : m.UnitOffsets) {q : ℝ → Vec ℝ} {v : Vec ℝ} {t : ℝ} {b : BodyIndex}
include h hm hunit

/-- What acts on a body is what its momenta change by. -/
theorem ComesFrom.hasRateAt_momentum (hq : ∀ i, HasDerivAt (fun s => q s i) (v i) t) (b : BodyIndex) :
    Vec3.HasRateAt (fun s => m.linearMomentum (m.placed (q s)) v b)
      (m.biasWrench (m.placed (q t)) v b).force t ∧
      Vec3.HasRateAt (fun s => m.angularMomentum (m.placed (q s)) v b)
        (m.biasWrench (m.placed (q t)) v b).torque t := by
  obtain ⟨hangular, horigin⟩ := h.hasRateAt_motion hm hunit hq b
  have hmoves := h.movesAt_bodyPose hm hunit hq b
  rw [biasWrench, h.angularVelocity_biasMotion hm]
  refine ⟨?_, hasRateAt_angularMomentum hmoves.rotation (fun s => h.isUnit_bodyPose hunit (q s) b) hangular _⟩
  have hvelocity : ∀ s,
    (m.translationalJacobian (m.placed (q s)) b (comPosition (m.placed (q s)) b (m.bodyAt b))).mulVec v =
      m.bodyVelocity (m.placed (q s)) v b ((m.placed (q s)).bodyPose b).position +
        ((m.angularJacobian (m.placed (q s)) b).mulVec v).cross
          (((m.placed (q s)).bodyPose b).rotation.apply (m.bodyAt b).com) := by
    intro s
    rw [hm.mulVec_translationalJacobian,
      hm.bodyVelocity_transport ((m.placed (q s)).bodyPose b).position, comPosition,
      Pose.apply_sub_position]
  simp only [linearMomentum, hvelocity]
  have hlever := hmoves.rotation.apply (h.isUnit_bodyPose hunit (q t) b) (.const (m.bodyAt b).com t)
  refine ((horigin.add (hangular.cross hlever)).mul (hasDerivAt_const t (m.bodyAt b).mass)).congr_rate ?_
  rw [Vec3.mul_zero, Vec3.add_zero, Rotation.apply_zero, Vec3.add_zero, Vec3.add_assoc]

end

section
variable {m : Mechanism ℝ} {k : PositionKinematics ℝ} {v : Vec ℝ} {i : ℕ}

theorem size_addBiasForces (motions : Array (BiasMotion ℝ)) (acc : Vec ℝ) (b : BodyIndex) (body : Body ℝ) :
    (m.addBiasForces k motions acc b body).size = acc.size := by
  simp only [addBiasForces, Vec.size_add]

theorem biasForces_eq_ok {bias : Vec ℝ} (h : m.biasForces k v = .ok bias) :
    bias = m.movableBodies.foldl (fun acc b => m.addBiasForces k (m.biasMotions k v) acc b (m.bodyAt b))
      (.zeros m.numVelocities) := by
  simp only [biasForces, bind_eq_ok_iff] at h
  obtain ⟨_, -, h⟩ := h
  cases h
  rw [indexedBodies_eq, List.foldl_map]

theorem size_biasForces {bias : Vec ℝ} (h : m.biasForces k v = .ok bias) : bias.size = m.numVelocities := by
  rw [biasForces_eq_ok h, Vec.size_foldl fun acc b => size_addBiasForces _ acc b _, Vec.size_zeros]

/-- The velocity-product forces are what acts on the bodies, along the velocities. -/
theorem biasForces_get {bias : Vec ℝ} (h : m.biasForces k v = .ok bias) (hi : i < m.numVelocities) : bias i =
    (m.movableBodies.map fun b => m.forceAlong k b (comPosition k b (m.bodyAt b))
      (m.biasWrench k v b) i).sum := by
  rw [biasForces_eq_ok h, Vec.foldl_get (fun acc b => size_addBiasForces _ acc b _)
    (fun acc b hacc => ?_) _ (Vec.size_zeros ..), Vec.get_zeros, zero_add]
  rw [addBiasForces, Vec.get_add (by rwa [Vec.size_add, hacc]), Vec.get_add (hacc.symm ▸ hi),
    forceAlong_get hi,
    Columns.get_transposeMulVec, Columns.get_transposeMulVec, add_assoc]
  rfl

end

end Mechanism

/-! ### Models -/

/-- In every model the velocity-product forces are what it takes to keep the velocities: the sum over
    the bodies of the rates at which their momenta change along positions that keep changing at the
    velocities, each as its Jacobians see it. The angular velocities of the outward recursion, which
    finds these forces, are those that the angular Jacobians give. The rotations in which joints sit in
    their parents are of length one. -/
theorem Model.build_biasForces {bodies : List (Body ℝ)} {joints : List (Joint ℝ)}
    {elements : List (ForceElement ℝ)} {m : Model ℝ} (h : Model.build bodies joints elements = .ok m)
    (hunit : ∀ joint ∈ joints, joint.offset.rotation.IsUnit)
    {q v : Vec ℝ} {k : PositionKinematics ℝ} (hk : m.positionKinematics q = .ok k)
    (hv : v.size = m.numVelocities) :
    (∀ b : BodyIndex, ((m.biasMotions k v).getD b.val .rest).angularVelocity =
      (m.angularJacobian k b).mulVec v) ∧
      ∃ (path : ℝ → PositionKinematics ℝ) (bias : Vec ℝ) (force torque : BodyIndex → Vec3 ℝ),
        (∀ t, m.positionKinematics (q + v * t) = .ok (path t)) ∧ path 0 = k ∧
        (∀ b, Vec3.HasRateAt (fun t => m.linearMomentum (path t) v b) (force b) 0 ∧
          Vec3.HasRateAt (fun t => m.angularMomentum (path t) v b) (torque b) 0) ∧
        m.biasForces k v = .ok bias ∧ bias.size = m.numVelocities ∧
        ∀ i < m.numVelocities, bias i = ∑ b ∈ range m.numBodies,
          ((m.translationalJacobian k ⟨b⟩ (Mechanism.comPosition k ⟨b⟩ (m.bodyAt ⟨b⟩)) i).dot (force ⟨b⟩) +
            (m.angularJacobian k ⟨b⟩ i).dot (torque ⟨b⟩)) := by
  have hbuild := Model.build_mechanism h
  obtain ⟨c, hc, -⟩ := Mechanism.build_comesFrom hbuild
  have hlaid := Mechanism.build_laidOut hbuild
  have hunit := Mechanism.build_unitOffsets hbuild hunit
  have hstart : m.placed (q + v * (0 : ℝ)) = k := Mechanism.placed_line_zero hk v
  have hsize : v.size = q.size := hv.trans (Mechanism.positionKinematics_eq_ok_iff.mp hk).1.symm
  have hrates := fun b => hc.hasRateAt_momentum hlaid hunit (fun i => Mechanism.hasDerivAt_line hsize i 0) b
  obtain ⟨bias, hbias⟩ : ∃ bias, m.biasForces k v = .ok bias :=
    ⟨_, bind_eq_ok_iff.mpr ⟨(), requireSize_eq_ok_iff.mpr hv.symm, rfl⟩⟩
  rw [hstart] at hrates
  refine ⟨fun b => hc.angularVelocity_biasMotion hlaid k v b, fun t => m.placed (q + v * t), bias, _, _,
    Mechanism.positionKinematics_line hk v, hstart, hrates, hbias, Mechanism.size_biasForces hbias,
    fun i hi => ?_⟩
  rw [Mechanism.biasForces_get hbias hi]
  simp only [Mechanism.forceAlong_get hi]
  refine m.sum_movableBodies ?_
  rw [Mechanism.translationalJacobian_world hc.inboardJoint?_world,
    Mechanism.angularJacobian_world hc.inboardJoint?_world]
  simp [Vec3.dot]

/-- The motions of the arm and of the bead, when both keep their velocities: the bead is held in, and
    pushed across. -/
theorem biasMotions_arm : (arm.biasMotions armOut armVelocities).getD armSlide.parent.val .rest =
    ⟨.unitZ, 0, 0⟩ ∧
    (arm.biasMotions armOut armVelocities).getD (⟨2⟩ : BodyIndex).val .rest = ⟨.unitZ, 0, ⟨-1, 2, 0⟩⟩ := by
  obtain ⟨c, hc, -⟩ := Mechanism.build_comesFrom (Model.build_mechanism build_arm)
  have hworld := (hc.biasMotion_outward armOut armVelocities armSpin.parent).1 rfl
  have hspin := (hc.biasMotion_outward armOut armVelocities armSlide.parent).2 ⟨0⟩ armSpin rfl
  have hslide := (hc.biasMotion_outward armOut armVelocities ⟨2⟩).2 ⟨1⟩ armSlide rfl
  have hground : (armOut.bodyPose armSpin.parent).position = 0 := rfl
  have hhub : (armOut.bodyPose armSlide.parent).position = 0 := rfl
  have hend : (armOut.bodyPose ⟨2⟩).position = .unitX := rfl
  rw [hworld, relativeVelocity_armSpin, hground, hhub] at hspin
  have harm : (arm.biasMotions armOut armVelocities).getD armSlide.parent.val .rest = ⟨.unitZ, 0, 0⟩ := by
    rw [hspin, Mechanism.childMotion, Mechanism.BiasMotion.rest]
    simp
  rw [harm, relativeVelocity_armSlide, hhub, hend] at hslide
  refine ⟨harm, hslide.trans ?_⟩
  simp [Mechanism.childMotion]
  ext <;> simp [Vec3.cross, Vec3.unitX, Vec3.unitZ]

/-- Nothing holds the arm, which is round; the bead is held with its weight. -/
theorem biasWrench_arm : arm.biasWrench armOut armVelocities ⟨1⟩ = 0 ∧
    arm.biasWrench armOut armVelocities ⟨2⟩ = ⟨0, ⟨-1, 2, 0⟩⟩ := by
  obtain ⟨harm, hbead⟩ := biasMotions_arm
  have hinertia : ∀ (inertia : Mat3 ℝ) (w : Vec3 ℝ),
      (Mechanism.worldInertia .identity inertia).mulVec w = inertia.mulVec w := by
    intro inertia w
    have hseen : (Rotation.identity : Rotation ℝ).toMat3.transposeMulVec w = w := by
      ext <;> simp [Rotation.toMat3, Rotation.identity, Mat3.ofRows, Mat3.transposeMulVec, Vec3.dot]
    rw [Mechanism.mulVec_worldInertia, hseen, Rotation.isUnit_identity.mulVec_toMat3, Rotation.apply_identity]
  have harm : (arm.biasMotions armOut armVelocities).getD 1 .rest = ⟨.unitZ, 0, 0⟩ := harm
  have hbead : (arm.biasMotions armOut armVelocities).getD 2 .rest = ⟨.unitZ, 0, ⟨-1, 2, 0⟩⟩ := hbead
  have harmBody : arm.bodyAt ⟨1⟩ = .withPrincipalMoments "arm" 1 ⟨1, 1, 1⟩ := rfl
  have hbeadBody : arm.bodyAt ⟨2⟩ = .pointMass "bead" 1 := rfl
  have hpose : (armOut.bodyPose ⟨1⟩).rotation = .identity ∧
    (armOut.bodyPose ⟨2⟩).rotation = .identity := ⟨rfl, rfl⟩
  constructor
  · have hround : (Vec3.unitZ : Vec3 ℝ).cross ((Mat3.diagonal ⟨1, 1, 1⟩).mulVec .unitZ) = 0 := by
      ext <;> simp [Mat3.diagonal, Mat3.mulVec, Vec3.unitZ, Vec3.cross]
    simp [Mechanism.biasWrench, harm, harmBody, hpose, Body.withPrincipalMoments, hinertia, hround]
    rfl
  · simp [Mechanism.biasWrench, hbead, hbeadBody, hpose, Body.pointMass, hinertia]

/-- To keep both velocities the arm is turned on with twice what the spin makes of the slide. -/
theorem biasForces_arm : Model.build armBodies armJoints [] = .ok arm ∧
    arm.positionKinematics armPositions = .ok armOut ∧
    ((arm.biasMotions armOut armVelocities).getD 2 .rest).angularVelocity =
      (arm.angularJacobian armOut ⟨2⟩).mulVec armVelocities ∧
    ∃ (path : ℝ → PositionKinematics ℝ) (bias : Vec ℝ) (force torque : BodyIndex → Vec3 ℝ),
      (∀ t, arm.positionKinematics (armPositions + armVelocities * t) = .ok (path t)) ∧
      Vec3.HasRateAt (fun t => arm.linearMomentum (path t) armVelocities ⟨2⟩) (force ⟨2⟩) 0 ∧
      Vec3.HasRateAt (fun t => arm.angularMomentum (path t) armVelocities ⟨2⟩) (torque ⟨2⟩) 0 ∧
      arm.biasForces armOut armVelocities = .ok bias ∧ bias 0 = 2 := by
  obtain ⟨hturn, path, bias, force, torque, hpath, -, hrates, hbias, -, -⟩ :=
    Model.build_biasForces build_arm isUnit_armJoints positionKinematics_arm (v := armVelocities) rfl
  refine ⟨build_arm, positionKinematics_arm, hturn ⟨2⟩, path, bias, force, torque, hpath,
    (hrates ⟨2⟩).1, (hrates ⟨2⟩).2, hbias, ?_⟩
  have hbodies : arm.movableBodies = [⟨1⟩, ⟨2⟩] := rfl
  have hfirst : 0 < arm.numVelocities := by decide
  have hnothing : ∀ u : Vec3 ℝ, u.dot 0 = 0 := fun u => by simp [Vec3.dot]
  have hzero : (0 : SpatialForce ℝ).force = 0 ∧ (0 : SpatialForce ℝ).torque = 0 := ⟨rfl, rfl⟩
  rw [Mechanism.biasForces_get hbias hfirst, hbodies, List.map_cons, List.map_singleton, List.sum_cons,
    List.sum_singleton,
    biasWrench_arm.1, biasWrench_arm.2, Mechanism.forceAlong_get hfirst,
    Mechanism.forceAlong_get hfirst, comPosition_bead,
    translationalJacobian_arm (.inr rfl), hzero.1, hzero.2, hnothing, hnothing, hnothing]
  simp [Vec3.dot, Vec3.cross, Vec3.unitX, Vec3.unitZ]

end CompliantContact
