import CompliantContact.Proofs.Mechanism.OneTree
import CompliantContact.Proofs.Mechanism.PointVelocity
import CompliantContact.Proofs.Mechanism.Ways
import CompliantContact.Proofs.Space.Algebra

/-!
Velocities and forces carried from one point of a body to another.

A body is rigid: its velocity at one point and its angular velocity give its velocity at every other. So
the columns of the translational Jacobians at two points differ by the angular ones along the lever
between them, and a spatial force does the same along the velocities of the mechanism wherever its point
is moved to (`Mechanism.forceAlong_shift`). The forces along the velocities that equal given forces are
a sum over the bodies; with uniform gravity it has the weight of each body at its center of mass
(`Model.build_transport`).
-/

namespace CompliantContact

open Finset Outcome

/-- A force that is added to a body changes no other. -/
theorem Forces.getD_addBody {f : Forces ℝ} {b b' : BodyIndex} (hlt : b'.val < f.bodies.size)
    (g : SpatialForce ℝ) :
    (f.addBody b g).bodies.getD b'.val 0 = if b' = b then f.bodies.getD b'.val 0 + g
      else f.bodies.getD b'.val 0 := by
  rw [Forces.addBody, Array.getD_eq_getD_getElem?, Array.getD_eq_getD_getElem?, Array.getElem?_modify,
    Array.getElem?_eq_getElem hlt]
  by_cases hsame : b' = b
  · rw [if_pos (congrArg BodyIndex.val hsame.symm), if_pos hsame]
    rfl
  · rw [if_neg fun heq => hsame (congrArg BodyIndex.mk heq.symm), if_neg hsame]

namespace Mechanism

section
variable {α : Type} {m : Mechanism α} {b : BodyIndex}

theorem lt_of_mem_movableBodies (hb : b ∈ m.movableBodies) : b.val < m.numBodies := by
  obtain ⟨n, hn, rfl⟩ := List.mem_map.mp hb
  obtain ⟨hfirst, hlast⟩ := List.mem_range'_1.mp hn
  show n < m.numBodies
  omega

variable [Scalar α] {k : PositionKinematics α}

@[simp] theorem size_angularJacobian : (m.angularJacobian k b).size = m.numVelocities := Columns.size_ofFn ..

/-- What a spatial force that acts at a point of a body does along the velocities. -/
def forceAlong (m : Mechanism α) (k : PositionKinematics α) (b : BodyIndex) (p : Vec3 α)
    (f : SpatialForce α) : Vec α :=
  (m.translationalJacobian k b p).transposeMulVec f.force + (m.angularJacobian k b).transposeMulVec f.torque

/-- The body with an index, and the world for an index past the end. -/
def bodyAt (m : Mechanism α) (b : BodyIndex) : Body α := m.bodies.getD b.val .world

theorem body?_of_mem_movableBodies (hb : b ∈ m.movableBodies) : m.body? b = some (m.bodyAt b) := by
  have hlt : b.val < m.bodies.size := lt_of_mem_movableBodies hb
  rw [body?, bodyAt, Array.getD_eq_getD_getElem?, Array.getElem?_eq_getElem hlt, Option.getD_some]

theorem indexedBodies_eq (m : Mechanism α) : m.indexedBodies = m.movableBodies.map fun b =>
    (b, m.bodyAt b) := by
  rw [indexedBodies, ← List.filterMap_eq_map]
  refine List.filterMap_congr fun b hb => ?_
  rw [body?_of_mem_movableBodies hb]
  rfl

end

variable {m : Mechanism ℝ} {k : PositionKinematics ℝ} {b : BodyIndex} {i : ℕ}

/-! ### From point to point -/

/-- A unit of a velocity moves two points of a body as it turns the lever between them. -/
theorem translationalJacobian_transport (m : Mechanism ℝ) (k : PositionKinematics ℝ) (b : BodyIndex)
    (o p : Vec3 ℝ) (i : ℕ) :
    m.translationalJacobian k b p i = m.translationalJacobian k b o i +
      (m.angularJacobian k b i).cross (p - o) := by
  rw [translationalJacobian, translationalJacobian, angularJacobian, Columns.get_ofFn, Columns.get_ofFn,
    Columns.get_ofFn]
  split_ifs
  · cases owner? k (m.chain b) i with
    | none => simp
    | some found =>
      obtain ⟨frame, kind, place⟩ := found
      dsimp only
      cases kind with
      | revolute a =>
        simp only [pointVelocity, angularVelocity]
        generalize frame.rotation.apply a = w
        ext <;> simp [Vec3.cross] <;> ring
      | _ => simp [pointVelocity, angularVelocity]
  · simp

/-- So the velocities of two points differ by what the angular velocity makes of the lever. -/
theorem mulVec_transport (m : Mechanism ℝ) (k : PositionKinematics ℝ) (b : BodyIndex) (o p : Vec3 ℝ)
    (v : Vec ℝ) :
    (m.translationalJacobian k b p).mulVec v =
      (m.translationalJacobian k b o).mulVec v + ((m.angularJacobian k b).mulVec v).cross (p - o) := by
  refine Vec3.ext_dot fun u => ?_
  rw [Vec3.dot_add, Vec3.dot_cross, Columns.dot_mulVec, Columns.dot_mulVec, Columns.dot_mulVec,
    size_translationalJacobian,
    size_translationalJacobian, size_angularJacobian, ← sum_add_distrib]
  refine sum_congr rfl fun i _ => ?_
  rw [translationalJacobian_transport m k b o p i, Vec3.dot_add, Vec3.dot_cross, add_mul]

/-! ### Forces along the velocities -/

@[simp] theorem size_forceAlong {p : Vec3 ℝ} {f : SpatialForce ℝ} :
    (m.forceAlong k b p f).size = m.numVelocities :=
  Vec.size_add.trans ((Vec.size_ofFn ..).trans size_translationalJacobian)

theorem forceAlong_get (hi : i < m.numVelocities) (p : Vec3 ℝ) (f : SpatialForce ℝ) : m.forceAlong k b p f i =
    (m.translationalJacobian k b p i).dot f.force + (m.angularJacobian k b i).dot f.torque := by
  rw [forceAlong, Vec.get_add (by rwa [Columns.transposeMulVec, Vec.size_ofFn, size_translationalJacobian]),
    Columns.get_transposeMulVec, Columns.get_transposeMulVec]

/-- A spatial force may be moved to any point. -/
theorem forceAlong_shift (m : Mechanism ℝ) (k : PositionKinematics ℝ) (b : BodyIndex) (o r : Vec3 ℝ)
    (f : SpatialForce ℝ) :
    m.forceAlong k b (o + r) (f.shift r) = m.forceAlong k b o f := by
  refine Vec.ext (by rw [size_forceAlong, size_forceAlong]) fun i hi => ?_
  rw [size_forceAlong] at hi
  have hlever : o + r - o = r := by ext <;> simp
  rw [forceAlong_get hi, forceAlong_get hi, translationalJacobian_transport m k b o (o + r) i, hlever,
    SpatialForce.shift]
  simp only [Vec3.dot, Vec3.cross, Vec3.add_x, Vec3.add_y, Vec3.add_z, Vec3.sub_x, Vec3.sub_y, Vec3.sub_z]
  ring

theorem forceAlong_add (hi : i < m.numVelocities) (p : Vec3 ℝ) (f g : SpatialForce ℝ) :
    m.forceAlong k b p (f + g) i = m.forceAlong k b p f i + m.forceAlong k b p g i := by
  rw [forceAlong_get hi, forceAlong_get hi, forceAlong_get hi]
  show _ * (f.force.x + g.force.x) + _ * (f.force.y + g.force.y) + _ * (f.force.z + g.force.z) +
    (_ * (f.torque.x + g.torque.x) + _ * (f.torque.y + g.torque.y) + _ * (f.torque.z + g.torque.z)) = _
  simp only [Vec3.dot]
  ring

/-- Forces on the bodies do the sum of what they do at the origins of their bodies. -/
theorem foldl_spatialForceTerm (bodies : List (BodyIndex × SpatialForce ℝ)) {tau : Vec ℝ}
    (hsize : tau.size = m.numVelocities)
    (hi : i < m.numVelocities) : bodies.foldl (m.spatialForceTerm k) tau i =
      tau i + (bodies.map fun bf => m.forceAlong k bf.1 (k.bodyPose bf.1).position bf.2 i).sum := by
  refine Vec.foldl_get (fun tau bf => size_spatialForceTerm tau bf) (fun tau bf htau => ?_) bodies hsize
  obtain ⟨b, f⟩ := bf
  rw [spatialForceTerm_eq, Vec.get_add (by rwa [Vec.size_add, htau]), Vec.get_add (htau.symm ▸ hi),
    forceAlong_get hi,
    Columns.get_transposeMulVec, Columns.get_transposeMulVec, add_assoc]

/-- The forces along the velocities that equal given forces. -/
theorem generalizedForces_get {f : Forces ℝ} {applied : Vec ℝ} (h : m.generalizedForces k f = .ok applied)
    (hi : i < m.numVelocities) : applied i = f.generalized i +
      (m.movableBodies.map fun b => m.forceAlong k b (k.bodyPose b).position
        (f.bodies.getD b.val 0) i).sum := by
  obtain ⟨hsized, rfl⟩ := generalizedForces_eq_ok h
  have hsize : f.generalized.size = m.numVelocities := by simpa using (Bool.and_eq_true_iff.mp hsized).1
  rw [foldl_spatialForceTerm _ hsize hi, List.map_map]
  rfl

theorem nodup_movableBodies (m : Mechanism ℝ) : m.movableBodies.Nodup :=
  (List.nodup_range' ..).map fun _ _ h => congrArg BodyIndex.val h

/-- A force that is added to a body adds what it does at the origin of the body. -/
theorem generalizedForces_addBody {f : Forces ℝ} {applied : Vec ℝ} (h : m.generalizedForces k f = .ok applied)
    (hb : b ∈ m.movableBodies) (g : SpatialForce ℝ) :
    m.generalizedForces k (f.addBody b g) = .ok (applied + m.forceAlong k b (k.bodyPose b).position g) := by
  have hsized := (generalizedForces_eq_ok h).1
  have hbodies : f.bodies.size = m.numBodies := by simpa using (Bool.and_eq_true_iff.mp hsized).2
  have hsized' : (f.addBody b g).sizedFor m = true := by
    simpa [Forces.sizedFor, Forces.addBody] using hsized
  obtain ⟨applied', h'⟩ : ∃ applied', m.generalizedForces k (f.addBody b g) = .ok applied' :=
    ⟨_, require_bind_eq_ok_iff.mpr ⟨hsized', rfl⟩⟩
  have hsize := size_generalizedForces h
  refine h'.trans (congrArg Except.ok (Vec.ext ?_ fun i hi => ?_))
  · rw [size_generalizedForces h', Vec.size_add, hsize]
  rw [size_generalizedForces h'] at hi
  have hterm : ∀ b' ∈ m.movableBodies,
      m.forceAlong k b' (k.bodyPose b').position ((f.addBody b g).bodies.getD b'.val 0) i =
        m.forceAlong k b' (k.bodyPose b').position (f.bodies.getD b'.val 0) i +
          if b' = b then m.forceAlong k b (k.bodyPose b).position g i else 0 := by
    intro b' hb'
    rw [Forces.getD_addBody (hbodies.symm ▸ lt_of_mem_movableBodies hb')]
    split_ifs with hsame
    · rw [hsame, forceAlong_add hi]
    · rw [add_zero]
  have hone : (m.movableBodies.map fun b' => if b' = b then m.forceAlong k b (k.bodyPose b).position g i
    else 0).sum =
      m.forceAlong k b (k.bodyPose b).position g i := by
    rw [List.sum_map_ite_eq]
    simp [List.count_eq_one_of_mem m.nodup_movableBodies hb]
  rw [Vec.get_add (hsize.symm ▸ hi), generalizedForces_get h' hi, generalizedForces_get h hi,
    List.map_congr_left hterm, List.sum_map_add, hone, ← add_assoc]
  rfl

/-! ### Uniform gravity -/

/-- The weight of a body does along the velocities what its pull at the center of mass does. -/
theorem generalizedForces_addWeight {f : Forces ℝ} {applied : Vec ℝ}
    (h : m.generalizedForces k f = .ok applied) (hb : b ∈ m.movableBodies) (g : Vec3 ℝ) : ∃ applied',
    m.generalizedForces k (ForceElement.addWeight m g k f b) = .ok applied' ∧
      ∀ i < m.numVelocities, applied' i = applied i +
        (m.bodyAt b).mass * (m.translationalJacobian k b (comPosition k b (m.bodyAt b)) i).dot g := by
  rw [ForceElement.addWeight, body?_of_mem_movableBodies hb]
  generalize m.bodyAt b = body
  dsimp only
  split_ifs with hmass
  · have hzero : body.mass = 0 := by
      simp only [Scalar.isZero, Bool.and_eq_true, decide_eq_true_eq] at hmass
      exact le_antisymm hmass.1 hmass.2
    exact ⟨applied, h, fun i _ => by rw [hzero, zero_mul, add_zero]⟩
  · have horigin : (k.bodyPose b).position =
        comPosition k b body + -(k.bodyPose b).rotation.apply body.com := by
      rw [comPosition, Pose.apply]
      ext <;> simp
    refine ⟨_, generalizedForces_addBody h hb _, fun i hi => ?_⟩
    rw [horigin, forceAlong_shift, Vec.get_add (by rwa [size_generalizedForces h]), forceAlong_get hi]
    simp only [Vec3.dot, Vec3.mul_x, Vec3.mul_y, Vec3.mul_z, Vec3.zero_x, Vec3.zero_y, Vec3.zero_z]
    ring

theorem generalizedForces_foldl_addWeight {bodies : List BodyIndex}
    (hbodies : ∀ b ∈ bodies, b ∈ m.movableBodies) (g : Vec3 ℝ)
    {f : Forces ℝ} {applied : Vec ℝ} (h : m.generalizedForces k f = .ok applied) :
    ∃ applied', m.generalizedForces k (bodies.foldl (ForceElement.addWeight m g k) f) = .ok applied' ∧
      ∀ i < m.numVelocities, applied' i = applied i + (bodies.map fun b =>
        (m.bodyAt b).mass * (m.translationalJacobian k b (comPosition k b (m.bodyAt b)) i).dot g).sum := by
  induction bodies generalizing f applied with
  | nil => exact ⟨applied, h, fun i _ => (add_zero _).symm⟩
  | cons b bodies ih =>
    obtain ⟨next, hnext, hentry⟩ := generalizedForces_addWeight h (hbodies b (List.mem_cons_self ..)) g
    obtain ⟨last, hlast, hrest⟩ := ih (fun b' hb' => hbodies b' (List.mem_cons_of_mem _ hb')) hnext
    refine ⟨last, hlast, fun i hi => ?_⟩
    rw [hrest i hi, hentry i hi, List.map_cons, List.sum_cons, add_assoc]

/-- A sum over the bodies that move, where the world adds nothing, is a sum over all bodies. -/
theorem sum_movableBodies (m : Mechanism ℝ) {f : BodyIndex → ℝ} (hworld : f .world = 0) :
    (m.movableBodies.map f).sum = ∑ b ∈ range m.numBodies, f ⟨b⟩ := by
  rw [movableBodies, List.map_map]
  cases m.numBodies with
  | zero => rfl
  | succ n =>
    rw [sum_range_succ', show f ⟨0⟩ = 0 from hworld, add_zero, Nat.add_sub_cancel,
      List.range'_eq_map_range, List.map_map, Scalar.sum_map_range]
    exact sum_congr rfl fun b _ => congrArg (fun n => f ⟨n⟩) (Nat.add_comm ..)

/-- The world does not move. -/
theorem translationalJacobian_world (h : m.inboardJoint? .world = none) (k : PositionKinematics ℝ)
    (p : Vec3 ℝ) (i : ℕ) :
    m.translationalJacobian k .world p i = 0 := by
  rw [translationalJacobian, chain, h, Columns.get_ofFn]
  exact ite_self _

theorem angularJacobian_world (h : m.inboardJoint? .world = none) (k : PositionKinematics ℝ) (i : ℕ) :
    m.angularJacobian k .world i = 0 := by
  rw [angularJacobian, chain, h, Columns.get_ofFn]
  exact ite_self _

end Mechanism

/-- In every model velocities and forces are carried from point to point of a body as for rigid bodies:
    the velocities of two points differ by what the angular velocity makes of the lever, a spatial force
    may be moved to any point, and moved to the origin of its body it is what the library expects of it.
    So uniform gravity pulls at each center of mass. -/
theorem Model.build_transport {bodies : List (Body ℝ)} {joints : List (Joint ℝ)}
    {elements : List (ForceElement ℝ)}
    {m : Model ℝ} (h : Model.build bodies joints elements = .ok m) (k : PositionKinematics ℝ) :
    (∀ b o p v, (m.translationalJacobian k b p).mulVec v =
      (m.translationalJacobian k b o).mulVec v + ((m.angularJacobian k b).mulVec v).cross (p - o)) ∧
    (∀ b o r f, m.forceAlong k b (o + r) (f.shift r) = m.forceAlong k b o f) ∧
    (∀ f applied b o g, m.generalizedForces k f = .ok applied → b ∈ m.movableBodies →
      m.generalizedForces k (f.addBody b (g.shift ((k.bodyPose b).position - o))) =
        .ok (applied + m.forceAlong k b o g)) ∧
    ∀ g q v, ∃ applied, m.generalizedForces k
      ((ForceElement.gravity g).addForces m.toMechanism k q v (.zero m.toMechanism)) =
      .ok applied ∧ applied.size = m.numVelocities ∧
      ∀ i < m.numVelocities, applied i = ∑ b ∈ range m.numBodies,
        (m.bodyAt ⟨b⟩).mass * (m.translationalJacobian k ⟨b⟩
          (Mechanism.comPosition k ⟨b⟩ (m.bodyAt ⟨b⟩)) i).dot g := by
  have hbuild := Model.build_mechanism h
  obtain ⟨c, hc, -⟩ := Mechanism.build_comesFrom hbuild
  refine ⟨m.mulVec_transport k, m.forceAlong_shift k, fun f applied b o g happlied hb => ?_, fun g q v => ?_⟩
  · have horigin : o + ((k.bodyPose b).position - o) = (k.bodyPose b).position := by ext <;> simp
    have hmoved := m.forceAlong_shift k b o ((k.bodyPose b).position - o) g
    rw [horigin] at hmoved
    rw [Mechanism.generalizedForces_addBody happlied hb, hmoved]
  · obtain ⟨applied, happlied, hentry⟩ := Mechanism.generalizedForces_foldl_addWeight (fun b hb => hb) g
      (m.generalizedForces_zero k)
    refine ⟨applied, happlied, Mechanism.size_generalizedForces happlied, fun i hi => ?_⟩
    rw [hentry i hi, Vec.get_zeros, zero_add]
    refine m.sum_movableBodies ?_
    rw [Mechanism.translationalJacobian_world hc.inboardJoint?_world]
    simp [Vec3.dot]

/-! ### A bead on an arm -/

noncomputable section

def armBodies : List (Body ℝ) := [.withPrincipalMoments "arm" 1 ⟨1, 1, 1⟩, .pointMass "bead" 1]

def armJoints : List (Joint ℝ) :=
  [.ofKind "spin" (.revolute .unitZ) .world ⟨1⟩, .ofKind "slide" (.prismatic .unitX) ⟨1⟩ ⟨2⟩]

def armSpin : Joint ℝ := .ofKind "spin" (.revolute .unitZ) .world ⟨1⟩

def armSlide : Joint ℝ := { Joint.ofKind "slide" (.prismatic .unitX) ⟨1⟩ ⟨2⟩ with velocityStart := 1 }

/-- A bead that slides on an arm, which spins. -/
def arm : Model ℝ where
  bodies := #[.world, .withPrincipalMoments "arm" 1 ⟨1, 1, 1⟩, .pointMass "bead" 1]
  joints := #[armSpin, armSlide]
  inboard := #[none, some ⟨0⟩, some ⟨1⟩]
  layout := ⟨#[none, some ⟨0⟩, some ⟨0⟩], #[⟨0⟩, ⟨0⟩], #[2]⟩
  elements := []

def armPositions : Vec ℝ := ⟨#[0, 1]⟩

/-- The arm spins, and the bead slides out. -/
def armVelocities : Vec ℝ := ⟨#[1, 1]⟩

/-- The arm along the first axis, with the bead at its end. -/
def armOut : PositionKinematics ℝ := ⟨#[.identity, .identity, .ofPosition .unitX], #[.identity, .identity]⟩

end

theorem build_arm : Model.build armBodies armJoints [] = .ok arm := by
  have hmass : ∀ b ∈ Body.world :: armBodies, Mechanism.requireMass b = .ok () := by
    simp only [armBodies, List.forall_mem_cons]
    exact ⟨Mechanism.requireMass_pointMass "world" le_rfl, require_eq_ok_iff.mpr ⟨zero_le_one, rfl⟩,
      Mechanism.requireMass_pointMass "bead" zero_le_one, List.forall_mem_nil _⟩
  have hconnect : armJoints.foldlM (Mechanism.connect 3) ⟨#[], Array.replicate 3 none⟩ =
      .ok ⟨armJoints.toArray, #[none, some ⟨0⟩, some ⟨1⟩]⟩ := by
    simp only [armJoints, List.foldlM_cons, List.foldlM_nil, bind_eq_ok_iff]
    exact ⟨_, Mechanism.connect_ofKind (Joint.normalizeAxis_of_norm rfl Vec3.norm_unitZ) (by decide)
      (by decide) rfl, _,
      Mechanism.connect_ofKind (Joint.normalizeAxis_of_norm rfl Vec3.norm_unitX) (by decide)
        (by decide) rfl, rfl⟩
  have hbuild : Mechanism.build armBodies armJoints = .ok arm.toMechanism := by
    simp only [Mechanism.build, bind_eq_ok_iff]
    exact ⟨(), forM_eq_ok_iff.mpr hmass, _, hconnect, (), rfl, rfl⟩
  exact bind_eq_ok_iff.mpr ⟨_, hbuild, rfl⟩

/-- The velocity that the spin gives a point of the arm or of the bead. -/
theorem translationalJacobian_arm {b : BodyIndex} (hb : b = ⟨1⟩ ∨ b = ⟨2⟩) (p : Vec3 ℝ) :
    arm.translationalJacobian armOut b p 0 = Vec3.unitZ.cross p := by
  obtain ⟨c, hc, -⟩ := Mechanism.build_comesFrom (Model.build_mechanism build_arm)
  have hpoint : Mechanism.pointVelocity (α := ℝ) .identity (.revolute .unitZ) 0 p = Vec3.unitZ.cross p := by
    rw [Mechanism.pointVelocity, Pose.identity, Rotation.apply_identity, Vec3.sub_zero]
  rw [Mechanism.translationalJacobian, Columns.get_ofFn, if_pos (by decide), ← hpoint]
  rcases hb with rfl | rfl
  · rw [(hc.way_chain ⟨1⟩).unique (.step rfl (.arrived rfl))]
    rfl
  · rw [(hc.way_chain ⟨2⟩).unique (.step rfl (.step rfl (.arrived rfl)))]
    rfl

theorem comPosition_bead : Mechanism.comPosition armOut ⟨2⟩ (arm.bodyAt ⟨2⟩) = .unitX := by
  show Pose.apply (.ofPosition .unitX) 0 = _
  rw [Pose.apply, Rotation.apply_zero, Vec3.add_zero]
  rfl

/-- As the arm spins, the end of it moves faster than its origin by what the turn makes of the lever.
    Across the arm gravity pulls it back by the weight of the bead at its end. -/
theorem transport_arm : Model.build armBodies armJoints [] = .ok arm ∧
    (arm.translationalJacobian armOut ⟨2⟩ .unitX).mulVec ⟨#[1, 0]⟩ =
      (arm.translationalJacobian armOut ⟨2⟩ 0).mulVec ⟨#[1, 0]⟩ +
      ((arm.angularJacobian armOut ⟨2⟩).mulVec ⟨#[1, 0]⟩).cross (.unitX - 0) ∧
    ∃ applied, arm.generalizedForces armOut
      ((ForceElement.gravity (-.unitY)).addForces arm.toMechanism armOut (.zeros 2)
      (.zeros 2) (.zero arm.toMechanism)) = .ok applied ∧ applied 0 = -1 := by
  obtain ⟨htransport, -, -, hgravity⟩ := Model.build_transport build_arm armOut
  obtain ⟨applied, happlied, -, hentry⟩ := hgravity (-.unitY) (.zeros 2) (.zeros 2)
  refine ⟨build_arm, htransport ⟨2⟩ 0 .unitX _, applied, happlied, (hentry 0 (by decide)).trans ?_⟩
  have hbodies : arm.numBodies = 3 := rfl
  have hworld : (arm.bodyAt ⟨0⟩).mass = 0 := rfl
  have harm : Mechanism.comPosition armOut ⟨1⟩ (arm.bodyAt ⟨1⟩) = 0 := by
    show Pose.apply .identity 0 = _
    rw [Pose.apply, Rotation.apply_zero, Vec3.add_zero]
    rfl
  have hmass : (arm.bodyAt ⟨2⟩).mass = 1 := rfl
  rw [hbodies, sum_range_succ, sum_range_succ, sum_range_one, hworld, harm, comPosition_bead, hmass,
    translationalJacobian_arm (.inl rfl), translationalJacobian_arm (.inr rfl)]
  simp [Vec3.dot, Vec3.cross, Vec3.unitX, Vec3.unitY, Vec3.unitZ]

end CompliantContact
