import CompliantContact.Proofs.Contact.Registry
import CompliantContact.Proofs.Contact.Shapes
import CompliantContact.Proofs.Mechanism.Moving

/-!
All penetrations of a registry.

Each geometry is compared with those after it. So the penetrations are in the order of the pairs of
identifiers, one for each pair of geometries that can be in contact and overlap, and no others
(`Model.build_penetrations`).
-/

namespace CompliantContact

open Outcome

/-- A penetration comes before another by its first geometry, and by the second where the first is the
    same. -/
def Penetration.Before {α : Type} (p p' : Penetration α) : Prop :=
  p.a.val < p'.a.val ∨ p.a = p'.a ∧ p.b.val < p'.b.val

namespace Registry

/-! ### The order of penetrations -/

section
variable {α : Type} [Scalar α] {r : Registry α} {m : Mechanism α} {k : PositionKinematics α}
  {gs : List (Geometry α × ℕ)} {ps : List (Penetration α)}

theorem pairwise_penetrationsAmong (hgs : gs.Pairwise fun g h => g.2 < h.2) :
    (penetrationsAmong m k gs).Pairwise Penetration.Before := by
  have hids : ∀ {g h : Geometry α × ℕ} {p : Penetration α}, penetration? m k g h = some p →
    p.a = ⟨g.2⟩ ∧ p.b = ⟨h.2⟩ :=
    fun hp => Shape.penetration_ids (penetration?_eq_some_iff.mp hp).2
  induction gs with
  | nil => exact .nil
  | cons first rest ih =>
    obtain ⟨hfirst, hrest⟩ := List.pairwise_cons.mp hgs
    refine List.pairwise_append.mpr ⟨?_, ih hrest, fun p hp p' hp' => ?_⟩
    · refine List.pairwise_filterMap.mpr (hrest.imp fun {g h} hlt p hp p' hp' => ?_)
      obtain ⟨ha, hb⟩ := hids hp
      obtain ⟨ha', hb'⟩ := hids hp'
      exact .inr ⟨ha.trans ha'.symm, by rw [hb, hb']; exact hlt⟩
    · obtain ⟨g, -, hp⟩ := List.mem_filterMap.mp hp
      obtain ⟨i, j, g', h', -, hi, -, hp'⟩ := mem_penetrationsAmong_iff.mp hp'
      refine .inl ?_
      rw [(hids hp).1, (hids hp').1]
      exact hfirst g' (List.mem_of_getElem? hi)

theorem pairwise_penetrations (hps : r.penetrations m k = .ok ps) : ps.Pairwise Penetration.Before := by
  rw [(penetrations_eq_ok_iff.mp hps).2]
  refine pairwise_penetrationsAmong (List.pairwise_iff_getElem.mpr fun i j hi hj hij => ?_)
  rw [List.getElem_zipIdx, List.getElem_zipIdx]
  exact Nat.add_lt_add_left hij 0

end

/-! ### Geometries that overlap -/

section
variable {r : Registry ℝ} {m : Mechanism ℝ} {k : PositionKinematics ℝ} {a b : GeometryId} {g h : Geometry ℝ}
  {ps : List (Penetration ℝ)} {p : Penetration ℝ}

/-- Every sphere was checked as it was added. -/
theorem Made.proper (hr : r.Made) : ∀ g ∈ r.geometries, g.shape.Proper := by
  induction hr with
  | empty => exact fun g hg => absurd hg (Array.not_mem_empty g)
  | add _ _ ht ih =>
    rw [Registry.add, bind_eq_ok_iff] at ht
    obtain ⟨_, -, ht⟩ := ht
    obtain ⟨_, hshape, ht⟩ := bind_eq_ok_iff.mp ht
    cases ht
    intro g hg
    rcases Array.mem_push.mp hg with hg | rfl
    · exact ih g hg
    · intro radius hradius
      rw [hradius] at hshape
      exact (require_eq_ok_iff.mp hshape).1
  | withSurfaces _ _ ih => exact ih

/-- Where a geometry is in the world. -/
noncomputable def placeOf (k : PositionKinematics ℝ) (g : Geometry ℝ) : Pose ℝ := k.bodyPose g.body * g.pose

/-- Two geometries of a registry that penetrate: they are on two bodies, not both anchored, they are not
    both half-spaces, and they overlap. -/
structure Penetrate (r : Registry ℝ) (m : Mechanism ℝ) (k : PositionKinematics ℝ) (a b : GeometryId)
    (g h : Geometry ℝ) : Prop where
  first : r.get? a = some g
  second : r.get? b = some h
  bodies : g.body ≠ h.body
  moving : ¬ (m.layout.bodyTree? g.body = none ∧ m.layout.bodyTree? h.body = none)
  round : ¬ (g.shape = .halfSpace ∧ h.shape = .halfSpace)
  overlap : g.shape.Overlap (placeOf k g) h.shape (placeOf k h)

theorem paired_iff : paired m g h = true ↔
    g.body ≠ h.body ∧ ¬ (m.layout.bodyTree? g.body = none ∧ m.layout.bodyTree? h.body = none) := by
  simp only [paired, Bool.and_eq_true, decide_eq_true_eq, Bool.or_eq_true, ← Option.ne_none_iff_isSome,
    not_and_or, ne_eq]

/-- The shapes of a registry have positive sizes, and are placed in the world by proper rotations. -/
structure Placed (r : Registry ℝ) (k : PositionKinematics ℝ) : Prop where
  proper : ∀ g ∈ r.geometries, g.shape.Proper
  unit : ∀ g ∈ r.geometries, (placeOf k g).rotation.IsUnit

/-- A penetration is reported of two geometries iff they penetrate, and the one that was added first is
    named first. -/
theorem Placed.exists_penetration_iff (hr : r.Placed k) (hps : r.penetrations m k = .ok ps) :
    (∃ p ∈ ps, p.a = a ∧ p.b = b) ↔ a.val < b.val ∧ ∃ g h, r.Penetrate m k a b g h := by
  have hsome : ∀ {a b : GeometryId} {g h : Geometry ℝ}, r.get? a = some g → r.get? b = some h →
      ((∃ p, Shape.penetration a g.shape (placeOf k g) b h.shape (placeOf k h) = some p) ↔
        ¬ (g.shape = .halfSpace ∧ h.shape = .halfSpace) ∧
        g.shape.Overlap (placeOf k g) h.shape (placeOf k h)) := by
    intro a b g h hg hh
    have hg := Array.mem_of_getElem? hg
    have hh := Array.mem_of_getElem? hh
    rw [← Option.isSome_iff_exists]
    exact Shape.isSome_penetration_iff (hr.unit g hg) (hr.unit h hh) (hr.proper g hg) (hr.proper h hh)
  constructor
  · rintro ⟨p, hp, rfl, rfl⟩
    obtain ⟨a, b, g, h, hab, hg, hh, hpaired, hp⟩ := (mem_penetrations_iff hps).mp hp
    obtain ⟨rfl, rfl⟩ := Shape.penetration_ids hp
    obtain ⟨hbodies, hmoving⟩ := paired_iff.mp hpaired
    obtain ⟨hround, hoverlap⟩ := (hsome hg hh).mp ⟨p, hp⟩
    exact ⟨hab, g, h, hg, hh, hbodies, hmoving, hround, hoverlap⟩
  · rintro ⟨hab, g, h, hboth⟩
    obtain ⟨p, hp⟩ := (hsome hboth.first hboth.second).mpr ⟨hboth.round, hboth.overlap⟩
    exact ⟨p, (mem_penetrations_iff hps).mpr ⟨a, b, g, h, hab, hboth.first, hboth.second,
      paired_iff.mpr ⟨hboth.bodies, hboth.moving⟩, hp⟩, Shape.penetration_ids hp⟩

theorem Placed.exists_between (hr : r.Placed k) (hps : r.penetrations m k = .ok ps) (hp : p ∈ ps) :
    ∃ g h, r.get? p.a = some g ∧ r.get? p.b = some h ∧
    p.Between g.shape (placeOf k g) h.shape (placeOf k h) := by
  obtain ⟨a, b, g, h, -, hg, hh, -, hp⟩ := (mem_penetrations_iff hps).mp hp
  obtain ⟨rfl, rfl⟩ := Shape.penetration_ids hp
  have hmemG := Array.mem_of_getElem? hg
  have hmemH := Array.mem_of_getElem? hh
  exact ⟨g, h, hg, hh, Shape.between_of_penetration (hr.unit g hmemG) (hr.unit h hmemH) (hr.proper g hmemG)
    (hr.proper h hmemH) hp⟩

end

end Registry

/-! ### Models -/

/-- In every configuration of a model, a registry whose geometries are on bodies of the model reports
    its penetrations, in the strict order of their identifiers: one for each two geometries that
    penetrate, and no other. A penetration has positive depth, a unit normal and a point on the boundary
    of each of its shapes. The normal takes the first point to the second over the depth, unless the
    shapes are spheres whose centers are not one point but count as one. The rotations in which joints
    and geometries sit are of length one. -/
theorem Model.build_penetrations {bodies : List (Body ℝ)} {joints : List (Joint ℝ)}
    {elements : List (ForceElement ℝ)} {m : Model ℝ} (h : Model.build bodies joints elements = .ok m)
    (hunit : ∀ joint ∈ joints, joint.offset.rotation.IsUnit)
    {r : Registry ℝ} (hr : r.Made) (hposes : ∀ g ∈ r.geometries, g.pose.rotation.IsUnit)
    (hbodies : ∀ g ∈ r.geometries, g.body.val < m.numBodies) {q : Vec ℝ} {k : PositionKinematics ℝ}
    (hk : m.positionKinematics q = .ok k) :
    ∃ ps, r.penetrations m.toMechanism k = .ok ps ∧ ps.Pairwise Penetration.Before ∧
      (∀ a b, (∃ p ∈ ps, p.a = a ∧ p.b = b) ↔ a.val < b.val ∧ ∃ g h, r.Penetrate m.toMechanism k a b g h) ∧
      ∀ p ∈ ps, ∃ g h, r.get? p.a = some g ∧ r.get? p.b = some h ∧
        p.Between g.shape (Registry.placeOf k g) h.shape (Registry.placeOf k h) := by
  have hbuild := Model.build_mechanism h
  obtain ⟨c, hc, -⟩ := Mechanism.build_comesFrom hbuild
  have hunit := Mechanism.build_unitOffsets hbuild hunit
  obtain ⟨-, -, rfl⟩ := Mechanism.positionKinematics_eq_ok_iff.mp hk
  have hplaced : r.Placed (m.placed q) :=
    ⟨hr.proper, fun g hg => (hc.isUnit_bodyPose hunit q g.body).mul (hposes g hg)⟩
  have hps := Registry.penetrations_eq_ok_iff (k := m.placed q).mpr ⟨hbodies, rfl⟩
  exact ⟨_, hps, Registry.pairwise_penetrations hps, fun a b => hplaced.exists_penetration_iff hps,
    fun p hp => hplaced.exists_between hps hp⟩

/-! ### A bead in the floor -/

noncomputable section

def bareMaterial : Material ℝ := ⟨none, none, none⟩

def floorPlane : Geometry ℝ := ⟨"floor", .world, .identity, .halfSpace, bareMaterial⟩

/-- A ball around the bead at the end of the arm. -/
def beadBall : Geometry ℝ := Registry.sphereAt "bead" ⟨2⟩ 0 1 bareMaterial

def beadInFloor : Registry ℝ := ⟨#[floorPlane, beadBall], []⟩

end

theorem made_beadInFloor : beadInFloor.Made := by
  have hfriction : ∀ f, bareMaterial.friction = some f → f.Made := nofun
  have hfloor : Registry.empty.add floorPlane = .ok (⟨#[floorPlane], []⟩, ⟨0⟩) := rfl
  have hbead : Registry.add ⟨#[floorPlane], []⟩ beadBall = .ok (beadInFloor, ⟨1⟩) :=
    bind_eq_ok_iff.mpr ⟨(), rfl, require_bind_eq_ok_iff.mpr ⟨⟨one_pos, rfl⟩, rfl⟩⟩
  exact .add (.add .empty hfriction hfloor) hfriction hbead

theorem placed_beadInFloor : ∀ g ∈ beadInFloor.geometries, g.pose.rotation.IsUnit ∧
    g.body.val < arm.numBodies := by
  intro g hg
  rcases List.mem_cons.mp (Array.mem_toList_iff.mpr hg) with rfl | hg
  · exact ⟨Rotation.isUnit_identity, by decide⟩
  · obtain rfl := List.mem_singleton.mp hg
    exact ⟨Rotation.isUnit_identity, by decide⟩

/-- The center of the bead is on the floor. -/
theorem penetrate_beadInFloor : beadInFloor.Penetrate arm.toMechanism armOut ⟨0⟩ ⟨1⟩ floorPlane beadBall where
  first := rfl
  second := rfl
  bodies := by decide
  moving h := nomatch h.2
  round h := nomatch h.2
  overlap := by
    have hfloor : Registry.placeOf armOut floorPlane = .identity := Pose.identity_mul _
    have hbead : Registry.placeOf armOut beadBall = .ofPosition .unitX := Pose.mul_identity _
    show Shape.Overlap .halfSpace (Registry.placeOf armOut floorPlane) (.sphere 1)
      (Registry.placeOf armOut beadBall)
    rw [hfloor, hbead, Shape.overlap_comm,
      Shape.sphere_overlaps_halfSpace_iff Rotation.isUnit_identity Rotation.isUnit_identity one_pos]
    show (Rotation.identity.apply .unitZ : Vec3 ℝ).dot (.unitX - 0) < 1
    rw [Rotation.apply_identity]
    simp [Vec3.dot, Vec3.unitX, Vec3.unitZ]

theorem penetrations_beadInFloor : Model.build armBodies armJoints [] = .ok arm ∧
    arm.positionKinematics armPositions = .ok armOut ∧
    ∃ ps p, beadInFloor.penetrations arm.toMechanism armOut = .ok ps ∧ p ∈ ps ∧ p.a = ⟨0⟩ ∧ p.b = ⟨1⟩ ∧
    0 < p.depth := by
  obtain ⟨ps, hps, -, hpairs, hbetween⟩ :=
    Model.build_penetrations build_arm isUnit_armJoints made_beadInFloor
    (fun g hg => (placed_beadInFloor g hg).1) (fun g hg => (placed_beadInFloor g hg).2) positionKinematics_arm
  obtain ⟨p, hp, ha, hb⟩ := (hpairs ⟨0⟩ ⟨1⟩).mpr ⟨Nat.one_pos, floorPlane, beadBall, penetrate_beadInFloor⟩
  obtain ⟨g, h, -, -, hp'⟩ := hbetween p hp
  exact ⟨build_arm, positionKinematics_arm, ps, p, hps, hp, ha, hb, hp'.depth_pos⟩

end CompliantContact
