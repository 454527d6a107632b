import Mathlib.Data.Sym.Sym2
import CompliantContact.Proofs.Simulation.InternalFailures

/-!
Contacts under the model of both penetrations and contact surfaces.

The penetrations make their contacts first, and the faces of the surfaces follow. Neither looks at the
other: two geometries that penetrate keep their contact where a surface lies between them as well. So a
pair of geometries counts twice as soon as a penetration names it and a face of one of its surfaces
makes a contact (`counted_twice_iff`).
-/

namespace CompliantContact

open Outcome

/-- The two geometries of a contact, in no order. -/
def ContactPair.geometries {α : Type} (x : ContactPair α) : Sym2 GeometryId := s(x.a, x.b)

def Penetration.geometries {α : Type} (p : Penetration α) : Sym2 GeometryId := s(p.a, p.b)

def ContactSurface.geometries {α : Type} (s : ContactSurface α) : Sym2 GeometryId := s(s.m, s.n)

namespace Discretizer

section
variable {α : Type} [Scalar α] {d : Discretizer α} {k : PositionKinematics α} {pairs : List (ContactPair α)}
  {g : Sym2 GeometryId}

/-- Every penetration has its contact. -/
theorem exists_point_iff {ps : List (Penetration α)} {points : List (ContactPair α)}
    (h : ps.map d.pointPair = points.map .ok) : (∃ x ∈ points, x.geometries = g) ↔
    ∃ p ∈ ps, p.geometries = g := by
  constructor
  · rintro ⟨x, hx, rfl⟩
    obtain ⟨p, hp, hmade⟩ := List.mem_map.mp (h.symm ▸ List.mem_map_of_mem hx)
    obtain ⟨ha, hb, -⟩ := pointPair_eq_ok hmade
    exact ⟨p, hp, by rw [Penetration.geometries, ContactPair.geometries, ha, hb]⟩
  · rintro ⟨p, hp, rfl⟩
    obtain ⟨x, hx, hmade⟩ := List.mem_map.mp (h ▸ List.mem_map_of_mem hp)
    obtain ⟨ha, hb, -⟩ := pointPair_eq_ok hmade.symm
    exact ⟨x, hx, by rw [Penetration.geometries, ContactPair.geometries, ha, hb]⟩

/-- A contact surface has contacts if one of its faces bears. -/
theorem exists_face_iff {ss : List (ContactSurface α)} {patches : List (List (ContactPair α))}
    (h : ss.map d.patch = patches.map .ok) : (∃ y ∈ patches.flatten, y.geometries = g) ↔
      ∃ s ∈ ss, s.geometries = g ∧ ∃ f ∈ s.faces, Bears f := by
  constructor
  · rintro ⟨y, hy, rfl⟩
    obtain ⟨patch, hpatch, hy⟩ := List.mem_flatten.mp hy
    obtain ⟨s, hs, hmade⟩ := List.mem_map.mp (h.symm ▸ List.mem_map_of_mem hpatch)
    obtain ⟨hbears, hnames⟩ := patch_eq_ok hmade
    obtain ⟨hm, hn⟩ := hnames y hy
    exact ⟨s, hs, by rw [ContactSurface.geometries, ContactPair.geometries, hm, hn],
      hbears.mp (List.ne_nil_of_mem hy)⟩
  · rintro ⟨s, hs, rfl, hface⟩
    obtain ⟨patch, hpatch, hmade⟩ := List.mem_map.mp (h ▸ List.mem_map_of_mem hs)
    obtain ⟨hbears, hnames⟩ := patch_eq_ok hmade.symm
    obtain ⟨y, hy⟩ := List.exists_mem_of_ne_nil _ (hbears.mpr hface)
    obtain ⟨hm, hn⟩ := hnames y hy
    exact ⟨y, List.mem_flatten_of_mem hpatch hy,
      by rw [ContactSurface.geometries, ContactPair.geometries, hm, hn]⟩

/-- The contacts are those of the penetrations in their order, then those of the contact surfaces, face
    by face. Two geometries have contacts among both exactly if a penetration names them, and so does a
    surface with a face that makes a contact, in whichever order. -/
theorem counted_twice_iff (h : d.contactPairs k .hydroelasticWithFallback = .ok pairs) :
    ∃ (ps : List (Penetration α)) (ss : List (ContactSurface α)) (points : List (ContactPair α))
        (patches : List (List (ContactPair α))),
      d.query.penetrations d.mechanism k = .ok ps ∧ d.query.surfaces d.mechanism k = .ok ss ∧
        ps.map d.pointPair = points.map .ok ∧ ss.map d.patch = patches.map .ok ∧
        pairs = points ++ patches.flatten ∧
          ∀ g : Sym2 GeometryId, ((∃ x ∈ points, x.geometries = g) ∧
            ∃ y ∈ patches.flatten, y.geometries = g) ↔
            (∃ p ∈ ps, p.geometries = g) ∧ ∃ s ∈ ss, s.geometries = g ∧ ∃ f ∈ s.faces, Bears f := by
  obtain ⟨points, faces, hpoints, hfaces, rfl⟩ := contactPairs_eq_ok_iff.mp h
  obtain ⟨hnone, -⟩ | ⟨-, ps, hps, hmade, -⟩ := penetrationPairs_eq_ok hpoints
  · cases hnone
  obtain ⟨ss, patches, hss, hpatches, rfl⟩ := surfacePairs_eq_ok hfaces rfl
  exact ⟨ps, ss, points, patches, hps, hss, hmade, hpatches, rfl, fun g =>
    and_congr (exists_point_iff hmade) (exists_face_iff hpatches)⟩

end

/-! ### A sphere over a plane, with a contact surface -/

noncomputable section

/-- A face between a compliant sphere and a rigid plane. -/
def bearingFace : SurfaceFace ℝ := ⟨1, .unitZ, 0, .vertices 1 1 1, some .unitZ, none⟩

/-- The geometries are in the other order than in the penetration. -/
def bearingSurface : ContactSurface ℝ := ⟨⟨1⟩, ⟨0⟩, .triangle, [bearingFace]⟩

def surfaced : Discretizer ℝ :=
  ⟨((Simulator.planeAndSphere ⟨1⟩).withSurfaces [bearingSurface]).query, ball, 1⟩

end

theorem bears_bearingFace : Bears bearingFace := by
  have hm : (sideGradients bearingFace).1 = some 1 := by
    simp [sideGradients, bearingFace, Vec3.dot, Vec3.unitZ]
  have hn : (sideGradients bearingFace).2 = none := rfl
  rw [Bears, hm, hn]
  refine ⟨?_, ?_, rfl, ?_⟩
  · norm_num [minFaceArea, Scalar.decimal, bearingFace]
  · norm_num [gradientSuffices, minPressureGradient, Scalar.decimal]
  · norm_num [compliance, bearingFace]

theorem exists_patch_surfaced : ∃ patch, surfaced.patch bearingSurface = .ok patch := by
  have hmaterial : surfaced.surfaceMaterial bearingSurface =
      .ok (combineDissipationTimes 0 0, combineFrictions 1 1) := by
    simp only [surfaceMaterial, bind_eq_ok_iff]
    exact ⟨rubber, rfl, rubber, rfl, 0, (rubber_ok 0 _).2.1, 0, (rubber_ok 0 _).2.1, 1,
      (rubber_ok 0 "").2.2, 1, (rubber_ok 0 "").2.2, rfl⟩
  have hface : facePair bearingSurface (combineDissipationTimes 0 0)
    (combineFrictions 1 1) bearingFace = .ok (some _) :=
    facePair_of_bears bears_bearingFace rfl rfl
  exact ⟨_, bind_eq_ok_iff.mpr ⟨_, hmaterial,
    bind_eq_ok_iff.mpr ⟨[_], mapM_eq_ok_iff.mpr (congrArg (fun x => [x]) hface), rfl⟩⟩⟩

/-- The sphere is in the plane, and the surface between them bears. -/
theorem exists_pairs_surfaced : ∃ k p points faces, ball.positionKinematics (.zeros 1) = .ok k ∧
    surfaced.query.penetrations surfaced.mechanism k = .ok [p] ∧ p.geometries = s(⟨0⟩, ⟨1⟩) ∧
      surfaced.penetrationPairs k .hydroelasticWithFallback = .ok points ∧
        surfaced.surfacePairs k .hydroelasticWithFallback = .ok faces := by
  obtain ⟨k, hk, -⟩ := kinematics_ball none none (.zeros 1) rfl
  obtain ⟨p, hp, ha, hb⟩ := Simulator.exists_penetrations_sphereOverPlane hk
  obtain ⟨pair, hpair, -⟩ := Simulator.exists_pairs_sphereOverPlane hk
  obtain ⟨points, -, hpoints, -, -⟩ := contactPairs_eq_ok_iff.mp hpair
  obtain ⟨patch, hpatch⟩ := exists_patch_surfaced
  have hfaces : surfaced.surfacePairs k .hydroelasticWithFallback = .ok patch := by
    refine bind_eq_ok_iff.mpr ⟨[bearingSurface], rfl, ?_⟩
    rw [complete_appendSurfaces, List.mapM_cons, hpatch]
    exact congrArg Except.ok (List.append_nil _)
  exact ⟨k, p, points, patch, hk, hp, by rw [Penetration.geometries, ha, hb], hpoints, hfaces⟩

theorem covered_surfaced : ∃ s ∈ [bearingSurface], s.geometries = s(⟨0⟩, ⟨1⟩) ∧ ∃ f ∈ s.faces, Bears f :=
  ⟨bearingSurface, List.mem_singleton_self _, Sym2.eq_swap, bearingFace, List.mem_singleton_self _,
    bears_bearingFace⟩

/-- The sphere in the plane counts twice. -/
theorem counted_twice_surfaced : ∃ k p points patches, ball.positionKinematics (.zeros 1) = .ok k ∧
    surfaced.contactPairs k .hydroelasticWithFallback = .ok (points ++ List.flatten patches) ∧
      surfaced.query.penetrations surfaced.mechanism k = .ok [p] ∧
      [p].map surfaced.pointPair = points.map .ok ∧
        [bearingSurface].map surfaced.patch = patches.map .ok ∧
          (∃ x ∈ points, x.geometries = s(⟨0⟩, ⟨1⟩)) ∧ ∃ y ∈ patches.flatten, y.geometries = s(⟨0⟩, ⟨1⟩) := by
  obtain ⟨k, p, points, faces, hk, hp, hnames, hpoints, hfaces⟩ := exists_pairs_surfaced
  have hpairs := contactPairs_eq_ok_iff.mpr ⟨points, faces, hpoints, hfaces, rfl⟩
  obtain ⟨ps, ss, points, patches, hps, hss, hmade, hpatches, heq, hcounted⟩ := counted_twice_iff hpairs
  obtain rfl : [p] = ps := Except.ok.inj (hp.symm.trans hps)
  obtain rfl : [bearingSurface] = ss := Except.ok.inj hss
  have hboth := (hcounted s(⟨0⟩, ⟨1⟩)).mpr ⟨⟨p, List.mem_singleton_self p, hnames⟩, covered_surfaced⟩
  exact ⟨k, p, points, patches, hk, heq ▸ hpairs, hps, hmade, hpatches, hboth⟩

/-- So a surface between two geometries does not take the place of the contact that their penetration
    makes. -/
theorem surface_beside_point_surfaced : ∃ k points faces x y, ball.positionKinematics (.zeros 1) = .ok k ∧
    surfaced.contactPairs k .hydroelasticWithFallback = .ok (points ++ faces) ∧
      surfaced.penetrationPairs k .hydroelasticWithFallback = .ok points ∧
        surfaced.surfacePairs k .hydroelasticWithFallback = .ok faces ∧
          x ∈ points ∧ y ∈ faces ∧ x.geometries = y.geometries := by
  obtain ⟨k, p, points, faces, hk, hp, hnames, hpoints, hfaces⟩ := exists_pairs_surfaced
  obtain ⟨hnone, -⟩ | ⟨-, ps, hps, hmade, -⟩ := penetrationPairs_eq_ok hpoints
  · cases hnone
  obtain ⟨ss, patches, hss, hpatches, rfl⟩ := surfacePairs_eq_ok hfaces rfl
  obtain rfl : [p] = ps := Except.ok.inj (hp.symm.trans hps)
  obtain rfl : [bearingSurface] = ss := Except.ok.inj hss
  obtain ⟨x, hx, hxg⟩ := (exists_point_iff hmade).mpr ⟨p, List.mem_singleton_self p, hnames⟩
  obtain ⟨y, hy, hyg⟩ := (exists_face_iff hpatches).mpr covered_surfaced
  exact ⟨k, points, patches.flatten, x, y, hk,
    contactPairs_eq_ok_iff.mpr ⟨points, _, hpoints, hfaces, rfl⟩, hpoints,
    hfaces, hx, hy, hxg.trans hyg.symm⟩

end Discretizer

end CompliantContact
