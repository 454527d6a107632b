import CompliantContact.Contact.Registry
import CompliantContact.Proofs.Space.Length
import Mathlib.Tactic.FieldSimp

/-!
Shapes in the world, where they overlap, and what is reported of it.

A shape is the points of its interior and of its boundary in its own frame, and its pose places them in
the world. Two shapes overlap where their interiors have a point in common. Of two shapes that overlap,
and are not both half-spaces, a penetration is reported (`Shape.isSome_penetration_iff`), with a point
on the boundary of each (`Shape.between_of_penetration`).
-/

namespace CompliantContact

/-- Where a pose places the points of a set. -/
def Pose.Places (a : Pose ℝ) (S : Vec3 ℝ → Prop) (p : Vec3 ℝ) : Prop := ∃ u, S u ∧ a.apply u = p

theorem Pose.places_iff {a : Pose ℝ} (ha : a.rotation.IsUnit) {S T : Vec3 ℝ → Prop}
    (h : ∀ u, S u ↔ T (a.apply u)) {p : Vec3 ℝ} :
    a.Places S p ↔ T p := by
  constructor
  · rintro ⟨u, hu, rfl⟩
    exact (h u).mp hu
  · intro hp
    obtain ⟨u, rfl⟩ := exists_apply_eq ha p
    exact ⟨u, (h u).mpr hp, rfl⟩

namespace Shape

/-! ### Points of shapes -/

/-- The points inside a shape, off its boundary. -/
def Interior : Shape ℝ → Vec3 ℝ → Prop
  | sphere radius, u => u.norm < radius
  | halfSpace, u => u.z < 0

def Boundary : Shape ℝ → Vec3 ℝ → Prop
  | sphere radius, u => u.norm = radius
  | halfSpace, u => u.z = 0

/-- Some point is inside both of two shapes. -/
def Overlap (shapeA : Shape ℝ) (poseA : Pose ℝ) (shapeB : Shape ℝ) (poseB : Pose ℝ) : Prop :=
  ∃ p, poseA.Places shapeA.Interior p ∧ poseB.Places shapeB.Interior p

/-- A sphere has a positive radius. -/
def Proper (s : Shape ℝ) : Prop := ∀ radius, s = .sphere radius → 0 < radius

section
variable {a : Pose ℝ} {radius : ℝ} {p : Vec3 ℝ}

theorem places_interior_sphere (ha : a.rotation.IsUnit) :
    a.Places (sphere radius).Interior p ↔ (p - a.position).norm < radius :=
  Pose.places_iff (T := fun p => (p - a.position).norm < radius) ha fun u => by
    rw [Pose.norm_apply_sub ha, Interior]

theorem places_boundary_sphere (ha : a.rotation.IsUnit) :
    a.Places (sphere radius).Boundary p ↔ (p - a.position).norm = radius :=
  Pose.places_iff (T := fun p => (p - a.position).norm = radius) ha fun u => by
    rw [Pose.norm_apply_sub ha, Boundary]

theorem places_interior_halfSpace (ha : a.rotation.IsUnit) :
    a.Places halfSpace.Interior p ↔ (a.rotation.apply .unitZ).dot (p - a.position) < 0 :=
  Pose.places_iff (T := fun p => (a.rotation.apply .unitZ).dot (p - a.position) < 0) ha fun u => by
    rw [Pose.dot_apply_sub ha, Interior]

theorem places_boundary_halfSpace (ha : a.rotation.IsUnit) :
    a.Places halfSpace.Boundary p ↔ (a.rotation.apply .unitZ).dot (p - a.position) = 0 :=
  Pose.places_iff (T := fun p => (a.rotation.apply .unitZ).dot (p - a.position) = 0) ha fun u => by
    rw [Pose.dot_apply_sub ha, Boundary]

end

/-! ### Overlaps -/

section
variable {c d n o : Vec3 ℝ} {r s : ℝ}

/-- Two open balls meet on the line between their centers, which the point divides as the radii do. -/
theorem balls_meet_iff (hr : 0 < r) (hs : 0 < s) :
    (∃ p : Vec3 ℝ, (p - c).norm < r ∧ (p - d).norm < s) ↔ (c - d).norm < r + s := by
  constructor
  · rintro ⟨p, hc, hd⟩
    have htriangle := Vec3.norm_sub_le c p d
    rw [Vec3.norm_sub_comm c p] at htriangle
    linarith
  · intro hclose
    have hsum : 0 < r + s := add_pos hr hs
    have hfromC : c + (d - c) * (r / (r + s)) - c = (d - c) * (r / (r + s)) := by ext <;> simp
    have hfromD : c + (d - c) * (r / (r + s)) - d = (c - d) * (s / (r + s)) := by
      ext <;> simp <;> field_simp <;> ring
    refine ⟨c + (d - c) * (r / (r + s)), ?_, ?_⟩
    · rw [hfromC, Vec3.norm_mul, Vec3.norm_sub_comm, abs_of_pos (div_pos hr hsum), ← mul_div_assoc,
        div_lt_iff₀ hsum]
      exact (mul_lt_mul_of_pos_right hclose hr).trans_eq (mul_comm ..)
    · rw [hfromD, Vec3.norm_mul, abs_of_pos (div_pos hs hsum), ← mul_div_assoc, div_lt_iff₀ hsum]
      exact (mul_lt_mul_of_pos_right hclose hs).trans_eq (mul_comm ..)

/-- An open ball and an open half-space meet on the line from the center along the normal. -/
theorem ball_meets_halfSpace_iff (hn : n.norm = 1) (hr : 0 < r) :
    (∃ p : Vec3 ℝ, (p - c).norm < r ∧ n.dot (p - o) < 0) ↔ n.dot (c - o) < r := by
  constructor
  · rintro ⟨p, hp, hbelow⟩
    have hsplit : n.dot (p - o) = n.dot (c - o) + n.dot (p - c) := by
      rw [← Vec3.dot_add]
      congr 1
      ext <;> simp
    have hdot := (abs_le.mp (n.abs_dot_le (p - c))).1
    rw [hn, one_mul] at hdot
    linarith
  · intro hlow
    -- Below the center by less than the radius, and by more than the height of the center.
    obtain ⟨x, hx, hx', hheight⟩ : ∃ x, 0 ≤ x ∧ x < r ∧ n.dot (c - o) < x := by
      obtain ⟨x, hx, hxr⟩ := exists_between (max_lt hr hlow)
      exact ⟨x, ((le_max_left ..).trans_lt hx).le, hxr, (le_max_right ..).trans_lt hx⟩
    have hfrom : c - n * x - c = n * -x := by ext <;> simp
    have hsplit : c - n * x - o = c - o - n * x := by ext <;> simp <;> ring
    refine ⟨c - n * x, ?_, ?_⟩
    · rw [hfrom, Vec3.norm_mul, hn, one_mul, abs_neg, abs_of_nonneg hx]
      exact hx'
    · rw [hsplit, Vec3.dot_sub, Vec3.dot_mul, Vec3.dot_self_of_norm hn, one_mul]
      exact sub_neg.mpr hheight

end

section
variable {a b : GeometryId} {shapeA shapeB : Shape ℝ} {poseA poseB : Pose ℝ} {p : Penetration ℝ} {radius : ℝ}

theorem overlap_comm : Overlap shapeA poseA shapeB poseB ↔ Overlap shapeB poseB shapeA poseA :=
  exists_congr fun _ => and_comm

theorem norm_apply_unitZ (ha : poseA.rotation.IsUnit) : (poseA.rotation.apply .unitZ : Vec3 ℝ).norm = 1 := by
  rw [ha.norm_apply, Vec3.norm_unitZ]

theorem spheres_overlap_iff (ha : poseA.rotation.IsUnit) (hb : poseB.rotation.IsUnit) {r s : ℝ}
    (hr : 0 < r) (hs : 0 < s) :
    Overlap (.sphere r) poseA (.sphere s) poseB ↔ (poseA.position - poseB.position).norm < r + s := by
  simp only [Overlap, places_interior_sphere ha, places_interior_sphere hb]
  exact balls_meet_iff hr hs

theorem sphere_overlaps_halfSpace_iff (ha : poseA.rotation.IsUnit) (hb : poseB.rotation.IsUnit)
    (hr : 0 < radius) :
    Overlap (.sphere radius) poseA .halfSpace poseB ↔
      (poseB.rotation.apply .unitZ).dot (poseA.position - poseB.position) < radius := by
  simp only [Overlap, places_interior_sphere ha, places_interior_halfSpace hb]
  exact ball_meets_halfSpace_iff (norm_apply_unitZ hb) hr

/-! ### Penetrations -/

/-- Two spheres whose centers are not one point, but so close that they count as one. -/
def NearlyConcentric (shapeA : Shape ℝ) (poseA : Pose ℝ) (shapeB : Shape ℝ) (poseB : Pose ℝ) : Prop :=
  shapeA ≠ .halfSpace ∧ shapeB ≠ .halfSpace ∧ poseA.position ≠ poseB.position ∧
    (poseA.position - poseB.position).norm ≤ coincidentCenters

end

end Shape

/-- What is reported of two shapes that overlap: points on their boundaries, which the normal takes to
    one another over the depth. -/
structure Penetration.Between (p : Penetration ℝ) (shapeA : Shape ℝ) (poseA : Pose ℝ) (shapeB : Shape ℝ)
    (poseB : Pose ℝ) : Prop where
  depth_pos : 0 < p.depth
  unit : p.normal.norm = 1
  onA : poseA.Places shapeA.Boundary p.pointA
  onB : poseB.Places shapeB.Boundary p.pointB
  apart : ¬ Shape.NearlyConcentric shapeA poseA shapeB poseB → p.pointB - p.pointA = p.normal * p.depth

namespace Shape

variable {a b : GeometryId} {shapeA shapeB : Shape ℝ} {poseA poseB : Pose ℝ} {p : Penetration ℝ} {radius : ℝ}

theorem coincidentCenters_pos : 0 < (coincidentCenters : ℝ) := by
  show (0 : ℝ) < (1 : ℕ) * 10 ^ (-12 : ℤ)
  positivity

/-- A sphere overlaps a half-space if its center is less than a radius above the plane. -/
theorem spherePlane_eq_some_iff {sphere plane : Pose ℝ} {c : SpherePlaneContact ℝ} :
    spherePlane sphere radius plane = some c ↔
      (plane.rotation.apply .unitZ).dot (sphere.position - plane.position) < radius ∧ c = {
        onPlane := sphere.position -
          plane.rotation.apply .unitZ * (plane.rotation.apply .unitZ).dot (sphere.position - plane.position)
        onSphere := sphere.position - plane.rotation.apply .unitZ * radius
        normal := plane.rotation.apply .unitZ
        depth := radius - (plane.rotation.apply .unitZ).dot (sphere.position - plane.position) } := by
  simp only [spherePlane, sub_nonpos]
  split
  case isTrue h => exact ⟨nofun, fun h' => absurd h'.1 h.not_gt⟩
  case isFalse h =>
    rw [Option.some.injEq, eq_comm]
    exact (and_iff_right (not_le.mp h)).symm

theorem isSome_spherePlane_iff {sphere plane : Pose ℝ} : (spherePlane sphere radius plane).isSome = true ↔
    (plane.rotation.apply .unitZ).dot (sphere.position - plane.position) < radius := by
  simp only [Option.isSome_iff_exists, spherePlane_eq_some_iff, exists_and_left, exists_eq, and_true]

/-- A penetration is reported of shapes that overlap and are not both half-spaces. -/
theorem isSome_penetration_iff (ha : poseA.rotation.IsUnit) (hb : poseB.rotation.IsUnit)
    (hproperA : shapeA.Proper)
    (hproperB : shapeB.Proper) : (penetration a shapeA poseA b shapeB poseB).isSome = true ↔
      ¬ (shapeA = .halfSpace ∧ shapeB = .halfSpace) ∧ Overlap shapeA poseA shapeB poseB := by
  cases shapeA with
  | sphere ra =>
    have hra := hproperA ra rfl
    cases shapeB with
    | sphere rb =>
      rw [spheres_overlap_iff ha hb hra (hproperB rb rfl)]
      simp only [penetration, sub_nonpos]
      split <;> simp_all
    | halfSpace =>
      rw [sphere_overlaps_halfSpace_iff ha hb hra]
      simp only [penetration, Option.isSome_map, isSome_spherePlane_iff]
      simp
  | halfSpace =>
    cases shapeB with
    | sphere rb =>
      rw [overlap_comm, sphere_overlaps_halfSpace_iff hb ha (hproperB rb rfl)]
      simp only [penetration, Option.isSome_map, isSome_spherePlane_iff]
      simp
    | halfSpace => simp [penetration]

/-- The point of a sphere that a unit vector leads to from the center. -/
theorem places_boundary_of_unit (ha : poseA.rotation.IsUnit) {n : Vec3 ℝ} (hn : n.norm = 1) {x : ℝ}
    (hx : |x| = radius) {q : Vec3 ℝ} (hq : q - poseA.position = n * x) :
    poseA.Places (sphere radius).Boundary q := by
  rw [places_boundary_sphere ha, hq, Vec3.norm_mul, hn, one_mul, hx]

theorem spheres_between (ha : poseA.rotation.IsUnit) (hb : poseB.rotation.IsUnit) {ra rb : ℝ}
    (hra : 0 < ra) (hrb : 0 < rb) (h : penetration a (.sphere ra) poseA b (.sphere rb) poseB = some p) :
    p.Between (.sphere ra) poseA (.sphere rb) poseB := by
  simp only [penetration, sub_nonpos] at h
  split at h
  case isTrue => cases h
  case isFalse hclose =>
    cases h
    have hunit : (if coincidentCenters < (poseA.position - poseB.position).norm then
        (poseA.position - poseB.position) / (poseA.position - poseB.position).norm else .unitZ :
        Vec3 ℝ).norm = 1 := by
      split
      case isTrue hfar => exact Vec3.norm_div_self (coincidentCenters_pos.trans hfar).ne'
      case isFalse => exact Vec3.norm_unitZ
    refine ⟨sub_pos.mpr (not_le.mp hclose), hunit, places_boundary_of_unit (x := -ra) ha hunit ?_ ?_,
      places_boundary_of_unit (x := rb) hb hunit (abs_of_pos hrb) ?_, fun hnear => ?_⟩
    · rw [abs_neg, abs_of_pos hra]
    · ext <;> simp
    · ext <;> simp
    · split
      case isTrue hfar =>
        have hnorm := (coincidentCenters_pos.trans hfar).ne'
        generalize hd : (poseA.position - poseB.position).norm = dist at *
        ext <;> simp <;> field_simp <;> ring
      case isFalse hfar =>
        have hsame : poseA.position = poseB.position := by
          by_contra hne
          exact hnear ⟨nofun, nofun, hne, not_lt.mp hfar⟩
        have hzero : poseB.position - poseB.position = 0 := by ext <;> simp
        rw [hsame, hzero, Vec3.norm_zero]
        ext <;> simp <;> ring

theorem sphere_halfSpace_between (ha : poseA.rotation.IsUnit) (hb : poseB.rotation.IsUnit) (hr : 0 < radius)
    {c : SpherePlaneContact ℝ} (h : spherePlane poseA radius poseB = some c) : 0 < c.depth ∧
    c.normal.norm = 1 ∧
      poseA.Places (sphere radius).Boundary c.onSphere ∧ poseB.Places halfSpace.Boundary c.onPlane ∧
      c.onPlane - c.onSphere = c.normal * c.depth := by
  obtain ⟨hlow, rfl⟩ := spherePlane_eq_some_iff.mp h
  have hunit := norm_apply_unitZ hb
  refine ⟨sub_pos.mpr hlow, hunit, places_boundary_of_unit (x := -radius) ha hunit ?_ ?_, ?_, ?_⟩
  · rw [abs_neg, abs_of_pos hr]
  · ext <;> simp
  · rw [places_boundary_halfSpace hb]
    generalize poseB.rotation.apply .unitZ = n at *
    have hsplit : poseA.position - n * n.dot (poseA.position - poseB.position) - poseB.position =
        poseA.position - poseB.position - n * n.dot (poseA.position - poseB.position) := by
          ext <;> simp <;> ring
    rw [hsplit, Vec3.dot_sub, Vec3.dot_mul, Vec3.dot_self_of_norm hunit, one_mul, sub_self]
  · generalize (poseB.rotation.apply .unitZ).dot (poseA.position - poseB.position) = height
    ext <;> simp <;> ring

theorem between_of_penetration (ha : poseA.rotation.IsUnit) (hb : poseB.rotation.IsUnit)
    (hproperA : shapeA.Proper)
    (hproperB : shapeB.Proper) (h : penetration a shapeA poseA b shapeB poseB = some p) :
    p.Between shapeA poseA shapeB poseB := by
  cases shapeA with
  | sphere ra =>
    cases shapeB with
    | sphere rb => exact spheres_between ha hb (hproperA ra rfl) (hproperB rb rfl) h
    | halfSpace =>
      obtain ⟨c, hc, rfl⟩ := Option.map_eq_some_iff.mp h
      obtain ⟨hdepth, hunit, honSphere, honPlane, hapart⟩ :=
        sphere_halfSpace_between ha hb (hproperA ra rfl) hc
      exact ⟨hdepth, hunit, honSphere, honPlane, fun _ => hapart⟩
  | halfSpace =>
    cases shapeB with
    | sphere rb =>
      obtain ⟨c, hc, rfl⟩ := Option.map_eq_some_iff.mp h
      obtain ⟨hdepth, hunit, honSphere, honPlane, hapart⟩ :=
        sphere_halfSpace_between hb ha (hproperB rb rfl) hc
      refine ⟨hdepth, (Vec3.norm_neg _).trans hunit, honPlane, honSphere, fun _ => ?_⟩
      -- The first shape is the half-space now, so both the normal and the way between the points are
      -- turned about.
      have hturned : c.onSphere - c.onPlane = -(c.onPlane - c.onSphere) := by ext <;> simp
      rw [hturned, hapart]
      ext <;> simp
    | halfSpace => cases h

end Shape

end CompliantContact
