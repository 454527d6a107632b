import Mathlib.Data.List.ReduceOption
import CompliantContact.Contact.Pair
import CompliantContact.Proofs.Outcome

/-!
The contacts that the geometry engine's findings make.

First come those of the penetrations, one for each and in their order, then those of the contact
surfaces. The contacts of either do not depend on the others. A contact surface makes its contacts face
by face, as far as the faces bear.
-/

namespace CompliantContact

open Outcome

/-- The number of penetrations at a configuration. -/
def GeometryQuery.numPenetrations {α : Type} [Scalar α] (query : GeometryQuery α) (m : Mechanism α)
    (k : PositionKinematics α) : Nat :=
  match query.penetrations m k with
  | .ok ps => ps.length
  | .error _ => 0

namespace Discretizer

variable {α β : Type} [Scalar α] {found : β → Outcome α (Option (ContactPair α))}
  {f : β → Outcome α (ContactPair α)} {pairs : List (ContactPair α)} {xs : List β}

omit [Scalar α] in
theorem complete_eq_ok_iff {x : Found α} : complete x = .ok pairs ↔ x = (pairs, .ok ()) := by
  obtain ⟨pairs', o⟩ := x
  cases o with
  | error e => exact ⟨fun h => (by cases h), fun h => (by cases h)⟩
  | ok u => exact ⟨fun h => by cases h; rfl, fun h => by cases h; rfl⟩

omit [Scalar α] in
/-- The contacts before make no difference. -/
theorem collect_append (found : β → Outcome α (Option (ContactPair α))) (pairs : List (ContactPair α))
    (xs : List β) :
    collect found pairs xs = (pairs ++ (collect found [] xs).1, (collect found [] xs).2) := by
  induction xs generalizing pairs with
  | nil => simp [collect]
  | cons x xs ih =>
    rw [collect, collect]
    cases found x with
    | error e => simp
    | ok o =>
      cases o with
      | none => exact ih pairs
      | some pair =>
        simp only [List.nil_append]
        rw [ih (pairs ++ [pair]), ih [pair], List.append_assoc]

omit [Scalar α] in
theorem collect_eq_ok_iff : collect (fun x => (f x).map some) [] xs = (pairs, .ok ()) ↔
    xs.map f = pairs.map .ok := by
  induction xs generalizing pairs with
  | nil =>
    rw [collect, List.map_nil, eq_comm (a := []), List.map_eq_nil_iff, Prod.mk.injEq, eq_comm]
    exact and_iff_left rfl
  | cons x xs ih =>
    rw [collect, List.map_cons]
    cases f x with
    | error e =>
      refine ⟨fun h => (by cases h), fun h => ?_⟩
      cases pairs <;> cases h
    | ok pair =>
      show collect _ ([] ++ [pair]) xs = _ ↔ _
      rw [collect_append, List.nil_append]
      cases pairs with
      | nil => exact ⟨fun h => (by cases h), fun h => (by cases h)⟩
      | cons pair' pairs =>
        rw [List.map_cons, List.cons.injEq, ← ih, Prod.mk.injEq, List.singleton_append, List.cons.injEq,
          Except.ok.injEq, Prod.ext_iff, and_assoc]

theorem appendSurfaces_append (d : Discretizer α) (pairs : List (ContactPair α))
    (ss : List (ContactSurface α)) :
    d.appendSurfaces pairs ss = (pairs ++ (d.appendSurfaces [] ss).1, (d.appendSurfaces [] ss).2) := by
  induction ss generalizing pairs with
  | nil => simp [appendSurfaces]
  | cons s ss ih =>
    rw [appendSurfaces, appendSurfaces]
    cases d.surfaceMaterial s with
    | error e => simp
    | ok m =>
      obtain ⟨tau, mu⟩ := m
      simp only
      rw [collect_append]
      cases hfaces : collect (facePair s tau mu) [] s.faces with
      | mk faces o =>
        cases o with
        | error e => rfl
        | ok u =>
          simp only
          rw [ih (pairs ++ faces), ih faces, List.append_assoc]

omit [Scalar α] in
theorem complete_append (pairs : List (ContactPair α)) (x : Found α) :
    complete (pairs ++ x.1, x.2) = (complete x).map (pairs ++ ·) := by
  obtain ⟨pairs', o⟩ := x
  cases o <;> rfl

omit [Scalar α] in
/-- The search visits a list in order, and keeps what is there. -/
theorem complete_collect (found : β → Outcome α (Option (ContactPair α))) (xs : List β) :
    complete (collect found [] xs) = (xs.mapM found).map List.reduceOption := by
  induction xs with
  | nil => rfl
  | cons x xs ih =>
    rw [collect, List.mapM_cons]
    cases found x with
    | error e => rfl
    | ok o =>
      cases o with
      | none =>
        simp only
        rw [ih]
        cases xs.mapM found <;> rfl
      | some pair =>
        simp only [List.nil_append]
        rw [collect_append, complete_append, ih]
        cases xs.mapM found <;> rfl

/-- The contacts of a contact surface, in the order of its faces. -/
def patch (d : Discretizer α) (s : ContactSurface α) : Outcome α (List (ContactPair α)) := do
  let (tau, mu) ← d.surfaceMaterial s
  let made ← s.faces.mapM (facePair s tau mu)
  return made.reduceOption

theorem patch_eq {d : Discretizer α} {s : ContactSurface α} {tau mu : α}
    (h : d.surfaceMaterial s = .ok (tau, mu)) :
    d.patch s = complete (collect (facePair s tau mu) [] s.faces) := by
  rw [patch, h, complete_collect]
  show (do let made ← s.faces.mapM (facePair s tau mu); return made.reduceOption) = _
  cases s.faces.mapM (facePair s tau mu) <;> rfl

/-- Whether a face makes a contact: it has area, enough gradient on both sides, and stiffness from them. -/
def Bears (f : SurfaceFace α) : Prop :=
  minFaceArea < f.area ∧ gradientSuffices (sideGradients f).1 = true ∧
  gradientSuffices (sideGradients f).2 = true ∧
    0 < f.area * (1 / (compliance (sideGradients f).1 + compliance (sideGradients f).2))

/-- The contact of a face at the centroid of which there is a pressure. -/
def faceContact (s : ContactSurface α) (tau mu : α) (f : SurfaceFace α) (pressure : α) : ContactPair α where
  a := s.m
  b := s.n
  point := f.centroid
  normal := f.normal
  phi := -pressure / (1 / (compliance (sideGradients f).1 + compliance (sideGradients f).2))
  stiffness := f.area * (1 / (compliance (sideGradients f).1 + compliance (sideGradients f).2))
  dissipationTime := tau
  friction := mu

/-- A face that bears makes its contact, and a face that does not makes none. A face of some area has a
    compliant side. -/
theorem facePair_eq_ok {s : ContactSurface α} {tau mu : α} {f : SurfaceFace α} {o : Option (ContactPair α)}
    (h : facePair s tau mu f = .ok o) : (o.isSome = true ↔ Bears f) ∧
      (minFaceArea < f.area → ¬ (f.gradientM = none ∧ f.gradientN = none)) ∧
      ∀ pair ∈ o, ∃ pressure, f.pressure.atCentroid s.mesh f.centroid = .ok pressure ∧
      pair = faceContact s tau mu f pressure := by
  rw [facePair] at h
  split at h
  case isTrue harea =>
    cases h
    exact ⟨⟨nofun, fun hbears => absurd hbears.1 harea⟩, fun h => absurd h harea, nofun⟩
  split at h
  case isTrue => cases h
  case isFalse harea hside =>
    have hside : minFaceArea < f.area → ¬ (f.gradientM = none ∧ f.gradientN = none) := fun _ hrigid =>
      hside (by rw [hrigid.1, hrigid.2]; rfl)
    simp only at h
    split at h
    case isTrue hgradient =>
      cases h
      exact ⟨⟨nofun, fun hbears => absurd ⟨hbears.2.1, hbears.2.2.1⟩ hgradient⟩, hside, nofun⟩
    case isFalse hgradient =>
      obtain ⟨pressure, hpressure, h⟩ := bind_eq_ok_iff.mp h
      obtain ⟨hm, hn⟩ := not_not.mp hgradient
      split at h
      case isTrue hk =>
        cases h
        refine ⟨⟨fun _ => ⟨not_not.mp harea, hm, hn, hk⟩, fun _ => rfl⟩, hside,
          fun pair hpair => ⟨pressure, hpressure, ?_⟩⟩
        exact (Option.some.inj hpair).symm
      case isFalse hk =>
        cases h
        exact ⟨⟨nofun, fun hbears => absurd hbears.2.2.2 hk⟩, hside, nofun⟩

theorem facePair_of_bears {s : ContactSurface α} {tau mu : α} {f : SurfaceFace α} {pressure : α} (h : Bears f)
    (hside : (f.gradientM.isNone && f.gradientN.isNone) = false)
    (hpressure : f.pressure.atCentroid s.mesh f.centroid = .ok pressure) :
    facePair s tau mu f = .ok (some (faceContact s tau mu f pressure)) := by
  obtain ⟨harea, hm, hn, hk⟩ := h
  rw [facePair, if_neg (not_not.mpr harea), if_neg (by rw [hside]; exact Bool.false_ne_true)]
  simp only
  rw [if_neg (not_not.mpr ⟨hm, hn⟩)]
  exact bind_eq_ok_iff.mpr ⟨pressure, hpressure, if_pos hk⟩

/-- A contact surface has contacts, all of its two geometries, if one of its faces makes one. -/
theorem patch_eq_ok {d : Discretizer α} {s : ContactSurface α} (h : d.patch s = .ok pairs) :
    (pairs ≠ [] ↔ ∃ f ∈ s.faces, Bears f) ∧ ∀ pair ∈ pairs, pair.a = s.m ∧ pair.b = s.n := by
  obtain ⟨⟨tau, mu⟩, -, h⟩ := bind_eq_ok_iff.mp h
  obtain ⟨made, hmade, h⟩ := bind_eq_ok_iff.mp h
  cases h
  have hmap := mapM_eq_ok_iff.mp hmade
  have hpair : ∀ pair ∈ made.reduceOption, ∃ f ∈ s.faces, facePair s tau mu f = .ok (some pair) := by
    intro pair hpair
    have hmem : Except.ok (some pair) ∈ s.faces.map (facePair s tau mu) :=
      hmap ▸ List.mem_map_of_mem (List.reduceOption_mem_iff.mp hpair)
    exact List.mem_map.mp hmem
  refine ⟨⟨fun hne => ?_, fun ⟨f, hf, hbears⟩ hnil => ?_⟩, fun pair hmem => ?_⟩
  · obtain ⟨pair, hmem⟩ := List.exists_mem_of_ne_nil _ hne
    obtain ⟨f, hf, hfound⟩ := hpair pair hmem
    exact ⟨f, hf, (facePair_eq_ok hfound).1.mp rfl⟩
  · obtain ⟨o, ho, hfound⟩ := List.mem_map.mp (hmap ▸ List.mem_map_of_mem hf)
    obtain ⟨pair, rfl⟩ := Option.isSome_iff_exists.mp ((facePair_eq_ok hfound.symm).1.mpr hbears)
    exact List.not_mem_nil (hnil ▸ List.reduceOption_mem_iff.mpr ho)
  · obtain ⟨f, -, hfound⟩ := hpair pair hmem
    obtain ⟨pressure, -, rfl⟩ := (facePair_eq_ok hfound).2.2 pair rfl
    exact ⟨rfl, rfl⟩

theorem complete_appendSurfaces (d : Discretizer α) (ss : List (ContactSurface α)) :
    complete (d.appendSurfaces [] ss) = (ss.mapM d.patch).map List.flatten := by
  induction ss with
  | nil => rfl
  | cons s ss ih =>
    rw [appendSurfaces, List.mapM_cons]
    cases hmaterial : d.surfaceMaterial s with
    | error e =>
      rw [patch, hmaterial]
      rfl
    | ok m =>
      rw [patch_eq hmaterial]
      simp only
      cases collect (facePair s m.1 m.2) [] s.faces with
      | mk faces o =>
        cases o with
        | error e => rfl
        | ok u =>
          simp only
          rw [appendSurfaces_append, complete_append, ih]
          cases ss.mapM d.patch <;> rfl

theorem complete_appendSurfaces_eq_ok {d : Discretizer α} {ss : List (ContactSurface α)}
    (h : complete (d.appendSurfaces [] ss) = .ok pairs) :
    ∃ patches : List (List (ContactPair α)), ss.map d.patch = patches.map .ok ∧ pairs = patches.flatten := by
  rw [complete_appendSurfaces] at h
  cases hpatches : ss.mapM d.patch with
  | error e =>
    rw [hpatches] at h
    cases h
  | ok patches =>
    rw [hpatches] at h
    cases h
    exact ⟨patches, mapM_eq_ok_iff.mp hpatches, rfl⟩

/-- The contacts of penetrations, one for each. -/
def penetrationPairs (d : Discretizer α) (k : PositionKinematics α) (model : ContactModel) :
    Outcome α (List (ContactPair α)) :=
  if model.usesPointPairs then do
    let ps ← d.query.penetrations d.mechanism k
    ps.mapM d.pointPair
  else .ok []

def surfacePairs (d : Discretizer α) (k : PositionKinematics α) (model : ContactModel) :
    Outcome α (List (ContactPair α)) :=
  if model.usesContactSurfaces then do
    let ss ← d.query.surfaces d.mechanism k
    complete (d.appendSurfaces [] ss)
  else .ok []

theorem pointPair_eq_ok {d : Discretizer α} {p : Penetration α} {pair : ContactPair α}
    (h : d.pointPair p = .ok pair) :
    pair.a = p.a ∧ pair.b = p.b ∧ pair.normal = p.normal := by
  simp only [pointPair, bind_eq_ok_iff] at h
  obtain ⟨_, -, _, -, _, -, _, -, _, -, _, -, _, -, _, -, h⟩ := h
  cases h
  exact ⟨rfl, rfl, rfl⟩

variable {d : Discretizer α} {k : PositionKinematics α} {model : ContactModel}

theorem complete_appendSurfaces_eq_ok_iff (points : List (ContactPair α)) {ss : List (ContactSurface α)} :
    complete (d.appendSurfaces points ss) = .ok pairs ↔
      ∃ faces, complete (d.appendSurfaces [] ss) = .ok faces ∧ pairs = points ++ faces := by
  rw [appendSurfaces_append, complete_eq_ok_iff, Prod.mk.injEq]
  simp only [complete_eq_ok_iff, Prod.ext_iff]
  constructor
  · rintro ⟨rfl, hok⟩
    exact ⟨_, ⟨rfl, hok⟩, rfl⟩
  · rintro ⟨_, ⟨rfl, hok⟩, rfl⟩
    exact ⟨rfl, hok⟩

theorem contactPairs_eq_ok_iff : d.contactPairs k model = .ok pairs ↔
    ∃ points faces, d.penetrationPairs k model = .ok points ∧ d.surfacePairs k model = .ok faces ∧
    pairs = points ++ faces := by
  have hrest : ∀ points, (if model.usesContactSurfaces then do
        let ss ← d.query.surfaces d.mechanism k
        complete (d.appendSurfaces points ss)
      else pure points : Outcome α _) = .ok pairs ↔ ∃ faces, d.surfacePairs k model = .ok faces ∧
        pairs = points ++ faces := by
    intro points
    rw [surfacePairs]
    by_cases hsurfaces : model.usesContactSurfaces = true
    · rw [if_pos hsurfaces, if_pos hsurfaces]
      simp only [bind_eq_ok_iff, complete_appendSurfaces_eq_ok_iff points]
      exact ⟨fun ⟨ss, hss, faces, hfaces, h⟩ => ⟨faces, ⟨ss, hss, hfaces⟩, h⟩,
        fun ⟨faces, ⟨ss, hss, hfaces⟩, h⟩ => ⟨ss, hss, faces, hfaces, h⟩⟩
    · rw [if_neg hsurfaces, if_neg hsurfaces]
      simp [pure, Except.pure, eq_comm]
  have hpoints : ∀ ps points, complete (d.appendPoints [] ps) = .ok points ↔
      ps.mapM d.pointPair = .ok points := fun ps points => by
    rw [complete_eq_ok_iff, appendPoints, collect_eq_ok_iff, mapM_eq_ok_iff]
  rw [contactPairs, penetrationPairs]
  by_cases hpenetrations : model.usesPointPairs = true
  · rw [if_pos hpenetrations, if_pos hpenetrations]
    simp only [bind_eq_ok_iff, hrest, hpoints]
    exact ⟨fun ⟨ps, hps, points, h, faces, hfaces, hpairs⟩ => ⟨points, faces, ⟨ps, hps, h⟩, hfaces, hpairs⟩,
      fun ⟨points, faces, ⟨ps, hps, h⟩, hfaces, hpairs⟩ => ⟨ps, hps, points, h, faces, hfaces, hpairs⟩⟩
  · rw [if_neg hpenetrations, if_neg hpenetrations]
    exact (hrest []).trans ⟨fun ⟨faces, h⟩ => ⟨[], faces, rfl, h⟩,
      fun ⟨_, faces, hnil, h⟩ => ⟨faces, by cases hnil; exact h⟩⟩

/-- Under the model of points the contacts are those of the penetrations. -/
theorem contactPairs_of_penetrations {ps : List (Penetration α)}
    (hps : d.query.penetrations d.mechanism k = .ok ps)
    (hmap : ps.map d.pointPair = pairs.map .ok) : d.contactPairs k .point = .ok pairs := by
  have hpoints : d.penetrationPairs k .point = .ok pairs :=
    bind_eq_ok_iff.mpr ⟨ps, hps, mapM_eq_ok_iff.mpr hmap⟩
  exact contactPairs_eq_ok_iff.mpr ⟨pairs, [], hpoints, rfl, pairs.append_nil.symm⟩

/-- What is known of the contact surfaces behind pairs. -/
theorem surfacePairs_eq_ok (h : d.surfacePairs k model = .ok pairs)
    (hmodel : model.usesContactSurfaces = true) :
    ∃ (ss : List (ContactSurface α)) (patches : List (List (ContactPair α))),
    d.query.surfaces d.mechanism k = .ok ss ∧
      ss.map d.patch = patches.map .ok ∧ pairs = patches.flatten := by
  rw [surfacePairs, if_pos hmodel] at h
  obtain ⟨ss, hss, h⟩ := bind_eq_ok_iff.mp h
  obtain ⟨patches, hpatches, hpairs⟩ := complete_appendSurfaces_eq_ok h
  exact ⟨ss, patches, hss, hpatches, hpairs⟩

/-- What is known of the penetrations behind pairs. -/
theorem penetrationPairs_eq_ok (h : d.penetrationPairs k model = .ok pairs) :
    (model.usesPointPairs = false ∧ pairs = []) ∨ (model.usesPointPairs = true ∧
      ∃ ps, d.query.penetrations d.mechanism k = .ok ps ∧ ps.map d.pointPair = pairs.map .ok ∧
        d.query.numPenetrations d.mechanism k = pairs.length) := by
  rw [penetrationPairs] at h
  by_cases hmodel : model.usesPointPairs = true
  · rw [if_pos hmodel] at h
    obtain ⟨ps, hps, h⟩ := bind_eq_ok_iff.mp h
    have hmap := mapM_eq_ok_iff.mp h
    refine .inr ⟨hmodel, ps, hps, hmap, ?_⟩
    rw [GeometryQuery.numPenetrations, hps]
    simpa using congrArg List.length hmap
  · rw [if_neg hmodel] at h
    cases h
    exact .inl ⟨Bool.not_eq_true _ ▸ hmodel, rfl⟩

/-- The penetrations make the first of the contacts, in their order. -/
theorem exists_penetrations (h : d.contactPairs k model = .ok pairs) (hmodel : model.usesPointPairs = true) :
    ∃ ps, d.query.penetrations d.mechanism k = .ok ps ∧ d.query.numPenetrations d.mechanism k = ps.length ∧
      ∀ (i : Nat) p, ps[i]? = some p → ∃ pair, pairs[i]? = some pair ∧ d.pointPair p = .ok pair := by
  obtain ⟨points, faces, hpoints, -, rfl⟩ := contactPairs_eq_ok_iff.mp h
  obtain ⟨hnone, -⟩ | ⟨-, ps, hps, hmap, hnum⟩ := penetrationPairs_eq_ok hpoints
  · rw [hnone] at hmodel
    cases hmodel
  have hlength : ps.length = points.length := by simpa using congrArg List.length hmap
  refine ⟨ps, hps, hnum.trans hlength.symm, fun i p hp => ?_⟩
  obtain ⟨pair, hpair, hmade⟩ := exists_getElem?_of_map_eq_ok hmap hp
  refine ⟨pair, ?_, hmade⟩
  rwa [List.getElem?_append_left (List.getElem?_eq_some_iff.mp hpair).1]

end Discretizer

end CompliantContact
