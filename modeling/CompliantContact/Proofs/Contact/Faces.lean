import Mathlib.Data.EReal.Inv
import CompliantContact.Proofs.Contact.Pairs
import CompliantContact.Proofs.Real

/-!
The contacts of contact surfaces.

Every face that qualifies makes one contact, in the order of the surfaces and of their faces, and no
other face makes one. The two sides of a face act in series, where a rigid side adds nothing. So the
face is no stiffer than its softer side, and at rest it presses with its area times the pressure at its
centroid (`Discretizer.appendSurfaces_faces`).
-/

namespace CompliantContact

open Outcome

theorem Outcome.forall₂_of_map_eq_ok {α β γ : Type} {f : β → Outcome α γ} {xs : List β} {ys : List γ}
    (h : xs.map f = ys.map .ok) : List.Forall₂ (fun x y => f x = .ok y) xs ys := by
  rwa [← List.forall₂_eq_eq_eq, List.forall₂_map_left_iff, List.forall₂_map_right_iff] at h

/-! ### Gradients -/

namespace Discretizer

noncomputable section

/-- The gradient of the pressure of a side; without end if the side is rigid. -/
def gradientOf (side : Option ℝ) : EReal := side.elim ⊤ Real.toEReal

end

theorem minFaceArea_eq : (minFaceArea : ℝ) = 1e-14 := by norm_num [minFaceArea, Scalar.decimal]

theorem minPressureGradient_eq : (minPressureGradient : ℝ) = 1e-14 := by
    norm_num [minPressureGradient, Scalar.decimal]

section
variable {side : Option ℝ}

theorem gradientSuffices_iff : gradientSuffices side = true ↔ ((1e-14 : ℝ) : EReal) ≤ gradientOf side := by
  cases side with
  | none => exact iff_of_true rfl le_top
  | some g =>
    rw [gradientSuffices, minPressureGradient_eq, decide_eq_true_iff]; exact EReal.coe_le_coe_iff.symm

/-- The compliance of a side is the inverse of its gradient, and a rigid side has none. -/
theorem coe_compliance : ((compliance side : ℝ) : EReal) = (gradientOf side)⁻¹ := by
  cases side with
  | none => exact EReal.inv_top.symm
  | some g => exact congrArg Real.toEReal (one_div g)

theorem pos_of_suffices {g : ℝ} (h : gradientSuffices (some g) = true) : 0 < g := by
  rw [gradientSuffices, minPressureGradient_eq, decide_eq_true_iff] at h
  exact lt_of_lt_of_le (by norm_num) h

theorem compliance_nonneg (h : gradientSuffices side = true) : 0 ≤ compliance side := by
  cases side with
  | none => exact le_rfl
  | some g => exact one_div_nonneg.mpr (pos_of_suffices h).le

theorem compliance_pos (h : gradientSuffices side = true) (hside : side ≠ none) : 0 < compliance side := by
  cases side with
  | none => exact absurd rfl hside
  | some g => exact one_div_pos.mpr (pos_of_suffices h)

/-- A side in series with another gives way at least as it does alone. -/
theorem one_div_le_gradientOf (h : gradientSuffices side = true) {c : ℝ} (hc : compliance side ≤ c) :
    ((1 / c : ℝ) : EReal) ≤ gradientOf side := by
  cases side with
  | none => exact le_top
  | some g =>
    have hle := one_div_le_one_div_of_le (compliance_pos h nofun) hc
    rw [compliance, one_div_one_div] at hle
    exact EReal.coe_le_coe_iff.mpr hle

end

end Discretizer

/-! ### Faces -/

namespace SurfaceFace

noncomputable section

/-- The gradient of the pressure into the first body; without end if the body is rigid. -/
def intoM (f : SurfaceFace ℝ) : EReal := f.gradientM.elim ⊤ fun g => (g.dot f.normal : ℝ)

/-- The gradient of the pressure into the second body, which is against the normal. -/
def intoN (f : SurfaceFace ℝ) : EReal := f.gradientN.elim ⊤ fun g => (-g.dot f.normal : ℝ)

end

/-- A face that makes a contact: it has area, and the pressure grows into both bodies. -/
def Qualifies (f : SurfaceFace ℝ) : Prop :=
  1e-14 < f.area ∧ ((1e-14 : ℝ) : EReal) ≤ f.intoM ∧ ((1e-14 : ℝ) : EReal) ≤ f.intoN

noncomputable instance : DecidablePred Qualifies := Classical.decPred _

theorem gradientOf_sideGradients (f : SurfaceFace ℝ) :
    Discretizer.gradientOf (Discretizer.sideGradients f).1 = f.intoM ∧
    Discretizer.gradientOf (Discretizer.sideGradients f).2 = f.intoN := by
  constructor
  · rw [intoM, Discretizer.sideGradients]
    cases f.gradientM <;> rfl
  · rw [intoN, Discretizer.sideGradients]
    cases f.gradientN <;> rfl

theorem sideGradients_ne_none {f : SurfaceFace ℝ} (h : ¬ (f.gradientM = none ∧ f.gradientN = none)) :
    (Discretizer.sideGradients f).1 ≠ none ∨ (Discretizer.sideGradients f).2 ≠ none := by
  rw [← not_and_or, Discretizer.sideGradients, Option.map_eq_none_iff, Option.map_eq_none_iff]
  exact h

end SurfaceFace

namespace Discretizer

/-- The contact of a face: at its centroid, with the materials of the two geometries, and as stiff as
    the area of the face with its two sides in series. At rest it presses as the pressure does on the
    area. -/
structure OfFace (d : Discretizer ℝ) (x : ContactSurface ℝ × SurfaceFace ℝ)
    (pair : ContactPair ℝ) : Prop where
  a : pair.a = x.1.m
  b : pair.b = x.1.n
  point : pair.point = x.2.centroid
  normal : pair.normal = x.2.normal
  material : d.surfaceMaterial x.1 = .ok (pair.dissipationTime, pair.friction)
  series : (pair.stiffness : EReal) = x.2.area * (x.2.intoM⁻¹ + x.2.intoN⁻¹)⁻¹
  stiffness_pos : 0 < pair.stiffness
  stiffness_le : (pair.stiffness : EReal) ≤ x.2.area * min x.2.intoM x.2.intoN
  atRest : ∃ pressure, x.2.pressure.atCentroid x.1.mesh x.2.centroid = .ok pressure ∧
    pair.stiffness * -pair.phi = x.2.area * pressure

section
variable {s : ContactSurface ℝ} {f : SurfaceFace ℝ} {tau mu : ℝ}

/-- With a compliant side, the stiffness of a face is positive as soon as its area and its gradients
    suffice. -/
theorem bears_iff_qualifies (hside : minFaceArea < f.area → ¬ (f.gradientM = none ∧ f.gradientN = none)) :
    Bears f ↔ f.Qualifies := by
  obtain ⟨hm, hn⟩ := f.gradientOf_sideGradients
  rw [Bears, SurfaceFace.Qualifies, gradientSuffices_iff, gradientSuffices_iff, hm, hn, minFaceArea_eq]
  refine and_congr_right fun harea => and_congr_right fun hmok => and_iff_left_of_imp fun hnok => ?_
  rw [← hm, ← gradientSuffices_iff] at hmok
  rw [← hn, ← gradientSuffices_iff] at hnok
  refine mul_pos (lt_trans (by norm_num) harea) (one_div_pos.mpr ?_)
  rcases SurfaceFace.sideGradients_ne_none (hside (minFaceArea_eq ▸ harea)) with hside | hside
  · exact add_pos_of_pos_of_nonneg (compliance_pos hmok hside) (compliance_nonneg hnok)
  · exact add_pos_of_nonneg_of_pos (compliance_nonneg hmok) (compliance_pos hnok hside)

theorem ofFace_faceContact {d : Discretizer ℝ} (hmaterial : d.surfaceMaterial s = .ok (tau, mu)) (h : Bears f)
    {pressure : ℝ} (hpressure : f.pressure.atCentroid s.mesh f.centroid = .ok pressure) :
    d.OfFace (s, f) (faceContact s tau mu f pressure) := by
  obtain ⟨hm, hn⟩ := f.gradientOf_sideGradients
  obtain ⟨harea, hmok, hnok, hk⟩ := h
  have hpos : 0 < f.area := lt_trans (minFaceArea_eq ▸ by norm_num) harea
  have hsum := pos_of_mul_pos_right hk hpos.le
  refine ⟨rfl, rfl, rfl, rfl, hmaterial, ?_, hk, ?_, pressure, hpressure, ?_⟩
  · rw [faceContact, EReal.coe_mul, one_div, EReal.coe_inv, EReal.coe_add, coe_compliance,
      coe_compliance, hm, hn]
  · rw [faceContact, EReal.coe_mul, ← hm, ← hn]
    refine mul_le_mul_of_nonneg_left (le_min ?_ ?_) (EReal.coe_nonneg.mpr hpos.le)
    · exact one_div_le_gradientOf hmok (le_add_of_nonneg_right (compliance_nonneg hnok))
    · exact one_div_le_gradientOf hnok (le_add_of_nonneg_left (compliance_nonneg hmok))
  · simp only [faceContact]
    generalize (1 : ℝ) / (compliance (sideGradients f).1 + compliance (sideGradients f).2) = g at hsum ⊢
    rw [neg_div, neg_neg, mul_assoc, mul_div_cancel₀ pressure hsum.ne']

end

/-! ### Surfaces -/

/-- The faces that qualify, in the order of the surfaces and of the faces of each. -/
noncomputable def qualifyingFaces (ss : List (ContactSurface ℝ)) : List (ContactSurface ℝ × SurfaceFace ℝ) :=
  ss.flatMap fun s => (s.faces.filter SurfaceFace.Qualifies).map (s, ·)

/-- Where each item that qualifies makes something and no other item does, what is made belongs to those
    in turn. -/
theorem forall₂_reduceOption {β γ : Type} {made : β → γ → Prop} {qualifies : β → Prop}
    [DecidablePred qualifies] {xs : List β} {os : List (Option γ)}
    (h : List.Forall₂ (fun x o => (o.isSome = true ↔ qualifies x) ∧ ∀ y ∈ o, made x y) xs os) :
    List.Forall₂ made (xs.filter qualifies) os.reduceOption := by
  induction h with
  | nil => exact .nil
  | @cons x o xs os hx _ ih =>
    obtain ⟨hiff, hmade⟩ := hx
    cases o with
    | none =>
      rw [List.reduceOption_cons_of_none, List.filter_cons_of_neg]
      · exact ih
      · rw [decide_eq_true_iff, ← hiff]
        exact Bool.false_ne_true
    | some y =>
      rw [List.reduceOption_cons_of_some, List.filter_cons_of_pos]
      · exact .cons (hmade y rfl) ih
      · rw [decide_eq_true_iff, ← hiff]
        rfl

/-- The contacts of a surface are those of its faces that qualify. -/
theorem forall₂_patch {d : Discretizer ℝ} {s : ContactSurface ℝ} {patch : List (ContactPair ℝ)}
    (h : d.patch s = .ok patch) :
    List.Forall₂ d.OfFace ((s.faces.filter SurfaceFace.Qualifies).map (s, ·)) patch := by
  obtain ⟨⟨tau, mu⟩, hmaterial, h⟩ := bind_eq_ok_iff.mp h
  obtain ⟨made, hmade, h⟩ := bind_eq_ok_iff.mp h
  cases h
  have hfaces := forall₂_of_map_eq_ok (mapM_eq_ok_iff.mp hmade)
  refine List.forall₂_map_left_iff.mpr (forall₂_reduceOption (hfaces.imp fun f o hface => ?_))
  obtain ⟨hbears, hside, hmade⟩ := facePair_eq_ok hface
  refine ⟨hbears.trans (bears_iff_qualifies hside), fun pair hpair => ?_⟩
  obtain ⟨pressure, hpressure, rfl⟩ := hmade pair hpair
  exact ofFace_faceContact hmaterial (hbears.mp (Option.isSome_iff_exists.mpr ⟨_, hpair⟩)) hpressure

/-- Where contact surfaces are added to contacts, those stay as they are, and one contact follows for
    each face that qualifies, in their order. -/
theorem appendSurfaces_faces {d : Discretizer ℝ} {pairs found : List (ContactPair ℝ)}
    {ss : List (ContactSurface ℝ)} (h : d.appendSurfaces pairs ss = (found, .ok ())) :
    ∃ added, found = pairs ++ added ∧ List.Forall₂ d.OfFace (qualifyingFaces ss) added := by
  obtain ⟨added, hadded, rfl⟩ := (complete_appendSurfaces_eq_ok_iff pairs).mp (complete_eq_ok_iff.mpr h)
  obtain ⟨patches, hpatches, rfl⟩ := complete_appendSurfaces_eq_ok hadded
  refine ⟨_, rfl, List.rel_flatten (List.forall₂_map_left_iff.mpr ?_)⟩
  exact (forall₂_of_map_eq_ok hpatches).imp fun _ _ => forall₂_patch

/-! ### Two pads -/

noncomputable section

def padMaterial : Material ℝ := ⟨none, some 1, some ⟨1, 1⟩⟩

def pads : Discretizer ℝ :=
  ⟨.ofTable [⟨⟨0⟩, none, some "lower", some padMaterial⟩, ⟨⟨1⟩, none, some "upper", some padMaterial⟩]
    (.ok []), default, 1⟩

/-- A face where both pads give way. -/
def padFace : SurfaceFace ℝ := ⟨1, .unitZ, 0, .vertices 1 1 1, some .unitZ, some (-.unitZ)⟩

def sliver : SurfaceFace ℝ := { padFace with area := 0 }

def padSurface : ContactSurface ℝ := ⟨⟨1⟩, ⟨0⟩, .triangle, [sliver, padFace]⟩

def padContact : ContactPair ℝ :=
  faceContact padSurface (combineDissipationTimes 1 1) (combineFrictions 1 1) padFace
    ((1 + 1 + 1) / Scalar.ofNat 3)

end

theorem surfaceMaterial_pads :
    pads.surfaceMaterial padSurface = .ok (combineDissipationTimes 1 1, combineFrictions 1 1) := by
  have htau : ∀ context, padMaterial.dissipationTime context = .ok 1 := fun context =>
    require_bind_eq_ok_iff.mpr ⟨zero_le_one, rfl⟩
  simp only [surfaceMaterial, bind_eq_ok_iff]
  exact ⟨padMaterial, rfl, padMaterial, rfl, 1, htau _, 1, htau _, 1, rfl, 1, rfl, rfl⟩

theorem qualifies_padFace : padFace.Qualifies := by
  have hone : ((1e-14 : ℝ) : EReal) ≤ (1 : ℝ) := EReal.coe_le_coe_iff.mpr (by norm_num)
  have hm : padFace.intoM = (1 : ℝ) := by simp [SurfaceFace.intoM, padFace, Vec3.dot, Vec3.unitZ]
  have hn : padFace.intoN = (1 : ℝ) := by simp [SurfaceFace.intoN, padFace, Vec3.dot, Vec3.unitZ]
  exact ⟨by norm_num [padFace], hm ▸ hone, hn ▸ hone⟩

theorem not_qualifies_sliver : ¬ sliver.Qualifies := fun h => absurd h.1 (by norm_num [sliver])

theorem qualifyingFaces_pads : qualifyingFaces [padSurface] = [(padSurface, padFace)] := by
  have hfaces : padSurface.faces = [sliver, padFace] := rfl
  rw [qualifyingFaces, List.flatMap_singleton, hfaces, List.filter_cons_of_neg, List.filter_cons_of_pos]
  · rfl
  · exact decide_eq_true qualifies_padFace
  · exact fun h => not_qualifies_sliver (of_decide_eq_true h)

/-- Of two faces between the pads the sliver makes no contact. -/
theorem appendSurfaces_pads : pads.appendSurfaces [default] [padSurface] = ([default, padContact], .ok ()) ∧
    pads.OfFace (padSurface, padFace) padContact := by
  have hsliver : facePair padSurface (combineDissipationTimes 1 1) (combineFrictions 1 1) sliver = .ok none :=
    if_pos (by rw [minFaceArea_eq]; norm_num [sliver])
  have hpad : facePair padSurface (combineDissipationTimes 1 1) (combineFrictions 1 1) padFace =
    .ok (some padContact) :=
    facePair_of_bears ((bears_iff_qualifies fun _ h => Option.some_ne_none _ h.1).mpr
      qualifies_padFace) rfl rfl
  have hfound : pads.appendSurfaces [default] [padSurface] = ([default, padContact], .ok ()) := by
    have hfaces : padSurface.faces = [sliver, padFace] := rfl
    simp only [appendSurfaces, surfaceMaterial_pads, hfaces, collect, hsliver, hpad, List.singleton_append]
  obtain ⟨added, hadded, hfaces⟩ := appendSurfaces_faces hfound
  obtain rfl : [padContact] = added := (List.cons.inj hadded).2
  rw [qualifyingFaces_pads] at hfaces
  exact ⟨hfound, (List.forall₂_cons.mp hfaces).1⟩

end Discretizer

end CompliantContact
