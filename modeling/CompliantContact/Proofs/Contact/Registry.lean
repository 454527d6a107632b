import CompliantContact.Contact.Registry
import CompliantContact.Proofs.Contact.Frame
import CompliantContact.Proofs.Contact.Pairs
import CompliantContact.Proofs.Real

/-!
The contacts of a registry.

A contact of a registry is one of two of its geometries, on bodies that the mechanism has, at least one
of which is in a tree. Its parameters are in range: what the materials declare is checked when the
contact is made, and friction is checked before it can be declared at all.
-/

namespace CompliantContact

open Outcome

/-- A failure that says that the parts of a program do not fit together. -/
def Failure.isInternal {α : Type} : Failure α → Bool
  | structural _ | dimensionMismatch .. => true
  | _ => false

theorem Failure.isInternal_of_isConfigError {α : Type} {e : Failure α} (h : e.isConfigError = true) :
    e.isInternal = false := by
  cases e <;> first | rfl | cases h

/-- Friction as clients can make it. -/
inductive Friction.Made : Friction ℝ → Prop where
  | coefficients {static dynamic : ℝ} {f : Friction ℝ}
    (h : Friction.ofCoefficients static dynamic = .ok f) : Made f
  | frictionless : Made .frictionless

theorem Friction.Made.dynamic_nonneg {f : Friction ℝ} (h : f.Made) : 0 ≤ f.dynamic := by
  cases h with
  | coefficients h =>
    rw [ofCoefficients, require_bind_eq_ok_iff, require_bind_eq_ok_iff] at h
    obtain ⟨⟨hdynamic, -⟩, -, h⟩ := h
    cases h
    exact hdynamic
  | frictionless => exact le_rfl

namespace Registry

/-- Registries as clients can make them. -/
inductive Made : Registry ℝ → Prop where
  | empty : Made .empty
  | add {r t : Registry ℝ} {g : Geometry ℝ} {id : GeometryId} (h : Made r)
      (hfriction : ∀ f, g.material.friction = some f → f.Made) (ht : r.add g = .ok (t, id)) : Made t
  | withSurfaces {r : Registry ℝ} (h : Made r) (surfaces : List (ContactSurface ℝ)) :
    Made (r.withSurfaces surfaces)

theorem Made.dynamic_nonneg {r : Registry ℝ} (h : r.Made) :
    ∀ g ∈ r.geometries, ∀ f, g.material.friction = some f → 0 ≤ f.dynamic := by
  induction h with
  | empty => exact fun g hg => absurd hg (Array.not_mem_empty g)
  | add _ hfriction ht ih =>
    rw [Registry.add, bind_eq_ok_iff] at ht
    obtain ⟨_, -, ht⟩ := ht
    obtain ⟨_, -, ht⟩ := bind_eq_ok_iff.mp ht
    cases ht
    intro g hg f hf
    rcases Array.mem_push.mp hg with hg | rfl
    · exact ih g hg f hf
    · exact (hfriction f hf).dynamic_nonneg
  | withSurfaces _ _ ih => exact ih

end Registry

/-! ### Penetrations -/

section
variable {α : Type} [Scalar α] {m : Mechanism α} {k : PositionKinematics α} {p : Penetration α}

/-- A penetration is one of the two geometries that were compared. -/
theorem Shape.penetration_ids {a b : GeometryId} {shapeA shapeB : Shape α} {poseA poseB : Pose α}
    (h : Shape.penetration a shapeA poseA b shapeB poseB = some p) : p.a = a ∧ p.b = b := by
  cases shapeA with
  | sphere ra =>
    cases shapeB with
    | sphere rb =>
      simp only [Shape.penetration] at h
      split at h
      · cases h
      · cases h
        exact ⟨rfl, rfl⟩
    | halfSpace =>
      obtain ⟨_, -, rfl⟩ := Option.map_eq_some_iff.mp h
      exact ⟨rfl, rfl⟩
  | halfSpace =>
    cases shapeB with
    | sphere rb =>
      obtain ⟨_, -, rfl⟩ := Option.map_eq_some_iff.mp h
      exact ⟨rfl, rfl⟩
    | halfSpace => cases h

namespace Registry

variable {r : Registry α} {gs : List (Geometry α × ℕ)} {g h : Geometry α × ℕ} {ps : List (Penetration α)}

theorem penetration?_eq_some_iff : penetration? m k g h = some p ↔ paired m g.1 h.1 = true ∧
    Shape.penetration ⟨g.2⟩ g.1.shape (k.bodyPose g.1.body * g.1.pose) ⟨h.2⟩ h.1.shape
      (k.bodyPose h.1.body * h.1.pose) = some p := by
  rw [penetration?]
  split
  case isTrue hpaired => exact (and_iff_right hpaired).symm
  case isFalse hpaired => exact ⟨nofun, fun hp => absurd hp.1 hpaired⟩

/-- Each pair of places in the list is compared, and each once. -/
theorem mem_penetrationsAmong_iff : p ∈ penetrationsAmong m k gs ↔
    ∃ (i j : ℕ) (g h : Geometry α × ℕ), i < j ∧ gs[i]? = some g ∧ gs[j]? = some h ∧
    penetration? m k g h = some p := by
  induction gs with
  | nil => exact ⟨nofun, fun ⟨i, _, _, _, _, hi, _⟩ => by cases hi⟩
  | cons first rest ih =>
    rw [penetrationsAmong, List.mem_append, List.mem_filterMap, ih]
    constructor
    · rintro (⟨h, hmem, hp⟩ | ⟨i, j, g, h, hij, hi, hj, hp⟩)
      · obtain ⟨j, hj⟩ := List.getElem?_of_mem hmem
        exact ⟨0, j + 1, first, h, j.succ_pos, rfl, hj, hp⟩
      · exact ⟨i + 1, j + 1, g, h, Nat.succ_lt_succ hij, hi, hj, hp⟩
    · rintro ⟨i, j, g, h, hij, hi, hj, hp⟩
      obtain ⟨j, rfl⟩ : ∃ n, j = n + 1 := ⟨j - 1, by omega⟩
      cases i with
      | zero =>
        obtain rfl : first = g := Option.some.inj hi
        exact .inl ⟨h, List.mem_of_getElem? hj, hp⟩
      | succ i => exact .inr ⟨i, j, g, h, Nat.succ_lt_succ_iff.mp hij, hi, hj, hp⟩

theorem penetrations_eq_ok_iff : r.penetrations m k = .ok ps ↔
    (∀ g ∈ r.geometries, g.body.val < m.numBodies) ∧
    ps = penetrationsAmong m k r.geometries.toList.zipIdx := by
  have hnone : r.geometries.find? (fun g => m.numBodies ≤ g.body.val) = none ↔
      ∀ g ∈ r.geometries, g.body.val < m.numBodies := by
    rw [Array.find?_eq_none]
    exact forall₂_congr fun g _ => by simp
  rw [penetrations, ← hnone]
  split
  case h_1 g hg => exact ⟨nofun, fun h => by cases hg.symm.trans h.1⟩
  case h_2 hnone => exact ⟨fun h => ⟨hnone, (Except.ok.inj h).symm⟩, fun h => congrArg Except.ok h.2.symm⟩

/-- The penetrations of a registry are those of two of its geometries that can be in contact, the first
    one before the second. -/
theorem mem_penetrations_iff (hps : r.penetrations m k = .ok ps) : p ∈ ps ↔
    ∃ a b g g', a.val < b.val ∧ r.get? a = some g ∧ r.get? b = some g' ∧ paired m g g' = true ∧
      Shape.penetration a g.shape (k.bodyPose g.body * g.pose) b g'.shape
        (k.bodyPose g'.body * g'.pose) = some p := by
  have hzip : ∀ (i : ℕ) (g : Geometry α × ℕ), r.geometries.toList.zipIdx[i]? = some g ↔
      r.get? ⟨i⟩ = some g.1 ∧ g.2 = i := by
    intro i g
    rw [List.getElem?_zipIdx, Array.getElem?_toList, get?, Option.map_eq_some_iff, Nat.zero_add]
    constructor
    · rintro ⟨g', hg', rfl⟩
      exact ⟨hg', rfl⟩
    · rintro ⟨hg, rfl⟩
      exact ⟨g.1, hg, rfl⟩
  rw [(penetrations_eq_ok_iff.mp hps).2, mem_penetrationsAmong_iff]
  constructor
  · rintro ⟨i, j, ⟨g, _⟩, ⟨g', _⟩, hij, hi, hj, hp⟩
    obtain ⟨hi, rfl⟩ := (hzip i _).mp hi
    obtain ⟨hj, rfl⟩ := (hzip j _).mp hj
    exact ⟨_, _, g, g', hij, hi, hj, penetration?_eq_some_iff.mp hp⟩
  · rintro ⟨a, b, g, g', hab, hg, hg', hp⟩
    exact ⟨a.val, b.val, (g, a.val), (g', b.val), hab, (hzip _ _).mpr ⟨hg, rfl⟩, (hzip _ _).mpr ⟨hg', rfl⟩,
      penetration?_eq_some_iff.mpr hp⟩

/-- Two geometries of a registry that can be in contact, by their identifiers. -/
structure Meet (r : Registry α) (m : Mechanism α) (a b : GeometryId) (g g' : Geometry α) : Prop where
  first : r.get? a = some g
  second : r.get? b = some g'
  firstBody : g.body.val < m.numBodies
  secondBody : g'.body.val < m.numBodies
  paired : Registry.paired m g g' = true

/-- The penetrations of a registry are of geometries that can be in contact. -/
theorem exists_meet (hps : r.penetrations m k = .ok ps) (hp : p ∈ ps) : ∃ g g', r.Meet m p.a p.b g g' := by
  obtain ⟨a, b, g, g', -, hg, hg', hpaired, hp⟩ := (mem_penetrations_iff hps).mp hp
  obtain ⟨rfl, rfl⟩ := Shape.penetration_ids hp
  have hbodies := (penetrations_eq_ok_iff.mp hps).1
  exact ⟨g, g', hg, hg', hbodies g (Array.mem_of_getElem? hg),
    hbodies g' (Array.mem_of_getElem? hg'), hpaired⟩

end Registry

end

/-! ### Contacts -/

/-- The parameters that a cone accepts. -/
structure ContactPair.InRange (pair : ContactPair ℝ) : Prop where
  friction : 0 ≤ pair.friction
  stiffness : 0 < pair.stiffness
  dissipationTime : 0 ≤ pair.dissipationTime

theorem quotientOrZero_nonneg {x y : ℝ} (hx : 0 ≤ x) (hy : 0 ≤ y) : 0 ≤ quotientOrZero x y := by
  rw [quotientOrZero]
  split
  · exact le_rfl
  · exact div_nonneg hx hy

theorem combineStiffnesses_pos {k l : ℝ} (hk : 0 < k) (hl : 0 < l) : 0 < combineStiffnesses k l := by
  have hsum : Scalar.isZero (k + l) = false := by simp [Scalar.isZero, not_le.mpr (add_pos hk hl)]
  rw [combineStiffnesses, quotientOrZero, hsum]
  exact div_pos (mul_pos hk hl) (add_pos hk hl)

theorem combineFrictions_nonneg {f g : ℝ} (hf : 0 ≤ f) (hg : 0 ≤ g) : 0 ≤ combineFrictions f g := by
  have htwo : (0 : ℝ) ≤ Scalar.two := add_nonneg zero_le_one zero_le_one
  exact quotientOrZero_nonneg (mul_nonneg (mul_nonneg htwo hf) hg) (add_nonneg hf hg)

namespace Material

variable {m : Material ℝ} {x default : ℝ} {context : String}

theorem stiffness_pos (h : m.stiffness default context = .ok x) : 0 < x := by
  obtain ⟨hk, h⟩ := require_bind_eq_ok_iff.mp h
  cases h
  exact hk.1

theorem dissipationTime_nonneg (h : m.dissipationTime context = .ok x) : 0 ≤ x := by
  rw [dissipationTime] at h
  split at h
  · cases h
  · obtain ⟨htau, h⟩ := require_bind_eq_ok_iff.mp h
    cases h
    exact htau

theorem dynamicFriction_eq_ok (h : m.dynamicFriction context = .ok x) : ∃ f, m.friction = some f ∧
    x = f.dynamic := by
  rw [dynamicFriction] at h
  split at h
  · cases h
  · rename_i f hf
    cases h
    exact ⟨f, hf, rfl⟩

/-! What a material lacks is an error of its author, never of the library. -/

section
variable {α : Type} {m : Material α} {context : String}

theorem isConfigError_of_stiffness [Scalar α] {default : α} :
    FailsAs (·.isConfigError) (m.stiffness default context) :=
  .bind (.require rfl) fun _ _ => .ok _

theorem isConfigError_of_dissipationTime [Scalar α] :
    FailsAs (·.isConfigError) (m.dissipationTime context) := by
  rw [dissipationTime]
  split
  · exact .error rfl
  · exact .bind (.require rfl) fun _ _ => .ok _

theorem isConfigError_of_dynamicFriction : FailsAs (·.isConfigError) (m.dynamicFriction context) := by
  rw [dynamicFriction]
  split
  · exact .error rfl
  · exact .ok _

end

end Material

namespace Discretizer

variable {d : Discretizer ℝ} {k : PositionKinematics ℝ} {p : Penetration ℝ} {pair : ContactPair ℝ}

theorem material_eq_ok {id : GeometryId} {m : Material ℝ} (h : d.material id = .ok m) :
    d.query.material? id = some m := by
  rw [material] at h
  split at h
  · cases h
  · rename_i found hfound
    cases h
    exact hfound

theorem pointPair_inRange
    (hfriction : ∀ id m f, d.query.material? id = some m → m.friction = some f → 0 ≤ f.dynamic)
    (h : d.pointPair p = .ok pair) : pair.InRange := by
  simp only [pointPair, bind_eq_ok_iff] at h
  obtain ⟨mA, hA, mB, hB, kA, hkA, kB, hkB, tauA, htauA, tauB, htauB, muA, hmuA, muB, hmuB, h⟩ := h
  cases h
  obtain ⟨fA, hfA, rfl⟩ := Material.dynamicFriction_eq_ok hmuA
  obtain ⟨fB, hfB, rfl⟩ := Material.dynamicFriction_eq_ok hmuB
  exact ⟨combineFrictions_nonneg (hfriction _ _ _ (material_eq_ok hA) hfA)
    (hfriction _ _ _ (material_eq_ok hB) hfB),
    combineStiffnesses_pos (Material.stiffness_pos hkA) (Material.stiffness_pos hkB),
    add_nonneg (Material.dissipationTime_nonneg htauA) (Material.dissipationTime_nonneg htauB)⟩

section
variable {α : Type} {d : Discretizer α}

theorem isConfigError_of_material {id : GeometryId} : FailsAs (·.isConfigError) (d.material id) := by
  rw [material]
  split
  · exact .error rfl
  · exact .ok _

/-- A contact fails to be made for what its geometries declare. -/
theorem isConfigError_of_pointPair [Scalar α] {p : Penetration α} :
    FailsAs (·.isConfigError) (d.pointPair p) :=
  .bind isConfigError_of_material fun _ _ => .bind isConfigError_of_material fun _ _ =>
    .bind Material.isConfigError_of_stiffness fun _ _ => .bind Material.isConfigError_of_stiffness fun _ _ =>
    .bind Material.isConfigError_of_dissipationTime fun _ _ =>
      .bind Material.isConfigError_of_dissipationTime fun _ _ =>
    .bind Material.isConfigError_of_dynamicFriction fun _ _ =>
      .bind Material.isConfigError_of_dynamicFriction fun _ _ => .ok _

/-- Contacts fail to be collected where one of them fails to be made. -/
theorem failsAs_collect {β : Type} {P : Failure α → Prop} {found : β → Outcome α (Option (ContactPair α))}
    (h : ∀ x, FailsAs P (found x)) (pairs : List (ContactPair α))
    (xs : List β) : FailsAs P (collect found pairs xs).2 := by
  induction xs generalizing pairs with
  | nil => exact .ok _
  | cons x xs ih =>
    rw [collect]
    split
    next e he => exact .error (h x e he)
    all_goals exact ih _

end

end Discretizer

namespace Registry

variable {r : Registry ℝ} {m : Mechanism ℝ} {k : PositionKinematics ℝ} {default : ℝ}
    {pairs : List (ContactPair ℝ)}

/-- The contacts of penetrations are in range, and of geometries that can be in contact. -/
theorem Made.contactPairs_eq_ok (h : r.Made)
    (hpairs : Discretizer.contactPairs ⟨r.query, m, default⟩ k .point = .ok pairs) :
    ∀ pair ∈ pairs, pair.InRange ∧ ∃ g g', r.Meet m pair.a pair.b g g' := by
  obtain ⟨points, faces, hpoints, hfaces, rfl⟩ := Discretizer.contactPairs_eq_ok_iff.mp hpairs
  cases hfaces
  obtain ⟨hnone, -⟩ | ⟨-, ps, hps, hmap, -⟩ := Discretizer.penetrationPairs_eq_ok hpoints
  · cases hnone
  intro pair hpair
  rw [List.append_nil] at hpair
  obtain ⟨p, hp, hpair⟩ := exists_mem_of_map_eq_ok hmap hpair
  refine ⟨Discretizer.pointPair_inRange (fun id material f hmaterial hf => ?_) hpair, ?_⟩
  · obtain ⟨g, hg, rfl⟩ := Option.map_eq_some_iff.mp hmaterial
    exact h.dynamic_nonneg g (Array.mem_of_getElem? hg) f hf
  · obtain ⟨ha, hb, -⟩ := Discretizer.pointPair_eq_ok hpair
    obtain ⟨g, g', hmeet⟩ := exists_meet hps hp
    exact ⟨g, g', by rw [ha, hb]; exact hmeet⟩

/-- They fail for what the registry holds. -/
theorem isInternal_of_contactPairs {e : Failure ℝ}
    (h : Discretizer.contactPairs ⟨r.query, m, default⟩ k .point = .error e) : e.isInternal = false := by
  have hpoints : FailsAs (fun e : Failure ℝ => e.isInternal = false) (r.penetrations m k) := by
    rw [penetrations]
    split
    · exact .error rfl
    · exact .ok _
  have hpairs : ∀ p, FailsAs (fun e => e.isInternal = false)
      (Discretizer.pointPair ⟨r.query, m, default⟩ p) := fun p =>
    Discretizer.isConfigError_of_pointPair.mono fun _ => Failure.isInternal_of_isConfigError
  have hfound : ∀ ps, FailsAs (fun e => e.isInternal = false)
      (Discretizer.complete (Discretizer.appendPoints ⟨r.query, m, default⟩ [] ps)) := fun ps =>
    (Discretizer.failsAs_collect (fun p => (hpairs p).map) _ ps).map
  exact hpoints.bind (fun ps _ => (hfound ps).bind fun _ _ => .ok _) e h

/-- Two geometries that can be in contact have a frame and a block for each tree that moves one of them. -/
theorem Meet.exists_contact {pair : ContactPair ℝ} {g g' : Geometry ℝ} (h : r.Meet m pair.a pair.b g g') :
    ∃ contact, ContactKinematics.ofPair m k r.query pair = .ok contact ∧
      contact.blocks.map JacobianBlock.tree = ContactKinematics.treesOf m.layout g.body g'.body ∧
      contact.blocks ≠ [] ∧ ∀ b ∈ contact.blocks, b.jacobian.rows = 3 ∧
      b.jacobian.cols = m.layout.size b.tree := by
  have hbody : ∀ {id : GeometryId} {g : Geometry ℝ}, r.get? id = some g → g.body.val < m.numBodies →
      ContactKinematics.bodyOf r.query m id = .ok g.body := fun {id g} hget hlt => by
    have hfound : r.query.body? id = some g.body := congrArg (Option.map Geometry.body) hget
    rw [ContactKinematics.bodyOf, hfound]
    exact require_bind_eq_ok_iff.mpr ⟨hlt, rfl⟩
  have htrees : ContactKinematics.treesOf m.layout g.body g'.body ≠ [] := by
    have hsome := (Bool.and_eq_true_iff.mp h.paired).2
    rcases Bool.or_eq_true_iff.mp hsome with hsome | hsome
    all_goals
      obtain ⟨t, ht⟩ := Option.isSome_iff_exists.mp hsome
    · exact List.ne_nil_of_mem (ContactKinematics.mem_treesOf.mpr (.inl ht))
    · exact List.ne_nil_of_mem (ContactKinematics.mem_treesOf.mpr (.inr ht))
  refine ⟨_, bind_eq_ok_iff.mpr ⟨_, hbody h.first h.firstBody,
    bind_eq_ok_iff.mpr ⟨_, hbody h.second h.secondBody,
    require_bind_eq_ok_iff.mpr ⟨htrees, rfl⟩⟩⟩, ?_, fun hnil => htrees (List.map_eq_nil_iff.mp hnil),
      fun b hb => ?_⟩
  · rw [List.map_map]
    exact List.map_id' _
  · obtain ⟨t, -, rfl⟩ := List.mem_map.mp hb
    exact ⟨rfl, Columns.size_ofFn ..⟩

theorem Meet.blocks {pair : ContactPair ℝ} {g g' : Geometry ℝ} {contact : ContactKinematics ℝ}
    (h : r.Meet m pair.a pair.b g g') (hcontact : ContactKinematics.ofPair m k r.query pair = .ok contact) :
    contact.blocks.map JacobianBlock.tree = ContactKinematics.treesOf m.layout g.body g'.body ∧
      contact.blocks ≠ [] ∧ ∀ b ∈ contact.blocks, b.jacobian.rows = 3 ∧
      b.jacobian.cols = m.layout.size b.tree := by
  obtain ⟨contact', hcontact', hblocks⟩ := h.exists_contact (k := k)
  obtain rfl : contact = contact' := Except.ok.inj (hcontact.symm.trans hcontact')
  exact hblocks

theorem exists_contacts (h : ∀ pair ∈ pairs, ∃ g g', r.Meet m pair.a pair.b g g') :
    ∃ contacts, ContactKinematics.ofPairs m k r.query pairs = .ok contacts := by
  obtain ⟨contacts, hcontacts⟩ := exists_map_eq_ok fun pair hpair => by
    obtain ⟨g, g', hmeet⟩ := h pair hpair
    exact (hmeet.exists_contact (k := k)).imp fun _ => And.left
  exact ⟨contacts, mapM_eq_ok_iff.mpr hcontacts⟩

end Registry

end CompliantContact
