import CompliantContact.Proofs.Constraint.Turn
import CompliantContact.Proofs.Contact.Frame
import CompliantContact.Proofs.Contact.Pairs
import CompliantContact.Proofs.Problem.Shape
import CompliantContact.Proofs.Space.Length

/-!
Contacts seen from the other side.

Which geometry of a penetration comes first is a matter of labels. With the two exchanged, the pair of
the contact has its normal reversed and is otherwise the same. The frame of the reversed normal has its
second axis reversed too, and the relative velocity has the opposite sign. So along the axes of the
frames only the first tangential velocity changes its sign: seen from the other side, a contact is
turned.
-/

namespace CompliantContact

open Finset Outcome

/-! ### Changes in some places -/

/-- The members of a list, changed in some places. -/
def changeAt {β : Type} (change : β → β) (places : ℕ → Bool) (xs : List β) : List β :=
  xs.mapIdx fun i x => if places i then change x else x

section
variable {β γ δ : Type} {change : β → β} {places : ℕ → Bool} {xs ys : List β}

@[simp] theorem length_changeAt : (changeAt change places xs).length = xs.length := List.length_mapIdx

theorem getElem?_changeAt (i : ℕ) : (changeAt change places xs)[i]? = xs[i]?.map fun x =>
    if places i then change x else x :=
  List.getElem?_mapIdx

/-- What a change leaves alone is the same in all places. -/
theorem map_changeAt {f : β → γ} (h : ∀ x, f (change x) = f x) :
    (changeAt change places xs).map f = xs.map f := by
  refine List.ext_getElem? fun i => ?_
  rw [List.getElem?_map, List.getElem?_map, getElem?_changeAt, Option.map_map]
  refine congrArg (Option.map · _) (funext fun x => ?_)
  rw [Function.comp_apply]
  split_ifs
  · exact h x
  · rfl

/-- A step that follows the change follows it along a list. -/
theorem Outcome.map_changeAt {α : Type} {f : β → Outcome α γ} {change' : γ → γ} {zs : List γ}
    (h : xs.map f = zs.map .ok)
    (hstep : ∀ i x z, places i = true → xs[i]? = some x → zs[i]? = some z → f x = .ok z →
      f (change x) = .ok (change' z)) :
    (changeAt change places xs).map f = (changeAt change' places zs).map .ok := by
  refine List.ext_getElem? fun i => ?_
  have hentry := congrArg (fun os : List (Outcome α γ) => os[i]?) h
  simp only [List.getElem?_map] at hentry
  simp only [List.getElem?_map, getElem?_changeAt]
  cases hx : xs[i]? with
  | none =>
    rw [hx] at hentry
    rw [Option.map_eq_none_iff.mp hentry.symm]
    rfl
  | some x =>
    rw [hx] at hentry
    obtain ⟨z, hz, hfx⟩ := Option.map_eq_some_iff.mp hentry.symm
    rw [hz]
    simp only [Option.map_some]
    split_ifs with hplace
    · rw [hstep i x z hplace hx hz hfx.symm]
    · rw [← hfx]

/-- Places that are all in the first of two lists. -/
theorem changeAt_append : changeAt change (fun i => decide (i < xs.length) && places i) (xs ++ ys) =
    changeAt change places xs ++ ys := by
  refine List.ext_getElem? fun i => ?_
  rw [getElem?_changeAt, List.getElem?_append, List.getElem?_append, length_changeAt, getElem?_changeAt]
  by_cases hi : i < xs.length
  · simp only [hi, if_true, decide_true, Bool.true_and]
  · simp [hi]

theorem changeAt_eq_self (h : ∀ i < xs.length, places i = false) : changeAt change places xs = xs := by
  refine List.ext_getElem? fun i => ?_
  rw [getElem?_changeAt]
  cases hx : xs[i]? with
  | none => rfl
  | some x => rw [Option.map_some, h i (List.getElem?_eq_some_iff.mp hx).1, if_neg Bool.false_ne_true]

theorem mem_changeAt {y : β} (h : y ∈ changeAt change places xs) :
    ∃ x ∈ xs, y = x ∨ y = change x := by
  obtain ⟨i, hi⟩ := List.mem_iff_getElem?.mp h
  rw [getElem?_changeAt] at hi
  obtain ⟨x, hx, rfl⟩ := Option.map_eq_some_iff.mp hi
  refine ⟨x, List.mem_of_getElem? hx, ?_⟩
  split_ifs
  · exact .inr rfl
  · exact .inl rfl

theorem zip_changeAt {f : β → β} {g : γ → γ} {ys : List γ} :
    (changeAt f places xs).zip (changeAt g places ys) = changeAt (Prod.map f g) places (xs.zip ys) := by
  refine List.ext_getElem? fun i => ?_
  simp only [List.zip_eq_zipWith, getElem?_changeAt, List.getElem?_zipWith]
  cases xs[i]? <;> cases ys[i]? <;> simp only [Option.map_none, Option.map_some]
  split_ifs <;> rfl

end

/-! ### Pairs -/

section
variable {α : Type} [Scalar α]

def Penetration.mirrored (p : Penetration α) : Penetration α :=
  { p with a := p.b, b := p.a, pointA := p.pointB, pointB := p.pointA, normal := -p.normal }

def ContactPair.mirrored (p : ContactPair α) : ContactPair α :=
  { p with a := p.b, b := p.a, normal := -p.normal }

/-- A geometry engine that reports some of its penetrations from the other side. -/
def GeometryQuery.mirrored (query : GeometryQuery α)
    (chosen : Mechanism α → PositionKinematics α → ℕ → Bool) :
    GeometryQuery α :=
  { query with penetrations :=
    fun m k => (query.penetrations m k).map (changeAt Penetration.mirrored (chosen m k)) }

def GeometryQuery.HasUnitNormals (query : GeometryQuery α) : Prop :=
  ∀ m k ps, query.penetrations m k = .ok ps → ∀ p ∈ ps, p.normal.norm = 1

end

namespace Discretizer

section
variable {α : Type} [Scalar α]

/-- With some of the penetrations reported from the other side. -/
def mirrored (d : Discretizer α) (chosen : Mechanism α → PositionKinematics α → ℕ → Bool) : Discretizer α :=
  { d with query := d.query.mirrored chosen }

/-- The contacts that are then seen from the other side: those of the penetrations, which are the first. -/
def mirrors (d : Discretizer α) (chosen : Mechanism α → PositionKinematics α → ℕ → Bool)
    (k : PositionKinematics α) (model : ContactModel) (i : ℕ) : Bool :=
  model.usesPointPairs && (decide (i < d.query.numPenetrations d.mechanism k) && chosen d.mechanism k i)

end

section
variable {d : Discretizer ℝ} {k : PositionKinematics ℝ} {model : ContactModel} {p : Penetration ℝ}
  {pair : ContactPair ℝ}
  {pairs : List (ContactPair ℝ)} (chosen : Mechanism ℝ → PositionKinematics ℝ → ℕ → Bool)

/-- The laws of combination do not tell the two geometries apart. -/
theorem pointPair_mirrored (h : d.pointPair p = .ok pair) : d.pointPair p.mirrored = .ok pair.mirrored := by
  simp only [pointPair, bind_eq_ok_iff] at h ⊢
  obtain ⟨materialA, hmaterialA, materialB, hmaterialB, kA, hkA, kB, hkB, tauA, htauA, tauB, htauB, muA,
    hmuA, muB, hmuB, h⟩ := h
  refine ⟨materialB, hmaterialB, materialA, hmaterialA, kB, hkB, kA, hkA, tauB, htauB, tauA, htauA, muB,
    hmuB, muA, hmuA, ?_⟩
  cases h
  have hpoint : p.pointB * (kB / (kB + kA)) + p.pointA * (kA / (kB + kA)) =
      p.pointA * (kA / (kA + kB)) + p.pointB * (kB / (kA + kB)) := by
    rw [add_comm kB kA]
    ext <;> exact add_comm _ _
  have hstiffness : combineStiffnesses kB kA = combineStiffnesses kA kB := by
    rw [combineStiffnesses, combineStiffnesses, mul_comm kB kA, add_comm kB kA]
  have hfriction : combineFrictions muB muA = combineFrictions muA muB := by
    rw [combineFrictions, combineFrictions, mul_right_comm, add_comm muB muA]
  have hdissipation : combineDissipationTimes tauB tauA = combineDissipationTimes tauA tauB :=
    add_comm tauB tauA
  refine congrArg Except.ok ?_
  simp only [ContactPair.mirrored, Penetration.mirrored, hpoint, hstiffness, hfriction, hdissipation]

theorem appendSurfaces_mirrored (ss : List (ContactSurface ℝ)) :
    (d.mirrored chosen).appendSurfaces pairs ss = d.appendSurfaces pairs ss := by
  induction ss generalizing pairs with
  | nil => rfl
  | cons s ss ih =>
    have hmaterial : (d.mirrored chosen).surfaceMaterial s = d.surfaceMaterial s := rfl
    simp only [appendSurfaces, hmaterial, ih]

theorem surfacePairs_mirrored : (d.mirrored chosen).surfacePairs k model = d.surfacePairs k model := by
  simp only [surfacePairs, appendSurfaces_mirrored]
  rfl

theorem penetrationPairs_mirrored (h : d.penetrationPairs k model = .ok pairs) :
    (d.mirrored chosen).penetrationPairs k model =
      .ok (changeAt ContactPair.mirrored (chosen d.mechanism k) pairs) := by
  obtain ⟨hmodel, rfl⟩ | ⟨hmodel, ps, hps, hmap, -⟩ := penetrationPairs_eq_ok h
  · rw [penetrationPairs, hmodel]
    rfl
  · have hps' : (d.mirrored chosen).query.penetrations d.mechanism k =
        .ok (changeAt Penetration.mirrored (chosen d.mechanism k) ps) := by
      show (d.query.penetrations d.mechanism k).map _ = _
      rw [hps]
      rfl
    rw [penetrationPairs, if_pos hmodel, bind_eq_ok_iff]
    refine ⟨_, hps', mapM_eq_ok_iff.mpr ?_⟩
    exact Outcome.map_changeAt hmap fun _ _ _ _ _ _ => pointPair_mirrored

/-- The contacts are the same, some of them seen from the other side. -/
theorem contactPairs_mirrored (h : d.contactPairs k model = .ok pairs) :
    (d.mirrored chosen).contactPairs k model =
      .ok (changeAt ContactPair.mirrored (d.mirrors chosen k model) pairs) := by
  obtain ⟨points, faces, hpoints, hfaces, rfl⟩ := contactPairs_eq_ok_iff.mp h
  refine contactPairs_eq_ok_iff.mpr ⟨_, faces, penetrationPairs_mirrored chosen hpoints, ?_, ?_⟩
  · rw [surfacePairs_mirrored, hfaces]
  obtain ⟨hmodel, rfl⟩ | ⟨hmodel, _, -, -, hnum⟩ := penetrationPairs_eq_ok hpoints
  · exact changeAt_eq_self fun i _ => by rw [mirrors, hmodel, Bool.false_and]
  · have hplaces : d.mirrors chosen k model = fun i =>
        decide (i < points.length) && chosen d.mechanism k i := by
      funext i
      rw [mirrors, hmodel, hnum, Bool.true_and]
    rw [hplaces, changeAt_append]

/-- A contact is only seen from the other side if it is that of a penetration. -/
theorem exists_of_mirrors (h : d.contactPairs k model = .ok pairs) {i : ℕ}
    (hi : d.mirrors chosen k model i = true) :
    ∃ ps p pair, d.query.penetrations d.mechanism k = .ok ps ∧ ps[i]? = some p ∧ pairs[i]? = some pair ∧
      pair.normal = p.normal := by
  rw [mirrors, Bool.and_eq_true, Bool.and_eq_true, decide_eq_true_iff] at hi
  obtain ⟨ps, hps, hnum, hpairs⟩ := exists_penetrations h hi.1
  have hp := List.getElem?_eq_getElem (hnum ▸ hi.2.1)
  obtain ⟨pair, hpair, hmade⟩ := hpairs i _ hp
  exact ⟨ps, _, pair, hps, hp, hpair, (pointPair_eq_ok hmade).2.2⟩

end

end Discretizer

/-! ### Frames -/

namespace Turn

/-- The turn that reverses the first axis. -/
noncomputable def mirror : Turn := ⟨!![-1, 0; 0, 1], by
  rw [Matrix.mem_orthogonalGroup_iff]
  ext i j
  fin_cases i <;> fin_cases j <;> simp [Matrix.mul_apply]⟩

theorem apply_mirror_zero (u : ℕ → ℝ) : mirror.apply u 0 = -u 0 := by simp [apply_zero, mirror]

theorem apply_mirror_first (u : ℕ → ℝ) : mirror.apply u 1 = u 1 := by simp [apply_first, mirror]

end Turn

def Mat3.mirrored {α : Type} [Scalar α] (m : Mat3 α) : Mat3 α := ⟨m.x, -m.y, -m.z⟩

namespace ContactFrame

/-- The reference axis depends on the line of the normal only, and so does the first axis. -/
theorem basis_neg {n : Vec3 ℝ} (hn : n.norm = 1) : basis (-n) = (basis n).mirrored := by
  have hlong : ¬ (¬ Scalar.isFinite (1 : ℝ) = true ∨ (1 : ℝ) < minNormalNorm) := by
    simp only [minNormalNorm, Scalar.decimal, Scalar.isFinite_eq]
    norm_num
  have hone : ∀ u : Vec3 ℝ, u / (1 : ℝ) = u := fun u => by ext <;> exact div_one _
  have habs : Scalar.abs (-n).x = Scalar.abs n.x := by
    rw [Scalar.abs_eq_abs, Scalar.abs_eq_abs]
    exact abs_neg n.x
  have hreference : ∀ r : Vec3 ℝ, r - -n * (-n).dot r = r - n * n.dot r := by
    intro r
    ext <;> simp [Vec3.dot] <;> ring
  have hcross : ∀ t : Vec3 ℝ, (-n).cross t = -n.cross t := by
    intro t
    ext <;> simp [Vec3.cross] <;> ring
  simp only [basis, Vec3.norm_neg, hn, hone, if_neg hlong, habs, hreference, hcross, Mat3.mirrored]

end ContactFrame

namespace ContactKinematics

section
variable {α : Type}

/-- The trees of two bodies in the other order. -/
theorem treesOf_swap (layout : TreeLayout) (a b : BodyIndex) :
    treesOf layout b a = (treesOf layout a b).reverse := by
  rw [treesOf, treesOf]
  cases layout.bodyTree? a with
  | none => cases layout.bodyTree? b <;> rfl
  | some t =>
    cases layout.bodyTree? b with
    | none => simp
    | some u =>
      simp only [Option.filter_some, ne_eq, Option.some.injEq, decide_not]
      by_cases h : u = t
      · simp [h]
      · simp [h, Ne.symm h]

end

variable {m : Mechanism ℝ} {k : PositionKinematics ℝ} {query : GeometryQuery ℝ} {pair : ContactPair ℝ}
  {c : ContactKinematics ℝ} {a b : BodyIndex} {p : Vec3 ℝ} {frame : Mat3 ℝ}

noncomputable def mirrored (c : ContactKinematics ℝ) : ContactKinematics ℝ :=
  { c with blocks := (c.blocks.map Turn.mirror.block).reverse, frame := c.frame.mirrored }

/-- Seen from the other side the relative velocity is the opposite one. -/
theorem relative_swap (m : Mechanism ℝ) (k : PositionKinematics ℝ) (a b : BodyIndex) (p : Vec3 ℝ) (i : ℕ) :
    relative m k b a p i = -relative m k a b p i := by
  have hentry : ∀ c d : Columns ℝ, (c - d) i = if i < c.size then c i - d i else 0 := fun c d =>
    Columns.get_ofFn ..
  rw [relative, relative, hentry, hentry, Mechanism.size_translationalJacobian,
    Mechanism.size_translationalJacobian]
  split_ifs <;> ext <;> simp

/-- Along the axes of the mirrored frame the opposite velocity differs in the first coordinate. -/
theorem transposeMulVec_mirrored (frame : Mat3 ℝ) (u : Vec3 ℝ) :
    (frame.mirrored.transposeMulVec (-u)).get = Turn.mirror.apply (frame.transposeMulVec u).get := by
  funext n
  rcases n with _ | _ | _ | n
  · rw [Turn.apply_mirror_zero]
    simp only [Vec3.get, Mat3.transposeMulVec, Mat3.mirrored, Vec3.dot, Vec3.neg_x, Vec3.neg_y, Vec3.neg_z]
    ring
  · rw [Turn.apply_mirror_first]
    simp only [Vec3.get, Mat3.transposeMulVec, Mat3.mirrored, Vec3.dot, Vec3.neg_x, Vec3.neg_y, Vec3.neg_z]
    ring
  · rw [Turn.apply_of_le _ _ (by omega)]
    simp only [Vec3.get, Mat3.transposeMulVec, Mat3.mirrored, Vec3.dot, Vec3.neg_x, Vec3.neg_y, Vec3.neg_z]
    ring
  · rfl

theorem block_mirrored (layout : TreeLayout) (frame : Mat3 ℝ) (t : TreeIndex) :
    block layout frame.mirrored (relative m k b a p) t =
      Turn.mirror.block (block layout frame (relative m k a b p) t) := by
  have hsize : ∀ f : ℕ → Vec3 ℝ, (Columns.ofFn (layout.size t) f).size = layout.size t := Columns.size_ofFn _
  refine congrArg (JacobianBlock.mk t) (Mat.ext rfl ?_ fun n hn i hi => ?_)
  · exact (hsize _).trans (hsize _).symm
  · have hi : i < layout.size t := hi.trans_eq (hsize _)
    have hentry : ∀ f : ℕ → Vec3 ℝ, ∀ l < 3, (Columns.ofFn (layout.size t) f).toMat l i = (f i).get l := by
      intro f l hl
      refine (Mat.get_ofFn_of_lt hl (hi.trans_eq (hsize f).symm)).trans ?_
      rw [Columns.get_ofFn, if_pos hi]
    rw [hentry _ n hn, relative_swap, transposeMulVec_mirrored, Turn.get_mat (.inl (Nat.le_succ 2))]
    refine Turn.Fits.apply_congr (n := 3) (.inl (Nat.le_succ 2)) hn fun l hl => ?_
    exact (hentry (fun i => frame.transposeMulVec (relative m k a b p (layout.start t + i))) l hl).symm

/-- The kinematics of a contact from the other side. -/
theorem ofPair_mirrored (h : ofPair m k query pair = .ok c) (hunit : pair.normal.norm = 1) :
    ofPair m k query pair.mirrored = .ok c.mirrored := by
  simp only [ofPair, bind_eq_ok_iff] at h ⊢
  obtain ⟨a, ha, b, hb, _, htrees, h⟩ := h
  have hframe : ContactFrame.alongAxis (-pair.mirrored.normal) 2 =
      (ContactFrame.alongAxis (-pair.normal) 2).mirrored := by
    show ContactFrame.basis (- -pair.normal) = _
    rw [ContactFrame.basis_neg ((Vec3.norm_neg _).trans hunit)]
    rfl
  refine ⟨b, hb, a, ha, (), require_eq_ok_iff.mpr ?_, ?_⟩
  · rw [treesOf_swap, ne_eq, List.reverse_eq_nil_iff]
    exact require_eq_ok_iff.mp htrees
  · cases h
    refine congrArg Except.ok (congrArg₂ (ContactKinematics.mk _) ?_ hframe)
    rw [hframe, treesOf_swap, List.map_reverse, List.map_map]
    exact congrArg List.reverse (List.map_congr_left fun t _ => block_mirrored m.layout _ t)

theorem ofPairs_mirrored {pairs : List (ContactPair ℝ)} {cs : List (ContactKinematics ℝ)} (places : ℕ → Bool)
    (h : ofPairs m k query pairs = .ok cs)
    (hunit : ∀ i pair, places i = true → pairs[i]? = some pair → pair.normal.norm = 1) :
    ofPairs m k query (changeAt ContactPair.mirrored places pairs) = .ok (changeAt mirrored places cs) :=
  mapM_eq_ok_iff.mpr (Outcome.map_changeAt (mapM_eq_ok_iff.mp h) fun i pair _ hi hpair _ hc =>
    ofPair_mirrored hc (hunit i pair hi hpair))

end ContactKinematics

/-! ### Constraints -/

namespace Constraint

variable {blocks : List (JacobianBlock ℝ)} {c : Constraint ℝ} {rows : ℕ}

/-- A contact from the other side: turned, and with its trees in the other order. -/
noncomputable def mirrored (c : Constraint ℝ) : Constraint ℝ :=
  match c.second with
  | none => { c with first := Turn.mirror.block c.first }
  | some b => { c with first := Turn.mirror.block b, second := some (Turn.mirror.block c.first) }

theorem mirrored_eq (c : Constraint ℝ) : c.mirrored.kind = c.kind ∧ c.mirrored.g0 = c.g0 ∧
    c.mirrored.blocks = (c.blocks.map Turn.mirror.block).reverse := by
  obtain ⟨kind, g0, first, second⟩ := c
  cases second <;> exact ⟨rfl, rfl, rfl⟩

theorem turned_mirrored (h : c.isContact = true) : c.Turned Turn.mirror c.mirrored where
  kind := c.mirrored_eq.1
  g0 := c.mirrored_eq.2.1
  blocks := c.mirrored_eq.2.2 ▸ List.reverse_perm _
  contact := .inl h

theorem cone_mirrored {phi : ℝ} {p : ConeParameters ℝ} (h : cone blocks phi p = .ok c) :
    cone (blocks.map Turn.mirror.block).reverse phi p = .ok c.mirrored := by
  rw [cone, require_bind_eq_ok_iff, bind_eq_ok_iff] at h ⊢
  obtain ⟨hparameters, _, hfactors, h⟩ := h
  refine ⟨hparameters, (), hfactors, ?_⟩
  rw [bind_eq_ok_iff] at h
  obtain ⟨⟨first, second⟩, hblocks, h⟩ := h
  cases h
  obtain ⟨rfl, hrows, htrees⟩ := checkBlocks_eq_ok hblocks
  -- A turned block is as high as it was.
  have hcheck : ∀ b ∈ first :: second.toList, checkRows 3 (Turn.mirror.block b) = .ok () := fun b hb =>
    checkRows_eq_ok_iff.mpr (hrows b hb).symm
  cases second with
  | none =>
    exact bind_eq_ok_iff.mpr ⟨_, bind_eq_ok_iff.mpr ⟨(), hcheck first (List.mem_cons_self ..), rfl⟩, rfl⟩
  | some b =>
    refine bind_eq_ok_iff.mpr ⟨(Turn.mirror.block b, some (Turn.mirror.block first)), ?_, rfl⟩
    refine require_bind_eq_ok_iff.mpr ⟨(htrees b rfl).symm, bind_eq_ok_iff.mpr ⟨(), hcheck b ?_,
      bind_eq_ok_iff.mpr ⟨(), hcheck first (List.mem_cons_self ..), rfl⟩⟩⟩
    exact List.mem_cons_of_mem _ (List.mem_singleton_self b)

end Constraint

end CompliantContact
