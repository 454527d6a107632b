import CompliantContact.Proofs.Simulation.Limits
import CompliantContact.Proofs.Simulation.Sized

/-!
The checks on the way to the problem of a step.

Settings, limits, couplers and the layout of the trees were checked when a simulator was made, and
contacts when they were found. These checks imply those of the constraints and of the problem: every
constraint is accepted, has blocks as wide as the trees of the layout, and comes where its kind may
come. What can still be refused is a joint that has limits and not one degree of freedom
(`Simulator.Made.assemble_eq_error`).
-/

namespace CompliantContact

open Outcome

/-! ### Constraints -/

namespace Constraint

variable {blocks : List (JacobianBlock ℝ)} {rows : ℕ}

/-- One block, or two of different trees. -/
theorem exists_checkBlocks (hsome : blocks ≠ []) (htwo : blocks.length ≤ 2)
    (hnodup : (blocks.map JacobianBlock.tree).Nodup) (hrows : ∀ b ∈ blocks, b.jacobian.rows = rows) :
    ∃ first second, checkBlocks rows blocks = .ok (first, second) := by
  match blocks with
  | [] => exact absurd rfl hsome
  | [a] =>
    exact ⟨a, none, bind_eq_ok_iff.mpr ⟨(), checkRows_eq_ok_iff.mpr (hrows a (by simp)).symm, rfl⟩⟩
  | [a, b] =>
    have htrees : a.tree ≠ b.tree := by simpa using hnodup
    exact ⟨a, some b, require_bind_eq_ok_iff.mpr ⟨htrees,
      bind_eq_ok_iff.mpr ⟨(), checkRows_eq_ok_iff.mpr (hrows a (by simp)).symm,
        bind_eq_ok_iff.mpr ⟨(), checkRows_eq_ok_iff.mpr (hrows b (by simp)).symm, rfl⟩⟩⟩⟩
  | _ :: _ :: _ :: _ => simp at htwo

theorem exists_cone {p : ConeParameters ℝ} (phi : ℝ) (hp : 0 ≤ p.mu ∧ 0 < p.stiffness ∧ 0 ≤ p.dissipationTime)
    (hfactors : 0 < p.beta ∧ 0 < p.sigma)
    (hblocks : ∃ first second, checkBlocks 3 blocks = .ok (first, second)) :
    ∃ c, cone blocks phi p = .ok c := by
  obtain ⟨first, second, hblocks⟩ := hblocks
  refine ⟨⟨.cone p, .ofList [0, 0, phi], first, second⟩,
    require_bind_eq_ok_iff.mpr ⟨hp, bind_eq_ok_iff.mpr ⟨(), ?_,
    bind_eq_ok_iff.mpr ⟨(first, second), hblocks, rfl⟩⟩⟩⟩
  exact require_eq_ok_iff.mpr ⟨hfactors.1, decide_eq_true hfactors.2⟩

/-- A rigid equation without bounds. -/
theorem exists_holonomic {g tau beta : ℝ} (htau : 0 ≤ tau) (hbeta : 0 < beta)
    (hblocks : ∃ first second, checkBlocks 1 blocks = .ok (first, second)) :
    ∃ c, holonomic blocks (.ofList [g]) ⟨#[none], #[none], #[none], .ofList [tau], beta⟩ = .ok c := by
  obtain ⟨first, second, hblocks⟩ := hblocks
  have hequation : holonomicEquationOk ⟨#[none], #[none], #[none], .ofList [tau], beta⟩ 0 = true := by
    have htau : 0 ≤ (Vec.ofList [tau]) 0 := htau
    simp [holonomicEquationOk, Bound.ordered, htau]
  have hequations : ((List.range (Vec.ofList [g]).size).forM fun i => require
      (holonomicEquationOk ⟨#[none], #[none], #[none], .ofList [tau], beta⟩ i = true)
      (.structural (.holonomicParameters i)) : Outcome ℝ Unit) = .ok () := by
    refine forM_eq_ok_iff.mpr fun i hi => ?_
    obtain rfl : i = 0 := by simpa using hi
    exact require_eq_ok_iff.mpr hequation
  simp only [holonomic, bind_eq_ok_iff]
  exact ⟨_, (), rfl, (), rfl, (), rfl, (), rfl, (), hequations, (), require_eq_ok_iff.mpr ⟨hbeta, rfl⟩,
    (first, second), hblocks, rfl⟩

theorem holonomic_blocks {g0 : Vec ℝ} {p : HolonomicParameters ℝ} {c : Constraint ℝ}
    (h : holonomic blocks g0 p = .ok c) :
    c.blocks = blocks := by
  simp only [holonomic, bind_eq_ok_iff] at h
  obtain ⟨_, -, _, -, _, -, _, -, _, -, _, -, ⟨first, second⟩, hblocks, h⟩ := h
  cases h
  exact (checkBlocks_eq_ok hblocks).1.symm

end Constraint

theorem ContactKinematics.length_treesOf (layout : TreeLayout) (a b : BodyIndex) :
    (treesOf layout a b).length ≤ 2 := by
  rw [treesOf]
  cases layout.bodyTree? a <;> cases layout.bodyTree? b <;> grind

/-- The tree of a body is one of the trees of the layout. -/
theorem Mechanism.mem_trees_of_build {α : Type} [Scalar α] {bodies : List (Body α)}
    {joints : List (Joint α)} {m : Mechanism α}
    (h : build bodies joints = .ok m) {b : BodyIndex} {t : TreeIndex} (ht : m.layout.bodyTree? b = some t) :
    t ∈ m.layout.trees := by
  obtain ⟨n, c, hc, -, -, hlayout⟩ := build_eq_ok h
  rw [hlayout] at ht ⊢
  have hlt : t.val < c.bodyTrees.2 := hc.placed_bodyTrees.lt b.val t ht
  refine List.mem_map.mpr ⟨t.val, List.mem_range.mpr ?_, rfl⟩
  rw [TreeLayout.numTrees, Connections.layout]
  simpa using hlt

/-- The blocks of a coupler: one row in the tree of each joint, or one for both. -/
noncomputable def Simulator.couplerBlocks (layout : TreeLayout) (tA tB : TreeIndex) (placeA placeB : ℕ)
    (ratio : ℝ) :
    List (JacobianBlock ℝ) :=
  if tA = tB then [⟨tA, sparseRow (layout.size tA) [(placeB, -ratio), (placeA, 1)]⟩]
  else [⟨tA, sparseRow (layout.size tA) [(placeA, 1)]⟩, ⟨tB, sparseRow (layout.size tB) [(placeB, -ratio)]⟩]

theorem Simulator.couplerBlocks_spec (layout : TreeLayout) (tA tB : TreeIndex) (placeA placeB : ℕ)
    (ratio : ℝ) :
    couplerBlocks layout tA tB placeA placeB ratio ≠ [] ∧
    (couplerBlocks layout tA tB placeA placeB ratio).length ≤ 2 ∧
      ((couplerBlocks layout tA tB placeA placeB ratio).map JacobianBlock.tree).Nodup ∧
      ∀ b ∈ couplerBlocks layout tA tB placeA placeB ratio,
        b.jacobian.rows = 1 ∧ (b.tree = tA ∨ b.tree = tB) ∧ b.jacobian.cols = layout.size b.tree := by
  rw [couplerBlocks]
  split
  · refine ⟨by simp, by simp, by simp, fun b hb => ?_⟩
    rw [List.mem_singleton.mp hb]
    exact ⟨rfl, .inl rfl, rfl⟩
  · rename_i hapart
    refine ⟨by simp, by simp, by simpa using hapart, fun b hb => ?_⟩
    rcases List.mem_pair.mp hb with rfl | rfl
    · exact ⟨rfl, .inl rfl, rfl⟩
    · exact ⟨rfl, .inr rfl, rfl⟩

namespace Simulator.Made

variable {s : Simulator ℝ} {x : State ℝ} {p : Problem ℝ} {c : Constraint ℝ} (hmade : s.Made)
include hmade

/-! ### Contacts -/

section
variable {k : PositionKinematics ℝ} {r : Registry ℝ} {pair : ContactPair ℝ} {contact : ContactKinematics ℝ}
  {g g' : Geometry ℝ}

/-- A contact in range of two geometries that can be in contact makes a cone. -/
theorem exists_contactConstraint (hpair : pair.InRange)
    (hmeet : r.Meet s.model.toMechanism pair.a pair.b g g')
    (hcontact : ContactKinematics.ofPair s.model.toMechanism k r.query pair = .ok contact) :
    ∃ cone, s.contactConstraint pair contact = .ok cone := by
  obtain ⟨htrees, hsome, hblocks⟩ := hmeet.blocks hcontact
  refine Constraint.exists_cone contact.phi ⟨hpair.friction, hpair.stiffness, hpair.dissipationTime⟩
    ⟨hmade.settings.beta, hmade.settings.sigma⟩
      (Constraint.exists_checkBlocks hsome ?_ ?_ fun b hb => (hblocks b hb).1)
  · rw [← List.length_map JacobianBlock.tree, htrees]
    exact ContactKinematics.length_treesOf ..
  · rw [htrees]
    exact ContactKinematics.nodup_treesOf ..

theorem contactConstraint_fits (hsizes : p.dynamics.toList.map Mat.rows = s.model.layout.sizes.toList)
    (hmeet : r.Meet s.model.toMechanism pair.a pair.b g g')
    (hcontact : ContactKinematics.ofPair s.model.toMechanism k r.query pair = .ok contact)
    (h : s.contactConstraint pair contact = .ok c) : ∀ b ∈ c.blocks, p.Fits b := by
  obtain ⟨_, _, hbuild⟩ := hmade.exists_build
  obtain ⟨htrees, -, hblocks⟩ := hmeet.blocks hcontact
  rw [(contactConstraint_eq_ok h).2.2.1]
  intro b hb
  have htree : b.tree ∈ ContactKinematics.treesOf s.model.layout g.body g'.body := by
    rw [← htrees]
    exact List.mem_map_of_mem hb
  refine Problem.fits_of_layout hsizes ?_ (hblocks b hb).2
  exact (ContactKinematics.mem_treesOf.mp htree).elim (Mechanism.mem_trees_of_build hbuild)
    (Mechanism.mem_trees_of_build hbuild)

end

/-! ### Couplers -/

theorem exists_coupled {coupler : Coupler ℝ} (hc : coupler ∈ s.couplers) :
    ∃ tA tB placeA placeB, tA ∈ s.model.layout.trees ∧ tB ∈ s.model.layout.trees ∧
      s.locateCoupled (s.jointStart coupler.a) = .ok (tA, placeA) ∧
      s.locateCoupled (s.jointStart coupler.b) = .ok (tB, placeB) := by
  obtain ⟨-, ⟨jointA, hA, honeA⟩, jointB, hB, honeB⟩ := hmade.couplable coupler hc
  have hlocate : ∀ {j : JointIndex} {joint : Joint ℝ}, s.model.joint? j = some joint → joint.dofs = 1 →
      ∃ t place, t ∈ s.model.layout.trees ∧ s.locateCoupled (s.jointStart j) = .ok (t, place) :=
        fun {j joint} hj hone => by
    obtain ⟨-, t, hwithin, hplace⟩ := hmade.exists_place (Array.mem_of_getElem? hj) hone
    have hstart : s.jointStart j = joint.velocityStart := by rw [jointStart, hj]; rfl
    refine ⟨t, joint.velocityStart - s.model.layout.start t, hwithin.mem_trees, ?_⟩
    rw [locateCoupled, hstart, hplace]
  obtain ⟨tA, placeA, htA, hlocateA⟩ := hlocate hA honeA
  obtain ⟨tB, placeB, htB, hlocateB⟩ := hlocate hB honeB
  exact ⟨tA, tB, placeA, placeB, htA, htB, hlocateA, hlocateB⟩

/-- A coupler makes a constraint, with blocks as wide as the trees of its joints. -/
theorem exists_couplerConstraint (x : State ℝ) {coupler : Coupler ℝ} (hc : coupler ∈ s.couplers) :
    ∃ c, s.couplerConstraint x coupler = .ok c ∧
      ∀ b ∈ c.blocks, b.tree ∈ s.model.layout.trees ∧ b.jacobian.cols = s.model.layout.size b.tree := by
  obtain ⟨tA, tB, placeA, placeB, htA, htB, hA, hB⟩ := hmade.exists_coupled hc
  obtain ⟨hsome, htwo, hnodup, hblocks⟩ := couplerBlocks_spec s.model.layout tA tB placeA placeB coupler.ratio
  obtain ⟨c, hholonomic⟩ := Constraint.exists_holonomic
    (g := x.positions (s.jointStart coupler.a) - coupler.ratio * x.positions (s.jointStart coupler.b) -
      coupler.offset)
    hmade.settings.timeStep.le hmade.settings.couplerBeta
    (Constraint.exists_checkBlocks hsome htwo hnodup fun b hb => (hblocks b hb).1)
  refine ⟨c, ?_, fun b hb => ?_⟩
  · rw [couplerConstraint, hA, hB]
    exact hholonomic
  · rw [Constraint.holonomic_blocks hholonomic] at hb
    obtain ⟨-, htree, hcols⟩ := hblocks b hb
    exact ⟨htree.elim (· ▸ htA) (· ▸ htB), hcols⟩

/-! ### Limits -/

/-- A joint whose limits are refused has not one degree of freedom. -/
theorem limitConstraint_eq_error {joint : Joint ℝ} {vFree : Vec ℝ} {e : Failure ℝ}
    (hj : joint ∈ s.model.joints) (h : s.limitConstraint x vFree joint = .error e) :
    joint.hasFiniteLimits = true ∧ joint.dofs ≠ 1 ∧ e = .unsupportedJointLimits joint.name := by
  by_cases hone : joint.hasFiniteLimits = true → joint.dofs = 1
  · have hallows : ∀ p, s.windowedLimits joint (x.positions joint.velocityStart)
      (x.velocities joint.velocityStart)
        (vFree joint.velocityStart) = some p → s.Allows p := fun _ hp =>
          windowedLimits_allows (hmade.limited joint hj) hp
    obtain ⟨o, ho⟩ := hmade.exists_limitConstraint (x := x) hj hone hallows
    rw [limitConstraint_eq, ho] at h
    cases h
  · obtain ⟨hfinite, hdofs⟩ := Classical.not_imp.mp hone
    rw [limitConstraint, if_neg (not_not.mpr hfinite), require_bind_eq_error_iff] at h
    rcases h with ⟨-, rfl⟩ | ⟨hdofs', -⟩
    · exact ⟨hfinite, hdofs, rfl⟩
    · exact absurd hdofs' hdofs

/-- The limit of a joint, if it has one, fits its tree. -/
theorem appendNeeded_limit {joint : Joint ℝ} {vFree : Vec ℝ} {o : Option (Constraint ℝ)}
    (hj : joint ∈ s.model.joints)
    (hsizes : p.dynamics.toList.map Mat.rows = s.model.layout.sizes.toList)
    (h : s.limitConstraint x vFree joint = .ok o) : appendNeeded p o = .ok (p.extend o.toList) := by
  refine appendNeeded_of_fits (fun c hc => ?_) fun c hc hcontact => ?_
  · rw [limitConstraint_eq] at h
    obtain ⟨-, hnone⟩ | ⟨-, -, t, hwithin, ⟨-, hnone⟩ | ⟨q, c', -, hc', hlimit⟩⟩ :=
      hmade.limitConstraintOf_eq_ok hj h
    · cases hc.symm.trans hnone
    · cases hc.symm.trans hnone
    · cases hc.symm.trans hc'
      exact Constraint.limit_fits hsizes hwithin hlimit
  · rw [(limitConstraint_eq_ok (h.trans (congrArg Except.ok hc))).1] at hcontact
    cases hcontact

/-- A loop over joints appends their limits, or stops at a joint that may not have any. -/
theorem foldlM_addLimit_eq_error {joints : List (Joint ℝ)} {vFree : Vec ℝ} {e : Failure ℝ}
    (hjoints : ∀ joint ∈ joints, joint ∈ s.model.joints)
    (hsizes : p.dynamics.toList.map Mat.rows = s.model.layout.sizes.toList)
    (h : joints.foldlM (s.addLimit x vFree) p = .error e) :
    ∃ joint ∈ joints, joint.hasFiniteLimits = true ∧ joint.dofs ≠ 1 ∧
    e = .unsupportedJointLimits joint.name := by
  induction joints generalizing p with
  | nil => cases h
  | cons joint joints ih =>
    have hj := hjoints joint (List.mem_cons_self ..)
    rw [List.foldlM_cons, addLimit_eq] at h
    cases ho : s.limitConstraint x vFree joint with
    | error e' =>
      rw [ho] at h
      cases h
      exact ⟨joint, List.mem_cons_self .., hmade.limitConstraint_eq_error hj ho⟩
    | ok o =>
      have hnext : (Except.ok o >>= appendNeeded p) = .ok (p.extend o.toList) :=
        hmade.appendNeeded_limit hj hsizes ho
      rw [ho, hnext] at h
      obtain ⟨other, hother, he⟩ := ih (p := p.extend o.toList)
        (fun other hother => hjoints other (List.mem_cons_of_mem _ hother)) hsizes h
      exact ⟨other, List.mem_cons_of_mem _ hother, he⟩

/-! ### The problem -/

section
variable (hsizes : p.dynamics.toList.map Mat.rows = s.model.layout.sizes.toList)
include hsizes

/-- The contacts of a registry are appended to a problem without constraints. -/
theorem exists_addContacts {r : Registry ℝ} {k : PositionKinematics ℝ} {pairs : List (ContactPair ℝ)}
    {contacts : List (ContactKinematics ℝ)} (hbuilt : p.Built) (hempty : p.numContacts = p.numConstraints)
    (hpairs : ∀ pair ∈ pairs, pair.InRange ∧ ∃ g g', r.Meet s.model.toMechanism pair.a pair.b g g')
    (hcontacts : ContactKinematics.ofPairs s.model.toMechanism k r.query pairs = .ok contacts) :
    ∃ cones frames, s.addContacts p pairs contacts = .ok ⟨p.extend cones, frames⟩ ∧
    (p.extend cones).Built := by
  have hmap := mapM_eq_ok_iff.mp hcontacts
  have hlength : pairs.length = contacts.length := by simpa using congrArg List.length hmap
  have hmade' : ∀ found ∈ pairs.zip contacts, ∃ cone, s.contactConstraint found.1 found.2 = .ok cone ∧
      ∀ b ∈ cone.blocks, p.Fits b := by
    rintro ⟨pair, contact⟩ hmem
    obtain ⟨hrange, g, g', hmeet⟩ := hpairs pair (List.of_mem_zip hmem).1
    have hcontact := forall_mem_zip hmap pair contact hmem
    obtain ⟨cone, hcone⟩ := hmade.exists_contactConstraint hrange hmeet hcontact
    exact ⟨cone, hcone, hmade.contactConstraint_fits hsizes hmeet hcontact hcone⟩
  obtain ⟨cones, hcones⟩ := exists_map_eq_ok (f := fun (pair, k) => s.contactConstraint pair k)
      fun found hmem =>
    (hmade' found hmem).imp fun _ => And.left
  have hfits : ∀ c ∈ cones, ∀ b ∈ c.blocks, p.Fits b := fun c hc => by
    obtain ⟨found, hmem, hok⟩ := exists_mem_of_map_eq_ok hcones hc
    obtain ⟨cone, hcone, hfits⟩ := hmade' found hmem
    obtain rfl : c = cone := Except.ok.inj (hok.symm.trans hcone)
    exact hfits
  have hfold := foldlM_append_of_fits (f := fun (pair, k) => s.contactConstraint pair k)
    (fun _ _ => rfl) hcones hfits
    (.inl ⟨hempty, fun c hc => isContact_of_cones hcones hc⟩)
  refine ⟨cones, contacts.map ContactKinematics.frame,
    bind_eq_ok_iff.mpr ⟨(), requireSize_eq_ok_iff.mpr hlength, bind_eq_ok_iff.mpr ⟨_, hfold, rfl⟩⟩, ?_⟩
  exact (foldlM_append (fun _ _ => rfl) (fun _ _ hc => (contactConstraint_eq_ok hc).2.2.2) hfold hbuilt).1

/-- So are couplers, whatever stands before them. -/
theorem exists_foldlM_couplers (x : State ℝ) :
    ∃ q, s.couplers.foldlM (fun p c => append p (s.couplerConstraint x c)) p = .ok q := by
  obtain ⟨couplers, hcouplers⟩ := exists_map_eq_ok (f := s.couplerConstraint x) fun coupler hmem =>
    (hmade.exists_couplerConstraint x hmem).imp fun _ => And.left
  refine ⟨_, foldlM_append_of_fits (fun _ _ => rfl) hcouplers (fun c hc b hb => ?_)
    (.inr fun c hc => isContact_of_couplers hcouplers hc)⟩
  obtain ⟨coupler, hmem, hok⟩ := exists_mem_of_map_eq_ok hcouplers hc
  obtain ⟨c', hc', hblocks⟩ := hmade.exists_couplerConstraint x hmem
  obtain rfl : c = c' := Except.ok.inj (hok.symm.trans hc')
  exact Problem.fits_of_layout hsizes (hblocks b hb).1 (hblocks b hb).2

end

/-- Contacts of a registry, limits and couplers make a problem, unless a joint has limits that it may
    not have. -/
theorem assemble_eq_error {r : Registry ℝ} {k : PositionKinematics ℝ} {pairs : List (ContactPair ℝ)}
    {contacts : List (ContactKinematics ℝ)} {dynamics : List (Mat ℝ)} {free : FreeAccelerations ℝ}
    {e : Failure ℝ} (hvelocities : x.velocities.size = s.model.numVelocities)
    (hpairs : ∀ pair ∈ pairs, pair.InRange ∧ ∃ g g', r.Meet s.model.toMechanism pair.a pair.b g g')
    (hcontacts : ContactKinematics.ofPairs s.model.toMechanism k r.query pairs = .ok contacts)
    (hdynamics : s.linearDynamics x k = .ok dynamics)
    (h : s.assemble x dynamics free pairs contacts = .error e) :
    ∃ joint ∈ s.model.joints, joint.hasFiniteLimits = true ∧ joint.dofs ≠ 1 ∧
    e = .unsupportedJointLimits joint.name := by
  have hsize : (s.freeVelocities x free).size = s.model.numVelocities := Vec.size_add.trans hvelocities
  obtain ⟨base, hbase, -⟩ :=
    exists_problem_of_linearDynamics hmade.orderly hmade.laidOut hmade.settings.timeStep hdynamics hsize
  have hnew := Problem.new_eq_ok hbase
  have hsizes : base.dynamics.toList.map Mat.rows = s.model.layout.sizes.toList := by
    rw [hnew]
    exact map_rows_linearDynamics hdynamics
  obtain ⟨cones, frames, hadd, hbuilt⟩ :=
    hmade.exists_addContacts hsizes (.new hbase) (by rw [hnew]; rfl) hpairs hcontacts
  simp only [assemble, addJointConstraints, bind_eq_error_iff, hbase, hadd, reduceCtorEq, false_or,
    Except.ok.injEq, exists_eq_left'] at h
  rcases h with h | ⟨_, -, h⟩
  swap
  · cases h
  rcases h with h | ⟨q, hq, h⟩
  · obtain ⟨joint, hjoint, he⟩ := hmade.foldlM_addLimit_eq_error (p := base.extend cones)
      (fun joint hj => Array.mem_toList_iff.mp hj) hsizes h
    exact ⟨joint, Array.mem_toList_iff.mp hjoint, he⟩
  · -- The limits have left the trees as they were.
    obtain ⟨-, limits, -, rfl⟩ := foldlM_appendNeeded (fun p joint => addLimit_eq s x _ p joint)
      (fun joint c hc => (limitConstraint_eq_ok hc).2) hq hbuilt
    obtain ⟨q, hcouplers⟩ := hmade.exists_foldlM_couplers (p :=
      (base.extend cones).extend (limits.filterMap id)) hsizes x
    cases hcouplers.symm.trans h

end Simulator.Made

end CompliantContact
