import CompliantContact.Proofs.Simulation.InternalFailures

/-!
The families of failures.

Every check on the way through a step fails in exactly one family: of configuration, of the solver, or
of structure. Forward dynamics alone has a failure that is in none. It says that the mass matrix of a
tree is not positive definite, as when the bodies of the tree have no mass.

So what is asked of a simulator over a registry, without a source of actuation, fails in one family, or
breaks off, or names a tree whose mass matrix has no factor. Where the values that are up to date are
the simulator's own, all failures are of one family if and only if the mass matrices of all trees have a
factor (`Simulator.failure_families`).
-/

namespace CompliantContact

open Outcome

variable {α : Type}

/-! ### Families -/

namespace Failure

/-- Exactly one of the three families has the failure. -/
def InOneFamily (e : Failure α) : Prop := [e.isConfigError, e.isSolverFailure, e.isStructural].count true = 1

/-- What breaks off gives no failure. -/
def BreaksOff (e : Failure α) : Prop := ∃ last size, e = .outOfRange last size

theorem inOneFamily_iff {e : Failure α} : e.InOneFamily ↔ (∀ what, e ≠ .notPositiveDefinite what) ∧
    ¬ e.BreaksOff := by
  cases e with
  | notPositiveDefinite what => exact ⟨nofun, fun h => absurd rfl (h.1 what)⟩
  | outOfRange last size => exact ⟨nofun, fun h => absurd ⟨last, size, rfl⟩ h.2⟩
  | _ => exact ⟨fun _ => ⟨nofun, nofun⟩, fun _ => rfl⟩

theorem inOneFamily_of_isConfigError {e : Failure α} (h : e.isConfigError = true) : e.InOneFamily :=
  inOneFamily_iff.mpr ⟨fun what he => (by cases he; cases h), fun ⟨_, _, he⟩ => (by cases he; cases h)⟩

end Failure

/-- Fails, if at all, in one family. -/
abbrev Outcome.Classified {β : Type} (x : Outcome α β) : Prop := FailsAs Failure.InOneFamily x

theorem Outcome.FailsAs.classified {β : Type} {x : Outcome α β} (h : FailsAs (·.isConfigError) x) :
    Classified x :=
  h.mono fun _ => Failure.inOneFamily_of_isConfigError

theorem classified_requireSize {what : String} {expected actual : ℕ} :
    Classified (requireSize what expected actual : Outcome α Unit) := .require rfl

/-! ### Contacts -/

namespace Discretizer

variable [Scalar α] {d : Discretizer α}

theorem isConfigError_of_surfaceMaterial {s : ContactSurface α} :
    FailsAs (·.isConfigError) (d.surfaceMaterial s) :=
  .bind isConfigError_of_material fun _ _ => .bind isConfigError_of_material fun _ _ =>
    .bind Material.isConfigError_of_dissipationTime fun _ _ =>
      .bind Material.isConfigError_of_dissipationTime fun _ _ =>
    .bind Material.isConfigError_of_dynamicFriction fun _ _ =>
      .bind Material.isConfigError_of_dynamicFriction fun _ _ => .ok _

theorem classified_atCentroid {p : FacePressure α} {mesh : MeshKind} {centroid : Vec3 α} :
    Classified (p.atCentroid mesh centroid) := by
  unfold FacePressure.atCentroid
  split
  · exact .ok _
  · exact .ok _
  · exact .error rfl

theorem classified_facePair {s : ContactSurface α} {tau mu : α} {f : SurfaceFace α} :
    Classified (facePair s tau mu f) := by
  rw [facePair]
  split
  · exact .ok _
  · split
    · exact .error rfl
    · dsimp only
      split
      · exact .ok _
      · refine .bind classified_atCentroid fun _ _ => ?_
        split <;> exact .ok _

theorem classified_appendSurfaces {surfaces : List (ContactSurface α)} {pairs : List (ContactPair α)} :
    Classified (d.appendSurfaces pairs surfaces).2 := by
  induction surfaces generalizing pairs with
  | nil => exact .ok _
  | cons s rest ih =>
    rw [appendSurfaces]
    split
    next e he => exact .error (isConfigError_of_surfaceMaterial.classified e he)
    next tau mu _ =>
      have hfaces : Classified (collect (facePair s tau mu) pairs s.faces).2 :=
        failsAs_collect (fun _ => classified_facePair) pairs s.faces
      split
      next hcollect =>
        rw [hcollect] at hfaces
        exact hfaces
      next => exact ih

/-- A registry fails to find contacts for a geometry on a body that the mechanism does not have. -/
theorem classified_penetrations {r : Registry α} {m : Mechanism α} {k : PositionKinematics α} :
    Classified (r.penetrations m k) := by
  rw [Registry.penetrations]
  split
  · exact .error rfl
  · exact .ok _

theorem classified_contactPairs {r : Registry α} (hquery : d.query = r.query) {k : PositionKinematics α}
    {model : ContactModel} : Classified (d.contactPairs k model) := by
  have hsurfaces : ∀ pairs, Classified (if model.usesContactSurfaces then do
      let surfaces ← r.query.surfaces d.mechanism k
      complete (d.appendSurfaces pairs surfaces)
    else return pairs) := fun pairs => by
    split
    · exact .bind (.ok _) fun _ _ => classified_appendSurfaces.map
    · exact .ok _
  rw [contactPairs, hquery]
  split
  · exact .bind classified_penetrations fun _ _ =>
      .bind (failsAs_collect (fun _ => isConfigError_of_pointPair.classified.map) _ _).map
        fun pairs _ => hsurfaces pairs
  · exact .bind (.ok _) fun pairs _ => hsurfaces pairs

end Discretizer

namespace ContactKinematics

theorem classified_bodyOf {query : GeometryQuery α} {m : Mechanism α} {id : GeometryId} :
    Classified (bodyOf query m id) := by
  rw [bodyOf]
  split
  · exact .error rfl
  · exact .bind (.require rfl) fun _ _ => .ok _

theorem classified_ofPairs [Scalar α] {m : Mechanism α} {k : PositionKinematics α} {query : GeometryQuery α}
    {pairs : List (ContactPair α)} : Classified (ofPairs m k query pairs) :=
  .mapM fun _ _ => .bind classified_bodyOf fun _ _ => .bind classified_bodyOf fun _ _ =>
    .bind (.require rfl) fun _ _ => .ok _

end ContactKinematics

/-! ### Constraints -/

namespace Constraint

variable {blocks : List (JacobianBlock α)}

theorem classified_checkBlocks {rows : ℕ} : Classified (checkBlocks rows blocks) := by
  rw [checkBlocks.eq_def]
  split
  · exact .bind classified_requireSize fun _ _ => .ok _
  · exact .bind (.require rfl) fun _ _ => .bind classified_requireSize fun _ _ =>
      .bind classified_requireSize fun _ _ => .ok _
  · exact .error rfl

variable [Scalar α]

theorem classified_cone {phi : α} {p : ConeParameters α} : Classified (cone blocks phi p) :=
  .bind (.require rfl) fun _ _ => .bind (.require rfl) fun _ _ =>
    .bind classified_checkBlocks fun _ _ => .ok _

theorem classified_limit {tree : TreeIndex} {dof size : ℕ} {q0 : α} {p : LimitParameters α} :
    Classified (limit tree dof size q0 p) :=
  .bind (.require rfl) fun _ _ => .bind (.require rfl) fun _ _ => .bind (.require rfl) fun _ _ =>
    .bind (.require rfl) fun _ _ => .ok _

theorem classified_holonomic {g0 : Vec α} {p : HolonomicParameters α} : Classified (holonomic blocks g0 p) :=
  .bind classified_requireSize fun _ _ => .bind classified_requireSize fun _ _ =>
    .bind classified_requireSize fun _ _ =>
    .bind classified_requireSize fun _ _ => .bind (.forM fun _ _ => .require rfl) fun _ _ =>
    .bind (.require rfl) fun _ _ => .bind classified_checkBlocks fun _ _ => .ok _

end Constraint

/-! ### Problems -/

namespace Problem

variable {p : Problem α}

theorem classified_addConstraint {c : Constraint α} : Classified (p.addConstraint c) :=
  .bind (.require rfl) fun _ _ =>
    .bind (.forM fun _ _ => .bind (.require rfl) fun _ _ => classified_requireSize) fun _ _ => .ok _

variable [Scalar α]

theorem classified_new {timeStep : α} {dynamics : List (Mat α)} {v : Vec α} :
    Classified (new timeStep dynamics v) :=
  .bind (.require rfl) fun _ _ =>
    .bind (.bind (.forM fun _ _ => classified_requireSize) fun _ _ => classified_requireSize)
    fun _ _ => .ok _

/-- How a solve ends is part of its answer. -/
theorem classified_solve {config : SolverConfig α} {guess : Vec α} : Classified (p.solve config guess) := by
  refine .bind classified_requireSize fun _ _ => ?_
  split
  · exact .ok _
  · split <;> exact .ok _

end Problem

namespace Simulator

variable {s : Simulator α} {x : State α} {p : Problem α}

theorem classified_validate {c : Setting α} : Classified (s.validate c) :=
  .bind (.require rfl) fun _ _ => .require rfl

theorem classified_locateCoupled {dof : ℕ} : Classified (s.locateCoupled dof) := by
  rw [locateCoupled]
  split
  · exact .error rfl
  · exact .ok _

theorem classified_append {c : Outcome α (Constraint α)} (h : Classified c) : Classified (append p c) :=
  .bind h fun _ _ => .bind Problem.classified_addConstraint fun _ _ => .ok _

variable [Scalar α]

theorem classified_addContacts {pairs : List (ContactPair α)} {contacts : List (ContactKinematics α)} :
    Classified (s.addContacts p pairs contacts) :=
  .bind classified_requireSize fun _ _ =>
    .bind (.foldlM (fun _ _ => classified_append Constraint.classified_cone) _ _) fun _ _ => .ok _

theorem classified_limitConstraint {vFree : Vec α} {joint : Joint α} :
    Classified (s.limitConstraint x vFree joint) := by
  rw [limitConstraint]
  split
  · exact .ok _
  · refine .bind (.require rfl) fun _ _ => ?_
    dsimp only
    split
    · exact .error rfl
    · split
      · exact .ok _
      · exact .bind Constraint.classified_limit fun _ _ => .ok _

theorem classified_addLimit {vFree : Vec α} {joint : Joint α} : Classified (s.addLimit x vFree p joint) := by
  refine .bind classified_limitConstraint fun o _ => ?_
  split
  · exact .ok _
  · exact classified_append (.ok _)

theorem classified_couplerConstraint {c : Coupler α} : Classified (s.couplerConstraint x c) :=
  .bind classified_locateCoupled fun _ _ => .bind classified_locateCoupled fun _ _ =>
    Constraint.classified_holonomic

theorem classified_addJointConstraints : Classified (s.addJointConstraints x p) :=
  .bind (.foldlM (fun _ _ => classified_addLimit) _ _) fun _ _ =>
    .foldlM (fun _ _ => classified_append classified_couplerConstraint) _ _

/-- A solve that does not succeed is a failure of the solver. -/
theorem classified_contactResults {p : AssembledProblem α} : Classified (s.contactResults x p) :=
  .bind Problem.classified_solve fun _ _ => .bind (.require rfl) fun _ _ =>
    .bind (.require rfl) fun _ _ => .bind classified_requireSize fun _ _ => .ok _

end Simulator

/-! ### Mass matrices -/

namespace Mechanism

variable [Scalar α] {m : Mechanism α} {k : PositionKinematics α} {v added : Vec α} {f : Forces α}

/-- The mass matrix of a tree, with inertia added to its velocities, has no factor. -/
def Degenerate (m : Mechanism α) (k : PositionKinematics α) (added : Vec α) (t : TreeIndex) : Prop :=
  t ∈ m.layout.trees ∧ Cholesky.factor? (((m.rigidMassMatrix k).addDiagonal added).diagonalBlock
    (m.layout.start t) (m.layout.size t)) = none

/-- How an evaluation fails: in one family, by breaking off, or for a degenerate tree where the poses
    are known. -/
inductive EvaluationFailure (m : Mechanism α) (poses : Outcome α (PositionKinematics α))
    (added : Vec α) : Failure α → Prop where
  | inOneFamily {e : Failure α} (h : e.InOneFamily) : EvaluationFailure m poses added e
  | brokenOff (last size : ℕ) : EvaluationFailure m poses added (.outOfRange last size)
  | degenerate {k : PositionKinematics α} {t : TreeIndex} (hk : poses = .ok k) (ht : m.Degenerate k added t) :
      EvaluationFailure m poses added (.notPositiveDefinite ("mass matrix of " ++ toString t))

/-- Without poses nothing is said of a mass matrix. -/
theorem failsAs_positionKinematics {poses : Outcome α (PositionKinematics α)} (q : Vec α) :
    FailsAs (m.EvaluationFailure poses added) (m.positionKinematics q) := by
  refine .bind (classified_requireSize.mono fun _ => .inOneFamily) fun _ _ =>
    .bind (.forM fun b _ => ?_) fun _ _ => .ok _
  rw [requirePositions]
  split
  · exact .ok _
  · exact .require (.brokenOff ..)

theorem failsAs_forwardDynamics {poses : Outcome α (PositionKinematics α)} (hk : poses = .ok k) :
    FailsAs (m.EvaluationFailure poses added) (m.forwardDynamics k v added f) := by
  have hsizes : ∀ {what : String} {x : Vec α},
    FailsAs (m.EvaluationFailure poses added) (m.requireVelocitySize what x) :=
    classified_requireSize.mono fun _ => .inOneFamily
  refine .bind hsizes fun _ _ => .bind (.bind (.require (.inOneFamily rfl)) fun _ _ => .ok _) fun _ _ =>
    .bind (.bind hsizes fun _ _ => .ok _) fun _ _ => .bind (.mapM fun t ht => ?_) fun _ _ => .ok _
  rw [solveTree]
  split
  next hnone => exact .error (.degenerate hk ⟨ht, hnone⟩)
  next => exact .ok _

theorem classified_generalizedForces : Classified (m.generalizedForces k f) :=
  .bind (.require rfl) fun _ _ => .ok _

theorem classified_massMatrix {d : Vec α} : Classified (m.massMatrix k d) :=
  .bind classified_requireSize fun _ _ => .ok _

omit [Scalar α] in
theorem classified_positionRates {q : Vec α} : Classified (m.positionRates q v) :=
  .bind classified_requireSize fun _ _ => .ok _

/-- A degenerate tree is in the way of forward dynamics. -/
theorem Degenerate.forwardDynamics_ne_ok {t : TreeIndex} (h : m.Degenerate k added t) (acc : Vec α) :
    m.forwardDynamics k v added f ≠ .ok acc := by
  intro hacc
  simp only [forwardDynamics, bind_eq_ok_iff] at hacc
  obtain ⟨_, -, applied, -, bias, -, xs, hxs, -⟩ := hacc
  obtain ⟨x, -, hx⟩ := exists_of_mem_map_eq_ok (mapM_eq_ok_iff.mp hxs) h.1
  rw [solveTree, h.2] at hx
  cases hx

end Mechanism

/-! ### Evaluations -/

namespace Direct

variable [Scalar α] {s : Simulator α} {r : Registry α} {c : Setting α} {held : Held α}

/-- The failures of what is evaluated directly. -/
abbrev FailsEvaluating {β : Type} (s : Simulator α) (c : Setting α) (held : Held α)
    (x : Outcome α β) : Prop :=
  FailsAs (s.model.EvaluationFailure (kinematics s c held) (s.addedInertia c.state)) x

theorem failsEvaluating_of_classified {β : Type} {x : Outcome α β} (h : Classified x) :
    FailsEvaluating s c held x :=
  h.mono fun _ => .inOneFamily

/-- A value that is held may be of another kind than its stage. -/
theorem failsEvaluating_stage {β : Type} {t : Stage} {ofValue? : StageValue α → Option β} {work : Outcome α β}
    (h : FailsEvaluating s c held work) : FailsEvaluating s c held (stage s c held t ofValue? work) := by
  refine .bind (failsEvaluating_of_classified Simulator.classified_validate) fun _ _ => ?_
  split
  · rw [Cache.readKept]
    split
    · exact .error (.inOneFamily rfl)
    · exact .ok _
  · exact h

theorem failsEvaluating_kinematics : FailsEvaluating s c held (kinematics s c held) :=
  failsEvaluating_stage (Mechanism.failsAs_positionKinematics _)

theorem failsEvaluating_linearDynamics : FailsEvaluating s c held (linearDynamics s c held) :=
  failsEvaluating_kinematics.bind fun _ _ => failsEvaluating_of_classified <|
    .bind Mechanism.classified_massMatrix fun _ _ => .ok _

section
variable (hactuation : c.actuation.Sourceless)
include hactuation

theorem classified_actuation (answer : Stage → Outcome α (StageValue α)) :
    Classified (actuation c answer) := by
  rw [actuation]
  split
  next => exact .ok _
  next => exact .bind classified_requireSize fun _ _ => .ok _
  next source hsource => exact absurd hsource (hactuation source)

theorem failsEvaluating_free {asker : Asker} : FailsEvaluating s c held (free s c held asker) := by
  refine failsEvaluating_stage (failsEvaluating_kinematics.bind fun k hk => .bind ?_ fun tau _ => ?_)
  · exact failsEvaluating_of_classified (classified_actuation hactuation _)
  · exact (Mechanism.failsAs_forwardDynamics hk).bind fun _ _ =>
      (failsEvaluating_of_classified Mechanism.classified_generalizedForces).bind fun _ _ => .ok _

end

section
variable (hgeometry : s.geometry = r.query)
include hgeometry

theorem failsEvaluating_pairs : FailsEvaluating s c held (pairs s c held) :=
  failsEvaluating_stage (failsEvaluating_kinematics.bind fun _ _ =>
    failsEvaluating_of_classified (Discretizer.classified_contactPairs hgeometry))

theorem failsEvaluating_contacts : FailsEvaluating s c held (contacts s c held) :=
  failsEvaluating_stage (failsEvaluating_kinematics.bind
    fun _ _ => (failsEvaluating_pairs hgeometry).bind fun _ _ =>
    failsEvaluating_of_classified ContactKinematics.classified_ofPairs)

variable (hactuation : c.actuation.Sourceless)
include hactuation

theorem failsEvaluating_problem {asker : Asker} : FailsEvaluating s c held (problem s c held asker) :=
  failsEvaluating_stage (failsEvaluating_linearDynamics.bind
    fun _ _ => (failsEvaluating_free hactuation).bind fun _ _ =>
    (failsEvaluating_of_classified Problem.classified_new).bind fun _ _ =>
      (failsEvaluating_pairs hgeometry).bind fun _ _ =>
    (failsEvaluating_contacts hgeometry).bind fun _ _ =>
    (failsEvaluating_of_classified Simulator.classified_addContacts).bind fun _ _ =>
    (failsEvaluating_of_classified Simulator.classified_addJointConstraints).bind fun _ _ => .ok _)

theorem failsEvaluating_results : FailsEvaluating s c held (results s c held) :=
  failsEvaluating_stage ((failsEvaluating_problem hgeometry hactuation).bind fun _ _ =>
    failsEvaluating_of_classified Simulator.classified_contactResults)

theorem failsEvaluating_any (t : Stage) : FailsEvaluating s c held (any s c held t) := by
  cases t with
  | positionKinematics => exact failsEvaluating_kinematics.bind fun _ _ => .ok _
  | contactPairs => exact (failsEvaluating_pairs hgeometry).bind fun _ _ => .ok _
  | contactKinematics => exact (failsEvaluating_contacts hgeometry).bind fun _ _ => .ok _
  | freeAccelerations => exact (failsEvaluating_free hactuation).bind fun _ _ => .ok _
  | problem => exact (failsEvaluating_problem hgeometry hactuation).bind fun _ _ => .ok _
  | results => exact (failsEvaluating_results hgeometry hactuation).bind fun _ _ => .ok _

theorem failsEvaluating_nextState : FailsEvaluating s c held (nextState s c held) :=
  (failsEvaluating_results hgeometry hactuation).bind fun _ _ =>
    (failsEvaluating_of_classified Mechanism.classified_positionRates).bind fun _ _ => .ok _

theorem failsEvaluating_ask (q : Query) : FailsEvaluating s c held (ask s c held q) := by
  cases q with
  | stage t => exact (failsEvaluating_any hgeometry hactuation t).bind fun _ _ => .ok _
  | actuation =>
    exact (failsEvaluating_of_classified (classified_actuation hactuation _)).bind fun _ _ => .ok _
  | freeVelocities => exact ((failsEvaluating_free hactuation).bind fun _ _ => .ok _).bind fun _ _ => .ok _
  | linearDynamics => exact failsEvaluating_linearDynamics.bind fun _ _ => .ok _
  | nextState => exact (failsEvaluating_nextState hgeometry hactuation).bind fun _ _ => .ok _
  | accelerations =>
    exact ((failsEvaluating_results hgeometry hactuation).bind fun _ _ => .ok _).bind fun _ _ => .ok _
  | reports =>
    refine .bind ?_ fun _ _ => .ok _
    exact (failsEvaluating_pairs hgeometry).bind fun _ _ =>
        (failsEvaluating_problem hgeometry hactuation).bind fun _ _ =>
      (failsEvaluating_results hgeometry hactuation).bind fun _ _ =>
        .bind (.require (.inOneFamily rfl)) fun _ _ => .ok _

end

end Direct

/-- The operation evaluates what a client asks for, or takes a step. -/
inductive Operation.Evaluates : Operation α → Prop where
  | ask (q : Query) : Evaluates (.ask q)
  | advance : Evaluates .advance

theorem Direct.failsEvaluating_perform [Scalar α] {s : Simulator α} {r : Registry α} {c : Setting α}
    {held : Held α}
    (hgeometry : s.geometry = r.query) (hactuation : c.actuation.Sourceless) {op : Operation α}
    (hop : op.Evaluates) :
    FailsEvaluating s c held (perform s c held op).1 := by
  cases hop with
  | ask q => exact failsEvaluating_ask hgeometry hactuation q
  | advance =>
    rw [perform]
    split
    next e he => exact .error (failsEvaluating_nextState hgeometry hactuation e he)
    next x _ =>
      split
      next e he =>
        have hcommit : Classified (commit s c x) := .bind classified_requireSize fun _ _ => .ok _
        exact .error (.inOneFamily (hcommit e he))
      next => exact .ok _

/-! ### Degenerate trees -/

namespace Simulator

variable [Scalar α] {s : Simulator α}

/-- In a state of the sizes of the model, a degenerate tree is why there are no free accelerations. -/
theorem freeAccelerations_of_degenerate {x : State α} {k : PositionKinematics α} {t : TreeIndex} (tau : Vec α)
    (helements : ∀ e ∈ s.model.elements, e.KeepsSizes)
    (hvelocities : x.velocities.size = s.model.numVelocities)
    (hinertia : x.reflectedInertia.size = s.model.numVelocities)
    (ht : s.model.Degenerate k (s.addedInertia x) t) :
    ∃ what, s.freeAccelerations x k tau = .error (.notPositiveDefinite what) := by
  rw [freeAccelerations]
  cases hacc : s.model.forwardDynamics k x.velocities (s.addedInertia x) (s.appliedForces x k tau) with
  | ok acc => exact absurd hacc (ht.forwardDynamics_ne_ok acc)
  | error e =>
    obtain ⟨u, -, rfl⟩ := Mechanism.forwardDynamics_eq_error (appliedForces_sizedFor helements) hvelocities
      (Vec.size_add.trans hinertia) hacc
    exact ⟨_, rfl⟩

/-- So who asks for the free accelerations is told of such a tree, in a context that is accepted and
    holds nothing foreign. -/
theorem ask_freeAccelerations_of_degenerate {c : Context α} {k : PositionKinematics α} {t : TreeIndex}
    (helements : ∀ e ∈ s.model.elements, e.KeepsSizes) (hc : c.Reachable)
    (hactuation : c.actuation.Sourceless)
    (hvalid : s.validate c.toSetting = .ok ()) (hfinds : s.FindsOwn c)
    (hk : s.model.positionKinematics c.positions = .ok k)
    (ht : s.model.Degenerate k (s.addedInertia c.state) t) :
    ∃ what, ((Operation.ask (.stage .freeAccelerations)).perform s c).1 =
      .error (.notPositiveDefinite what) := by
  have blind := hactuation.blind
  obtain ⟨tau, htau, -⟩ := Direct.exists_actuation hc.sized hactuation
  have hvelocities : c.velocities.size = s.model.numVelocities := (validate_eq_ok hvalid).2.2
  obtain ⟨what, hwhat⟩ := freeAccelerations_of_degenerate tau helements hvelocities
    (hc.sized.reflectedInertia.trans hvelocities) ht
  have hfree : Direct.free s c.toSetting (c.current c.cache) .client =
      .error (.notPositiveDefinite what) := by
    rw [Direct.free_eq_of_own (hfinds.own hvalid blind) blind fun hclient => absurd rfl hclient, Direct.free,
      Direct.stage_of_accepted hvalid rfl, Direct.workFree, Direct.kinematics_of_accepted hvalid, htau]
    show (s.model.positionKinematics c.positions >>= _) = _
    rw [hk]
    exact hwhat
  have hreply : ((Operation.ask (.stage .freeAccelerations)).perform s c).1 =
      Direct.ask s c.toSetting (c.current c.cache) (.stage .freeAccelerations) :=
        ((hc.resting.agrees s).perform blind _).1
  refine ⟨what, hreply.trans ?_⟩
  rw [Direct.ask, Direct.any, hfree]
  rfl

/-- A simulator over a registry, with laws of forces that keep their sizes as those of the library do,
    in any context without a source of actuation. What a client asks for and a step fail in exactly one
    family, break off, or fail in no family for a tree whose mass matrix has no factor. Where the
    simulator accepts the context and finds its own values in it, all failures are of one family exactly
    if no tree has such a mass matrix. -/
theorem failure_families {r : Registry α} (hgeometry : s.geometry = r.query)
    (helements : ∀ e ∈ s.model.elements, e.KeepsSizes) {c : Context α} (hc : c.Reachable)
    (hactuation : c.actuation.Sourceless) :
    (∀ op : Operation α, op.Evaluates → ∀ e, (op.perform s c).1 = .error e →
        s.model.EvaluationFailure (c.run (s.evalPositionKinematics c.toSetting)).1
          (s.addedInertia c.state) e) ∧
      (s.validate c.toSetting = .ok () → s.FindsOwn c →
        ((∀ op : Operation α, op.Evaluates → ∀ e, (op.perform s c).1 = .error e → e.InOneFamily ∨
          e.BreaksOff) ↔
          ∀ k, s.model.positionKinematics c.positions = .ok k → ∀ t,
            ¬ s.model.Degenerate k (s.addedInertia c.state) t)) := by
  have blind := hactuation.blind
  have hagrees := hc.resting.agrees s
  have hposes : (c.run (s.evalPositionKinematics c.toSetting)).1 =
    Direct.kinematics s c.toSetting (c.current c.cache) :=
    (gives_kinematics (.none_busy _) _ hagrees.faithful).1
  have hfails : ∀ op : Operation α, op.Evaluates → ∀ e, (op.perform s c).1 = .error e →
      s.model.EvaluationFailure (c.run (s.evalPositionKinematics c.toSetting)).1
        (s.addedInertia c.state) e := by
    intro op hop e he
    rw [hposes]
    exact Direct.failsEvaluating_perform hgeometry hactuation hop e
      ((hagrees.perform blind op).1.symm.trans he)
  refine ⟨hfails, fun hvalid hfinds => ⟨fun hall k hk t ht => ?_, fun hnone op hop e he => ?_⟩⟩
  · obtain ⟨what, hasked⟩ := ask_freeAccelerations_of_degenerate helements hc hactuation hvalid hfinds hk ht
    rcases hall _ (.ask _) _ hasked with hfamily | ⟨_, _, hbroken⟩
    · exact (Failure.inOneFamily_iff.mp hfamily).1 what rfl
    · cases hbroken
  · cases hfails op hop e he with
    | inOneFamily h => exact .inl h
    | brokenOff last size => exact .inr ⟨last, size, rfl⟩
    | @degenerate k t hk ht =>
      -- The poses that the context gives are those of its positions, so the tree would have to be one
      -- of these.
      rw [hposes, Direct.kinematics_eq_of_own (hfinds.own hvalid blind),
        Direct.kinematics_of_accepted hvalid] at hk
      exact absurd ht (hnone k hk t)

/-! ### A ball without mass -/

noncomputable section

/-- The ball on its hoist, without mass. -/
def masslessBall : Mechanism ℝ := { ball with bodies := #[.world, .pointMass "ball" 0] }

def liftingNothing : Simulator ℝ :=
  { ballOnGround with model := ⟨masslessBall, []⟩, geometry := (Registry.empty : Registry ℝ).query }

end

theorem build_masslessBall : Model.build [.pointMass "ball" 0] [hoist] [] = .ok ⟨masslessBall, []⟩ := by
  have hmass : ∀ b ∈ [Body.world, Body.pointMass "ball" (0 : ℝ)], Mechanism.requireMass b = .ok () := by
    simp only [List.forall_mem_cons]
    exact ⟨Mechanism.requireMass_pointMass "world" le_rfl,
      Mechanism.requireMass_pointMass "ball" le_rfl, List.forall_mem_nil _⟩
  have hbuild : Mechanism.build [.pointMass "ball" 0] [hoist] = .ok masslessBall := by
    simp only [Mechanism.build, bind_eq_ok_iff]
    refine ⟨(), forM_eq_ok_iff.mpr hmass, ⟨#[hoist], #[none, some ⟨0⟩]⟩, ?_, (), rfl, rfl⟩
    rw [List.foldlM_cons, bind_eq_ok_iff]
    exact ⟨_, connect_hoist none none rfl, rfl⟩
  exact bind_eq_ok_iff.mpr ⟨_, hbuild, rfl⟩

/-- A point without mass adds nothing to the mass matrix. -/
theorem massMatrix_masslessBall (k : PositionKinematics ℝ) : masslessBall.rigidMassMatrix k 0 0 = 0 := by
  have hbodies : masslessBall.indexedBodies = [(⟨1⟩, .pointMass "ball" 0)] := rfl
  have hplace : 0 < masslessBall.numVelocities := one_pos
  rw [Mechanism.rigidMassMatrix_get hplace hplace, hbodies, List.map_singleton, List.sum_singleton,
    Mechanism.MassTerm.entry, Mechanism.massTerm_momentum]
  have hzero : (0 : Mat3 ℝ) = ⟨0, 0, 0⟩ := rfl
  have hinertia : Mechanism.worldInertia (k.bodyPose ⟨1⟩).rotation 0 = 0 := by
    show Mat3.mul (Mat3.mul _ 0) _ = 0
    simp [Mat3.mul, Mat3.mulVec, hzero]
  show _ * (0 : ℝ) + (Mat3.transposeMulVec (Mechanism.worldInertia (k.bodyPose ⟨1⟩).rotation 0) _).dot _ = 0
  rw [hinertia, mul_zero, zero_add]
  simp [Mat3.transposeMulVec, Vec3.dot]

theorem degenerate_masslessBall (k : PositionKinematics ℝ) {d : Vec ℝ} (hd : d 0 = 0) :
    masslessBall.Degenerate k d ⟨0⟩ := by
  refine ⟨List.mem_singleton.mpr rfl, ?_⟩
  show Cholesky.factor? (((masslessBall.rigidMassMatrix k).addDiagonal d).diagonalBlock 0 1) = none
  have hpivot : Cholesky.reduced (((masslessBall.rigidMassMatrix k).addDiagonal d).diagonalBlock 0 1)
      0 0 = 0 := by
    show (((masslessBall.rigidMassMatrix k).addDiagonal d).diagonalBlock 0 1) 0 0 = 0
    rw [Mat.diagonalBlock, Mat.get_ofFn_of_lt one_pos one_pos, Nat.add_zero,
      Mat.get_addDiagonal d one_pos one_pos, hd, add_zero, massMatrix_masslessBall]
  show (Cholesky.writeColumn _ 0 >>= fun m => some m) = none
  rw [Cholesky.writeColumn, hpivot, if_neg (lt_irrefl 0)]
  rfl

theorem failure_families_masslessBall : ∃ (m : Model ℝ) (s : Simulator ℝ) (op : Operation ℝ) (e : Failure ℝ),
    Model.build [.pointMass "ball" 0] [hoist] [] = .ok m ∧
      Simulator.new m (Registry.empty : Registry ℝ).query ballOnGround.config = .ok s ∧ op.Evaluates ∧
      (op.perform s s.defaultContext).1 = .error e ∧
      e = .notPositiveDefinite ("mass matrix of " ++ toString (⟨0⟩ : TreeIndex)) ∧
      ¬ e.InOneFamily := by
  have hposes : ∃ k, masslessBall.positionKinematics liftingNothing.defaultContext.positions = .ok k := by
    refine ⟨_, Mechanism.positionKinematics_eq_ok_iff.mpr ⟨rfl, fun b hb j joint hfound => ?_, rfl⟩⟩
    obtain rfl : b = ⟨1⟩ := List.mem_singleton.mp hb
    cases hfound
    exact le_rfl
  obtain ⟨k, hk⟩ := hposes
  have hadded : liftingNothing.addedInertia liftingNothing.defaultContext.state = .zeros 1 :=
    addedInertia_ball ground none none (s := ballAbove ground none none) rfl
  have hdegenerate :
    masslessBall.Degenerate k (liftingNothing.addedInertia liftingNothing.defaultContext.state) ⟨0⟩ :=
    degenerate_masslessBall k (by rw [hadded, Vec.get_zeros])
  have howns : liftingNothing.Owns liftingNothing.defaultContext := .created _ _
  have hvalid := liftingNothing.validate_defaultContext
  have hactuation : liftingNothing.defaultContext.actuation.Sourceless := nofun
  obtain ⟨hways, hfamilies⟩ := failure_families (s := liftingNothing) (r :=
    .empty) rfl nofun howns.reachable hactuation
  have hsome := mt (hfamilies hvalid (howns.findsOwn hvalid hactuation)).mp fun hnone =>
    hnone k hk ⟨0⟩ hdegenerate
  push Not at hsome
  obtain ⟨op, hop, e, he, hfamily, hbroken⟩ := hsome
  refine ⟨_, _, op, e, build_masslessBall, new_ball _ _ one_pos zero_le_one, hop, he, ?_, hfamily⟩
  cases hways op hop e he with
  | inOneFamily h => exact absurd h hfamily
  | brokenOff last size => exact absurd ⟨last, size, rfl⟩ hbroken
  | @degenerate _ t _ ht =>
    obtain rfl : t = ⟨0⟩ := List.mem_singleton.mp ht.1
    rfl

end Simulator

end CompliantContact
