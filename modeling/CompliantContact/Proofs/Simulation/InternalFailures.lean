import CompliantContact.Proofs.Simulation.Checks
import CompliantContact.Proofs.Simulation.OwnValues

/-!
Problems without internal failures.

A simulator over a registry works out the problem of a step in any state of its sizes, or fails for what
a client can mend: a material, a mass or a limit. No check of a contact, of a constraint or of the
problem ever fails. Where there is a problem, each of its first constraints belongs to the contact at
its place.

This is so in every context that the simulator accepts and whose values, where they are up to date, are
its own (`Simulator.problem_without_internal_failure`), and so in every context that only the simulator
has used (`Simulator.Owns.findsOwn`). It is not so in a context in which another simulator of the same
sizes has left its contacts.
-/

namespace CompliantContact

open Outcome

/-! ### The order of constraints -/

section
variable {α : Type} [Scalar α] {s : Simulator α} {x : State α} {pairs : List (ContactPair α)}
  {contacts : List (ContactKinematics α)} {p : AssembledProblem α}

/-- The constraints of a problem: for each contact a cone at its place, with its frame, then the limits
    in the order of the joints, then the couplers in the order in which they were added. -/
structure Simulator.InOrder (s : Simulator α) (x : State α) (pairs : List (ContactPair α))
    (contacts : List (ContactKinematics α)) (p : AssembledProblem α) : Prop where
  numContacts : p.problem.numContacts = pairs.length
  numFrames : p.frames.length = pairs.length
  contact : ∀ i pair, pairs[i]? = some pair → ∃ k contact cone,
  s.model.positionKinematics x.positions = .ok k ∧
    ContactKinematics.ofPair s.model.toMechanism k s.geometry pair = .ok contact ∧
    contacts[i]? = some contact ∧
    p.frames[i]? = some contact.frame ∧ s.contactConstraint pair contact = .ok cone ∧
    p.problem.constraint? i = some cone
  others : ∃ (limits : List (Option (Constraint α))) (couplers : List (Constraint α)),
    s.model.joints.toList.map (s.limitConstraint x p.problem.freeVelocities) = limits.map .ok ∧
    s.couplers.map (s.couplerConstraint x) = couplers.map .ok ∧
    p.problem.constraints.toList.drop p.problem.numContacts = limits.filterMap id ++ couplers

theorem Simulator.Assembles.inOrder {k : PositionKinematics α} {dynamics : List (Mat α)}
    {a : FreeAccelerations α}
    (h : s.Assembles x k pairs contacts dynamics a p) : s.InOrder x pairs contacts p := by
  obtain ⟨-, hlength, hframes, cones, limits, couplers, hcones, hlimits, hcouplers, hp⟩ :=
    assemble_eq_ok h.problem
  obtain ⟨hnum, hplace⟩ := contacts_of_assemble h.problem
  refine ⟨hnum, by rw [hframes, List.length_map, hlength], fun i pair hpair => ?_, limits, couplers, ?_,
    hcouplers, ?_⟩
  · obtain ⟨contact, hcontact, hok⟩ := exists_getElem?_of_map_eq_ok (mapM_eq_ok_iff.mp h.contacts) hpair
    obtain ⟨cone, hcone, hmade⟩ := hplace i pair contact hpair hcontact
    exact ⟨k, contact, cone, h.kinematics, hok, hcontact,
      by rw [hframes, List.getElem?_map, hcontact]; rfl, hmade, hcone⟩
  · rw [hp]
    exact hlimits
  · have hsize : cones.length = pairs.length := by
      have hmap := congrArg List.length hcones
      rw [List.length_map, List.length_map, List.length_zip] at hmap
      omega
    rw [hnum, hp, List.append_assoc, ← hsize]
    exact List.drop_left

end

/-! ### Failures of direct evaluation -/

/-- A simulator over a registry, with point contacts and the laws of forces that come with the library. -/
structure Simulator.OverRegistry (s : Simulator ℝ) (r : Registry ℝ) : Prop where
  made : s.Made
  registry : r.Made
  geometry : s.geometry = r.query
  pointModel : s.config.contactModel = .point
  builtIn : ∀ e ∈ s.model.elements, e.BuiltIn

namespace Direct

section
variable {α : Type} {s : Simulator α} {c : Setting α}

/-- A stage that is not held, of a setting that is accepted, is what its work gives. -/
theorem stage_of_accepted (hvalid : s.validate c = .ok ()) {held : Held α} {t : Stage}
    (hnone : held t = none) {β : Type}
    (ofValue? : StageValue α → Option β) (work : Outcome α β) : stage s c held t ofValue? work = work := by
  rw [stage, hvalid, hnone]
  rfl

variable [Scalar α]

theorem kinematics_of_accepted (hvalid : s.validate c = .ok ()) :
    kinematics s c (fun _ => none) = s.model.positionKinematics c.state.positions :=
      stage_of_accepted hvalid rfl ..

/-- Without poses of the bodies there are neither contacts nor free accelerations. -/
theorem isInternal_of_kinematics {e : Failure α} (hvalid : s.validate c = .ok ())
    (hk : kinematics s c (fun _ => none) = .error e) : e.isInternal = false := by
  rw [kinematics_of_accepted hvalid] at hk
  obtain ⟨_, -, rfl⟩ := Mechanism.positionKinematics_eq_error (Simulator.validate_eq_ok hvalid).2.1 hk
  rfl

end

section
variable {s : Simulator ℝ} {c : Setting ℝ} {r : Registry ℝ} {e : Failure ℝ} (h : s.OverRegistry r)
  (hvalid : s.validate c = .ok ())
include h hvalid

theorem isInternal_of_pairs (he : pairs s c (fun _ => none) = .error e) : e.isInternal = false := by
  rw [pairs, stage_of_accepted hvalid rfl, workPairs, bind_eq_error_iff] at he
  rcases he with hk | ⟨k, -, he⟩
  · exact isInternal_of_kinematics hvalid hk
  · rw [h.geometry, h.pointModel] at he
    exact Registry.isInternal_of_contactPairs he

/-- The contacts are in range, and of geometries that can be in contact. -/
theorem pairs_meet {k : PositionKinematics ℝ} {ps : List (ContactPair ℝ)}
    (hk : kinematics s c (fun _ => none) = .ok k) (hpairs : pairs s c (fun _ => none) = .ok ps) :
    ∀ pair ∈ ps, pair.InRange ∧ ∃ g g', r.Meet s.model.toMechanism pair.a pair.b g g' := by
  rw [pairs, stage_of_accepted hvalid rfl, workPairs, hk, h.geometry, h.pointModel] at hpairs
  exact h.registry.contactPairs_eq_ok hpairs

/-- So each of them has its frame and blocks. -/
theorem exists_contacts {k : PositionKinematics ℝ} {ps : List (ContactPair ℝ)}
    (hk : kinematics s c (fun _ => none) = .ok k) (hpairs : pairs s c (fun _ => none) = .ok ps) :
    ∃ ks, ContactKinematics.ofPairs s.model.toMechanism k r.query ps = .ok ks ∧
    contacts s c (fun _ => none) = .ok ks := by
  obtain ⟨ks, hks⟩ := Registry.exists_contacts (k := k) fun pair hpair =>
    (pairs_meet h hvalid hk hpairs pair hpair).2
  refine ⟨ks, hks, ?_⟩
  rw [contacts, stage_of_accepted hvalid rfl, workContacts, hk, hpairs, h.geometry]
  exact hks

variable (hsized : c.Sized) (hactuation : c.actuation.Sourceless)
include hsized hactuation

theorem isInternal_of_free {asker : Asker} (he : free s c (fun _ => none) asker = .error e) :
    e.isInternal = false := by
  obtain ⟨tau, htau, -⟩ := exists_actuation hsized hactuation
  have hvelocities : c.state.velocities.size = s.model.numVelocities := (Simulator.validate_eq_ok hvalid).2.2
  rw [free, stage_of_accepted hvalid rfl, workFree, bind_eq_error_iff] at he
  rcases he with hk | ⟨k, -, he⟩
  · exact isInternal_of_kinematics hvalid hk
  · rw [htau] at he
    exact Simulator.isInternal_of_freeAccelerations (fun e he => (h.builtIn e he).keepsSizes)
      hvelocities (hsized.reflectedInertia.trans hvelocities) he

/-- The problem fails where the free accelerations or the contacts do, or for a joint that may not have
    its limits. -/
theorem problem_eq_error {asker : Asker} (he : problem s c (fun _ => none) asker = .error e) :
    free s c (fun _ => none) .client = .error e ∨ pairs s c (fun _ => none) = .error e ∨
      ∃ joint ∈ s.model.joints, joint.hasFiniteLimits = true ∧ joint.dofs ≠ 1 ∧
      e = .unsupportedJointLimits joint.name := by
  have hvelocities : c.state.velocities.size = s.model.numVelocities := (Simulator.validate_eq_ok hvalid).2.2
  rcases hk : kinematics s c (fun _ => none) with e' | k
  · have hdynamics : linearDynamics s c (fun _ => none) = .error e' := bind_eq_error_iff.mpr (.inl hk)
    rw [problem, stage_of_accepted hvalid rfl, workProblem, hdynamics] at he
    cases he
    exact .inl ((stage_of_accepted hvalid rfl ..).trans (bind_eq_error_iff.mpr (.inl hk)))
  obtain ⟨ms, hms⟩ : ∃ ms, s.linearDynamics c.state k = .ok ms :=
    Simulator.exists_linearDynamics (hsized.reflectedInertia.trans hvelocities)
  have hdynamics : linearDynamics s c (fun _ => none) = .ok ms := bind_eq_ok_iff.mpr ⟨k, hk, hms⟩
  rw [problem, stage_of_accepted hvalid rfl, workProblem, hdynamics,
    free_eq_of_sourceless hactuation _ asker.throughProblem .client] at he
  cases hfree : free s c (fun _ => none) .client with
  | error e' =>
    rw [hfree] at he
    cases he
    exact .inl rfl
  | ok a =>
    have hsize : (s.freeVelocities c.state a).size = s.model.numVelocities := Vec.size_add.trans hvelocities
    obtain ⟨base, hbase, -⟩ := Simulator.exists_problem_of_linearDynamics h.made.orderly h.made.laidOut
      h.made.settings.timeStep hms hsize
    cases hpairs : pairs s c (fun _ => none) with
    | error e' =>
      simp only [hfree, hpairs, hbase, bind_eq_error_iff, reduceCtorEq, false_or, false_and,
        exists_false, or_false,
        Except.ok.injEq, Except.error.injEq, exists_eq_left'] at he
      exact .inr (.inl (congrArg Except.error he))
    | ok ps =>
      obtain ⟨ks, hks, hcontacts⟩ := exists_contacts h hvalid hk hpairs
      rw [hfree, hpairs, hcontacts] at he
      exact .inr (.inr (h.made.assemble_eq_error hvelocities (pairs_meet h hvalid hk hpairs) hks hms he))

end

end Direct

/-! ### Contexts -/

namespace Simulator

variable {s : Simulator ℝ} {c : Context ℝ}

/-- A simulator over a registry, with or without couplers, in any context that it accepts, whatever has
    been done with the context before, as long as the values that are up to date in it are its own.
    Without a source of actuation a problem fails only where the free accelerations or the contacts do,
    for a mass matrix or a material, or for a joint with limits that it may not have: no check of a
    contact, of a constraint or of the problem is the reason. And the constraints of a problem stand in
    the order of the contacts, the joints and the couplers. -/
theorem problem_without_internal_failure {r : Registry ℝ} (h : s.OverRegistry r) (hc : c.Reachable)
    (hvalid : s.validate c.toSetting = .ok ()) (hactuation : c.actuation.Sourceless) (hfinds : s.FindsOwn c) :
    match c.run (s.evalProblem c.toSetting) with
    | (.error e, d) => e.isInternal = false ∧
        ((d.run (s.evalFreeAccelerations d.toSetting)).1 = .error e ∨
          (d.run (s.evalContactPairs d.toSetting)).1 = .error e ∨
          ∃ joint ∈ s.model.joints, joint.hasFiniteLimits = true ∧ joint.dofs ≠ 1 ∧
            e = .unsupportedJointLimits joint.name)
    | (.ok p, d) => ∃ pairs contacts, (d.run (s.evalContactPairs d.toSetting)).1 = .ok pairs ∧
        (d.run (s.evalContactKinematics d.toSetting)).1 = .ok contacts ∧
        s.InOrder d.state pairs contacts p := by
  have blind := hactuation.blind
  have hown := hfinds.own hvalid blind
  have hagrees : Faithful s c.toSetting (c.current c.cache) (fun _ => false) c.cache :=
    (hc.resting.agrees s).faithful
  obtain ⟨hproblem, hfaithful⟩ := gives_evalProblem blind _ hagrees
  rw [Direct.problem_eq_of_own hown blind] at hproblem
  cases hw : s.evalProblem c.toSetting c.cache with
  | mk o cache =>
    rw [hw] at hproblem hfaithful
    have hfree := (gives_free blind .client (fun hclient => absurd rfl hclient) cache hfaithful).1
    have hpairs := (gives_pairs (.none_busy _) cache hfaithful).1
    have hcontacts := (gives_contacts (.none_busy _) cache hfaithful).1
    rw [Direct.free_eq_of_own hown blind fun hclient => absurd rfl hclient] at hfree
    rw [Direct.pairs_eq_of_own hown] at hpairs
    rw [Direct.contacts_eq_of_own hown] at hcontacts
    rw [Context.run, hw]
    subst hproblem
    cases hdirect : Direct.problem s c.toSetting (fun _ => none) .client with
    | error e =>
      have hreason := Direct.problem_eq_error h hvalid hc.sized hactuation hdirect
      refine ⟨?_, hreason.imp hfree.trans (Or.imp_left hpairs.trans)⟩
      rcases hreason with hfailed | hfailed | ⟨joint, -, -, -, rfl⟩
      · exact Direct.isInternal_of_free h hvalid hc.sized hactuation hfailed
      · exact Direct.isInternal_of_pairs h hvalid hfailed
      · rfl
    | ok p =>
      obtain ⟨k, pairs, contacts, dynamics, a, -, hps, hks, -, hassembles⟩ := Direct.exists_assembles hdirect
      exact ⟨pairs, contacts, hpairs.trans hps, hcontacts.trans hks, hassembles.inOrder⟩

/-! ### A sphere over a plane -/

noncomputable section

/-- A plane in the world, and a sphere around the origin of a body. -/
def planeAndSphere (body : BodyIndex) : Registry ℝ where
  geometries := #[⟨"plane", .world, .identity, .halfSpace, rubber⟩,
    Registry.sphereAt "sphere" body 0 1 rubber]
  surfaces := []

/-- The ball on its hoist, with a plane, and with a sphere that is on the ball or does not move. -/
def sphereOverPlane (body : BodyIndex) : Simulator ℝ := ballAbove (planeAndSphere body).query none none

end

theorem made_planeAndSphere (body : BodyIndex) : (planeAndSphere body).Made := by
  have hcoefficients : Friction.ofCoefficients (1 : ℝ) 1 = .ok ⟨1, 1⟩ :=
    require_bind_eq_ok_iff.mpr ⟨⟨zero_le_one, rfl⟩, require_bind_eq_ok_iff.mpr ⟨⟨le_rfl, rfl⟩, rfl⟩⟩
  have hrubber : ∀ f, rubber.friction = some f → f.Made := fun f hf => by
    cases hf
    exact .coefficients hcoefficients
  have hvalid : ∀ context, rubber.validate context = .ok () := fun context => by
    obtain ⟨hstiffness, htau, -⟩ := rubber_ok 2 context
    exact bind_eq_ok_iff.mpr ⟨2, hstiffness, bind_eq_ok_iff.mpr ⟨0, htau, rfl⟩⟩
  have hplane : Registry.empty.add ⟨"plane", .world, .identity, .halfSpace, rubber⟩ =
      .ok (⟨#[⟨"plane", .world, .identity, .halfSpace, rubber⟩], []⟩, ⟨0⟩) :=
    bind_eq_ok_iff.mpr ⟨(), hvalid _, rfl⟩
  have hsphere : Registry.add ⟨#[⟨"plane", .world, .identity, .halfSpace, rubber⟩], []⟩
      (Registry.sphereAt "sphere" body 0 1 rubber) = .ok (planeAndSphere body, ⟨1⟩) :=
    bind_eq_ok_iff.mpr ⟨(), hvalid _, bind_eq_ok_iff.mpr ⟨(), require_eq_ok_iff.mpr ⟨one_pos, rfl⟩, rfl⟩⟩
  exact .add (.add .empty hrubber hplane) hrubber hsphere

theorem overRegistry_sphereOverPlane (body : BodyIndex) :
    (sphereOverPlane body).OverRegistry (planeAndSphere body) where
  made := .new (build_ballBetween none none rfl) (new_ball _ _ one_pos zero_le_one)
  registry := made_planeAndSphere body
  geometry := rfl
  pointModel := rfl
  builtIn := nofun

/-- The sphere is half in the ground. -/
theorem exists_penetrations_sphereOverPlane {k : PositionKinematics ℝ}
    (hk : ball.positionKinematics (.zeros 1) = .ok k) :
    ∃ p, (planeAndSphere ⟨1⟩).penetrations ball k = .ok [p] ∧ p.a = ⟨0⟩ ∧ p.b = ⟨1⟩ := by
  obtain ⟨hworld, hball⟩ := bodyPoses_ball none none hk
  have hdepth : ∃ p, Shape.penetration ⟨0⟩ .halfSpace (k.bodyPose .world * .identity) ⟨1⟩ (.sphere (1 : ℝ))
      (k.bodyPose ⟨1⟩ * .ofPosition 0) = some p := by
    have hzero : (Pose.ofPosition 0 : Pose ℝ) = .identity := rfl
    rw [hworld, hball, hzero, Pose.identity_mul, Shape.penetration, Shape.spherePlane]
    rw [if_neg]
    · exact ⟨_, rfl⟩
    · simp [Pose.identity, Vec3.dot]
  obtain ⟨p, hp⟩ := hdepth
  refine ⟨p, ?_, Shape.penetration_ids hp⟩
  have hpair : Registry.penetration? ball k (⟨"plane", .world, .identity, .halfSpace, rubber⟩, 0)
      (Registry.sphereAt "sphere" ⟨1⟩ 0 1 rubber, 1) = some p := (if_pos rfl).trans hp
  have hamong : Registry.penetrationsAmong ball k [(⟨"plane", .world, .identity, .halfSpace, rubber⟩, 0),
      (Registry.sphereAt "sphere" ⟨1⟩ 0 1 rubber, 1)] = [p] := by
    simp only [Registry.penetrationsAmong, List.filterMap_cons, hpair, List.filterMap_nil, List.append_nil]
  exact congrArg Except.ok hamong

theorem exists_pairs_sphereOverPlane {k : PositionKinematics ℝ}
    (hk : ball.positionKinematics (.zeros 1) = .ok k) :
    ∃ pair, (sphereOverPlane ⟨1⟩).discretizer.contactPairs k .point = .ok [pair] ∧ pair.a = ⟨0⟩ ∧
    pair.b = ⟨1⟩ := by
  obtain ⟨p, hp, ha, hb⟩ := exists_penetrations_sphereOverPlane hk
  have hmaterial : (sphereOverPlane ⟨1⟩).discretizer.material p.a = .ok rubber ∧
      (sphereOverPlane ⟨1⟩).discretizer.material p.b = .ok rubber := by
    rw [ha, hb]
    exact ⟨rfl, rfl⟩
  obtain ⟨pair, hpair⟩ : ∃ pair, (sphereOverPlane ⟨1⟩).discretizer.pointPair p = .ok pair := by
    simp only [Discretizer.pointPair, bind_eq_ok_iff]
    exact ⟨_, rubber, hmaterial.1, rubber, hmaterial.2, 2, (rubber_ok _ _).1, 2, (rubber_ok _ _).1, 0,
      (rubber_ok 0 _).2.1,
      0, (rubber_ok 0 _).2.1, 1, (rubber_ok 0 "").2.2, 1, (rubber_ok 0 "").2.2, rfl⟩
  obtain ⟨hpa, hpb, -⟩ := Discretizer.pointPair_eq_ok hpair
  exact ⟨pair, Discretizer.contactPairs_of_penetrations hp (congrArg (fun o => [o]) hpair),
    hpa.trans ha, hpb.trans hb⟩

/-- The ball has free accelerations and linear dynamics that make a problem. -/
theorem exists_free_sphereOverPlane (body : BodyIndex) {k : PositionKinematics ℝ}
    (hk : k.jointFrame ⟨0⟩ = .identity) :
    ∃ a free base, (sphereOverPlane body).linearDynamics
      (sphereOverPlane body).defaultContext.state k = .ok [a] ∧
      (sphereOverPlane body).freeAccelerations (sphereOverPlane body).defaultContext.state k
        (.zeros 1) = .ok free ∧
      Problem.new (sphereOverPlane body).timeStep [a]
        ((sphereOverPlane body).freeVelocities (sphereOverPlane body).defaultContext.state free) =
          .ok base := by
  obtain ⟨a, ha, hspd, hrows, -⟩ := linearDynamics_ball _ none none (s := sphereOverPlane body) rfl hk
  obtain ⟨free, hfree, -⟩ := freeAccelerations_ball _ none none (s := sphereOverPlane body) rfl hk
  exact ⟨a, free, _, ha, hfree, new_problem_ball _ none none rfl hspd hrows free⟩

/-- Two geometries of which neither moves have no contact. -/
theorem contacts_sphereOverPlane (k : PositionKinematics ℝ) {pair : ContactPair ℝ} (ha : pair.a = ⟨0⟩)
    (hb : pair.b = ⟨1⟩) :
    ContactKinematics.ofPairs ball k (planeAndSphere .world).query [pair] =
      .error (.structural (.contactWithoutTree ⟨0⟩ ⟨1⟩)) := by
  have hpair : ContactKinematics.ofPair ball k (planeAndSphere .world).query pair =
      .error (.structural (.contactWithoutTree ⟨0⟩ ⟨1⟩)) := by
    rw [ContactKinematics.ofPair, ha, hb]
    rfl
  rw [ContactKinematics.ofPairs, List.mapM_cons, hpair]
  rfl

/-- Over a ball that moves, the problem has the one contact. -/
theorem exists_problem_sphereOverPlane {c : Setting ℝ} {k : PositionKinematics ℝ} {pair : ContactPair ℝ}
    (hstate : c.state = (sphereOverPlane ⟨1⟩).defaultContext.state) (hactuation : c.actuation = .none)
    (hvalid : (sphereOverPlane ⟨1⟩).validate c = .ok ()) (hsized : c.Sized)
    (hframe : k.jointFrame ⟨0⟩ = .identity)
    (hk : Direct.kinematics (sphereOverPlane ⟨1⟩) c (fun _ => none) = .ok k)
    (hpairs : Direct.pairs (sphereOverPlane ⟨1⟩) c (fun _ => none) = .ok [pair]) :
    ∃ p, Direct.problem (sphereOverPlane ⟨1⟩) c (fun _ => none) .client = .ok p ∧
    p.problem.numContacts = 1 := by
  cases hp : Direct.problem (sphereOverPlane ⟨1⟩) c (fun _ => none) .client with
  | error e =>
    have hsourceless : c.actuation.Sourceless := by
      rw [hactuation]
      exact nofun
    obtain hfailed | hfailed | ⟨joint, hjoint, hfinite, -⟩ :=
      Direct.problem_eq_error (overRegistry_sphereOverPlane ⟨1⟩) hvalid hsized hsourceless hp
    · obtain ⟨_, free, _, -, hfree, -⟩ := exists_free_sphereOverPlane ⟨1⟩ hframe
      have hworked : Direct.free (sphereOverPlane ⟨1⟩) c (fun _ => none) .client = .ok free := by
        rw [Direct.free, Direct.stage_of_accepted hvalid rfl, Direct.workFree, hk, Direct.actuation,
          hactuation, hstate]
        exact hfree
      cases hfailed.symm.trans hworked
    · cases hfailed.symm.trans hpairs
    · rw [Array.mem_singleton.mp hjoint] at hfinite
      cases hfinite.symm.trans hasFiniteLimits_hoist
  | ok p =>
    obtain ⟨_, ps, _, _, _, -, hps, -, -, hassembles⟩ := Direct.exists_assembles hp
    obtain rfl := Except.ok.inj (hps.symm.trans hpairs)
    exact ⟨p, rfl, hassembles.inOrder.numContacts⟩

/-- A simulator for which the sphere does not move is served the contact that another has left in the
    context, and finds no tree for it. -/
theorem problem_sphereOverPlane_world {c : Setting ℝ} {held : Held ℝ} {k : PositionKinematics ℝ}
    {pair : ContactPair ℝ}
    (hstate : c.state = (sphereOverPlane .world).defaultContext.state) (hactuation : c.actuation = .none)
    (hvalid : (sphereOverPlane .world).validate c = .ok ()) (hframe : k.jointFrame ⟨0⟩ = .identity)
    (hk : Direct.kinematics (sphereOverPlane .world) c held = .ok k)
    (hpairs : held .contactPairs = some (.contactPairs [pair])) (ha : pair.a = ⟨0⟩) (hb : pair.b = ⟨1⟩)
    (hnone : ∀ t, t ≠ .positionKinematics → t ≠ .contactPairs → held t = none) :
    Direct.problem (sphereOverPlane .world) c held .client =
      .error (.structural (.contactWithoutTree ⟨0⟩ ⟨1⟩)) := by
  obtain ⟨a, free, base, hdynamics, hfree, hbase⟩ := exists_free_sphereOverPlane .world hframe
  rw [← hstate] at hdynamics hfree hbase
  have hlinear : Direct.linearDynamics (sphereOverPlane .world) c held = .ok [a] :=
    bind_eq_ok_iff.mpr ⟨k, hk, hdynamics⟩
  have hworked : Direct.free (sphereOverPlane .world) c held .problem = .ok free := by
    rw [Direct.free, Direct.stage_of_accepted hvalid (hnone .freeAccelerations (by decide) (by decide)),
      Direct.workFree, hk, Direct.actuation, hactuation, hstate]
    rw [hstate] at hfree
    exact hfree
  have hserved : Direct.pairs (sphereOverPlane .world) c held = .ok [pair] := stage_of_held hvalid hpairs rfl
  have hcontacts : Direct.contacts (sphereOverPlane .world) c held =
      .error (.structural (.contactWithoutTree ⟨0⟩ ⟨1⟩)) := by
    rw [Direct.contacts, Direct.stage_of_accepted hvalid
      (hnone .contactKinematics (by decide) (by decide)), Direct.workContacts, hk, hserved]
    exact contacts_sphereOverPlane k ha hb
  rw [Direct.problem, Direct.stage_of_accepted hvalid (hnone .problem (by decide) (by decide)),
    Direct.workProblem, hlinear,
    show Asker.client.throughProblem = .problem from rfl, hworked, hserved, hcontacts]
  show (Problem.new _ _ _ >>= fun _ => _) = _
  rw [hbase]
  rfl

theorem problem_without_internal_failure_sphereOverPlane : ∃ c,
    ((Operation.ask (.stage .contactPairs)).perform (sphereOverPlane ⟨1⟩)
      (sphereOverPlane ⟨1⟩).defaultContext).2 = c ∧
      (sphereOverPlane ⟨1⟩).OverRegistry (planeAndSphere ⟨1⟩) ∧ c.Reachable ∧
      (sphereOverPlane ⟨1⟩).validate c.toSetting = .ok () ∧ c.actuation.Sourceless ∧
      (sphereOverPlane ⟨1⟩).FindsOwn c ∧
      (∃ p d pairs contacts, c.run ((sphereOverPlane ⟨1⟩).evalProblem c.toSetting) = (.ok p, d) ∧
        p.problem.numContacts = 1 ∧
        (sphereOverPlane ⟨1⟩).InOrder d.state pairs contacts p) ∧
      (sphereOverPlane .world).OverRegistry (planeAndSphere .world) ∧
      (sphereOverPlane .world).validate c.toSetting = .ok () ∧
      (c.run ((sphereOverPlane .world).evalProblem c.toSetting)).1 =
        .error (.structural (.contactWithoutTree ⟨0⟩ ⟨1⟩)) := by
  obtain ⟨k, hk, hframe⟩ := kinematics_ball none none (.zeros 1) rfl
  obtain ⟨pair, hpair, ha, hb⟩ := exists_pairs_sphereOverPlane hk
  have hvalid := (sphereOverPlane ⟨1⟩).validate_defaultContext
  have hkinematics :
      Direct.kinematics (sphereOverPlane ⟨1⟩) (sphereOverPlane ⟨1⟩).defaultContext.toSetting
        (fun _ => none) = .ok k :=
    Direct.stage_eq_ok_iff.mpr ⟨hvalid, hk⟩
  have hpairs :
      Direct.pairs (sphereOverPlane ⟨1⟩) (sphereOverPlane ⟨1⟩).defaultContext.toSetting
        (fun _ => none) = .ok [pair] :=
    Direct.stage_eq_ok_iff.mpr ⟨hvalid, bind_eq_ok_iff.mpr ⟨k, hkinematics, hpair⟩⟩
  obtain ⟨c, hrun⟩ := run_defaultContext (gives_pairs (.none_busy _)) hpairs
  have hperform : (Operation.ask (.stage .contactPairs)).perform (sphereOverPlane ⟨1⟩)
    (sphereOverPlane ⟨1⟩).defaultContext =
      (.ok (.value (.contactPairs [pair])), c) := Context.run_map (Context.run_map hrun)
  have howns : (sphereOverPlane ⟨1⟩).Owns c := by
    have hperformed : (sphereOverPlane ⟨1⟩).Owns _ :=
      .performed (.ask (.stage .contactPairs)) (.created _ (sphereOverPlane ⟨1⟩))
    rwa [hperform] at hperformed
  obtain ⟨hsetting, -, -, hcurrent⟩ :=
    (sphereOverPlane ⟨1⟩).vouches_defaultContext.learned (.created (sphereOverPlane ⟨1⟩)) hvalid
      (learns_pairs rfl) hrun
  have hnone : ∀ t : Stage, t ≠ .positionKinematics → t ≠ .contactPairs →
      c.current c.cache t = none := fun t hk ht =>
    current_eq_none_of_leaves (.evalContactPairs _ _ hk ht) hrun
  rw [← hsetting] at hvalid hkinematics hpairs
  have hactuation : c.actuation.Sourceless := by
    rw [hsetting]
    exact nofun
  have hfinds := howns.findsOwn hvalid hactuation
  have hown := hfinds.own hvalid hactuation.blind
  refine ⟨c, by rw [hperform], overRegistry_sphereOverPlane _, howns.reachable, hvalid,
    hactuation, hfinds, ?_, overRegistry_sphereOverPlane _, hvalid, ?_⟩
  · have hmain := problem_without_internal_failure (overRegistry_sphereOverPlane ⟨1⟩) howns.reachable
      hvalid hactuation hfinds
    obtain ⟨p, hp, hone⟩ := exists_problem_sphereOverPlane (congrArg Setting.state hsetting)
      (congrArg Setting.actuation hsetting) hvalid howns.reachable.sized hframe hkinematics hpairs
    have hagrees := (howns.reachable.resting.agrees (sphereOverPlane ⟨1⟩)).faithful
    have hanswer : (c.run ((sphereOverPlane ⟨1⟩).evalProblem c.toSetting)).1 = .ok p :=
      ((gives_evalProblem hactuation.blind _ hagrees).1.trans
        (Direct.problem_eq_of_own hown hactuation.blind _)).trans hp
    cases hw : c.run ((sphereOverPlane ⟨1⟩).evalProblem c.toSetting) with
    | mk o d =>
      rw [hw] at hmain hanswer
      subst hanswer
      obtain ⟨pairs, contacts, -, -, horder⟩ := hmain
      exact ⟨p, d, pairs, contacts, rfl, hone, horder⟩
  · have hagrees := (howns.reachable.resting.agrees (sphereOverPlane .world)).faithful
    refine (gives_evalProblem hactuation.blind _ hagrees).1.trans ?_
    refine problem_sphereOverPlane_world (congrArg Setting.state hsetting)
      (congrArg Setting.actuation hsetting) hvalid
      hframe ?_ hcurrent ha hb hnone
    exact (Direct.kinematics_eq_of_own hown).trans hkinematics

end Simulator

end CompliantContact
