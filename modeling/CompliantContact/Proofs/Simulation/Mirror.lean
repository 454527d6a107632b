import CompliantContact.Proofs.Simulation.DroppedLimits
import CompliantContact.Proofs.Simulation.Impartial
import CompliantContact.Proofs.Simulation.OwnValues
import CompliantContact.Proofs.Simulation.Reports
import CompliantContact.Proofs.Simulation.TurnedResults

/-!
Action and reaction.

Which geometry of a penetration comes first makes no difference to a step. With some penetrations
reported from the other side, every stage has the same value but for what is said of these contacts, and
in that they are turned: the problem is that of turned contacts, and so the new velocities, the normal
forces and the forces along the velocities are the same. Only the reports of these contacts name the
geometries in the other order, with the normal and the force reversed.
-/

namespace CompliantContact

open Outcome

/-! ### Assembled problems -/

/-- The turns of contacts of which some are seen from the other side. -/
noncomputable def Turn.mirrorAt (places : ℕ → Bool) (i : ℕ) : Turn := if places i then mirror else 1

namespace Problem

variable {p base : Problem ℝ} {cones rest : List (Constraint ℝ)} {places : ℕ → Bool}

theorem fits_mirrored {c : Constraint ℝ} (h : ∀ b ∈ c.blocks, p.Fits b) :
    ∀ b ∈ c.mirrored.blocks, p.Fits b := by
  intro b hb
  rw [c.mirrored_eq.2.2, List.mem_reverse, List.mem_map] at hb
  obtain ⟨b, hb, rfl⟩ := hb
  exact ⟨(h b hb).tree, (h b hb).cols⟩

/-- With some contacts seen from the other side a problem is turned. -/
theorem turned_extend (hempty : base.constraints = #[]) (hcones : ∀ c ∈ cones, c.isContact = true)
    (hplaces : ∀ i, places i = true → i < cones.length) :
    Problem.Turned (Turn.mirrorAt places) (base.extend (cones ++ rest))
      (base.extend (changeAt Constraint.mirrored places cones ++ rest)) := by
  have hplace : ∀ (cs : List (Constraint ℝ)) k, (base.extend cs).constraint? k = cs[k]? := fun cs k => by
    rw [constraint?, extend, hempty, Array.empty_append, List.getElem?_toArray]
  refine ⟨rfl, rfl, rfl, by simp [numConstraints, extend], fun k c d hc hd => ?_⟩
  rw [hplace] at hc hd
  by_cases hk : k < cones.length
  · rw [List.getElem?_append_left hk] at hc
    rw [List.getElem?_append_left (by rwa [length_changeAt]), getElem?_changeAt, hc, Option.map_some] at hd
    obtain rfl := Option.some.inj hd
    rw [Turn.mirrorAt]
    split_ifs
    · exact Constraint.turned_mirrored (hcones c (List.mem_of_getElem? hc))
    · exact .refl c
  · have hnone : places k = false := Bool.eq_false_of_not_eq_true fun h => hk (hplaces k h)
    have hk := not_lt.mp hk
    rw [List.getElem?_append_right hk] at hc
    rw [List.getElem?_append_right (hk.trans_eq' length_changeAt.symm), length_changeAt, hc] at hd
    obtain rfl := Option.some.inj hd
    rw [Turn.mirrorAt, hnone]
    exact .refl c

end Problem

namespace Simulator

variable {s : Simulator ℝ} {x : State ℝ} {dynamics : List (Mat ℝ)} {a : FreeAccelerations ℝ}
  {pairs : List (ContactPair ℝ)} {kinematics : List (ContactKinematics ℝ)} {p : AssembledProblem ℝ}

/-- Contacts seen from the other side make a problem as well, and in it they are turned. -/
theorem assemble_mirrored (places : ℕ → Bool) (h : s.assemble x dynamics a pairs kinematics = .ok p)
    (hplaces : ∀ i, places i = true → i < pairs.length) :
    ∃ p', s.assemble x dynamics a (changeAt ContactPair.mirrored places pairs)
        (changeAt ContactKinematics.mirrored places kinematics) = .ok p' ∧
      Problem.Turned (Turn.mirrorAt places) p.problem p'.problem := by
  obtain ⟨hbuilt, hlength, -, cones, limits, couplers, hcones, hlimits, hcouplers, hp⟩ := assemble_eq_ok h
  rw [assemble, bind_eq_ok_iff] at h
  obtain ⟨base, hbase, -⟩ := h
  have hnew := Problem.new_eq_ok hbase
  have hproblem : p.problem = base.extend (cones ++ limits.filterMap id ++ couplers) := by
    rw [hp, hnew, Problem.extend, Array.empty_append]
  have hcount : cones.length = pairs.length := by
    have hmap := congrArg List.length hcones
    rw [List.length_map, List.length_map, List.length_zip, ← hlength, Nat.min_self] at hmap
    exact hmap.symm
  have hfits : ∀ c ∈ cones ++ (limits.filterMap id ++ couplers), ∀ b ∈ c.blocks, base.Fits b :=
      fun c hc b hb => by
    have hb := hbuilt.fits c (by rw [hp, List.append_assoc]; exact hc) b hb
    rw [hproblem] at hb
    exact ⟨hb.tree, hb.cols⟩
  have hcones' :
    ((changeAt ContactPair.mirrored places pairs).zip
      (changeAt ContactKinematics.mirrored places kinematics)).map
      (fun x => s.contactConstraint x.1 x.2) = (changeAt Constraint.mirrored places cones).map .ok := by
    rw [zip_changeAt]
    exact Outcome.map_changeAt hcones fun _ _ _ _ _ _ hc => Constraint.cone_mirrored hc
  refine ⟨_, assemble_of_fits hbase (by rw [length_changeAt, length_changeAt, hlength]) hcones'
    hlimits hcouplers
    fun c hc => ?_, ?_⟩
  · rw [List.append_assoc, List.mem_append] at hc
    rcases hc with hc | hc
    · obtain ⟨d, hd, rfl | rfl⟩ := mem_changeAt hc
      · exact hfits _ (List.mem_append_left _ hd)
      · exact Problem.fits_mirrored (hfits d (List.mem_append_left _ hd))
    · exact hfits c (List.mem_append_right _ hc)
  · rw [hproblem, List.append_assoc, List.append_assoc]
    exact Problem.turned_extend (by rw [hnew]) (fun c hc => isContact_of_cones hcones hc)
      fun i hi => hcount.symm ▸ hplaces i hi

end Simulator

/-! ### Values and reports -/

/-- The values of a step with some of its contacts seen from the other side. -/
structure StepValues.Mirrored (places : ℕ → Bool) (y z : StepValues ℝ) : Prop where
  kinematics : z.kinematics = y.kinematics
  pairs : z.pairs = changeAt ContactPair.mirrored places y.pairs
  contacts : z.contacts = changeAt ContactKinematics.mirrored places y.contacts
  dynamics : z.dynamics = y.dynamics
  free : z.free = y.free
  results : y.results.Turned (Turn.mirrorAt places) z.results

def ContactReport.mirrored {α : Type} [Scalar α] (r : ContactReport α) : ContactReport α :=
  { r with a := r.b, b := r.a, normal := -r.normal, force := -r.force }

namespace Simulator

variable {α : Type} [Scalar α]

/-- The simulator with some of the penetrations reported from the other side. -/
def mirrored (s : Simulator α) (chosen : Mechanism α → PositionKinematics α → ℕ → Bool) : Simulator α :=
  { s with geometry := s.geometry.mirrored chosen }

/-- The contacts that are then seen from the other side. -/
def mirrors (s : Simulator α) (chosen : Mechanism α → PositionKinematics α → ℕ → Bool)
    (k : PositionKinematics α) : ℕ → Bool :=
  s.discretizer.mirrors chosen k s.config.contactModel

end Simulator

section
variable {s t : Simulator ℝ} {x x' : State ℝ} {y z : StepValues ℝ} {places : ℕ → Bool}
  (chosen : Mechanism ℝ → PositionKinematics ℝ → ℕ → Bool)

/-- The first tangential axis is the one that stays, so that along it force and velocity change their
    signs. -/
theorem ContactResults.Turned.ofResults {r r' : ContactResults ℝ}
    (h : r.Turned (Turn.mirrorAt places) r') {i : ℕ}
    (hi : i < r.numContacts) (pair : ContactPair ℝ) (frame : Mat3 ℝ) :
    ContactReport.ofResults r' (if places i then pair.mirrored else pair)
      (if places i then frame.mirrored else frame) i =
      if places i then (ContactReport.ofResults r pair frame i).mirrored else .ofResults r pair frame i := by
  have hforce := fun n hn => h.forces i hi n hn
  have hslip := fun n hn => h.slips i hi n hn
  simp only [Turn.mirrorAt] at hforce hslip
  split_ifs at hforce hslip ⊢
  · have hf₀ : r'.tangentialForces (2 * i) = -r.tangentialForces (2 * i) :=
      (hforce 0 two_pos).trans (Turn.apply_mirror_zero _)
    have hf₁ : r'.tangentialForces (2 * i + 1) = r.tangentialForces (2 * i + 1) :=
      (hforce 1 one_lt_two).trans (Turn.apply_mirror_first _)
    have hs₀ : r'.tangentialVelocities (2 * i) = -r.tangentialVelocities (2 * i) :=
      (hslip 0 two_pos).trans (Turn.apply_mirror_zero _)
    have hs₁ : r'.tangentialVelocities (2 * i + 1) = r.tangentialVelocities (2 * i + 1) :=
      (hslip 1 one_lt_two).trans (Turn.apply_mirror_first _)
    simp only [ContactReport.ofResults, ContactReport.mirrored, ContactPair.mirrored, h.normalForces,
      h.normalVelocities, hf₀,
      hf₁, hs₀, hs₁, ContactReport.mk.injEq, true_and]
    refine ⟨?_, ?_, ?_⟩
    · ext <;> simp [Mat3.mirrored, Mat3.mulVec, Vec3.unitZ]
    · ext <;> simp [Mat3.mirrored, Mat3.mulVec] <;> ring
    · simp [Vec3.norm, Vec3.normSq, Vec3.dot]
  · have hf : ∀ n < 2, r'.tangentialForces (2 * i + n) = r.tangentialForces (2 * i + n) := fun n hn =>
      (hforce n hn).trans (congrFun (Turn.apply_one _) n)
    have hs : ∀ n < 2, r'.tangentialVelocities (2 * i + n) = r.tangentialVelocities (2 * i + n) := fun n hn =>
      (hslip n hn).trans (congrFun (Turn.apply_one _) n)
    have hf₀ := hf 0 two_pos
    have hs₀ := hs 0 two_pos
    rw [add_zero] at hf₀ hs₀
    simp only [ContactReport.ofResults, h.normalForces, h.normalVelocities, hf₀, hf 1 one_lt_two, hs₀,
      hs 1 one_lt_two]

/-- Results of a solve for the problem of a step are those of the step. -/
theorem ContactResults.Reports.contactResults {r : ContactResults ℝ} {p : AssembledProblem ℝ}
    {solution : Solution ℝ}
    (h : r.Reports p.problem s.config.solverConfig x.velocities solution p.problem.timeStep)
    (hdt : p.problem.timeStep = s.timeStep) :
    s.contactResults x p = .ok r := by
  refine bind_eq_ok_iff.mpr ⟨solution, h.solve, require_bind_eq_ok_iff.mpr ⟨?_, hdt ▸ h.results⟩⟩
  rw [h.success]
  rfl

theorem StepValues.Follows.exists_mirrored (h : y.Follows s x) (hunit : s.geometry.HasUnitNormals) :
    ∃ z : StepValues ℝ, z.Follows (s.mirrored chosen) x ∧ y.Mirrored (s.mirrors chosen y.kinematics) z := by
  have hpairs := Discretizer.contactPairs_mirrored chosen h.pairs
  have hcontacts := ContactKinematics.ofPairs_mirrored (s.mirrors chosen y.kinematics) h.contacts
      fun i pair hi hpair => by
    obtain ⟨ps, p, _, hps, hp, hpair', hnormal⟩ := Discretizer.exists_of_mirrors chosen h.pairs hi
    obtain rfl := Option.some.inj (hpair.symm.trans hpair')
    rw [hnormal]
    exact hunit _ _ _ hps p (List.mem_of_getElem? hp)
  obtain ⟨p, hp, hturned⟩ := Simulator.assemble_mirrored (s.mirrors chosen y.kinematics) h.problem
      fun i hi => by
    obtain ⟨_, _, _, -, -, hpair, -⟩ := Discretizer.exists_of_mirrors chosen h.pairs hi
    exact (List.getElem?_eq_some_iff.mp hpair).1
  obtain ⟨hdt, solution, hreports⟩ := h.reports
  obtain ⟨solution', r, hreports', hresults⟩ := hreports.exists_turned hturned (Simulator.assemble_eq_ok hp).1
  have hr : s.contactResults x p = .ok r := hreports'.contactResults (hturned.timeStep.trans hdt)
  exact ⟨⟨y.kinematics, _, _, y.dynamics, y.free, p, r⟩,
    ⟨h.numVelocities, h.kinematics, hpairs, hcontacts, h.dynamics, h.free, hp, hr⟩, rfl, rfl, rfl, rfl,
    rfl, hresults⟩

theorem StepValues.Mirrored.reports (h : y.Mirrored places z) (hy : y.Follows s x) (hz : z.Follows t x')
    {reports : List (ContactReport ℝ)}
    (hreports : Simulator.contactReports y.pairs y.problem y.results = .ok reports) :
    Simulator.contactReports z.pairs z.problem z.results =
      .ok (changeAt ContactReport.mirrored places reports) := by
  obtain ⟨reports', hreports', hlength, hentry⟩ := hy.exists_reports
  obtain rfl := Except.ok.inj (hreports.symm.trans hreports')
  obtain ⟨turned, hturned, hlength', hentry'⟩ := hz.exists_reports
  rw [h.pairs, length_changeAt] at hlength' hentry'
  rw [hturned]
  refine congrArg Except.ok (List.ext_getElem? fun i => ?_)
  rw [getElem?_changeAt]
  by_cases hi : i < y.pairs.length
  · obtain ⟨pair, k, hpair, hk, hreport⟩ := hentry i hi
    obtain ⟨pair', k', hpair', hk', hreport'⟩ := hentry' i hi
    rw [getElem?_changeAt, hpair, Option.map_some] at hpair'
    rw [h.contacts, getElem?_changeAt, hk, Option.map_some] at hk'
    obtain rfl := Option.some.inj hpair'
    obtain rfl := Option.some.inj hk'
    rw [hreport, hreport', Option.map_some, ← h.results.ofResults (hy.numContacts.symm ▸ hi)]
    split_ifs <;> rfl
  · rw [List.getElem?_eq_none (hlength' ▸ not_lt.mp hi), List.getElem?_eq_none (hlength ▸ not_lt.mp hi)]
    rfl

/-- The first reports are those of the penetrations, in their order. -/
theorem StepValues.Follows.reports_of_penetrations (h : y.Follows s x) {reports : List (ContactReport ℝ)}
    (hreports : Simulator.contactReports y.pairs y.problem y.results = .ok reports)
    (hmodel : s.config.contactModel.usesPointPairs = true) :
    ∃ ps, s.geometry.penetrations s.model.toMechanism y.kinematics = .ok ps ∧ ∀ (i : ℕ) p, ps[i]? = some p →
      s.mirrors chosen y.kinematics i = chosen s.model.toMechanism y.kinematics i ∧
        ∃ report, reports[i]? = some report ∧ report.a = p.a ∧ report.b = p.b := by
  obtain ⟨ps, hps, hnum, hpairs⟩ := Discretizer.exists_penetrations h.pairs hmodel
  obtain ⟨reports', hreports', -, hentry⟩ := h.exists_reports
  obtain rfl := Except.ok.inj (hreports.symm.trans hreports')
  refine ⟨ps, hps, fun i p hp => ?_⟩
  have hi : i < s.discretizer.query.numPenetrations s.discretizer.mechanism y.kinematics :=
    (List.getElem?_eq_some_iff.mp hp).1.trans_eq hnum.symm
  obtain ⟨pair, hpair, hmade⟩ := hpairs i p hp
  obtain ⟨pair', k, hpair', -, hreport⟩ := hentry i (List.getElem?_eq_some_iff.mp hpair).1
  obtain rfl := Option.some.inj (hpair.symm.trans hpair')
  obtain ⟨ha, hb, -⟩ := Discretizer.pointPair_eq_ok hmade
  refine ⟨?_, _, hreport, ha, hb⟩
  rw [Simulator.mirrors, Discretizer.mirrors, hmodel, decide_eq_true hi]
  rfl

/-! ### Steps -/

/-- What the stages answer to a source of actuation. -/
theorem StepValues.Mirrored.answer {c d : Setting ℝ} (h : y.Mirrored places z) (hy : y.Follows s c.state)
    (hz : z.Follows t d.state) (hvalid : s.validate c = .ok ()) (hvalid' : t.validate d = .ok ())
    (asker asker' : Asker) (stage : Stage) :
    MirroredAnswer (Direct.answer s c (fun _ => none) asker stage)
      (Direct.answer t d (fun _ => none) asker' stage) := by
  have hloop : ∀ {u : Simulator ℝ} {e : Setting ℝ}, u.validate e = .ok () →
    ∀ t, Direct.loop u e t = .algebraicLoop t.name :=
    fun h t => by rw [Direct.loop, Direct.refused, h]
  cases stage with
  | positionKinematics =>
    rw [Direct.answer, Direct.answer, hy.direct_kinematics hvalid, hz.direct_kinematics hvalid', h.kinematics]
    exact .inr ⟨_, _, rfl, rfl, .same _⟩
  | contactPairs =>
    rw [Direct.answer, Direct.answer, hy.direct_pairs hvalid, hz.direct_pairs hvalid', h.pairs]
    exact .inr ⟨_, _, rfl, rfl, .contactPairs _ _⟩
  | contactKinematics =>
    rw [Direct.answer, Direct.answer, hy.direct_contacts hvalid, hz.direct_contacts hvalid', h.contacts]
    exact .inr ⟨_, _, rfl, rfl, .contactKinematics _ _⟩
  | freeAccelerations =>
    rw [Direct.answer, Direct.answer, hloop hvalid, hloop hvalid']
    exact .inl (.inl rfl)
  | problem =>
    obtain ⟨u, hu⟩ := Direct.blocked_eq_loop (hy.direct_linearDynamics hvalid) (asker.waiting .problem)
    obtain ⟨u', hu'⟩ := Direct.blocked_eq_loop (hz.direct_linearDynamics hvalid') (asker'.waiting .problem)
    rw [Direct.answer, Direct.answer, hu, hu', hloop hvalid, hloop hvalid']
    exact .inl (.inr ⟨_, _, rfl, rfl⟩)
  | results =>
    obtain ⟨u, hu⟩ := Direct.answer_results (hy.direct_linearDynamics hvalid) asker
    obtain ⟨u', hu'⟩ := Direct.answer_results (hz.direct_linearDynamics hvalid') asker'
    rw [hu, hu', hloop hvalid, hloop hvalid']
    exact .inl (.inr ⟨_, _, rfl, rfl⟩)

/-- Under impartial actuation a step has values from the other side as well. -/
theorem StepValues.Worked.exists_mirrored {c d : Setting ℝ} {tau : Vec ℝ} (h : y.Worked s c tau)
    (hunit : s.geometry.HasUnitNormals) (himpartial : c.actuation.Impartial) (hstate : d.state = c.state)
    (hactuation : d.actuation = c.actuation) (hvalid : (s.mirrored chosen).validate d = .ok ()) :
    ∃ z : StepValues ℝ, z.Worked (s.mirrored chosen) d tau ∧
    y.Mirrored (s.mirrors chosen y.kinematics) z := by
  obtain ⟨z, hz, hmirrored⟩ := h.toFollows.exists_mirrored chosen hunit
  rw [← hstate] at hz
  refine ⟨z, ⟨hz, hvalid, fun asker => ?_, ?_⟩, hmirrored⟩
  · exact (Direct.actuation_of_impartial himpartial hstate hactuation
      (hmirrored.answer h.toFollows hz h.valid hvalid asker asker) tau).mp (h.supplied asker)
  · rw [hmirrored.kinematics, hmirrored.free, hstate]
    exact h.accelerated

end

/-! ### Contexts -/

/-- Which geometry of a penetration comes first makes no difference to a step but in the report of its
    contact, where the geometries stand in the other order, with the normal and the force reversed. So
    it is in all contexts in which the simulators find their own values, with actuation that does not
    tell the two geometries apart. -/
theorem Simulator.results_mirrored (s : Simulator ℝ) (hunit : s.geometry.HasUnitNormals)
    (chosen : Mechanism ℝ → PositionKinematics ℝ → ℕ → Bool) {c d : Context ℝ} (hc : c.Reachable)
    (hd : d.Reachable)
    (hown : s.FindsOwn c) (hown' : (s.mirrored chosen).FindsOwn d) (hstate : d.state = c.state)
    (hactuation : d.actuation = c.actuation) (hrevision : d.revision = c.revision)
    (himpartial : c.actuation.Impartial) {r : ContactResults ℝ}
    (hr : (c.run (s.evalResults c.toSetting)).1 = .ok r) :
    ∃ k r' reports, s.model.positionKinematics c.state.positions = .ok k ∧
      (d.run ((s.mirrored chosen).evalResults d.toSetting)).1 = .ok r' ∧ r'.velocities = r.velocities ∧
      r'.contactForces = r.contactForces ∧ r'.normalForces = r.normalForces ∧
      r'.normalVelocities = r.normalVelocities ∧
      (c.run (s.evalContactReports c.toSetting)).1 = .ok reports ∧
      (d.run ((s.mirrored chosen).evalContactReports d.toSetting)).1 =
        .ok (changeAt ContactReport.mirrored (s.mirrors chosen k) reports) ∧
      (s.config.contactModel.usesPointPairs = true →
        ∃ ps, s.geometry.penetrations s.model.toMechanism k = .ok ps ∧ ∀ (i : ℕ) p, ps[i]? = some p →
          s.mirrors chosen k i = chosen s.model.toMechanism k i ∧
            ∃ report, reports[i]? = some report ∧ report.a = p.a ∧ report.b = p.b) := by
  have haccepted : s.validate c.toSetting = .ok () := validate_of_evalStage hr
  have blind := himpartial.blind
  rw [hown.run_results hc haccepted blind] at hr
  obtain ⟨y, tau, hy, rfl⟩ := Direct.exists_worked blind hr
  obtain ⟨hmade, hpositions, hvelocities⟩ := validate_eq_ok haccepted
  have hvalid : (s.mirrored chosen).validate d.toSetting = .ok () := by
    rw [validate, require_bind_eq_ok_iff, require_eq_ok_iff, hstate]
    exact ⟨hrevision.trans hmade, hpositions, hvelocities⟩
  have blind' : d.actuation.Blind := by rwa [hactuation]
  obtain ⟨z, hz, hmirrored⟩ := hy.exists_mirrored chosen hunit himpartial hstate hactuation hvalid
  obtain ⟨reports, hreports, -⟩ := hy.exists_reports
  refine ⟨y.kinematics, z.results, reports, hy.kinematics,
    (hown'.run_results hd hvalid blind').trans hz.direct_results, hmirrored.results.velocities,
    hmirrored.results.contactForces, hmirrored.results.normalForces,
    hmirrored.results.normalVelocities, ?_, ?_,
    fun hmodel => ?_⟩
  · rw [hown.run_reports hc haccepted blind, hy.direct_reports, hreports]
  · rw [hown'.run_reports hd hvalid blind', hz.direct_reports]
    exact hmirrored.reports hy.toFollows hz.toFollows hreports
  · exact hy.reports_of_penetrations chosen hreports hmodel

/-! ### The ball on the ground, with a source of actuation -/

namespace Simulator

/-- A new context with a source of actuation. -/
def fed {α : Type} [Scalar α] (s : Simulator α) (source : ActuationSource α) : Context α :=
  s.defaultContext.connectActuation source

/-- The ball on the ground, with the ball first. -/
noncomputable def groundUnderBall : Simulator ℝ := ballOnGround.mirrored fun _ _ _ => true

section
variable (s : Simulator ℝ) (source : ActuationSource ℝ)

theorem reachable_fed : (s.fed source).Reachable :=
  .performed s (.change (.connectActuation source)) (.created s)

variable {source} in
theorem findsOwn_fed (h : source.Blind) : s.FindsOwn (s.fed source) := by
  refine findsOwn_perform s [.change (.connectActuation source)] (fun op hop => ?_) s.validate_defaultContext
  obtain rfl := List.mem_singleton.mp hop
  exact h

end

theorem hasUnitNormals_ground : ground.HasUnitNormals := by
  intro m k ps hps p hp
  cases hps
  rw [List.mem_singleton.mp hp]
  exact (Vec3.norm_neg _).trans Vec3.norm_unitZ

/-- A source that supplies nothing when it reads the contact of the ball leaves the step as it is. -/
theorem exists_worked_fed {source : ActuationSource ℝ} (hsource : ∀ answer : Stage → Outcome ℝ (StageValue ℝ),
      answer .contactPairs = .ok (.contactPairs [restingPair]) →
      (source ballOnGround.defaultContext.state).under answer = .ok (.zeros 1)) :
    ∃ y : StepValues ℝ, y.Worked ballOnGround (ballOnGround.fed source).toSetting (.zeros 1) := by
  obtain ⟨y, hfollows, hfree, hpairs⟩ := exists_follows_ballOnGround
  have hvalid : ballOnGround.validate (ballOnGround.fed source).toSetting = .ok () :=
    ballOnGround.validate_defaultContext
  have hread : Direct.pairs ballOnGround (ballOnGround.fed source).toSetting (fun _ => none) =
    .ok [restingPair] :=
    hpairs ▸ hfollows.direct_pairs hvalid
  refine ⟨y, hfollows, hvalid, fun asker => ?_, hfree⟩
  exact bind_eq_ok_iff.mpr ⟨.zeros 1, hsource _ (bind_eq_ok_iff.mpr ⟨_, hread, rfl⟩),
    bind_eq_ok_iff.mpr ⟨(), requireSize_eq_ok_iff.mpr rfl, rfl⟩⟩

theorem results_mirrored_ballOnGround : ∃ r r' reports reports' report,
    ((ballOnGround.fed (.depthFeedback 0)).run
        (ballOnGround.evalResults (ballOnGround.fed (.depthFeedback 0)).toSetting)).1 = .ok r ∧
      ((groundUnderBall.fed (.depthFeedback 0)).run
        (groundUnderBall.evalResults (groundUnderBall.fed (.depthFeedback 0)).toSetting)).1 = .ok r' ∧
      r'.velocities = r.velocities ∧ r'.contactForces = r.contactForces ∧ r'.normalForces = r.normalForces ∧
      ((ballOnGround.fed (.depthFeedback 0)).run
        (ballOnGround.evalContactReports (ballOnGround.fed (.depthFeedback 0)).toSetting)).1 = .ok reports ∧
      ((groundUnderBall.fed (.depthFeedback 0)).run
        (groundUnderBall.evalContactReports (groundUnderBall.fed (.depthFeedback 0)).toSetting)).1 =
          .ok reports' ∧
      reports[0]? = some report ∧ report.a = ⟨0⟩ ∧ report.b = ⟨1⟩ ∧ reports'[0]? = some report.mirrored := by
  have himpartial : (ballOnGround.fed (.depthFeedback 0)).actuation.Impartial := fun source hsource => by
    cases hsource
    exact ActuationSource.impartial_depthFeedback 0
  have hown : ∀ s : Simulator ℝ, s.FindsOwn (s.fed (.depthFeedback 0)) := fun s =>
    s.findsOwn_fed (ActuationSource.blind_ofStage _ _)
  obtain ⟨y, hy⟩ : ∃ y : StepValues ℝ,
      y.Worked ballOnGround (ballOnGround.fed (.depthFeedback 0)).toSetting (.zeros 1) := by
    refine exists_worked_fed fun answer hanswer => ?_
    rw [ActuationSource.depthFeedback, ActuationSource.ofStage, Reading.under, hanswer]
    show Except.ok (Vec.replicate 1 (0 * _)) = _
    rw [zero_mul]
    rfl
  have hr := ((hown ballOnGround).run_results (ballOnGround.reachable_fed _) hy.valid himpartial.blind).trans
    hy.direct_results
  obtain ⟨k, r', reports, -, hr', hvelocities, hforces, hnormal, -, hreports, hreports', hfirst⟩ :=
    results_mirrored ballOnGround hasUnitNormals_ground (fun _ _ _ => true) (ballOnGround.reachable_fed _)
      (groundUnderBall.reachable_fed _) (hown ballOnGround) (hown groundUnderBall) rfl rfl rfl himpartial hr
  obtain ⟨ps, hps, hentry⟩ := hfirst rfl
  cases hps
  obtain ⟨hmirrors, report, hreport, ha, hb⟩ := hentry 0 _ rfl
  refine ⟨y.results, r', reports, _, report, hr, hr', hvelocities, hforces, hnormal, hreports,
    hreports', hreport, ha, hb, ?_⟩
  rw [getElem?_changeAt, hreport, Option.map_some, hmirrors, if_pos rfl]

theorem hasUnitNormals_ballAlone : ballAlone.geometry.HasUnitNormals := by
  intro m k ps hps p hp
  cases hps
  cases hp

/-- A source that fails if it sees a contact from below. -/
noncomputable def wary : ActuationSource ℝ := fun _ => .read .contactPairs fun
  | .ok (.contactPairs [pair]) =>
    .done (if pair.normal = .unitZ then .error (.structural (.stated "contact from below"))
      else .ok (.zeros 1))
  | _ => .done (.ok (.zeros 1))

theorem blind_wary : wary.Blind := fun x => by
  refine .read _ _ _ fun a b hab => ?_
  obtain rfl | ⟨m, n, rfl, rfl⟩ := hab
  · split <;> exact .ended _
  · exact .ended _

/-- What the source makes of the contact of the ball. -/
theorem under_wary {answer : Stage → Outcome ℝ (StageValue ℝ)} {pair : ContactPair ℝ}
    (h : answer .contactPairs = .ok (.contactPairs [pair])) (x : State ℝ) : (wary x).under answer =
      if pair.normal = .unitZ then .error (.structural (.stated "contact from below"))
        else .ok (.zeros 1) := by
  rw [wary, Reading.under, h]
  rfl

/-- The ball on the ground has results with such a source, and the ground under the ball has none. And in
    a context that the simulator with the ground has evaluated, the simulator that knows of no ground is
    served a normal force, which it has not in a new context, whichever geometry comes first. -/
theorem results_mirrored_wary : ballOnGround.Made ∧ ground.HasUnitNormals ∧
    (∃ r, ((ballOnGround.fed wary).run
      (ballOnGround.evalResults (ballOnGround.fed wary).toSetting)).1 = .ok r) ∧
    (∀ r, ((groundUnderBall.fed wary).run
      (groundUnderBall.evalResults (groundUnderBall.fed wary).toSetting)).1 ≠ .ok r) ∧
    ballAlone.Made ∧ ballAlone.geometry.HasUnitNormals ∧ ∀ chosen, ∃ r r' c,
      ballOnGround.defaultContext.run (ballOnGround.evalResults ballOnGround.defaultContext.toSetting) =
        (.ok r, c) ∧
      c.toSetting = (ballAlone.mirrored chosen).defaultContext.toSetting ∧
      (c.run (ballAlone.evalResults c.toSetting)).1 = .ok r ∧
      ((ballAlone.mirrored chosen).defaultContext.run ((ballAlone.mirrored chosen).evalResults
        (ballAlone.mirrored chosen).defaultContext.toSetting)).1 = .ok r' ∧
      r'.normalForces ≠ r.normalForces := by
  have blind : ∀ s : Simulator ℝ, (s.fed wary).actuation.Blind := fun s source hsource => by
    cases hsource
    exact blind_wary
  refine ⟨made_ballOnGround, hasUnitNormals_ground, ?_, fun r hr => ?_, made_ballAlone,
    hasUnitNormals_ballAlone, fun chosen => ?_⟩
  · obtain ⟨y, hy⟩ : ∃ y : StepValues ℝ,
        y.Worked ballOnGround (ballOnGround.fed wary).toSetting (.zeros 1) := by
      refine exists_worked_fed fun answer hanswer => ?_
      have habove : restingPair.normal ≠ .unitZ := fun h => by
        have hz := congrArg Vec3.z h
        norm_num [restingPair, Vec3.unitZ] at hz
      rw [under_wary hanswer, if_neg habove]
    exact ⟨y.results, ((ballOnGround.findsOwn_fed blind_wary).run_results (ballOnGround.reachable_fed _)
      hy.valid (blind _)).trans hy.direct_results⟩
  · have hvalid : groundUnderBall.validate (groundUnderBall.fed wary).toSetting = .ok () :=
      groundUnderBall.validate_defaultContext
    rw [(groundUnderBall.findsOwn_fed blind_wary).run_results (groundUnderBall.reachable_fed _) hvalid
      (blind _)] at hr
    obtain ⟨y, tau, hy, -⟩ := Direct.exists_worked (blind _) hr
    have hpairs : [restingPair.mirrored] = y.pairs :=
      Except.ok.inj ((Discretizer.contactPairs_mirrored (fun _ _ _ => true)
        (pairs_ball y.kinematics)).symm.trans hy.pairs)
    have hbelow : restingPair.mirrored.normal = .unitZ := by ext <;> simp [ContactPair.mirrored, restingPair]
    have hread : Direct.answer groundUnderBall (groundUnderBall.fed wary).toSetting
      (fun _ => none) .client .contactPairs =
        .ok (.contactPairs [restingPair.mirrored]) :=
      bind_eq_ok_iff.mpr ⟨_, hpairs ▸ hy.direct_pairs hvalid, rfl⟩
    obtain ⟨_, hsupplied, -⟩ := bind_eq_ok_iff.mp (hy.supplied .client)
    rw [under_wary hread, if_pos hbelow] at hsupplied
    cases hsupplied
  · obtain ⟨y, hfollows, hfree, hpairs⟩ := exists_follows_ballOnGround
    obtain ⟨c, hrun, hsetting, hhas⟩ := hfollows.exists_served hfree (t := ballAlone) rfl
    obtain ⟨z, hapart, hfree', hnone⟩ :=
      exists_follows_ball_apart (ballAlone.geometry.mirrored chosen) fun _ => rfl
    obtain ⟨d, hd⟩ := hapart.exists_run hfree'
    refine ⟨y.results, z.results, c, hrun, hsetting, congrArg Prod.fst hhas.results,
      congrArg Prod.fst hd, fun hsame => ?_⟩
    have hcount : z.results.numContacts = y.results.numContacts := congrArg Vec.size hsame
    rw [hapart.numContacts, hfollows.numContacts, hnone, hpairs] at hcount
    cases hcount

end Simulator

end CompliantContact
