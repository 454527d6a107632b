import CompliantContact.Proofs.Simulation.Frictionless

/-!
What a step balances.

The forces of the contacts are one part of what the impulses of a step do; with the part of limits and
couplers they balance the change of momentum, up to the tolerances of the solver
(`Simulator.Vouches.results_balance`). Applied to the bodies, the forces that are reported contact by
contact do along the velocities what the results say that the contacts do
(`Simulator.Vouches.contactForces_eq_reports`). Neither holds in every context that a simulator accepts.
-/

namespace CompliantContact

open Finset Outcome

/-! ### The ball on ice, at rest -/

/-- The ball on ice, for a solver without tolerances. -/
noncomputable def exactBallOnIce : Simulator ℝ := { ballOnIce with config := ballConfig 1 0 }

theorem made_exactBallOnIce : exactBallOnIce.Made := .new build_ball (new_ball _ _ one_pos le_rfl)

/-- How fast the ball rises along the vertical, as its Jacobian has it. -/
theorem dot_relative_ball {k : PositionKinematics ℝ} (hk : k.jointFrame ⟨0⟩ = .identity) (p : Vec3 ℝ)
    (v : Vec ℝ) :
    (Vec3.unitZ : Vec3 ℝ).dot
      ((ball.translationalJacobian k ⟨1⟩ p - ball.translationalJacobian k .world p).mulVec v) =
        v 0 ∧
      (Vec3.unitZ : Vec3 ℝ).dot
        ((ball.translationalJacobian k .world p - ball.translationalJacobian k ⟨1⟩ p).mulVec v) =
        -v 0 := by
  have hsize : ∀ b, (ball.translationalJacobian k b p).size = 1 := fun b =>
    Mechanism.size_translationalJacobian
  have hworld : ball.translationalJacobian k .world p 0 = 0 := Mechanism.translationalJacobian_world rfl k _ 0
  have hball : ball.translationalJacobian k ⟨1⟩ p 0 = .unitZ := (jacobian_ball none none hk p).1
  constructor <;>
    rw [Columns.dot_mulVec, Columns.size_sub, hsize, sum_range_one,
      Columns.get_sub (by rw [hsize]; exact one_pos), hball, hworld] <;>
    simp [Vec3.dot, Vec3.unitZ]

/-- The one report of results at rest. -/
theorem reports_ballOnIce {y : StepValues ℝ} (h : y.Follows ballOnIce ballOnIce.defaultContext.state)
    (hrest : y.results.velocities = .zeros 1) :
    ∃ report, Simulator.contactReports y.pairs y.problem y.results = .ok [report] ∧
      report.a = ⟨0⟩ ∧ report.b = ⟨1⟩ ∧ report.force = .unitZ := by
  have hpairs : [slidingPair] = y.pairs := Except.ok.inj ((pairs_ballOnIce y.kinematics).symm.trans h.pairs)
  obtain ⟨hdt, x, hreports⟩ := h.reports
  obtain ⟨hnormal, hfirst, hsecond, -⟩ := forces_ballOnIce h hreports hrest
  obtain ⟨reports, hrun, hlength, hentry⟩ := h.exists_reports
  rw [← hpairs] at hlength hentry
  obtain ⟨report, rfl⟩ := List.length_eq_one_iff.mp hlength
  obtain ⟨pair, k, hpair, hk, hreport⟩ := hentry 0 one_pos
  obtain rfl : slidingPair = pair := Option.some.inj hpair
  obtain rfl := Option.some.inj hreport
  have hframe : k.frame = .identity := by
    have hpair : y.pairs[0]? = some slidingPair := hpairs ▸ rfl
    obtain ⟨-, -, hframe, -⟩ := h.assembles.exists_contact hpair hk
    have hup : -slidingPair.normal = .unitZ := by ext <;> simp [slidingPair, restingPair]
    rw [hframe, hup, Simulator.contactFrame_unitZ]
  refine ⟨_, hrun, rfl, rfl, ?_⟩
  have hone : (1 : ℝ) / y.problem.problem.timeStep = 1 := by
    rw [hdt]
    exact one_div_one
  show k.frame.mulVec ⟨y.results.tangentialForces 0, y.results.tangentialForces 1,
    y.results.normalForces 0⟩ = .unitZ
  rw [hframe, hnormal, hfirst, hsecond, hone]
  ext <;> simp [Mat3.mulVec, Mat3.identity, Vec3.unitX, Vec3.unitY, Vec3.unitZ]

theorem contactForces_ballOnIce {y : StepValues ℝ} (h : y.Follows ballOnIce ballOnIce.defaultContext.state)
    (hrest : y.results.velocities = .zeros 1) (v : Vec ℝ) : y.results.contactForces.dot v = v 0 := by
  obtain ⟨report, hreport, ha, hb, hforce⟩ := reports_ballOnIce h hrest
  obtain ⟨reports, hreports, -, hsum⟩ := h.contactForces_dot made_ballOnIce.orderly
  obtain rfl : [report] = reports := Except.ok.inj (hreport.symm.trans hreports)
  obtain ⟨k, hk, hframe⟩ := kinematics_ball none none (.zeros 1) rfl
  obtain rfl : k = y.kinematics := Except.ok.inj (hk.symm.trans h.kinematics)
  rw [hsum, List.map_singleton, List.sum_singleton, ha, hb, hforce]
  exact (dot_relative_ball hframe report.point v).1

/-! ### Momentum -/

namespace Problem

/-- What the impulses of limits and couplers do along the velocities. Their equations follow those of
    the contacts. -/
noncomputable def otherForces (p : Problem ℝ) (impulses : Vec ℝ) : Vec ℝ :=
  (p.jacobian.rowBlock (3 * p.numContacts) (p.numEquations - 3 * p.numContacts)).transposeMulVec
    (impulses.slice (3 * p.numContacts) (p.numEquations - 3 * p.numContacts))

/-- The size of a momentum, with each entry scaled by the inertia of its velocity. -/
noncomputable def scaledNorm (p : Problem ℝ) (momentum : Vec ℝ) : ℝ :=
  (momentum.hadamard (p.dynamicsMatrix.diagonal.map fun x => 1 / √x)).norm

/-- Where contacts have all equations, there are no other forces. -/
theorem get_otherForces_of_contacts {p : Problem ℝ} (h : p.numEquations = 3 * p.numContacts)
    {impulses : Vec ℝ} {j : ℕ} (hj : j < p.numVelocities) : p.otherForces impulses j = 0 := by
  rw [otherForces, h, Nat.sub_self]
  exact Vec.get_ofFn_of_lt hj

theorem scaledNorm_one {p : Problem ℝ} (hsize : p.numVelocities = 1) (hmass : p.dynamicsMatrix 0 0 = 1)
    {momentum : Vec ℝ} (hmomentum : momentum.size = 1) : p.scaledNorm momentum = |momentum 0| := by
  have hrows : p.dynamicsMatrix.rows = 1 := hsize
  have hdiagonal : p.dynamicsMatrix.diagonal 0 = 1 := (Vec.get_ofFn_of_lt (hrows ▸ one_pos)).trans hmass
  rw [scaledNorm, Vec.norm_eq, Vec.size_hadamard, hmomentum, sum_range_one, Real.sqrt_sq_eq_abs,
    Vec.get_hadamard,
    Vec.get_map (by rw [Mat.diagonal, Vec.size_ofFn, hrows]; exact one_pos), hdiagonal, Real.sqrt_one,
    div_one, mul_one]

end Problem

/-- Results that belong to their velocities, and balance momentum there. -/
structure ContactResults.Balance (r : ContactResults ℝ) (p : Problem ℝ) (s : System ℝ)
    (config : SolverConfig ℝ) : Prop where
  size : r.velocities.size = p.numVelocities
  normalForces : r.normalForces = .ofFn p.numContacts fun i =>
    s.impulses r.velocities (3 * i + 2) / p.timeStep
  tangentialForces : r.tangentialForces =
    .ofFn (2 * p.numContacts) fun i => s.impulses r.velocities (3 * (i / 2) + i % 2) / p.timeStep
  normalVelocities : r.normalVelocities = .ofFn p.numContacts fun i =>
    p.jacobian.mulVec r.velocities (3 * i + 2)
  tangentialVelocities : r.tangentialVelocities =
    .ofFn (2 * p.numContacts) fun i => p.jacobian.mulVec r.velocities (3 * (i / 2) + i % 2)
  momentum :
    p.scaledNorm (p.dynamicsMatrix.mulVec (r.velocities - p.freeVelocities) - r.contactForces * p.timeStep -
        p.otherForces (s.impulses r.velocities)) ≤
      config.absTolerance + config.relTolerance *
        max (p.scaledNorm (p.dynamicsMatrix.mulVec r.velocities))
          (p.scaledNorm (p.jacobian.transposeMulVec (s.impulses r.velocities)))

namespace System.Of

variable {p : Problem ℝ} {s : System ℝ} {v forces : Vec ℝ} {dt : ℝ}

theorem get_impulseForces (h : s.Of p) {j : ℕ} (hj : j < p.numVelocities) :
    s.impulseForces (s.evaluate v).responses j = (s.couplings.map (force v j)).sum := by
  have hj : j < s.freeVelocities.size := by rwa [h.freeVelocities]
  rw [impulseForces, Vec.get_ofFn_of_lt hj, listSum_flatMap s v fun c r => c.rowForces r j]
  exact congrArg List.sum (List.map_congr_left fun c _ => Scalar.sum_map_range _ _)

/-- The gradient is what is left of the change of momentum when all forces have acted, those of the
    contacts first. -/
theorem gradient_eq (h : s.Of p) (hp : p.Built) (hforces : forces =
      (p.constraints.toList.take p.numContacts).zipIdx.foldl
        (ContactResults.addContactForces p p.timeStep (s.impulses v)) (.zeros p.numVelocities)) :
    (s.evaluate v).gradient =
      p.dynamicsMatrix.mulVec (v - p.freeVelocities) - forces * p.timeStep -
        p.otherForces (s.impulses v) := by
  show s.dynamics.mulVec (v - s.freeVelocities) - s.impulseForces (s.evaluate v).responses = _
  rw [h.dynamics, h.freeVelocities]
  have hrows : p.dynamicsMatrix.rows = p.numVelocities := rfl
  refine Vec.ext (by simp) fun j hj => ?_
  have hj : j < p.numVelocities := by simpa [hrows] using hj
  have hcontacts : forces j * p.timeStep = ((s.couplings.take p.numContacts).map (force v j)).sum := by
    obtain ⟨-, hentry⟩ := ContactResults.foldl_addContactForces p p.timeStep (s.impulses v)
      (p.constraints.toList.take p.numContacts).zipIdx (.zeros p.numVelocities)
    rw [hforces, hentry j (by rwa [Vec.size_zeros]), Vec.get_zeros, zero_add, h.sum_contactForce hp v hj]
    field_simp [hp.valid.timeStep_pos.ne']
  rw [Vec.get_sub (by simpa [hrows] using hj), Vec.get_sub (by simpa [hrows] using hj),
    Vec.get_sub (by simpa [hrows] using hj), Vec.get_mul, hcontacts, Problem.otherForces,
    h.transposeMulVec_rest hp v hj, h.get_impulseForces hj]
  rw [sub_sub, ← List.sum_append, ← List.map_append, List.take_append_drop]

end System.Of

section
variable {s : Simulator ℝ} {c d : Context ℝ} {r : ContactResults ℝ}

theorem ContactResults.Reports.balance {p : Problem ℝ} {config : SolverConfig ℝ} {guess : Vec ℝ}
    {x : Solution ℝ} (h : r.Reports p config guess x p.timeStep) :
    ∃ s, System.ofProblem? p = some s ∧ r.Balance p s config := by
  obtain ⟨s, hs, hreports⟩ := Problem.solve_eq_ok h.solve (Problem.cost_isSome_of_success h.solve h.success)
  have hof := System.of_ofProblem? hs
  have hsizes : ∀ c ∈ s.couplings, (c.impulse x.v).size = c.jacobian.rows := fun c hc => by
    rw [hof.sizes_impulse h.built x.v c hc, (hof.stepped h.built c hc).rows]
  rw [h.eq, hreports.impulses, hreports.velocities]
  refine ⟨s, hs, hreports.size, rfl, rfl, rfl, rfl, ?_⟩
  have hconverged := hreports.converged h.success
  rw [System.residual, System.momentumScale, Scalar.larger_eq_max, hof.impulseForces_evaluate hsizes,
    hof.gradient_eq h.built rfl, hof.scaling, hof.dynamics] at hconverged
  exact hconverged

/-- At rest the push of the ice is not balanced: the velocities are those of free motion, and nothing
    else acts. -/
theorem unbalanced_ballOnIce {y : StepValues ℝ} (h : y.Follows ballOnIce ballOnIce.defaultContext.state)
    (hvFree : y.problem.problem.freeVelocities = .zeros 1) (hstill : y.results.velocities = .zeros 1)
    {impulses : Vec ℝ} :
    y.problem.problem.scaledNorm
      (y.problem.problem.dynamicsMatrix.mulVec (y.results.velocities - y.problem.problem.freeVelocities) -
        y.results.contactForces * y.problem.problem.timeStep -
          y.problem.problem.otherForces impulses) = 1 := by
  have hsize : y.problem.problem.numVelocities = 1 := congrArg Vec.size hvFree
  have hdt : y.problem.problem.timeStep = 1 := h.reports.1
  obtain ⟨-, x, hreports⟩ := h.reports
  have hforce : y.results.contactForces 0 = 1 := by
    have hdot := contactForces_ballOnIce h hstill (.replicate 1 1)
    rw [Vec.dot_eq, hreports.size_contactForces, hsize, sum_range_one] at hdot
    exact (mul_one _).symm.trans hdot
  obtain ⟨a, v, constraint, -, hrows, hone, hthree, hproblem⟩ := problem_ballOnIce h
  have hmass : y.problem.problem.dynamicsMatrix 0 0 = 1 := by
    rw [Problem.dynamicsMatrix_get _ (hsize ▸ one_pos) (hsize ▸ one_pos), hproblem]
    simpa [Problem.blockEntry, hrows] using hone
  have hall : y.problem.problem.numEquations = 3 * y.problem.problem.numContacts := by
    have hpairs : [slidingPair] = y.pairs := Except.ok.inj ((pairs_ballOnIce y.kinematics).symm.trans h.pairs)
    rw [(Simulator.contacts_of_assemble h.problem).1, ← hpairs, hproblem]
    simp [Problem.numEquations, hthree, total]
  rw [hvFree, hstill]
  have hrows : (y.problem.problem.dynamicsMatrix.mulVec (.zeros 1 - .zeros 1)).size = 1 :=
    Mat.size_mulVec.trans hsize
  have hunmoved : y.problem.problem.dynamicsMatrix.mulVec (.zeros 1 - .zeros 1) 0 = 0 := by
    rw [Mat.mulVec_get]
    refine sum_eq_zero fun j hj => ?_
    have hj : j < 1 := hsize ▸ mem_range.mp hj
    rw [Vec.get_sub hj, sub_self, mul_zero]
  rw [Problem.scaledNorm_one hsize hmass (by rw [Vec.size_sub, Vec.size_sub, hrows]),
    Vec.get_sub (by rw [Vec.size_sub, hrows]; exact one_pos),
    Vec.get_sub (by rw [hrows]; exact one_pos), hunmoved,
    Problem.get_otherForces_of_contacts hall (hsize ▸ one_pos), Vec.get_mul, hforce, hdt]
  norm_num

/-- In a context that it vouches for, the results that a simulator gives balance the momentum of the
    problem that it assembled, and belong to the velocities that they report. -/
theorem Simulator.Vouches.results_balance (h : s.Vouches c) (hc : c.Reachable)
    (hr : c.run (s.evalResults c.toSetting) = (.ok r, d)) :
    ∃ p system, (d.run (s.evalProblem d.toSetting)).1 = .ok p ∧ System.ofProblem? p.problem = some system ∧
      p.problem.timeStep = s.timeStep ∧ r.Balance p.problem system s.config.solverConfig := by
  obtain ⟨-, y, rfl, hfollows, hhas⟩ := h.evalResults hc hr
  obtain ⟨hdt, x, hreports⟩ := hfollows.reports
  obtain ⟨system, hsystem, hbalance⟩ := hreports.balance
  exact ⟨y.problem, system, congrArg Prod.fst hhas.problem, hsystem, hdt, hbalance⟩

theorem results_balance_ballOnGround : ∃ r d p system,
    ballOnGround.defaultContext.run (ballOnGround.evalResults ballOnGround.defaultContext.toSetting) =
      (.ok r, d) ∧
      (d.run (ballOnGround.evalProblem d.toSetting)).1 = .ok p ∧ System.ofProblem? p.problem = some system ∧
      p.problem.timeStep = 1 ∧ r.Balance p.problem system ballOnGround.config.solverConfig := by
  obtain ⟨y, d, -, -, hr⟩ := exists_results_ballOnGround
  obtain ⟨p, system, hbalance⟩ := Simulator.Vouches.results_balance ballOnGround.vouches_defaultContext
    (.created ballOnGround) hr
  exact ⟨y.results, d, p, system, hr, hbalance⟩

/-- The results of a solve with wide tolerances, in a context that a simulator without tolerances
    accepts. This one is served a step from rest to rest in which the ground pushes. -/
theorem Simulator.results_balance_exactBallOnIce : ballOnIce.Made ∧ exactBallOnIce.Made ∧ ∃ r c p system,
    ballOnIce.defaultContext.run (ballOnIce.evalResults ballOnIce.defaultContext.toSetting) = (.ok r, c) ∧
      c.run (exactBallOnIce.evalResults c.toSetting) = (.ok r, c) ∧
      c.run (exactBallOnIce.evalProblem c.toSetting) = (.ok p, c) ∧
      System.ofProblem? p.problem = some system ∧
      p.problem.timeStep = exactBallOnIce.timeStep ∧
      exactBallOnIce.config.solverConfig.absTolerance + exactBallOnIce.config.solverConfig.relTolerance *
          max (p.problem.scaledNorm (p.problem.dynamicsMatrix.mulVec r.velocities))
            (p.problem.scaledNorm (p.problem.jacobian.transposeMulVec (system.impulses r.velocities))) <
        p.problem.scaledNorm (p.problem.dynamicsMatrix.mulVec (r.velocities - p.problem.freeVelocities) -
          r.contactForces * p.problem.timeStep - p.problem.otherForces (system.impulses r.velocities)) := by
  obtain ⟨y, hfollows, hfree, -, -, hvFree, hstill⟩ := exists_follows_ballOnIce
  obtain ⟨c, hrun, -, hhas⟩ := hfollows.exists_served hfree (t := exactBallOnIce) rfl
  obtain ⟨hdt, x, hreports⟩ := hfollows.reports
  obtain ⟨system, hsystem, -⟩ := hreports.balance
  refine ⟨made_ballOnIce, made_exactBallOnIce, y.results, c, y.problem, system, hrun, hhas.results,
    hhas.problem, hsystem, hdt, ?_⟩
  have hnone : exactBallOnIce.config.solverConfig.absTolerance = 0 ∧
      exactBallOnIce.config.solverConfig.relTolerance = 0 := ⟨rfl, rfl⟩
  rw [hnone.1, hnone.2, zero_mul, add_zero, unbalanced_ballOnIce hfollows hvFree hstill]
  exact one_pos

/-! ### Reports -/

/-- In a context that the simulator vouches for: applied to the two bodies of each contact at its point,
    the reported forces do along the velocities what the results say that the contacts do. -/
theorem Simulator.Vouches.contactForces_eq_reports (hmade : s.Made) (h : s.Vouches c) (hc : c.Reachable)
    (hr : c.run (s.evalResults c.toSetting) = (.ok r, d)) :
    ∃ k reports, s.model.positionKinematics d.state.positions = .ok k ∧
      (d.run (s.evalContactReports d.toSetting)).1 = .ok reports ∧
      (∀ report ∈ reports, s.geometry.body? report.a = some (s.bodyOf report.a) ∧
        s.geometry.body? report.b = some (s.bodyOf report.b)) ∧
      ∀ v : Vec ℝ, r.contactForces.dot v = (reports.map fun report =>
        report.force.dot ((s.model.translationalJacobian k (s.bodyOf report.b) report.point -
          s.model.translationalJacobian k (s.bodyOf report.a) report.point).mulVec v)).sum := by
  obtain ⟨-, y, rfl, hfollows, hhas⟩ := h.evalResults hc hr
  obtain ⟨reports, hreports, hbodies, hsum⟩ := hfollows.contactForces_dot hmade.orderly
  exact ⟨y.kinematics, reports, hfollows.kinematics, (hhas.reports).trans hreports, hbodies, hsum⟩

theorem contactForces_eq_reports_ballOnGround : ∃ r d k reports,
    ballOnGround.defaultContext.run (ballOnGround.evalResults ballOnGround.defaultContext.toSetting) =
      (.ok r, d) ∧
      ball.positionKinematics d.state.positions = .ok k ∧
      (d.run (ballOnGround.evalContactReports d.toSetting)).1 = .ok reports ∧
      ∀ v : Vec ℝ, r.contactForces.dot v = (reports.map fun report =>
        report.force.dot ((ball.translationalJacobian k (ballOnGround.bodyOf report.b) report.point -
          ball.translationalJacobian k (ballOnGround.bodyOf report.a) report.point).mulVec v)).sum := by
  obtain ⟨y, d, -, -, hr⟩ := exists_results_ballOnGround
  obtain ⟨k, reports, hk, hreports, -, hsum⟩ := Simulator.Vouches.contactForces_eq_reports
    made_ballOnGround ballOnGround.vouches_defaultContext (.created ballOnGround) hr
  exact ⟨y.results, d, k, reports, hr, hk, hreports, hsum⟩

/-- To a simulator that takes the ball for the ground, a context of the ball on ice serves the force of
    the ice on the ball. From its reports, the force would be that of the ball on the ice. -/
theorem Simulator.contactForces_eq_reports_ballExchanged : ballOnIce.Made ∧ ballExchanged.Made ∧
    ∃ r c k reports,
    ballOnIce.defaultContext.run (ballOnIce.evalResults ballOnIce.defaultContext.toSetting) = (.ok r, c) ∧
      c.run (ballExchanged.evalResults c.toSetting) = (.ok r, c) ∧
      ball.positionKinematics c.state.positions = .ok k ∧
      (c.run (ballExchanged.evalContactReports c.toSetting)).1 = .ok reports ∧
      r.contactForces.dot (.replicate 1 1) = 1 ∧ (reports.map fun report =>
        report.force.dot ((ball.translationalJacobian k (ballExchanged.bodyOf report.b) report.point -
          ball.translationalJacobian k (ballExchanged.bodyOf report.a) report.point).mulVec
            (.replicate 1 1))).sum = -1 := by
  obtain ⟨y, hfollows, hfree, -, -, -, hstill⟩ := exists_follows_ballOnIce
  obtain ⟨c, hrun, hsetting, hhas⟩ := hfollows.exists_served hfree (t := ballExchanged) rfl
  have hone : (Vec.replicate 1 1 : Vec ℝ) 0 = 1 := rfl
  obtain ⟨report, hreport, ha, hb, hforce⟩ := reports_ballOnIce hfollows hstill
  obtain ⟨k, hk, hframe⟩ := kinematics_ball none none (.zeros 1) rfl
  refine ⟨made_ballOnIce, made_ballExchanged, y.results, c, k, [report], hrun, hhas.results, ?_,
    hhas.reports.trans hreport, (contactForces_ballOnIce hfollows hstill _).trans hone, ?_⟩
  · rw [hsetting]
    exact hk
  · rw [List.map_singleton, List.sum_singleton, ha, hb, hforce, ← hone]
    exact (dot_relative_ball hframe report.point _).2

end

end CompliantContact
