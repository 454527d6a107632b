import CompliantContact.Proofs.Mechanism.Transport
import CompliantContact.Proofs.Simulation.LimitForces
import CompliantContact.Proofs.Simulation.Results
import CompliantContact.Proofs.Simulation.Shared

/-!
Contacts without friction.

Without friction the cone of a contact is the half line of impulses along the normal, and the projection
takes what is positive of the unconstrained impulse. Where the regularization is that of the spring and
damper of the contact, and not the least one that the inverse inertia asks for, the force of the contact
is that of its spring and damper at the end of the step (`Simulator.Vouches.frictionless_forces`).
-/

namespace CompliantContact

open Finset Outcome

/-! ### The law of a contact -/

theorem FrictionCone.project_frictionless (y : Vec3 ℝ) : (project y 0 0).1 = ⟨0, 0, max 0 y.z⟩ := by
  have hoff : ¬ softNorm y.x y.y ≤ 0 * y.z := by
    rw [zero_mul]
    exact (softNorm_pos y.x y.y).not_ge
  rcases le_or_gt y.z 0 with hz | hz
  · rw [project_of_separates hoff (by rwa [zero_mul, neg_nonneg]), max_eq_left hz]
    rfl
  · rw [project_of_slides hoff (by rw [zero_mul, neg_nonneg]; exact hz.not_ge), max_eq_right hz.le,
      slideNormal]
    simp

/-- The spring and damper decide the regularization where the inverse inertia asks for no more. -/
theorem Constraint.compliantRegularization_of_le {dt w k tau beta : ℝ}
    (h : beta ^ 2 / (4 * Real.pi ^ 2) * w ≤ 1 / (dt * k * (dt + tau))) :
    compliantRegularization dt w (some k) tau beta = 1 / (dt * k * (dt + tau)) := by
  have hfactor : beta * beta / (Scalar.ofNat 4 * Scalar.pi * Scalar.pi : ℝ) =
      beta ^ 2 / (4 * Real.pi ^ 2) := by
    have hpi : (Scalar.pi : ℝ) = Real.pi := rfl
    rw [hpi, Scalar.ofNat_eq, pow_two, pow_two, mul_assoc, Nat.cast_ofNat]
  rw [compliantRegularization, Scalar.larger_eq_max, hfactor]
  exact max_eq_right h

namespace Coupling.Stepped

variable {c : Coupling ℝ} {dt : ℝ} {q : ConeParameters ℝ} {v : Vec ℝ}

/-- What a contact asks for along its normal, with the regularization of its spring and damper. -/
theorem unconstrained_normal (h : c.Stepped dt) (hkind : c.constraint.kind = .cone q)
    (hr : c.r 2 = 1 / (dt * q.stiffness * (dt + q.dissipationTime))) :
    c.unconstrained v 2 = dt * q.stiffness *
      (-(c.constraint.g0 2 + dt * c.jacobian.mulVec v 2) - q.dissipationTime * c.jacobian.mulVec v 2) := by
  obtain ⟨hthree, -, -, hdissipation, -⟩ := h.inRange.cone hkind
  have hrelax : dt + q.dissipationTime ≠ 0 := (add_pos_of_pos_of_nonneg h.dt_pos hdissipation).ne'
  have hbias : c.bias 2 = -c.constraint.g0 2 / (dt + q.dissipationTime) := by
    rw [h.bias, Constraint.bias, hkind]
    rfl
  rw [unconstrained_get (by rw [h.rows, hthree]; decide), h.rInv_get (by rw [hthree]; decide), hr,
    hbias, one_div_one_div]
  field_simp
  ring

theorem impulse_frictionless (h : c.Stepped dt) (hkind : c.constraint.kind = .cone q) (hmu : q.mu = 0)
    (hr : c.r 2 = 1 / (dt * q.stiffness * (dt + q.dissipationTime))) :
    c.impulse v 0 = 0 ∧ c.impulse v 1 = 0 ∧ c.impulse v 2 = dt * q.stiffness *
      max 0 (-(c.constraint.g0 2 + dt * c.jacobian.mulVec v 2) -
        q.dissipationTime * c.jacobian.mulVec v 2) := by
  obtain ⟨-, -, hstiffness, -⟩ := h.inRange.cone hkind
  have hnormal : 0 < c.r 2 := h.weighs.normal (Constraint.isContact_iff.mpr ⟨q, hkind⟩)
  rw [impulse, Constraint.cone_impulse hkind hnormal, hmu, zero_mul, zero_div,
    FrictionCone.project_frictionless,
    mul_max_of_nonneg _ _ (mul_nonneg h.dt_pos.le hstiffness.le), mul_zero, ← h.unconstrained_normal hkind hr]
  exact ⟨rfl, rfl, rfl⟩

end Coupling.Stepped

/-! ### Results -/

/-- The coupling of a constraint, with the factors of the trees' matrices. -/
theorem System.couplings_of_factors {p : Problem ℝ} {s : System ℝ} (hs : ofProblem? p = some s)
    {factors : List (Mat ℝ)}
    (hfactors : p.dynamics.toList.mapM Cholesky.factor? = some factors) {i : ℕ} {c : Constraint ℝ}
    (hc : p.constraint? i = some c) : s.couplings[i]? = some (Coupling.ofConstraint p factors.toArray c) := by
  obtain ⟨factors', hfactors', rfl⟩ := ofProblem?_eq_some hs
  obtain rfl := Option.some.inj (hfactors.symm.trans hfactors')
  rw [List.getElem?_map, ← Problem.constraint?_eq, hc, Option.map_some]

namespace ContactResults.Reports

variable {p : Problem ℝ} {config : SolverConfig ℝ} {guess : Vec ℝ} {x : Solution ℝ} {dt : ℝ}
    {r : ContactResults ℝ}

theorem normalVelocity (h : r.Reports p config guess x dt) {i : ℕ} (hi : i < p.numContacts) :
    r.normalVelocities i = p.jacobian.mulVec r.velocities (3 * i + 2) := by
  obtain ⟨s, -, hreports⟩ := Problem.solve_eq_ok h.solve (Problem.cost_isSome_of_success h.solve h.success)
  rw [h.eq, ← hreports.velocities]
  exact Vec.get_ofFn_of_lt hi

/-- The matrix of every tree was factored. -/
theorem exists_factors (h : r.Reports p config guess x dt) :
    ∃ factors, p.dynamics.toList.mapM Cholesky.factor? = some factors := by
  obtain ⟨s, hs, -⟩ := Problem.solve_eq_ok h.solve (Problem.cost_isSome_of_success h.solve h.success)
  obtain ⟨factors, hfactors, -⟩ := System.ofProblem?_eq_some hs
  exact ⟨factors, hfactors⟩

/-- The force of a contact without friction: its impulse over the time step of the results, that of the
    problem or not. -/
theorem frictionless (h : r.Reports p config guess x dt) {factors : List (Mat ℝ)}
    (hfactors : p.dynamics.toList.mapM Cholesky.factor? = some factors) {i : ℕ} {c : Constraint ℝ}
    {q : ConeParameters ℝ}
    (hi : i < p.numContacts) (hc : p.constraint? i = some c) (hkind : c.kind = .cone q)
    (hthree : c.numEquations = 3)
    (hmu : q.mu = 0) (hsoft : q.beta ^ 2 / (4 * Real.pi ^ 2) * Coupling.inverseInertia factors.toArray c ≤
      1 / (p.timeStep * q.stiffness * (p.timeStep + q.dissipationTime))) :
    r.normalForces i = p.timeStep / dt * (q.stiffness * max 0
        (-(c.g0 2 + p.timeStep * r.normalVelocities i) - q.dissipationTime * r.normalVelocities i)) ∧
      r.tangentialForces (2 * i) = 0 ∧ r.tangentialForces (2 * i + 1) = 0 := by
  obtain ⟨s, hs, hreports⟩ := Problem.solve_eq_ok h.solve (Problem.cost_isSome_of_success h.solve h.success)
  have hof := System.of_ofProblem? hs
  have hk := System.couplings_of_factors hs hfactors hc
  have hstepped := hof.stepped h.built _ (List.mem_of_getElem? hk)
  have hr := (Constraint.cone_regularization hkind p.timeStep (Coupling.inverseInertia factors.toArray c)).2.2
  rw [Constraint.compliantRegularization_of_le hsoft] at hr
  obtain ⟨hfirst, hsecond, hnormal⟩ := hstepped.impulse_frictionless (v := x.v) hkind hmu hr
  have himpulse : ∀ n < 3, x.impulses (3 * i + n) =
      (Coupling.ofConstraint p factors.toArray c).impulse x.v n := fun n hn => by
    rw [hreports.impulses, hof.impulses_head h.built hk hi hthree hn]
  have hvelocity : r.normalVelocities i =
      (Coupling.ofConstraint p factors.toArray c).jacobian.mulVec x.v 2 := by
    rw [h.normalVelocity hi, ← hof.velocities_head h.built hk hi hthree (by decide), h.eq]
  obtain ⟨hforceFirst, hforceSecond, hforceNormal⟩ := h.forces hi
  refine ⟨?_, ?_, ?_⟩
  · rw [hforceNormal, himpulse 2 (by decide), hnormal, hvelocity, mul_assoc, mul_div_right_comm]
    rfl
  · rw [hforceFirst, ← Nat.add_zero (3 * i), himpulse 0 (by decide), hfirst, zero_div]
  · rw [hforceSecond, himpulse 1 (by decide), hsecond, zero_div]

end ContactResults.Reports

section
variable {s : Simulator ℝ} {c d : Context ℝ} {r : ContactResults ℝ}

/-- Whatever else is in the problem of a step, in a context that the simulator vouches for: a contact
    without friction, where the regularization is not held up by the inverse inertia, has the force of
    its spring and damper at the end of the step, and no tangential force. -/
theorem Simulator.Vouches.frictionless_forces (h : s.Vouches c) (hc : c.Reachable)
    (hr : c.run (s.evalResults c.toSetting) = (.ok r, d)) :
    ∃ pairs p factors, (d.run (s.evalContactPairs d.toSetting)).1 = .ok pairs ∧
      (d.run (s.evalProblem d.toSetting)).1 = .ok p ∧
      p.problem.dynamics.toList.mapM Cholesky.factor? = some factors ∧
      r.numContacts = pairs.length ∧ ∀ i pair, pairs[i]? = some pair → ∃ constraint,
        p.problem.constraint? i = some constraint ∧ (pair.friction = 0 →
          s.config.contact.beta ^ 2 / (4 * Real.pi ^ 2) * Coupling.inverseInertia factors.toArray constraint ≤
            1 / (s.timeStep * pair.stiffness * (s.timeStep + pair.dissipationTime)) →
          r.normalForces i = pair.stiffness * max 0
              (-(pair.phi + s.timeStep * r.normalVelocities i) -
                pair.dissipationTime * r.normalVelocities i) ∧
            r.tangentialForces (2 * i) = 0 ∧ r.tangentialForces (2 * i + 1) = 0) := by
  obtain ⟨-, y, rfl, hfollows, hhas⟩ := h.evalResults hc hr
  obtain ⟨hdt, x, hreports⟩ := hfollows.reports
  obtain ⟨factors, hfactors⟩ := hreports.exists_factors
  refine ⟨y.pairs, y.problem, factors, congrArg Prod.fst hhas.pairs, congrArg Prod.fst hhas.problem, hfactors,
    hfollows.numContacts, fun i pair hpair => ?_⟩
  obtain ⟨constraint, hc, hkind, hg0, hthree⟩ := hfollows.constraint hpair
  refine ⟨constraint, hc, fun hmu hsoft => ?_⟩
  have hi : i < y.problem.problem.numContacts :=
    (Simulator.contacts_of_assemble hfollows.problem).1 ▸ (List.getElem?_eq_some_iff.mp hpair).1
  rw [← hdt] at hsoft
  have hforces := hreports.frictionless hfactors hi hc hkind hthree hmu hsoft
  rw [div_self hreports.built.valid.timeStep_pos.ne', one_mul, hg0, hdt] at hforces
  exact hforces

end

/-! ### A ball on ice -/

noncomputable section

def ice : Material ℝ := { rubber with friction := some .frictionless }

/-- The ground and the ball as before, but the ground is of ice. -/
def iceSheet : GeometryQuery ℝ :=
  .ofTable [⟨⟨0⟩, some .world, some "ice", some ice⟩, ⟨⟨1⟩, some ⟨1⟩, some "ball", some rubber⟩]
    (.ok [⟨⟨0⟩, ⟨1⟩, 0, 0, -.unitZ, 1⟩])

def ballOnIce : Simulator ℝ := ballAbove iceSheet none none

/-- The ball on ice, in time steps of half the length. -/
def ballInHalfSteps : Simulator ℝ := { ballOnIce with config := ballConfig Scalar.half 1 }

def slidingPair : ContactPair ℝ := { restingPair with friction := combineFrictions 0 1 }

end

theorem made_ballOnIce : ballOnIce.Made := .new build_ball (new_ball _ _ one_pos zero_le_one)

theorem made_ballInHalfSteps : ballInHalfSteps.Made := by
  have hpositive : 0 < (Scalar.half : ℝ) := by rw [Scalar.half_eq]; exact one_half_pos
  exact .new build_ball (new_ball _ _ hpositive zero_le_one)

theorem slidingPair_eq : slidingPair.stiffness = 1 ∧ slidingPair.dissipationTime = 0 ∧
    slidingPair.friction = 0 := by
  refine ⟨restingPair_eq.1, restingPair_eq.2.1, ?_⟩
  norm_num [slidingPair, combineFrictions, quotientOrZero, Scalar.isZero]

theorem pairs_ballOnIce (k : PositionKinematics ℝ) :
    ballOnIce.discretizer.contactPairs k .point = .ok [slidingPair] := by
  have hmaterial : ballOnIce.discretizer.material ⟨0⟩ = .ok ice ∧
    ballOnIce.discretizer.material ⟨1⟩ = .ok rubber := ⟨rfl, rfl⟩
  have hpair : ballOnIce.discretizer.pointPair ⟨⟨0⟩, ⟨1⟩, 0, 0, -.unitZ, 1⟩ = .ok slidingPair := by
    simp only [Discretizer.pointPair, bind_eq_ok_iff]
    exact ⟨ice, hmaterial.1, rubber, hmaterial.2, 2, (rubber_ok _ _).1, 2, (rubber_ok _ _).1, 0,
      (rubber_ok 0 _).2.1,
      0, (rubber_ok 0 _).2.1, 0, rfl, 1, (rubber_ok 0 "").2.2, rfl⟩
  exact Discretizer.contactPairs_of_penetrations (d :=
    ballOnIce.discretizer) rfl (congrArg (fun o => [o]) hpair)

/-- The block of a tree with one velocity. -/
theorem ContactKinematics.block_one {layout : TreeLayout} {frame : Mat3 ℝ} {relative : Columns ℝ}
    {t : TreeIndex} (hsize : layout.size t = 1) :
    block layout frame relative t = Coupling.signedColumn t 3 1 0
      (frame.transposeMulVec (relative (layout.start t))).get := by
  rw [block, hsize, Columns.toMat, Columns.size_ofFn]
  refine congrArg (JacobianBlock.mk t) (Mat.ext rfl rfl fun i hi j hj => ?_)
  have hi : i < 3 := hi
  obtain rfl : j = 0 := Nat.lt_one_iff.mp hj
  rw [Mat.get_ofFn_of_lt hi one_pos, Mat.get_ofFn_of_lt hi one_pos, if_pos rfl, Columns.get_ofFn,
    if_pos one_pos, Nat.add_zero]

/-- A contact of the ball with the ground below measures how fast the ball rises. -/
theorem blocks_ball {geometry : GeometryQuery ℝ} {pair : ContactPair ℝ} {k : PositionKinematics ℝ}
    {contact : ContactKinematics ℝ} (h : ContactKinematics.ofPair ball k geometry pair = .ok contact)
    (ha : geometry.body? pair.a = some .world)
    (hb : geometry.body? pair.b = some ⟨1⟩) (hnormal : pair.normal = -.unitZ)
    (hk : k.jointFrame ⟨0⟩ = .identity) :
    contact.blocks = [Coupling.signedColumn ⟨0⟩ 3 1 0 (Vec3.unitZ : Vec3 ℝ).get] := by
  obtain ⟨a, b, ha', hb', hframe, hblocks⟩ := ContactKinematics.ofPair_eq_ok h
  obtain rfl : BodyIndex.world = a := Option.some.inj (ha.symm.trans ha')
  obtain rfl : ⟨1⟩ = b := Option.some.inj (hb.symm.trans hb')
  have hup : -(-.unitZ : Vec3 ℝ) = .unitZ := by ext <;> simp
  rw [hnormal, hup, Simulator.contactFrame_unitZ] at hframe
  have htrees : ContactKinematics.treesOf ball.layout .world ⟨1⟩ = [⟨0⟩] := rfl
  have hrelative : ContactKinematics.relative ball k .world ⟨1⟩ pair.point (ball.layout.start ⟨0⟩) =
      .unitZ := by
    have hworld : ball.translationalJacobian k .world pair.point 0 = 0 :=
      Mechanism.translationalJacobian_world rfl k _ 0
    have hball : ball.translationalJacobian k ⟨1⟩ pair.point 0 = .unitZ :=
      (jacobian_ball none none hk pair.point).1
    have hstart : ball.layout.start ⟨0⟩ = 0 := rfl
    rw [hstart, ContactKinematics.relative, Columns.get_sub one_pos, hball, hworld, Vec3.sub_zero]
  have haxes : (Mat3.identity : Mat3 ℝ).transposeMulVec .unitZ = .unitZ := by
    ext <;> simp [Mat3.transposeMulVec, Mat3.identity, Vec3.dot, Vec3.unitX, Vec3.unitY, Vec3.unitZ]
  rw [hblocks, hframe, htrees, List.map_singleton, ContactKinematics.block_one rfl, hrelative, haxes]

/-- The inverse inertia along the velocity of a tree that has no other. -/
theorem Coupling.unitInertia_one {a l : Mat ℝ} (ha : a.IsSPD) (hrows : a.rows = 1)
    (hl : Cholesky.factor? a = some l) :
    unitInertia #[l] ⟨0⟩ 1 0 = 1 / a 0 0 := by
  have hsolves := Cholesky.sum_mul_solve_eq ha.square ha.symm hl (.ofFn 1 fun j => if j = 0 then 1 else 0)
    (i := 0) (hrows ▸ one_pos)
  rw [hrows, sum_range_one, Vec.get_ofFn_of_lt one_pos, if_pos rfl] at hsolves
  exact eq_one_div_of_mul_eq_one_right hsolves

/-- The problem of the ball has its one contact, and nothing else. -/
theorem problem_ballOnIce {y : StepValues ℝ} (h : y.Follows ballOnIce ballOnIce.defaultContext.state) :
    ∃ a v c, a.IsSPD ∧ a.rows = 1 ∧ a 0 0 = 1 ∧ c.numEquations = 3 ∧
    y.problem.problem = ⟨1, #[a], v, #[c]⟩ := by
  obtain ⟨k, hk, hframe⟩ := kinematics_ball none none (.zeros 1) rfl
  obtain rfl : k = y.kinematics := Except.ok.inj (hk.symm.trans h.kinematics)
  obtain ⟨a, ha, hspd, hrows, hone⟩ := linearDynamics_ball iceSheet none none (s := ballOnIce) rfl hframe
  have hdynamics : [a] = y.dynamics := Except.ok.inj (ha.symm.trans h.dynamics)
  have hpairs : [slidingPair] = y.pairs := Except.ok.inj ((pairs_ballOnIce y.kinematics).symm.trans h.pairs)
  obtain ⟨-, hlength, -, cones, limits, couplers, hcones, hlimits, hcouplers, hproblem⟩ :=
    Simulator.assemble_eq_ok h.problem
  rw [← hpairs] at hlength hcones
  obtain ⟨contact, hcontact⟩ := List.length_eq_one_iff.mp hlength.symm
  obtain ⟨c, rfl⟩ : ∃ c, cones = [c] := by
    rw [hcontact] at hcones
    exact List.length_eq_one_iff.mp (by simpa using (congrArg List.length hcones).symm)
  have hthree : c.numEquations = 3 := by
    rw [hcontact] at hcones
    exact (Simulator.contactConstraint_eq_ok (List.singleton_inj.mp hcones)).2.1
  obtain rfl : limits = [none] := by
    have hjoints : ballOnIce.model.joints.toList = [hoist] := rfl
    rw [hjoints, List.map_singleton, limitConstraint_hoist] at hlimits
    exact (List.map_injective_iff.mpr fun _ _ => Except.ok.inj) hlimits.symm
  obtain rfl : couplers = [] := List.map_eq_nil_iff.mp hcouplers.symm
  rw [← hdynamics] at hproblem
  exact ⟨a, _, c, hspd, hrows, hone, hthree, hproblem⟩

theorem inverseInertia_ballOnIce {y : StepValues ℝ} (h : y.Follows ballOnIce ballOnIce.defaultContext.state)
    {factors : List (Mat ℝ)}
    (hfactors : y.problem.problem.dynamics.toList.mapM Cholesky.factor? = some factors)
    {c : Constraint ℝ} (hc : y.problem.problem.constraint? 0 = some c) :
    Coupling.inverseInertia factors.toArray c = 1 / 3 := by
  obtain ⟨k, hk, hframe⟩ := kinematics_ball none none (.zeros 1) rfl
  obtain rfl : k = y.kinematics := Except.ok.inj (hk.symm.trans h.kinematics)
  have hpairs : [slidingPair] = y.pairs := Except.ok.inj ((pairs_ballOnIce y.kinematics).symm.trans h.pairs)
  have hpair : y.pairs[0]? = some slidingPair := hpairs ▸ rfl
  obtain ⟨a, _, _, hspd, hrows, hone, -, hproblem⟩ := problem_ballOnIce h
  obtain ⟨l, hl, rfl⟩ : ∃ l, Cholesky.factor? a = some l ∧ factors = [l] := by
    rw [hproblem, List.mapM_cons] at hfactors
    obtain ⟨l, hl, hfactors⟩ := Option.bind_eq_some_iff.mp hfactors
    exact ⟨l, hl, (Option.some.inj hfactors).symm⟩
  obtain ⟨contact, hcontact, hok⟩ := exists_getElem?_of_map_eq_ok (mapM_eq_ok_iff.mp h.contacts) hpair
  obtain ⟨c', hc', hmade⟩ := (Simulator.contacts_of_assemble h.problem).2 0 slidingPair contact hpair hcontact
  obtain rfl : c' = c := Option.some.inj (hc'.symm.trans hc)
  obtain ⟨-, hthree, hblocks, -⟩ := Simulator.contactConstraint_eq_ok hmade
  rw [blocks_ball hok rfl rfl rfl hframe] at hblocks
  rw [Coupling.inverseInertia_signedColumn one_pos hthree hblocks,
    Coupling.unitInertia_one hspd hrows hl, hone]
  norm_num [sum_range_succ, Vec3.get, Vec3.unitZ]

/-- The inverse inertia of the ball is too small to hold up the regularization, in any time step that is
    not long. -/
theorem soft_ballOnIce {y : StepValues ℝ} (h : y.Follows ballOnIce ballOnIce.defaultContext.state)
    {factors : List (Mat ℝ)}
    (hfactors : y.problem.problem.dynamics.toList.mapM Cholesky.factor? = some factors)
    {c : Constraint ℝ} (hc : y.problem.problem.constraint? 0 = some c) {dt : ℝ} (hpos : 0 < dt)
    (hdt : dt ≤ 1) :
    1 ^ 2 / (4 * Real.pi ^ 2) * Coupling.inverseInertia factors.toArray c ≤
      1 / (dt * slidingPair.stiffness * (dt + slidingPair.dissipationTime)) := by
  obtain ⟨hstiffness, hdissipation, -⟩ := slidingPair_eq
  rw [inverseInertia_ballOnIce h hfactors hc, hstiffness, hdissipation, mul_one, add_zero, one_pow]
  have hpi : 1 / (4 * Real.pi ^ 2) ≤ 1 := (div_le_one (by positivity)).mpr (by nlinarith [Real.two_le_pi])
  have hlong : 1 ≤ 1 / (dt * dt) := (one_le_div (mul_pos hpos hpos)).mpr (mul_le_one₀ hdt hpos.le hdt)
  linarith

/-- All stages of a step from rest, with a solve that stays there. -/
theorem exists_follows_ballOnIce : ∃ y : StepValues ℝ, y.Follows ballOnIce ballOnIce.defaultContext.state ∧
    ballOnIce.freeAccelerations ballOnIce.defaultContext.state y.kinematics (.zeros 1) = .ok y.free ∧
      y.pairs = [slidingPair] ∧ y.problem.problem.HasSPDTrees ∧ y.problem.problem.freeVelocities = .zeros 1 ∧
      y.results.velocities = .zeros 1 := by
  obtain ⟨hstiffness, hdissipation, hfriction⟩ := slidingPair_eq
  exact exists_follows_ball_contact pairs_ballOnIce rfl rfl hfriction.ge
    (hstiffness ▸ one_pos) hdissipation.ge

/-- Results at rest: the spring that the ball has pressed in acts over the time step of the problem, and
    is reported over that of the results. -/
theorem forces_ballOnIce {y : StepValues ℝ} (h : y.Follows ballOnIce ballOnIce.defaultContext.state)
    {r : ContactResults ℝ} {config : SolverConfig ℝ} {guess : Vec ℝ} {x : Solution ℝ} {dt : ℝ}
    (hr : r.Reports y.problem.problem config guess x dt) (hrest : r.velocities = .zeros 1) :
    r.normalForces 0 = 1 / dt ∧ r.tangentialForces 0 = 0 ∧ r.tangentialForces 1 = 0 ∧
    r.normalVelocities 0 = 0 := by
  obtain ⟨hstiffness, hdissipation, hfriction⟩ := slidingPair_eq
  have hpairs : [slidingPair] = y.pairs := Except.ok.inj ((pairs_ballOnIce y.kinematics).symm.trans h.pairs)
  have hpair : y.pairs[0]? = some slidingPair := hpairs ▸ rfl
  obtain ⟨c, hc, hkind, hg0, hthree⟩ := h.constraint hpair
  obtain ⟨factors, hfactors⟩ := hr.exists_factors
  have hi : 0 < y.problem.problem.numContacts := by
    rw [(Simulator.contacts_of_assemble h.problem).1, ← hpairs]
    exact one_pos
  have hdt : y.problem.problem.timeStep = 1 := h.reports.1
  have hsoft := soft_ballOnIce h hfactors hc (hdt.symm ▸ one_pos) hdt.le
  have hstill : r.normalVelocities 0 = 0 := by
    rw [hr.normalVelocity hi, hrest, Mat.mulVec_get]
    exact sum_eq_zero fun j _ => by rw [Vec.get_zeros, mul_zero]
  obtain ⟨hnormal, hfirst, hsecond⟩ := hr.frictionless hfactors hi hc hkind hthree hfriction hsoft
  refine ⟨?_, hfirst, hsecond, hstill⟩
  have hphi : c.g0 2 = -1 := by rw [hg0]; rfl
  rw [hnormal, hstill, hdt, hstiffness, hdissipation, hphi]
  norm_num

/-- The ice pushes as the spring does that the ball has pressed in, less what the ball rises. -/
theorem frictionless_forces_ballOnIce : ∃ r d,
    ballOnIce.defaultContext.run (ballOnIce.evalResults ballOnIce.defaultContext.toSetting) = (.ok r, d) ∧
      r.normalForces 0 = max 0 (1 - r.normalVelocities 0) ∧ r.tangentialForces 0 = 0 ∧
      r.tangentialForces 1 = 0 := by
  obtain ⟨hstiffness, hdissipation, hfriction⟩ := slidingPair_eq
  obtain ⟨y, hfollows, hfree, -⟩ := exists_follows_ballOnIce
  obtain ⟨d, hd⟩ := hfollows.exists_run hfree
  obtain ⟨hsetting, y', -, hfollows', hhas⟩ :=
    ballOnIce.vouches_defaultContext.evalResults (.created ballOnIce) hd
  obtain ⟨pairs, p, factors, hpairs, hp, hfactors, -, hforces⟩ :=
    Simulator.Vouches.frictionless_forces ballOnIce.vouches_defaultContext (.created ballOnIce) hd
  obtain rfl := Except.ok.inj ((congrArg Prod.fst hhas.problem).symm.trans hp)
  obtain rfl := Except.ok.inj ((congrArg Prod.fst hhas.pairs).symm.trans hpairs)
  have hstate : d.state = ballOnIce.defaultContext.state := congrArg Setting.state hsetting
  rw [hstate] at hfollows'
  have hpair : y'.pairs[0]? = some slidingPair := by
    rw [← Except.ok.inj ((pairs_ballOnIce y'.kinematics).symm.trans hfollows'.pairs)]
    rfl
  obtain ⟨constraint, hc, hforces⟩ := hforces 0 slidingPair hpair
  have hdt : ballOnIce.timeStep = 1 := rfl
  have hphi : slidingPair.phi = -1 := rfl
  obtain ⟨hnormal, hfirst, hsecond⟩ := hforces hfriction (soft_ballOnIce hfollows' hfactors hc one_pos le_rfl)
  rw [hphi, hdt, hstiffness, hdissipation] at hnormal
  refine ⟨y.results, d, hd, hnormal.trans ?_, hfirst, hsecond⟩
  rw [one_mul]
  congr 1
  ring

/-- A problem that was assembled for one time step is served to a simulator with a time step of half the
    length. In a context that it accepts, this one reports twice the force that the spring and damper of
    the contact have. -/
theorem Simulator.frictionless_forces_ballInHalfSteps : ballOnIce.Made ∧ ballInHalfSteps.Made ∧
    ∃ p c r d factors constraint,
      ballOnIce.defaultContext.run (ballOnIce.evalProblem ballOnIce.defaultContext.toSetting) = (.ok p, c) ∧
      c.run (ballInHalfSteps.evalContactPairs c.toSetting) = (.ok [slidingPair], c) ∧
      c.run (ballInHalfSteps.evalProblem c.toSetting) = (.ok p, c) ∧
      c.run (ballInHalfSteps.evalResults c.toSetting) = (.ok r, d) ∧
      p.problem.dynamics.toList.mapM Cholesky.factor? = some factors ∧
      p.problem.constraint? 0 = some constraint ∧
      slidingPair.friction = 0 ∧
      ballInHalfSteps.config.contact.beta ^ 2 / (4 * Real.pi ^ 2) *
          Coupling.inverseInertia factors.toArray constraint ≤
        1 / (ballInHalfSteps.timeStep * slidingPair.stiffness *
          (ballInHalfSteps.timeStep + slidingPair.dissipationTime)) ∧
      r.normalForces 0 = 2 ∧
      slidingPair.stiffness * max 0 (-(slidingPair.phi + ballInHalfSteps.timeStep * r.normalVelocities 0) -
        slidingPair.dissipationTime * r.normalVelocities 0) = 1 := by
  obtain ⟨hstiffness, hdissipation, hfriction⟩ := slidingPair_eq
  obtain ⟨y, hfollows, hfree, hpairs, htrees, hvFree, -⟩ := exists_follows_ballOnIce
  obtain ⟨c, hc⟩ := hfollows.exists_run_problem hfree
  have hvalid := ballOnIce.validate_defaultContext
  obtain ⟨hsetting, hworked, hrest, hproblem⟩ :=
    ballOnIce.vouches_defaultContext.learned (.created ballOnIce) hvalid (learns_evalProblem rfl) hc
  have hstate : c.state = ballOnIce.defaultContext.state := congrArg Setting.state hsetting
  have hvalid : ballInHalfSteps.validate c.toSetting = .ok () :=
    hsetting ▸ ballInHalfSteps.validate_defaultContext
  obtain ⟨k, pairs, contacts, dynamics, a, hassembles, -, hcurrent, -⟩ :=
    Held.WorkedBy.exists_assembles hworked hproblem
  obtain rfl : [slidingPair] = pairs := Except.ok.inj ((pairs_ballOnIce k).symm.trans hassembles.pairs)
  -- The solve of the simulator in half steps stays at rest as well.
  obtain ⟨hbuilt, -⟩ := Simulator.assemble_eq_ok hfollows.problem
  obtain ⟨r, hr, hvelocities⟩ : ∃ r, ballInHalfSteps.contactResults c.state y.problem = .ok r ∧
      r.velocities = .zeros 1 := by
    have hvelocities : c.state.velocities = .zeros 1 := by rw [hstate]; rfl
    rw [← hvelocities]
    exact Simulator.exists_contactResults hbuilt htrees (hvFree.trans hvelocities.symm) le_rfl le_rfl
  have blind : c.actuation.Blind := by
    rw [hsetting]
    exact ballOnIce.blind_defaultContext
  obtain ⟨d, hd⟩ := Simulator.exists_run_results hrest hvalid blind hproblem
    (Simulator.current_eq_none_of_leaves (.evalProblem _ _ rfl) hc) hr
  obtain ⟨x, hreports⟩ := Simulator.reports_of_contactResults hbuilt hr
  obtain ⟨factors, hfactors⟩ := hreports.exists_factors
  have hpair : y.pairs[0]? = some slidingPair := hpairs ▸ rfl
  obtain ⟨constraint, hconstraint, -⟩ := hfollows.constraint hpair
  obtain ⟨hnormal, -, -, hstill⟩ := forces_ballOnIce hfollows hreports hvelocities
  have hdt : ballInHalfSteps.timeStep = 1 / 2 := Scalar.half_eq
  have hphi : slidingPair.phi = -1 := rfl
  refine ⟨made_ballOnIce, made_ballInHalfSteps, y.problem, c, r, d, factors, constraint, hc,
    hrest.run_evalStage hvalid hcurrent rfl, hrest.run_evalStage hvalid hproblem rfl, hd, hfactors,
    hconstraint, hfriction,
    soft_ballOnIce hfollows hfactors hconstraint (by norm_num [hdt]) (by norm_num [hdt]), ?_, ?_⟩
  · rw [hnormal, hdt]
    norm_num
  · rw [hstill, hphi, hstiffness, hdissipation]
    norm_num

end CompliantContact
