import CompliantContact.Proofs.Contact.Pairs
import CompliantContact.Proofs.Mechanism.Positions
import CompliantContact.Proofs.Mechanism.Rest
import CompliantContact.Proofs.Simulation.Assembled
import CompliantContact.Proofs.Simulation.Values
import CompliantContact.Proofs.Solver.ContactImpulses

/-!
Steps from rest.

A new context has results if every stage of its step has a value. From rest and without forces, free
motion is rest, and a solve with wide tolerances ends there.
-/

namespace CompliantContact

open Finset Outcome

section
variable {α : Type} [Scalar α] {s : Simulator α}

theorem Simulator.validate_defaultContext (s : Simulator α) :
    s.validate s.defaultContext.toSetting = .ok () := by
  have hpositions : s.defaultContext.state.numPositions = s.model.numPositions := Vec.size_zeros _
  have hvelocities : s.defaultContext.state.numVelocities = s.model.numVelocities := Vec.size_zeros _
  rw [validate, require_bind_eq_ok_iff, require_eq_ok_iff]
  exact ⟨rfl, hpositions, hvelocities⟩

theorem Simulator.vouches_defaultContext (s : Simulator α) : s.Vouches s.defaultContext :=
  (Owns.created s s).vouches s.validate_defaultContext

/-- A stage that is left alone in a new context has no value. -/
theorem Simulator.current_eq_none_of_leaves {β : Type} {work : Staged α β} {o : Outcome α β}
    {d : Context α} {t : Stage}
    (hwork : Staged.Leaves t work) (h : s.defaultContext.run work = (o, d)) : d.current d.cache t = none := by
  refine Cache.current?_of_value_eq_none fun e he => ?_
  have hentry := hwork s.defaultContext.cache
  cases hw : work s.defaultContext.cache with
  | mk r cache =>
    rw [hw] at hentry
    rw [Context.run, hw] at h
    cases h
    obtain ⟨_, -, rfl⟩ := Cache.mem_stageCache (hentry.symm.trans he)
    rfl

/-- The free accelerations decide the values of all stages. -/
theorem StepValues.Follows.eq_of_free {y z : StepValues α} {x : State α} (hy : y.Follows s x)
    (hz : z.Follows s x) (h : y.free = z.free) : y = z := by
  obtain ⟨k, pairs, contacts, dynamics, a, p, r⟩ := y
  obtain ⟨k', pairs', contacts', dynamics', a', p', r'⟩ := z
  obtain rfl : k = k' := Except.ok.inj (hy.kinematics.symm.trans hz.kinematics)
  obtain rfl : pairs = pairs' := Except.ok.inj (hy.pairs.symm.trans hz.pairs)
  obtain rfl : contacts = contacts' := Except.ok.inj (hy.contacts.symm.trans hz.contacts)
  obtain rfl : dynamics = dynamics' := Except.ok.inj (hy.dynamics.symm.trans hz.dynamics)
  obtain rfl : a = a' := h
  obtain rfl : p = p' := Except.ok.inj (hy.problem.symm.trans hz.problem)
  obtain rfl : r = r' := Except.ok.inj (hy.results.symm.trans hz.results)
  rfl

section
variable {y : StepValues α} (h : y.Follows s s.defaultContext.state)
  (hfree : s.freeAccelerations s.defaultContext.state y.kinematics
    (.zeros s.model.numVelocities) = .ok y.free)
include h hfree

/-- Without actuation the values of the stages of a new context are such. -/
theorem StepValues.Follows.worked : y.Worked s s.defaultContext.toSetting (.zeros s.model.numVelocities) where
  toFollows := h
  valid := s.validate_defaultContext
  supplied _ := by
    have hvelocities : s.defaultContext.state.numVelocities = s.model.numVelocities := Vec.size_zeros _
    exact congrArg (fun n => Except.ok (Vec.zeros n)) hvelocities
  accelerated := hfree

omit h hfree in
theorem Simulator.run_defaultContext {β : Type} {work : Staged α β} {r : Outcome α β} {x : β}
    (hwork : Gives s s.defaultContext.toSetting (fun _ => none) (fun _ => false) work r) (hx : r = .ok x) :
    ∃ d, s.defaultContext.run work = (.ok x, d) := by
  obtain ⟨hrun, -⟩ := hwork _ (Faithful.of_stageCache (s := s) (c := s.defaultContext.toSetting))
  refine ⟨{ s.defaultContext with cache := (work s.defaultContext.cache).2 }, ?_⟩
  rw [Context.run]
  exact Prod.ext (hrun.trans hx) rfl

omit h hfree in
theorem Simulator.blind_defaultContext (s : Simulator α) :
    s.defaultContext.actuation.Blind := fun source hsource => by
  cases hsource

/-- A new context evaluates the values of all stages, if there are such values. -/
theorem StepValues.Follows.exists_run :
    ∃ d, s.defaultContext.run (s.evalResults s.defaultContext.toSetting) = (.ok y.results, d) :=
  Simulator.run_defaultContext (gives_results s.blind_defaultContext) (h.worked hfree).direct_results

theorem StepValues.Follows.exists_run_problem :
    ∃ d, s.defaultContext.run (s.evalProblem s.defaultContext.toSetting) = (.ok y.problem, d) :=
  Simulator.run_defaultContext (gives_evalProblem s.blind_defaultContext) ((h.worked hfree).direct_problem _)

theorem StepValues.Follows.exists_run_free :
    ∃ d, s.defaultContext.run (s.evalFreeAccelerations s.defaultContext.toSetting) = (.ok y.free, d) := by
  refine Simulator.run_defaultContext ?_ ((h.worked hfree).direct_free .client)
  exact gives_free s.blind_defaultContext .client fun hclient => absurd rfl hclient

/-- Whoever evaluates the results of a new context leaves the values of all stages in it, and every
    simulator that makes such contexts is served them. -/
theorem StepValues.Follows.exists_served {t : Simulator α}
    (ht : t.defaultContext.toSetting = s.defaultContext.toSetting) : ∃ d : Context α,
      s.defaultContext.run (s.evalResults s.defaultContext.toSetting) = (.ok y.results, d) ∧
        d.toSetting = s.defaultContext.toSetting ∧ d.Has t y := by
  obtain ⟨d, hd⟩ := h.exists_run hfree
  have hvalid := s.validate_defaultContext
  obtain ⟨hsetting, hworked, hrest, hcurrent⟩ :=
    s.vouches_defaultContext.learned (.created s) hvalid (learns_evalResults rfl) hd
  rw [← hsetting] at hvalid
  obtain ⟨z, -, hfollows, hknown⟩ := Held.WorkedBy.exists_follows hworked hvalid hcurrent
  rw [hsetting] at hfollows
  -- What the context has of the free accelerations was worked out without actuation.
  cases hworked _ _ hknown.free with
  | @freeAccelerations k tau _ hk htau haccelerated =>
    rw [hknown.kinematics] at hk
    cases hk
    rw [Setting.Supplies, hsetting] at htau
    rw [hsetting] at haccelerated
    obtain rfl : tau = .zeros s.model.numVelocities := htau.trans (congrArg Vec.zeros h.numVelocities)
    have hkinematics : z.kinematics = y.kinematics :=
      Except.ok.inj (hfollows.kinematics.symm.trans h.kinematics)
    rw [hkinematics] at haccelerated
    have hsame : z.free = y.free := Except.ok.inj (haccelerated.symm.trans hfree)
    have haccepted : t.validate d.toSetting = .ok () := by
      rw [hsetting, ← ht]
      exact t.validate_defaultContext
    exact ⟨d, hd, hsetting, hrest.has haccepted (hfollows.eq_of_free h hsame ▸ hknown)⟩

end

end

/-- Without accelerations the free velocities are those of the state. -/
theorem Simulator.freeVelocities_eq {s : Simulator ℝ} {x : State ℝ} {free : FreeAccelerations ℝ}
    (hzero : ∀ i, free.accelerations i = 0) : s.freeVelocities x free = x.velocities := by
  refine Vec.ext Vec.size_add fun i hi => ?_
  refine (Vec.get_ofFn_of_lt (hi.trans_eq Vec.size_add)).trans ?_
  rw [Vec.get_mul, hzero, zero_mul, add_zero]

theorem Simulator.exists_contactResults {s : Simulator ℝ} {x : State ℝ} {p : AssembledProblem ℝ}
    (hp : p.problem.Built)
    (htrees : p.problem.HasSPDTrees) (hfree : p.problem.freeVelocities = x.velocities)
    (habs : 0 ≤ s.config.solverConfig.absTolerance) (hrel : 1 ≤ s.config.solverConfig.relTolerance) :
    ∃ r, s.contactResults x p = .ok r ∧ r.velocities = x.velocities := by
  obtain ⟨solution, hsolve, hsuccess, hv⟩ := hp.solve_free htrees habs hrel
  obtain ⟨r, hr, hvelocities⟩ := hp.exists_contactResults hsolve hsuccess s.timeStep
  refine ⟨r, ?_, by rw [hvelocities, hv, hfree]⟩
  rw [Simulator.contactResults, ← hfree, hsolve]
  exact bind_eq_ok_iff.mpr ⟨solution, rfl, require_bind_eq_ok_iff.mpr ⟨by rw [hsuccess]; rfl, hr⟩⟩

/-! ### A ball on the ground -/

noncomputable section

def hoist : Joint ℝ := .ofKind "hoist" (.prismatic .unitZ) .world ⟨1⟩

def ball : Mechanism ℝ where
  bodies := #[.world, .pointMass "ball" 1]
  joints := #[hoist]
  inboard := #[none, some ⟨0⟩]
  layout := ⟨#[none, some ⟨0⟩], #[⟨0⟩], #[1]⟩

def rubber : Material ℝ := ⟨some 2, some 0, some ⟨1, 1⟩⟩

def ground : GeometryQuery ℝ :=
  .ofTable [⟨⟨0⟩, some .world, some "ground", some rubber⟩, ⟨⟨1⟩, some ⟨1⟩, some "ball", some rubber⟩]
    (.ok [⟨⟨0⟩, ⟨1⟩, 0, 0, -.unitZ, 1⟩])

def ballConfig (timeStep relTolerance : ℝ) : Config ℝ :=
  ⟨timeStep, .point, .sap, 1, ⟨1, 1⟩, ⟨1, 1, 1⟩, 1, ⟨1, 0, relTolerance, 0, 1 / 2, 1 / 2⟩⟩

def ballOnGround : Simulator ℝ where
  model := ⟨ball, []⟩
  geometry := ground
  config := ballConfig 1 1
  couplers := []
  deformable := none
  revision := 0

/-- The hoist with limits. -/
def hoistBetween (lower upper : Option ℝ) : Joint ℝ := hoist.withLimits lower upper

/-- The ball on a hoist with limits. -/
def ballBetween (lower upper : Option ℝ) : Mechanism ℝ := { ball with joints := #[hoistBetween lower upper] }

/-- The ball on a hoist with limits, above any ground. -/
def ballAbove (geometry : GeometryQuery ℝ) (lower upper : Option ℝ) : Simulator ℝ :=
  { ballOnGround with model := ⟨ballBetween lower upper, []⟩, geometry }

/-- The two geometries, registered for each other's body. -/
def exchanged : GeometryQuery ℝ :=
  .ofTable [⟨⟨0⟩, some ⟨1⟩, some "ground", some rubber⟩, ⟨⟨1⟩, some .world, some "ball", some rubber⟩]
    (.ok [⟨⟨0⟩, ⟨1⟩, 0, 0, -.unitZ, 1⟩])

/-- The ball, for a simulator that takes it for the ground. -/
def ballExchanged : Simulator ℝ := ballAbove exchanged none none

end

section
variable (geometry : GeometryQuery ℝ) (lower upper : Option ℝ)

theorem check_hoist (hordered : Bound.ordered lower upper = true) :
    (hoistBetween lower upper).check 2 = .ok () := by
  have hzeros : (Vec.zeros 1 : Vec ℝ).toArray.all (0 ≤ ·) = true := by
    rw [Array.all_eq_true]
    intro i hi
    simp [Vec.zeros, Vec.replicate, Vec.ofFn]
  have hlimits : (((hoistBetween lower upper).lowerLimits.zip (hoistBetween lower upper).upperLimits).all
      fun bounds => Bound.ordered bounds.1 bounds.2) = true := by
    rw [Array.all_eq_true]
    intro i hi
    simpa [hoistBetween, Joint.withLimits] using hordered
  simp only [Joint.check, bind_eq_ok_iff]
  exact ⟨(), rfl, (), rfl, (), rfl, (), rfl, (), rfl, (), rfl, (), rfl, (), require_eq_ok_iff.mpr hzeros,
    (), require_eq_ok_iff.mpr hzeros, require_eq_ok_iff.mpr hlimits⟩

omit geometry lower upper in
theorem normalizeAxis_unitZ {joint : Joint ℝ} (h : joint.kind = .prismatic .unitZ) :
    joint.normalizeAxis = .ok joint :=
  Joint.normalizeAxis_of_norm (a := .unitZ) (by rw [h]; rfl) Vec3.norm_unitZ

theorem connect_hoist (hordered : Bound.ordered lower upper = true) :
    Mechanism.connect 2 ⟨#[], Array.replicate 2 none⟩ (hoistBetween lower upper) =
      .ok ⟨#[hoistBetween lower upper], #[none, some ⟨0⟩]⟩ := by
  rw [Mechanism.connect, check_hoist lower upper hordered]
  exact bind_eq_ok_iff.mpr ⟨(), rfl, bind_eq_ok_iff.mpr ⟨_, normalizeAxis_unitZ rfl,
    require_bind_eq_ok_iff.mpr ⟨rfl, rfl⟩⟩⟩

theorem build_ballBetween (hordered : Bound.ordered lower upper = true) :
    Model.build [.pointMass "ball" 1] [hoistBetween lower upper] [] = .ok ⟨ballBetween lower upper, []⟩ := by
  have hmass : ∀ b ∈ [Body.world, Body.pointMass "ball" (1 : ℝ)], Mechanism.requireMass b = .ok () := by
    intro b hb
    rw [Mechanism.requireMass, require_eq_ok_iff]
    refine ⟨?_, rfl⟩
    rcases List.mem_cons.mp hb with rfl | hb
    · exact le_rfl
    · rw [List.mem_singleton.mp hb]
      exact zero_le_one
  have hbuild : Mechanism.build [.pointMass "ball" 1] [hoistBetween lower upper] =
      .ok (ballBetween lower upper) := by
    simp only [Mechanism.build, bind_eq_ok_iff]
    refine ⟨(), forM_eq_ok_iff.mpr hmass, ⟨#[hoistBetween lower upper], #[none, some ⟨0⟩]⟩, ?_, (), rfl, ?_⟩
    · rw [List.foldlM_cons, bind_eq_ok_iff]
      exact ⟨_, connect_hoist lower upper hordered, rfl⟩
    · rfl
  rw [Model.build, hbuild]
  rfl

theorem build_ball : Model.build [.pointMass "ball" 1] [hoist] [] = .ok ⟨ball, []⟩ :=
  build_ballBetween none none rfl

theorem chain_ball : (ballBetween lower upper).chain ⟨1⟩ = [(⟨0⟩, hoistBetween lower upper)] := by
  have hinboard : (ballBetween lower upper).inboardJoint? ⟨1⟩ = some (⟨0⟩, hoistBetween lower upper) := rfl
  have hworld : (ballBetween lower upper).inboardJoint? .world = none := rfl
  rw [Mechanism.chain, hinboard]
  dsimp only
  have hparent : (hoistBetween lower upper).parent = .world := rfl
  rw [hparent, if_pos (by decide)]
  show (_ :: (ballBetween lower upper).chain .world) = _
  rw [Mechanism.chain, hworld]

theorem kinematics_ball (q : Vec ℝ) (hq : q.size = 1) :
    ∃ k, (ballBetween lower upper).positionKinematics q = .ok k ∧ k.jointFrame ⟨0⟩ = .identity := by
  refine ⟨⟨(ballBetween lower upper).bodyPoses q,
    (ballBetween lower upper).joints.map
      (Mechanism.jointFrame ((ballBetween lower upper).bodyPoses q))⟩, ?_, ?_⟩
  · refine Mechanism.positionKinematics_eq_ok_iff.mpr ⟨hq, fun b hb j joint hfound => ?_, rfl⟩
    obtain rfl : b = ⟨1⟩ := List.mem_singleton.mp hb
    cases hfound
    exact hq.ge
  · have hframe : Mechanism.jointFrame ((ballBetween lower upper).bodyPoses q)
      (hoistBetween lower upper) = .identity :=
      Pose.identity_mul _
    have hjoints : (ballBetween lower upper).joints = #[hoistBetween lower upper] := rfl
    simp [PositionKinematics.jointFrame, hjoints, hframe]

theorem bodyPoses_ball {k : PositionKinematics ℝ}
    (hk : (ballBetween lower upper).positionKinematics (.zeros 1) = .ok k) :
    k.bodyPose .world = .identity ∧ k.bodyPose ⟨1⟩ = .identity := by
  obtain ⟨-, -, rfl⟩ := Mechanism.positionKinematics_eq_ok_iff.mp hk
  have hbodies : (ballBetween lower upper).movableBodies = [⟨1⟩] := rfl
  have hinboard : (ballBetween lower upper).inboardJoint? ⟨1⟩ = some (⟨0⟩, hoistBetween lower upper) := rfl
  have hframe : Mechanism.jointFrame #[Pose.identity] (hoistBetween lower upper) = .identity :=
    Pose.identity_mul _
  have hmotion : (JointKind.prismatic .unitZ).motion (fun i => (Vec.zeros 1 : Vec ℝ) (0 + i)) =
      Pose.identity := by
    rw [JointKind.motion, Vec.get_zeros, Vec3.mul_zero]
    rfl
  have hposes : (ballBetween lower upper).bodyPoses (.zeros 1) = #[.identity, .identity] := by
    rw [Mechanism.bodyPoses, hbodies, List.foldl_cons, List.foldl_nil, Mechanism.placeBody, hinboard]
    refine congrArg (Array.push #[Pose.identity]) ?_
    rw [hframe]
    exact (congrArg (Pose.identity * ·) hmotion).trans (Pose.identity_mul _)
  constructor
  · show Array.getD ((ballBetween lower upper).bodyPoses (.zeros 1)) 0 .identity = _
    rw [hposes]
    rfl
  · show Array.getD ((ballBetween lower upper).bodyPoses (.zeros 1)) 1 .identity = _
    rw [hposes]
    rfl

theorem jacobian_ball {k : PositionKinematics ℝ} (hk : k.jointFrame ⟨0⟩ = .identity) (p : Vec3 ℝ) :
    (ballBetween lower upper).translationalJacobian k ⟨1⟩ p 0 = .unitZ ∧
      (ballBetween lower upper).angularJacobian k ⟨1⟩ 0 = 0 := by
  have howner : Mechanism.owner? k ((ballBetween lower upper).chain ⟨1⟩) 0 =
      some (.identity, .prismatic .unitZ, 0) := by
    rw [chain_ball, Mechanism.owner?, ← hk]
    rfl
  have hplace : 0 < (ballBetween lower upper).numVelocities := one_pos
  rw [Mechanism.translationalJacobian, Mechanism.angularJacobian, Columns.get_ofFn, Columns.get_ofFn, howner]
  exact ⟨(if_pos hplace).trans (Rotation.apply_identity _), if_pos hplace⟩

theorem mass_ball {k : PositionKinematics ℝ} (hk : k.jointFrame ⟨0⟩ = .identity) :
    (ballBetween lower upper).rigidMassMatrix k 0 0 = 1 := by
  have hbodies : (ballBetween lower upper).indexedBodies = [(⟨1⟩, .pointMass "ball" 1)] := rfl
  have hplace : 0 < (ballBetween lower upper).numVelocities := one_pos
  obtain ⟨htranslational, hangular⟩ :=
    jacobian_ball lower upper hk (Mechanism.comPosition k ⟨1⟩ (.pointMass "ball" 1))
  rw [Mechanism.rigidMassMatrix, Mat.get_ofFn_of_lt hplace hplace, hbodies]
  simp only [List.map_cons, List.map_nil, Mechanism.massEntry, List.foldl_cons, List.foldl_nil,
    Mechanism.massTerm, htranslational, hangular]
  simp [Vec3.dot, Vec3.unitZ, Body.pointMass]

omit geometry lower upper in
theorem diagonalBlock_addDiagonal {m : Mat ℝ} {d : Vec ℝ} (hrows : 0 < m.rows) (hcols : 0 < m.cols)
    (hm : 0 < m 0 0) (hd : d 0 = 0) : ((m.addDiagonal d).diagonalBlock 0 1).IsSPD := by
  refine Mat.isSPD_one rfl rfl ?_
  rw [Mat.diagonalBlock, Mat.get_ofFn_of_lt one_pos one_pos, Nat.add_zero,
    Mat.get_addDiagonal d hrows hcols, hd, add_zero]
  exact hm

theorem parameters_ball : (ballAbove geometry lower upper).defaultContext.state.damping = .zeros 1 ∧
    (ballAbove geometry lower upper).defaultContext.state.reflectedInertia = .zeros 1 := by
  have hgather : ∀ field : Joint ℝ → Vec ℝ, field (hoistBetween lower upper) = .zeros 1 →
      (ballBetween lower upper).gather field = .zeros 1 := by
    intro field hfield
    refine Mechanism.gather_zero fun joint hjoint i => ?_
    rw [List.mem_singleton.mp hjoint, hfield, Vec.get_zeros]
  exact ⟨hgather _ rfl, hgather _ rfl⟩

section
variable {s : Simulator ℝ} (hs : s = ballAbove geometry lower upper)
include hs

theorem addedInertia_ball : s.addedInertia s.defaultContext.state = .zeros 1 := by
  obtain ⟨hdamping, hinertia⟩ := parameters_ball geometry lower upper
  rw [Simulator.addedInertia, hs, hdamping, hinertia]
  refine Vec.ext Vec.size_add fun i hi => ?_
  refine (Vec.get_ofFn_of_lt (hi.trans_eq Vec.size_add)).trans ?_
  rw [Vec.get_mul, Vec.get_zeros, zero_mul, add_zero]

theorem freeAccelerations_ball {k : PositionKinematics ℝ} (hk : k.jointFrame ⟨0⟩ = .identity) :
    ∃ a, s.freeAccelerations s.defaultContext.state k (.zeros 1) = .ok a ∧ ∀ i, a.accelerations i = 0 := by
  have hforces : s.appliedForces s.defaultContext.state k (.zeros 1) = .zero (ballBetween lower upper) := by
    have hgeneralized : (Vec.zeros 1 : Vec ℝ) - (Vec.zeros 1).hadamard (.zeros 1) + .zeros 1 = .zeros 1 := by
      refine Vec.ext (by simp) fun i hi => ?_
      refine (Vec.get_ofFn_of_lt (hi.trans_eq Vec.size_add)).trans ?_
      rw [Vec.get_sub (by simpa using hi), Vec.get_hadamard, Vec.get_zeros, zero_mul, sub_zero, add_zero]
    rw [hs]
    show Forces.mk _ _ = _
    rw [(parameters_ball geometry lower upper).1]
    exact congrArg (Forces.mk · _) hgeneralized
  have hmass : 0 < (ballBetween lower upper).rigidMassMatrix k 0 0 :=
    zero_lt_one.trans_eq (mass_ball lower upper hk).symm
  have hfactor : ∀ t ∈ (ballBetween lower upper).layout.trees, ∃ l, Cholesky.factor?
      ((((ballBetween lower upper).rigidMassMatrix k).addDiagonal (.zeros 1)).diagonalBlock
        ((ballBetween lower upper).layout.start t) ((ballBetween lower upper).layout.size t)) = some l := by
    intro t ht
    obtain rfl : t = ⟨0⟩ := List.mem_singleton.mp ht
    obtain ⟨l, hl, -⟩ := Cholesky.exists_factor (diagonalBlock_addDiagonal (d := .zeros 1)
      one_pos one_pos hmass (Vec.get_zeros ..))
    exact ⟨l, hl⟩
  obtain ⟨a, ha, hzero⟩ := (ballBetween lower upper).forwardDynamics_rest k (.zeros 1) rfl hfactor
  refine ⟨⟨.zeros 1, a⟩, ?_, hzero⟩
  rw [Simulator.freeAccelerations, hforces, addedInertia_ball geometry lower upper hs, hs]
  exact bind_eq_ok_iff.mpr ⟨a, ha,
    bind_eq_ok_iff.mpr ⟨_, (ballBetween lower upper).generalizedForces_zero k, rfl⟩⟩

theorem linearDynamics_ball {k : PositionKinematics ℝ} (hk : k.jointFrame ⟨0⟩ = .identity) :
    ∃ a, s.linearDynamics s.defaultContext.state k = .ok [a] ∧ a.IsSPD ∧ a.rows = 1 ∧ a 0 0 = 1 := by
  have hmass : (ballBetween lower upper).massMatrix k (.zeros 1) =
      .ok (((ballBetween lower upper).rigidMassMatrix k).addDiagonal (.zeros 1)) := rfl
  obtain ⟨hdamping, hinertia⟩ := parameters_ball geometry lower upper
  have hundamped : ((Vec.zeros 1 : Vec ℝ) * (1 : ℝ)) 0 = 0 := by rw [Vec.get_mul, Vec.get_zeros, zero_mul]
  have hentry : (((ballBetween lower upper).rigidMassMatrix k).addDiagonal (.zeros 1)) 0 0 = 1 := by
    rw [Mat.get_addDiagonal _ one_pos one_pos, Vec.get_zeros, add_zero]
    exact mass_ball lower upper hk
  refine ⟨_, ?_, diagonalBlock_addDiagonal (m :=
    ((ballBetween lower upper).rigidMassMatrix k).addDiagonal (.zeros 1))
    (d := (Vec.zeros 1 : Vec ℝ) * (1 : ℝ)) one_pos one_pos (hentry ▸ one_pos) hundamped, rfl, ?_⟩
  · rw [Simulator.linearDynamics, hs, hdamping, hinertia]
    exact bind_eq_ok_iff.mpr ⟨_, hmass, rfl⟩
  · rw [Mat.diagonalBlock, Mat.get_ofFn_of_lt one_pos one_pos, Nat.add_zero,
      Mat.get_addDiagonal _ one_pos one_pos, hundamped, add_zero, hentry]

theorem new_problem_ball {a : Mat ℝ} (ha : a.IsSPD) (hrows : a.rows = 1) (free : FreeAccelerations ℝ) :
    Problem.new s.timeStep [a] (s.freeVelocities s.defaultContext.state free) =
      .ok ⟨1, #[a], s.freeVelocities s.defaultContext.state free, #[]⟩ := by
  have hcheck : Problem.checkDynamics [a] (s.freeVelocities s.defaultContext.state free) = .ok () := by
    rw [Problem.checkDynamics, bind_eq_ok_iff]
    refine ⟨(), forM_eq_ok_iff.mpr fun m hm => ?_, requireSize_eq_ok_iff.mpr ?_⟩
    · rw [List.mem_singleton.mp hm]
      exact requireSize_eq_ok_iff.mpr ha.square.symm
    · rw [List.map_singleton, total_cons, hrows, hs]
      exact (Vec.size_add (v := (ballAbove geometry lower upper).defaultContext.state.velocities)).symm
  rw [hs] at hcheck ⊢
  exact require_bind_eq_ok_iff.mpr ⟨one_pos, bind_eq_ok_iff.mpr ⟨(), hcheck, rfl⟩⟩

/-- If the problem of the ball can be assembled, all stages of the step have a value. -/
theorem exists_follows_ball {pairs : List (ContactPair ℝ)}
    (hpairs : ∀ k, s.discretizer.contactPairs k .point = .ok pairs)
    (hassemble : ∀ k a free, a.IsSPD → a.rows = 1 → (∀ i, free.accelerations i = 0) →
      ∃ contacts p, ContactKinematics.ofPairs s.model.toMechanism k s.geometry pairs = .ok contacts ∧
        s.assemble s.defaultContext.state [a] free pairs contacts = .ok p) :
    ∃ y : StepValues ℝ, y.Follows s s.defaultContext.state ∧
      s.freeAccelerations s.defaultContext.state y.kinematics (.zeros 1) = .ok y.free ∧ y.pairs = pairs ∧
      y.problem.problem.HasSPDTrees ∧ y.problem.problem.freeVelocities = s.defaultContext.state.velocities ∧
      y.results.velocities = s.defaultContext.state.velocities := by
  obtain ⟨k, hk, hframe⟩ := kinematics_ball lower upper (.zeros 1) rfl
  obtain ⟨a, ha, hspd, hrows, -⟩ := linearDynamics_ball geometry lower upper hs hframe
  obtain ⟨free, hfree, hzero⟩ := freeAccelerations_ball geometry lower upper hs hframe
  obtain ⟨contacts, p, hcontacts, hp⟩ := hassemble k a free hspd hrows hzero
  obtain ⟨hbuilt, -, -, _, _, _, -, -, -, hproblem⟩ := Simulator.assemble_eq_ok hp
  have htrees : p.problem.HasSPDTrees := by
    rw [hproblem]
    intro m hm
    rwa [List.mem_singleton.mp hm]
  have hrest : p.problem.freeVelocities = s.defaultContext.state.velocities := by
    rw [hproblem]
    exact Simulator.freeVelocities_eq hzero
  obtain ⟨r, hr, hvelocities⟩ : ∃ r, s.contactResults s.defaultContext.state p = .ok r ∧
      r.velocities = s.defaultContext.state.velocities := by
    refine Simulator.exists_contactResults hbuilt htrees hrest ?_ ?_
    · rw [hs]
      exact le_refl (0 : ℝ)
    · rw [hs]
      exact le_refl (1 : ℝ)
  have hnum : s.defaultContext.state.numVelocities = s.model.numVelocities := Vec.size_zeros _
  have hmodel : s.config.contactModel = .point := by rw [hs]; rfl
  refine ⟨⟨k, pairs, contacts, [a], free, p, r⟩,
    ⟨hnum, ?_, hmodel ▸ hpairs k, hcontacts, ha, ⟨_, hfree⟩, hp, hr⟩,
    hfree, rfl, htrees, hrest, hvelocities⟩
  rw [hs]
  exact hk

end

/-- The configuration of the ball is accepted, whatever the model and the geometry. -/
theorem new_ball (model : Model ℝ) {timeStep relTolerance : ℝ} (hdt : 0 < timeStep)
    (hrel : 0 ≤ relTolerance) :
    Simulator.new model geometry (ballConfig timeStep relTolerance) =
      .ok { ballOnGround with model, geometry, config := ballConfig timeStep relTolerance } := by
  have hhalf : (decide ((0 : ℝ) < 1 / 2) && decide ((1 / 2 : ℝ) < 1)) = true := by norm_num
  simp only [Simulator.new, Config.validate, SolverConfig.validate, bind_eq_ok_iff]
  exact ⟨(), ⟨(), require_eq_ok_iff.mpr ⟨rfl, not_le.mpr hdt⟩, (), require_eq_ok_iff.mpr ⟨one_pos, rfl⟩,
    (), require_eq_ok_iff.mpr ⟨one_pos, one_pos⟩, (), require_eq_ok_iff.mpr ⟨zero_le_one, rfl⟩,
    (), require_eq_ok_iff.mpr ⟨one_pos, one_pos⟩, (), require_eq_ok_iff.mpr one_pos,
    (), require_eq_ok_iff.mpr one_ne_zero, (), require_eq_ok_iff.mpr ⟨le_rfl, hrel⟩,
    (), require_eq_ok_iff.mpr hhalf, require_eq_ok_iff.mpr hhalf⟩, (), rfl, rfl⟩

end

/-! ### The ball on the ground -/

theorem new_ballOnGround : Simulator.new ⟨ball, []⟩ ground ballOnGround.config = .ok ballOnGround :=
  new_ball ground _ one_pos zero_le_one

theorem made_ballOnGround : ballOnGround.Made := .new build_ball new_ballOnGround

theorem made_ballExchanged : ballExchanged.Made := .new build_ball (new_ball _ _ one_pos zero_le_one)

theorem rubber_ok (default : ℝ) (context : String) : rubber.stiffness default context = .ok 2 ∧
    rubber.dissipationTime context = .ok 0 ∧ rubber.dynamicFriction context = .ok 1 := by
  refine ⟨?_, ?_, rfl⟩
  · rw [Material.stiffness, require_bind_eq_ok_iff]
    exact ⟨⟨two_pos, rfl⟩, rfl⟩
  · show (require _ _ >>= _) = _
    rw [require_bind_eq_ok_iff]
    exact ⟨le_rfl, rfl⟩

noncomputable def restingPair : ContactPair ℝ where
  a := ⟨0⟩
  b := ⟨1⟩
  point := (0 : Vec3 ℝ) * (2 / (2 + 2) : ℝ) + (0 : Vec3 ℝ) * (2 / (2 + 2) : ℝ)
  normal := -.unitZ
  phi := -1
  stiffness := combineStiffnesses 2 2
  dissipationTime := combineDissipationTimes 0 0
  friction := combineFrictions 1 1

theorem restingPair_eq : restingPair.stiffness = 1 ∧ restingPair.dissipationTime = 0 ∧
    restingPair.friction = 1 := by
  refine ⟨?_, ?_, ?_⟩
  · norm_num [restingPair, combineStiffnesses, quotientOrZero, Scalar.isZero]
  · norm_num [restingPair, combineDissipationTimes]
  · norm_num [restingPair, combineFrictions, quotientOrZero, Scalar.isZero, Scalar.two]

theorem pairs_ball (k : PositionKinematics ℝ) :
    ballOnGround.discretizer.contactPairs k .point = .ok [restingPair] := by
  have hmaterial : ballOnGround.discretizer.material ⟨0⟩ = .ok rubber ∧
    ballOnGround.discretizer.material ⟨1⟩ = .ok rubber :=
    ⟨rfl, rfl⟩
  have hpair : ballOnGround.discretizer.pointPair ⟨⟨0⟩, ⟨1⟩, 0, 0, -.unitZ, 1⟩ = .ok restingPair := by
    simp only [Discretizer.pointPair, bind_eq_ok_iff]
    exact ⟨rubber, hmaterial.1, rubber, hmaterial.2, 2, (rubber_ok _ _).1, 2, (rubber_ok _ _).1, 0,
      (rubber_ok 0 _).2.1,
      0, (rubber_ok 0 _).2.1, 1, (rubber_ok 0 "").2.2, 1, (rubber_ok 0 "").2.2, rfl⟩
  exact Discretizer.contactPairs_of_penetrations (d :=
    ballOnGround.discretizer) rfl (congrArg (fun o => [o]) hpair)

section
variable {geometry : GeometryQuery ℝ} {pair : ContactPair ℝ}

theorem contacts_ball (ha : geometry.body? pair.a = some .world) (hb : geometry.body? pair.b = some ⟨1⟩)
    (k : PositionKinematics ℝ) : ∃ contact, ContactKinematics.ofPairs ball k geometry [pair] = .ok [contact] ∧
      ∃ b, contact.blocks = [b] ∧ b.tree = ⟨0⟩ ∧ b.jacobian.rows = 3 ∧ b.jacobian.cols = 1 := by
  have hbody : ∀ {id body}, geometry.body? id = some body → body.val < 2 →
      ContactKinematics.bodyOf geometry ball id = .ok body := fun hid hlt => by
    rw [ContactKinematics.bodyOf, hid]
    exact require_bind_eq_ok_iff.mpr ⟨hlt, rfl⟩
  have htrees : ContactKinematics.treesOf ball.layout .world ⟨1⟩ = [⟨0⟩] := rfl
  have hpair : ∃ contact, ContactKinematics.ofPair ball k geometry pair = .ok contact ∧
      ∃ b, contact.blocks = [b] ∧ b.tree = ⟨0⟩ ∧ b.jacobian.rows = 3 ∧ b.jacobian.cols = 1 := by
    simp only [ContactKinematics.ofPair, bind_eq_ok_iff]
    refine ⟨_, ⟨.world, hbody ha two_pos, ⟨1⟩, hbody hb one_lt_two, (),
      require_eq_ok_iff.mpr (htrees ▸ List.cons_ne_nil _ _), rfl⟩, _, rfl, rfl, rfl, Columns.size_ofFn ..⟩
  obtain ⟨contact, hcontact, hblocks⟩ := hpair
  refine ⟨contact, ?_, hblocks⟩
  rw [ContactKinematics.ofPairs, mapM_eq_ok_iff, List.map_singleton, hcontact]
  rfl

theorem contactConstraint_ball (hfriction : 0 ≤ pair.friction) (hstiffness : 0 < pair.stiffness)
    (hdissipation : 0 ≤ pair.dissipationTime) {contact : ContactKinematics ℝ} {b : JacobianBlock ℝ}
    (hb : contact.blocks = [b]) (hrows : b.jacobian.rows = 3) :
    ∃ c, (ballAbove geometry none none).contactConstraint pair contact = .ok c := by
  have hsigma : (some (1 : ℝ)).all (0 < ·) = true := decide_eq_true one_pos
  rw [Simulator.contactConstraint, hb]
  simp only [Constraint.cone, Constraint.checkFactors, Constraint.checkBlocks, bind_eq_ok_iff]
  exact ⟨_, (), require_eq_ok_iff.mpr ⟨hfriction, hstiffness, hdissipation⟩, (),
    require_eq_ok_iff.mpr ⟨one_pos, hsigma⟩, _,
    ⟨(), requireSize_eq_ok_iff.mpr hrows.symm, rfl⟩, rfl⟩

end

theorem hasFiniteLimits_hoist : hoist.hasFiniteLimits = false := by
  have hnone : (Array.replicate 1 (none : Option ℝ)).any Bound.isFinite = false := by
    rw [Array.any_eq_false]
    intro i hi
    simp [Bound.isFinite]
  show (_ || _) = false
  rw [Bool.or_eq_false_iff]
  exact ⟨hnone, hnone⟩

theorem limitConstraint_hoist (s : Simulator ℝ) (x : State ℝ) (vFree : Vec ℝ) :
    s.limitConstraint x vFree hoist = .ok none := if_pos (by rw [hasFiniteLimits_hoist]; decide)

section
variable {geometry : GeometryQuery ℝ} {pair : ContactPair ℝ}

/-- The hoist has no limits, and there are no couplers. -/
theorem addJointConstraints_ball (x : State ℝ) (p : Problem ℝ) :
    (ballAbove geometry none none).addJointConstraints x p = .ok p := by
  have hhoist : (ballAbove geometry none none).addLimit x p.freeVelocities p hoist = .ok p := by
    rw [Simulator.addLimit_eq, limitConstraint_hoist]
    rfl
  exact bind_eq_ok_iff.mpr ⟨p, bind_eq_ok_iff.mpr ⟨p, hhoist, rfl⟩, rfl⟩

theorem assemble_ball {a : Mat ℝ} (ha : a.IsSPD) (hrows : a.rows = 1) (free : FreeAccelerations ℝ)
    {contact : ContactKinematics ℝ} {c : Constraint ℝ}
    (hc : (ballAbove geometry none none).contactConstraint pair contact = .ok c)
    {b : JacobianBlock ℝ} (hb : contact.blocks = [b]) (htree : b.tree = ⟨0⟩) (hbcols : b.jacobian.cols = 1) :
    ∃ p, (ballAbove geometry none none).assemble (ballAbove geometry none none).defaultContext.state [a]
      free [pair] [contact] = .ok p := by
  set v := (ballAbove geometry none none).freeVelocities
    (ballAbove geometry none none).defaultContext.state free
  have hblocks : c.blocks = [b] := (Simulator.contactConstraint_eq_ok hc).2.2.1.trans hb
  have hadd : Problem.addConstraint ⟨1, #[a], v, #[]⟩ c = .ok (⟨1, #[a], v, #[c]⟩, 0) := by
    rw [Problem.addConstraint, require_bind_eq_ok_iff, hblocks]
    refine ⟨fun _ => rfl, bind_eq_ok_iff.mpr ⟨(), forM_eq_ok_iff.mpr fun b' hb' => ?_, rfl⟩⟩
    rw [List.mem_singleton.mp hb', Problem.checkBlock, require_bind_eq_ok_iff, htree,
      requireSize_eq_ok_iff, hbcols]
    exact ⟨one_pos, hrows⟩
  have hcontacts : (ballAbove geometry none none).addContacts ⟨1, #[a], v, #[]⟩ [pair] [contact] =
      .ok ⟨⟨1, #[a], v, #[c]⟩, [contact.frame]⟩ := by
    refine bind_eq_ok_iff.mpr ⟨(), rfl, bind_eq_ok_iff.mpr ⟨_, ?_, rfl⟩⟩
    refine bind_eq_ok_iff.mpr ⟨_, ?_, rfl⟩
    exact bind_eq_ok_iff.mpr ⟨c, hc, bind_eq_ok_iff.mpr ⟨_, hadd, rfl⟩⟩
  exact ⟨_, bind_eq_ok_iff.mpr ⟨_, new_problem_ball geometry none none rfl ha hrows free,
    bind_eq_ok_iff.mpr ⟨_, hcontacts,
    bind_eq_ok_iff.mpr ⟨_, addJointConstraints_ball _ _, rfl⟩⟩⟩⟩

/-- All stages of the step have a value for a ball that has one contact with the world. -/
theorem exists_follows_ball_contact
    (hpairs : ∀ k, (ballAbove geometry none none).discretizer.contactPairs k .point = .ok [pair])
    (ha : geometry.body? pair.a = some .world) (hb : geometry.body? pair.b = some ⟨1⟩)
    (hfriction : 0 ≤ pair.friction)
    (hstiffness : 0 < pair.stiffness) (hdissipation : 0 ≤ pair.dissipationTime) :
    ∃ y : StepValues ℝ, y.Follows (ballAbove geometry none none)
      (ballAbove geometry none none).defaultContext.state ∧
      (ballAbove geometry none none).freeAccelerations
        (ballAbove geometry none none).defaultContext.state y.kinematics
        (.zeros 1) = .ok y.free ∧ y.pairs = [pair] ∧ y.problem.problem.HasSPDTrees ∧
      y.problem.problem.freeVelocities = (ballAbove geometry none none).defaultContext.state.velocities ∧
      y.results.velocities = (ballAbove geometry none none).defaultContext.state.velocities :=
  exists_follows_ball geometry none none rfl hpairs fun k a free hspd hrows _ => by
    obtain ⟨contact, hcontact, b, hblocks, htree, hbrows, hbcols⟩ := contacts_ball ha hb k
    obtain ⟨c, hc⟩ := contactConstraint_ball hfriction hstiffness hdissipation hblocks hbrows
    obtain ⟨p, hp⟩ := assemble_ball hspd hrows free hc hblocks htree hbcols
    exact ⟨[contact], p, hcontact, hp⟩

/-- All stages of the step have a value for a ball that touches nothing. -/
theorem exists_follows_ball_apart (geometry : GeometryQuery ℝ)
    (hpairs : ∀ k, (ballAbove geometry none none).discretizer.contactPairs k .point = .ok []) :
    ∃ y : StepValues ℝ, y.Follows (ballAbove geometry none none)
      (ballAbove geometry none none).defaultContext.state ∧
      (ballAbove geometry none none).freeAccelerations
        (ballAbove geometry none none).defaultContext.state y.kinematics
        (.zeros 1) = .ok y.free ∧ y.pairs = [] := by
  obtain ⟨y, hfollows, hfree, hnone, -⟩ :=
    exists_follows_ball geometry none none rfl hpairs fun k a free hspd hrows _ =>
      ⟨[], _, rfl, bind_eq_ok_iff.mpr ⟨_, new_problem_ball geometry none none rfl hspd hrows free,
        bind_eq_ok_iff.mpr ⟨_, rfl,
        bind_eq_ok_iff.mpr ⟨_, addJointConstraints_ball _ _, rfl⟩⟩⟩⟩
  exact ⟨y, hfollows, hfree, hnone⟩

end

theorem exists_follows_ballOnGround : ∃ y : StepValues ℝ,
    y.Follows ballOnGround ballOnGround.defaultContext.state ∧
    ballOnGround.freeAccelerations ballOnGround.defaultContext.state y.kinematics (.zeros 1) = .ok y.free ∧
      y.pairs = [restingPair] := by
  obtain ⟨hstiffness, hdissipation, hfriction⟩ := restingPair_eq
  obtain ⟨y, hfollows, hfree, hpairs, -⟩ :=
    exists_follows_ball_contact pairs_ball rfl rfl (hfriction ▸ zero_le_one)
      (hstiffness ▸ one_pos) hdissipation.ge
  exact ⟨y, hfollows, hfree, hpairs⟩

/-- A new context of the ball on the ground has results, with one contact. -/
theorem exists_results_ballOnGround : ∃ (y : StepValues ℝ) (d : Context ℝ),
    y.Follows ballOnGround ballOnGround.defaultContext.state ∧ y.pairs = [restingPair] ∧
      ballOnGround.defaultContext.run (ballOnGround.evalResults ballOnGround.defaultContext.toSetting) =
        (.ok y.results, d) := by
  obtain ⟨y, hfollows, hfree, hpairs⟩ := exists_follows_ballOnGround
  obtain ⟨d, hd⟩ := hfollows.exists_run hfree
  exact ⟨y, d, hfollows, hpairs, hd⟩

end CompliantContact
