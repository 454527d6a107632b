import CompliantContact.Proofs.Mechanism.ForwardDynamics
import CompliantContact.Proofs.Problem.Assembled
import CompliantContact.Proofs.Simulation.Reports

/-!
The balance of free motion.

The matrix that the solver gets from the linear dynamics of a step is the one that forward dynamics
inverts: the mass matrix of all trees, with the reflected inertia and the damping over one step along
its diagonal. So it takes the change of the velocities in free motion to what the forces other than
constraints do in one step (`Simulator.Vouches.free_motion_balance`).
-/

namespace CompliantContact

open Finset Outcome

/-! ### Forces along the velocities -/

namespace Mechanism

variable {m : Mechanism ℝ} {k : PositionKinematics ℝ} {i : ℕ}

/-- What a spatial force does along a velocity, whatever acts there already. -/
theorem spatialForceTerm_sub {g h : Vec ℝ} (hg : i < g.size) (hh : i < h.size)
    (bf : BodyIndex × SpatialForce ℝ) :
    m.spatialForceTerm k g bf i - g i = m.spatialForceTerm k h bf i - h i := by
  rw [spatialForceTerm, spatialForceTerm]
  split
  · rw [sub_self, sub_self]
  · rw [Vec.get_add (by rwa [Vec.size_add]), Vec.get_add hg, Vec.get_add (by rwa [Vec.size_add]),
      Vec.get_add hh]
    ring

theorem foldl_spatialForceTerm_sub (bodies : List (BodyIndex × SpatialForce ℝ)) {g h : Vec ℝ}
    (hg : i < g.size) (hh : i < h.size) :
    bodies.foldl (m.spatialForceTerm k) g i - g i = bodies.foldl (m.spatialForceTerm k) h i - h i := by
  induction bodies generalizing g h with
  | nil => rw [List.foldl_nil, List.foldl_nil, sub_self, sub_self]
  | cons bf bodies ih =>
    rw [List.foldl_cons, List.foldl_cons]
    have hrest := ih (g := m.spatialForceTerm k g bf) (h := m.spatialForceTerm k h bf)
      (by rwa [size_spatialForceTerm]) (by rwa [size_spatialForceTerm])
    have hfirst := spatialForceTerm_sub (m := m) (k := k) hg hh bf
    linarith

/-- Forces along the velocities add to what the spatial forces do. -/
theorem generalizedForces_with {f : Forces ℝ} {g applied : Vec ℝ} (hsized : f.sizedFor m = true)
    (h : m.generalizedForces k { f with generalized := g } = .ok applied) :
    ∃ e, m.generalizedForces k f = .ok e ∧ ∀ i < m.numVelocities,
    applied i = e i + (g i - f.generalized i) := by
  obtain ⟨hsized', rfl⟩ := generalizedForces_eq_ok h
  refine ⟨_, by rw [generalizedForces, require_bind_eq_ok_iff]; exact ⟨hsized, rfl⟩, fun i hi => ?_⟩
  have hsize : ∀ f' : Forces ℝ, f'.sizedFor m = true →
      f'.generalized.size = m.numVelocities := fun f' hf' => by
    simpa using (Bool.and_eq_true_iff.mp hf').1
  have hsub := foldl_spatialForceTerm_sub (m := m) (k :=
    k) (m.movableBodies.map fun b => (b, f.bodies.getD b.val 0))
    (g := g) (h := f.generalized) (i := i) ((hsize _ hsized').symm ▸ hi) ((hsize f hsized).symm ▸ hi)
  linarith

end Mechanism

namespace Simulator

variable {s : Simulator ℝ} {x : State ℝ} {k : PositionKinematics ℝ} {i j : ℕ}

/-- The forces of the elements of the model. -/
def elementForces {α : Type} [Scalar α] (s : Simulator α) (x : State α)
    (k : PositionKinematics α) : Forces α :=
  s.model.addElementForces k x.positions x.velocities (.zero s.model.toMechanism)

/-- The applied forces are those of the elements, less the damping, and the actuation. -/
theorem generalizedForces_appliedForces {tau applied : Vec ℝ}
    (h : s.model.generalizedForces k (s.appliedForces x k tau) = .ok applied) :
    ∃ e, s.model.generalizedForces k (s.elementForces x k) = .ok e ∧
      ∀ i < s.model.numVelocities, applied i = e i + tau i - x.damping i * x.velocities i := by
  have hsized := (Mechanism.generalizedForces_eq_ok h).1
  have hsize : (s.elementForces x k).generalized.size = s.model.numVelocities := by
    have hgeneralized := (Bool.and_eq_true_iff.mp hsized).1
    simpa [appliedForces, elementForces] using hgeneralized
  have hsized' : (s.elementForces x k).sizedFor s.model.toMechanism = true :=
    Bool.and_eq_true_iff.mpr ⟨by simpa using hsize, (Bool.and_eq_true_iff.mp hsized).2⟩
  obtain ⟨e, he, hentries⟩ := Mechanism.generalizedForces_with hsized' h
  refine ⟨e, he, fun i hi => ?_⟩
  rw [hentries i hi]
  show e i + (((s.elementForces x k).generalized - x.damping.hadamard x.velocities + tau) i -
    (s.elementForces x k).generalized i) = _
  rw [← hsize] at hi
  rw [Vec.get_add (by rwa [Vec.size_sub]), Vec.get_sub hi, Vec.get_hadamard]
  ring

/-! ### The matrix of the solver -/

/-- The linear dynamics are the blocks of the matrix that forward dynamics inverts. -/
theorem linearDynamics_eq_ok {ms : List (Mat ℝ)} (h : s.linearDynamics x k = .ok ms) :
    x.reflectedInertia.size = s.model.numVelocities ∧ ms = s.model.layout.trees.map fun t =>
      ((s.model.rigidMassMatrix k).addDiagonal (s.addedInertia x)).diagonalBlock (s.model.layout.start t)
        (s.model.layout.size t) := by
  simp only [linearDynamics, Mechanism.massMatrix, bind_eq_ok_iff] at h
  obtain ⟨mass, ⟨_, hsize, hmass⟩, h⟩ := h
  have hsize : s.model.numVelocities = x.reflectedInertia.size := requireSize_eq_ok_iff.mp hsize
  cases hmass
  cases h
  refine ⟨hsize.symm, List.map_congr_left fun t _ => ?_⟩
  have hsame : ((s.model.rigidMassMatrix k).addDiagonal x.reflectedInertia).addDiagonal
    (x.damping * s.timeStep) =
      (s.model.rigidMassMatrix k).addDiagonal (s.addedInertia x) := by
    exact Mat.addDiagonal_addDiagonal _ (show s.model.numVelocities ≤ x.reflectedInertia.size from hsize.le)
  rw [hsame]

/-- The linear dynamics and free velocities make a problem; its matrix is the one that forward dynamics
    inverts. -/
theorem exists_problem_of_linearDynamics (hm : s.model.Orderly) (hlaid : s.model.LaidOut)
    (hdt : 0 < s.timeStep) {ms : List (Mat ℝ)} (h : s.linearDynamics x k = .ok ms) {vFree : Vec ℝ}
    (hsize : vFree.size = s.model.numVelocities) :
    ∃ p, Problem.new s.timeStep ms vFree = .ok p ∧
      p.dynamicsMatrix = (s.model.rigidMassMatrix k).addDiagonal (s.addedInertia x) := by
  obtain ⟨-, hms⟩ := linearDynamics_eq_ok h
  have hrows : ms.map Mat.rows = s.model.layout.sizes.toList := by
    rw [hms, List.map_map, ← TreeLayout.map_size_trees]
    rfl
  have hcheck : Problem.checkDynamics ms vFree = .ok () := by
    rw [Problem.checkDynamics, bind_eq_ok_iff]
    refine ⟨(), forM_eq_ok_iff.mpr fun a ha => ?_, requireSize_eq_ok_iff.mpr ?_⟩
    · rw [hms] at ha
      obtain ⟨t, -, rfl⟩ := List.mem_map.mp ha
      exact requireSize_eq_ok_iff.mpr rfl
    · rw [hrows, hlaid.sizes, hsize]
  refine ⟨⟨s.timeStep, ms.toArray, vFree, #[]⟩, ?_, ?_⟩
  · rw [Problem.new, require_bind_eq_ok_iff, bind_eq_ok_iff]
    exact ⟨hdt, (), hcheck, rfl⟩
  refine Mat.ext hsize hsize fun i hi j hj => ?_
  have hi' : i < s.model.numVelocities := hsize ▸ hi
  rw [Problem.dynamicsMatrix_get _ hi hj]
  -- The row of `i` stands in the block of its tree.
  obtain ⟨t, hfirst, hlast⟩ := TreeLayout.exists_within (l := s.model.layout) (hlaid.sizes.symm ▸ hi')
  have htree := TreeLayout.Within.mem_trees (l := s.model.layout) ⟨hfirst, hlast⟩
  have hblock : ms[t.val]? = some (((s.model.rigidMassMatrix k).addDiagonal (s.addedInertia x)).diagonalBlock
      (s.model.layout.start t) (s.model.layout.size t)) := by
    rw [hms, List.getElem?_map, TreeLayout.getElem?_trees htree, Option.map_some]
  have hstart : total ((ms.take t.val).map Mat.rows) = s.model.layout.start t := by
    rw [List.map_take, hrows]; rfl
  rw [Problem.blockEntry_of_block hblock (hstart.symm ▸ hfirst) (hstart.symm ▸ hlast), hstart]
  by_cases hj' : s.model.layout.Within t j
  · obtain ⟨hfirst', hlast'⟩ := hj'
    have hrow : i - s.model.layout.start t < s.model.layout.size t := by omega
    have hcol : j - s.model.layout.start t < s.model.layout.size t := by omega
    rw [if_pos ⟨hfirst', hlast'⟩, Mat.diagonalBlock, Mat.get_ofFn_of_lt hrow hcol, Nat.add_sub_cancel' hfirst,
      Nat.add_sub_cancel' hfirst']
  · rw [hm.addDiagonal_eq_zero ⟨hfirst, hlast⟩ hj']
    exact if_neg hj'

/-! ### Free motion -/

/-- In free motion, in a context that the simulator vouches for, the matrix of the solver takes the
    change of the velocities to what the applied forces, less those that the motion itself asks for, do
    in one step. The matrix is the mass matrix with the reflected inertia and the damping over one step
    along its diagonal, and the applied forces are those of the elements, the actuation and the damping.
    -/
theorem Vouches.free_motion_balance {c d : Context ℝ} {a : FreeAccelerations ℝ} (hmade : s.Made)
    (h : s.Vouches c) (hc : c.Reachable)
    (hinertia : ∀ body ∈ s.model.bodies, body.inertia.transpose = body.inertia)
    (ha : c.run (s.evalFreeAccelerations c.toSetting) = (.ok a, d)) :
    ∃ k tau elements bias dynamics vFree p,
      s.model.positionKinematics d.state.positions = .ok k ∧ d.Supplies (d.current d.cache) tau ∧
      s.model.generalizedForces k (s.elementForces d.state k) = .ok elements ∧
      s.model.biasForces k d.state.velocities = .ok bias ∧
      (d.run (s.evalLinearDynamics d.toSetting)).1 = .ok dynamics ∧
      d.run (s.evalFreeVelocities d.toSetting) = (.ok vFree, d) ∧
      Problem.new s.timeStep dynamics vFree = .ok p ∧
      p.dynamicsMatrix.mulVec (vFree - d.state.velocities) = (a.forces - bias) * s.timeStep ∧
      (∀ i < s.model.numVelocities,
        a.forces i = elements i + tau i - d.state.damping i * d.state.velocities i) ∧
      ∀ i < s.model.numVelocities, ∀ j < s.model.numVelocities,
      p.dynamicsMatrix i j = s.model.rigidMassMatrix k i j +
        if i = j then d.state.reflectedInertia i + s.timeStep * d.state.damping i else 0 := by
  obtain ⟨-, hvalid, k, tau, hk, htau, hfree, hdynamics, hvFree⟩ := h.evalFreeAccelerations hc ha
  have hm := hmade.orderly
  have hlaid := hmade.laidOut
  have hvelocities : d.state.velocities.size = s.model.numVelocities := (validate_eq_ok hvalid).2.2
  simp only [freeAccelerations, bind_eq_ok_iff] at hfree
  obtain ⟨acc, hacc, forces, hforces, hfree⟩ := hfree
  cases hfree
  obtain ⟨hadded, haccsize, applied, bias, happlied, hbias, hsolved⟩ :=
    Mechanism.forwardDynamics_eq_ok hm hlaid hinertia hacc
  obtain rfl : forces = applied := Except.ok.inj (hforces.symm.trans happlied)
  obtain ⟨elements, helements, hentries⟩ := generalizedForces_appliedForces hforces
  have hreflected : d.state.reflectedInertia.size = s.model.numVelocities := by
    rwa [addedInertia, Vec.size_add] at hadded
  obtain ⟨ms, hms⟩ : ∃ ms, s.linearDynamics d.state k = .ok ms := by
    simp only [linearDynamics, Mechanism.massMatrix, bind_eq_ok_iff]
    exact ⟨_, _, ⟨(), requireSize_eq_ok_iff.mpr hreflected.symm, rfl⟩, rfl⟩
  have hsize : (s.freeVelocities d.state ⟨forces, acc⟩).size = s.model.numVelocities :=
    Vec.size_add.trans hvelocities
  obtain ⟨p, hp, hmatrix⟩ := exists_problem_of_linearDynamics hm hlaid hmade.timeStep_pos hms hsize
  refine ⟨k, tau, elements, bias, ms, _, p, hk, htau, helements, hbias, hdynamics.trans hms, hvFree, hp,
    ?_, hentries,
    fun i hi j hj => ?_⟩
  · -- The velocities change by the accelerations over one step.
    have hchange : s.freeVelocities d.state ⟨forces, acc⟩ - d.state.velocities = acc * s.timeStep := by
      refine Vec.ext (by rw [Vec.size_sub, hsize, Vec.size_mul, haccsize]) fun i hi => ?_
      rw [Vec.size_sub] at hi
      rw [Vec.get_sub hi, freeVelocities, Vec.get_add (by rwa [hvelocities, ← hsize]), add_sub_cancel_left]
    rw [hmatrix, hchange, ← hsolved]
    refine Vec.ext (by rw [Mat.size_mulVec, Vec.size_mul, Mat.size_mulVec]) fun i hi => ?_
    rw [Mat.size_mulVec] at hi
    rw [Mat.get_mulVec hi, Vec.get_mul, Mat.get_mulVec hi, sum_mul]
    exact sum_congr rfl fun j _ => by rw [Vec.get_mul, mul_assoc]
  · rw [hmatrix, Mechanism.addDiagonal_get hi hj, addedInertia, Vec.get_add (hreflected.symm ▸ hi),
      Vec.get_mul, mul_comm (d.state.damping i)]

theorem inertia_ball : ∀ body ∈ ball.bodies, body.inertia.transpose = body.inertia := by
  have hbodies : ball.bodies = #[.world, .pointMass "ball" 1] := rfl
  intro body hbody
  rw [hbodies] at hbody
  simp only [List.mem_toArray, List.mem_cons, List.not_mem_nil, or_false] at hbody
  rcases hbody with rfl | rfl <;> rfl

theorem free_motion_balance_ballOnGround : ∃ a d,
    ballOnGround.defaultContext.run
      (ballOnGround.evalFreeAccelerations ballOnGround.defaultContext.toSetting) = (.ok a, d) ∧
      ∃ bias dynamics vFree p, (d.run (ballOnGround.evalLinearDynamics d.toSetting)).1 = .ok dynamics ∧
        d.run (ballOnGround.evalFreeVelocities d.toSetting) = (.ok vFree, d) ∧
        Problem.new ballOnGround.timeStep dynamics vFree = .ok p ∧
        p.dynamicsMatrix.mulVec (vFree - d.state.velocities) = (a.forces - bias) * ballOnGround.timeStep := by
  obtain ⟨y, hfollows, hfree, -⟩ := exists_follows_ballOnGround
  obtain ⟨d, hd⟩ := hfollows.exists_run_free hfree
  obtain ⟨_, _, _, bias, dynamics, vFree, p, -, -, -, -, hdynamics, hvFree, hp, hbalance, -⟩ :=
    Vouches.free_motion_balance made_ballOnGround ballOnGround.vouches_defaultContext
      (.created ballOnGround) inertia_ball hd
  exact ⟨y.free, d, hd, bias, dynamics, vFree, p, hdynamics, hvFree, hp, hbalance⟩

/-! ### A ball on a spring -/

noncomputable section

def liftingSpring : ForceElement ℝ := .spring ⟨0⟩ 1 1

/-- The ball on the ground, for a simulator that knows of a spring which lifts it. -/
def ballOnSpring : Simulator ℝ := { ballOnGround with model := ⟨ball, [liftingSpring]⟩ }

end

theorem made_ballOnSpring : ballOnSpring.Made := by
  have hcheck : liftingSpring.check ball = .ok () :=
    require_bind_eq_ok_iff.mpr ⟨rfl, require_eq_ok_iff.mpr ⟨rfl, not_lt.mpr zero_le_one⟩⟩
  have hbuild : Model.build [.pointMass "ball" 1] [hoist] [liftingSpring] = .ok ⟨ball, [liftingSpring]⟩ := by
    rw [Model.build, Model.build_mechanism build_ball]
    refine bind_eq_ok_iff.mpr ⟨ball, rfl, bind_eq_ok_iff.mpr ⟨(), forM_eq_ok_iff.mpr fun e he => ?_, rfl⟩⟩
    rw [List.mem_singleton.mp he]
    exact hcheck
  exact .new hbuild (new_ball _ _ one_pos zero_le_one)

/-- At rest the spring pushes with its stiffness. -/
theorem elements_ballOnSpring {x : State ℝ} (hx : x.positions = .zeros 1) (k : PositionKinematics ℝ) :
    ∃ e, ballOnSpring.model.generalizedForces k (ballOnSpring.elementForces x k) = .ok e ∧ e 0 = 1 := by
  have hsized : (ballOnSpring.elementForces x k).sizedFor ball = true := rfl
  have hnone : ball.generalizedForces k
    { ballOnSpring.elementForces x k with generalized := .zeros 1 } = .ok (.zeros 1) :=
    ball.generalizedForces_zero k
  obtain ⟨e, he, hentries⟩ := Mechanism.generalizedForces_with hsized hnone
  refine ⟨e, he, ?_⟩
  have hpush : (ballOnSpring.elementForces x k).generalized 0 = 1 := by
    have hget : (ballOnSpring.elementForces x k).generalized 0 =
      (Vec.zeros 1 : Vec ℝ) 0 - 1 * (x.positions 0 - 1) :=
      Vec.get_ofFn_of_lt one_pos
    rw [hget, hx, Vec.get_zeros]
    ring
  have hentry := hentries 0 one_pos
  rw [hpush, Vec.get_zeros] at hentry
  linarith

/-- The accelerations that the ball on the ground has without contact, none, are served to the simulator
    that knows of the spring. For this one the velocities do not change, while its forces would change
    them. -/
theorem free_motion_balance_ballOnSpring : ballOnGround.Made ∧ ballOnSpring.Made ∧
    (∀ body ∈ ballOnSpring.model.bodies, body.inertia.transpose = body.inertia) ∧
    ∃ a c k elements bias dynamics vFree p, ballOnGround.defaultContext.run
        (ballOnGround.evalFreeAccelerations ballOnGround.defaultContext.toSetting) =
        (.ok a, c) ∧
      ball.positionKinematics c.state.positions = .ok k ∧
      ballOnSpring.model.generalizedForces k (ballOnSpring.elementForces c.state k) = .ok elements ∧
      c.Supplies (c.current c.cache) (.zeros 1) ∧ ball.biasForces k c.state.velocities = .ok bias ∧
      c.run (ballOnSpring.evalFreeAccelerations c.toSetting) = (.ok a, c) ∧
      (c.run (ballOnSpring.evalLinearDynamics c.toSetting)).1 = .ok dynamics ∧
      c.run (ballOnSpring.evalFreeVelocities c.toSetting) = (.ok vFree, c) ∧
      Problem.new ballOnSpring.timeStep dynamics vFree = .ok p ∧
      p.dynamicsMatrix.mulVec (vFree - c.state.velocities) 0 = 0 ∧
      (elements 0 + (Vec.zeros 1 : Vec ℝ) 0 - c.state.damping 0 * c.state.velocities 0 - bias 0) *
        ballOnSpring.timeStep = 1 := by
  obtain ⟨y, hfollows, hfree, -⟩ := exists_follows_ballOnGround
  obtain ⟨c, hc⟩ := hfollows.exists_run_free hfree
  have hvalid := ballOnGround.validate_defaultContext
  obtain ⟨hsetting, hworked, hrest, hcurrent⟩ :=
    ballOnGround.vouches_defaultContext.learned (.created ballOnGround) hvalid
      (learns_evalFreeAccelerations rfl) hc
  have hstate : c.state = ballOnGround.defaultContext.state := congrArg Setting.state hsetting
  have hactuation : c.actuation = .none := congrArg Setting.actuation hsetting
  have hpositions : c.state.positions = .zeros 1 := by rw [hstate]; rfl
  have hvelocities : c.state.velocities = .zeros 1 := by rw [hstate]; rfl
  have hvalid : ballOnSpring.validate c.toSetting = .ok () := hsetting ▸ ballOnSpring.validate_defaultContext
  have hnone : c.Supplies (c.current c.cache) (.zeros 1) := by
    rw [Setting.Supplies, hactuation, hstate]
    rfl
  cases hworked _ _ hcurrent with
  | @freeAccelerations k tau _ hk htau hfree =>
    cases hworked _ _ hk with
    | positionKinematics hkinematics =>
      obtain ⟨k', hk', hframe⟩ := kinematics_ball none none (.zeros 1) rfl
      obtain rfl : k = k' := Except.ok.inj (hkinematics.symm.trans (hpositions ▸ hk'))
      obtain ⟨elements, helements, hpush⟩ := elements_ballOnSpring hpositions k
      obtain ⟨a, ha, hspd, hrows, -⟩ := linearDynamics_ball ground none none (s := ballOnGround) rfl hframe
      -- Nothing moves the ball that the first simulator knows of.
      obtain ⟨free, hfree', hzero⟩ := freeAccelerations_ball ground none none (s := ballOnGround) rfl hframe
      obtain rfl : tau = .zeros 1 := by
        rw [Setting.Supplies, hactuation, hstate] at htau
        exact htau
      obtain rfl : y.free = free := Except.ok.inj (hfree.symm.trans (hstate ▸ hfree'))
      have hvFree : ballOnSpring.freeVelocities c.state y.free = .zeros 1 :=
        (freeVelocities_eq hzero).trans hvelocities
      have hrunk : c.run (ballOnSpring.evalPositionKinematics c.toSetting) = (.ok k, c) :=
        hrest.run_evalStage hvalid hk rfl
      have hruna : c.run (ballOnSpring.evalFreeAccelerations c.toSetting) = (.ok y.free, c) :=
        hrest.run_evalStage hvalid hcurrent rfl
      refine ⟨made_ballOnGround, made_ballOnSpring, inertia_ball, y.free, c, k, elements, .zeros 1,
        [a], .zeros 1,
        ⟨1, #[a], .zeros 1, #[]⟩, hc, hkinematics, helements, hnone, ?_, hruna, ?_, ?_, ?_, ?_, ?_⟩
      · rw [hvelocities]
        exact ball.biasForces_rest k
      · rw [Context.run, evalLinearDynamics, Cached.bind_of_ok (Context.run_eq_ok_iff.mp hrunk),
          Cached.lift_apply, hstate]
        exact ha
      · rw [Context.run_eq_ok_iff, evalFreeVelocities,
          Cached.bind_of_ok (Context.run_eq_ok_iff.mp hruna), hvFree]
        rfl
      · have hnew := new_problem_ball ground none none (s := ballOnGround) rfl hspd hrows y.free
        rw [freeVelocities_eq hzero] at hnew
        exact hnew
      · rw [hvelocities, Mat.get_mulVec one_pos]
        refine sum_eq_zero fun j hj => ?_
        rw [Vec.get_sub (mem_range.mp hj), sub_self, mul_zero]
      · have hdt : ballOnSpring.timeStep = 1 := rfl
        rw [hpush, hvelocities, Vec.get_zeros, hdt]
        ring

end Simulator

end CompliantContact
