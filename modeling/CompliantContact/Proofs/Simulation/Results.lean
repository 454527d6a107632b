import CompliantContact.Proofs.Simulation.Assembled
import CompliantContact.Proofs.Simulation.Owned
import CompliantContact.Proofs.Simulation.Rest
import CompliantContact.Proofs.Solver.ContactImpulses

/-!
What the results of a step say of its contacts.

The results are those of one vector of velocities: the impulses and the relative velocities that the
assembled problem has there, with the impulses shared out over a time step. Since the impulses are such
as the constraints can have, the force of each contact is in its cone of friction, whichever simulators
have worked out the values behind the results.
-/

namespace CompliantContact

open Finset Outcome

namespace Simulator

theorem Made.timeStep_pos {s : Simulator ℝ} (h : s.Made) : 0 < s.timeStep := by
  induction h with
  | new _ h =>
    simp only [Simulator.new, bind_eq_ok_iff] at h
    obtain ⟨_, hvalid, _, -, h⟩ := h
    cases h
    rw [Config.validate, require_bind_eq_ok_iff] at hvalid
    exact not_le.mp hvalid.1.2
  | coupled _ ht ih =>
    obtain rfl := addCoupler_eq_ok ht
    exact ih
  | registered _ ht ih =>
    obtain rfl := registerDeformable_eq_ok ht
    exact ih

end Simulator

namespace ContactResults

variable {p : Problem ℝ} {config : SolverConfig ℝ} {guess : Vec ℝ} {x : Solution ℝ} {dt : ℝ}
    {r : ContactResults ℝ}

/-- The results of a solve that succeeded, with the impulses shared out over a time step. -/
structure Reports (r : ContactResults ℝ) (p : Problem ℝ) (config : SolverConfig ℝ) (guess : Vec ℝ)
    (x : Solution ℝ) (dt : ℝ) : Prop where
  built : p.Built
  solve : p.solve config guess = .ok x
  success : x.status = .success
  results : ofSolution p x dt = .ok r

theorem Reports.eq (h : r.Reports p config guess x dt) : r = {
    velocities := x.v
    normalForces := .ofFn p.numContacts fun i => x.impulses (3 * i + 2) / dt
    tangentialForces := .ofFn (2 * p.numContacts) fun i => x.impulses (3 * (i / 2) + i % 2) / dt
    normalVelocities := .ofFn p.numContacts fun i => x.velocities (3 * i + 2)
    tangentialVelocities := .ofFn (2 * p.numContacts) fun i => x.velocities (3 * (i / 2) + i % 2)
    contactForces := (p.constraints.toList.take p.numContacts).zipIdx.foldl
      (addContactForces p dt x.impulses) (.zeros p.numVelocities) } := by
  have hr := h.results
  rw [ofSolution, require_bind_eq_ok_iff, bind_eq_ok_iff] at hr
  obtain ⟨-, _, -, hr⟩ := hr
  exact (Except.ok.inj hr).symm

theorem Reports.tangential (h : r.Reports p config guess x dt) {i n : ℕ} (hi : i < p.numContacts)
    (hn : n < 2) :
    r.tangentialForces (2 * i + n) = x.impulses (3 * i + n) / dt ∧
      r.tangentialVelocities (2 * i + n) = x.velocities (3 * i + n) := by
  rw [h.eq]
  refine ⟨(Vec.get_ofFn_of_lt (by omega)).trans ?_, (Vec.get_ofFn_of_lt (by omega)).trans ?_⟩ <;>
    rw [show (2 * i + n) / 2 = i by omega, show (2 * i + n) % 2 = n by omega]

/-- The forces of a contact are its impulses over the time step. -/
theorem Reports.forces (h : r.Reports p config guess x dt) {i : ℕ} (hi : i < p.numContacts) :
    r.tangentialForces (2 * i) = x.impulses (3 * i) / dt ∧
      r.tangentialForces (2 * i + 1) = x.impulses (3 * i + 1) / dt ∧
      r.normalForces i = x.impulses (3 * i + 2) / dt := by
  refine ⟨(h.tangential hi two_pos).1, (h.tangential hi one_lt_two).1, ?_⟩
  rw [h.eq]
  exact Vec.get_ofFn_of_lt hi

theorem Reports.size_contactForces (h : r.Reports p config guess x dt) :
    r.contactForces.size = p.numVelocities := by
  have hresults : r.contactForces = _ := congrArg contactForces h.eq
  rw [hresults, (foldl_addContactForces ..).1, Vec.size_zeros]

/-- Along the velocities the contacts do what each of them does. -/
theorem Reports.contactForces_dot (h : r.Reports p config guess x dt) (v : Vec ℝ) :
    r.contactForces.dot v = ((p.constraints.toList.take p.numContacts).zipIdx.map fun contact =>
      ∑ j ∈ range p.numVelocities, contactForce p dt x.impulses j contact * v j).sum := by
  obtain ⟨-, hforces⟩ := foldl_addContactForces p dt x.impulses
    (p.constraints.toList.take p.numContacts).zipIdx (.zeros p.numVelocities)
  have hresults : r.contactForces = _ := congrArg contactForces h.eq
  rw [Vec.dot_eq, h.size_contactForces, hresults, ← System.sum_map_comm]
  refine sum_congr rfl fun j hj => ?_
  rw [hforces j (by rwa [Vec.size_zeros, ← mem_range]), Vec.get_zeros, zero_add, List.sum_map_mul_right]

/-- The force of a contact is in its cone. -/
theorem Reports.inCone (h : r.Reports p config guess x dt) (hdt : 0 < dt) {i : ℕ} {c : Constraint ℝ}
    {q : ConeParameters ℝ} (hi : i < p.numContacts) (hc : p.constraint? i = some c) (hkind : c.kind = .cone q)
    (hthree : c.numEquations = 3) :
    0 ≤ r.normalForces i ∧
      √(r.tangentialForces (2 * i) ^ 2 + r.tangentialForces (2 * i + 1) ^ 2) ≤ q.mu * r.normalForces i := by
  have hadmissible := h.built.admissible h.solve (Problem.cost_isSome_of_success h.solve h.success) hc
  unfold Constraint.Admissible at hadmissible
  simp only [hkind, hthree, h.built.equationStart_eq hi.le, Vec.slice] at hadmissible
  obtain ⟨hnormal, hcone, -⟩ := hadmissible
  rw [Vec.get_ofFn_of_lt (by decide)] at hnormal
  rw [Vec.get_ofFn_of_lt (by decide), Vec.get_ofFn_of_lt (by decide), Vec.get_ofFn_of_lt (by decide),
    add_zero] at hcone
  obtain ⟨hfirst, hsecond, hthird⟩ := h.forces hi
  rw [hfirst, hsecond, hthird]
  refine ⟨div_nonneg hnormal hdt.le, ?_⟩
  rw [div_pow, div_pow, ← add_div, Real.sqrt_div' _ (sq_nonneg _), Real.sqrt_sq hdt.le, ← mul_div_assoc]
  exact div_le_div_of_nonneg_right hcone hdt.le

end ContactResults

section
variable {s : Simulator ℝ} {c d : Context ℝ} {r : ContactResults ℝ}

/-- Results are those of a solve that succeeded, over the time step of the simulator that made them. -/
theorem Simulator.reports_of_contactResults {p : AssembledProblem ℝ} {state : State ℝ} (hp : p.problem.Built)
    (hr : s.contactResults state p = .ok r) :
    ∃ x, r.Reports p.problem s.config.solverConfig state.velocities x s.timeStep := by
  rw [Simulator.contactResults, bind_eq_ok_iff] at hr
  obtain ⟨x, hsolve, hr⟩ := hr
  rw [require_bind_eq_ok_iff] at hr
  obtain ⟨hsuccess, hr⟩ := hr
  refine ⟨x, hp, hsolve, ?_, hr⟩
  cases hstatus : x.status <;> rw [hstatus] at hsuccess <;> first | rfl | cases hsuccess

theorem StepValues.Follows.reports {y : StepValues ℝ} {state : State ℝ} (h : y.Follows s state) :
    y.problem.problem.timeStep = s.timeStep ∧
      ∃ x, y.results.Reports y.problem.problem s.config.solverConfig state.velocities x
        y.problem.problem.timeStep := by
  obtain ⟨hbuilt, -, -, _, _, _, -, -, -, hp⟩ := Simulator.assemble_eq_ok h.problem
  have hdt : y.problem.problem.timeStep = s.timeStep := by rw [hp]
  exact ⟨hdt, hdt ▸ Simulator.reports_of_contactResults hbuilt h.results⟩

/-- Behind each contact constraint stands the pair at its place, with its parameters and its separation. -/
theorem StepValues.Follows.constraint {y : StepValues ℝ} {state : State ℝ} (h : y.Follows s state) {i : ℕ}
    {pair : ContactPair ℝ} (hpair : y.pairs[i]? = some pair) : ∃ c, y.problem.problem.constraint? i = some c ∧
      c.kind = .cone ⟨pair.friction, pair.stiffness, pair.dissipationTime, s.config.contact.beta,
        s.config.contact.sigma⟩ ∧
      c.g0 = .ofList [0, 0, pair.phi] ∧ c.numEquations = 3 := by
  obtain ⟨contact, hcontact, hok⟩ := exists_getElem?_of_map_eq_ok (mapM_eq_ok_iff.mp h.contacts) hpair
  obtain ⟨c, hc, hmade⟩ := (Simulator.contacts_of_assemble h.problem).2 i pair contact hpair hcontact
  obtain ⟨hkind, hg0, -⟩ := Constraint.cone_eq_ok hmade
  rw [ContactKinematics.phi_of_ofPair hok] at hg0
  exact ⟨c, hc, hkind, hg0, by rw [Constraint.numEquations, hg0]; rfl⟩

theorem StepValues.Follows.numContacts {y : StepValues ℝ} {state : State ℝ} (h : y.Follows s state) :
    y.results.numContacts = y.pairs.length := by
  obtain ⟨-, x, hreports⟩ := h.reports
  rw [ContactResults.numContacts, hreports.eq, Vec.size_ofFn, (Simulator.contacts_of_assemble h.problem).1]

/-- Whoever has worked out the values behind results: a contact has a force in the cone of friction of
    its pair. -/
theorem Coherent.inCone {c : Setting ℝ} {cache : Cache (StageValue ℝ)} (h : Coherent Simulator.Made c cache)
    (hr : c.current cache .results = some (.results r)) :
    ∃ pairs, c.current cache .contactPairs = some (.contactPairs pairs) ∧ r.numContacts = pairs.length ∧
      ∀ i pair, pairs[i]? = some pair → 0 ≤ r.normalForces i ∧
        √(r.tangentialForces (2 * i) ^ 2 + r.tangentialForces (2 * i + 1) ^ 2) ≤
          pair.friction * r.normalForces i := by
  obtain ⟨solver, hmade, -, hworked⟩ := h.worked _ _ hr
  cases hworked with
  | @results p _ hp hresults =>
    obtain ⟨assembler, -, -, hworked⟩ := h.worked _ _ hp
    cases hworked with
    | @problem _ _ _ pairs _ _ _ _ _ hpairs _ hassemble =>
      obtain ⟨hbuilt, hlength, -⟩ := Simulator.assemble_eq_ok hassemble
      obtain ⟨hcount, hcontacts⟩ := Simulator.contacts_of_assemble hassemble
      obtain ⟨x, hreports⟩ := Simulator.reports_of_contactResults hbuilt hresults
      refine ⟨pairs, hpairs, ?_, fun i pair hpair => ?_⟩
      · rw [ContactResults.numContacts, hreports.eq, Vec.size_ofFn, hcount]
      have hi : i < pairs.length := (List.getElem?_eq_some_iff.mp hpair).1
      obtain ⟨constraint, hc, hmade'⟩ := hcontacts i pair _ hpair (List.getElem?_eq_getElem (hlength ▸ hi))
      obtain ⟨⟨q, hkind, hmu⟩, hthree, -⟩ := Simulator.contactConstraint_eq_ok hmade'
      exact hmu ▸ hreports.inCone hmade.timeStep_pos (hcount.symm ▸ hi) hc hkind hthree

end

/-- Every impulse that a solve reports is such as its constraint can have. So in every context,
    whichever simulators have made and used it, the forces of the contacts that a simulator reports are
    in the cones of friction of the pairs that it reports. -/
theorem impulses_admissible :
    (∀ (p : Problem ℝ) (config : SolverConfig ℝ) (guess : Vec ℝ) (x : Solution ℝ), p.Built →
      p.solve config guess = .ok x → x.cost.isSome = true → ∀ k c, p.constraint? k = some c →
        c.Admissible p.timeStep (x.impulses.slice (p.equationStart k) c.numEquations)
          (x.velocities.slice (p.equationStart k) c.numEquations)) ∧
    ∀ (s : Simulator ℝ) (c d : Context ℝ) (r : ContactResults ℝ), s.Made → c.UsedBy Simulator.Made →
      c.run (s.evalResults c.toSetting) = (.ok r, d) →
      ∃ pairs, (d.run (s.evalContactPairs d.toSetting)).1 = .ok pairs ∧ r.numContacts = pairs.length ∧
        ∀ i pair, pairs[i]? = some pair → 0 ≤ r.normalForces i ∧
          √(r.tangentialForces (2 * i) ^ 2 + r.tangentialForces (2 * i + 1) ^ 2) ≤
            pair.friction * r.normalForces i := by
  refine ⟨fun p config guess x hp hx hstarted k c hc => hp.admissible hx hstarted hc, ?_⟩
  intro s c d r hmade hc hr
  have hvalid : s.validate c.toSetting = .ok () := Simulator.validate_of_evalStage (congrArg Prod.fst hr)
  obtain ⟨hsetting, hcoherent, hrest, hcurrent⟩ :=
    hc.coherent.learned hc.reachable.resting (learns_evalResults hmade) hr
  obtain ⟨pairs, hpairs, hcones⟩ := hcoherent.inCone hcurrent
  rw [← hsetting] at hvalid
  exact ⟨pairs, congrArg Prod.fst (hrest.run_evalStage hvalid hpairs rfl), hcones⟩

/-- The contact of the ball with the ground, as a constraint of its problem and in the results. -/
theorem impulses_admissible_ballOnGround :
    (∃ (p : Problem ℝ) (config : SolverConfig ℝ) (guess : Vec ℝ) (x : Solution ℝ)
    (c : Constraint ℝ), p.Built ∧ p.solve config guess = .ok x ∧ x.cost.isSome = true ∧
    p.constraint? 0 = some c ∧
      c.Admissible p.timeStep (x.impulses.slice (p.equationStart 0) c.numEquations)
        (x.velocities.slice (p.equationStart 0) c.numEquations)) ∧
    ∃ r d pairs, ballOnGround.defaultContext.run
      (ballOnGround.evalResults ballOnGround.defaultContext.toSetting) = (.ok r, d) ∧
      (d.run (ballOnGround.evalContactPairs d.toSetting)).1 = .ok pairs ∧ r.numContacts = pairs.length ∧
        ∀ i pair, pairs[i]? = some pair → 0 ≤ r.normalForces i ∧
          √(r.tangentialForces (2 * i) ^ 2 + r.tangentialForces (2 * i + 1) ^ 2) ≤
            pair.friction * r.normalForces i := by
  obtain ⟨y, d, hfollows, hpairs, hr⟩ := exists_results_ballOnGround
  obtain ⟨-, x, hreports⟩ := hfollows.reports
  obtain ⟨-, hlength, -⟩ := Simulator.assemble_eq_ok hfollows.problem
  have hfirst : 0 < y.pairs.length := by rw [hpairs]; exact one_pos
  obtain ⟨c, hc, -⟩ := (Simulator.contacts_of_assemble hfollows.problem).2 0 y.pairs[0] y.contacts[0]
    (List.getElem?_eq_getElem hfirst) (List.getElem?_eq_getElem (hlength ▸ hfirst))
  have hcost := Problem.cost_isSome_of_success hreports.solve hreports.success
  constructor
  · exact ⟨_, _, _, x, c, hreports.built, hreports.solve, hcost, hc,
      impulses_admissible.1 _ _ _ _ hreports.built hreports.solve hcost 0 c hc⟩
  · obtain ⟨pairs, hcones⟩ :=
      impulses_admissible.2 ballOnGround _ d y.results made_ballOnGround (.created made_ballOnGround) hr
    exact ⟨y.results, d, pairs, hr, hcones⟩

end CompliantContact
