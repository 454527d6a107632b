import CompliantContact.Proofs.Simulation.Results
import CompliantContact.Proofs.Solver.Turned

/-!
What turned contacts report.

A problem whose contacts are turned has the same results, but for the tangential forces and velocities
of the contacts, which turn with them.
-/

namespace CompliantContact

open Finset

theorem Constraint.Turned.isContact {q : Turn} {c d : Constraint ℝ} (h : c.Turned q d) :
    d.isContact = c.isContact := by
  rw [Constraint.isContact, Constraint.isContact, h.kind]

namespace Problem.Turned

variable {q : ℕ → Turn} {p p' : Problem ℝ}

theorem map_eq {β : Type} (h : Problem.Turned q p p') {f : Constraint ℝ → β}
    (hf : ∀ q c d, Constraint.Turned q c d → f d = f c) :
    p'.constraints.toList.map f = p.constraints.toList.map f := by
  refine map_eq_of_getElem? h.numConstraints fun k c d hc hd => hf _ _ _ (h.constraints k c d ?_ ?_)
  · rw [constraint?_eq, hc]
  · rw [constraint?_eq, hd]

theorem numContacts (h : Problem.Turned q p p') : p'.numContacts = p.numContacts := by
  have hcount : ∀ r : Problem ℝ, r.numContacts =
      (r.constraints.toList.map Constraint.isContact).countP id := fun r => by
    rw [Problem.numContacts, ← Array.countP_toList, List.countP_map]
    rfl
  rw [hcount, hcount, h.map_eq fun _ _ _ hturned => hturned.isContact]

end Problem.Turned

/-- The second solution is at the same velocities, with the impulses and velocities of its contacts turned. -/
structure Solution.Turned (q : ℕ → Turn) (n : ℕ) (x y : Solution ℝ) : Prop extends x.Alike y where
  impulses : ∀ k < n, ∀ m < 3, y.impulses (3 * k + m) = (q k).apply (fun m => x.impulses (3 * k + m)) m
  velocities : ∀ k < n, ∀ m < 3, y.velocities (3 * k + m) = (q k).apply (fun m => x.velocities (3 * k + m)) m

namespace Problem.Turned

variable {q : ℕ → Turn} {p p' : Problem ℝ} {config : SolverConfig ℝ} {guess : Vec ℝ} {x : Solution ℝ}

/-- The couplings of a contact in both systems. -/
theorem exists_couplings {s t : System ℝ} (h : System.Turned q p.timeStep s t) (hof : s.Of p)
    (hp : p.Built) {k : ℕ} (hk : k < p.numContacts) :
    ∃ c d, s.couplings[k]? = some c ∧ t.couplings[k]? = some d ∧ c.constraint.numEquations = 3 ∧
      d.constraint.numEquations = 3 := by
  have hlength : s.couplings.length = p.constraints.toList.length := by
    rw [← hof.constraints, List.length_map]
  have hlt : k < s.couplings.length := hlength ▸ hk.trans_le p.numContacts_le
  have hc := List.getElem?_eq_getElem hlt
  have hd := List.getElem?_eq_getElem (h.length.symm ▸ hlt)
  have hthree : (s.couplings[k]).constraint.numEquations = 3 := by
    refine hp.numEquations_eq_three (List.mem_of_getElem? (i := k) ?_)
    rw [List.getElem?_take_of_lt hk, ← hof.constraints, List.getElem?_map, hc, Option.map_some]
  exact ⟨_, _, hc, hd, hthree, (congrArg Vec.size (h.couplings k _ _ hc hd).constraint.g0).trans hthree⟩

theorem exists_solution (h : Problem.Turned q p p') (hp : p.Built) (hp' : p'.Built)
    (hx : p.solve config guess = .ok x) (hstarted : x.cost.isSome = true) :
    ∃ y, p'.solve config guess = .ok y ∧ Solution.Turned q p.numContacts x y := by
  obtain ⟨y, hy, halike⟩ := h.solve hp hx
  obtain ⟨s, hs, hreports⟩ := solve_eq_ok hx hstarted
  obtain ⟨t, ht, hreports'⟩ := solve_eq_ok hy (halike.cost ▸ hstarted)
  have hof := System.of_ofProblem? hs
  have hof' := System.of_ofProblem? ht
  obtain ⟨_, ht', hturned⟩ := h.exists_system hp hs
  obtain rfl := Option.some.inj (ht.symm.trans ht')
  refine ⟨y, hy, halike, fun k hk m hm => ?_, fun k hk m hm => ?_⟩
  · obtain ⟨c, d, hc, hd, hthree, hthree'⟩ := exists_couplings hturned hof hp hk
    have hfits : (q k).Fits 3 := .inl (by decide)
    rw [hreports'.impulses, hreports.impulses,
      hof'.impulses_head hp' hd (h.numContacts.symm ▸ hk) hthree' hm, halike.v]
    refine (((hturned.couplings k c d hc hd).projection
      (hturned.stepped c (List.mem_of_getElem? hc)) x.v).impulse m).trans ?_
    exact hfits.apply_congr hm fun n hn => (hof.impulses_head hp hc hk hthree hn).symm
  · obtain ⟨c, d, hc, hd, hthree, hthree'⟩ := exists_couplings hturned hof hp hk
    have hfits : (q k).Fits 3 := .inl (by decide)
    rw [hreports'.velocities, hreports.velocities,
      hof'.velocities_head hp' hd (h.numContacts.symm ▸ hk) hthree' hm, halike.v]
    refine ((hturned.couplings k c d hc hd).velocity
      (hturned.stepped c (List.mem_of_getElem? hc)) x.v m).trans ?_
    exact hfits.apply_congr hm fun n hn => (hof.velocities_head hp hc hk hthree hn).symm

end Problem.Turned

/-- The second results are the first ones with the tangential forces and velocities of each contact turned. -/
structure ContactResults.Turned (q : ℕ → Turn) (r r' : ContactResults ℝ) : Prop where
  velocities : r'.velocities = r.velocities
  normalForces : r'.normalForces = r.normalForces
  normalVelocities : r'.normalVelocities = r.normalVelocities
  contactForces : r'.contactForces = r.contactForces
  forces : ∀ i < r.numContacts, ∀ n < 2,
    r'.tangentialForces (2 * i + n) = (q i).apply (fun n => r.tangentialForces (2 * i + n)) n
  slips : ∀ i < r.numContacts, ∀ n < 2,
    r'.tangentialVelocities (2 * i + n) = (q i).apply (fun n => r.tangentialVelocities (2 * i + n)) n

namespace ContactResults

variable {q : ℕ → Turn} {p p' : Problem ℝ} {config : SolverConfig ℝ} {guess : Vec ℝ} {x : Solution ℝ}
    {r : ContactResults ℝ}

theorem of_getElem?_contacts {p : Problem ℝ} {c : Constraint ℝ} {k i : ℕ}
    (h : (p.constraints.toList.take p.numContacts).zipIdx[k]? = some (c, i)) :
    i = k ∧ k < p.numContacts ∧ p.constraint? k = some c := by
  rw [List.getElem?_zipIdx, List.getElem?_take] at h
  split_ifs at h with hlt
  · obtain ⟨d, hd, hpair⟩ := Option.map_eq_some_iff.mp h
    cases hpair
    exact ⟨Nat.zero_add k, hlt, (p.constraint?_eq k).trans hd⟩
  · cases h

/-- The force of a contact along a velocity does not depend on its axes. -/
theorem contactForce_turned {y : Solution ℝ} {k : ℕ} {c d : Constraint ℝ} (h : Problem.Turned q p p')
    (hp : p.Built)
    (hturned : Solution.Turned q p.numContacts x y) (hk : k < p.numContacts) (hc : p.constraint? k = some c)
    (hd : p'.constraint? k = some d) (j : ℕ) :
    contactForce p' p'.timeStep y.impulses j (d, k) = contactForce p p.timeStep x.impulses j (c, k) := by
  have hmade : c.Made := hp.valid.made c (List.mem_of_getElem? ((p.constraint?_eq k).symm.trans hc))
  have hentry : ∀ n, p'.jacobianEntry d n j = (q k).apply (fun n => p.jacobianEntry c n j) n := by
    intro n
    rw [← p.jacobianEntry_turned (h.constraints k c d hc hd) hmade, h.eq]
    rfl
  have hfits : (q k).Fits 3 := .inl (by decide)
  rw [contactForce, contactForce, h.timeStep, ← hfits.sum_mul (fun n => p.jacobianEntry c n j)
    fun n => x.impulses (3 * k + n)]
  refine congrArg _ (sum_congr rfl fun n hn => ?_)
  rw [hentry, hturned.impulses k hk n (mem_range.mp hn)]

/-- The forces of the contacts along the velocities do not depend on their axes. -/
theorem contactForces_turned {y : Solution ℝ} (h : Problem.Turned q p p') (hp : p.Built)
    (hturned : Solution.Turned q p.numContacts x y) :
    (p'.constraints.toList.take p'.numContacts).zipIdx.foldl
      (addContactForces p' p'.timeStep y.impulses) (.zeros p'.numVelocities) =
      (p.constraints.toList.take p.numContacts).zipIdx.foldl (addContactForces p p.timeStep x.impulses)
      (.zeros p.numVelocities) := by
  have hsize : p'.numVelocities = p.numVelocities := congrArg Vec.size h.freeVelocities
  obtain ⟨hsize₁, hentry₁⟩ := foldl_addContactForces p' p'.timeStep y.impulses
    (p'.constraints.toList.take p'.numContacts).zipIdx (.zeros p'.numVelocities)
  obtain ⟨hsize₂, hentry₂⟩ := foldl_addContactForces p p.timeStep x.impulses
    (p.constraints.toList.take p.numContacts).zipIdx (.zeros p.numVelocities)
  refine Vec.ext (by rw [hsize₁, hsize₂, Vec.size_zeros, Vec.size_zeros, hsize]) fun j hj => ?_
  have hj : j < p.numVelocities := by rwa [hsize₁, Vec.size_zeros, hsize] at hj
  rw [hentry₁ j (by rwa [Vec.size_zeros, hsize]), hentry₂ j (by rwa [Vec.size_zeros]), Vec.get_zeros,
    Vec.get_zeros]
  congr 2
  refine map_eq_of_getElem? ?_ fun k contact contact' hcontact hcontact' => ?_
  · simp only [List.length_zipIdx, List.length_take, h.numContacts]
    rw [show p'.constraints.toList.length = p.constraints.toList.length from h.numConstraints]
  · obtain ⟨c, i⟩ := contact
    obtain ⟨d, i'⟩ := contact'
    obtain ⟨rfl, hk, hc⟩ := of_getElem?_contacts hcontact
    obtain ⟨rfl, -, hd⟩ := of_getElem?_contacts hcontact'
    exact contactForce_turned h hp hturned hk hc hd j

/-- A problem whose contacts are turned has results as well, and they turn. -/
theorem Reports.exists_turned (hr : r.Reports p config guess x p.timeStep) (h : Problem.Turned q p p')
    (hp' : p'.Built) :
    ∃ y r', r'.Reports p' config guess y p'.timeStep ∧ r.Turned q r' := by
  obtain ⟨y, hy, hturned⟩ :=
    h.exists_solution hr.built hp' hr.solve (Problem.cost_isSome_of_success hr.solve hr.success)
  have hsuccess : y.status = .success := hturned.status.trans hr.success
  obtain ⟨r', hr', -⟩ := hp'.exists_contactResults hy hsuccess p'.timeStep
  have hreports : r'.Reports p' config guess y p'.timeStep := ⟨hp', hy, hsuccess, hr'⟩
  have hcount : r.numContacts = p.numContacts := by rw [numContacts, hr.eq, Vec.size_ofFn]
  have hfits : ∀ i, (q i).Fits 2 := fun i => .inl le_rfl
  refine ⟨y, r', hreports, ?_, ?_, ?_, ?_, fun i hi n hn => ?_, fun i hi n hn => ?_⟩
  · rw [hreports.eq, hr.eq]
    exact hturned.v
  · rw [hreports.eq, hr.eq]
    refine Vec.ext (by rw [Vec.size_ofFn, Vec.size_ofFn, h.numContacts]) fun i hi => ?_
    have hi : i < p.numContacts := by rwa [Vec.size_ofFn, h.numContacts] at hi
    rw [Vec.get_ofFn_of_lt (h.numContacts ▸ hi), Vec.get_ofFn_of_lt hi, hturned.impulses i hi 2 (by decide),
      Turn.apply_of_le _ _ le_rfl, h.timeStep]
  · rw [hreports.eq, hr.eq]
    refine Vec.ext (by rw [Vec.size_ofFn, Vec.size_ofFn, h.numContacts]) fun i hi => ?_
    have hi : i < p.numContacts := by rwa [Vec.size_ofFn, h.numContacts] at hi
    rw [Vec.get_ofFn_of_lt (h.numContacts ▸ hi), Vec.get_ofFn_of_lt hi, hturned.velocities i hi 2 (by decide),
      Turn.apply_of_le _ _ le_rfl]
  · rw [hreports.eq, hr.eq]
    exact contactForces_turned h hr.built hturned
  · have hi : i < p.numContacts := hcount ▸ hi
    rw [(hreports.tangential (h.numContacts.symm ▸ hi) hn).1, hturned.impulses i hi n (by omega),
      h.timeStep, div_eq_mul_inv, ← Turn.apply_mul]
    exact (hfits i).apply_congr hn fun m hm => by rw [(hr.tangential hi hm).1, div_eq_mul_inv]
  · have hi : i < p.numContacts := hcount ▸ hi
    rw [(hreports.tangential (h.numContacts.symm ▸ hi) hn).2, hturned.velocities i hi n (by omega)]
    exact (hfits i).apply_congr hn fun m hm => (hr.tangential hi hm).2.symm

end ContactResults

end CompliantContact
