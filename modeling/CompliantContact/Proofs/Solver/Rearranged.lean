import CompliantContact.Proofs.Solver.Turned

/-!
Rearranged problems.

Two problems may have the same constraints in another order, with the tangential equations of each
contact along axes of its own and the blocks of each constraint in either order. The systems are
equivalent: cost, forces and curvature are sums over the constraints, in which each constraint adds the
same wherever it stands. So both solves take the same course, and the impulses and the relative
velocities of a constraint are found at its new place, turned.
-/

namespace CompliantContact

open Finset

/-- Members that are looked up at distinct places that cover all are the members in another order. -/
theorem perm_ofFn_get {β : Type} (xs : List β) {n : ℕ} (place : Fin n ≃ Fin xs.length) :
    (List.ofFn fun k => xs.get (place k)).Perm xs := by
  obtain rfl : n = xs.length := by simpa using Fintype.card_congr place
  have hperm := Equiv.Perm.ofFn_comp_perm place xs.get
  rw [List.ofFn_get] at hperm
  exact hperm

theorem Mat.add_right_comm (a b c : Mat ℝ) : a + b + c = a + c + b := by
  have hentry : ∀ b c : Mat ℝ, ∀ i < a.rows, ∀ j < a.cols, (a + b + c) i j = a i j + b i j + c i j :=
      fun b c i hi j hj =>
    (get_add (m := a + b) hi hj).trans (congrArg (· + c i j) (get_add hi hj))
  refine Mat.ext (by simp only [rows_add]) (by simp only [cols_add]) fun i hi j hj => ?_
  rw [rows_add, rows_add] at hi
  rw [cols_add, cols_add] at hj
  rw [hentry b c i hi j hj, hentry c b i hi j hj, add_assoc, add_comm (b i j), ← add_assoc]

namespace System

variable {s t u : System ℝ}

theorem Equivalent.trans (h : s.Equivalent t) (h' : t.Equivalent u) : s.Equivalent u where
  dynamics := h'.dynamics.trans h.dynamics
  freeVelocities := h'.freeVelocities.trans h.freeVelocities
  scaling := h'.scaling.trans h.scaling
  cost v := (h'.cost v).trans (h.cost v)
  forces v := (h'.forces v).trans (h.forces v)
  curvature v := (h'.curvature v).trans (h.curvature v)

/-- The order of the couplings does not count. -/
theorem equivalent_of_perm {couplings : List (Coupling ℝ)} (h : couplings.Perm s.couplings) :
    s.Equivalent { s with couplings := couplings } where
  dynamics := rfl
  freeVelocities := rfl
  scaling := rfl
  cost v := by
    rw [cost_evaluate, cost_evaluate]
    exact congrArg (· + _) (h.map _).sum_eq
  forces v := by
    rw [impulseForces, impulseForces]
    congr 1
    funext j
    rw [listSum_flatMap s v fun c r => c.rowForces r j,
      listSum_flatMap { s with couplings := couplings } v fun c r => c.rowForces r j]
    exact (h.map _).sum_eq
  curvature v := by
    rw [curvature_evaluate, curvature_evaluate]
    have : RightCommutative (α := Mat ℝ) (· + ·) := ⟨Mat.add_right_comm⟩
    exact (h.map _).foldl_eq _

end System

/-- The second problem has the constraints of the first one at other places, each of them turned. -/
structure Problem.Rearranged (p p' : Problem ℝ) (place : Fin p'.numConstraints ≃ Fin p.numConstraints)
    (q : ℕ → Turn) : Prop where
  timeStep : p'.timeStep = p.timeStep
  dynamics : p'.dynamics = p.dynamics
  freeVelocities : p'.freeVelocities = p.freeVelocities
  constraints : ∀ (k : Fin p'.numConstraints) (c d : Constraint ℝ), p.constraint? (place k) = some c →
    p'.constraint? k = some d → c.Turned (q k) d

/-- Two solves that took the same course, with the equations of each constraint at its place, turned. -/
structure Solution.Rearranged (p p' : Problem ℝ) (place : Fin p'.numConstraints ≃ Fin p.numConstraints)
    (q : ℕ → Turn) (x y : Solution ℝ) : Prop where
  alike : x.Alike y
  sizes : x.impulses.size = p.numEquations ∧ y.impulses.size = p.numEquations ∧
    x.velocities.size = p.numEquations ∧ y.velocities.size = p.numEquations
  impulses : ∀ (k : Fin p'.numConstraints) c, p.constraint? (place k) = some c → ∀ i,
    y.impulses.slice (p'.equationStart k) c.numEquations i =
      (q k).apply (x.impulses.slice (p.equationStart (place k)) c.numEquations) i
  velocities : ∀ (k : Fin p'.numConstraints) c, p.constraint? (place k) = some c → ∀ i,
    y.velocities.slice (p'.equationStart k) c.numEquations i =
      (q k).apply (x.velocities.slice (p.equationStart (place k)) c.numEquations) i

/-! ### The couplings at their new places -/

namespace System

variable {p p' : Problem ℝ} {s t : System ℝ} {place : Fin p'.numConstraints ≃ Fin p.numConstraints}
    {q : ℕ → Turn}

/-- The coupling at a place of the second system is the one of the first system that belongs there, turned. -/
def Places (place : Fin p'.numConstraints ≃ Fin p.numConstraints) (q : ℕ → Turn) (s t : System ℝ) : Prop :=
  ∀ (k : Fin p'.numConstraints) (c d : Coupling ℝ), s.couplings[(place k).val]? = some c →
  t.couplings[k.val]? = some d →
    c.Turned (q k) d

theorem Of.length_couplings (h : s.Of p) : s.couplings.length = p.numConstraints := by
  rw [← List.length_map Coupling.constraint, h.constraints]
  rfl

theorem Of.numEquations_eq (h : s.Of p) : total (s.couplings.map fun c => c.constraint.numEquations) =
    p.numEquations := by
  rw [Problem.numEquations, ← h.constraints, List.map_map]
  rfl

/-- Every coupling of the second system comes from one of the first. -/
theorem Places.exists_source (h : Places place q s t) (hs : s.Of p) (ht : t.Of p') {d : Coupling ℝ}
    (hd : d ∈ t.couplings) :
    ∃ (k : Fin p'.numConstraints) (c : Coupling ℝ), c ∈ s.couplings ∧ s.couplings[(place k).val]? = some c ∧
      t.couplings[k.val]? = some d ∧ c.Turned (q k) d := by
  obtain ⟨k, hk, rfl⟩ := List.getElem_of_mem hd
  let place' : Fin p'.numConstraints := ⟨k, hk.trans_eq ht.length_couplings⟩
  have hsource : (place place').val < s.couplings.length :=
    (place place').isLt.trans_eq hs.length_couplings.symm
  have hc := List.getElem?_eq_getElem hsource
  have hd := List.getElem?_eq_getElem hk
  exact ⟨place', _, List.getElem_mem hsource, hc, hd, h place' _ _ hc hd⟩

variable {f : Coupling ℝ → Vec ℝ}

/-- What turns with its coupling has the size of the constraint in both systems. -/
theorem Places.sizes (h : Places place q s t) (hs : s.Of p) (ht : t.Of p')
    (hf : ∀ c ∈ s.couplings, (f c).size = c.constraint.numEquations)
    (hturned : ∀ q c d, c ∈ s.couplings → Coupling.Turned q c d → (f d).size = (f c).size) :
    ∀ d ∈ t.couplings, (f d).size = d.constraint.numEquations := by
  intro d hd
  obtain ⟨k, c, hc, -, -, hcd⟩ := h.exists_source hs ht hd
  rw [hturned _ c d hc hcd, hf c hc]
  exact (congrArg Vec.size hcd.constraint.g0).symm

theorem Of.size_concat (hs : s.Of p) (hf : ∀ c ∈ s.couplings, (f c).size = c.constraint.numEquations) :
    (Vec.concat (s.couplings.map f)).size = p.numEquations := by
  rw [Vec.size_concat, List.map_map, ← hs.numEquations_eq]
  exact congrArg total (List.map_congr_left hf)

/-- The part of a constraint is the part that it has in the first system, turned. -/
theorem Places.slice (h : Places place q s t) (hs : s.Of p) (ht : t.Of p')
    (hf : ∀ c ∈ s.couplings, (f c).size = c.constraint.numEquations)
    (hsizes : ∀ d ∈ t.couplings, (f d).size = d.constraint.numEquations)
    (hturned : ∀ q c d, c ∈ s.couplings → Coupling.Turned q c d → ∀ i, f d i = q.apply (f c) i)
    (k : Fin p'.numConstraints) {c : Constraint ℝ} (hc : p.constraint? (place k) = some c) (i : ℕ) :
    (Vec.concat (t.couplings.map f)).slice (p'.equationStart k) c.numEquations i =
      (q k).apply ((Vec.concat (s.couplings.map f)).slice (p.equationStart (place k)) c.numEquations) i := by
  obtain ⟨c, hsource, rfl⟩ := hs.exists_coupling hc
  have hk : k.val < t.couplings.length := ht.length_couplings.symm ▸ k.isLt
  have hd := List.getElem?_eq_getElem hk
  have hcd := h k c _ hsource hd
  have hn : c.constraint.numEquations = t.couplings[k.val].constraint.numEquations :=
    (congrArg Vec.size hcd.constraint.g0).symm
  rw [hs.slice hf hsource, hn, ht.slice hsizes hd]
  exact hturned _ _ _ (List.mem_of_getElem? hsource) hcd i

end System

namespace Problem.Rearranged

variable {p p' : Problem ℝ} {place : Fin p'.numConstraints ≃ Fin p.numConstraints} {q : ℕ → Turn}
  {s : System ℝ} {config : SolverConfig ℝ} {guess : Vec ℝ} {x : Solution ℝ}

/-- The constraints of the first problem in the order of the second. -/
def sources (place : Fin p'.numConstraints ≃ Fin p.numConstraints) : List (Constraint ℝ) :=
  List.ofFn fun k => p.constraints.toList.get (place k)

theorem sources_perm (place : Fin p'.numConstraints ≃ Fin p.numConstraints) :
    (sources place).Perm p.constraints.toList :=
  perm_ofFn_get p.constraints.toList place

theorem length_sources (place : Fin p'.numConstraints ≃ Fin p.numConstraints) :
    p'.constraints.toList.length = (sources place).length := (List.length_ofFn ..).symm

theorem turned_sources (h : Rearranged p p' place q) {k : ℕ} {c d : Constraint ℝ}
    (hc : (sources place)[k]? = some c)
    (hd : p'.constraints.toList[k]? = some d) : c.Turned (q k) d := by
  rw [sources, List.getElem?_ofFn] at hc
  split at hc
  · rename_i hk
    refine h.constraints ⟨k, hk⟩ c d ?_ ((constraint?_eq p' k).trans hd)
    rw [← hc, constraint?_eq]
    exact List.getElem?_eq_getElem _
  · cases hc

theorem numEquations_eq (h : Rearranged p p' place q) : p'.numEquations = p.numEquations := by
  have hsources : p'.constraints.toList.map Constraint.numEquations =
    (sources place).map Constraint.numEquations :=
    map_eq_of_getElem? (length_sources place) fun _ _ _ hc hd => congrArg Vec.size (h.turned_sources hc hd).g0
  have hperm := (sources_perm place).map Constraint.numEquations
  rw [numEquations, hsources]
  exact hperm.sum_eq

theorem exists_system (h : Rearranged p p' place q) (hp : p.Built) (hs : System.ofProblem? p = some s) :
    ∃ t, System.ofProblem? p' = some t ∧ s.Equivalent t ∧ System.Places place q s t := by
  have hstepped := (System.of_ofProblem? hs).stepped hp
  obtain ⟨factors, hfactors, rfl⟩ := System.ofProblem?_eq_some hs
  have hturned : ∀ {q c d}, Constraint.Turned q c d → c ∈ p.constraints.toList →
      (Coupling.ofConstraint p factors.toArray c).Turned q
        (Coupling.ofConstraint p factors.toArray d) := fun hcd hc =>
    Coupling.turned_ofConstraint p factors.toArray hcd (hp.valid.made _ hc)
  have hsources := fun k c d => h.turned_sources (k := k) (c := c) (d := d)
  have hlength := length_sources place
  have hconstraints := h.constraints
  obtain ⟨dt, dynamics, free, constraints⟩ := p'
  obtain ⟨rfl, rfl, rfl, -⟩ := h
  have ht : System.ofProblem? ⟨p.timeStep, p.dynamics, p.freeVelocities, constraints⟩ = some {
      dynamics := p.dynamicsMatrix
      freeVelocities := p.freeVelocities
      scaling := p.dynamicsMatrix.diagonal.map fun x => 1 / Scalar.sqrt x
      couplings := constraints.toList.map (Coupling.ofConstraint p factors.toArray) } := by
    rw [System.ofProblem?, hfactors]
    rfl
  -- Between the two stand the couplings of the first problem, in the order of the second.
  have hperm := (sources_perm place).map (Coupling.ofConstraint p factors.toArray)
  refine ⟨_, ht, (System.equivalent_of_perm hperm).trans
    (show System.Turned q p.timeStep _ _ from ?_).equivalent, ?_⟩
  · refine ⟨rfl, rfl, rfl, ?_, fun c hc => hstepped c (hperm.subset hc), fun k c d hc hd => ?_⟩
    · rw [List.length_map, List.length_map]
      exact hlength
    · simp only [List.getElem?_map, Option.map_eq_some_iff] at hc hd
      obtain ⟨c, hc, rfl⟩ := hc
      obtain ⟨d, hd, rfl⟩ := hd
      exact hturned (hsources k c d hc hd) ((sources_perm place).subset (List.mem_of_getElem? hc))
  · intro k c d hc hd
    simp only [List.getElem?_map, Option.map_eq_some_iff] at hc hd
    obtain ⟨c, hc, rfl⟩ := hc
    obtain ⟨d, hd, rfl⟩ := hd
    refine hturned (hconstraints k c d ?_ ?_) (List.mem_of_getElem? hc)
    · rw [constraint?_eq, hc]
    · rw [constraint?_eq, hd]

/-- Both problems have a system or neither has. -/
theorem ofProblem?_eq_none (h : Rearranged p p' place q) (hnone : System.ofProblem? p = none) :
    System.ofProblem? p' = none := by
  cases ht : System.ofProblem? p' with
  | none => rfl
  | some t =>
    obtain ⟨factors, hfactors, -⟩ := System.ofProblem?_eq_some ht
    rw [h.dynamics] at hfactors
    rw [System.ofProblem?, hfactors] at hnone
    cases hnone

theorem numVelocities_eq (h : Rearranged p p' place q) : p'.numVelocities = p.numVelocities :=
  congrArg Vec.size h.freeVelocities

theorem exists_solution (h : Rearranged p p' place q) (hp : p.Built) (hx : p.solve config guess = .ok x) :
    ∃ y, p'.solve config guess = .ok y ∧ x.Alike y := by
  refine Problem.solve_alike h.numVelocities_eq h.ofProblem?_eq_none (fun s hs => ?_) hx
  obtain ⟨t, ht, hequivalent, -⟩ := h.exists_system hp hs
  exact ⟨congrArg Vec.size (System.of_ofProblem? hs).freeVelocities, t, ht, hequivalent⟩

end Problem.Rearranged

/-! ### The solutions -/

/-- A solve that never started gives no impulses and no relative velocities. -/
theorem Problem.eq_zeros_of_cost_none {p : Problem ℝ} {config : SolverConfig ℝ} {guess : Vec ℝ}
    {x : Solution ℝ} (h : p.solve config guess = .ok x) (hcost : x.cost.isSome = false) :
    x.impulses = .zeros p.numEquations ∧ x.velocities = .zeros p.numEquations := by
  have hguess := size_of_solve h
  cases hs : System.ofProblem? p with
  | none =>
    rw [solve_eq_failed hs hguess] at h
    cases h
    exact ⟨rfl, rfl⟩
  | some s =>
    rw [solve_eq_newton hs hguess] at h
    cases h
    cases hcost

namespace Problem.Rearranged

variable {p p' : Problem ℝ} {place : Fin p'.numConstraints ≃ Fin p.numConstraints} {q : ℕ → Turn}
  {config : SolverConfig ℝ} {guess : Vec ℝ} {x y : Solution ℝ}

theorem solve_eq_error (h : Rearranged p p' place q) {f : Failure ℝ} (hf : p.solve config guess = .error f) :
    p'.solve config guess = .error f := by
  cases hguess : requireSize "velocity guess" p.numVelocities guess.size with
  | error g =>
    rw [solve, hguess] at hf
    rw [solve, h.numVelocities_eq, hguess]
    exact hf
  | ok =>
    obtain ⟨x, hx⟩ := p.exists_solve config guess (requireSize_eq_ok_iff.mp hguess)
    rw [hx] at hf
    cases hf

/-- What two solves that started report of their last iterates. -/
theorem rearranged_of_started (h : Rearranged p p' place q) (hp : p.Built) (hx : p.solve config guess = .ok x)
    (hy : p'.solve config guess = .ok y) (halike : x.Alike y) (hstarted : x.cost.isSome = true) :
    Solution.Rearranged p p' place q x y := by
  obtain ⟨s, hs, hreports⟩ := solve_eq_ok hx hstarted
  obtain ⟨t, ht, hreports'⟩ := solve_eq_ok hy (halike.cost ▸ hstarted)
  obtain ⟨_, ht', -, hplaces⟩ := h.exists_system hp hs
  obtain rfl := Option.some_injective _ (ht.symm.trans ht')
  have hof := System.of_ofProblem? hs
  have hof' := System.of_ofProblem? ht
  have hstepped := hof.stepped hp
  have himpulses := hof.sizes_impulse hp x.v
  have hvelocities := hof.sizes_velocity hp x.v
  have hturned := fun q c d hc hcd =>
    (Coupling.Turned.projection (q := q) (c := c) (d := d) hcd (hstepped c hc) x.v).impulse
  have hturned' := fun q c d hc hcd => Coupling.Turned.velocity (q := q) (c := c) (d :=
    d) hcd (hstepped c hc) x.v
  have himpulses' := hplaces.sizes hof hof' himpulses fun q c d hc hcd =>
    (hcd.projection (hstepped c hc) x.v).size
  have hvelocities' := hplaces.sizes hof hof' hvelocities fun q c d _ hcd => by
    rw [Mat.size_mulVec, Mat.size_mulVec, hcd.jacobian]
    rfl
  refine ⟨halike, ?_, fun k c hc i => ?_, fun k c hc i => ?_⟩
  · rw [hreports.impulses, hreports'.impulses, hreports.velocities, hreports'.velocities, halike.v,
      hof.mulVec_jacobian, hof'.mulVec_jacobian, ← h.numEquations_eq]
    refine ⟨(hof.size_concat himpulses).trans h.numEquations_eq.symm, hof'.size_concat himpulses',
      (hof.size_concat hvelocities).trans h.numEquations_eq.symm, hof'.size_concat hvelocities'⟩
  · rw [hreports.impulses, hreports'.impulses, halike.v]
    exact hplaces.slice hof hof' himpulses himpulses' hturned k hc i
  · rw [hreports.velocities, hreports'.velocities, halike.v, hof.mulVec_jacobian, hof'.mulVec_jacobian]
    exact hplaces.slice hof hof' hvelocities hvelocities' hturned' k hc i

theorem rearranged_of_not_started (h : Rearranged p p' place q) (hx : p.solve config guess = .ok x)
    (hy : p'.solve config guess = .ok y) (halike : x.Alike y) (hfailed : x.cost.isSome = false) :
    Solution.Rearranged p p' place q x y := by
  obtain ⟨himpulses, hvelocities⟩ := eq_zeros_of_cost_none hx hfailed
  obtain ⟨himpulses', hvelocities'⟩ := eq_zeros_of_cost_none hy (halike.cost ▸ hfailed)
  rw [h.numEquations_eq] at himpulses' hvelocities'
  have hzero : ∀ m start n, (Vec.zeros m : Vec ℝ).slice start n = .zeros n := fun m start n =>
    Vec.ext (by rw [Vec.slice, Vec.size_ofFn, Vec.size_zeros]) fun i hi => by
      rw [Vec.slice, Vec.size_ofFn] at hi
      rw [Vec.slice, Vec.get_ofFn_of_lt hi, Vec.get_zeros, Vec.get_zeros]
  have hturn : ∀ (q : Turn) n i, q.apply (Vec.zeros n : Vec ℝ) i = 0 := fun q n i => by
    have hget : (Vec.zeros n : Vec ℝ).get = 0 := funext (Vec.get_zeros n)
    rw [hget, map_zero]
    rfl
  refine ⟨halike, ?_, fun k c hc i => ?_, fun k c hc i => ?_⟩
  · rw [himpulses, himpulses', hvelocities, hvelocities']
    exact ⟨Vec.size_zeros _, Vec.size_zeros _, Vec.size_zeros _, Vec.size_zeros _⟩
  · rw [himpulses, himpulses', hzero, hzero, hturn, Vec.get_zeros]
  · rw [hvelocities, hvelocities', hzero, hzero, hturn, Vec.get_zeros]

end Problem.Rearranged

/-- A solve takes the same course whatever the axes of the contacts, the order of the constraints and
    the order of their blocks: it fails alike, or it gives the same velocities after the same work, and
    what it says of a constraint stands at the new place of that, turned. -/
theorem solve_rearranged {p p' : Problem ℝ} {place : Fin p'.numConstraints ≃ Fin p.numConstraints}
    {q : ℕ → Turn}
    (hp : p.Built) (h : p.Rearranged p' place q) (config : SolverConfig ℝ) (guess : Vec ℝ) :
    (∀ f, p.solve config guess = .error f → p'.solve config guess = .error f) ∧
      ∀ x, p.solve config guess = .ok x →
        ∃ y, p'.solve config guess = .ok y ∧ Solution.Rearranged p p' place q x y := by
  refine ⟨fun f hf => h.solve_eq_error hf, fun x hx => ?_⟩
  obtain ⟨y, hy, halike⟩ := h.exists_solution hp hx
  refine ⟨y, hy, ?_⟩
  cases hstarted : x.cost.isSome with
  | true => exact h.rearranged_of_started hp hx hy halike hstarted
  | false => exact h.rearranged_of_not_started hx hy halike hstarted

/-! ### Two contacts that change places -/

noncomputable section

def quarter : Turn := ⟨!![0, -1; 1, 0], by
  rw [Matrix.mem_orthogonalGroup_iff]
  ext i j
  fin_cases i <;> fin_cases j <;> simp [Matrix.mul_apply, Fin.sum_univ_two]⟩

/-- The part of a contact that is along the single velocity of a tree. -/
def part (tree : TreeIndex) (x : ℝ) : JacobianBlock ℝ := ⟨tree, .ofFn 3 1 fun i _ => x * (i + 1)⟩

/-- A contact between two trees. -/
def between (first second : JacobianBlock ℝ) : Constraint ℝ :=
  ⟨.cone ⟨1, 1, 0, 1, 1⟩, .ofList [0, 0, -1], first, some second⟩

def beside : Constraint ℝ := ⟨.cone ⟨1, 1, 0, 1, 1⟩, .ofList [0, 0, -1], part ⟨1⟩ 1, none⟩

def twoContacts : Problem ℝ :=
  ⟨1, #[.ofFn 1 1 fun _ _ => 1, .ofFn 1 1 fun _ _ => 1], .ofList [0, 1],
    #[between (part ⟨0⟩ 1) (part ⟨1⟩ (-1)), beside]⟩

/-- The contact between the trees comes second, a quarter further and with its blocks exchanged. -/
def twoContacts' : Problem ℝ :=
  { twoContacts with
    constraints := #[beside, between (quarter.block (part ⟨1⟩ (-1))) (quarter.block (part ⟨0⟩ 1))] }

def exchange : Fin twoContacts'.numConstraints ≃ Fin twoContacts.numConstraints := Fin.revPerm (n := 2)

def quarterOfSecond (k : ℕ) : Turn := if k = 1 then quarter else 1

end

open Outcome in
theorem built_twoContacts : twoContacts.Built := by
  have hnew : Problem.new 1 twoContacts.dynamics.toList twoContacts.freeVelocities =
      .ok { twoContacts with constraints := #[] } := by
    rw [Problem.new, require_bind_eq_ok_iff]
    exact ⟨one_pos, rfl⟩
  have hbetween : Constraint.cone [part ⟨0⟩ 1, part ⟨1⟩ (-1)] (-1) ⟨1, 1, 0, 1, 1⟩ =
      .ok (between (part ⟨0⟩ 1) (part ⟨1⟩ (-1))) := Constraint.cone_unit rfl
  have hbeside : Constraint.cone [part ⟨1⟩ 1] (-1) ⟨1, 1, 0, 1, 1⟩ = .ok beside := Constraint.cone_unit rfl
  have hfits : ∀ cs (t : TreeIndex) x, t.val < 2 →
      Problem.Fits { twoContacts with constraints := cs } (part t x) := by
    rintro cs ⟨n⟩ x hn
    refine ⟨hn, ?_⟩
    obtain rfl | rfl : n = 0 ∨ n = 1 := Nat.le_one_iff_eq_zero_or_eq_one.mp (Nat.le_of_lt_succ hn)
    · rfl
    · rfl
  have hfirst := Problem.addConstraint_of_fits (p := { twoContacts with constraints := #[] })
    (c := between (part ⟨0⟩ 1) (part ⟨1⟩ (-1))) (fun _ => rfl) fun b hb => by
      rcases List.mem_pair.mp hb with rfl | rfl
      · exact hfits _ _ _ (by decide)
      · exact hfits _ _ _ (by decide)
  have hsecond := Problem.addConstraint_of_fits (c := beside)
    (p := { twoContacts with constraints := #[between (part ⟨0⟩ 1) (part ⟨1⟩ (-1))] })
    (fun _ => rfl) fun b hb => by
      rw [List.mem_singleton.mp hb]
      exact hfits _ _ _ (by decide)
  exact .addConstraint (.addConstraint (.new hnew) (.cone hbetween) hfirst) (.cone hbeside) hsecond

theorem rearranged_twoContacts : twoContacts.Rearranged twoContacts' exchange quarterOfSecond := by
  refine ⟨rfl, rfl, rfl, fun k c d hc hd => ?_⟩
  match k with
  | ⟨0, _⟩ =>
    have hc : some beside = some c := hc
    obtain rfl : beside = c := Option.some_injective _ hc
    obtain rfl : beside = d := Option.some_injective _ hd
    exact Constraint.Turned.refl beside
  | ⟨1, _⟩ =>
    obtain rfl : between (part ⟨0⟩ 1) (part ⟨1⟩ (-1)) = c := Option.some_injective _ hc
    obtain rfl : between (quarter.block (part ⟨1⟩ (-1))) (quarter.block (part ⟨0⟩ 1)) = d :=
      Option.some_injective _ hd
    exact ⟨rfl, rfl, .swap .., .inl rfl⟩

theorem solve_rearranged_twoContacts :
    twoContacts.Built ∧ twoContacts.Rearranged twoContacts' exchange quarterOfSecond ∧
      ∃ x y, twoContacts.solve .standard (.ofList [0, 0]) = .ok x ∧
      twoContacts'.solve .standard (.ofList [0, 0]) = .ok y ∧
        Solution.Rearranged twoContacts twoContacts' exchange quarterOfSecond x y := by
  obtain ⟨x, hx⟩ := twoContacts.exists_solve .standard (.ofList [0, 0]) rfl
  obtain ⟨y, hy, hrearranged⟩ :=
    (solve_rearranged built_twoContacts rearranged_twoContacts .standard (.ofList [0, 0])).2 x hx
  exact ⟨built_twoContacts, rearranged_twoContacts, x, y, hx, hy, hrearranged⟩

end CompliantContact
