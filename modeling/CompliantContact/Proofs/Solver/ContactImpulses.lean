import CompliantContact.Proofs.Problem.Shape
import CompliantContact.Proofs.Solver.Admissible
import CompliantContact.Proofs.Solver.Solution
import CompliantContact.Simulation.Results

/-!
The impulses of the constraints among all impulses, and the forces of the contacts.

Each constraint has a slice of the impulses, and three equations for each contact head all others. So
the forces that the contacts report are the part of the transposed Jacobian for the head, and the rest
of the gradient is that of limits and couplers.
-/

namespace CompliantContact

open Finset

/-! ### Slices -/

theorem Coupling.Regular.size_impulse {c : Coupling ℝ} (h : c.Regular) (v : Vec ℝ) :
    (c.impulse v).size = c.constraint.numEquations :=
  Constraint.size_project h.inRange ((c.size_unconstrained v).trans h.rows)

namespace System.Of

variable {p : Problem ℝ} {s : System ℝ} {f : Coupling ℝ → Vec ℝ} {c : Coupling ℝ} {k : ℕ}

theorem stepped (h : s.Of p) (hp : p.Built) : ∀ c ∈ s.couplings, c.Stepped p.timeStep := by
  intro c hc
  obtain ⟨factors, hcouplings⟩ := h.couplings
  rw [hcouplings] at hc
  obtain ⟨constraint, hmem, rfl⟩ := List.mem_map.mp hc
  exact Coupling.stepped_ofConstraint factors hp.valid.timeStep_pos (hp.valid.made constraint hmem)

theorem sizes_impulse (h : s.Of p) (hp : p.Built) (v : Vec ℝ) :
    ∀ c ∈ s.couplings, (c.impulse v).size = c.constraint.numEquations := fun c hc =>
  (h.stepped hp c hc).size_impulse v

theorem sizes_velocity (h : s.Of p) (hp : p.Built) (v : Vec ℝ) :
    ∀ c ∈ s.couplings, (c.jacobian.mulVec v).size = c.constraint.numEquations := fun c hc =>
  Mat.size_mulVec.trans (h.stepped hp c hc).rows

theorem map_size (hf : ∀ c ∈ s.couplings, (f c).size = c.constraint.numEquations)
    {couplings : List (Coupling ℝ)} (hsub : ∀ c ∈ couplings, c ∈ s.couplings) :
    (couplings.map f).map Vec.size = (couplings.map Coupling.constraint).map Constraint.numEquations := by
  rw [List.map_map, List.map_map]
  exact List.map_congr_left fun c hc => hf c (hsub c hc)

/-- Each constraint has its slice. -/
theorem slice (h : s.Of p) (hf : ∀ c ∈ s.couplings, (f c).size = c.constraint.numEquations)
    (hk : s.couplings[k]? = some c) :
    (Vec.concat (s.couplings.map f)).slice (p.equationStart k) c.constraint.numEquations = f c := by
  have hstart : p.equationStart k = total (((s.couplings.map f).take k).map Vec.size) := by
    rw [← List.map_take, map_size hf fun c hc => List.mem_of_mem_take hc, List.map_take, h.constraints]
    rfl
  have hentry : (s.couplings.map f)[k]? = some (f c) := by rw [List.getElem?_map, hk, Option.map_some]
  rw [hstart, ← hf c (List.mem_of_getElem? hk)]
  exact Vec.slice_concat hentry

/-- The coupling of a constraint. -/
theorem exists_coupling (h : s.Of p) {constraint : Constraint ℝ} (hc : p.constraint? k = some constraint) :
    ∃ c, s.couplings[k]? = some c ∧ c.constraint = constraint := by
  rw [Problem.constraint?_eq, ← h.constraints, List.getElem?_map] at hc
  exact Option.map_eq_some_iff.mp hc

end System.Of

/-- The impulses of a solve that got as far as its iteration are such as their constraints can have,
    whether it succeeded or not. -/
theorem Problem.Built.admissible {p : Problem ℝ} (hp : p.Built) {config : SolverConfig ℝ}
    {guess : Vec ℝ} {x : Solution ℝ}
    (hx : p.solve config guess = .ok x) (hstarted : x.cost.isSome = true) {k : ℕ} {c : Constraint ℝ}
    (hc : p.constraint? k = some c) :
    c.Admissible p.timeStep (x.impulses.slice (p.equationStart k) c.numEquations)
      (x.velocities.slice (p.equationStart k) c.numEquations) := by
  obtain ⟨s, hs, hreports⟩ := Problem.solve_eq_ok hx hstarted
  have hof := System.of_ofProblem? hs
  obtain ⟨coupling, hk, rfl⟩ := hof.exists_coupling hc
  have himpulse := hof.slice (hof.sizes_impulse hp x.v) hk
  have hvelocity := hof.slice (hof.sizes_velocity hp x.v) hk
  rw [hreports.impulses, System.impulses, himpulse, hreports.velocities, hof.mulVec_jacobian, hvelocity]
  exact (hof.stepped hp coupling (List.mem_of_getElem? hk)).admissible x.v

/-! ### The head of the equations -/

namespace Problem

variable {p : Problem ℝ} {b : JacobianBlock ℝ} {c : Constraint ℝ} {row v k : ℕ}

/-- The entry of a block in one of its rows, for a velocity of the problem. -/
noncomputable def spread (p : Problem ℝ) (b : JacobianBlock ℝ) (row v : ℕ) : ℝ :=
  if p.treeStart b.tree ≤ v ∧ v < p.treeStart b.tree + b.jacobian.cols then
    b.jacobian row (v - p.treeStart b.tree) else 0

theorem foldl_spread (p : Problem ℝ) (blocks : List (JacobianBlock ℝ)) (row v : ℕ) (x : ℝ) :
    blocks.foldl (fun acc b =>
      if p.treeStart b.tree ≤ v ∧ v < p.treeStart b.tree + b.jacobian.cols then
        acc + b.jacobian row (v - p.treeStart b.tree) else acc) x =
      x + (blocks.map fun b => p.spread b row v).sum := by
  induction blocks generalizing x with
  | nil => simp
  | cons b blocks ih =>
    rw [List.foldl_cons, ih, List.map_cons, List.sum_cons, spread]
    split_ifs <;> ring

theorem jacobianEntry_eq (p : Problem ℝ) (c : Constraint ℝ) (row v : ℕ) :
    p.jacobianEntry c row v = (c.blocks.map fun b => p.spread b row v).sum :=
  (p.foldl_spread c.blocks row v 0).trans (zero_add _)

theorem Built.equationStart_eq (hp : p.Built) (hk : k ≤ p.numContacts) : p.equationStart k = 3 * k :=
  hp.total_take_eq hk

/-- The equations of the contacts are among all. -/
theorem Built.mul_numContacts_le (hp : p.Built) : 3 * p.numContacts ≤ p.numEquations := by
  rw [← hp.equationStart_eq le_rfl, equationStart, numEquations]
  conv_rhs => rw [← List.take_append_drop p.numContacts p.constraints.toList, List.map_append, total_append]
  exact Nat.le_add_right ..

end Problem

/-! ### The forces of the contacts -/

namespace ContactResults

variable {p : Problem ℝ} {dt : ℝ} {impulses tau : Vec ℝ} {j : ℕ}

/-- What the impulses of one contact do along a velocity. -/
noncomputable def contactForce (p : Problem ℝ) (dt : ℝ) (impulses : Vec ℝ) (j : ℕ)
    (contact : Constraint ℝ × ℕ) : ℝ :=
  1 / dt * ∑ n ∈ range 3, p.jacobianEntry contact.1 n j * impulses (3 * contact.2 + n)

theorem foldl_blocks (p : Problem ℝ) (dt : ℝ) (impulses : Vec ℝ) (i : ℕ)
    (blocks : List (JacobianBlock ℝ)) (tau : Vec ℝ) :
    let all := blocks.foldl (fun (tau : Vec ℝ) b =>
      let start := p.treeStart b.tree
      Vec.ofFn tau.size fun v =>
        if start ≤ v ∧ v < start + b.jacobian.cols then
          tau v + 1 / dt * Scalar.sum 3 fun n => b.jacobian n (v - start) * impulses (3 * i + n)
        else tau v) tau
    all.size = tau.size ∧ ∀ v < tau.size, all v =
      tau v + 1 / dt * ∑ n ∈ range 3, (blocks.map fun b => p.spread b n v).sum * impulses (3 * i + n) := by
  induction blocks generalizing tau with
  | nil => exact ⟨rfl, fun v _ => by simp⟩
  | cons b blocks ih =>
    obtain ⟨hsize, hentry⟩ := ih _
    refine ⟨hsize.trans (Vec.size_ofFn ..), fun v hv => ?_⟩
    refine (hentry v (by rwa [Vec.size_ofFn])).trans ?_
    rw [Vec.get_ofFn_of_lt hv]
    simp only [List.map_cons, List.sum_cons, add_mul, sum_add_distrib, mul_add, Problem.spread]
    split_ifs with hinside
    · rw [Scalar.sum_eq_sum_range, add_assoc]
    · simp

theorem addContactForces_eq (p : Problem ℝ) (dt : ℝ) (impulses tau : Vec ℝ) (contact : Constraint ℝ × ℕ) :
    (addContactForces p dt impulses tau contact).size = tau.size ∧
      ∀ v < tau.size, addContactForces p dt impulses tau contact v =
        tau v + contactForce p dt impulses v contact := by
  obtain ⟨hsize, hentry⟩ := foldl_blocks p dt impulses contact.2 contact.1.blocks tau
  refine ⟨hsize, fun v hv => (hentry v hv).trans ?_⟩
  simp only [contactForce, Problem.jacobianEntry_eq]

theorem foldl_addContactForces (p : Problem ℝ) (dt : ℝ) (impulses : Vec ℝ)
    (contacts : List (Constraint ℝ × ℕ)) (tau : Vec ℝ) :
    (contacts.foldl (addContactForces p dt impulses) tau).size = tau.size ∧
      ∀ v < tau.size, contacts.foldl (addContactForces p dt impulses) tau v =
        tau v + (contacts.map (contactForce p dt impulses v)).sum := by
  induction contacts generalizing tau with
  | nil => exact ⟨rfl, fun v _ => by simp⟩
  | cons contact contacts ih =>
    obtain ⟨hsize, hentry⟩ := ih (addContactForces p dt impulses tau contact)
    obtain ⟨hsize', hentry'⟩ := addContactForces_eq p dt impulses tau contact
    refine ⟨hsize.trans hsize', fun v hv => ?_⟩
    rw [List.foldl_cons, hentry v (hsize' ▸ hv), hentry' v hv, List.map_cons, List.sum_cons, add_assoc]

end ContactResults

namespace System.Of

variable {p : Problem ℝ} {s : System ℝ} {c : Coupling ℝ} {v : Vec ℝ} {dt : ℝ} {j k n : ℕ}

/-- What belongs to a contact stands at its place in the head. -/
theorem head (h : s.Of p) (hp : p.Built) {f : Coupling ℝ → Vec ℝ}
    (hf : ∀ c ∈ s.couplings, (f c).size = c.constraint.numEquations)
    (hk : s.couplings[k]? = some c) (hlt : k < p.numContacts) (hthree : c.constraint.numEquations = 3)
    (hn : n < 3) :
    Vec.concat (s.couplings.map f) (3 * k + n) = f c n := by
  have hslice := h.slice hf hk
  rw [hp.equationStart_eq hlt.le, hthree] at hslice
  rw [← hslice, Vec.slice, Vec.get_ofFn_of_lt hn]

theorem impulses_head (h : s.Of p) (hp : p.Built) (hk : s.couplings[k]? = some c) (hlt : k < p.numContacts)
    (hthree : c.constraint.numEquations = 3) (hn : n < 3) : s.impulses v (3 * k + n) = c.impulse v n :=
  h.head hp (h.sizes_impulse hp v) hk hlt hthree hn

theorem velocities_head (h : s.Of p) (hp : p.Built) (hk : s.couplings[k]? = some c) (hlt : k < p.numContacts)
    (hthree : c.constraint.numEquations = 3) (hn : n < 3) :
    p.jacobian.mulVec v (3 * k + n) = c.jacobian.mulVec v n := by
  rw [h.mulVec_jacobian]
  exact h.head hp (h.sizes_velocity hp v) hk hlt hthree hn

/-- What a coupling does along a velocity. -/
noncomputable def force (v : Vec ℝ) (j : ℕ) (c : Coupling ℝ) : ℝ :=
  ∑ i ∈ range c.jacobian.rows, c.jacobian i j * c.impulse v i

theorem sum_contactForce (h : s.Of p) (hp : p.Built) (v : Vec ℝ) (hj : j < p.numVelocities) :
    ((p.constraints.toList.take p.numContacts).zipIdx.map
      (ContactResults.contactForce p dt (s.impulses v) j)).sum =
      1 / dt * ((s.couplings.take p.numContacts).map (force v j)).sum := by
  obtain ⟨factors, hcouplings⟩ := h.couplings
  have hentry : (p.constraints.toList.take p.numContacts).zipIdx.map
    (ContactResults.contactForce p dt (s.impulses v) j) =
      (p.constraints.toList.take p.numContacts).map fun c =>
        1 / dt * force v j (Coupling.ofConstraint p factors c) := by
    conv_rhs => rw [← List.zipIdx_map_fst 0 (p.constraints.toList.take p.numContacts), List.map_map]
    refine List.map_congr_left fun contact hcontact => ?_
    obtain ⟨constraint, i⟩ := contact
    have hget : (p.constraints.toList.take p.numContacts)[i]? = some constraint :=
      List.mem_zipIdx_iff_getElem?.mp hcontact
    have hthree : constraint.numEquations = 3 := hp.numEquations_eq_three (List.mem_of_getElem? hget)
    obtain ⟨hlt, hget⟩ : i < p.numContacts ∧ p.constraints.toList[i]? = some constraint := by
      rw [List.getElem?_take] at hget
      split_ifs at hget with hlt
      exact ⟨hlt, hget⟩
    have hk : s.couplings[i]? = some (Coupling.ofConstraint p factors constraint) := by
      rw [hcouplings, List.getElem?_map, hget, Option.map_some]
    have hrows : (Coupling.ofConstraint p factors constraint).jacobian.rows = 3 := hthree
    show 1 / dt * _ = 1 / dt * force v j (Coupling.ofConstraint p factors constraint)
    rw [force, hrows]
    congr 1
    refine sum_congr rfl fun n hn => ?_
    have hn := mem_range.mp hn
    have hentry : (Coupling.ofConstraint p factors constraint).jacobian n j =
      p.jacobianEntry constraint n j :=
      Mat.get_ofFn_of_lt (hthree ▸ hn) hj
    rw [h.impulses_head hp hk hlt hthree hn, hentry]
  rw [hentry, List.sum_map_mul_left, hcouplings, ← List.map_take, List.map_map]
  rfl

theorem size_impulses (h : s.Of p) (hp : p.Built) (v : Vec ℝ) : (s.impulses v).size = p.numEquations := by
  rw [impulses, Vec.size_concat, map_size (h.sizes_impulse hp v) fun c hc => hc, h.constraints]
  rfl

theorem sizes_take (h : s.Of p) (hp : p.Built) {f : Coupling ℝ → Vec ℝ}
    (hf : ∀ c ∈ s.couplings, (f c).size = c.constraint.numEquations) :
    total (((s.couplings.take p.numContacts).map f).map Vec.size) = 3 * p.numContacts ∧
      total (((s.couplings.drop p.numContacts).map f).map Vec.size) = p.numEquations - 3 * p.numContacts := by
  have htake : total (((s.couplings.take p.numContacts).map f).map Vec.size) = 3 * p.numContacts := by
    rw [map_size hf fun c hc => List.mem_of_mem_take hc, List.map_take, h.constraints]
    exact hp.equationStart_eq le_rfl
  have hall : total ((s.couplings.map f).map Vec.size) = p.numEquations := by
    rw [map_size hf fun c hc => hc, h.constraints]
    rfl
  refine ⟨htake, ?_⟩
  rw [← hall, ← htake]
  conv_rhs => rw [← List.take_append_drop p.numContacts s.couplings, List.map_append, List.map_append,
    total_append]
  rw [List.take_append_drop]
  omega

/-- The impulses of limits and couplers through their rows of the Jacobian. -/
theorem transposeMulVec_rest (h : s.Of p) (hp : p.Built) (v : Vec ℝ) (hj : j < p.numVelocities) :
    (p.jacobian.rowBlock (3 * p.numContacts) (p.numEquations - 3 * p.numContacts)).transposeMulVec
        ((s.impulses v).slice (3 * p.numContacts) (p.numEquations - 3 * p.numContacts)) j =
      ((s.couplings.drop p.numContacts).map (force v j)).sum := by
  have hrows : ∀ couplings : List (Coupling ℝ), (∀ c ∈ couplings, c ∈ s.couplings) →
      (couplings.map Coupling.jacobian).map Mat.rows = (couplings.map fun c => c.impulse v).map Vec.size := by
    intro couplings hsub
    rw [List.map_map, List.map_map]
    exact List.map_congr_left fun c hc =>
      (h.stepped hp c (hsub c hc)).rows.trans (h.sizes_impulse hp v c (hsub c hc)).symm
  obtain ⟨htake, hdrop⟩ := h.sizes_take hp (h.sizes_impulse hp v)
  have hslice : (s.impulses v).slice (3 * p.numContacts) (p.numEquations - 3 * p.numContacts) =
      .concat ((s.couplings.drop p.numContacts).map fun c => c.impulse v) := by
    rw [← hdrop, ← htake, ← Vec.slice_concat_append, ← List.map_append, List.take_append_drop]
    rfl
  have hblock : p.jacobian.rowBlock (3 * p.numContacts) (p.numEquations - 3 * p.numContacts) =
      .stack p.numVelocities ((s.couplings.drop p.numContacts).map Coupling.jacobian) := by
    rw [← hdrop, ← htake, ← hrows _ fun c hc => List.mem_of_mem_take hc,
      ← hrows _ fun c hc => List.mem_of_mem_drop hc,
      ← Mat.rowBlock_stack, ← List.map_append, List.take_append_drop, h.jacobian]
  rw [hslice, hblock]
  refine Mat.transposeMulVec_stack (fun c hc => ?_) hj
  have hc := List.mem_of_mem_drop hc
  rw [h.sizes_impulse hp v c hc, (h.stepped hp c hc).rows]

end System.Of

open Outcome in
/-- A solve that succeeded has impulses and velocities for all contacts to report. -/
theorem Problem.Built.exists_contactResults {p : Problem ℝ} (hp : p.Built) {config : SolverConfig ℝ}
    {guess : Vec ℝ}
    {x : Solution ℝ} (hx : p.solve config guess = .ok x) (hsuccess : x.status = .success) (dt : ℝ) :
    ∃ r, ContactResults.ofSolution p x dt = .ok r ∧ r.velocities = x.v := by
  obtain ⟨system, hsystem, hreports⟩ := Problem.solve_eq_ok hx (Problem.cost_isSome_of_success hx hsuccess)
  have himpulses : x.impulses.size = p.numEquations := by
    rw [hreports.impulses, (System.of_ofProblem? hsystem).size_impulses hp]
  have hvelocities : x.velocities.size = p.numEquations := by
    rw [hreports.velocities, Mat.size_mulVec, p.rows_jacobian]
  simp only [ContactResults.ofSolution, require_bind_eq_ok_iff, himpulses, hvelocities, Nat.min_self]
  exact ⟨_, ⟨hp.mul_numContacts_le,
    bind_eq_ok_iff.mpr ⟨(), requireSize_eq_ok_iff.mpr hreports.size.symm, rfl⟩⟩, rfl⟩

end CompliantContact
