import CompliantContact.Proofs.Constraint.Regularization
import CompliantContact.Proofs.Dense.Cholesky
import CompliantContact.Proofs.Problem.Assembled
import CompliantContact.Solver.System

/-!
The systems of problems that clients can build, and what they evaluate to.

Where the dynamics matrices of the trees are symmetric positive definite, there is a system, and it has
the shape that the solver relies on (`System.Regular`). The cost and the gradient are written as sums
over constraints and their equations.
-/

namespace CompliantContact

open Finset

/-- The dynamics matrix of every tree is symmetric positive definite. -/
def Problem.HasSPDTrees (p : Problem ℝ) : Prop := ∀ a ∈ p.dynamics.toList, a.IsSPD

namespace Coupling

/-- The unconstrained impulse of a constraint at given velocities. -/
noncomputable def unconstrained (c : Coupling ℝ) (v : Vec ℝ) : Vec ℝ :=
  -(c.jacobian.mulVec v - c.bias).hadamard c.rInv

/-- The impulse of a constraint at given velocities. -/
noncomputable def impulse (c : Coupling ℝ) (v : Vec ℝ) : Vec ℝ :=
  (c.constraint.project (c.unconstrained v) c.r c.rInv).impulse

/-- The cost of a constraint at given velocities. -/
noncomputable def cost (c : Coupling ℝ) (v : Vec ℝ) : ℝ :=
  ∑ i ∈ range c.r.size, if 0 < c.rInv i then Scalar.half * c.r i * c.impulse v i * c.impulse v i else 0

/-- The shape of a coupling that comes from a constraint with parameters in range. -/
structure Regular (c : Coupling ℝ) : Prop where
  inRange : c.constraint.InRange
  rows : c.jacobian.rows = c.constraint.numEquations
  r : ∃ dt w, 0 < dt ∧ 0 ≤ w ∧ c.r = c.constraint.regularization dt w
  rInv : c.rInv = c.r.map inverse

variable {c : Coupling ℝ} {v : Vec ℝ} {i : ℕ}

theorem size_unconstrained (c : Coupling ℝ) (v : Vec ℝ) : (c.unconstrained v).size = c.jacobian.rows := by
  rw [unconstrained, Vec.size_neg, Vec.size_hadamard, Vec.size_sub, Mat.size_mulVec]

theorem unconstrained_get (hi : i < c.jacobian.rows) :
    c.unconstrained v i = -((c.jacobian.mulVec v i - c.bias i) * c.rInv i) := by
  rw [unconstrained, Vec.get_neg, Vec.get_hadamard, Vec.get_sub (by rwa [Mat.size_mulVec])]

theorem Regular.weighs (h : c.Regular) : c.constraint.Weighs c.r := by
  obtain ⟨dt, w, hdt, hw, hr⟩ := h.r
  rw [hr]
  exact Constraint.weighs_regularization h.inRange hdt hw

theorem Regular.size_r (h : c.Regular) : c.r.size = c.constraint.numEquations := by
  obtain ⟨dt, w, -, -, hr⟩ := h.r
  rw [hr, Constraint.size_regularization h.inRange]

theorem Regular.rInv_get (h : c.Regular) (hi : i < c.constraint.numEquations) : c.rInv i = 1 / c.r i := by
  rw [h.rInv, Vec.get_map (h.size_r ▸ hi), inverse, Scalar.isFinite_eq, if_pos rfl]

/-- Equations without regularization have no cost. -/
theorem cost_eq_sum (h : c.Regular) (v : Vec ℝ) :
    c.cost v = ∑ i ∈ range c.constraint.numEquations, 1 / 2 * c.r i * c.impulse v i * c.impulse v i := by
  rw [cost, h.size_r]
  refine sum_congr rfl fun i hi => ?_
  have hi := mem_range.mp hi
  rw [h.rInv_get hi, Scalar.half_eq]
  split_ifs with hpos
  · rfl
  · have hzero : c.r i = 0 :=
      le_antisymm (not_lt.mp fun hr => hpos (one_div_pos.mpr hr)) (h.weighs.nonneg i hi)
    rw [hzero, mul_zero, zero_mul, zero_mul]

end Coupling

namespace System

/-- The shape of a system that comes from a problem with symmetric positive definite trees. -/
structure Regular (s : System ℝ) : Prop where
  dynamics : s.dynamics.IsSPD
  rows : s.dynamics.rows = s.freeVelocities.size
  scaling : s.scaling = s.dynamics.diagonal.map fun x => 1 / Scalar.sqrt x
  couplings : ∀ c ∈ s.couplings, c.Regular
  cols : ∀ c ∈ s.couplings, c.jacobian.cols = s.freeVelocities.size

end System

theorem exists_factors {blocks : List (Mat ℝ)} (h : ∀ a ∈ blocks, a.IsSPD) :
    ∃ factors, blocks.mapM Cholesky.factor? = some factors := by
  induction blocks with
  | nil => exact ⟨[], rfl⟩
  | cons a rest ih =>
    obtain ⟨f, hf, -⟩ := Cholesky.exists_factor (h a (List.mem_cons_self ..))
    obtain ⟨fs, hfs⟩ := ih fun b hb => h b (List.mem_cons_of_mem _ hb)
    refine ⟨f :: fs, ?_⟩
    rw [List.mapM_cons, hf, hfs]
    rfl

theorem map_eq_of_mapM {β γ : Type} {f : β → Option γ} {blocks : List β} {factors : List γ}
    (h : blocks.mapM f = some factors) :
    blocks.map f = factors.map some := by
  induction blocks generalizing factors with
  | nil =>
    cases h
    rfl
  | cons a rest ih =>
    rw [List.mapM_cons] at h
    obtain ⟨first, hfirst, h⟩ := Option.bind_eq_some_iff.mp h
    obtain ⟨others, hothers, h⟩ := Option.bind_eq_some_iff.mp h
    cases h
    rw [List.map_cons, hfirst, ih hothers]
    rfl

/-- Each block that is there has its factor. -/
theorem exists_of_mapM {β γ : Type} {f : β → Option γ} {blocks : List β} {factors : List γ}
    (h : blocks.mapM f = some factors)
    {t : ℕ} {a : β} (ha : blocks[t]? = some a) : ∃ l, f a = some l ∧ factors[t]? = some l := by
  have hentry := congrArg (·[t]?) (map_eq_of_mapM h)
  simp only [List.getElem?_map, ha, Option.map_some] at hentry
  obtain ⟨l, hl, heq⟩ := Option.map_eq_some_iff.mp hentry.symm
  exact ⟨l, heq.symm, hl⟩

/-- What a system is made of. -/
theorem System.ofProblem?_eq_some {p : Problem ℝ} {s : System ℝ} (h : ofProblem? p = some s) :
    ∃ factors, p.dynamics.toList.mapM Cholesky.factor? = some factors ∧ s = {
      dynamics := p.dynamicsMatrix
      freeVelocities := p.freeVelocities
      scaling := p.dynamicsMatrix.diagonal.map fun x => 1 / Scalar.sqrt x
      couplings := p.constraints.toList.map (Coupling.ofConstraint p factors.toArray) } := by
  obtain ⟨factors, hfactors, h⟩ := Option.bind_eq_some_iff.mp h
  cases h
  exact ⟨factors, hfactors, rfl⟩

theorem System.eq_of_ofProblem? {p : Problem ℝ} {s : System ℝ} (h : ofProblem? p = some s) :
    s.dynamics = p.dynamicsMatrix ∧
      ∃ factors, s.couplings = p.constraints.toList.map (Coupling.ofConstraint p factors) := by
  obtain ⟨factors, -, rfl⟩ := ofProblem?_eq_some h
  exact ⟨rfl, factors.toArray, rfl⟩

theorem Coupling.inverseInertia_nonneg (factors : Array (Mat ℝ)) (c : Constraint ℝ) :
    0 ≤ inverseInertia factors c := by
  rw [inverseInertia, Scalar.ofNat_eq]
  exact div_nonneg (Real.sqrt_nonneg _) (Nat.cast_nonneg _)

theorem Coupling.regular_ofConstraint {p : Problem ℝ} (factors : Array (Mat ℝ)) {c : Constraint ℝ}
    (hdt : 0 < p.timeStep) (hc : c.Made) : (ofConstraint p factors c).Regular where
  inRange := hc.inRange
  rows := rfl
  r := ⟨p.timeStep, _, hdt, inverseInertia_nonneg factors c, rfl⟩
  rInv := rfl

/-- A problem whose trees have symmetric positive definite matrices has a system. -/
theorem Problem.Built.exists_system {p : Problem ℝ} (h : p.Built) (htrees : p.HasSPDTrees) :
    ∃ s, System.ofProblem? p = some s ∧ s.Regular ∧ s.freeVelocities = p.freeVelocities := by
  obtain ⟨factors, hfactors⟩ := exists_factors htrees
  have hvalid := h.valid
  refine ⟨_, by rw [System.ofProblem?, hfactors]; rfl, ⟨?_, rfl, rfl, fun c hc => ?_, fun c hc => ?_⟩, rfl⟩
  · exact Problem.isSPD_dynamicsMatrix hvalid.size htrees
  · obtain ⟨constraint, hmem, rfl⟩ := List.mem_map.mp hc
    exact Coupling.regular_ofConstraint _ hvalid.timeStep_pos (hvalid.made constraint hmem)
  · obtain ⟨constraint, -, rfl⟩ := List.mem_map.mp hc
    rfl

/-! ### The evaluation -/

namespace System

variable {s : System ℝ} {v : Vec ℝ} {j : ℕ}

theorem paired_evaluate (s : System ℝ) (v : Vec ℝ) :
    s.paired (s.evaluate v).responses = s.couplings.map fun c => (c, c.respond v) := by
  show s.couplings.zip (s.couplings.map (·.respond v)) = _
  rw [← List.zip_map', List.map_id']

/-- The sum of numbers that the equations of all constraints give. -/
theorem listSum_flatMap (s : System ℝ) (v : Vec ℝ) (f : Coupling ℝ → Response ℝ → List ℝ) :
    Scalar.listSum ((s.paired (s.evaluate v).responses).flatMap fun (c, r) => f c r) =
      (s.couplings.map fun c => (f c (c.respond v)).sum).sum := by
  rw [paired_evaluate, Scalar.listSum_eq_sum, List.flatMap_def, List.sum_flatten, List.map_map, List.map_map]
  rfl

theorem cost_evaluate (s : System ℝ) (v : Vec ℝ) : (s.evaluate v).cost =
    (s.couplings.map fun c => (c.rowCosts (c.respond v)).sum).sum +
      Scalar.half * (v - s.freeVelocities).dot (s.dynamics.mulVec (v - s.freeVelocities)) :=
  congrArg (· + _) (listSum_flatMap s v Coupling.rowCosts)

theorem curvature_evaluate (s : System ℝ) (v : Vec ℝ) :
    s.curvature (s.evaluate v) = (s.couplings.map fun c => c.curvature (c.respond v)).foldl
      (· + ·) s.dynamics := by
  rw [System.curvature, paired_evaluate, List.foldl_map, List.foldl_map]

theorem size_gradient (h : s.Regular) : (s.evaluate v).gradient.size = s.freeVelocities.size := by
  rw [← h.rows]
  exact Vec.size_sub.trans Mat.size_mulVec

theorem gradient_get (h : s.Regular) (hv : v.size = s.freeVelocities.size) (hj : j < s.freeVelocities.size) :
    (s.evaluate v).gradient j =
      ∑ k ∈ range s.freeVelocities.size, s.dynamics j k * (v k - s.freeVelocities k) -
        (s.couplings.map fun c => ∑ i ∈ range c.jacobian.rows, c.jacobian i j * c.impulse v i).sum := by
  have hrow : j < s.dynamics.rows := h.rows ▸ hj
  show (s.dynamics.mulVec (v - s.freeVelocities) - s.impulseForces (s.evaluate v).responses) j = _
  rw [Vec.get_sub (by rwa [Mat.size_mulVec]), Mat.get_mulVec hrow, h.dynamics.square, h.rows, impulseForces,
    Vec.get_ofFn_of_lt hj, listSum_flatMap s v fun c r => c.rowForces r j]
  have hforces : ∀ c ∈ s.couplings, (c.rowForces (c.respond v) j).sum =
      ∑ i ∈ range c.jacobian.rows, c.jacobian i j * c.impulse v i := fun c _ => Scalar.sum_map_range _ _
  rw [List.map_congr_left hforces]
  congr 1
  refine sum_congr rfl fun k hk => ?_
  rw [Vec.get_sub (hv ▸ mem_range.mp hk)]

theorem sum_map_comm {ι : Type} (n : ℕ) (xs : List ι) (f : ι → ℕ → ℝ) :
    ∑ j ∈ range n, (xs.map fun c => f c j).sum = (xs.map fun c => ∑ j ∈ range n, f c j).sum := by
  induction xs with
  | nil => simp
  | cons c xs ih => simp only [List.map_cons, List.sum_cons, sum_add_distrib, ih]

/-- Forces along a direction, from impulses at all equations. -/
theorem forces_along (n : ℕ) (xs : List (Coupling ℝ)) (impulse : Coupling ℝ → ℕ → ℝ) (w : ℕ → ℝ) :
    ∑ j ∈ range n, (xs.map fun c => ∑ i ∈ range c.jacobian.rows, c.jacobian i j * impulse c i).sum * w j =
      (xs.map fun c => ∑ i ∈ range c.jacobian.rows, impulse c i * ∑ j ∈ range n,
        c.jacobian i j * w j).sum := by
  have hforces : ∀ c : Coupling ℝ, ∑ i ∈ range c.jacobian.rows, impulse c i * ∑ j ∈ range n,
    c.jacobian i j * w j =
      ∑ j ∈ range n, (∑ i ∈ range c.jacobian.rows, c.jacobian i j * impulse c i) * w j := by
    intro c
    simp only [mul_sum, sum_mul]
    rw [sum_comm]
    exact sum_congr rfl fun _ _ => sum_congr rfl fun _ _ => by ring
  simp only [hforces]
  rw [← sum_map_comm]
  exact sum_congr rfl fun j _ => (List.sum_map_mul_right ..).symm

/-- The gradient along a direction: what the momentum does along it, less what the impulses do. -/
theorem gradient_along (h : s.Regular) (hv : v.size = s.freeVelocities.size) (w : ℕ → ℝ) :
    ∑ j ∈ range s.freeVelocities.size, (s.evaluate v).gradient j * w j =
      ∑ j ∈ range s.freeVelocities.size, ∑ k ∈ range s.freeVelocities.size,
          w j * s.dynamics j k * (v k - s.freeVelocities k) -
        (s.couplings.map fun c => ∑ i ∈ range c.jacobian.rows,
          c.impulse v i * ∑ j ∈ range s.freeVelocities.size, c.jacobian i j * w j).sum := by
  rw [← forces_along _ _ fun c => c.impulse v, ← sum_sub_distrib]
  refine sum_congr rfl fun j hj => ?_
  rw [gradient_get h hv (mem_range.mp hj), sub_mul, sum_mul]
  congr 1
  exact sum_congr rfl fun _ _ => by ring

theorem cost_eq (h : s.Regular) (hv : v.size = s.freeVelocities.size) :
    (s.evaluate v).cost =
      (s.couplings.map fun c => c.cost v).sum + 1 / 2 * s.dynamics.quad fun k =>
        v k - s.freeVelocities k := by
  have hsize : (v - s.freeVelocities).size = s.dynamics.rows := by rw [Vec.size_sub, hv, h.rows]
  rw [cost_evaluate, Scalar.half_eq, Mat.dot_mulVec_eq_quad h.dynamics.square hsize]
  have hcosts : ∀ c ∈ s.couplings, (c.rowCosts (c.respond v)).sum = c.cost v := by
    intro c _
    rw [Coupling.rowCosts]
    exact Scalar.sum_map_range _ _
  rw [List.map_congr_left hcosts]
  congr 2
  refine sum_congr rfl fun i hi => sum_congr rfl fun k hk => ?_
  rw [Vec.get_sub (by rw [hv, ← h.rows]; exact mem_range.mp hi),
    Vec.get_sub (by rw [hv, ← h.rows]; exact mem_range.mp hk)]

end System

/-! ### One velocity under a push -/

noncomputable section

def pushParameters : HolonomicParameters ℝ := ⟨#[some 1], #[some 1], #[some 1], .ofList [0], 1⟩

/-- An impulse with both bounds at one: it is one at every velocity. -/
def push : Constraint ℝ := ⟨.holonomic pushParameters, .ofList [0], ⟨⟨0⟩, .ofFn 1 1 fun _ _ => 1⟩, none⟩

/-- One velocity with unit mass, and a push along it. -/
def pushed : Problem ℝ := ⟨1, #[.ofFn 1 1 fun _ _ => 1], .ofList [0], #[push]⟩

end

open Outcome in
theorem Constraint.holonomic_pushParameters (blocks : List (JacobianBlock ℝ)) {first : JacobianBlock ℝ}
    {second : Option (JacobianBlock ℝ)} (h : checkBlocks 1 blocks = .ok (first, second)) :
    holonomic blocks (.ofList [0]) pushParameters =
      .ok ⟨.holonomic pushParameters, .ofList [0], first, second⟩ := by
  have hrow : ∀ i ∈ List.range 1, holonomicEquationOk pushParameters i = true := by
    intro i hi
    obtain rfl : i = 0 := by simpa using hi
    simp [holonomicEquationOk, pushParameters, Bound.ordered, Vec.get, Vec.ofList]
  simp only [holonomic, bind_eq_ok_iff]
  refine ⟨(), rfl, (), rfl, (), rfl, (), rfl, (), ?_, (), ?_, _, h, rfl⟩
  · exact forM_eq_ok_iff.mpr fun i hi => require_eq_ok_iff.mpr (hrow i hi)
  · exact require_eq_ok_iff.mpr ⟨one_pos, rfl⟩

theorem made_push : push.Made := .holonomic (Constraint.holonomic_pushParameters push.blocks rfl)

open Outcome in
theorem built_pushed : pushed.Built := by
  have hnew : Problem.new 1 pushed.dynamics.toList pushed.freeVelocities =
      .ok { pushed with constraints := #[] } := by
    rw [Problem.new, require_bind_eq_ok_iff]
    exact ⟨one_pos, rfl⟩
  exact .addConstraint (.new hnew) made_push rfl

theorem hasSPDTrees_pushed : pushed.HasSPDTrees := by
  intro a ha
  obtain rfl : a = .ofFn 1 1 fun _ _ => 1 := by simpa [pushed] using ha
  refine Mat.isSPD_one rfl (Mat.cols_ofFn ..) ?_
  rw [Mat.get_ofFn_of_lt one_pos one_pos]
  exact one_pos

theorem couplings_pushed {s : System ℝ} (h : System.ofProblem? pushed = some s) :
    ∃ factors, s.couplings = [Coupling.ofConstraint pushed factors push] := by
  obtain ⟨-, factors, hcouplings⟩ := System.eq_of_ofProblem? h
  exact ⟨factors, hcouplings⟩

end CompliantContact
