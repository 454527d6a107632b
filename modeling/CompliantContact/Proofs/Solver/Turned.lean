import CompliantContact.Proofs.Constraint.Turn
import CompliantContact.Proofs.Dense.Definite
import CompliantContact.Proofs.Solver.ContactImpulses
import CompliantContact.Proofs.Solver.Equivalent
import CompliantContact.Proofs.Solver.Inertia

/-!
Turned constraints in the solver.

Nothing in a solve depends on the axes along which the tangential equations of contacts are written
down, or on the order of the blocks of a constraint. The inverse inertia that a contact sees stays the
same, so its regularization does, and its cost, its forces and its curvature do at all velocities: the
systems are equivalent. Only the impulses and the relative velocities of a turned contact turn.
-/

namespace CompliantContact

open Finset

namespace Turn

variable {q : Turn} {i j : ℕ}

/-- A sum of products of turned entries is turned in both indices. -/
theorem sum_apply_mul_apply {ι : Type} (s : Finset ι) (f g : ℕ → ι → ℝ) :
    ∑ k ∈ s, q.apply (fun n => f n k) i * q.apply (fun n => g n k) j =
      q.conj (fun i j => ∑ k ∈ s, f i k * g j k) i j := by
  have hinner : ∀ m, q.apply (fun j => ∑ k ∈ s, f m k * g j k) j = ∑ k ∈ s,
      f m k * q.apply (fun n => g n k) j := by
    intro m
    rw [apply_sum]
    refine sum_congr rfl fun k _ => ?_
    rw [mul_comm, ← apply_mul]
    simp only [mul_comm]
  simp only [conj, hinner]
  rw [apply_sum]
  exact sum_congr rfl fun k _ => (apply_mul _ _).symm

theorem conj_listSum {ι : Type} (xs : List ι) (g : ι → ℕ → ℕ → ℝ) :
    q.conj (fun i j => (xs.map fun x => g x i j).sum) i j = (xs.map fun x => q.conj (g x) i j).sum := by
  have hinner : ∀ m, q.apply (fun j => (xs.map fun x => g x m j).sum) j =
    (xs.map fun x => q.apply (g x m) j).sum :=
    fun m => apply_listSum xs fun n x => g x m n
  simp only [conj, hinner]
  exact apply_listSum xs fun n x => q.apply (g x n) j

end Turn

namespace Coupling

variable {q : Turn} {factors : Array (Mat ℝ)} {b : JacobianBlock ℝ} {c d : Constraint ℝ} {i j : ℕ}

/-! ### The inverse inertia -/

theorem blockInertia_eq (factors : Array (Mat ℝ)) (b : JacobianBlock ℝ) (i j : ℕ) :
    blockInertia factors b i j = ∑ k ∈ range b.jacobian.cols, b.jacobian i k * solved factors b j k := by
  by_cases hinside : i < b.jacobian.rows ∧ j < b.jacobian.rows
  · exact blockInertia_get hinside.1 hinside.2
  · rw [blockInertia, Mat.get_outside hinside]
    refine (sum_eq_zero fun k _ => ?_).symm
    by_cases hi : i < b.jacobian.rows
    · have hzero : ∀ k, b.jacobian.transpose.column j k = 0 := fun k => by
        rw [row_get, Mat.get_outside fun hin => hinside ⟨hi, hin.1⟩]
      rw [solved, Cholesky.solve_zero _ hzero, mul_zero]
    · rw [Mat.get_outside fun hin => hi hin.1, zero_mul]

theorem solved_block (h : q.Fits b.jacobian.rows) (i k : ℕ) :
    solved factors (q.block b) i k = q.apply (fun n => solved factors b n k) i := by
  have hrow : ∀ i k, (q.block b).jacobian.transpose.column i k =
      q.apply (fun n => b.jacobian.transpose.column n k) i := by
    intro i k
    rw [row_get]
    simp only [row_get]
    exact Turn.get_mat h i k
  rcases i with _ | _ | i
  · exact Cholesky.solve_combine (hrow 0) k
  · exact Cholesky.solve_combine (hrow 1) k
  · rw [Turn.apply_of_le _ _ (by omega)]
    have hsame : (q.block b).jacobian.transpose.column (i + 2) = b.jacobian.transpose.column (i + 2) :=
      Vec.ext (by simp only [Mat.column, Vec.size_ofFn]; rfl) fun k _ => hrow (i + 2) k
    rw [solved, solved, hsame]
    rfl

/-- What a turned block adds to the inverse inertia is turned in both indices. -/
theorem blockInertia_block (h : q.Fits b.jacobian.rows) (i j : ℕ) :
    blockInertia factors (q.block b) i j = q.conj (blockInertia factors b) i j := by
  have hsame : (blockInertia factors b).get = fun i j =>
      ∑ k ∈ range b.jacobian.cols, b.jacobian i k * solved factors b j k :=
        funext₂ (blockInertia_eq factors b)
  rw [hsame, ← Turn.sum_apply_mul_apply, blockInertia_eq]
  refine sum_congr rfl fun k _ => ?_
  rw [solved_block h]
  exact congrArg (· * _) (Turn.get_mat h i k)

/-- A turned constraint sees the same inverse inertia. -/
theorem inverseInertia_turned (h : c.Turned q d) (hc : c.Made) :
    inverseInertia factors d = inverseInertia factors c := by
  have hn : d.numEquations = c.numEquations := congrArg Vec.size h.g0
  have hfits := h.fits hc.inRange
  have hentry : ∀ i < c.numEquations, ∀ j < c.numEquations, inertia factors d i j =
      q.conj (fun i j => (c.blocks.map fun b => blockInertia factors b i j).sum) i j := by
    intro i hi j hj
    have hblocks : (d.blocks.map fun b => blockInertia factors b i j).Perm
        ((c.blocks.map q.block).map fun b => blockInertia factors b i j) := h.blocks.map _
    rw [inertia_get (hn ▸ hi) (hn ▸ hj), hblocks.sum_eq, List.map_map, Turn.conj_listSum]
    refine congrArg List.sum (List.map_congr_left fun b hb => ?_)
    exact blockInertia_block (hc.shaped.rows b hb ▸ hfits) i j
  rw [inverseInertia_eq, inverseInertia_eq, Mat.frobeniusNorm_eq, Mat.frobeniusNorm_eq, rows_inertia,
    cols_inertia, rows_inertia, cols_inertia, hn]
  congr 2
  calc ∑ j ∈ range c.numEquations, ∑ i ∈ range c.numEquations, inertia factors d i j * inertia factors d i j
      = ∑ j ∈ range c.numEquations, ∑ i ∈ range c.numEquations,
          q.conj (fun i j => (c.blocks.map fun b => blockInertia factors b i j).sum) i j *
            q.conj (fun i j => (c.blocks.map fun b => blockInertia factors b i j).sum) i j :=
        sum_congr rfl fun j hj => sum_congr rfl fun i hi => by
          rw [hentry i (mem_range.mp hi) j (mem_range.mp hj)]
    _ = ∑ j ∈ range c.numEquations, ∑ i ∈ range c.numEquations,
          (c.blocks.map fun b => blockInertia factors b i j).sum *
            (c.blocks.map fun b => blockInertia factors b i j).sum := hfits.sum_conj_sq _
    _ = ∑ j ∈ range c.numEquations, ∑ i ∈ range c.numEquations,
    inertia factors c i j * inertia factors c i j :=
        sum_congr rfl fun j hj => sum_congr rfl fun i hi => by
          rw [inertia_get (mem_range.mp hi) (mem_range.mp hj)]

end Coupling

/-! ### The Jacobian -/

theorem Problem.jacobianEntry_turned (p : Problem ℝ) {q : Turn} {c d : Constraint ℝ} (h : c.Turned q d)
    (hc : c.Made) (i j : ℕ) : p.jacobianEntry d i j = q.apply (fun n => p.jacobianEntry c n j) i := by
  have hblocks : (d.blocks.map fun b => p.spread b i j).Perm
    ((c.blocks.map q.block).map fun b => p.spread b i j) :=
    h.blocks.map _
  simp only [jacobianEntry_eq]
  rw [hblocks.sum_eq, List.map_map, Turn.apply_listSum]
  refine congrArg List.sum (List.map_congr_left fun b hb => ?_)
  have hfits : q.Fits b.jacobian.rows := hc.shaped.rows b hb ▸ h.fits hc.inRange
  show p.spread (q.block b) i j = q.apply (fun n => p.spread b n j) i
  simp only [spread]
  split_ifs with hinside hinside'
  · exact Turn.get_mat hfits i _
  · exact absurd hinside hinside'
  · exact absurd ‹_› hinside
  · exact (congrFun (map_zero q.apply) i).symm

theorem Problem.constraintJacobian_turned (p : Problem ℝ) {q : Turn} {c d : Constraint ℝ}
    (h : c.Turned q d) (hc : c.Made) :
    p.constraintJacobian d = q.mat (p.constraintJacobian c) := by
  refine Mat.ext (congrArg Vec.size h.g0) rfl fun i hi j hj => ?_
  have hi' : i < c.numEquations := hi.trans_eq (congrArg Vec.size h.g0)
  refine (Mat.get_ofFn_of_lt hi hj).trans ?_
  rw [p.jacobianEntry_turned h hc, Turn.get_mat (m := p.constraintJacobian c) (h.fits hc.inRange)]
  exact (h.fits hc.inRange).apply_congr hi' fun n hn => (Mat.get_ofFn_of_lt hn hj).symm

/-! ### Responses -/

theorem Constraint.project_congr {c d : Constraint ℝ} (h : d.kind = c.kind) : d.project = c.project := by
  funext y r rInv
  rw [project, project, h]

/-- The second coupling is the first one turned. -/
structure Coupling.Turned (q : Turn) (c d : Coupling ℝ) : Prop where
  constraint : c.constraint.Turned q d.constraint
  jacobian : d.jacobian = q.mat c.jacobian
  r : d.r = c.r
  rInv : d.rInv = c.rInv
  bias : d.bias = c.bias

namespace Coupling

variable {q : Turn}

/-- In the same problem a turned constraint makes a turned coupling. -/
theorem turned_ofConstraint (p : Problem ℝ) (factors : Array (Mat ℝ)) {c d : Constraint ℝ}
    (h : c.Turned q d) (hc : c.Made) :
    (ofConstraint p factors c).Turned q (ofConstraint p factors d) := by
  have hr : d.regularization p.timeStep (inverseInertia factors d) =
      c.regularization p.timeStep (inverseInertia factors c) := by
    rw [inverseInertia_turned h hc, Constraint.regularization, Constraint.regularization, h.kind,
      Constraint.numEquations, Constraint.numEquations, h.g0]
  refine ⟨h, p.constraintJacobian_turned h hc, hr, congrArg (Vec.map inverse) hr, ?_⟩
  show d.bias p.timeStep = c.bias p.timeStep
  rw [Constraint.bias, Constraint.bias, h.kind, Constraint.numEquations, Constraint.numEquations, h.g0]

variable {c d : Coupling ℝ} {dt : ℝ} {v : Vec ℝ} {i j : ℕ}

theorem Turned.eq_of_one (h : c.Turned 1 d) (v : Vec ℝ) : d.jacobian = c.jacobian ∧
    d.respond v = c.respond v := by
  have hjacobian : d.jacobian = c.jacobian := h.jacobian.trans (Turn.mat_one _)
  refine ⟨hjacobian, ?_⟩
  rw [respond, respond, hjacobian, h.r, h.rInv, h.bias, Constraint.project_congr h.constraint.kind]

theorem Turned.fits (h : c.Turned q d) (hc : c.Stepped dt) : q.Fits c.jacobian.rows :=
  hc.rows ▸ h.constraint.fits hc.inRange

/-- The relative velocities turn. -/
theorem Turned.velocity (h : c.Turned q d) (hc : c.Stepped dt) (v : Vec ℝ) (i : ℕ) :
    (d.respond v).velocity i = q.apply (c.respond v).velocity i := by
  have hvelocity : (c.respond v).velocity.get = fun n => ∑ j ∈ range c.jacobian.cols, c.jacobian n j * v j :=
    funext (Mat.mulVec_get c.jacobian v)
  rw [hvelocity, Turn.apply_sum]
  refine (Mat.mulVec_get d.jacobian v i).trans ?_
  rw [h.jacobian]
  exact sum_congr rfl fun j _ => by rw [Turn.get_mat (h.fits hc), Turn.apply_mul]

theorem Turned.unconstrained (h : c.Turned q d) (hc : c.Stepped dt) (v : Vec ℝ) (i : ℕ) :
    d.unconstrained v i = q.apply (c.unconstrained v) i := by
  rcases h.constraint.contact with hcontact | rfl
  · obtain ⟨hthree, -, htangents⟩ := hc.contact hcontact
    have hrows : c.jacobian.rows = 3 := hc.rows.trans hthree
    have hrows' : d.jacobian.rows = 3 := (congrArg Mat.rows h.jacobian).trans hrows
    have hentry : ∀ i < 3, d.unconstrained v i =
        -((q.apply (c.jacobian.mulVec v) i - c.bias i) * c.rInv i) := by
      intro i hi
      rw [unconstrained_get (hrows' ▸ hi), h.rInv, h.bias]
      exact congrArg (fun x => -((x - c.bias i) * c.rInv i)) (h.velocity hc v i)
    have hfirst := hc.unconstrained_tangent hcontact v (i := 0) two_pos
    have hsecond := hc.unconstrained_tangent hcontact v (i := 1) one_lt_two
    rcases i with _ | _ | _ | i
    · rw [hentry 0 (by decide), hc.bias_tangent hcontact two_pos, Turn.apply_zero, Turn.apply_zero,
        hfirst, hsecond, htangents]
      ring
    · rw [hentry 1 (by decide), hc.bias_tangent hcontact one_lt_two, Turn.apply_first, Turn.apply_first,
        hfirst, hsecond, htangents]
      ring
    · rw [hentry 2 (by decide), Turn.apply_of_le _ _ le_rfl, Turn.apply_of_le _ _ le_rfl,
        unconstrained_get (hrows ▸ (by decide))]
    · rw [Turn.apply_of_le _ _ (by omega), Vec.get_of_size_le, Vec.get_of_size_le]
      · rw [size_unconstrained]
        omega
      · rw [size_unconstrained]
        omega
  · obtain ⟨hjacobian, -⟩ := h.eq_of_one v
    rw [Coupling.unconstrained, hjacobian, h.rInv, h.bias, Turn.apply_one]
    rfl

/-- And so do the impulses, with their slopes. -/
theorem Turned.projection (h : c.Turned q d) (hc : c.Stepped dt) (v : Vec ℝ) :
    (c.respond v).projection.Turned q (d.respond v).projection := by
  show (c.constraint.project (c.unconstrained v) c.r c.rInv).Turned q
    (d.constraint.project (d.unconstrained v) d.r d.rInv)
  rw [Constraint.project_congr h.constraint.kind, h.r, h.rInv]
  refine Constraint.project_turned h.constraint.contact (fun hcontact => (hc.contact hcontact).2.2) ?_
    (h.unconstrained hc v)
  rw [size_unconstrained, size_unconstrained, h.jacobian]
  rfl

/-- A turned contact costs the same. -/
theorem Turned.rowCosts (h : c.Turned q d) (hc : c.Stepped dt) (v : Vec ℝ) :
    (d.rowCosts (d.respond v)).sum = (c.rowCosts (c.respond v)).sum := by
  rcases h.constraint.contact with hcontact | rfl
  · obtain ⟨hthree, htangents, htangents'⟩ := hc.contact hcontact
    have hsum : ∀ e : Coupling ℝ, e.r = c.r → e.rInv = c.rInv → ∀ f : Response ℝ, (e.rowCosts f).sum =
        (if 0 < c.rInv 1 then Scalar.half * c.r 1 * (f.projection.impulse 0 * f.projection.impulse 0 +
          f.projection.impulse 1 * f.projection.impulse 1) else 0) +
        if 0 < c.rInv 2 then Scalar.half * c.r 2 * f.projection.impulse 2 * f.projection.impulse 2
          else 0 := by
      intro e hr hrInv f
      rw [Coupling.rowCosts, Scalar.sum_map_range, hr, hrInv, hc.size_r, hthree]
      simp only [sum_range_succ, range_zero, sum_empty, htangents, htangents']
      split_ifs <;> ring
    have hturned := (h.projection hc v).impulse
    have hsquares := Turn.Fits.sum_mul (q := q) (n :=
      2) (.inl le_rfl) (c.respond v).projection.impulse (c.respond v).projection.impulse
    simp only [sum_range_succ, range_zero, sum_empty, zero_add] at hsquares
    rw [hsum d h.r h.rInv, hsum c rfl rfl, hturned, hturned, hturned, hsquares, Turn.apply_of_le _ _ le_rfl]
  · rw [(h.eq_of_one v).2, Coupling.rowCosts, Coupling.rowCosts, h.r, h.rInv]

theorem Turned.rowForces (h : c.Turned q d) (hc : c.Stepped dt) (v : Vec ℝ) (j : ℕ) :
    (d.rowForces (d.respond v) j).sum = (c.rowForces (c.respond v) j).sum := by
  rw [Coupling.rowForces, Coupling.rowForces, Scalar.sum_map_range, Scalar.sum_map_range]
  rw [← (h.fits hc).sum_mul, h.jacobian]
  refine sum_congr rfl fun i _ => ?_
  rw [Turn.get_mat (h.fits hc), (h.projection hc v).impulse]

/-- The slope adds the same to the curvature. -/
theorem Turned.curvature (h : c.Turned q d) (hc : c.Stepped dt) (v : Vec ℝ) :
    d.curvature (d.respond v) = c.curvature (c.respond v) := by
  have hprojection := h.projection hc v
  have hcols : (c.respond v).projection.slope.cols = c.jacobian.rows := by
    rw [hc.rows]
    exact Constraint.cols_slope hc.inRange ((c.size_unconstrained v).trans hc.rows)
  have hwidth : d.jacobian.cols = c.jacobian.cols := by
    rw [h.jacobian]
    rfl
  have hheight : d.jacobian.rows = c.jacobian.rows := by
    rw [h.jacobian]
    rfl
  refine Mat.ext hwidth hwidth fun a ha b hb => ?_
  have ha : a < c.jacobian.cols := ha.trans_eq hwidth
  have hb : b < c.jacobian.cols := hb.trans_eq hwidth
  rw [Coupling.curvature, Coupling.curvature, Mat.get_transpose_mul_mul (hwidth ▸ ha) (hwidth ▸ hb),
    Mat.get_transpose_mul_mul ha hb, hprojection.cols, hcols, hheight]
  refine Eq.trans ?_ ((h.fits hc).sum_conj (c.respond v).projection.slope _ _)
  refine sum_congr rfl fun i _ => ?_
  rw [h.jacobian, Turn.get_mat (h.fits hc)]
  congr 1
  refine sum_congr rfl fun k _ => ?_
  rw [Turn.get_mat (h.fits hc), hprojection.slope]

end Coupling

/-! ### Systems -/

/-- What is the same for members at the same place is the same for all of them. -/
theorem map_eq_of_getElem? {β γ : Type} {xs ys : List β} {f g : β → γ} (hlength : ys.length = xs.length)
    (hf : ∀ (k : ℕ) x y, xs[k]? = some x → ys[k]? = some y → g y = f x) : ys.map g = xs.map f := by
  refine List.ext_getElem? fun k => ?_
  rw [List.getElem?_map, List.getElem?_map]
  by_cases hk : k < xs.length
  · have hx := List.getElem?_eq_getElem hk
    have hy := List.getElem?_eq_getElem (hlength.symm ▸ hk)
    rw [hx, hy, Option.map_some, Option.map_some, hf k _ _ hx hy]
  · rw [List.getElem?_eq_none (not_lt.mp hk), List.getElem?_eq_none (hlength ▸ not_lt.mp hk)]
    rfl

/-- The second system is the first one with its couplings turned, one by one. -/
structure System.Turned (q : ℕ → Turn) (dt : ℝ) (s t : System ℝ) : Prop where
  dynamics : t.dynamics = s.dynamics
  freeVelocities : t.freeVelocities = s.freeVelocities
  scaling : t.scaling = s.scaling
  length : t.couplings.length = s.couplings.length
  stepped : ∀ c ∈ s.couplings, c.Stepped dt
  couplings : ∀ (k : ℕ) (c d : Coupling ℝ), s.couplings[k]? = some c → t.couplings[k]? = some d →
  c.Turned (q k) d

namespace System.Turned

variable {q : ℕ → Turn} {dt : ℝ} {s t : System ℝ}

theorem map_eq {β : Type} (h : System.Turned q dt s t) {f : Coupling ℝ → β}
    (hf : ∀ q c d, Coupling.Turned q c d → c.Stepped dt → f d = f c) :
    t.couplings.map f = s.couplings.map f := by
  refine map_eq_of_getElem? h.length fun k c d hc hd => ?_
  exact hf _ _ _ (h.couplings k c d hc hd) (h.stepped c (List.mem_of_getElem? hc))

theorem equivalent (h : System.Turned q dt s t) : s.Equivalent t where
  dynamics := h.dynamics
  freeVelocities := h.freeVelocities
  scaling := h.scaling
  cost v := by
    rw [cost_evaluate, cost_evaluate, h.dynamics, h.freeVelocities,
      h.map_eq fun _ _ _ hturned hstepped => hturned.rowCosts hstepped v]
  forces v := by
    rw [impulseForces, impulseForces, h.freeVelocities]
    congr 1
    funext j
    rw [listSum_flatMap t v fun c r => c.rowForces r j, listSum_flatMap s v fun c r => c.rowForces r j,
      h.map_eq fun _ _ _ hturned hstepped => hturned.rowForces hstepped v j]
  curvature v := by
    rw [curvature_evaluate, curvature_evaluate, h.dynamics,
      h.map_eq fun _ _ _ hturned hstepped => hturned.curvature hstepped v]

end System.Turned

/-! ### Problems -/

/-- The second problem is the first one with its constraints turned, one by one. -/
structure Problem.Turned (q : ℕ → Turn) (p p' : Problem ℝ) : Prop where
  timeStep : p'.timeStep = p.timeStep
  dynamics : p'.dynamics = p.dynamics
  freeVelocities : p'.freeVelocities = p.freeVelocities
  numConstraints : p'.numConstraints = p.numConstraints
  constraints : ∀ (k : ℕ) (c d : Constraint ℝ), p.constraint? k = some c → p'.constraint? k = some d →
  c.Turned (q k) d

namespace Problem.Turned

variable {q : ℕ → Turn} {p p' : Problem ℝ} {s : System ℝ}

theorem eq (h : Problem.Turned q p p') : p' = { p with constraints := p'.constraints } := by
  obtain ⟨dt, dynamics, free, constraints⟩ := p'
  obtain rfl := h.timeStep
  obtain rfl := h.dynamics
  obtain rfl := h.freeVelocities
  rfl

theorem exists_system (h : Problem.Turned q p p') (hp : p.Built) (hs : System.ofProblem? p = some s) :
    ∃ t, System.ofProblem? p' = some t ∧ System.Turned q p.timeStep s t := by
  have hstepped := (System.of_ofProblem? hs).stepped hp
  obtain ⟨factors, hfactors, rfl⟩ := System.ofProblem?_eq_some hs
  have hconstraints := h.constraints
  have hnum := h.numConstraints
  rw [h.eq] at hconstraints hnum ⊢
  generalize p'.constraints = constraints at hconstraints hnum ⊢
  have ht : System.ofProblem? { p with constraints := constraints } = some {
      dynamics := p.dynamicsMatrix
      freeVelocities := p.freeVelocities
      scaling := p.dynamicsMatrix.diagonal.map fun x => 1 / Scalar.sqrt x
      couplings := constraints.toList.map (Coupling.ofConstraint p factors.toArray) } := by
    rw [System.ofProblem?, hfactors]
    rfl
  refine ⟨_, ht, rfl, rfl, rfl, ?_, hstepped, fun k c d hc hd => ?_⟩
  · rw [List.length_map, List.length_map]
    exact hnum
  · simp only [List.getElem?_map, Option.map_eq_some_iff] at hc hd
    obtain ⟨c, hc, rfl⟩ := hc
    obtain ⟨d, hd, rfl⟩ := hd
    have hturned : c.Turned (q k) d := by
      refine hconstraints k c d ((p.constraint?_eq k).trans hc) ?_
      rw [constraint?_eq, hd]
    exact Coupling.turned_ofConstraint p factors.toArray hturned (hp.valid.made c (List.mem_of_getElem? hc))

/-- Both problems have a system or neither has. -/
theorem exists_system_of_turned (h : Problem.Turned q p p') {t : System ℝ}
    (ht : System.ofProblem? p' = some t) :
    ∃ s, System.ofProblem? p = some s := by
  obtain ⟨factors, hfactors, -⟩ := System.ofProblem?_eq_some ht
  rw [h.dynamics] at hfactors
  exact ⟨_, by rw [System.ofProblem?, hfactors]; rfl⟩

theorem solve (h : Problem.Turned q p p') (hp : p.Built) {config : SolverConfig ℝ} {guess : Vec ℝ}
    {x : Solution ℝ}
    (hx : p.solve config guess = .ok x) : ∃ y, p'.solve config guess = .ok y ∧ x.Alike y := by
  have hsize : p'.numVelocities = p.numVelocities := congrArg Vec.size h.freeVelocities
  refine Problem.solve_alike hsize (fun hnone => ?_) (fun s hs => ?_) hx
  · cases ht : System.ofProblem? p' with
    | none => rfl
    | some t =>
      obtain ⟨s, hs⟩ := h.exists_system_of_turned ht
      rw [hnone] at hs
      cases hs
  · obtain ⟨t, ht, hturned⟩ := h.exists_system hp hs
    exact ⟨congrArg Vec.size (System.of_ofProblem? hs).freeVelocities, t, ht, hturned.equivalent⟩

end Problem.Turned

end CompliantContact
