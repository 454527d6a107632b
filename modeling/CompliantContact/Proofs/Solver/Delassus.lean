import CompliantContact.Proofs.Dense.Inverse
import CompliantContact.Proofs.Solver.Assembly
import CompliantContact.Proofs.Solver.ContactImpulses
import CompliantContact.Proofs.Solver.Inertia

/-!
The inverse inertia of a constraint from the assembled matrices.

Tree by tree the factors answer a unit impulse at an equation with velocities of the trees that its
constraint couples. Placed among all velocities they are what the inverse of the assembled dynamics
matrix makes of the equation's row of the assembled Jacobian (`Coupling.sum_dynamicsMatrix_mul_answer`).
The blocks of a constraint are of different trees, so no block meets the answer of the other, and what
the blocks add up is a block on the diagonal of the dense product (`Problem.inverseInertia_eq_dense`).
-/

namespace CompliantContact

open Finset

namespace Problem

variable {p : Problem ℝ} {b : JacobianBlock ℝ} {c : Constraint ℝ} {t u : TreeIndex} {f g : ℕ → ℝ}
    {a : Mat ℝ} {v : ℕ}

/-! ### Values for the velocities of one tree -/

/-- Values for the velocities of a tree, among all velocities. -/
noncomputable def place (p : Problem ℝ) (t : TreeIndex) (f : ℕ → ℝ) (v : ℕ) : ℝ :=
  if p.treeStart t ≤ v ∧ v < p.treeStart t + p.treeSize t then f (v - p.treeStart t) else 0

theorem spread_eq_place (hb : p.Fits b) (row v : ℕ) :
    p.spread b row v = p.place b.tree (b.jacobian row) v := by
  rw [spread, place, hb.cols]

/-- The velocities of a tree are before those of the trees after it. -/
theorem treeStart_add_treeSize_le (h : t.val < u.val) : p.treeStart t + p.treeSize t ≤ p.treeStart u := by
  have hsize : p.treeSize t = (p.dynamics.toList.map Mat.rows).getD t.val 0 := by
    rw [treeSize, List.getD_eq_getElem?_getD, List.getElem?_map, Array.getElem?_toList]
  rw [treeStart, treeStart, List.map_take, List.map_take, hsize]
  exact total_take_add _ h

/-- At no velocity do two trees have values. -/
theorem place_mul_place (h : t ≠ u) (f g : ℕ → ℝ) (v : ℕ) : p.place t f v * p.place u g v = 0 := by
  rw [place, place]
  split_ifs with ht hu
  · have hne : t.val ≠ u.val := fun heq => h (congrArg TreeIndex.mk heq)
    rcases lt_or_gt_of_ne hne with hlt | hlt
    · have hle := treeStart_add_treeSize_le (p := p) hlt
      omega
    · have hle := treeStart_add_treeSize_le (p := p) hlt
      omega
  · exact mul_zero _
  · exact zero_mul _
  · exact zero_mul _

theorem place_add (ha : p.dynamics.toList[t.val]? = some a) (f : ℕ → ℝ) {r : ℕ} (hr : r < a.rows) :
    p.place t f (p.treeStart t + r) = f r := by
  rw [place, treeSize_eq ha, if_pos ⟨Nat.le_add_right .., Nat.add_lt_add_left hr _⟩, Nat.add_sub_cancel_left]

theorem Built.sum_mul_place (hp : p.Built) (ha : p.dynamics.toList[t.val]? = some a) (f g : ℕ → ℝ) :
    ∑ v ∈ range p.numVelocities, g v * p.place t f v = ∑ r ∈ range a.rows, g (p.treeStart t + r) * f r := by
  rw [Mat.sum_window (hp.treeStart_add_rows_le ha) fun v hv => by
    rw [place, treeSize_eq ha, if_neg hv, mul_zero]]
  exact sum_congr rfl fun r hr => by rw [place_add ha f (mem_range.mp hr)]

/-- In the column of a tree's velocity stand the entries of the tree, and zeros outside its rows. -/
theorem Built.dynamicsMatrix_get_tree (hp : p.Built) (htrees : p.HasSPDTrees)
    (ha : p.dynamics.toList[t.val]? = some a)
    (hv : v < p.numVelocities) {q : ℕ} (hq : q < a.rows) : p.dynamicsMatrix v (p.treeStart t + q) =
      if p.treeStart t ≤ v ∧ v < p.treeStart t + a.rows then a (v - p.treeStart t) q else 0 := by
  have hlast := hp.treeStart_add_rows_le ha
  have hsymm := (htrees a (List.mem_of_getElem? ha)).symm
  -- The entries are known by rows, and the matrix is symmetric.
  rw [(isSPD_dynamicsMatrix hp.valid.size htrees).symm, dynamicsMatrix_get p (by omega) hv]
  refine (blockEntry_of_block ha (Nat.le_add_right ..) (Nat.add_lt_add_left hq _)).trans ?_
  rw [Nat.add_sub_cancel_left, hsymm]
  rfl

/-- The dynamics matrix takes values of one tree to values of this tree, by the matrix of the tree. -/
theorem Built.sum_dynamicsMatrix_mul_place (hp : p.Built) (htrees : p.HasSPDTrees)
    (ha : p.dynamics.toList[t.val]? = some a)
    (hfg : ∀ r < a.rows, ∑ q ∈ range a.rows, a r q * f q = g r) (hv : v < p.numVelocities) :
    ∑ u ∈ range p.numVelocities, p.dynamicsMatrix v u * p.place t f u = p.place t g v := by
  have hentry : ∀ q ∈ range a.rows, p.dynamicsMatrix v (p.treeStart t + q) =
      if p.treeStart t ≤ v ∧ v < p.treeStart t + a.rows then a (v - p.treeStart t) q else 0 := fun q hq =>
    hp.dynamicsMatrix_get_tree htrees ha hv (mem_range.mp hq)
  rw [hp.sum_mul_place ha, place, treeSize_eq ha]
  split_ifs with hinside
  · rw [← hfg _ (Nat.sub_lt_left_of_lt_add hinside.1 hinside.2)]
    exact sum_congr rfl fun q hq => by rw [hentry q hq, if_pos hinside]
  · exact sum_eq_zero fun q hq => by rw [hentry q hq, if_neg hinside, zero_mul]

/-- The rows of a constraint in a Jacobian of more equations. -/
theorem get_of_rowBlock {jacobian : Mat ℝ} {start i : ℕ}
    (h : jacobian.rowBlock start c.numEquations = p.constraintJacobian c)
    (hi : i < c.numEquations) (hv : v < p.numVelocities) :
    jacobian (start + i) v = p.jacobianEntry c i v := by
  have hcols : jacobian.cols = p.numVelocities := (congrArg Mat.cols h :)
  have hentry : jacobian.rowBlock start c.numEquations i v = p.constraintJacobian c i v := by rw [h]
  rwa [Mat.rowBlock, Mat.get_ofFn_of_lt hi (hcols ▸ hv), constraintJacobian,
    Mat.get_ofFn_of_lt hi hv] at hentry

/-- Where the blocks of a constraint have values, only those of one block meet. -/
theorem sum_place_mul_sum_place (hc : c.Shaped) (f g : JacobianBlock ℝ → ℕ → ℝ) (v : ℕ) :
    (c.blocks.map fun b => p.place b.tree (f b) v).sum * (c.blocks.map fun b => p.place b.tree (g b) v).sum =
      (c.blocks.map fun b => p.place b.tree (f b) v * p.place b.tree (g b) v).sum := by
  cases hsecond : c.second with
  | none => simp [Constraint.blocks, hsecond]
  | some d =>
    have htrees := hc.trees d hsecond
    simp only [Constraint.blocks, hsecond, Option.toList_some, List.map_cons, List.map_nil,
      List.sum_cons, List.sum_nil,
      add_zero, add_mul, mul_add, place_mul_place htrees, place_mul_place htrees.symm, zero_add]

end Problem

namespace Coupling

variable {p : Problem ℝ} {factors : List (Mat ℝ)} {b : JacobianBlock ℝ} {c : Constraint ℝ} {i j k v : ℕ}

/-! ### Answers to unit impulses -/

/-- The velocities with which all trees answer a unit impulse at an equation. -/
noncomputable def answer (p : Problem ℝ) (factors : Array (Mat ℝ)) (c : Constraint ℝ) (j v : ℕ) : ℝ :=
  (c.blocks.map fun b => p.place b.tree (solved factors b j) v).sum

/-- The dynamics matrix takes the answer to the row of the equation. -/
theorem sum_dynamicsMatrix_mul_answer (hp : p.Built) (htrees : p.HasSPDTrees)
    (hfactors : p.dynamics.toList.mapM Cholesky.factor? = some factors)
    (hc : c ∈ p.constraints.toList) (j : ℕ) (hv : v < p.numVelocities) :
    ∑ u ∈ range p.numVelocities, p.dynamicsMatrix v u * answer p factors.toArray c j u =
      p.jacobianEntry c j v := by
  have hblock : ∀ b ∈ c.blocks, ∑ u ∈ range p.numVelocities,
      p.dynamicsMatrix v u * p.place b.tree (solved factors.toArray b j) u = p.spread b j v := by
    intro b hb
    have hfits := hp.fits c hc b hb
    obtain ⟨a, ha, hcols, hfactor⟩ := exists_tree hfactors hfits
    have hspd := htrees a (List.mem_of_getElem? ha)
    rw [Problem.spread_eq_place hfits]
    refine hp.sum_dynamicsMatrix_mul_place htrees ha (fun r hr => ?_) hv
    exact (Cholesky.sum_mul_solve_eq hspd.square hspd.symm hfactor _ hr).trans (row_get ..)
  simp only [answer, ← List.sum_map_mul_left]
  rw [System.sum_map_comm, List.map_congr_left hblock, Problem.jacobianEntry_eq]

/-- Against the answer to one equation, the row of another gives an entry of the inverse inertia. -/
theorem sum_jacobianEntry_mul_answer (hp : p.Built)
    (hfactors : p.dynamics.toList.mapM Cholesky.factor? = some factors)
    (hc : c ∈ p.constraints.toList) (hi : i < c.numEquations) (hj : j < c.numEquations) :
    ∑ u ∈ range p.numVelocities, p.jacobianEntry c i u * answer p factors.toArray c j u =
      inertia factors.toArray c i j := by
  have hshaped := (hp.valid.made c hc).shaped
  have hrow : ∀ u, p.jacobianEntry c i u = (c.blocks.map fun b => p.place b.tree (b.jacobian i) u).sum := by
    intro u
    rw [Problem.jacobianEntry_eq]
    exact congrArg List.sum (List.map_congr_left fun b hb => Problem.spread_eq_place (hp.fits c hc b hb) i u)
  have hblock : ∀ b ∈ c.blocks, ∑ u ∈ range p.numVelocities,
      p.place b.tree (b.jacobian i) u * p.place b.tree (solved factors.toArray b j) u =
        blockInertia factors.toArray b i j := by
    intro b hb
    obtain ⟨a, ha, hcols, -⟩ := exists_tree hfactors (hp.fits c hc b hb)
    have hrows := hshaped.rows b hb
    rw [hp.sum_mul_place ha, blockInertia_get (hrows.symm ▸ hi) (hrows.symm ▸ hj), hcols]
    exact sum_congr rfl fun r hr => by rw [Problem.place_add ha (b.jacobian i) (mem_range.mp hr)]
  -- No block meets the answer of the other, so the product of the sums is the sum of the products.
  simp only [hrow, answer, Problem.sum_place_mul_sum_place hshaped]
  rw [System.sum_map_comm, List.map_congr_left hblock, inertia_get hi hj]

/-- What is added block by block is a block on the diagonal of the dense product. -/
theorem inertia_eq_diagonalBlock (hp : p.Built) (htrees : p.HasSPDTrees)
    (hfactors : p.dynamics.toList.mapM Cholesky.factor? = some factors) (hc : c ∈ p.constraints.toList)
    {jacobian inverse : Mat ℝ} {start : ℕ} (hinverse : p.dynamicsMatrix.IsInverse inverse)
    (hrows : start + c.numEquations ≤ jacobian.rows)
    (hblock : jacobian.rowBlock start c.numEquations = p.constraintJacobian c) :
    inertia factors.toArray c = (jacobian * inverse * jacobian.transpose).diagonalBlock start
      c.numEquations := by
  have hcols : jacobian.cols = p.numVelocities := (congrArg Mat.cols hblock :)
  refine Mat.ext (rows_inertia ..) (cols_inertia ..) fun i hi j hj => ?_
  rw [rows_inertia] at hi
  rw [cols_inertia] at hj
  rw [Mat.diagonalBlock, Mat.get_ofFn_of_lt hi hj, Mat.get_mul_mul_transpose (by omega) (by omega),
    hinverse.cols, hcols,
    ← sum_jacobianEntry_mul_answer hp hfactors hc hi hj]
  refine sum_congr rfl fun u hu => ?_
  rw [Problem.get_of_rowBlock hblock hi (mem_range.mp hu),
    ← hinverse.sum_mul (fun v hv => sum_dynamicsMatrix_mul_answer hp htrees hfactors hc j hv)
      (mem_range.mp hu)]
  exact congrArg _ (sum_congr rfl fun v hv => by rw [Problem.get_of_rowBlock hblock hj (mem_range.mp hv)])

end Coupling

/-- The inverse inertia that the solver takes for a constraint, found block by block from the factors of
    the trees, is the Frobenius norm of a block of `J A⁻¹ Jᵀ` over the number of its rows, with the
    assembled Jacobian `J` and the assembled dynamics matrix `A`, and the block for the rows where the
    Jacobian of the constraint stands. -/
theorem Problem.inverseInertia_eq_dense {p : Problem ℝ} (hp : p.Built) (htrees : p.HasSPDTrees) :
    ∃ factors s jacobian inverse, p.dynamics.toList.mapM Cholesky.factor? = some factors ∧
    System.ofProblem? p = some s ∧
      (CountedProblem.of p).assembleDynamics? = some s.dynamics ∧ s.dynamics.IsInverse inverse ∧
      (CountedProblem.of p).assembleJacobian? = some jacobian ∧
      ∀ k c, p.constraint? k = some c →
        jacobian.rowBlock (p.equationStart k) c.numEquations = p.constraintJacobian c ∧
        Coupling.inverseInertia factors.toArray c =
          ((jacobian * inverse * jacobian.transpose).diagonalBlock
            (p.equationStart k) c.numEquations).frobeniusNorm /
            c.numEquations ∧
        ∃ coupling, s.couplings[k]? = some coupling ∧ coupling.constraint = c ∧
          coupling.r = c.regularization p.timeStep (Coupling.inverseInertia factors.toArray c) := by
  have hkept : (CountedProblem.of p).Kept := ⟨hp, rfl⟩
  have hspd := isSPD_dynamicsMatrix hp.valid.size htrees
  obtain ⟨s, hs, -, -⟩ := hp.exists_system htrees
  obtain ⟨factors, hfactors, rfl⟩ := System.ofProblem?_eq_some hs
  obtain ⟨jacobian, hjacobian, hrows, -, hblocks⟩ := hkept.jacobian
  obtain ⟨l, hl, -⟩ := Cholesky.exists_factor hspd
  have hinverse := Cholesky.isInverse_of_factor? hspd.square hspd.symm hl
  refine ⟨factors, _, jacobian, Cholesky.inverse l, hfactors, hs, hkept.dynamics, hinverse, hjacobian,
    fun k c hk => ?_⟩
  have hblock := hblocks k c hk
  have hlast := (equationStart_add_le hk).trans_eq (hrows.trans hkept.equationCount_eq).symm
  rw [constraint?_eq] at hk
  refine ⟨hblock, ?_, Coupling.ofConstraint p factors.toArray c, ?_, rfl, rfl⟩
  · rw [Coupling.inverseInertia_eq,
      Coupling.inertia_eq_diagonalBlock hp htrees hfactors (List.mem_of_getElem? hk) hinverse hlast hblock]
  · rw [List.getElem?_map, hk, Option.map_some]

/-! ### A link between two trees -/

noncomputable section

/-- A push along all three velocities of two trees, the second tree first. -/
def link : Constraint ℝ :=
  ⟨.holonomic pushParameters, .ofList [0], ⟨⟨1⟩, .ofFn 1 1 fun _ _ => 1⟩,
    some ⟨⟨0⟩, .ofFn 1 2 fun _ j => (j + 3 : ℕ)⟩⟩

def linked : Problem ℝ := ⟨1, #[Cholesky.twoByTwo, .ofFn 1 1 fun _ _ => 1], .ofList [0, 0, 0], #[link]⟩

end

theorem made_link : link.Made := .holonomic (Constraint.holonomic_pushParameters link.blocks rfl)

open Outcome in
theorem built_linked : linked.Built := by
  have hnew : Problem.new 1 linked.dynamics.toList linked.freeVelocities =
      .ok { linked with constraints := #[] } := by
    rw [Problem.new, require_bind_eq_ok_iff]
    exact ⟨one_pos, rfl⟩
  exact .addConstraint (.new hnew) made_link rfl

theorem hasSPDTrees_linked : linked.HasSPDTrees := by
  intro a ha
  rcases List.mem_pair.mp ha with rfl | rfl
  · exact Cholesky.isSPD_twoByTwo
  · refine Mat.isSPD_one rfl rfl ?_
    rw [Mat.get_ofFn_of_lt one_pos one_pos]
    exact one_pos

/-- The row of the link. -/
noncomputable def linkRow (v : ℕ) : ℝ := if v < 2 then (v + 3 : ℕ) else 1

theorem jacobianEntry_link {v : ℕ} (hv : v < 3) : linked.jacobianEntry link 0 v = linkRow v := by
  have hfirst : linked.treeStart ⟨0⟩ = 0 := rfl
  have hsecond : linked.treeStart ⟨1⟩ = 2 := rfl
  have hcases : v = 0 ∨ v = 1 ∨ v = 2 := by omega
  rw [Problem.jacobianEntry, link, Constraint.blocks]
  rcases hcases with rfl | rfl | rfl <;> norm_num [hfirst, hsecond, linkRow]

/-- The dynamics matrix takes ones to the row of the link. -/
theorem sum_dynamicsMatrix_linked {v : ℕ} (hv : v < 3) :
    ∑ u ∈ range 3, linked.dynamicsMatrix v u * 1 = linkRow v := by
  have hentry : ∀ u ∈ range 3, linked.dynamicsMatrix v u * 1 =
      Problem.blockEntry linked.dynamics.toList v u := fun u hu => by
    rw [Problem.dynamicsMatrix_get linked hv (mem_range.mp hu), mul_one]
  have hcases : v = 0 ∨ v = 1 ∨ v = 2 := by omega
  rw [sum_congr rfl hentry]
  rcases hcases with rfl | rfl | rfl <;>
    norm_num [sum_range_succ, linked, Problem.blockEntry, Cholesky.twoByTwo, Mat.get_ofFn, linkRow]

theorem product_linked {jacobian inverse : Mat ℝ} (hinverse : linked.dynamicsMatrix.IsInverse inverse)
    (hblock : jacobian.rowBlock 0 link.numEquations = linked.constraintJacobian link) :
    (jacobian * inverse * jacobian.transpose) 0 0 = 8 := by
  have hcols : jacobian.cols = 3 := (congrArg Mat.cols hblock :)
  have hinverseCols : inverse.cols = 3 := hinverse.cols
  have hrow : ∀ v ∈ range 3, jacobian 0 v = linkRow v := by
    intro v hv
    have hv := mem_range.mp hv
    have hfirst : 0 < link.numEquations := one_pos
    have hentry : jacobian (0 + 0) v = linked.jacobianEntry link 0 v :=
      Problem.get_of_rowBlock hblock hfirst hv
    rwa [jacobianEntry_link hv] at hentry
  have hrows : 0 < jacobian.rows := by
    by_contra hout
    have hone : jacobian 0 2 = 1 := hrow 2 (by simp)
    rw [Mat.get_outside fun h => hout h.1] at hone
    exact zero_ne_one hone
  have hanswer : ∀ u ∈ range 3, ∑ v ∈ range 3, inverse u v * jacobian 0 v = 1 := by
    intro u hu
    rw [← hinverse.sum_mul (x := fun _ => 1) (fun v hv => sum_dynamicsMatrix_linked hv) (mem_range.mp hu)]
    exact sum_congr rfl fun v hv => by rw [hrow v hv]
  rw [Mat.get_mul_mul_transpose hrows hrows, hcols, hinverseCols,
    sum_congr rfl fun u hu => by rw [hanswer u hu, hrow u hu]]
  norm_num [sum_range_succ, linkRow]

theorem inverseInertia_eq_dense_linked : linked.Built ∧ linked.HasSPDTrees ∧
    ∃ factors s, linked.dynamics.toList.mapM Cholesky.factor? = some factors ∧
    System.ofProblem? linked = some s ∧
      Coupling.inverseInertia factors.toArray link = 8 ∧
      ∃ coupling, s.couplings[0]? = some coupling ∧ coupling.constraint = link ∧
      coupling.r = link.regularization 1 8 := by
  obtain ⟨factors, s, jacobian, inverse, hfactors, hs, -, hinverse, -, hconstraints⟩ :=
    Problem.inverseInertia_eq_dense built_linked hasSPDTrees_linked
  obtain ⟨hblock, hw, coupling, hcoupling, hconstraint, hr⟩ := hconstraints 0 link rfl
  rw [(System.of_ofProblem? hs).dynamics] at hinverse
  have hone : link.numEquations = 1 := rfl
  have hestimate : Coupling.inverseInertia factors.toArray link = 8 := by
    refine hw.trans ?_
    rw [hone, Nat.cast_one, div_one, Mat.frobeniusNorm_diagonalBlock_one]
    have hproduct := product_linked hinverse hblock
    refine (congrArg abs hproduct).trans ?_
    norm_num
  rw [hestimate] at hr
  exact ⟨built_linked, hasSPDTrees_linked, factors, s, hfactors, hs, hestimate, coupling, hcoupling,
    hconstraint, hr⟩

end CompliantContact
