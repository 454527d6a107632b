import CompliantContact.Proofs.Dense.Definite
import CompliantContact.Proofs.Dense.Solve
import CompliantContact.Proofs.Problem.Shape
import CompliantContact.Proofs.Solver.Evaluate

/-!
The inverse inertia that a constraint sees.

It is positive if and only if some velocity moves the constraint at all. An equation without a spring of
its own has no other regularization, so those of a constraint that nothing moves have none: the
tangential equations of a contact between bodies that are welded together, say.
-/

namespace CompliantContact

open Finset

/-- Some velocity moves the constraint: one of its blocks is not zero. -/
def Constraint.Moves (c : Constraint ℝ) : Prop := ∃ b ∈ c.blocks, ∃ i j, b.jacobian i j ≠ 0

namespace Coupling

variable {factors : Array (Mat ℝ)} {b : JacobianBlock ℝ} {c : Constraint ℝ} {i j n : ℕ}

/-- The block has a row for each equation and a factor as wide as itself, without zeros along its diagonal. -/
structure Factorized (factors : Array (Mat ℝ)) (n : ℕ) (b : JacobianBlock ℝ) : Prop where
  rows : b.jacobian.rows = n
  cols : (factors.getD b.tree.val default).rows = b.jacobian.cols
  diagonal : ∀ k < b.jacobian.cols, factors.getD b.tree.val default k k ≠ 0

/-- What a row of a block is solved to. -/
noncomputable def solved (factors : Array (Mat ℝ)) (b : JacobianBlock ℝ) (i k : ℕ) : ℝ :=
  Cholesky.solve (factors.getD b.tree.val default) (b.jacobian.transpose.column i) k

theorem blockInertia_get (hi : i < b.jacobian.rows) (hj : j < b.jacobian.rows) :
    blockInertia factors b i j = ∑ k ∈ range b.jacobian.cols, b.jacobian i k * solved factors b j k := by
  rw [blockInertia, Mat.get_ofFn_of_lt hi hj, Scalar.sum_eq_sum_range]
  refine sum_congr rfl fun k _ => ?_
  rw [Array.getD_eq_getD_getElem?, Array.getElem?_ofFn, dif_pos hj]
  rfl

theorem row_get (b : JacobianBlock ℝ) (i k : ℕ) : b.jacobian.transpose.column i k = b.jacobian i k :=
  (Mat.column_get ..).trans (Mat.transpose_get ..)

/-- On the diagonal stands the form of the inverse at a row of the block. -/
theorem blockInertia_self (h : Factorized factors n b) (hi : i < n) :
    blockInertia factors b i i = ∑ k ∈ range (factors.getD b.tree.val default).rows,
      b.jacobian.transpose.column i k *
        Cholesky.solve (factors.getD b.tree.val default) (b.jacobian.transpose.column i) k := by
  have hrow : i < b.jacobian.rows := h.rows.symm ▸ hi
  rw [blockInertia_get hrow hrow, h.cols]
  exact sum_congr rfl fun k _ => by rw [row_get, solved]

theorem Factorized.pivots (h : Factorized factors n b) :
    ∀ k < (factors.getD b.tree.val default).rows, factors.getD b.tree.val default k k ≠ 0 :=
  fun k hk => h.diagonal k (h.cols ▸ hk)

theorem blockInertia_self_nonneg (h : Factorized factors n b) (hi : i < n) :
    0 ≤ blockInertia factors b i i := by
  rw [blockInertia_self h hi]
  exact Cholesky.sum_mul_solve_self_nonneg h.pivots _

theorem blockInertia_self_pos (h : Factorized factors n b) (hne : b.jacobian i j ≠ 0) :
    0 < blockInertia factors b i i := by
  have hinside : i < b.jacobian.rows ∧ j < b.jacobian.cols := by
    by_contra houtside
    exact hne (Mat.get_outside houtside)
  rw [blockInertia_self h (h.rows ▸ hinside.1)]
  refine Cholesky.sum_mul_solve_self_pos h.pivots (j := j) (h.cols ▸ hinside.2) ?_
  rwa [row_get]

/-- A block that is zero adds nothing. -/
theorem blockInertia_eq_zero (hzero : ∀ i j, b.jacobian i j = 0) (i j : ℕ) :
    blockInertia factors b i j = 0 := by
  by_cases hinside : i < b.jacobian.rows ∧ j < b.jacobian.rows
  · rw [blockInertia_get hinside.1 hinside.2]
    refine sum_eq_zero fun k _ => ?_
    rw [hzero, zero_mul]
  · exact Mat.get_outside hinside

/-- The sum of what the blocks of a constraint add. -/
noncomputable def inertia (factors : Array (Mat ℝ)) (c : Constraint ℝ) : Mat ℝ :=
  c.blocks.foldl (fun acc b => acc + blockInertia factors b) (Mat.zeros c.numEquations c.numEquations)

theorem inertia_eq (factors : Array (Mat ℝ)) (c : Constraint ℝ) : inertia factors c =
    (c.blocks.map (blockInertia factors)).foldl (· + ·) (Mat.zeros c.numEquations c.numEquations) := by
  rw [inertia, List.foldl_map]

theorem rows_inertia (factors : Array (Mat ℝ)) (c : Constraint ℝ) :
    (inertia factors c).rows = c.numEquations := by
  rw [inertia_eq]
  exact (Mat.foldl_add ..).1

theorem cols_inertia (factors : Array (Mat ℝ)) (c : Constraint ℝ) :
    (inertia factors c).cols = c.numEquations := by
  rw [inertia_eq]
  exact (Mat.foldl_add ..).2.1

theorem inertia_get (hi : i < c.numEquations) (hj : j < c.numEquations) :
    inertia factors c i j = (c.blocks.map fun b => blockInertia factors b i j).sum := by
  have hzero : (Mat.zeros c.numEquations c.numEquations : Mat ℝ) i j = 0 := Mat.get_ofFn_of_lt hi hj
  rw [inertia_eq, (Mat.foldl_add _ _).2.2 i hi j hj, hzero, zero_add, List.map_map]
  rfl

theorem inverseInertia_eq (factors : Array (Mat ℝ)) (c : Constraint ℝ) :
    inverseInertia factors c = (inertia factors c).frobeniusNorm / c.numEquations := by
  rw [← Scalar.ofNat_eq]
  rfl

/-- A constraint sees an inverse inertia if and only if some velocity moves it. -/
theorem inverseInertia_pos_iff (h : ∀ b ∈ c.blocks, Factorized factors c.numEquations b) :
    0 < inverseInertia factors c ↔ c.Moves := by
  rw [inverseInertia_eq]
  constructor
  · contrapose
    intro hstill
    have hzero : ∀ b ∈ c.blocks, ∀ i j, b.jacobian i j = 0 := by
      intro b hb i j
      by_contra hne
      exact hstill ⟨b, hb, i, j, hne⟩
    rw [Mat.frobeniusNorm_eq_zero, zero_div]
    · exact lt_irrefl 0
    · intro i hi j hj
      rw [rows_inertia] at hi
      rw [cols_inertia] at hj
      rw [inertia_get hi hj]
      refine List.sum_eq_zero fun x hx => ?_
      obtain ⟨b, hb, rfl⟩ := List.mem_map.mp hx
      exact blockInertia_eq_zero (hzero b hb) i j
  · rintro ⟨b, hb, i, j, hne⟩
    have hi : i < c.numEquations := by
      by_contra houtside
      exact hne (Mat.get_outside fun hinside => houtside ((h b hb).rows ▸ hinside.1))
    -- On the diagonal no block takes away what another adds.
    have hdiagonal : 0 < inertia factors c i i := by
      have hnonneg : ∀ x ∈ c.blocks.map fun d => blockInertia factors d i i, 0 ≤ x := by
        intro x hx
        obtain ⟨d, hd, rfl⟩ := List.mem_map.mp hx
        exact blockInertia_self_nonneg (h d hd) hi
      rw [inertia_get hi hi]
      exact (blockInertia_self_pos (h b hb) hne).trans_le
        (List.single_le_sum hnonneg _ (List.mem_map_of_mem hb))
    have hpos : 0 < (inertia factors c).frobeniusNorm :=
      Mat.frobeniusNorm_pos (by rwa [rows_inertia]) (by rwa [cols_inertia]) hdiagonal.ne'
    exact div_pos hpos (Nat.cast_pos.mpr (i.zero_le.trans_lt hi))

/-- The tree of a block, with its factor. -/
theorem exists_tree {p : Problem ℝ} {factors : List (Mat ℝ)}
    (hfactors : p.dynamics.toList.mapM Cholesky.factor? = some factors) (hb : p.Fits b) :
    ∃ a, p.dynamics.toList[b.tree.val]? = some a ∧ b.jacobian.cols = a.rows ∧
      Cholesky.factor? a = some (factors.toArray.getD b.tree.val default) := by
  obtain ⟨a, ha⟩ : ∃ a, p.dynamics.toList[b.tree.val]? = some a := ⟨_, List.getElem?_eq_getElem hb.tree⟩
  obtain ⟨l, hl, hfactor⟩ := exists_of_mapM hfactors ha
  refine ⟨a, ha, hb.cols.trans (Problem.treeSize_eq ha), ?_⟩
  rw [Array.getD_eq_getD_getElem?, List.getElem?_toArray, hfactor]
  exact hl

/-- The blocks of a problem whose trees have symmetric positive definite matrices, with the factors of
    these. -/
theorem factorized {p : Problem ℝ} (hp : p.Built) (htrees : p.HasSPDTrees) {factors : List (Mat ℝ)}
    (hfactors : p.dynamics.toList.mapM Cholesky.factor? = some factors) (hc : c ∈ p.constraints.toList) :
    ∀ b ∈ c.blocks, Factorized factors.toArray c.numEquations b := by
  intro b hb
  obtain ⟨a, ha, hcols, hfactor⟩ := exists_tree hfactors (hp.fits c hc b hb)
  have hfactored := Cholesky.factored_of_factor? (htrees a (List.mem_of_getElem? ha)).square hfactor
  exact ⟨(hp.valid.made c hc).shaped.rows b hb, hfactored.rows.trans hcols.symm, fun k hk =>
    (hfactored.pos k (hcols ▸ hk)).ne'⟩

/-- Where an entry of the regularization is positive. -/
theorem regularization_pos_iff {p : Problem ℝ} (hp : p.Built) (htrees : p.HasSPDTrees)
    {factors : List (Mat ℝ)}
    (hfactors : p.dynamics.toList.mapM Cholesky.factor? = some factors) (hc : c ∈ p.constraints.toList)
    (hi : i < c.numEquations) :
    0 < c.regularization p.timeStep (inverseInertia factors.toArray c) i ↔ c.Compliant i ∨ c.Moves := by
  rw [← inverseInertia_pos_iff (factorized hp htrees hfactors hc)]
  exact Constraint.regularization_pos_iff (hp.valid.made c hc).inRange hp.valid.timeStep_pos hi

end Coupling

/-- No entry of the regularization is negative. One is positive if and only if its equation has a spring
    of its own or some velocity moves its constraint. -/
theorem regularization_pos_iff_compliant_or_moves {p : Problem ℝ} (hp : p.Built) (htrees : p.HasSPDTrees) :
    ∃ s, System.ofProblem? p = some s ∧ s.couplings.map Coupling.constraint = p.constraints.toList ∧
      ∀ c ∈ s.couplings, c.r.size = c.constraint.numEquations ∧ ∀ i < c.constraint.numEquations,
        0 ≤ c.r i ∧ (0 < c.r i ↔ c.constraint.Compliant i ∨ c.constraint.Moves) := by
  obtain ⟨s, hs, hregular, -⟩ := hp.exists_system htrees
  obtain ⟨factors, hfactors, rfl⟩ := System.ofProblem?_eq_some hs
  refine ⟨_, hs, ?_, fun c hc => ⟨(hregular.couplings c hc).size_r, fun i hi => ?_⟩⟩
  · show (p.constraints.toList.map _).map _ = _
    rw [List.map_map]
    exact List.map_id' _
  · obtain ⟨constraint, hmem, rfl⟩ := List.mem_map.mp hc
    exact ⟨(hregular.couplings _ hc).weighs.nonneg i hi,
      Coupling.regularization_pos_iff hp htrees hfactors hmem hi⟩

/-! ### A contact that nothing moves -/

noncomputable section

/-- A contact between bodies that are welded together: no velocity of their tree moves it. -/
def weld : Constraint ℝ := ⟨.cone ⟨1, 1, 0, 1, 1⟩, .ofList [0, 0, -1], ⟨⟨0⟩, .ofFn 3 1 fun _ _ => 0⟩, none⟩

def welded : Problem ℝ := ⟨1, #[.ofFn 1 1 fun _ _ => 1], .ofList [0], #[weld]⟩

end

open Outcome in
/-- All parameters of a contact may be one, but for its dissipation. -/
theorem Constraint.cone_unit {blocks : List (JacobianBlock ℝ)} {first : JacobianBlock ℝ}
    {second : Option (JacobianBlock ℝ)} (h : checkBlocks 3 blocks = .ok (first, second)) :
    cone blocks (-1) ⟨1, 1, 0, 1, 1⟩ = .ok ⟨.cone ⟨1, 1, 0, 1, 1⟩, .ofList [0, 0, -1], first, second⟩ := by
  rw [cone, require_bind_eq_ok_iff, checkFactors, require_bind_eq_ok_iff, h]
  exact ⟨⟨zero_le_one, one_pos, le_rfl⟩, ⟨one_pos, by simp⟩, rfl⟩

open Outcome in
theorem built_welded : welded.Built := by
  have hnew : Problem.new 1 welded.dynamics.toList welded.freeVelocities =
      .ok { welded with constraints := #[] } := by
    rw [Problem.new, require_bind_eq_ok_iff]
    exact ⟨one_pos, rfl⟩
  have hcone : Constraint.cone [weld.first] (-1) ⟨1, 1, 0, 1, 1⟩ = .ok weld := Constraint.cone_unit rfl
  exact .addConstraint (.new hnew) (.cone hcone) rfl

theorem not_moves_weld : ¬ weld.Moves := by
  rintro ⟨b, hb, i, j, hne⟩
  obtain rfl : b = weld.first := List.mem_singleton.mp hb
  exact hne ((Mat.get_ofFn ..).trans (ite_self 0))

/-- Along its tangents the welded contact has no regularization. -/
theorem regularization_weld : welded.Built ∧ welded.HasSPDTrees ∧
    ∃ s, System.ofProblem? welded = some s ∧ ∃ c ∈ s.couplings, c.constraint = weld ∧
      c.r 0 = 0 ∧ c.r 1 = 0 ∧ 0 < c.r 2 := by
  obtain ⟨s, hs, hconstraints, hr⟩ :=
    regularization_pos_iff_compliant_or_moves built_welded hasSPDTrees_pushed
  obtain ⟨c, hc, hweld⟩ : ∃ c ∈ s.couplings, c.constraint = weld := by
    rw [← List.mem_map, hconstraints]
    exact List.mem_singleton.mpr rfl
  have hrows := (hr c hc).2
  rw [hweld] at hrows
  have hzero : ∀ i < 3, i ≠ 2 → c.r i = 0 := by
    intro i hi hne
    refine le_antisymm (not_lt.mp fun hpos => ?_) (hrows i hi).1
    rcases (hrows i hi).2.mp hpos with hcompliant | hmoves
    · exact hne hcompliant
    · exact not_moves_weld hmoves
  exact ⟨built_welded, hasSPDTrees_pushed, s, hs, c, hc, hweld, hzero 0 (by decide) (by decide),
    hzero 1 (by decide) (by decide), (hrows 2 (by decide)).2.mpr (.inl rfl)⟩

end CompliantContact
