import CompliantContact.Proofs.Simulation.ConstraintVelocities
import CompliantContact.Proofs.Solver.Inertia

/-!
The forces of joint limits.

A limit sees the same inverse inertia whether it has one side or two, so each side has the
regularization that it would have by itself, and pushes by itself: the force of a limit is the sum of
what its sides push (`force_limit`). A side that the velocity does not reach within two steps does not
push.
-/

namespace CompliantContact

open Finset Outcome

variable {factors : Array (Mat ℝ)} {t : TreeIndex} {place size d i j n : ℕ} {q0 dt tau r vd : ℝ}
  {q : LimitParameters ℝ} {c : Constraint ℝ} {v : Vec ℝ}

/-! ### The inverse inertia of limits -/

namespace Coupling

/-- The inverse inertia along one velocity of a tree. -/
noncomputable def unitInertia (factors : Array (Mat ℝ)) (t : TreeIndex) (size place : ℕ) : ℝ :=
  Cholesky.solve (factors.getD t.val default) (.ofFn size fun j => if j = place then 1 else 0) place

/-- The block that stands for one velocity, with a sign for each equation. -/
def signedColumn (t : TreeIndex) (rows size place : ℕ) (sign : ℕ → ℝ) : JacobianBlock ℝ :=
  ⟨t, .ofFn rows size fun i j => if j = place then sign i else 0⟩

theorem blockInertia_signedColumn {sign : ℕ → ℝ} (hplace : place < size) (hi : i < n) (hj : j < n) :
    blockInertia factors (signedColumn t n size place sign) i j =
      sign i * sign j * unitInertia factors t size place := by
  have hentry : ∀ i < n, ∀ k < size, (signedColumn t n size place sign).jacobian i k = if k = place then
    sign i else 0 :=
    fun i hi k hk => Mat.get_ofFn_of_lt hi hk
  have hrow : ∀ k, (signedColumn t n size place sign).jacobian.transpose.column j k =
      sign j * Vec.ofFn size (fun j => if j = place then (1 : ℝ) else 0) k +
        0 * Vec.ofFn size (fun j => if j = place then (1 : ℝ) else 0) k := by
    intro k
    rw [zero_mul, add_zero, row_get]
    by_cases hk : k < size
    · rw [hentry j hj k hk, Vec.get_ofFn_of_lt hk, mul_ite, mul_one, mul_zero]
    · rw [Mat.get_outside fun h => hk h.2,
        Vec.get_of_size_le (by rw [Vec.size_ofFn]; exact not_lt.mp hk), mul_zero]
  have hcols : (signedColumn t n size place sign).jacobian.cols = size := rfl
  rw [blockInertia_get (b := signedColumn t n size place sign) hi hj, hcols,
    sum_congr rfl fun k hk => by rw [hentry i hi k (mem_range.mp hk), ite_mul, zero_mul], sum_ite_eq',
    if_pos (mem_range.mpr hplace), solved, Cholesky.solve_combine hrow]
  show sign i * (sign j * unitInertia factors t size place + 0 * unitInertia factors t size place) = _
  ring

/-- What a constraint on one velocity sees: the inverse inertia along it, as often as its equations
    follow it. -/
theorem inverseInertia_signedColumn {sign : ℕ → ℝ} (hplace : place < size) (hequations : c.numEquations = n)
    (hblocks : c.blocks = [signedColumn t n size place sign]) :
    inverseInertia factors c = (∑ i ∈ range n, sign i ^ 2) * |unitInertia factors t size place| / n := by
  have hterm : ∀ j ∈ range n, ∀ i ∈ range n, inertia factors c i j * inertia factors c i j =
      sign i ^ 2 * (sign j ^ 2 * unitInertia factors t size place ^ 2) := by
    intro j hj i hi
    have hi := mem_range.mp hi
    have hj := mem_range.mp hj
    rw [inertia_get (hequations ▸ hi) (hequations ▸ hj), hblocks, List.map_singleton, List.sum_singleton,
      blockInertia_signedColumn hplace hi hj]
    ring
  have hsquare : 0 ≤ ∑ i ∈ range n, sign i ^ 2 := sum_nonneg fun i _ => sq_nonneg (sign i)
  rw [inverseInertia_eq, Mat.frobeniusNorm_eq, rows_inertia, cols_inertia, hequations,
    sum_congr rfl fun j hj => (sum_congr rfl (hterm j hj)).trans (sum_mul ..).symm, ← mul_sum,
    ← sum_mul, ← mul_assoc,
    ← pow_two, ← mul_pow, Real.sqrt_sq_eq_abs, abs_mul, abs_of_nonneg hsquare]

end Coupling

/-- The sides of a limit follow the velocity or its opposite. -/
theorem Constraint.sign_limitSides {side : ℝ × ℝ} (h : side ∈ limitSides q0 q) : side.2 * side.2 = 1 := by
  rw [limitSides_real] at h
  rcases List.mem_append.mp h with h | h
  · obtain ⟨l, -, rfl⟩ := Option.map_eq_some_iff.mp (Option.mem_toList.mp h)
    exact mul_one 1
  · obtain ⟨u, -, rfl⟩ := Option.map_eq_some_iff.mp (Option.mem_toList.mp h)
    norm_num

namespace Constraint

theorem limit_eq (h : limit t place size q0 q = .ok c) : place < size ∧ limitSides q0 q ≠ [] ∧
    c.kind = .limit q0 q ∧
    c.g0 = .ofList ((limitSides q0 q).map Prod.fst) ∧
    c.blocks = [Coupling.signedColumn t (limitSides q0 q).length size place
      (Vec.ofList ((limitSides q0 q).map Prod.snd))] := by
  have hblocks := (limit_blocks h).2
  rw [limit, require_bind_eq_ok_iff, require_bind_eq_ok_iff, bind_eq_ok_iff] at h
  obtain ⟨hplace, -, _, -, h⟩ := h
  simp only [require_bind_eq_ok_iff] at h
  obtain ⟨hsides, h⟩ := h
  cases h
  exact ⟨hplace, hsides, rfl, rfl, hblocks⟩

end Constraint

/-- One side sees as much as two. -/
theorem Coupling.inverseInertia_limit (h : Constraint.limit t place size q0 q = .ok c) :
    inverseInertia factors c = |unitInertia factors t size place| := by
  obtain ⟨hplace, hsides, -, -, hblocks⟩ := Constraint.limit_eq h
  obtain ⟨hequations, -⟩ := Constraint.limit_blocks h
  set sides := Constraint.limitSides q0 q
  have hpos : (0 : ℝ) < sides.length := Nat.cast_pos.mpr (List.length_pos_iff.mpr hsides)
  have hsquare : ∀ i ∈ range sides.length, Vec.ofList (sides.map Prod.snd) i ^ 2 = 1 := by
    intro i hi
    have hi := mem_range.mp hi
    have hentry : Vec.ofList (sides.map Prod.snd) i = sides[i].2 := by
      rw [Vec.get_ofList, List.getD_eq_getElem?_getD, List.getElem?_map, List.getElem?_eq_getElem hi]
      rfl
    rw [hentry, pow_two]
    exact Constraint.sign_limitSides (List.getElem_mem hi)
  rw [inverseInertia_signedColumn hplace hequations hblocks, sum_congr rfl hsquare, sum_const,
    card_range, nsmul_one, mul_div_cancel_left₀ _ hpos.ne']

/-! ### The forces of limits -/

namespace Constraint

/-- What a side pushes along its velocity, given the regularization. -/
noncomputable def sidePush (dt tau r vd : ℝ) (side : ℝ × ℝ) : ℝ :=
  side.2 * max 0 (-((side.2 * vd - -side.1 / (dt + tau)) * (1 / r)))

/-- A side that the velocity stays clear of does not push. -/
theorem sidePush_eq_zero {side : ℝ × ℝ} (hr : 0 < r) (h : -side.1 / (dt + tau) ≤ side.2 * vd) :
    sidePush dt tau r vd side = 0 := by
  have hle : -((side.2 * vd - -side.1 / (dt + tau)) * (1 / r)) ≤ 0 :=
    neg_nonpos.mpr (mul_nonneg (sub_nonneg.mpr h) (one_div_nonneg.mpr hr.le))
  rw [sidePush, max_eq_left hle, mul_zero]

/-- The regularization of each side of a limit. -/
noncomputable def sideRegularization (factors : Array (Mat ℝ)) (t : TreeIndex) (size place : ℕ) (dt : ℝ)
    (q : LimitParameters ℝ) : ℝ :=
  compliantRegularization dt |Coupling.unitInertia factors t size place|
    (some q.stiffness) q.dissipationTime q.beta

end Constraint

namespace Coupling

variable {e : Coupling ℝ}

/-- A coupling whose equations are the sides of a limit on one of `n` velocities. -/
structure IsLimit (e : Coupling ℝ) (n d : ℕ) (q0 dt r : ℝ) (q : LimitParameters ℝ) : Prop where
  kind : e.constraint.kind = .limit q0 q
  rows : e.jacobian.rows = (Constraint.limitSides q0 q).length
  cols : e.jacobian.cols = n
  entry : ∀ (i : ℕ) (hi : i < (Constraint.limitSides q0 q).length), ∀ k < n,
    e.jacobian i k = if k = d then (Constraint.limitSides q0 q)[i].2 else 0
  bias : ∀ (i : ℕ) (hi : i < (Constraint.limitSides q0 q).length),
    e.bias i = -(Constraint.limitSides q0 q)[i].1 / (dt + q.dissipationTime)
  rInv : ∀ i < (Constraint.limitSides q0 q).length, e.rInv i = 1 / r

theorem IsLimit.unconstrained (h : e.IsLimit n d q0 dt r q) (hd : d < n) (v : Vec ℝ)
    (hi : i < (Constraint.limitSides q0 q).length) : e.unconstrained v i =
      -(((Constraint.limitSides q0 q)[i].2 * v d -
        -(Constraint.limitSides q0 q)[i].1 / (dt + q.dissipationTime)) * (1 / r)) := by
  have hvelocity : e.jacobian.mulVec v i = (Constraint.limitSides q0 q)[i].2 * v d := by
    rw [Mat.get_mulVec (h.rows ▸ hi), h.cols,
      sum_congr rfl fun k hk => by rw [h.entry i hi k (mem_range.mp hk)]]
    exact sum_column_mul hd
  rw [unconstrained_get (h.rows ▸ hi), hvelocity, h.bias i hi, h.rInv i hi]

theorem IsLimit.impulse (h : e.IsLimit n d q0 dt r q) (v : Vec ℝ)
    (hi : i < (Constraint.limitSides q0 q).length) :
    e.impulse v i = max 0 (e.unconstrained v i) := by
  have hsize : i < (e.unconstrained v).size := by
    rw [size_unconstrained, h.rows]
    exact hi
  simp only [Coupling.impulse, Constraint.project, h.kind, Constraint.projectRows]
  rw [Vec.get_ofFn_of_lt hsize]
  split_ifs with hpos
  · exact (max_eq_right hpos.le).symm
  · exact (max_eq_left (not_lt.mp hpos)).symm

/-- A limit pushes along its velocity what its sides push. -/
theorem IsLimit.force (h : e.IsLimit n d q0 dt r q) (hd : d < n) (v : Vec ℝ) (hj : j < n) :
    System.Of.force v j e = if j = d then
      ((Constraint.limitSides q0 q).map (Constraint.sidePush dt q.dissipationTime r (v d))).sum else 0 := by
  rw [System.Of.force, h.rows]
  split_ifs with hjd
  · rw [← Fin.sum_univ_fun_getElem, ← Fin.sum_univ_eq_sum_range]
    refine sum_congr rfl fun i _ => ?_
    rw [h.entry i i.isLt j hj, if_pos hjd, h.impulse v i.isLt, h.unconstrained hd v i.isLt]
    rfl
  · refine sum_eq_zero fun i hi => ?_
    rw [h.entry i (mem_range.mp hi) j hj, if_neg hjd, zero_mul]

end Coupling

/-- What the constructor of limits makes is such a coupling. -/
theorem Coupling.isLimit_ofConstraint {p : Problem ℝ} {layout : TreeLayout}
    (hstart : ∀ t, p.treeStart t = layout.start t)
    (hd : layout.Within t d) (h : Constraint.limit t (d - layout.start t) (layout.size t) q0 q = .ok c) :
    (ofConstraint p factors c).IsLimit p.numVelocities d q0 p.timeStep
      (Constraint.sideRegularization factors t (layout.size t) (d - layout.start t) p.timeStep q) q := by
  obtain ⟨-, -, hkind, hg0, hblocks⟩ := Constraint.limit_eq h
  obtain ⟨hequations, -⟩ := Constraint.limit_blocks h
  set sides := Constraint.limitSides q0 q
  have hside : ∀ (f : ℝ × ℝ → ℝ) (i : ℕ) (hi : i < sides.length),
      Vec.ofList (sides.map f) i = f sides[i] := by
    intro f i hi
    rw [Vec.get_ofList, List.getD_eq_getElem?_getD, List.getElem?_map, List.getElem?_eq_getElem hi]
    rfl
  refine ⟨hkind, hequations, rfl, fun i hi k hk => ?_, fun i hi => ?_, fun i hi => ?_⟩
  · have hget : (ofConstraint p factors c).jacobian i k = p.jacobianEntry c i k :=
      Mat.get_ofFn_of_lt (hequations ▸ hi) hk
    rw [hget, Problem.jacobianEntry_eq, hblocks, List.map_singleton, List.sum_singleton, signedColumn,
      Problem.spread_column hstart hi hd, hside Prod.snd i hi]
  · have hbias : (ofConstraint p factors c).bias = -c.g0 / (p.timeStep + q.dissipationTime) := by
      show c.bias p.timeStep = _
      simp only [Constraint.bias, hkind]
    have hsize : i < (-c.g0).size := by
      rw [Vec.size_neg, hg0, Vec.size_ofList, List.length_map]
      exact hi
    rw [hbias]
    refine (Vec.get_ofFn_of_lt hsize).trans ?_
    rw [Vec.get_neg, hg0, hside Prod.fst i hi]
  · have hregularization : (ofConstraint p factors c).r = .replicate sides.length
        (Constraint.sideRegularization factors t (layout.size t) (d - layout.start t) p.timeStep q) := by
      show c.regularization p.timeStep (inverseInertia factors c) = _
      rw [inverseInertia_limit h]
      simp only [Constraint.regularization, hkind, hequations]
      rfl
    have hsize : i < (ofConstraint p factors c).r.size := by
      rw [hregularization, Vec.replicate, Vec.size_ofFn]
      exact hi
    have hmap : (ofConstraint p factors c).rInv i = inverse ((ofConstraint p factors c).r i) :=
      Vec.get_map hsize
    rw [hmap, hregularization, Vec.replicate, Vec.get_ofFn_of_lt hi, inverse, Scalar.isFinite_eq, if_pos rfl]

end CompliantContact
