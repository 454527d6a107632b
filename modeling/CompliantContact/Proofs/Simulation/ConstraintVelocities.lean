import CompliantContact.Proofs.Contact.Orientation
import CompliantContact.Proofs.Mechanism.PointVelocity
import CompliantContact.Proofs.Simulation.Reports

/-!
The velocities that the equations of a step's problem measure.

The Jacobian of all equations takes the velocities of the mechanism to the relative velocity of the two
bodies of each contact along the axes of the contact frame, to the velocity of each limited degree of
freedom, away from its bound, and to the mismatch of each pair of coupled velocities. This holds
whatever trees the bodies and the joints are in (`Simulator.Vouches.equation_velocities`).
-/

namespace CompliantContact

open Finset Outcome

theorem Vec.get_ofList (xs : List ℝ) (i : ℕ) : Vec.ofList xs i = xs.getD i 0 := by
  simp [Vec.get, Vec.ofList, Array.getD_eq_getD_getElem?, List.getD_eq_getElem?_getD]

theorem Vec.concat_eq_ofList {β : Type} (xs : List β) (f : β → Vec ℝ) :
    Vec.concat (xs.map f) = .ofList (xs.flatMap fun x => (f x).toList) := by
  induction xs with
  | nil => rfl
  | cons x xs ih =>
    rw [List.map_cons, Vec.concat_cons, ih, List.flatMap_cons]
    refine congrArg Vec.mk ?_
    simp [Vec.ofList, Vec.toList]

theorem Vec3.getD_toList (u : Vec3 ℝ) (n : ℕ) : u.toList.getD n 0 = u.get n := by
  rcases n with _ | _ | _ | n <;> rfl

theorem Mat3.get_transposeMulVec (m : Mat3 ℝ) (w : Vec3 ℝ) (n : ℕ) :
    (m.transposeMulVec w).get n = (m.column n).dot w := by
  rcases n with _ | _ | _ | n
  · rfl
  · rfl
  · rfl
  · simp [Vec3.get, column, Vec3.dot]

/-! ### Velocities of contacts, limits and couplers -/

namespace Simulator

variable {α : Type} [Scalar α]

/-- The velocity of the second body of a contact relative to the first at the contact point, along the
    axes of the contact frame. -/
def contactVelocity (s : Simulator α) (k : PositionKinematics α) (v : Vec α)
    (pair : ContactPair α) : Vec3 α :=
  (ContactFrame.alongAxis (-pair.normal) 2).transposeMulVec
    (s.model.bodyVelocity k v (s.bodyOf pair.b) pair.point -
      s.model.bodyVelocity k v (s.bodyOf pair.a) pair.point)

/-- The velocity of a joint away from each of its bounds that counts, the lower one first. -/
def limitRates (s : Simulator α) (x : State α) (vFree v : Vec α) (joint : Joint α) : List α :=
  let dof := joint.velocityStart
  match s.windowedLimits joint (x.positions dof) (x.velocities dof) (vFree dof) with
  | none => []
  | some p => (p.lower.map fun _ => v dof).toList ++ (p.upper.map fun _ => -v dof).toList

/-- How fast a coupler's two joints part from their ratio. -/
def couplerRate (s : Simulator α) (v : Vec α) (c : Coupler α) : α :=
  v (s.jointStart c.a) - c.ratio * v (s.jointStart c.b)

omit [Scalar α] in
theorem requireCouplable_eq_ok {s : Simulator α} {j : JointIndex} (h : s.requireCouplable j = .ok ()) :
    ∃ joint, s.model.joint? j = some joint ∧ joint.dofs = 1 := by
  rw [requireCouplable] at h
  split at h
  · cases h
  · rename_i joint hjoint
    exact ⟨joint, hjoint, require_eq_ok_iff.mp h⟩

/-- Each coupler joins two joints with one degree of freedom. -/
def Couplable (s : Simulator α) : Prop := ∀ c ∈ s.couplers, c.a ≠ c.b ∧
  (∃ joint, s.model.joint? c.a = some joint ∧ joint.dofs = 1) ∧
  ∃ joint, s.model.joint? c.b = some joint ∧ joint.dofs = 1

theorem Couplable.addCoupler {s t : Simulator α} {coupler : Coupler α} (hs : s.Couplable)
    (ht : s.addCoupler coupler = .ok t) :
    t.Couplable := by
  obtain ⟨hchecks, rfl⟩ := addCoupler_eq_ok_iff.mp ht
  simp only [checkCoupler, bind_eq_ok_iff] at hchecks
  obtain ⟨_, ha, _, hb, _, hne, -⟩ := hchecks
  intro c hc
  rcases List.mem_append.mp hc with hc | hc
  · exact hs c hc
  · obtain rfl := List.mem_singleton.mp hc
    exact ⟨require_eq_ok_iff.mp hne, requireCouplable_eq_ok ha, requireCouplable_eq_ok hb⟩

omit [Scalar α] in
theorem Couplable.registerDeformable {s t : Simulator α} {d : DeformableModel} (hs : s.Couplable)
    (ht : s.registerDeformable d = .ok t) : t.Couplable := by
  obtain rfl := registerDeformable_eq_ok ht
  exact hs

theorem couplable_of_new {model : Model α} {geometry : GeometryQuery α} {config : Config α} {s : Simulator α}
    (h : Simulator.new model geometry config = .ok s) : s.Couplable := by
  simp only [Simulator.new, bind_eq_ok_iff] at h
  obtain ⟨_, -, _, -, h⟩ := h
  cases h
  exact fun c hc => absurd hc List.not_mem_nil

theorem Made.couplable {s : Simulator α} (h : s.Made) : s.Couplable := by
  induction h with
  | new _ h => exact couplable_of_new h
  | coupled _ ht ih => exact ih.addCoupler ht
  | registered _ ht ih => exact ih.registerDeformable ht

end Simulator

/-! ### Rows of a Jacobian -/

section
variable {p : Problem ℝ} {m : Mechanism ℝ} {c : Constraint ℝ} {v : Vec ℝ} {layout : TreeLayout}
    {t : TreeIndex} {d n j : ℕ}

namespace Problem

theorem mulVec_jacobian (p : Problem ℝ) (v : Vec ℝ) :
    p.jacobian.mulVec v = .ofList (p.constraints.toList.flatMap
      fun c => ((p.constraintJacobian c).mulVec v).toList) := by
  have hcols : ∀ m ∈ p.constraints.toList.map p.constraintJacobian, m.cols = p.numVelocities := by
    intro m hm
    obtain ⟨c, -, rfl⟩ := List.mem_map.mp hm
    rfl
  rw [jacobian, Mat.mulVec_stack hcols, List.map_map, ← Vec.concat_eq_ofList]
  rfl

/-- The velocities of a constraint, equation by equation. -/
theorem toList_mulVec_constraint {xs : List ℝ} (hlength : xs.length = c.numEquations)
    (hrows : ∀ i < xs.length, ∑ j ∈ range p.numVelocities, p.jacobianEntry c i j * v j = xs.getD i 0) :
    ((p.constraintJacobian c).mulVec v).toList = xs := by
  have heq : (p.constraintJacobian c).mulVec v = .ofList xs := by
    refine Vec.ext (Mat.size_mulVec.trans (hlength.symm.trans (Vec.size_ofList xs).symm)) fun i hi => ?_
    have hi : i < c.numEquations := by rwa [Mat.size_mulVec] at hi
    rw [Mat.get_mulVec hi, Vec.get_ofList, ← hrows i (hlength ▸ hi)]
    exact sum_congr rfl fun j hj => by rw [constraintJacobian, Mat.get_ofFn_of_lt hi (mem_range.mp hj)]
  rw [heq]
  rfl

/-- A block has its entries at the velocities of its tree. -/
theorem spread_ofFn {rows : ℕ} {f : ℕ → ℕ → ℝ} (hstart : ∀ t, p.treeStart t = layout.start t)
    (hn : n < rows) :
    p.spread ⟨t, .ofFn rows (layout.size t) f⟩ n j = if layout.Within t j then f n (j - layout.start t)
      else 0 := by
  rw [spread, Mat.cols_ofFn, hstart]
  by_cases hwithin : layout.Within t j
  · obtain ⟨hfirst, hlast⟩ := hwithin
    have hplace : j - layout.start t < layout.size t := by omega
    rw [if_pos ⟨hfirst, hlast⟩, if_pos ⟨hfirst, hlast⟩, Mat.get_ofFn_of_lt hn hplace]
  · rw [if_neg hwithin]
    exact if_neg hwithin

/-- A block with one column that counts. -/
theorem spread_column {rows : ℕ} {x : ℕ → ℝ} (hstart : ∀ t, p.treeStart t = layout.start t) (hn : n < rows)
    (hd : layout.Within t d) :
    p.spread ⟨t, .ofFn rows (layout.size t) fun i j => if j = d - layout.start t then x i else 0⟩ n j =
      if j = d then x n else 0 := by
  rw [spread_ofFn hstart hn]
  obtain ⟨hfirst, hlast⟩ := hd
  by_cases hj : j = d
  · subst hj
    rw [if_pos ⟨hfirst, hlast⟩, if_pos rfl, if_pos rfl]
  · rw [if_neg hj]
    by_cases hwithin : layout.Within t j
    · rw [if_pos hwithin, if_neg fun heq => hj (by have := hwithin.1; omega)]
    · rw [if_neg hwithin]

end Problem

theorem sum_column_mul {x : ℝ} (hd : d < n) : ∑ j ∈ range n, (if j = d then x else 0) * v j = x * v d := by
  simp [ite_mul, hd]

/-- The place of a velocity of a mechanism that was laid out. -/
theorem Mechanism.LaidOut.locate (hm : m.LaidOut) (hd : d < m.numVelocities) {place : ℕ}
    (h : m.layout.locate? d = some (t, place)) : m.layout.Within t d ∧ place = d - m.layout.start t := by
  obtain ⟨u, hu, hwithin⟩ := hm.located d hd
  rw [TreeLayout.locate?, hu, Option.map_some, Option.some.injEq, Prod.mk.injEq] at h
  obtain ⟨rfl, rfl⟩ := h
  exact ⟨hwithin, rfl⟩

/-! ### Contacts -/

open ContactKinematics in
/-- The velocity of the second body relative to the first. -/
theorem Mechanism.LaidOut.mulVec_relative (hm : m.LaidOut) (k : PositionKinematics ℝ) (a b : BodyIndex)
    (point : Vec3 ℝ) (v : Vec ℝ) : (relative m k a b point).mulVec v =
      m.bodyVelocity k v b point - m.bodyVelocity k v a point := by
  refine Vec3.ext_dot fun u => ?_
  have hterm : ∀ j ∈ range m.numVelocities, u.dot (relative m k a b point j) * v j =
      u.dot (m.translationalJacobian k b point j) * v j -
        u.dot (m.translationalJacobian k a point j) * v j := by
    intro j hj
    rw [relative, Columns.get_sub (by rw [size_translationalJacobian]; exact mem_range.mp hj)]
    simp only [Vec3.dot, Vec3.sub_x, Vec3.sub_y, Vec3.sub_z]
    ring
  have hsize : (relative m k a b point).size = m.numVelocities :=
    Columns.size_sub.trans size_translationalJacobian
  rw [Columns.dot_mulVec, hsize, sum_congr rfl hterm, sum_sub_distrib]
  have hbody : ∀ body, ∑ j ∈ range m.numVelocities, u.dot (m.translationalJacobian k body point j) * v j =
      u.dot (m.bodyVelocity k v body point) := by
    intro body
    rw [← hm.mulVec_translationalJacobian, Columns.dot_mulVec, size_translationalJacobian]
  rw [hbody, hbody]
  simp only [Vec3.dot, Vec3.sub_x, Vec3.sub_y, Vec3.sub_z]
  ring

/-- The velocities of a contact are those of its bodies, along the frame. -/
theorem toList_mulVec_contact {k : PositionKinematics ℝ} {frame : Mat3 ℝ} {a b : BodyIndex} {point : Vec3 ℝ}
    (hm : m.Orderly) (hlaid : m.LaidOut) (hstart : ∀ t, p.treeStart t = m.layout.start t)
    (hnum : p.numVelocities = m.numVelocities) (hequations : c.numEquations = 3)
    (hblocks : c.blocks = (ContactKinematics.treesOf m.layout a b).map
      (ContactKinematics.block m.layout frame (ContactKinematics.relative m k a b point))) (v : Vec ℝ) :
    ((p.constraintJacobian c).mulVec v).toList =
      (frame.transposeMulVec (m.bodyVelocity k v b point - m.bodyVelocity k v a point)).toList := by
  refine Problem.toList_mulVec_constraint hequations.symm fun n hn => ?_
  have hn : n < 3 := hn
  have hsize : (ContactKinematics.relative m k a b point).size = m.numVelocities :=
    Columns.size_sub.trans Mechanism.size_translationalJacobian
  have hentry : ∀ j ∈ range m.numVelocities, p.jacobianEntry c n j * v j =
      (frame.column n).dot (ContactKinematics.relative m k a b point j) * v j := by
    intro j hj
    rw [jacobianEntry_contact hm hstart hblocks hn (mem_range.mp hj), Mat3.get_transposeMulVec]
  rw [hnum, sum_congr rfl hentry, ← hsize, ← Columns.dot_mulVec, hlaid.mulVec_relative, Vec3.getD_toList,
    Mat3.get_transposeMulVec]

/-! ### Limits -/

theorem Constraint.limitSides_real (q0 : ℝ) (p : LimitParameters ℝ) :
    limitSides q0 p = (p.lower.map fun l => (q0 - l, (1 : ℝ))).toList ++
      (p.upper.map fun u => (u - q0, (-1 : ℝ))).toList := by
  rw [limitSides]
  cases p.lower <;> cases p.upper <;> rfl

/-- The block of a limit: one column, with the signs of the sides. -/
theorem Constraint.limit_blocks {dof size : ℕ} {q0 : ℝ} {q : LimitParameters ℝ}
    (h : limit t dof size q0 q = .ok c) :
    c.numEquations = (limitSides q0 q).length ∧ c.blocks = [⟨t, .ofFn (limitSides q0 q).length size fun i j =>
      if j = dof then Vec.ofList ((limitSides q0 q).map Prod.snd) i else 0⟩] := by
  rw [limit, require_bind_eq_ok_iff, require_bind_eq_ok_iff, bind_eq_ok_iff] at h
  obtain ⟨-, -, _, -, h⟩ := h
  simp only [require_bind_eq_ok_iff] at h
  obtain ⟨-, h⟩ := h
  cases h
  exact ⟨(Vec.size_ofList _).trans (List.length_map ..), rfl⟩

theorem toList_mulVec_limit {q0 : ℝ} {q : LimitParameters ℝ} (hstart : ∀ t, p.treeStart t = layout.start t)
    (hd : layout.Within t d) (hlt : d < p.numVelocities)
    (h : Constraint.limit t (d - layout.start t) (layout.size t) q0 q = .ok c) (v : Vec ℝ) :
    ((p.constraintJacobian c).mulVec v).toList =
      (q.lower.map fun _ => v d).toList ++ (q.upper.map fun _ => -v d).toList := by
  obtain ⟨hequations, hblocks⟩ := Constraint.limit_blocks h
  have hrates : (Constraint.limitSides q0 q).map (fun side => side.2 * v d) =
      (q.lower.map fun _ => v d).toList ++ (q.upper.map fun _ => -v d).toList := by
    rw [Constraint.limitSides_real]
    cases q.lower <;> cases q.upper <;> simp
  rw [← hrates]
  refine Problem.toList_mulVec_constraint ((List.length_map ..).trans hequations.symm) fun n hn => ?_
  rw [List.length_map] at hn
  have hentry : ∀ j ∈ range p.numVelocities, p.jacobianEntry c n j * v j =
      (if j = d then Vec.ofList ((Constraint.limitSides q0 q).map Prod.snd) n else 0) * v j := by
    intro j _
    rw [Problem.jacobianEntry_eq, hblocks, List.map_singleton, List.sum_singleton,
      Problem.spread_column hstart hn hd]
  rw [sum_congr rfl hentry, sum_column_mul hlt, Vec.get_ofList]
  simp [List.getD_eq_getElem?_getD, hn]

/-! ### Couplers -/

/-- The one entry that a list has for a place counts. -/
theorem find_eq_sum {entries : List (ℕ × ℝ)} (hnodup : (entries.map Prod.fst).Nodup) (j : ℕ) :
    ((entries.find? (·.1 = j)).map Prod.snd).getD 0 =
      (entries.map fun e => if j = e.1 then e.2 else 0).sum := by
  induction entries with
  | nil => rfl
  | cons e entries ih =>
    obtain ⟨hfresh, hnodup⟩ := List.nodup_cons.mp hnodup
    rw [List.map_cons, List.sum_cons]
    by_cases hj : j = e.1
    · have hrest : entries.map (fun e => if j = e.1 then e.2 else 0) = entries.map fun _ => 0 :=
        List.map_congr_left fun e' he' => if_neg fun heq =>
          hfresh (List.mem_map.mpr ⟨e', he', heq.symm.trans hj⟩)
      rw [List.find?_cons_of_pos (by simp [hj]), if_pos hj, hrest, List.map_const', List.sum_replicate,
        smul_zero, add_zero]
      rfl
    · rw [List.find?_cons_of_neg (by simp [Ne.symm hj]), if_neg hj, zero_add]
      exact ih hnodup

/-- A row with entries at some velocities of a tree. -/
theorem Problem.spread_sparseRow (entries : List (ℕ × ℝ)) (hstart : ∀ t, p.treeStart t = layout.start t)
    (hwithin : ∀ e ∈ entries, layout.Within t e.1) (hnodup : (entries.map Prod.fst).Nodup) :
    p.spread ⟨t, Simulator.sparseRow (layout.size t) (entries.map fun e => (e.1 - layout.start t, e.2))⟩ 0 j =
      (entries.map fun e => if j = e.1 then e.2 else 0).sum := by
  rw [Simulator.sparseRow, spread_ofFn hstart Nat.one_pos]
  by_cases hj : layout.Within t j
  · have hsame : ∀ e ∈ entries, decide (e.1 - layout.start t = j - layout.start t) = decide (e.1 = j) := by
      intro e he
      have hfirst := (hwithin e he).1
      have hfirst' := hj.1
      exact decide_eq_decide.mpr (by omega)
    rw [if_pos hj, ← find_eq_sum hnodup, List.find?_map, Option.map_map]
    congr 2
    exact List.find?_congr hsame
  · have hrest : entries.map (fun e => if j = e.1 then e.2 else 0) = entries.map fun _ => 0 :=
      List.map_congr_left fun e he => if_neg fun heq : j = e.1 => hj (heq ▸ hwithin e he)
    rw [if_neg hj, hrest, List.map_const', List.sum_replicate, smul_zero]

/-- The velocities of a coupled pair of joints, in one tree or in two. -/
theorem toList_mulVec_coupler {blocks : List (JacobianBlock ℝ)} {q : HolonomicParameters ℝ}
    {g0 ratio : ℝ} {tA tB : TreeIndex}
    {dA dB : ℕ} (hstart : ∀ t, p.treeStart t = layout.start t) (hA : layout.Within tA dA)
    (hB : layout.Within tB dB)
    (hltA : dA < p.numVelocities) (hltB : dB < p.numVelocities) (hne : dA ≠ dB)
    (hblocks : blocks = if tA = tB then
        [⟨tA, Simulator.sparseRow (layout.size tA) [(dB - layout.start tB, -ratio),
          (dA - layout.start tA, 1)]⟩]
      else
        [⟨tA, Simulator.sparseRow (layout.size tA) [(dA - layout.start tA, 1)]⟩,
          ⟨tB, Simulator.sparseRow (layout.size tB) [(dB - layout.start tB, -ratio)]⟩])
    (h : Constraint.holonomic blocks (.ofList [g0]) q = .ok c) (v : Vec ℝ) :
    ((p.constraintJacobian c).mulVec v).toList = [v dA - ratio * v dB] := by
  simp only [Constraint.holonomic, bind_eq_ok_iff] at h
  obtain ⟨_, -, _, -, _, -, _, -, _, -, _, -, ⟨first, second⟩, hchecked, h⟩ := h
  cases h
  have hsame := (Constraint.checkBlocks_eq_ok hchecked).1
  refine Problem.toList_mulVec_constraint rfl fun n hn => ?_
  obtain rfl : n = 0 := Nat.lt_one_iff.mp hn
  have hentry : ∀ j ∈ range p.numVelocities,
    p.jacobianEntry ⟨.holonomic q, .ofList [g0], first, second⟩ 0 j * v j =
      (if j = dA then 1 else 0) * v j + (if j = dB then -ratio else 0) * v j := by
    intro j _
    rw [← add_mul, Problem.jacobianEntry_eq, Constraint.blocks, ← hsame, hblocks]
    congr 1
    by_cases htrees : tA = tB
    · subst htrees
      have hrow := Problem.spread_sparseRow (j := j) [(dB, -ratio), (dA, 1)] hstart
        (fun e he => by rcases List.mem_pair.mp he with rfl | rfl; exacts [hB, hA]) (by simp [hne.symm])
      rw [if_pos rfl, List.map_singleton, List.sum_singleton]
      refine hrow.trans ?_
      rw [List.map_cons, List.map_singleton, List.sum_cons, List.sum_singleton, add_comm]
    · have hrow : ∀ t d (x : ℝ), layout.Within t d →
        p.spread ⟨t, Simulator.sparseRow (layout.size t) [(d - layout.start t, x)]⟩ 0 j =
          if j = d then x else 0 := fun t d x hd =>
        (Problem.spread_sparseRow [(d, x)] hstart (fun e he => List.mem_singleton.mp he ▸ hd)
          (List.nodup_singleton _)).trans (List.sum_singleton ..)
      rw [if_neg htrees, List.map_cons, List.map_singleton, List.sum_cons, List.sum_singleton,
        hrow tA dA 1 hA, hrow tB dB (-ratio) hB]
  rw [sum_congr rfl hentry, sum_add_distrib, sum_column_mul hltA, sum_column_mul hltB]
  simp [sub_eq_add_neg]

end

/-! ### All equations of a step -/

namespace Simulator

variable {s : Simulator ℝ} {c d : Context ℝ} {x : State ℝ} {p : AssembledProblem ℝ} {joint : Joint ℝ}
    {vFree : Vec ℝ}

theorem windowedLimits_eq_none (h : joint.hasFiniteLimits = false) (q0 v0 vf : ℝ) :
    s.windowedLimits joint q0 v0 vf = none := by
  have hnone : ∀ limits : Array (Option ℝ), limits.any Bound.isFinite = false →
      limits.getD 0 none = none := by
    intro limits hany
    rw [Array.getD_eq_getD_getElem?]
    cases hget : limits[0]? with
    | none => rfl
    | some bound =>
      obtain ⟨hlt, hbound⟩ := Array.getElem?_eq_some_iff.mp hget
      cases bound with
      | none => rfl
      | some l =>
        have hfalse := Array.any_eq_false.mp hany 0 hlt
        rw [hbound] at hfalse
        exact absurd rfl hfalse
  obtain ⟨hlower, hupper⟩ := Bool.or_eq_false_iff.mp h
  simp [windowedLimits, hnone _ hlower, hnone _ hupper, Bound.isInfinite]

/-- The velocity of a joint with one degree of freedom. -/
theorem velocityStart_moves (h : joint.dofs = 1) : joint.Moves joint.velocityStart := ⟨le_rfl, by omega⟩

/-- The limit of a joint, if it has one, measures the velocity away from its bounds. -/
theorem toList_mulVec_limits {problem : Problem ℝ} {o : Option (Constraint ℝ)} {j : JointIndex}
    (hm : s.model.LaidOut)
    (hj : s.model.joint? j = some joint) (hstart : ∀ t, problem.treeStart t = s.model.layout.start t)
    (hnum : problem.numVelocities = s.model.numVelocities) (h : s.limitConstraint x vFree joint = .ok o)
    (v : Vec ℝ) :
    (o.toList.flatMap fun c => ((problem.constraintJacobian c).mulVec v).toList) =
      s.limitRates x vFree v joint := by
  rw [limitConstraint] at h
  split at h
  · rename_i hfinite
    cases h
    rw [limitRates, windowedLimits_eq_none (Bool.not_eq_true _ ▸ hfinite)]
    rfl
  rw [require_bind_eq_ok_iff] at h
  obtain ⟨hdofs, h⟩ := h
  simp only at h
  have hlt := hm.lt j joint _ hj (velocityStart_moves hdofs)
  split at h
  · cases h
  · rename_i tree place hlocate
    obtain ⟨hwithin, rfl⟩ := hm.locate hlt hlocate
    split at h
    · rename_i hwindow
      cases h
      rw [limitRates, hwindow]
      rfl
    · rename_i q hwindow
      obtain ⟨limit, hlimit, h⟩ := bind_eq_ok_iff.mp h
      cases h
      rw [limitRates, hwindow, Option.toList_some, List.flatMap_singleton,
        toList_mulVec_limit hstart hwithin (hnum ▸ hlt) hlimit]

/-- A coupler measures how fast its joints part from their ratio. -/
theorem Made.toList_mulVec_couplers {problem : Problem ℝ} {coupler : Coupler ℝ}
    {constraint : Constraint ℝ} (hmade : s.Made)
    (hmem : coupler ∈ s.couplers) (hstart : ∀ t, problem.treeStart t = s.model.layout.start t)
    (hnum : problem.numVelocities = s.model.numVelocities)
    (h : s.couplerConstraint x coupler = .ok constraint) (v : Vec ℝ) :
    ((problem.constraintJacobian constraint).mulVec v).toList = [s.couplerRate v coupler] := by
  obtain ⟨hne, ⟨jointA, hjointA, hdofsA⟩, jointB, hjointB, hdofsB⟩ := hmade.couplable coupler hmem
  have hm := hmade.laidOut
  have hmovesA := velocityStart_moves hdofsA
  have hmovesB := velocityStart_moves hdofsB
  have hstartA : s.jointStart coupler.a = jointA.velocityStart := by rw [jointStart, hjointA]; rfl
  have hstartB : s.jointStart coupler.b = jointB.velocityStart := by rw [jointStart, hjointB]; rfl
  have hltA := hm.lt _ _ _ hjointA hmovesA
  have hltB := hm.lt _ _ _ hjointB hmovesB
  have hapart : jointA.velocityStart ≠ jointB.velocityStart := fun hsame =>
    hne (hm.unique _ _ _ _ _ hjointA hjointB hmovesA (hsame ▸ hmovesB))
  have hlocate : ∀ d t place, d < s.model.numVelocities → s.locateCoupled d = .ok (t, place) →
      s.model.layout.Within t d ∧ place = d - s.model.layout.start t := by
    intro d t place hd hfound
    rw [locateCoupled] at hfound
    split at hfound
    · cases hfound
    · rename_i found hfound'
      cases hfound
      exact hm.locate hd hfound'
  rw [couplerConstraint, hstartA, hstartB] at h
  obtain ⟨⟨treeA, placeA⟩, hA, h⟩ := bind_eq_ok_iff.mp h
  obtain ⟨⟨treeB, placeB⟩, hB, h⟩ := bind_eq_ok_iff.mp h
  obtain ⟨hwithinA, rfl⟩ := hlocate _ _ _ hltA hA
  obtain ⟨hwithinB, rfl⟩ := hlocate _ _ _ hltB hB
  rw [couplerRate, hstartA, hstartB]
  exact toList_mulVec_coupler hstart hwithinA hwithinB (hnum ▸ hltA) (hnum ▸ hltB) hapart rfl h v

/-- All equations of the problem of a step, constraint by constraint. -/
theorem Made.mulVec_jacobian {k : PositionKinematics ℝ} {pairs : List (ContactPair ℝ)}
    {contacts : List (ContactKinematics ℝ)}
    {dynamics : List (Mat ℝ)} {free : FreeAccelerations ℝ} (hmade : s.Made)
    (h : s.Assembles x k pairs contacts dynamics free p) (hx : x.numVelocities = s.model.numVelocities)
    (v : Vec ℝ) :
    p.problem.jacobian.mulVec v = .ofList ((pairs.flatMap fun pair => (s.contactVelocity k v pair).toList) ++
      s.model.joints.toList.flatMap (s.limitRates x p.problem.freeVelocities v) ++
        s.couplers.map (s.couplerRate v)) := by
  obtain ⟨-, hlength, -, cones, limits, couplers, hcones, hlimits, hcouplers, hp⟩ := assemble_eq_ok h.problem
  have hstart := h.treeStart
  have hnum := h.numVelocities_problem hx
  have hfree : p.problem.freeVelocities = s.freeVelocities x free := by rw [hp]
  have hconstraints : p.problem.constraints.toList = cones ++ limits.filterMap id ++ couplers := by rw [hp]
  rw [Problem.mulVec_jacobian, hconstraints, List.flatMap_append, List.flatMap_append]
  congr 2
  · congr 1
    · -- The contacts come pair by pair.
      rw [flatMap_eq_of_map_eq (k := fun found : ContactPair ℝ × ContactKinematics ℝ =>
        (s.contactVelocity k v found.1).toList) hcones ?_]
      · conv_rhs => rw [← List.map_fst_zip hlength.le, List.flatMap_map]
      · rintro ⟨pair, touching⟩ hmem constraint hconstraint
        obtain ⟨a, b, ha, hb, hframe, hblocks⟩ := ContactKinematics.ofPair_eq_ok
          (forall_mem_zip (mapM_eq_ok_iff.mp h.contacts) pair touching hmem)
        obtain ⟨-, hequations, hsame, -⟩ := contactConstraint_eq_ok hconstraint
        rw [toList_mulVec_contact hmade.orderly hmade.laidOut hstart hnum hequations
          (hsame.trans hblocks), contactVelocity, bodyOf, bodyOf, ha, hb, hframe]
        rfl
    · -- The limits come joint by joint.
      have hrows : limits.flatMap (fun o => o.toList.flatMap
        fun c => ((p.problem.constraintJacobian c).mulVec v).toList) =
          s.model.joints.toList.flatMap (s.limitRates x p.problem.freeVelocities v) := by
        refine flatMap_eq_of_map_eq hlimits fun joint hjoint o ho => ?_
        obtain ⟨j, hj⟩ := List.mem_iff_getElem?.mp hjoint
        rw [hfree]
        exact toList_mulVec_limits hmade.laidOut (j :=
          ⟨j⟩) (Array.getElem?_toList.symm.trans hj) hstart hnum ho v
      rw [← hrows, List.filterMap_eq_flatMap_toList, List.flatMap_assoc]
      rfl
  · rw [flatMap_eq_of_map_eq hcouplers fun coupler hmem constraint hconstraint =>
      hmade.toList_mulVec_couplers hmem hstart hnum hconstraint v]
    exact List.map_eq_flatMap.symm

/-- In a context that the simulator vouches for, the equations of the problem of a step measure the
    relative velocities at the contacts, along the contact frames, the velocities away from the bounds
    of joints, and the mismatch of coupled velocities. A contact has one block for each tree that one of
    its bodies is in. -/
theorem Vouches.equation_velocities (hmade : s.Made) (h : s.Vouches c) (hc : c.Reachable)
    (hp : c.run (s.evalProblem c.toSetting) = (.ok p, d)) :
    ∃ k pairs, s.model.positionKinematics d.state.positions = .ok k ∧
      d.run (s.evalContactPairs d.toSetting) = (.ok pairs, d) ∧
      (∀ v : Vec ℝ, p.problem.jacobian.mulVec v =
        .ofList ((pairs.flatMap fun pair => (s.contactVelocity k v pair).toList) ++
        s.model.joints.toList.flatMap (s.limitRates d.state p.problem.freeVelocities v) ++
          s.couplers.map (s.couplerRate v))) ∧
      ∀ i pair, pairs[i]? = some pair →
        s.geometry.body? pair.a = some (s.bodyOf pair.a) ∧ s.geometry.body? pair.b = some (s.bodyOf pair.b) ∧
        (ContactFrame.minNormalNorm ≤ pair.normal.norm →
          (ContactFrame.alongAxis (-pair.normal) 2).z = -pair.normal / pair.normal.norm) ∧
        ∃ constraint, p.problem.constraint? i = some constraint ∧
        (constraint.blocks.map JacobianBlock.tree).Nodup ∧
          ∀ t, t ∈ constraint.blocks.map JacobianBlock.tree ↔
            s.model.layout.bodyTree? (s.bodyOf pair.a) = some t ∨
            s.model.layout.bodyTree? (s.bodyOf pair.b) = some t := by
  obtain ⟨-, hvalid, k, pairs, contacts, dynamics, free, hassembles, hpairs⟩ := h.evalProblem hc hp
  refine ⟨k, pairs, hassembles.kinematics, hpairs,
    hmade.mulVec_jacobian hassembles (validate_eq_ok hvalid).2.2,
    fun i pair hpair => ?_⟩
  obtain ⟨-, hlength, -⟩ := assemble_eq_ok hassembles.problem
  have hi : i < contacts.length := hlength ▸ (List.getElem?_eq_some_iff.mp hpair).1
  obtain ⟨ha, hb, -, constraint, hconstraint, -, hblocks⟩ :=
    hassembles.exists_contact hpair (List.getElem?_eq_getElem hi)
  have htrees : constraint.blocks.map JacobianBlock.tree =
      ContactKinematics.treesOf s.model.layout (s.bodyOf pair.a) (s.bodyOf pair.b) := by
    rw [hblocks, List.map_map]
    exact List.map_id' _
  have hnorm : (-pair.normal).norm = pair.normal.norm := Vec3.norm_neg _
  refine ⟨ha, hb, fun hnormal => ?_, constraint, hconstraint, ?_, fun t => ?_⟩
  · rw [← hnorm] at hnormal ⊢
    exact ContactFrame.alongAxis_z hnormal
  · rw [htrees]
    exact ContactKinematics.nodup_treesOf ..
  · rw [htrees]
    exact ContactKinematics.mem_treesOf

theorem contactFrame_unitZ : ContactFrame.alongAxis (.unitZ : Vec3 ℝ) 2 = .identity := by
  have haxis : (Vec3.unitZ : Vec3 ℝ) / (1 : ℝ) = .unitZ := by ext <;> simp
  have hlong : ¬ (¬ Scalar.isFinite (1 : ℝ) ∨ (1 : ℝ) < ContactFrame.minNormalNorm) := by
    norm_num [ContactFrame.minNormalNorm, Scalar.decimal]
  have hfar : Scalar.abs (Vec3.unitZ : Vec3 ℝ).x < ContactFrame.steep := by
    norm_num [ContactFrame.steep, Scalar.decimal, Scalar.abs, Vec3.unitZ]
  have htangent : (Vec3.unitX : Vec3 ℝ) - (Vec3.unitZ : Vec3 ℝ) * (Vec3.unitZ : Vec3 ℝ).dot .unitX =
      .unitX := by
    ext <;> simp [Vec3.dot, Vec3.unitX, Vec3.unitZ]
  have hbasis : ContactFrame.basis (.unitZ : Vec3 ℝ) = .identity := by
    rw [ContactFrame.basis]
    dsimp only
    rw [Vec3.norm_unitZ, if_neg hlong, haxis, if_pos hfar, htangent, Vec3.norm_unitX]
    ext <;> simp [Mat3.identity, Vec3.cross, Vec3.unitX, Vec3.unitY, Vec3.unitZ]
  exact (ContactFrame.alongAxis_two _).trans hbasis

section
variable {k : PositionKinematics ℝ} (hk : k.jointFrame ⟨0⟩ = .identity) (v : Vec ℝ)
include hk

/-- The ball rises with its only velocity. -/
theorem bodyVelocity_ball (p : Vec3 ℝ) : ball.bodyVelocity k v ⟨1⟩ p = ⟨0, 0, v 0⟩ := by
  have hworld : ball.bodyVelocity k v .world p = 0 := Mechanism.bodyVelocity_of_none rfl k v _
  have hinboard : ball.inboardJoint? ⟨1⟩ = some (⟨0⟩, hoist) := rfl
  have hparent : hoist.parent = .world := rfl
  rw [Mechanism.bodyVelocity_of_inboard hinboard Nat.one_pos, hparent, hworld, hk]
  ext <;> simp [Mechanism.jointVelocity, Mechanism.relativeVelocity, hoist, Joint.ofKind, Pose.identity,
    Rotation.apply_identity, Vec3.unitZ, Vec3.cross]

/-- Its contact with the ground has the frame of the world. -/
theorem contactVelocity_ball : ballOnGround.contactVelocity k v restingPair = ⟨0, 0, v 0⟩ := by
  have hworld : ball.bodyVelocity k v .world restingPair.point = 0 := Mechanism.bodyVelocity_of_none rfl k v _
  have hnormal : -restingPair.normal = .unitZ := by ext <;> simp [restingPair]
  show (ContactFrame.alongAxis (-restingPair.normal) 2).transposeMulVec
    (ball.bodyVelocity k v ⟨1⟩ restingPair.point - ball.bodyVelocity k v .world restingPair.point) = _
  rw [hnormal, contactFrame_unitZ, bodyVelocity_ball hk, hworld]
  ext <;> simp [Mat3.transposeMulVec, Mat3.identity, Vec3.dot, Vec3.unitX, Vec3.unitY, Vec3.unitZ]

theorem contactVelocity_ballExchanged : ballExchanged.contactVelocity k v restingPair = ⟨0, 0, -v 0⟩ := by
  have hworld : ball.bodyVelocity k v .world restingPair.point = 0 := Mechanism.bodyVelocity_of_none rfl k v _
  have hnormal : -restingPair.normal = .unitZ := by ext <;> simp [restingPair]
  show (ContactFrame.alongAxis (-restingPair.normal) 2).transposeMulVec
    (ball.bodyVelocity k v .world restingPair.point - ball.bodyVelocity k v ⟨1⟩ restingPair.point) = _
  rw [hnormal, contactFrame_unitZ, bodyVelocity_ball hk, hworld]
  ext <;> simp [Mat3.transposeMulVec, Mat3.identity, Vec3.dot, Vec3.unitX, Vec3.unitY, Vec3.unitZ]

end

/-- The hoist has no limits, and there are no couplers. -/
theorem equations_ballOnGround {k : PositionKinematics ℝ} (hk : k.jointFrame ⟨0⟩ = .identity)
    {x : State ℝ} (vFree v : Vec ℝ) :
    (Vec.ofList (([restingPair].flatMap fun pair => (ballOnGround.contactVelocity k v pair).toList) ++
      ballOnGround.model.joints.toList.flatMap (ballOnGround.limitRates x vFree v) ++
      ballOnGround.couplers.map (ballOnGround.couplerRate v))) = .ofList [0, 0, v 0] := by
  have hlimits : ballOnGround.limitRates x vFree v hoist = [] := by
    rw [limitRates, windowedLimits_eq_none (by
      simp [Joint.hasFiniteLimits, hoist, Joint.ofKind, JointKind.dofs, Bound.isFinite])]
  have hjoints : ballOnGround.model.joints.toList = [hoist] := rfl
  have hcouplers : ballOnGround.couplers = [] := rfl
  rw [hjoints, hcouplers, List.flatMap_singleton, List.flatMap_singleton, hlimits, contactVelocity_ball hk]
  rfl

/-- The one contact of the ball on the ground measures how fast the ball rises. -/
theorem equation_velocities_ballOnGround : ∃ p d,
    ballOnGround.defaultContext.run (ballOnGround.evalProblem ballOnGround.defaultContext.toSetting) =
      (.ok p, d) ∧
      ∀ v : Vec ℝ, p.problem.jacobian.mulVec v = .ofList [0, 0, v 0] := by
  obtain ⟨y, hfollows, hfree, -⟩ := exists_follows_ballOnGround
  obtain ⟨d, hd⟩ := hfollows.exists_run_problem hfree
  have hvouches := ballOnGround.vouches_defaultContext
  obtain ⟨k, pairs, hk, hpairs, hrows, -⟩ :=
    Vouches.equation_velocities made_ballOnGround hvouches (.created ballOnGround) hd
  refine ⟨y.problem, d, hd, fun v => (hrows v).trans ?_⟩
  -- The contact pairs are those of the stages behind the problem.
  obtain ⟨-, -, k', pairs', contacts, dynamics, free, hassembles, hpairs'⟩ :=
    hvouches.evalProblem (.created ballOnGround) hd
  obtain rfl : pairs = pairs' := Except.ok.inj (congrArg Prod.fst (hpairs.symm.trans hpairs'))
  obtain rfl : pairs = [restingPair] := Except.ok.inj (hassembles.pairs.symm.trans (pairs_ball k'))
  have hsize : d.state.positions.size = 1 := (Mechanism.positionKinematics_eq_ok_iff.mp hk).1
  obtain ⟨k'', hk'', hframe⟩ := kinematics_ball none none _ hsize
  obtain rfl : k = k'' := Except.ok.inj (hk.symm.trans hk'')
  exact equations_ballOnGround hframe _ v

/-- A context of the ball on the ground, with its results, is one that another simulator accepts, which
    takes the ball for the ground. The problem that this one is served measures how fast the ball rises,
    while the ground of its contact, for it, falls away from the ball. -/
theorem equation_velocities_ballExchanged : ballOnGround.Made ∧ ballExchanged.Made ∧ ∃ r c k p,
    ballOnGround.defaultContext.run (ballOnGround.evalResults ballOnGround.defaultContext.toSetting) =
      (.ok r, c) ∧
      ball.positionKinematics c.state.positions = .ok k ∧
      c.run (ballExchanged.evalContactPairs c.toSetting) = (.ok [restingPair], c) ∧
      c.run (ballExchanged.evalProblem c.toSetting) = (.ok p, c) ∧
      p.problem.jacobian.mulVec (.replicate 1 1) = .ofList [0, 0, 1] ∧
      (ballExchanged.contactVelocity k (.replicate 1 1) restingPair).toList = [0, 0, -1] := by
  obtain ⟨y, hfollows, hfree, -⟩ := exists_follows_ballOnGround
  obtain ⟨c, hrun, hsetting, hhas⟩ := hfollows.exists_served hfree (t := ballExchanged) rfl
  obtain ⟨k, hk, hframe⟩ := kinematics_ball none none (.zeros 1) rfl
  obtain rfl : k = y.kinematics := Except.ok.inj (hk.symm.trans hfollows.kinematics)
  have hpairs : [restingPair] = y.pairs := Except.ok.inj ((pairs_ball _).symm.trans hfollows.pairs)
  have hone : (Vec.replicate 1 1 : Vec ℝ) 0 = 1 := rfl
  refine ⟨made_ballOnGround, made_ballExchanged, y.results, c, y.kinematics, y.problem, hrun, ?_, hpairs ▸ hhas.pairs,
    hhas.problem, ?_, ?_⟩
  · rw [hsetting]
    exact hk
  · rw [made_ballOnGround.mulVec_jacobian hfollows.assembles hfollows.numVelocities, ← hpairs, ← hone]
    exact equations_ballOnGround hframe _ _
  · rw [contactVelocity_ballExchanged hframe, hone]
    rfl

end Simulator

end CompliantContact
