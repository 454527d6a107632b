import CompliantContact.Mechanism.Dynamics
import CompliantContact.Proofs.Contact.Frame
import CompliantContact.Proofs.Dense.Solve
import CompliantContact.Proofs.Mechanism.Places

/-!
Forward dynamics solves the equations of motion.

The mass matrix is symmetric if the inertias of the bodies are, and couples no velocities of different
trees, because a body moves with the velocities of its tree only. So solving tree by tree solves for all
velocities at once (`Mechanism.forwardDynamics_eq_ok`).
-/

namespace CompliantContact

open Finset Outcome

/-! ### Sums over trees -/

theorem sum_parts (sizes : List ℕ) (f : ℕ → ℝ) :
    ((List.range sizes.length).map fun t => ∑ i ∈ range (sizes.getD t 0), f (total (sizes.take t) + i)).sum =
      ∑ i ∈ range (total sizes), f i := by
  induction sizes generalizing f with
  | nil => rfl
  | cons n sizes ih =>
    rw [List.length_cons, List.range_succ_eq_map, List.map_cons, List.sum_cons, List.map_map,
      total_cons, sum_range_add, ← ih fun i => f (n + i)]
    congr 1
    · simp
    · refine congrArg List.sum (List.map_congr_left fun t _ => ?_)
      simp [Nat.add_assoc]

/-- A tree stands at its own place among the trees. -/
theorem TreeLayout.getElem?_trees {l : TreeLayout} {t : TreeIndex} (ht : t ∈ l.trees) :
    l.trees[t.val]? = some t := by
  obtain ⟨n, hn, rfl⟩ := List.mem_map.mp ht
  rw [trees, List.getElem?_map, List.getElem?_range (List.mem_range.mp hn)]
  rfl

/-- A sum over all velocities, tree by tree. -/
theorem TreeLayout.sum_trees (l : TreeLayout) (f : ℕ → ℝ) :
    (l.trees.map fun t => ∑ i ∈ range (l.size t), f (l.start t + i)).sum =
      ∑ i ∈ range (total l.sizes.toList), f i := by
  rw [← sum_parts, trees, List.map_map, numTrees, Array.length_toList]
  refine congrArg List.sum (List.map_congr_left fun t _ => ?_)
  rw [Function.comp_apply, size, Array.getD_eq_getD_getElem?, ← Array.getElem?_toList,
    ← List.getD_eq_getElem?_getD]
  rfl

/-- A sum over all velocities of what counts in one tree only. -/
theorem TreeLayout.sum_eq_sum_tree {l : TreeLayout} {t : TreeIndex} (ht : t ∈ l.trees) {f : ℕ → ℝ}
    (hf : ∀ i, ¬ l.Within t i → f i = 0) :
    ∑ i ∈ range (total l.sizes.toList), f i = ∑ i ∈ range (l.size t), f (l.start t + i) := by
  have hterm : ∀ u ∈ l.trees, ∑ i ∈ range (l.size u), f (l.start u + i) =
      if u = t then ∑ i ∈ range (l.size t), f (l.start t + i) else 0 := by
    intro u _
    by_cases hu : u = t
    · rw [if_pos hu, hu]
    · rw [if_neg hu]
      refine sum_eq_zero fun i hi => hf _ fun hwithin => hu ?_
      exact Within.unique ⟨Nat.le_add_right .., Nat.add_lt_add_left (mem_range.mp hi) _⟩ hwithin
  have hnodup : l.trees.Nodup := List.nodup_range.map fun i j h => congrArg TreeIndex.val h
  rw [← sum_trees, List.map_congr_left hterm, List.sum_map_ite_eq]
  simp [List.count_eq_one_of_mem hnodup ht]

/-! ### The mass matrix -/

namespace Mechanism

variable {m : Mechanism ℝ} {k : PositionKinematics ℝ} {i j : ℕ}

/-- What a body adds to the mass matrix. -/
noncomputable def MassTerm.entry (t : MassTerm ℝ) (i j : ℕ) : ℝ :=
  (t.translational i).dot (t.translational j) * t.mass + (t.momentum i).dot (t.angular j)

theorem massEntry_eq (terms : List (MassTerm ℝ)) (i j : ℕ) :
    massEntry terms i j = (terms.map fun t => t.entry i j).sum := by
  have hfold : ∀ x : ℝ, terms.foldl (fun acc t =>
      acc + (t.translational i).dot (t.translational j) * t.mass + (t.momentum i).dot (t.angular j)) x =
        x + (terms.map fun t => t.entry i j).sum := by
    induction terms with
    | nil => exact fun x => (add_zero x).symm
    | cons t terms ih =>
      intro x
      rw [List.foldl_cons, ih, List.map_cons, List.sum_cons, MassTerm.entry]
      ring
  exact (hfold 0).trans (zero_add _)

theorem rigidMassMatrix_get (hi : i < m.numVelocities) (hj : j < m.numVelocities) :
    m.rigidMassMatrix k i j =
      (m.indexedBodies.map fun found => (m.massTerm k found.1 found.2).entry i j).sum := by
  rw [rigidMassMatrix, Mat.get_ofFn_of_lt hi hj, massEntry_eq, List.map_map]
  rfl

theorem massTerm_momentum (b : BodyIndex) (body : Body ℝ) (i : ℕ) : (m.massTerm k b body).momentum i =
    (worldInertia (k.bodyPose b).rotation body.inertia).transposeMulVec (m.angularJacobian k b i) := by
  rw [massTerm]
  dsimp only
  rw [Columns.get_ofFn]
  split
  · rfl
  · rename_i hi
    have hzero : m.angularJacobian k b i = 0 := by
      rw [Columns.get, Array.getD_eq_getD_getElem?, Array.getElem?_eq_none (not_lt.mp hi), Option.getD_none]
    rw [hzero]
    ext <;> simp [Mat3.transposeMulVec, Vec3.dot]

/-- A symmetric inertia is so in the world. -/
theorem worldInertia_symm {inertia : Mat3 ℝ} (h : inertia.transpose = inertia) (rotation : Rotation ℝ)
    (u w : Vec3 ℝ) :
    ((worldInertia rotation inertia).transposeMulVec u).dot w =
      ((worldInertia rotation inertia).transposeMulVec w).dot u := by
  have hxy : inertia.y.x = inertia.x.y := congrArg (fun n => n.x.y) h
  have hxz : inertia.z.x = inertia.x.z := congrArg (fun n => n.x.z) h
  have hyz : inertia.z.y = inertia.y.z := congrArg (fun n => n.y.z) h
  rw [worldInertia]
  generalize rotation.toMat3 = r
  show ((Mat3.mul (Mat3.mul r inertia) r.transpose).transposeMulVec u).dot w =
    ((Mat3.mul (Mat3.mul r inertia) r.transpose).transposeMulVec w).dot u
  simp only [Mat3.mul, Mat3.transposeMulVec, Mat3.mulVec, Mat3.transpose, Mat3.ofRows, Vec3.dot,
    Vec3.add_x, Vec3.add_y,
    Vec3.add_z, Vec3.mul_x, Vec3.mul_y, Vec3.mul_z, hxy, hxz, hyz]
  ring

theorem mem_indexedBodies {found : BodyIndex × Body ℝ} (h : found ∈ m.indexedBodies) :
    found.2 ∈ m.bodies := by
  obtain ⟨b, -, hb⟩ := List.mem_filterMap.mp h
  obtain ⟨body, hbody, rfl⟩ := Option.map_eq_some_iff.mp hb
  exact Array.mem_of_getElem? hbody

/-- The mass matrix is symmetric if the inertias of the bodies are. -/
theorem rigidMassMatrix_symm (h : ∀ body ∈ m.bodies, body.inertia.transpose = body.inertia)
    (k : PositionKinematics ℝ) (i j : ℕ) : m.rigidMassMatrix k i j = m.rigidMassMatrix k j i := by
  by_cases hij : i < m.numVelocities ∧ j < m.numVelocities
  · rw [rigidMassMatrix_get hij.1 hij.2, rigidMassMatrix_get hij.2 hij.1]
    refine congrArg List.sum (List.map_congr_left fun found hfound => ?_)
    rw [MassTerm.entry, MassTerm.entry, massTerm_momentum, massTerm_momentum]
    congr 1
    · simp only [Vec3.dot]
      ring
    · exact worldInertia_symm (h _ (mem_indexedBodies hfound)) _ _ _
  · rw [Mat.get_outside (m := m.rigidMassMatrix k) hij,
      Mat.get_outside (m := m.rigidMassMatrix k) fun h => hij h.symm]

/-- A body adds nothing to the mass matrix in the columns of velocities that are not of its tree. -/
theorem Orderly.entry_eq_zero (hm : m.Orderly) {b : BodyIndex}
    (h : ∀ t, m.layout.bodyTree? b = some t → ¬ m.layout.Within t j)
    (body : Body ℝ) (i : ℕ) : (m.massTerm k b body).entry i j = 0 := by
  have htranslational : (m.massTerm k b body).translational j = 0 := hm.translationalJacobian_eq_zero h
  have hangular : (m.massTerm k b body).angular j = 0 := hm.angularJacobian_eq_zero h
  rw [MassTerm.entry, htranslational, hangular]
  simp [Vec3.dot]

/-- The mass matrix couples no velocities of different trees. -/
theorem Orderly.rigidMassMatrix_eq_zero (hm : m.Orderly) {t : TreeIndex} (hi : m.layout.Within t i)
    (hj : ¬ m.layout.Within t j) :
    m.rigidMassMatrix k i j = 0 := by
  by_cases hij : i < m.numVelocities ∧ j < m.numVelocities
  · rw [rigidMassMatrix_get hij.1 hij.2]
    refine List.sum_eq_zero fun x hx => ?_
    obtain ⟨⟨b, body⟩, -, rfl⟩ := List.mem_map.mp hx
    -- The body is in one tree at most, and so one of its columns is zero.
    by_cases htree : m.layout.bodyTree? b = some t
    · exact hm.entry_eq_zero (fun u hu => Option.some.inj (htree.symm.trans hu) ▸ hj) body i
    · have hnone : ∀ u, m.layout.bodyTree? b = some u → ¬ m.layout.Within u i := fun u hu hwithin =>
        htree (hu.trans (congrArg some (hwithin.unique hi)))
      have htranslational : (m.massTerm k b body).translational i = 0 :=
        hm.translationalJacobian_eq_zero hnone
      rw [MassTerm.entry, massTerm_momentum, htranslational, hm.angularJacobian_eq_zero hnone]
      simp [Vec3.dot, Mat3.transposeMulVec]
  · exact Mat.get_outside (m := m.rigidMassMatrix k) hij

section
variable {d : Vec ℝ}

theorem addDiagonal_get (hi : i < m.numVelocities) (hj : j < m.numVelocities) :
    (m.rigidMassMatrix k).addDiagonal d i j = m.rigidMassMatrix k i j + if i = j then d i else 0 :=
  Mat.addDiagonal_get hi hj

theorem addDiagonal_symm (h : ∀ body ∈ m.bodies, body.inertia.transpose = body.inertia)
    (k : PositionKinematics ℝ) (d : Vec ℝ)
    (i j : ℕ) : (m.rigidMassMatrix k).addDiagonal d i j = (m.rigidMassMatrix k).addDiagonal d j i := by
  by_cases hij : i < m.numVelocities ∧ j < m.numVelocities
  · rw [addDiagonal_get hij.1 hij.2, addDiagonal_get hij.2 hij.1, rigidMassMatrix_symm h]
    by_cases heq : i = j
    · rw [heq]
    · rw [if_neg heq, if_neg (Ne.symm heq)]
  · rw [Mat.get_outside (m := (m.rigidMassMatrix k).addDiagonal d) hij,
      Mat.get_outside (m := (m.rigidMassMatrix k).addDiagonal d) fun h => hij h.symm]

theorem Orderly.addDiagonal_eq_zero (hm : m.Orderly) {t : TreeIndex} (hi : m.layout.Within t i)
    (hj : ¬ m.layout.Within t j) :
    (m.rigidMassMatrix k).addDiagonal d i j = 0 := by
  by_cases hij : i < m.numVelocities ∧ j < m.numVelocities
  · rw [addDiagonal_get hij.1 hij.2, hm.rigidMassMatrix_eq_zero hi hj,
      if_neg fun heq : i = j => hj (heq ▸ hi), add_zero]
  · exact Mat.get_outside (m := (m.rigidMassMatrix k).addDiagonal d) hij

end

/-! ### Forward dynamics -/

theorem size_spatialForceTerm (tau : Vec ℝ) (bf : BodyIndex × SpatialForce ℝ) :
    (m.spatialForceTerm k tau bf).size = tau.size := by
  rw [spatialForceTerm]
  split <;> simp only [Vec.size_add]

theorem generalizedForces_eq_ok {f : Forces ℝ} {applied : Vec ℝ} (h : m.generalizedForces k f = .ok applied) :
    f.sizedFor m = true ∧
      applied = (m.movableBodies.map fun b => (b, f.bodies.getD b.val 0)).foldl
        (m.spatialForceTerm k) f.generalized := by
  rw [generalizedForces, require_bind_eq_ok_iff] at h
  exact ⟨h.1, (Except.ok.inj h.2).symm⟩

theorem size_generalizedForces {f : Forces ℝ} {applied : Vec ℝ} (h : m.generalizedForces k f = .ok applied) :
    applied.size = m.numVelocities := by
  obtain ⟨hsized, rfl⟩ := generalizedForces_eq_ok h
  have hgeneralized : f.generalized.size = m.numVelocities := by
    simpa using (Bool.and_eq_true_iff.mp hsized).1
  exact (Vec.size_foldl size_spatialForceTerm _ _).trans hgeneralized

/-- A tree has an acceleration for each of its velocities. -/
theorem size_solveTree {mass : Mat ℝ} {rhs x : Vec ℝ} {t : TreeIndex} (h : m.solveTree mass rhs t = .ok x) :
    x.size = m.layout.size t := by
  rw [solveTree] at h
  split at h
  · cases h
  · rename_i l hl
    cases h
    have hrows : l.rows = m.layout.size t := (Cholesky.factored_of_factor? rfl hl).rows
    rw [Cholesky.solve, Vec.size_append, Cholesky.size_solveUpper, hrows, Vec.slice, Vec.size_ofFn,
      Vec.slice, Vec.size_ofFn, Nat.sub_self, Nat.add_zero]

/-- The accelerations of one tree. -/
theorem solveTree_eq_ok {mass : Mat ℝ} {rhs x : Vec ℝ} {t : TreeIndex} (hsymm : ∀ i j, mass i j = mass j i)
    (h : m.solveTree mass rhs t = .ok x) : ∀ i < m.layout.size t,
      ∑ j ∈ range (m.layout.size t), mass (m.layout.start t + i) (m.layout.start t + j) * x j =
        rhs (m.layout.start t + i) := by
  rw [solveTree] at h
  split at h
  · cases h
  · rename_i l hl
    cases h
    intro i hi
    have hblock : ∀ j < m.layout.size t,
        mass.diagonalBlock (m.layout.start t) (m.layout.size t) i j =
          mass (m.layout.start t + i) (m.layout.start t + j) :=
      fun j hj => Mat.get_ofFn_of_lt hi hj
    have hsymm' : ∀ i j, mass.diagonalBlock (m.layout.start t) (m.layout.size t) i j =
        mass.diagonalBlock (m.layout.start t) (m.layout.size t) j i := by
      intro i j
      rw [Mat.diagonalBlock, Mat.get_ofFn, Mat.get_ofFn, hsymm]
      simp only [and_comm]
    have hsolve := Cholesky.sum_mul_solve_eq rfl hsymm' hl
      (rhs.slice (m.layout.start t) (m.layout.size t)) (i := i) hi
    rw [Vec.slice, Vec.get_ofFn_of_lt hi] at hsolve
    rw [← hsolve]
    exact sum_congr rfl fun j hj => by rw [hblock j (mem_range.mp hj), Vec.slice]

/-- Forward dynamics succeeds if the block of every tree is positive definite. -/
theorem exists_forwardDynamics {v added : Vec ℝ} {f : Forces ℝ} (hf : f.sizedFor m = true)
    (hv : v.size = m.numVelocities)
    (hadded : added.size = m.numVelocities) (hspd : ∀ t ∈ m.layout.trees,
      (((m.rigidMassMatrix k).addDiagonal added).diagonalBlock (m.layout.start t) (m.layout.size t)).IsSPD) :
    ∃ acc, m.forwardDynamics k v added f = .ok acc := by
  obtain ⟨applied, happlied⟩ : ∃ applied, m.generalizedForces k f = .ok applied :=
    ⟨_, require_bind_eq_ok_iff.mpr ⟨hf, rfl⟩⟩
  obtain ⟨bias, hbias⟩ : ∃ bias, m.biasForces k v = .ok bias :=
    ⟨_, bind_eq_ok_iff.mpr ⟨(), requireSize_eq_ok_iff.mpr hv.symm, rfl⟩⟩
  have hsolve : ∀ t ∈ m.layout.trees, ∃ x,
      m.solveTree ((m.rigidMassMatrix k).addDiagonal added) (applied - bias) t = .ok x := by
    intro t ht
    obtain ⟨l, hl, -⟩ := Cholesky.exists_factor (hspd t ht)
    exact ⟨_, by rw [solveTree, hl]⟩
  obtain ⟨xs, hxs⟩ := exists_map_eq_ok hsolve
  simp only [forwardDynamics, bind_eq_ok_iff]
  exact ⟨_, (), requireSize_eq_ok_iff.mpr hadded.symm, applied, happlied, bias, hbias, xs,
    mapM_eq_ok_iff.mpr hxs, rfl⟩

/-- Forward dynamics solves for the accelerations of each tree by themselves. -/
theorem forwardDynamics_trees (hlaid : m.LaidOut) {v added acc : Vec ℝ} {f : Forces ℝ}
    (h : m.forwardDynamics k v added f = .ok acc) : added.size = m.numVelocities ∧
    acc.size = m.numVelocities ∧
      ∃ applied bias, m.generalizedForces k f = .ok applied ∧ m.biasForces k v = .ok bias ∧
      ∀ t ∈ m.layout.trees,
        m.solveTree ((m.rigidMassMatrix k).addDiagonal added) (applied - bias) t =
          .ok (acc.slice (m.layout.start t) (m.layout.size t)) := by
  simp only [forwardDynamics, bind_eq_ok_iff] at h
  obtain ⟨_, hadded, applied, happlied, bias, hbias, xs, hxs, h⟩ := h
  cases h
  have hadded : m.numVelocities = added.size := requireSize_eq_ok_iff.mp hadded
  have hsolved := mapM_eq_ok_iff.mp hxs
  have hsizes : xs.map Vec.size = m.layout.sizes.toList := by
    rw [← TreeLayout.map_size_trees]
    exact map_eq_of_map_eq hsolved fun t _ x hx => size_solveTree hx
  refine ⟨hadded.symm, by rw [Vec.size_concat, hsizes, hlaid.sizes], applied, bias, happlied, hbias,
    fun t ht => ?_⟩
  obtain ⟨x, hx, hsolve⟩ := exists_getElem?_of_map_eq_ok hsolved (TreeLayout.getElem?_trees ht)
  have hstart : total ((xs.take t.val).map Vec.size) = m.layout.start t := by rw [List.map_take, hsizes]; rfl
  have hslice := Vec.slice_concat hx
  rw [hstart, size_solveTree hsolve] at hslice
  rw [hslice]
  exact hsolve

/-- The accelerations of forward dynamics solve the equations of motion of all velocities. -/
theorem forwardDynamics_eq_ok (hm : m.Orderly) (hlaid : m.LaidOut)
    (hinertia : ∀ body ∈ m.bodies, body.inertia.transpose = body.inertia) {v added acc : Vec ℝ} {f : Forces ℝ}
    (h : m.forwardDynamics k v added f = .ok acc) :
    added.size = m.numVelocities ∧ acc.size = m.numVelocities ∧
    ∃ applied bias, m.generalizedForces k f = .ok applied ∧
      m.biasForces k v = .ok bias ∧ ((m.rigidMassMatrix k).addDiagonal added).mulVec acc =
        applied - bias := by
  obtain ⟨hadded, hsize, applied, bias, happlied, hbias, hsolved⟩ := forwardDynamics_trees hlaid h
  refine ⟨hadded, hsize, applied, bias, happlied, hbias, Vec.ext ?_ fun i hi => ?_⟩
  · rw [Mat.size_mulVec, Vec.size_sub, size_generalizedForces happlied]
    rfl
  have hi : i < m.numVelocities := by rwa [Mat.size_mulVec] at hi
  -- Only the velocities of the tree of `i` count, and there its own system was solved.
  obtain ⟨t, hwithin⟩ := TreeLayout.exists_within (l := m.layout) (hlaid.sizes.symm ▸ hi)
  have htree := hwithin.mem_trees
  have hrows := solveTree_eq_ok (addDiagonal_symm hinertia k added) (hsolved t htree)
  obtain ⟨hfirst, hlast⟩ := hwithin
  rw [Mat.get_mulVec hi]
  show ∑ j ∈ range m.numVelocities, _ = _
  rw [← hlaid.sizes, TreeLayout.sum_eq_sum_tree htree fun j hj => by
    rw [hm.addDiagonal_eq_zero ⟨hfirst, hlast⟩ hj, zero_mul]]
  have hrow := hrows (i - m.layout.start t) (by omega)
  rw [Nat.add_sub_cancel' hfirst] at hrow
  rw [← hrow]
  exact sum_congr rfl fun j hj => by rw [Vec.slice, Vec.get_ofFn_of_lt (mem_range.mp hj)]

end Mechanism

end CompliantContact
