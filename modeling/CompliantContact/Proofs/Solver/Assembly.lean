import CompliantContact.Proofs.Problem.Counted
import CompliantContact.Proofs.Solver.Evaluate

/-!
Assembly with checked places.

The solver writes the matrices of the trees, the blocks of the constraints and their regularizations to
places that it counts as it goes along, in a matrix or vector of the size that the counts ask for. In a
problem that clients can have, every part is there and has the shape of what is written to it
(`CountedProblem.consistent_performAll`).
-/

namespace CompliantContact

variable {α : Type} [Scalar α]

/-! ### Parts of vectors and matrices -/

namespace Vec

variable {u v w : Vec α} {start n : Nat}

/-- The vector with the `n` entries from `start` on replaced. Fails unless they are there and `n` others
    are given. -/
def replace? (v : Vec α) (start n : Nat) (w : Vec α) : Option (Vec α) :=
  if start + n ≤ v.size ∧ w.size = n then
    some (.ofFn v.size fun i => if start ≤ i ∧ i < start + n then w (i - start) else v i)
  else none

theorem exists_replace (hstart : start + n ≤ v.size) (hw : w.size = n) :
    ∃ u, v.replace? start n w = some u ∧ u.size = v.size ∧ (∀ i < start, u i = v i) ∧
    u.slice start n = w := by
  refine ⟨_, if_pos ⟨hstart, hw⟩, size_ofFn .., fun i hi => ?_,
    Vec.ext ((size_ofFn ..).trans hw.symm) fun i hi => ?_⟩
  · rw [get_ofFn_of_lt (by omega), if_neg (by omega)]
  · have hi : i < n := by rwa [slice, size_ofFn] at hi
    rw [slice, get_ofFn_of_lt hi, get_ofFn_of_lt (by omega), if_pos (by omega), Nat.add_sub_cancel_left]

theorem slice_congr (h : ∀ i < start + n, u i = v i) : u.slice start n = v.slice start n := by
  refine Vec.ext ((size_ofFn ..).trans (size_ofFn ..).symm) fun i hi => ?_
  have hi : i < n := by rwa [slice, size_ofFn] at hi
  rw [slice, slice, get_ofFn_of_lt hi, get_ofFn_of_lt hi, h _ (by omega)]

end Vec

namespace Mat

variable {m b : Mat α} {row col rows cols : Nat} {f : α → α → α}

/-- The matrix with the part of the given shape from a row and a column on combined with another matrix.
    Fails unless the part is there and the other matrix has its shape. -/
def combine? (f : α → α → α) (m : Mat α) (row col rows cols : Nat) (b : Mat α) : Option (Mat α) :=
  if row + rows ≤ m.rows ∧ col + cols ≤ m.cols ∧ b.rows = rows ∧ b.cols = cols then
    some (.ofFn m.rows m.cols fun i j =>
      if (row ≤ i ∧ i < row + rows) ∧ col ≤ j ∧
      j < col + cols then f (m i j) (b (i - row) (j - col)) else m i j)
  else none

theorem exists_combine (f : α → α → α) (row col : Nat) (hrow : row + rows ≤ m.rows)
    (hcol : col + cols ≤ m.cols) (hrows : b.rows = rows)
    (hcols : b.cols = cols) : ∃ n, m.combine? f row col rows cols b = some n ∧ n.rows = m.rows ∧
    n.cols = m.cols ∧
      ∀ i < m.rows, ∀ j < m.cols, n i j =
        if (row ≤ i ∧ i < row + rows) ∧ col ≤ j ∧
        j < col + cols then f (m i j) (b (i - row) (j - col)) else m i j :=
  ⟨_, if_pos ⟨hrow, hcol, hrows, hcols⟩, rfl, rfl, fun _ hi _ hj => get_ofFn_of_lt hi hj⟩

end Mat

/-- A factor has the shape of what it factors. -/
theorem Cholesky.rows_factor {m l : Mat α} (h : factor? m = some l) : l.rows = m.rows := by
  suffices hfold : ∀ (columns : List Nat) (m l : Mat α), columns.foldlM writeColumn m = some l →
    l.rows = m.rows from
    hfold _ m l h
  intro columns
  induction columns with
  | nil => exact fun m l h => by cases h; rfl
  | cons j columns ih =>
    intro m l h
    rw [List.foldlM_cons] at h
    obtain ⟨k, hk, h⟩ := Option.bind_eq_some_iff.mp h
    refine (ih k l h).trans ?_
    rw [writeColumn] at hk
    split at hk
    · cases hk
      rfl
    · cases hk

namespace CountedProblem

/-- Writes the matrix of a tree at its first velocity. -/
def writeTree? (m : Mat α) (tree : Nat × Mat α) : Option (Mat α) :=
  m.combine? (fun _ x => x) tree.1 tree.1 tree.2.rows tree.2.rows tree.2

/-- The matrices of the trees, along the diagonal. -/
def assembleDynamics? (q : CountedProblem α) : Option (Mat α) :=
  (q.treeStarts.toList.zip q.dynamics.toList).foldlM writeTree? (.zeros q.numVelocities q.numVelocities)

/-- Adds a block of a constraint with `n` equations, from a row on. -/
def addBlock? (q : CountedProblem α) (row n : Nat) (m : Mat α) (b : JacobianBlock α) : Option (Mat α) := do
  let start ← q.treeStarts[b.tree.val]?
  m.combine? (· + ·) row start n b.jacobian.cols b.jacobian

/-- Adds the blocks of a constraint from a row on, and counts the row after them. -/
def addRows? (q : CountedProblem α) (state : Mat α × Nat) (c : Constraint α) : Option (Mat α × Nat) := do
  let (m, row) := state
  return (← c.blocks.foldlM (q.addBlock? row c.numEquations) m, row + c.numEquations)

/-- The blocks of the constraints, one constraint below another. -/
def assembleJacobian? (q : CountedProblem α) : Option (Mat α) :=
  Prod.fst <$> q.constraints.toList.foldlM q.addRows? (Mat.zeros q.equationCount q.numVelocities, 0)

end CountedProblem

/-- What the solver stacks for each equation, and where the equations of each constraint start. -/
structure StackedRows (α : Type) where
  offsets : Array Nat
  regularization : Vec α
  bias : Vec α
  next : Nat

namespace StackedRows

/-- Looks up the factor of a tree, for a block of a constraint with `n` equations. -/
def checkFactor? (factors : Array (Mat α)) (n : Nat) (b : JacobianBlock α) : Option Unit := do
  let l ← factors[b.tree.val]?
  guard (b.jacobian.rows = n ∧ b.jacobian.cols = l.rows)

/-- Stacks the equations of a constraint. -/
def add? (dt : α) (factors : Array (Mat α)) (s : StackedRows α) (c : Constraint α) :
    Option (StackedRows α) := do
  c.blocks.forM (checkFactor? factors c.numEquations)
  return {
    offsets := s.offsets.push s.next
    regularization := ← s.regularization.replace? s.next c.numEquations
      (c.regularization dt (Coupling.inverseInertia factors c))
    bias := ← s.bias.replace? s.next c.numEquations (c.bias dt)
    next := s.next + c.numEquations }

/-- Stacks the equations of all constraints, in vectors of the size that was counted. -/
def ofProblem? (q : CountedProblem α) (factors : Array (Mat α)) : Option (StackedRows α) :=
  q.constraints.toList.foldlM (add? q.timeStep factors) ⟨#[], .zeros q.equationCount,
    .zeros q.equationCount, 0⟩

/-- Stacking constraints leads from some rows to others. -/
structure Follows (dt : α) (factors : Array (Mat α)) (cs : List (Constraint α))
    (s t : StackedRows α) : Prop where
  offsets : t.offsets.toList = s.offsets.toList ++ startsFrom s.next (cs.map Constraint.numEquations)
  before : ∀ i < s.next, t.regularization i = s.regularization i ∧ t.bias i = s.bias i
  regularization : ∀ (k : Nat) (c : Constraint α), cs[k]? = some c →
    t.regularization.slice (s.next + total ((cs.take k).map Constraint.numEquations)) c.numEquations =
      c.regularization dt (Coupling.inverseInertia factors c)
  bias : ∀ (k : Nat) (c : Constraint α), cs[k]? = some c →
    t.bias.slice (s.next + total ((cs.take k).map Constraint.numEquations)) c.numEquations = c.bias dt

variable {dt : α} {factors : Array (Mat α)} {cs : List (Constraint α)} {s : StackedRows α} {c : Constraint α}

theorem exists_add (dt : α) (s : StackedRows α) (hc : c.InRange)
    (hfactors : ∀ b ∈ c.blocks, checkFactor? factors c.numEquations b = some ())
    (hregularization : s.next + c.numEquations ≤ s.regularization.size)
    (hbias : s.next + c.numEquations ≤ s.bias.size) :
    ∃ t, add? dt factors s c = some t ∧ t.next = s.next + c.numEquations ∧ t.offsets = s.offsets.push s.next ∧
      t.regularization.size = s.regularization.size ∧ t.bias.size = s.bias.size ∧
      (∀ i < s.next, t.regularization i = s.regularization i ∧ t.bias i = s.bias i) ∧
      t.regularization.slice s.next c.numEquations = c.regularization dt (Coupling.inverseInertia factors c) ∧
      t.bias.slice s.next c.numEquations = c.bias dt := by
  obtain ⟨r, hr, hrsize, hrbefore, hrslice⟩ :=
    Vec.exists_replace hregularization
      (Constraint.size_regularization hc dt (Coupling.inverseInertia factors c))
  obtain ⟨bias, hb, hbsize, hbbefore, hbslice⟩ := Vec.exists_replace hbias (Constraint.size_bias hc dt)
  refine ⟨⟨s.offsets.push s.next, r, bias, s.next + c.numEquations⟩, ?_, rfl, rfl, hrsize, hbsize, fun i hi =>
    ⟨hrbefore i hi, hbbefore i hi⟩, hrslice, hbslice⟩
  have hchecked : c.blocks.forM (checkFactor? factors c.numEquations) = some () := by
    generalize c.blocks = blocks at hfactors
    induction blocks with
    | nil => rfl
    | cons b blocks ih =>
      show (checkFactor? factors c.numEquations b >>= fun _ => blocks.forM _) = _
      rw [hfactors b (List.mem_cons_self ..)]
      exact ih fun b hb => hfactors b (List.mem_cons_of_mem _ hb)
  rw [add?, hchecked, hr, hb]
  rfl

/-- Where the vectors are long enough, the equations of constraints are stacked one after another. -/
theorem exists_follows (dt : α) (s : StackedRows α) (hcs : ∀ c ∈ cs, c.InRange)
    (hfactors : ∀ c ∈ cs, ∀ b ∈ c.blocks, checkFactor? factors c.numEquations b = some ())
    (hregularization : s.next + total (cs.map Constraint.numEquations) ≤ s.regularization.size)
    (hbias : s.next + total (cs.map Constraint.numEquations) ≤ s.bias.size) :
    ∃ t, cs.foldlM (add? dt factors) s = some t ∧ Follows dt factors cs s t := by
  induction cs generalizing s with
  | nil => exact ⟨s, rfl, by simp [startsFrom], fun _ _ => ⟨rfl, rfl⟩, nofun, nofun⟩
  | cons c cs ih =>
    rw [List.map_cons, total_cons] at hregularization hbias
    obtain ⟨s', hs', hnext, hoffsets, hrsize, hbsize, hbefore, hrslice, hbslice⟩ :=
      exists_add dt s (hcs c (List.mem_cons_self ..)) (hfactors c (List.mem_cons_self ..))
        (by omega) (by omega)
    obtain ⟨t, ht, hfollows⟩ := ih s' (fun d hd => hcs d (List.mem_cons_of_mem _ hd))
      (fun d hd => hfactors d (List.mem_cons_of_mem _ hd)) (by omega) (by omega)
    refine ⟨t, ?_, ?_, fun i hi => ?_, fun k d hd => ?_, fun k d hd => ?_⟩
    · rw [List.foldlM_cons, hs']
      exact ht
    · rw [hfollows.offsets, hoffsets, hnext, List.map_cons, startsFrom_cons, Array.toList_push,
        List.append_assoc]
      rfl
    · have hi' : i < s'.next := by omega
      exact ⟨(hfollows.before i hi').1.trans (hbefore i hi).1,
        (hfollows.before i hi').2.trans (hbefore i hi).2⟩
    · cases k with
      | zero =>
        obtain rfl : c = d := Option.some.inj hd
        refine (Vec.slice_congr fun i hi => (hfollows.before i ?_).1).trans hrslice
        simpa [hnext] using hi
      | succ k =>
        have hslice := hfollows.regularization k d hd
        rw [hnext, Nat.add_assoc] at hslice
        exact hslice
    · cases k with
      | zero =>
        obtain rfl : c = d := Option.some.inj hd
        refine (Vec.slice_congr fun i hi => (hfollows.before i ?_).2).trans hbslice
        simpa [hnext] using hi
      | succ k =>
        have hslice := hfollows.bias k d hd
        rw [hnext, Nat.add_assoc] at hslice
        exact hslice

end StackedRows

namespace CountedProblem

variable {q : CountedProblem α} {m : Mat α} {row n : Nat} {blocks : List (JacobianBlock α)}
    {cs : List (Constraint α)}

/-! ### The dynamics matrix -/

/-- Blocks are written along the diagonal of what is still zero. -/
theorem exists_diagonal {trees : List (Mat α)} (start : Nat) (hsquare : ∀ a ∈ trees, a.cols = a.rows)
    (hrows : start + total (trees.map Mat.rows) ≤ m.rows)
    (hcols : start + total (trees.map Mat.rows) ≤ m.cols)
    (hzero : ∀ i < m.rows, start ≤ i → ∀ j < m.cols, start ≤ j → m i j = 0) :
    ∃ m', ((startsFrom start (trees.map Mat.rows)).zip trees).foldlM writeTree? m = some m' ∧
    m'.rows = m.rows ∧
      m'.cols = m.cols ∧ ∀ i < m.rows, ∀ j < m.cols, m' i j =
        if start ≤ i ∧ start ≤ j then Problem.blockEntry trees (i - start) (j - start) else m i j := by
  induction trees generalizing m start with
  | nil =>
    refine ⟨m, rfl, rfl, rfl, fun i hi j hj => ?_⟩
    split
    · next hafter => exact hzero i hi hafter.1 j hj hafter.2
    · rfl
  | cons a trees ih =>
    rw [List.map_cons, total_cons] at hrows hcols
    obtain ⟨u, hu, hurows, hucols, huentry⟩ := Mat.exists_combine (m := m) (fun _ x => x) start start
      (by omega) (by omega) rfl (hsquare a (List.mem_cons_self ..))
    obtain ⟨t, ht, htrows, htcols, htentry⟩ := ih (m := u) (start + a.rows)
      (fun b hb => hsquare b (List.mem_cons_of_mem _ hb)) (by omega)
      (by omega) fun i hi hafter j hj hafter' => by
        rw [huentry i (hurows ▸ hi) j (hucols ▸ hj), if_neg (by omega)]
        exact hzero i (hurows ▸ hi) (by omega) j (hucols ▸ hj) (by omega)
    refine ⟨t, ?_, htrows.trans hurows, htcols.trans hucols, fun i hi j hj => ?_⟩
    · rw [List.map_cons, startsFrom_cons, List.zip_cons_cons, List.foldlM_cons, writeTree?, hu]
      exact ht
    · rw [htentry i (hurows ▸ hi) j (hucols ▸ hj), huentry i hi j hj]
      by_cases hafter : start ≤ i ∧ start ≤ j
      · rw [if_pos hafter, Problem.blockEntry]
        by_cases hi' : i - start < a.rows <;> by_cases hj' : j - start < a.rows
        · rw [if_neg (by omega), if_pos (by omega), if_pos hi', if_pos hj']
        · rw [if_neg (by omega), if_neg (by omega), if_pos hi', if_neg hj', hzero i hi hafter.1 j hj hafter.2]
        · rw [if_neg (by omega), if_neg (by omega), if_neg hi', if_pos hj', hzero i hi hafter.1 j hj hafter.2]
        · rw [if_pos (by omega), if_neg hi', if_neg hj', Nat.sub_sub, Nat.sub_sub]
      · rw [if_neg hafter, if_neg (by omega), if_neg (by omega)]

/-! ### The Jacobian -/

/-- What blocks add to an entry of the Jacobian. -/
def addedTo (q : CountedProblem α) (blocks : List (JacobianBlock α)) (row j : Nat) (x : α) : α :=
  blocks.foldl (fun acc b =>
    let start := q.treeStart b.tree
    if start ≤ j ∧ j < start + b.jacobian.cols then acc + b.jacobian row (j - start) else acc) x

/-- The blocks of a constraint are added in its rows. -/
theorem exists_addBlocks (row : Nat)
    (hstarts : ∀ b ∈ blocks, q.treeStarts[b.tree.val]? = some (q.treeStart b.tree))
    (hcols : ∀ b ∈ blocks, q.treeStart b.tree + b.jacobian.cols ≤ m.cols)
    (hrows : ∀ b ∈ blocks, b.jacobian.rows = n)
    (hrow : row + n ≤ m.rows) : ∃ m', blocks.foldlM (q.addBlock? row n) m = some m' ∧ m'.rows = m.rows ∧
    m'.cols = m.cols ∧
      ∀ i < m.rows, ∀ j < m.cols, m' i j = if row ≤ i ∧
      i < row + n then q.addedTo blocks (i - row) j (m i j) else m i j := by
  induction blocks generalizing m with
  | nil => exact ⟨m, rfl, rfl, rfl, fun i _ j _ => (ite_self _).symm⟩
  | cons b blocks ih =>
    obtain ⟨m', hm', hrows', hcols', hentry⟩ :=
      Mat.exists_combine (· + ·) row (q.treeStart b.tree) hrow (hcols b (List.mem_cons_self ..))
      (hrows b (List.mem_cons_self ..)) rfl
    obtain ⟨t, ht, htrows, htcols, htentry⟩ :=
      ih (m := m') (fun d hd => hstarts d (List.mem_cons_of_mem _ hd))
      (fun d hd => hcols'.symm ▸ hcols d (List.mem_cons_of_mem _ hd))
      (fun d hd => hrows d (List.mem_cons_of_mem _ hd)) (hrows'.symm ▸ hrow)
    refine ⟨t, ?_, htrows.trans hrows', htcols.trans hcols', fun i hi j hj => ?_⟩
    · rw [List.foldlM_cons, addBlock?, hstarts b (List.mem_cons_self ..)]
      exact Option.bind_eq_some_iff.mpr ⟨m', hm', ht⟩
    · rw [htentry i (hrows'.symm ▸ hi) j (hcols'.symm ▸ hj), hentry i hi j hj]
      by_cases hinside : row ≤ i ∧ i < row + n
      · simp only [hinside, if_true, true_and]
        rfl
      · simp only [hinside, if_false, false_and]

/-- The blocks of constraints are added one constraint after another. -/
structure Adds (q : CountedProblem α) (cs : List (Constraint α)) (row : Nat) (m m' : Mat α) : Prop where
  rows : m'.rows = m.rows
  cols : m'.cols = m.cols
  before : ∀ i < row, ∀ j < m.cols, m' i j = m i j
  blocks : ∀ (k : Nat) (c : Constraint α), cs[k]? = some c →
    m'.rowBlock (row + total ((cs.take k).map Constraint.numEquations)) c.numEquations =
      q.constraintJacobian c

omit [Scalar α] in
theorem getElem?_treeStarts (hcounts : q = of q.toProblem) {t : TreeIndex} (ht : t.val < q.numTrees) :
    q.treeStarts[t.val]? = some (q.treeStart t) := by
  rw [hcounts, of, List.getElem?_toArray, List.getElem?_map, List.getElem?_range ht, Option.map_some]

/-- Rows that are still zero become those of the Jacobians of the constraints. -/
theorem exists_adds (row : Nat) (hcounts : q = of q.toProblem)
    (hcs : ∀ c ∈ cs, c.Shaped ∧ ∀ b ∈ c.blocks, q.Fits b ∧
      q.treeStart b.tree + b.jacobian.cols ≤ q.numVelocities)
    (hrow : row + total (cs.map Constraint.numEquations) ≤ m.rows) (hcols : m.cols = q.numVelocities)
    (hzero : ∀ i < m.rows, row ≤ i → ∀ j < m.cols, m i j = 0) :
    ∃ m', cs.foldlM q.addRows? (m, row) = some (m', row + total (cs.map Constraint.numEquations)) ∧
    Adds q cs row m m' := by
  induction cs generalizing m row with
  | nil => exact ⟨m, rfl, rfl, rfl, fun _ _ _ _ => rfl, nofun⟩
  | cons c cs ih =>
    obtain ⟨hshaped, hfits⟩ := hcs c (List.mem_cons_self ..)
    rw [List.map_cons, total_cons] at hrow
    obtain ⟨u, hu, hurows, hucols, huentry⟩ := exists_addBlocks (q := q) (m := m) row
      (fun b hb => getElem?_treeStarts hcounts (hfits b hb).1.tree)
      (fun b hb => hcols ▸ (hfits b hb).2) hshaped.rows (by omega)
    obtain ⟨t, ht, htrows, htcols, htbefore, htblocks⟩ := ih (m := u) (row + c.numEquations)
      (fun d hd => hcs d (List.mem_cons_of_mem _ hd)) (by omega) (hucols.trans hcols) fun i hi hle j hj => by
        rw [huentry i (hurows ▸ hi) j (hucols ▸ hj), if_neg (by omega)]
        exact hzero i (hurows ▸ hi) (by omega) j (hucols ▸ hj)
    refine ⟨t, ?_, htrows.trans hurows, htcols.trans hucols, fun i hi j hj => ?_, fun k d hd => ?_⟩
    · have hstep : q.addRows? (m, row) c = some (u, row + c.numEquations) := by
        rw [addRows?, hu]
        rfl
      rw [List.foldlM_cons, hstep, List.map_cons, total_cons, ← Nat.add_assoc]
      exact ht
    · rw [htbefore i (by omega) j (hucols.symm ▸ hj), huentry i (by omega) j hj, if_neg (by omega)]
    · cases k with
      | zero =>
        obtain rfl : c = d := Option.some.inj hd
        refine Mat.ext rfl (htcols.trans (hucols.trans hcols)) fun i hi j hj => ?_
        have hi : i < c.numEquations := hi
        have hj : j < m.cols := (htcols.trans hucols) ▸ hj
        have hrow' : (row + i) - row = i := Nat.add_sub_cancel_left ..
        rw [Mat.rowBlock, Mat.get_ofFn_of_lt hi (by omega), Problem.constraintJacobian,
          Mat.get_ofFn_of_lt hi (hcols ▸ hj),
          List.take_zero, List.map_nil, total_nil, Nat.add_zero, htbefore _ (by omega) j (hucols.symm ▸ hj),
          huentry _ (by omega) j hj, if_pos (by omega), hzero _ (by omega) (by omega) j hj, hrow']
        rfl
      | succ k =>
        have hblock := htblocks k d hd
        rw [Nat.add_assoc] at hblock
        exact hblock

/-! ### Consistency -/

/-- What holds of a problem, its counts and its assembly. -/
structure Consistent (q : CountedProblem α) : Prop where
  /-- The constraints before the count of contacts are the friction cones. -/
  contacts : q.contactCount ≤ q.numConstraints ∧
    ∀ k c, q.constraint? k = some c → (k < q.contactCount ↔ ∃ p, c.kind = .cone p)
  equations : q.equationCount = total (q.constraints.toList.map Constraint.numEquations)
  trees : q.treeStarts.toList = startsFrom 0 (q.dynamics.toList.map Mat.rows) ∧
    q.numVelocities = total (q.dynamics.toList.map Mat.rows)
  /-- A block names a tree that is there and has a column for each of its velocities. -/
  blocks : ∀ c ∈ q.constraints.toList, ∀ b ∈ c.blocks, b.tree.val < q.numTrees ∧
  b.jacobian.cols = q.treeSize b.tree
  /-- Each contact has its three rows. -/
  contactRows : ∀ k < q.contactCount,
  total ((q.constraints.toList.take k).map Constraint.numEquations) = 3 * k ∧
    (∀ c, q.constraint? k = some c → c.numEquations = 3) ∧ 3 * k + 3 ≤ q.equationCount
  dynamics : q.assembleDynamics? = some q.dynamicsMatrix
  /-- The Jacobian of a constraint stands below those of the constraints before it. -/
  jacobian : ∃ m, q.assembleJacobian? = some m ∧ m.rows = q.equationCount ∧ m.cols = q.numVelocities ∧
    ∀ k c, q.constraint? k = some c →
      m.rowBlock (total ((q.constraints.toList.take k).map Constraint.numEquations)) c.numEquations =
        q.constraintJacobian c
  /-- There stand its regularization and bias too, which is where the solver expects them. -/
  rows : ∀ factors, q.dynamics.toList.mapM Cholesky.factor? = some factors →
    ∃ s, StackedRows.ofProblem? q factors.toArray = some s ∧
      s.offsets.toList = startsFrom 0 (q.constraints.toList.map Constraint.numEquations) ∧
      ∀ k c, q.constraint? k = some c → ∃ offset, s.offsets[k]? = some offset ∧
        offset = total ((q.constraints.toList.take k).map Constraint.numEquations) ∧
        s.regularization.slice offset c.numEquations =
          (Coupling.ofConstraint q.toProblem factors.toArray c).r ∧
        s.bias.slice offset c.numEquations = (Coupling.ofConstraint q.toProblem factors.toArray c).bias

namespace Kept

theorem contactCount_eq (h : q.Kept) : q.contactCount = q.numContacts := congrArg contactCount h.counts

theorem equationCount_eq (h : q.Kept) : q.equationCount = q.numEquations := congrArg equationCount h.counts

theorem contacts (h : q.Kept) {k : Nat} {c : Constraint α} (hc : q.constraint? k = some c) :
    k < q.contactCount ↔ ∃ p, c.kind = .cone p := by
  rw [h.contactCount_eq, ← Constraint.isContact_iff]
  rw [Problem.constraint?_eq] at hc
  constructor
  · intro hk
    refine h.built.contactsFirst.contacts c (List.mem_of_getElem? (i := k) ?_)
    rwa [List.getElem?_take_of_lt hk]
  · intro hcontact
    by_contra hk
    have hother := h.built.contactsFirst.others c (List.mem_of_getElem? (i := k - q.numContacts) (by
      rwa [List.getElem?_drop, Nat.add_sub_cancel' (not_lt.mp hk)]))
    rw [hcontact] at hother
    cases hother

theorem treeStarts_eq (h : q.Kept) : q.treeStarts.toList = startsFrom 0 (q.dynamics.toList.map Mat.rows) := by
  have hstarts : q.treeStarts = (of q.toProblem).treeStarts := congrArg treeStarts h.counts
  rw [hstarts]
  simp [of, startsFrom, Problem.treeStart, Problem.numTrees]

theorem treeStart_add_le (h : q.Kept) {b : JacobianBlock α} (hb : q.Fits b) :
    q.treeStart b.tree + b.jacobian.cols ≤ q.numVelocities := by
  obtain ⟨a, ha⟩ : ∃ a, q.dynamics.toList[b.tree.val]? = some a := ⟨_, List.getElem?_eq_getElem hb.tree⟩
  rw [hb.cols, Problem.treeSize_eq ha]
  exact h.built.treeStart_add_rows_le ha

theorem contactRows (h : q.Kept) {k : Nat} (hk : k < q.contactCount) :
    total ((q.constraints.toList.take k).map Constraint.numEquations) = 3 * k ∧
      (∀ c, q.constraint? k = some c → c.numEquations = 3) ∧ 3 * k + 3 ≤ q.equationCount := by
  rw [h.contactCount_eq] at hk
  have hthree : ∀ c, q.constraint? k = some c → c.numEquations = 3 := fun c hc => by
    refine h.built.numEquations_eq_three (List.mem_of_getElem? (i := k) ?_)
    rwa [List.getElem?_take_of_lt hk, ← Problem.constraint?_eq]
  have hlt : k < q.constraints.toList.length := hk.trans_le q.numContacts_le
  have hsize : (q.constraints.toList.map Constraint.numEquations)[k]? = some 3 := by
    obtain ⟨c, hc⟩ : ∃ c, q.constraints.toList[k]? = some c := ⟨_, List.getElem?_eq_getElem hlt⟩
    rw [List.getElem?_map, hc, Option.map_some, hthree c ((Problem.constraint?_eq ..).trans hc)]
  have hle := total_take_add_le hsize
  rw [← List.map_take, h.built.total_take_eq hk.le] at hle
  exact ⟨h.built.total_take_eq hk.le, hthree, h.equationCount_eq ▸ hle⟩

theorem dynamics (h : q.Kept) : q.assembleDynamics? = some q.dynamicsMatrix := by
  have hsize := h.built.valid.size
  obtain ⟨m, hm, hrows, hcols, hentry⟩ := exists_diagonal (m := .zeros q.numVelocities q.numVelocities) 0
    h.built.square (by rw [Nat.zero_add, ← hsize]; exact le_rfl) (by rw [Nat.zero_add, ← hsize]; exact le_rfl)
    fun i hi _ j hj _ => Mat.get_ofFn_of_lt hi hj
  rw [assembleDynamics?, h.treeStarts_eq, hm]
  refine congrArg some (Mat.ext hrows hcols fun i hi j hj => ?_)
  have hi : i < q.numVelocities := hi.trans_eq hrows
  have hj : j < q.numVelocities := hj.trans_eq hcols
  rw [hentry i hi j hj, if_pos ⟨Nat.zero_le i, Nat.zero_le j⟩, Nat.sub_zero, Nat.sub_zero,
    Problem.dynamicsMatrix_get _ hi hj]

theorem jacobian (h : q.Kept) : ∃ m, q.assembleJacobian? = some m ∧ m.rows = q.equationCount ∧
    m.cols = q.numVelocities ∧
    ∀ k c, q.constraint? k = some c →
      m.rowBlock (total ((q.constraints.toList.take k).map Constraint.numEquations)) c.numEquations =
        q.constraintJacobian c := by
  obtain ⟨m, hm, hadds⟩ := exists_adds (m := .zeros q.equationCount q.numVelocities) 0 h.counts
    (fun c hc => ⟨(h.built.valid.made c hc).shaped, fun b hb =>
      ⟨h.built.fits c hc b hb, h.treeStart_add_le (h.built.fits c hc b hb)⟩⟩)
    (by rw [Nat.zero_add]; exact h.equationCount_eq.ge) rfl fun i hi _ j hj => Mat.get_ofFn_of_lt hi hj
  refine ⟨m, by rw [assembleJacobian?, hm]; rfl, hadds.rows, hadds.cols, fun k c hc => ?_⟩
  have hblock := hadds.blocks k c (Problem.constraint?_eq .. ▸ hc)
  rwa [Nat.zero_add] at hblock

theorem rows (h : q.Kept) {factors : List (Mat α)}
    (hfactors : q.dynamics.toList.mapM Cholesky.factor? = some factors) :
    ∃ s, StackedRows.ofProblem? q factors.toArray = some s ∧
      s.offsets.toList = startsFrom 0 (q.constraints.toList.map Constraint.numEquations) ∧
      ∀ k c, q.constraint? k = some c → ∃ offset, s.offsets[k]? = some offset ∧
        offset = total ((q.constraints.toList.take k).map Constraint.numEquations) ∧
        s.regularization.slice offset c.numEquations =
          (Coupling.ofConstraint q.toProblem factors.toArray c).r ∧
        s.bias.slice offset c.numEquations = (Coupling.ofConstraint q.toProblem factors.toArray c).bias := by
  have hchecked : ∀ c ∈ q.constraints.toList, ∀ b ∈ c.blocks,
      StackedRows.checkFactor? factors.toArray c.numEquations b = some () := by
    intro c hc b hb
    have hfits := h.built.fits c hc b hb
    obtain ⟨a, ha⟩ : ∃ a, q.dynamics.toList[b.tree.val]? = some a := ⟨_, List.getElem?_eq_getElem hfits.tree⟩
    obtain ⟨l, hl, hfactor⟩ := exists_of_mapM hfactors ha
    have hcols : b.jacobian.cols = l.rows := by
      rw [hfits.cols, Problem.treeSize_eq ha, Cholesky.rows_factor hl]
    rw [StackedRows.checkFactor?, List.getElem?_toArray, hfactor]
    exact if_pos ⟨(h.built.valid.made c hc).shaped.rows b hb, hcols⟩
  have hsize : (Vec.zeros q.equationCount : Vec α).size = q.numEquations :=
    (Vec.size_zeros _).trans h.equationCount_eq
  obtain ⟨s, hs, hfollows⟩ := StackedRows.exists_follows q.timeStep
    ⟨#[], .zeros q.equationCount, .zeros q.equationCount, 0⟩
      (fun c hc => (h.built.valid.made c hc).inRange) hchecked
    (by rw [Nat.zero_add, hsize]; exact le_rfl) (by rw [Nat.zero_add, hsize]; exact le_rfl)
  refine ⟨s, hs, hfollows.offsets, fun k c hc => ?_⟩
  rw [Problem.constraint?_eq] at hc
  have hregularization := hfollows.regularization k c hc
  have hbias := hfollows.bias k c hc
  rw [Nat.zero_add] at hregularization hbias
  refine ⟨_, ?_, rfl, hregularization, hbias⟩
  have hk : k < (q.constraints.toList.map Constraint.numEquations).length := by
    rw [List.length_map]
    exact (List.getElem?_eq_some_iff.mp hc).1
  rw [← Array.getElem?_toList, hfollows.offsets, List.nil_append, getElem?_startsFrom 0 hk,
    Nat.zero_add, List.map_take]

theorem consistent (h : q.Kept) : q.Consistent where
  contacts := ⟨h.contactCount_eq.trans_le q.numContacts_le, fun _ _ => h.contacts⟩
  equations := h.equationCount_eq
  trees := ⟨h.treeStarts_eq, h.built.valid.size⟩
  blocks c hc b hb := ⟨(h.built.fits c hc b hb).tree, (h.built.fits c hc b hb).cols⟩
  contactRows _ := h.contactRows
  dynamics := h.dynamics
  jacobian := h.jacobian
  rows _ := h.rows

end Kept

end CountedProblem

/-- Whatever is called, and whether it succeeds or fails, the counts that are kept on the way are those
    of the problem, and with them the problem is assembled within its bounds. A call that fails leaves
    the problem as it was. -/
theorem Problem.counts_consistent (calls : List (Problem.Call α)) :
    Problem.performAllCounted calls = (Problem.performAll calls).map .of ∧
      (∀ q, Problem.performAllCounted calls = some q → q.Consistent) ∧
      ∀ (call : Problem.Call α) (e : Failure α),
      (call.performCounted (Problem.performAllCounted calls)).1 = .error e →
        (call.performCounted (Problem.performAllCounted calls)).2 = Problem.performAllCounted calls := by
  refine ⟨performAllCounted_eq calls, fun q hq => (kept_performAllCounted hq).consistent, fun call e he => ?_⟩
  rw [performAllCounted_eq] at he ⊢
  exact call.performCounted_of_error he

noncomputable section

/-- A contact without friction on the only velocity of `pushed`. -/
def touch : Constraint ℝ :=
  ⟨.cone ⟨0, 1, 0, 1, 1⟩, .ofList [0, 0, 0], ⟨⟨0⟩, .ofFn 3 1 fun i _ => if i = 2 then 1 else 0⟩, none⟩

def touched : Problem ℝ := { pushed with constraints := #[touch, push] }

end

open Outcome in
theorem made_touch : touch.Made := by
  have hsigma : (some (1 : ℝ)).all (0 < ·) = true := decide_eq_true one_pos
  have hcone : Constraint.cone [touch.first] 0 ⟨0, 1, 0, 1, 1⟩ = .ok touch := by
    simp only [Constraint.cone, Constraint.checkFactors, bind_eq_ok_iff]
    exact ⟨(), require_eq_ok_iff.mpr ⟨le_rfl, one_pos, le_rfl⟩, (),
      require_eq_ok_iff.mpr ⟨one_pos, hsigma⟩, _, rfl, rfl⟩
  exact .cone hcone

open Outcome in
theorem performAll_touched : Problem.performAll [.new 1 touched.dynamics.toList touched.freeVelocities,
    .addConstraint ⟨touch, made_touch⟩, .addConstraint ⟨push, made_push⟩] = some touched := by
  have hnew : Problem.new 1 touched.dynamics.toList touched.freeVelocities =
      .ok { touched with constraints := #[] } := by
    rw [Problem.new, require_bind_eq_ok_iff]
    exact ⟨one_pos, rfl⟩
  rw [Problem.performAll, List.foldl_cons, Problem.Call.perform, hnew]
  rfl

/-- After a contact and another constraint a contact is refused, and the counts stay. -/
theorem counts_consistent_touched : ∃ calls, Problem.performAllCounted calls = some (.of touched) ∧
    (CountedProblem.of touched).contactCount = 1 ∧ (CountedProblem.of touched).equationCount = 4 ∧
    (CountedProblem.of touched).Consistent ∧
    ∃ e, Problem.Call.performCounted (.addConstraint ⟨touch, made_touch⟩) (Problem.performAllCounted calls) =
      (.error e, some (.of touched)) := by
  refine ⟨[.new 1 touched.dynamics.toList touched.freeVelocities, .addConstraint ⟨touch, made_touch⟩,
    .addConstraint ⟨push, made_push⟩], ?_⟩
  obtain ⟨hcounted, hconsistent, hfailing⟩ :=
    Problem.counts_consistent [.new 1 touched.dynamics.toList touched.freeVelocities,
    .addConstraint ⟨touch, made_touch⟩, .addConstraint ⟨push, made_push⟩]
  rw [performAll_touched] at hcounted
  have hrefused : (Problem.Call.performCounted (.addConstraint ⟨touch, made_touch⟩) (some (.of touched))).1 =
      .error (.structural .contactAfterOther) := rfl
  refine ⟨hcounted, rfl, rfl, hconsistent _ hcounted, .structural .contactAfterOther, Prod.ext ?_ ?_⟩
  · rw [hcounted]
    exact hrefused
  · rw [hfailing _ _ (by rw [hcounted]; exact hrefused)]
    exact hcounted

end CompliantContact
