import CompliantContact.Constraint.Projection

/-!
The contact problem of one step.

A problem holds the dynamics matrix of each tree, the velocities that the step would reach without
constraints, and the constraints in order. Contacts come before all other constraints, so that their
impulses head the impulses of the problem.
-/

namespace CompliantContact

structure Problem (α : Type) where
  timeStep : α
  /-- The dynamics matrix of each tree; the velocities of the trees follow one another. -/
  dynamics : Array (Mat α)
  freeVelocities : Vec α
  constraints : Array (Constraint α)
deriving DecidableEq

namespace Problem

variable {α : Type}

def numTrees (p : Problem α) : Nat := p.dynamics.size

def numVelocities (p : Problem α) : Nat := p.freeVelocities.size

def numConstraints (p : Problem α) : Nat := p.constraints.size

/-- The number of contacts, which are the first of the constraints. -/
def numContacts (p : Problem α) : Nat := p.constraints.countP Constraint.isContact

def numEquations (p : Problem α) : Nat := total (p.constraints.toList.map Constraint.numEquations)

def constraint? (p : Problem α) (i : Nat) : Option (Constraint α) := p.constraints[i]?

def treeSize (p : Problem α) (t : TreeIndex) : Nat := (p.dynamics[t.val]?.map Mat.rows).getD 0

def treeStart (p : Problem α) (t : TreeIndex) : Nat :=
  total ((p.dynamics.toList.take t.val).map Mat.rows)

/-- The tree of a velocity, and its place among the velocities of the tree. The trees are counted from
    `t` on. -/
def locate : List (Mat α) → Nat → Nat → Option (Nat × Nat)
  | [], _, _ => none
  | a :: rest, t, v => if v < a.rows then some (t, v) else locate rest (t + 1) (v - a.rows)

/-- Requires square dynamics matrices and as many free velocities as they have rows. -/
def checkDynamics (dynamics : List (Mat α)) (freeVelocities : Vec α) : Outcome α Unit := do
  dynamics.forM fun a => requireSize "tree dynamics matrix columns" a.rows a.cols
  requireSize "free-motion velocities" (total (dynamics.map Mat.rows)) freeVelocities.size

/-- The same time step with new dynamics, new free velocities and no constraints. -/
def reset (p : Problem α) (dynamics : List (Mat α)) (freeVelocities : Vec α) :
    Outcome α (Problem α) := do
  checkDynamics dynamics freeVelocities
  return { p with dynamics := dynamics.toArray, freeVelocities, constraints := #[] }

/-- Requires a block to fit the tree it names. -/
def checkBlock (p : Problem α) (b : JacobianBlock α) : Outcome α Unit := do
  require (b.tree.val < p.numTrees) (.invalidIndex "tree" b.tree.val)
  requireSize ("constraint Jacobian columns for tree " ++ toString b.tree.val) (p.treeSize b.tree)
    b.jacobian.cols

/-- Appends a constraint and gives its index. A contact is refused after any other constraint. -/
def addConstraint (p : Problem α) (c : Constraint α) : Outcome α (Problem α × Nat) := do
  require (c.isContact → p.numContacts = p.numConstraints) (.structural .contactAfterOther)
  c.blocks.forM p.checkBlock
  return ({ p with constraints := p.constraints.push c }, p.numConstraints)

variable [Scalar α]

/-- A problem without constraints. -/
def new (timeStep : α) (dynamics : List (Mat α)) (freeVelocities : Vec α) :
    Outcome α (Problem α) := do
  require (0 < timeStep) (.invalidTimeStep timeStep)
  checkDynamics dynamics freeVelocities
  return ⟨timeStep, dynamics.toArray, freeVelocities, #[]⟩

/-- The dynamics matrix of all velocities, with the trees along its diagonal. -/
def dynamicsMatrix (p : Problem α) : Mat α :=
  let places := Array.ofFn fun v : Fin p.numVelocities => locate p.dynamics.toList 0 v
  .ofFn p.numVelocities p.numVelocities fun i j =>
    match places.getD i none, places.getD j none with
    | some (t, i), some (s, j) =>
      if t = s then ((p.dynamics[t]?.map fun a => a i j).getD 0) else 0
    | _, _ => 0

/-- The entry of a constraint's Jacobian in one of its rows, for a velocity of the problem. -/
def jacobianEntry (p : Problem α) (c : Constraint α) (row v : Nat) : α :=
  c.blocks.foldl (fun acc b =>
    let start := p.treeStart b.tree
    if start ≤ v ∧ v < start + b.jacobian.cols then acc + b.jacobian row (v - start) else acc) 0

/-- The Jacobian of a constraint for all velocities. -/
def constraintJacobian (p : Problem α) (c : Constraint α) : Mat α :=
  .ofFn c.numEquations p.numVelocities (p.jacobianEntry c)

end Problem

end CompliantContact
