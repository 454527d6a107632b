import CompliantContact.Contact.Frame

/-!
Compliant constraints.

A constraint couples one or two trees. It has a Jacobian block for each, with a row for each of its
equations, and the value of its constraint function at the previous state. There are three kinds: a
contact with friction has three equations, two tangential ones and the normal one; a limit has one
equation for each finite side of one degree of freedom; a holonomic constraint asks its function to be
zero, with bounded impulses.

For an equation with stiffness `k` and dissipation time `τ` the regularization is at least that of
the spring and damper over one step, and at least a fixed part of the inverse inertia `w` that the
constraint sees:

    R = max (β² / (4 π²) * w) (1 / (δt * k * (δt + τ)))
    v̂ = -g₀ / (δt + τ)
-/

namespace CompliantContact

inductive ConstraintKind (α : Type) where
  | cone (p : ConeParameters α)
  /-- Limits of a degree of freedom that was at `q0` at the previous state. -/
  | limit (q0 : α) (p : LimitParameters α)
  | holonomic (p : HolonomicParameters α)
deriving DecidableEq

structure Constraint (α : Type) where
  kind : ConstraintKind α
  /-- The constraint function at the previous state. Of a contact only the normal entry counts. -/
  g0 : Vec α
  first : JacobianBlock α
  second : Option (JacobianBlock α)
deriving DecidableEq

namespace Constraint

variable {α : Type}

def isContact (c : Constraint α) : Bool :=
  match c.kind with
  | .cone _ => true
  | _ => false

def numEquations (c : Constraint α) : Nat := c.g0.size

/-- The Jacobian blocks, one for each coupled tree. -/
def blocks (c : Constraint α) : List (JacobianBlock α) := c.first :: c.second.toList

def numTrees (c : Constraint α) : Nat := c.blocks.length

variable [Scalar α]

def checkFactors (beta : α) (sigma : Option α) : Outcome α Unit :=
  require (0 < beta ∧ sigma.all (0 < ·)) (.structural (.regularizationFactors beta sigma))

def checkRows (rows : Nat) (b : JacobianBlock α) : Outcome α Unit :=
  requireSize "constraint Jacobian rows" rows b.jacobian.rows

/-- Requires one block, or two of different trees, with the given number of rows. -/
def checkBlocks (rows : Nat) :
    List (JacobianBlock α) → Outcome α (JacobianBlock α × Option (JacobianBlock α))
  | [a] => do
    checkRows rows a
    return (a, none)
  | [a, b] => do
    require (a.tree ≠ b.tree) (.structural (.blocksShareTree a.tree))
    checkRows rows a
    checkRows rows b
    return (a, some b)
  | blocks => .error (.structural (.blockCount blocks.length))

/-- A contact whose geometries were `phi` apart. The rows are the two tangential ones and the normal
    one. -/
def cone (blocks : List (JacobianBlock α)) (phi : α) (p : ConeParameters α) :
    Outcome α (Constraint α) := do
  require (0 ≤ p.mu ∧ 0 < p.stiffness ∧ 0 ≤ p.dissipationTime) (.structural (.coneParameters p))
  checkFactors p.beta (some p.sigma)
  let (first, second) ← checkBlocks 3 blocks
  return ⟨.cone p, .ofList [0, 0, phi], first, second⟩

/-- The finite sides of a limit, each by its constraint function at `q0` and the sign with which it
    follows the velocity. -/
def limitSides (q0 : α) (p : LimitParameters α) : List (α × α) :=
  let lower := match p.lower with
    | some l => if Scalar.isFinite l then [(q0 - l, 1)] else []
    | none => []
  let upper := match p.upper with
    | some u => if Scalar.isFinite u then [(u - q0, -1)] else []
    | none => []
  lower ++ upper

/-- A limit on the degree of freedom `dof` of a tree with `size` velocities. The lower side comes
    first. -/
def limit (tree : TreeIndex) (dof size : Nat) (q0 : α) (p : LimitParameters α) :
    Outcome α (Constraint α) := do
  require (dof < size) (.invalidIndex "tree dof" dof)
  require (Bound.ordered p.lower p.upper ∧ 0 < p.stiffness ∧ 0 ≤ p.dissipationTime)
    (.structural (.limitParameters p))
  checkFactors p.beta none
  let sides := limitSides q0 p
  require (sides ≠ []) (.structural .limitWithoutSide)
  let signs : Vec α := .ofList (sides.map Prod.snd)
  let jacobian := Mat.ofFn sides.length size fun i j => if j = dof then signs i else 0
  return ⟨.limit q0 p, .ofList (sides.map Prod.fst), ⟨tree, jacobian⟩, none⟩

/-- Whether the parameters of one equation of a holonomic constraint are in range. -/
def holonomicEquationOk (p : HolonomicParameters α) (i : Nat) : Bool :=
  Bound.ordered (p.lower.getD i none) (p.upper.getD i none) &&
    (p.stiffness.getD i none).all (0 < ·) && 0 ≤ p.relaxationTime i

/-- A holonomic constraint whose function had the value `g0`. -/
def holonomic (blocks : List (JacobianBlock α)) (g0 : Vec α) (p : HolonomicParameters α) :
    Outcome α (Constraint α) := do
  requireSize "holonomic impulse_lower" g0.size p.lower.size
  requireSize "holonomic impulse_upper" g0.size p.upper.size
  requireSize "holonomic stiffness" g0.size p.stiffness.size
  requireSize "holonomic relaxation_time" g0.size p.relaxationTime.size
  (List.range g0.size).forM fun i =>
    require (holonomicEquationOk p i) (.structural (.holonomicParameters i))
  checkFactors p.beta none
  let (first, second) ← checkBlocks g0.size blocks
  return ⟨.holonomic p, g0, first, second⟩

/-- The regularization of one equation, rigid if it has no stiffness. -/
def compliantRegularization (dt w : α) (stiffness : Option α) (tau beta : α) : α :=
  let nearRigid := beta * beta / (Scalar.ofNat 4 * Scalar.pi * Scalar.pi) * w
  let compliant := match stiffness with
    | none => 0
    | some k => 1 / (dt * k * (dt + tau))
  Scalar.larger nearRigid compliant

/-- The diagonal regularization, given the inverse inertia `w` that the constraint sees. -/
def regularization (c : Constraint α) (dt w : α) : Vec α :=
  match c.kind with
  | .cone p =>
    let rt := p.sigma * w
    .ofList [rt, rt, compliantRegularization dt w (some p.stiffness) p.dissipationTime p.beta]
  | .limit _ p =>
    .replicate c.numEquations
      (compliantRegularization dt w (some p.stiffness) p.dissipationTime p.beta)
  | .holonomic p =>
    .ofFn c.numEquations fun i =>
      compliantRegularization dt w (p.stiffness.getD i none) (p.relaxationTime i) p.beta

/-- The velocity that the constraint relaxes to. -/
def bias (c : Constraint α) (dt : α) : Vec α :=
  match c.kind with
  | .cone p => .ofList [0, 0, -c.g0 2 / (dt + p.dissipationTime)]
  | .limit _ p => -c.g0 / (dt + p.dissipationTime)
  | .holonomic p => .ofFn c.numEquations fun i => -c.g0 i / (dt + p.relaxationTime i)

end Constraint

end CompliantContact
