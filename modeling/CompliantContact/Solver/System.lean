import CompliantContact.Dense.Cholesky
import CompliantContact.Problem

/-!
The convex cost of a contact problem, its gradient and its curvature.

The velocities of the next step minimize

    ℓ(v) = 1/2 |v - v*|²_A + Σ 1/2 γᵀ R γ,   γ = P(y),   y = -R⁻¹ (J v - v̂)

with a term for each constraint. The gradient is `A (v - v*) - Σ Jᵀ γ`, and the curvature
`A + Σ Jᵀ G J` with the slopes `G` of the projections.
-/

namespace CompliantContact

/-- A constraint as the solver sees it: for all velocities, with its regularization and bias. -/
structure Coupling (α : Type) where
  constraint : Constraint α
  jacobian : Mat α
  r : Vec α
  /-- The inverse of the regularization, zero where that is infinite. -/
  rInv : Vec α
  bias : Vec α

structure Response (α : Type) where
  velocity : Vec α
  projection : Projection α

/-- A problem in the form that the solver works on. -/
structure System (α : Type) where
  dynamics : Mat α
  freeVelocities : Vec α
  /-- The inverse square roots of the diagonal of the dynamics matrix. -/
  scaling : Vec α
  couplings : List (Coupling α)

/-- The cost at given velocities, with its gradient and all responses. -/
structure Evaluation (α : Type) where
  responses : List (Response α)
  cost : α
  gradient : Vec α

variable {α : Type} [Scalar α]

namespace Coupling

/-- What a block adds to the inverse inertia that a constraint sees: `J A⁻¹ Jᵀ` for the factored
    dynamics matrix of its tree. -/
def blockInertia (factors : Array (Mat α)) (b : JacobianBlock α) : Mat α :=
  let l := factors.getD b.tree.val default
  let rows := b.jacobian.rows
  let solved := Array.ofFn fun i : Fin rows => Cholesky.solve l (b.jacobian.transpose.column i)
  .ofFn rows rows fun i j =>
    Scalar.sum b.jacobian.cols fun k => b.jacobian i k * (solved.getD j default) k

/-- The mean size of the inverse inertia along the equations of a constraint. -/
def inverseInertia (factors : Array (Mat α)) (c : Constraint α) : α :=
  let n := c.numEquations
  let total := c.blocks.foldl (fun acc b => acc + blockInertia factors b) (Mat.zeros n n)
  total.frobeniusNorm / Scalar.ofNat n

/-- The inverse of a regularization, zero where that is infinite. -/
def inverse (r : α) : α := if Scalar.isFinite r then 1 / r else 0

def ofConstraint (p : Problem α) (factors : Array (Mat α)) (c : Constraint α) : Coupling α :=
  let r := c.regularization p.timeStep (inverseInertia factors c)
  { constraint := c
    jacobian := p.constraintJacobian c
    r
    rInv := r.map inverse
    bias := c.bias p.timeStep }

def respond (c : Coupling α) (v : Vec α) : Response α :=
  let velocity := c.jacobian.mulVec v
  let y := -(velocity - c.bias).hadamard c.rInv
  ⟨velocity, c.constraint.project y c.r c.rInv⟩

/-- The costs of the equations of a constraint. A rigid equation has none. -/
def rowCosts (c : Coupling α) (s : Response α) : List α :=
  (List.range c.r.size).map fun i =>
    if 0 < c.rInv i then
      (Scalar.half : α) * c.r i * s.projection.impulse i * s.projection.impulse i
    else 0

/-- What the impulses of a constraint do along velocity `j`, equation by equation. -/
def rowForces (c : Coupling α) (s : Response α) (j : Nat) : List α :=
  (List.range c.jacobian.rows).map fun i => c.jacobian i j * s.projection.impulse i

/-- What the slope of a constraint adds to the curvature. -/
def curvature (c : Coupling α) (s : Response α) : Mat α :=
  c.jacobian.transpose * s.projection.slope * c.jacobian

def isFinite (c : Coupling α) : Bool :=
  c.jacobian.isFinite && c.bias.isFinite && c.r.toArray.all fun x => !Scalar.isNaN x

end Coupling

namespace System

/-- The system of a problem, if the dynamics matrix of every tree is positive definite. -/
def ofProblem? (p : Problem α) : Option (System α) := do
  let factors ← p.dynamics.toList.mapM Cholesky.factor?
  let dynamics := p.dynamicsMatrix
  return {
    dynamics
    freeVelocities := p.freeVelocities
    scaling := dynamics.diagonal.map fun x => 1 / Scalar.sqrt x
    couplings := p.constraints.toList.map (Coupling.ofConstraint p factors.toArray) }

def isFinite (s : System α) : Bool :=
  s.freeVelocities.isFinite && s.dynamics.isFinite && s.couplings.all Coupling.isFinite

def paired (s : System α) (responses : List (Response α)) : List (Coupling α × Response α) :=
  s.couplings.zip responses

def impulseForces (s : System α) (responses : List (Response α)) : Vec α :=
  let pairs := s.paired responses
  .ofFn s.freeVelocities.size fun j => Scalar.listSum (pairs.flatMap fun (c, r) => c.rowForces r j)

def evaluate (s : System α) (v : Vec α) : Evaluation α :=
  let responses := s.couplings.map (·.respond v)
  let dv := v - s.freeVelocities
  let momentum := s.dynamics.mulVec dv
  let constraintCost := Scalar.listSum ((s.paired responses).flatMap fun (c, r) => c.rowCosts r)
  { responses
    cost := constraintCost + (Scalar.half : α) * dv.dot momentum
    gradient := momentum - s.impulseForces responses }

def curvature (s : System α) (e : Evaluation α) : Mat α :=
  (s.paired e.responses).foldl (fun acc (c, r) => acc + c.curvature r) s.dynamics

/-- The size of the gradient as a scaled residual of momentum. -/
def residual (s : System α) (e : Evaluation α) : α := (e.gradient.hadamard s.scaling).norm

/-- The size of the momenta that the residual is compared with. -/
def momentumScale (s : System α) (v : Vec α) (e : Evaluation α) : α :=
  Scalar.larger ((s.dynamics.mulVec v).hadamard s.scaling).norm
    ((s.impulseForces e.responses).hadamard s.scaling).norm

end System

namespace Evaluation

def isFinite (e : Evaluation α) : Bool := Scalar.isFinite e.cost && e.gradient.isFinite

def impulses (e : Evaluation α) : Vec α := .concat (e.responses.map (·.projection.impulse))

def velocities (e : Evaluation α) : Vec α := .concat (e.responses.map (·.velocity))

end Evaluation

end CompliantContact
