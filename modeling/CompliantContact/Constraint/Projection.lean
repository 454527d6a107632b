import CompliantContact.Constraint.Basic

/-!
Projection of impulses onto the feasible ones.

The impulse of a constraint is the point of its feasible set that is nearest to an unconstrained
impulse `y`, in the norm of the regularization `R`. Of a contact the feasible set is the cone of
friction, of a limit all that push back inside, and of a holonomic constraint a box. Beside the
impulse stands its derivative by `y` times the inverse of `R`.
-/

namespace CompliantContact

/-- A feasible impulse, and its derivative by the unconstrained one, times the inverse of the
    regularization. -/
structure Projection (α : Type) where
  impulse : Vec α
  slope : Mat α
deriving Inhabited, DecidableEq

namespace FrictionCone

variable {α : Type} [Scalar α]

/-- The length that softens the norm of a tangential impulse, so that it always has a direction. -/
def softening : α := Scalar.decimal 1 (-7)

def softNorm (t1 t2 : α) : α :=
  Scalar.sqrt (t1 * t1 + t2 * t2 + softening * softening)

/-- Projects an impulse with two tangential components and a normal one, and gives the derivative.
    Here `muTilde` is the coefficient of friction times the ratio of the tangential to the normal
    regularization. Inside the cone the impulse stays; inside its polar it vanishes; between them the
    contact slides, with the impulse on the boundary of the cone. -/
def project (y : Vec3 α) (mu muTilde : α) : Vec3 α × Mat3 α :=
  let yr := softNorm y.x y.y
  let yn := y.z
  if yr ≤ mu * yn then (y, .identity)
  else if muTilde * yr ≤ -yn then (0, 0)
  else
    let t1 := y.x / yr
    let t2 := y.y / yr
    let denom := 1 + mu * muTilde
    let gn := (yn + muTilde * yr) / denom
    let along := mu * muTilde / denom
    let across := mu * gn / yr
    let byNormal := mu / denom
    let ofTangent := muTilde / denom
    (⟨t1 * (mu * gn), t2 * (mu * gn), gn⟩,
      .ofRows
        ⟨t1 * t1 * along + (1 - t1 * t1) * across, t1 * t2 * along + (0 - t1 * t2) * across,
          t1 * byNormal⟩
        ⟨t2 * t1 * along + (0 - t2 * t1) * across, t2 * t2 * along + (1 - t2 * t2) * across,
          t2 * byNormal⟩
        ⟨t1 * ofTangent, t2 * ofTangent, 1 / denom⟩)

end FrictionCone

namespace Constraint

variable {α : Type} [Scalar α]

/-- A projection that treats each equation by itself: an impulse, and whether it follows `y`. -/
def projectRows (y rInv : Vec α) (row : Nat → α × Bool) : Projection α where
  impulse := .ofFn y.size fun i => (row i).1
  slope := .ofFn y.size y.size fun i j => if i = j ∧ (row i).2 then rInv i else 0

def clampRow (lower upper : Option α) (y : α) : α × Bool :=
  match lower.filter (y < ·), upper.filter (· < y) with
  | some l, _ => (l, false)
  | none, some u => (u, false)
  | none, none => (y, true)

def project (c : Constraint α) (y r rInv : Vec α) : Projection α :=
  match c.kind with
  | .cone p =>
    let muTilde := if Scalar.isFinite (r 2) ∧ 0 < r 2 then p.mu * r 0 / r 2 else 0
    let (impulse, derivative) := FrictionCone.project ⟨y 0, y 1, y 2⟩ p.mu muTilde
    let slope := derivative * Mat3.diagonal ⟨rInv 0, rInv 1, rInv 2⟩
    ⟨.ofList impulse.toList, .ofFn 3 3 slope.get⟩
  | .limit .. => projectRows y rInv fun i => if 0 < y i then (y i, true) else (0, false)
  | .holonomic p =>
    projectRows y rInv fun i => clampRow (p.lower.getD i none) (p.upper.getD i none) (y i)

end Constraint

end CompliantContact
