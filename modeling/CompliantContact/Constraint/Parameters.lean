import CompliantContact.Dense.Vec

/-!
Parameters of the three kinds of constraints.

A bound may be absent. An absent lower bound lies below every number and an absent upper bound above;
an absent stiffness is that of a rigid equation. So no parameter has to be infinite, though the
numbers may allow it.
-/

namespace CompliantContact

/-- A compliant contact with friction. -/
structure ConeParameters (α : Type) where
  /-- Coefficient of friction. -/
  mu : α
  stiffness : α
  /-- Time scale of the dissipation along the normal. -/
  dissipationTime : α
  /-- Factor of the least regularization. -/
  beta : α
  /-- Regularization of the tangential rows, relative to the inverse inertia along the contact. -/
  sigma : α
deriving DecidableEq, Inhabited

/-- Limits on the position of one degree of freedom. -/
structure LimitParameters (α : Type) where
  lower : Option α
  upper : Option α
  stiffness : α
  dissipationTime : α
  beta : α
deriving DecidableEq, Inhabited

/-- A bilateral constraint, with an entry for each of its equations. -/
structure HolonomicParameters (α : Type) where
  lower : Array (Option α)
  upper : Array (Option α)
  /-- Stiffnesses, absent where the equation is rigid. -/
  stiffness : Array (Option α)
  relaxationTime : Vec α
  beta : α
deriving DecidableEq, Inhabited

namespace Bound

variable {α : Type} [Scalar α]

def ordered : Option α → Option α → Bool
  | none, none => true
  | none, some u => decide (u ≤ u)
  | some l, none => decide (l ≤ l)
  | some l, some u => decide (l ≤ u)

def isFinite : Option α → Bool
  | none => false
  | some x => Scalar.isFinite x

end Bound

end CompliantContact
