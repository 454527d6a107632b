import CompliantContact.Space.Vec3

/-!
Rigid bodies.
-/

namespace CompliantContact

/-- A rigid body, with its mass properties in its own frame. -/
structure Body (α : Type) where
  name : String
  mass : α
  com : Vec3 α
  /-- The rotational inertia about the center of mass. -/
  inertia : Mat3 α
deriving Inhabited, DecidableEq

namespace Body

variable {α : Type} [Scalar α]

def pointMass (name : String) (mass : α) : Body α := ⟨name, mass, 0, 0⟩

/-- A body with the given principal moments, its center of mass at the origin. -/
def withPrincipalMoments (name : String) (mass : α) (moments : Vec3 α) : Body α :=
  ⟨name, mass, 0, .diagonal moments⟩

def solidSphere (name : String) (mass radius : α) : Body α :=
  let i := Scalar.decimal 4 (-1) * mass * radius * radius
  withPrincipalMoments name mass ⟨i, i, i⟩

/-- The world has no mass and does not move. -/
def world : Body α := pointMass "world" 0

end Body

end CompliantContact
