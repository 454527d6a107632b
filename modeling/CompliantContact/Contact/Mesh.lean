/-!
The two representations of a contact surface.
-/

namespace CompliantContact

/-- A triangle mesh stores the pressure at vertices, a polygon mesh a linear field on each face. -/
inductive MeshKind where
  | triangle
  | polygon
deriving DecidableEq, Inhabited, Repr

namespace MeshKind

def name : MeshKind → String
  | triangle => "Triangle"
  | polygon => "Polygon"

end MeshKind

end CompliantContact
