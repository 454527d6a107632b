import CompliantContact.Contact.Material
import CompliantContact.Mechanism.Kinematics

/-!
What a geometry engine tells about contact.

It reports penetrating pairs of geometries with their witness points, and contact surfaces with the
data of their faces. It also knows the body, the name and the material of each geometry.
-/

namespace CompliantContact

structure Penetration (α : Type) where
  a : GeometryId
  b : GeometryId
  /-- The point of the first geometry that lies deepest in the second. -/
  pointA : Vec3 α
  /-- The point of the second geometry that lies deepest in the first. -/
  pointB : Vec3 α
  /-- The unit normal from the second geometry into the first. -/
  normal : Vec3 α
  /-- Positive when the geometries overlap. -/
  depth : α
deriving Inhabited, DecidableEq

inductive FacePressure (α : Type) where
  /-- The pressures at the corners of a triangle. -/
  | vertices (p q r : α)
  /-- The field that has a value at an origin, and a constant gradient. -/
  | linear (value : α) (origin gradient : Vec3 α)
deriving Inhabited, DecidableEq

namespace FacePressure

variable {α : Type} [Scalar α]

/-- The pressure at the centroid of a face: the mean of the corners of a triangle, or the value of the
    field. -/
def atCentroid (p : FacePressure α) (mesh : MeshKind) (centroid : Vec3 α) : Outcome α α :=
  match mesh, p with
  | .triangle, vertices p q r => .ok ((p + q + r) / Scalar.ofNat 3)
  | .polygon, linear value origin gradient => .ok (value + gradient.dot (centroid - origin))
  | mesh, _ => .error (.structural (.pressureForm mesh))

end FacePressure

structure SurfaceFace (α : Type) where
  area : α
  /-- The unit normal out of the second geometry and into the first. -/
  normal : Vec3 α
  centroid : Vec3 α
  pressure : FacePressure α
  /-- The gradient of the pressure field of the first geometry, none if it is rigid. -/
  gradientM : Option (Vec3 α)
  /-- The gradient of the pressure field of the second geometry, none if it is rigid. -/
  gradientN : Option (Vec3 α)
deriving Inhabited, DecidableEq

structure ContactSurface (α : Type) where
  m : GeometryId
  n : GeometryId
  mesh : MeshKind
  faces : List (SurfaceFace α)
deriving Inhabited, DecidableEq

namespace ContactSurface

variable {α : Type}

def isTriangle (s : ContactSurface α) : Bool := s.mesh == .triangle

end ContactSurface

/-- A geometry engine: what it knows of each geometry, and what it finds at a configuration. -/
structure GeometryQuery (α : Type) where
  body? : GeometryId → Option BodyIndex
  name? : GeometryId → Option String
  material? : GeometryId → Option (Material α)
  penetrations : Mechanism α → PositionKinematics α → Outcome α (List (Penetration α))
  surfaces : Mechanism α → PositionKinematics α → Outcome α (List (ContactSurface α))

namespace GeometryQuery

variable {α : Type}

def describe (query : GeometryQuery α) (m : Mechanism α) (id : GeometryId) : String :=
  let name := (query.name? id).getD "<unnamed>"
  let body := (query.body? id).bind m.body?
  "For geometry " ++ name ++ " on body " ++ (body.map Body.name).getD "<unknown>" ++ "."

structure Row (α : Type) where
  id : GeometryId
  body : Option BodyIndex
  name : Option String
  material : Option (Material α)

/-- The engine that looks geometries up in a table and reports given penetrations, or the failure to
    find any. -/
def ofTable (rows : List (Row α)) (penetrations : Outcome α (List (Penetration α))) :
    GeometryQuery α where
  body? id := (rows.find? (·.id = id)).bind Row.body
  name? id := (rows.find? (·.id = id)).bind Row.name
  material? id := (rows.find? (·.id = id)).bind Row.material
  penetrations _ _ := penetrations
  surfaces _ _ := .ok []

end GeometryQuery

end CompliantContact
