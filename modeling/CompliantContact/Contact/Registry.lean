import CompliantContact.Contact.Query

/-!
Collision geometries attached to bodies: spheres and half-spaces.

Two spheres, or a sphere and a half-space, can penetrate. Geometries of one body, and geometries whose
bodies are both anchored to the world, are not paired. Contact surfaces are not computed here: the
registry reports those that it was given.
-/

namespace CompliantContact

inductive Shape (α : Type) where
  /-- A ball around the origin of its frame. -/
  | sphere (radius : α)
  /-- All points at or below the plane `z = 0` of its frame. -/
  | halfSpace
deriving Inhabited, DecidableEq

/-- A geometry, its place on a body, and its material. -/
structure Geometry (α : Type) where
  name : String
  body : BodyIndex
  pose : Pose α
  shape : Shape α
  material : Material α
deriving Inhabited, DecidableEq

structure SpherePlaneContact (α : Type) where
  onPlane : Vec3 α
  onSphere : Vec3 α
  normal : Vec3 α
  depth : α

namespace Shape

variable {α : Type} [Scalar α]

/-- The distance up to which the centers of two spheres count as one point. -/
def coincidentCenters : α := Scalar.decimal 1 (-12)

def spherePlane (sphere : Pose α) (radius : α) (plane : Pose α) : Option (SpherePlaneContact α) :=
  let n := plane.rotation.apply .unitZ
  let center := sphere.position
  let height := n.dot (center - plane.position)
  let depth := radius - height
  if depth ≤ 0 then none else some ⟨center - n * height, center - n * radius, n, depth⟩

/-- The penetration of two shapes, none if they do not overlap. Two half-spaces are not compared. -/
def penetration (a : GeometryId) (shapeA : Shape α) (poseA : Pose α) (b : GeometryId)
    (shapeB : Shape α) (poseB : Pose α) : Option (Penetration α) :=
  match shapeA, shapeB with
  | sphere ra, sphere rb =>
    let d := poseA.position - poseB.position
    let distance := d.norm
    let depth := ra + rb - distance
    if depth ≤ 0 then none
    else
      let normal := if coincidentCenters < distance then d / distance else .unitZ
      some {
        a, b, normal, depth
        pointA := poseA.position - normal * ra
        pointB := poseB.position + normal * rb }
  | halfSpace, sphere radius =>
    (spherePlane poseB radius poseA).map fun c =>
      { a, b, pointA := c.onPlane, pointB := c.onSphere, normal := -c.normal, depth := c.depth }
  | sphere radius, halfSpace =>
    (spherePlane poseA radius poseB).map fun c =>
      { a, b, pointA := c.onSphere, pointB := c.onPlane, normal := c.normal, depth := c.depth }
  | halfSpace, halfSpace => none

end Shape

/-- The geometries by identifier, and the contact surfaces to report. -/
structure Registry (α : Type) where
  geometries : Array (Geometry α)
  surfaces : List (ContactSurface α)
deriving Inhabited, DecidableEq

namespace Registry

variable {α : Type}

def empty : Registry α := ⟨#[], []⟩

def size (r : Registry α) : Nat := r.geometries.size

def isEmpty (r : Registry α) : Bool := r.geometries.isEmpty

def get? (r : Registry α) (id : GeometryId) : Option (Geometry α) := r.geometries[id.val]?

def withSurfaces (r : Registry α) (surfaces : List (ContactSurface α)) : Registry α :=
  { r with surfaces }

variable [Scalar α]

def checkShape (name : String) : Shape α → Outcome α Unit
  | .sphere radius =>
    require (0 < radius ∧ Scalar.isFinite radius) (.invalidConfig (.sphereRadius name radius))
  | .halfSpace => .ok ()

/-- Adds a geometry and gives it the next identifier. Its material is checked here, so that a bad one
    is found before the first step. -/
def add (r : Registry α) (g : Geometry α) : Outcome α (Registry α × GeometryId) := do
  g.material.validate ("For geometry " ++ g.name ++ " on body " ++ toString g.body ++ ".")
  checkShape g.name g.shape
  return ({ r with geometries := r.geometries.push g }, ⟨r.size⟩)

def sphereAt (name : String) (body : BodyIndex) (center : Vec3 α) (radius : α)
    (material : Material α) : Geometry α :=
  ⟨name, body, .ofPosition center, .sphere radius, material⟩

/-- Whether two geometries can be in contact: they are on two bodies, not both anchored. -/
def paired (m : Mechanism α) (g h : Geometry α) : Bool :=
  g.body ≠ h.body && ((m.layout.bodyTree? g.body).isSome || (m.layout.bodyTree? h.body).isSome)

/-- The penetration of two geometries with their positions in the registry. -/
def penetration? (m : Mechanism α) (k : PositionKinematics α) (g h : Geometry α × Nat) :
    Option (Penetration α) :=
  if paired m g.1 h.1 then
    Shape.penetration ⟨g.2⟩ g.1.shape (k.bodyPose g.1.body * g.1.pose)
      ⟨h.2⟩ h.1.shape (k.bodyPose h.1.body * h.1.pose)
  else none

/-- The penetrations of a list of geometries, each with those that follow it. -/
def penetrationsAmong (m : Mechanism α) (k : PositionKinematics α) :
    List (Geometry α × Nat) → List (Penetration α)
  | [] => []
  | g :: rest => rest.filterMap (penetration? m k g) ++ penetrationsAmong m k rest

/-- All penetrations, in the order of the pairs of identifiers. -/
def penetrations (r : Registry α) (m : Mechanism α) (k : PositionKinematics α) :
    Outcome α (List (Penetration α)) :=
  match r.geometries.find? (fun g => m.numBodies ≤ g.body.val) with
  | some g => .error (.invalidIndex "body" g.body.val)
  | none => .ok (penetrationsAmong m k r.geometries.toList.zipIdx)

def query (r : Registry α) : GeometryQuery α where
  body? id := (r.get? id).map Geometry.body
  name? id := (r.get? id).map Geometry.name
  material? id := (r.get? id).map Geometry.material
  penetrations := r.penetrations
  surfaces _ _ := .ok r.surfaces

end Registry

end CompliantContact
