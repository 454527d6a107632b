import CompliantContact.Config
import CompliantContact.Contact.Query

/-!
Discrete contacts: geometric results with the materials of their geometries.

A penetration becomes one contact, at a point between its witness points. The contact surface becomes
one contact at the centroid of each face. There a compliant side has the gradient of its pressure
along the normal, the two sides act in series, and the contact is as deep as the pressure asks for:

    g = 1 / (1 / gM + 1 / gN),  k = area * g,  phi = -pressure / g

Small faces and flat pressure fields make no contact.
-/

namespace CompliantContact

structure ContactPair (α : Type) where
  a : GeometryId
  b : GeometryId
  point : Vec3 α
  /-- The unit normal from the second geometry into the first. -/
  normal : Vec3 α
  /-- Signed separation, negative when penetrating. -/
  phi : α
  stiffness : α
  dissipationTime : α
  friction : α
deriving Inhabited, DecidableEq

/-- What is needed to turn geometric results into contacts. -/
structure Discretizer (α : Type) where
  query : GeometryQuery α
  mechanism : Mechanism α
  /-- The point stiffness of a geometry that declares none. -/
  defaultStiffness : α

namespace Discretizer

variable {α : Type} [Scalar α]

/-- Faces must have more area than this. -/
def minFaceArea : α := Scalar.decimal 1 (-14)

/-- The gradient of a compliant side must reach this. -/
def minPressureGradient : α := Scalar.decimal 1 (-14)

def describe (d : Discretizer α) (id : GeometryId) : String := d.query.describe d.mechanism id

def material (d : Discretizer α) (id : GeometryId) : Outcome α (Material α) :=
  match d.query.material? id with
  | none => .error (.missingProperty "proximity_properties" (d.describe id))
  | some m => .ok m

/-- The contact of a penetration. Its point divides the witness points by the stiffnesses. -/
def pointPair (d : Discretizer α) (p : Penetration α) : Outcome α (ContactPair α) := do
  let materialA ← d.material p.a
  let materialB ← d.material p.b
  let kA ← materialA.stiffness d.defaultStiffness (d.describe p.a)
  let kB ← materialB.stiffness d.defaultStiffness (d.describe p.b)
  let tauA ← materialA.dissipationTime (d.describe p.a)
  let tauB ← materialB.dissipationTime (d.describe p.b)
  let muA ← materialA.dynamicFriction (d.describe p.a)
  let muB ← materialB.dynamicFriction (d.describe p.b)
  let total := kA + kB
  return {
    a := p.a
    b := p.b
    point := p.pointA * (kA / total) + p.pointB * (kB / total)
    normal := p.normal
    phi := -p.depth
    stiffness := combineStiffnesses kA kB
    dissipationTime := combineDissipationTimes tauA tauB
    friction := combineFrictions muA muB }

/-- The pressure gradients of the two sides along the normal, each positive into its own body; none
    for a rigid side. -/
def sideGradients (f : SurfaceFace α) : Option α × Option α :=
  (f.gradientM.map (·.dot f.normal), f.gradientN.map fun g => -g.dot f.normal)

/-- Whether a side is compliant enough; a rigid side is. -/
def gradientSuffices : Option α → Bool
  | none => true
  | some g => minPressureGradient ≤ g

def compliance : Option α → α
  | none => 0
  | some g => 1 / g

/-- The contact of a face, if it makes one. -/
def facePair (s : ContactSurface α) (tau mu : α) (f : SurfaceFace α) :
    Outcome α (Option (ContactPair α)) :=
  if ¬ minFaceArea < f.area then .ok none
  else if f.gradientM.isNone && f.gradientN.isNone then
    .error (.structural (.noCompliantSide s.m s.n))
  else
    let (gM, gN) := sideGradients f
    if ¬ (gradientSuffices gM ∧ gradientSuffices gN) then .ok none
    else do
      let g := 1 / (compliance gM + compliance gN)
      let pressure ← f.pressure.atCentroid s.mesh f.centroid
      let k := f.area * g
      if 0 < k then
        return some {
          a := s.m
          b := s.n
          point := f.centroid
          normal := f.normal
          phi := -pressure / g
          stiffness := k
          dissipationTime := tau
          friction := mu }
      else return none

/-- Contacts found so far, and the reason why the search stopped early, if it did. -/
abbrev Found (α : Type) := List (ContactPair α) × Outcome α Unit

/-- Appends the contacts that a list gives, up to its first failure. -/
def collect {β : Type} (found : β → Outcome α (Option (ContactPair α))) :
    List (ContactPair α) → List β → Found α
  | pairs, [] => (pairs, .ok ())
  | pairs, x :: rest =>
    match found x with
    | .error e => (pairs, .error e)
    | .ok none => collect found pairs rest
    | .ok (some pair) => collect found (pairs ++ [pair]) rest

def appendPoints (d : Discretizer α) (pairs : List (ContactPair α)) (ps : List (Penetration α)) :
    Found α :=
  collect (fun p => (d.pointPair p).map some) pairs ps

/-- The dissipation time and the friction of a contact surface. -/
def surfaceMaterial (d : Discretizer α) (s : ContactSurface α) : Outcome α (α × α) := do
  let materialM ← d.material s.m
  let materialN ← d.material s.n
  let tauM ← materialM.dissipationTime (d.describe s.m)
  let tauN ← materialN.dissipationTime (d.describe s.n)
  let muM ← materialM.dynamicFriction (d.describe s.m)
  let muN ← materialN.dynamicFriction (d.describe s.n)
  return (combineDissipationTimes tauM tauN, combineFrictions muM muN)

def appendSurfaces (d : Discretizer α) : List (ContactPair α) → List (ContactSurface α) → Found α
  | pairs, [] => (pairs, .ok ())
  | pairs, s :: rest =>
    match d.surfaceMaterial s with
    | .error e => (pairs, .error e)
    | .ok (tau, mu) =>
      match collect (facePair s tau mu) pairs s.faces with
      | (pairs, .error e) => (pairs, .error e)
      | (pairs, .ok ()) => d.appendSurfaces pairs rest

def complete (f : Found α) : Outcome α (List (ContactPair α)) := f.2.map fun _ => f.1

/-- All contacts at a configuration, those of penetrations first. -/
def contactPairs (d : Discretizer α) (k : PositionKinematics α) (model : ContactModel) :
    Outcome α (List (ContactPair α)) := do
  let pairs ←
    if model.usesPointPairs then do
      let ps ← d.query.penetrations d.mechanism k
      complete (d.appendPoints [] ps)
    else pure []
  if model.usesContactSurfaces then
    let surfaces ← d.query.surfaces d.mechanism k
    complete (d.appendSurfaces pairs surfaces)
  else return pairs

end Discretizer

end CompliantContact
