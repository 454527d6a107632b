import CompliantContact.Mechanism.Build
import CompliantContact.Mechanism.Dynamics

/-!
Models: a mechanism and the laws of the forces that act on it.
-/

namespace CompliantContact

structure Model (α : Type) extends Mechanism α where
  elements : List (ForceElement α)

namespace Model

variable {α : Type} [Scalar α]

/-- Builds the mechanism, then checks every force element against it. -/
def build (bodies : List (Body α)) (joints : List (Joint α)) (elements : List (ForceElement α)) :
    Outcome α (Model α) := do
  let mechanism ← Mechanism.build bodies joints
  elements.forM fun e => e.check mechanism
  return { mechanism with elements }

def addElementForces (m : Model α) (k : PositionKinematics α) (q v : Vec α) (f : Forces α) :
    Forces α :=
  m.elements.foldl (fun f e => e.addForces m.toMechanism k q v f) f

end Model

end CompliantContact
