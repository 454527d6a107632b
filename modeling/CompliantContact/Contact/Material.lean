import CompliantContact.Failure

/-!
Contact materials and how two of them combine.

A geometry may declare a point stiffness, a relaxation time and friction. The stiffness has a default;
the other two are needed as soon as the geometry takes part in a contact. What is declared is checked
when it is asked for, and the failure then names the geometry.
-/

namespace CompliantContact

structure Friction (α : Type) where
  static : α
  dynamic : α
deriving Inhabited, DecidableEq

namespace Friction

variable {α : Type} [Scalar α]

/-- Friction with given coefficients: the dynamic one is not negative, and the static one not less. -/
def ofCoefficients (static dynamic : α) : Outcome α (Friction α) := do
  require (0 ≤ dynamic ∧ Scalar.isFinite dynamic)
    (.invalidProperty "dynamic_friction" dynamic .negativeOrInfinite "")
  require (dynamic ≤ static ∧ Scalar.isFinite static)
    (.invalidProperty "static_friction" static (.belowDynamicFriction dynamic) "")
  return ⟨static, dynamic⟩

def uniform (mu : α) : Outcome α (Friction α) := ofCoefficients mu mu

def frictionless : Friction α := ⟨0, 0⟩

end Friction

structure Material (α : Type) where
  pointStiffness : Option α
  relaxationTime : Option α
  friction : Option (Friction α)
deriving Inhabited, DecidableEq

namespace Material

variable {α : Type} [Scalar α]

/-- The point stiffness, or the default if none is declared. The context names the geometry. -/
def stiffness (m : Material α) (default : α) (context : String) : Outcome α α := do
  let k := m.pointStiffness.getD default
  require (0 < k ∧ Scalar.isFinite k)
    (.invalidProperty "point_stiffness" k .stiffnessNotPositive context)
  return k

def dissipationTime (m : Material α) (context : String) : Outcome α α :=
  match m.relaxationTime with
  | none => .error (.missingProperty "relaxation_time" context)
  | some tau => do
    require (0 ≤ tau) (.invalidProperty "relaxation_time" tau .negativeRelaxationTime context)
    return tau

def dynamicFriction (m : Material α) (context : String) : Outcome α α :=
  match m.friction with
  | none => .error (.missingProperty "friction" context)
  | some f => .ok f.dynamic

def validate (m : Material α) (context : String) : Outcome α Unit := do
  if let some k := m.pointStiffness then
    let _ ← m.stiffness k context
  if m.relaxationTime.isSome then
    let _ ← m.dissipationTime context

end Material

section Laws
variable {α : Type} [Scalar α]

def quotientOrZero (x y : α) : α := if Scalar.isZero y then 0 else x / y

/-- Stiffnesses act in series; two that are zero make zero. -/
def combineStiffnesses (k l : α) : α := quotientOrZero (k * l) (k + l)

def combineDissipationTimes (s t : α) : α := s + t

/-- Coefficients of friction have the harmonic mean; two that are zero make zero. -/
def combineFrictions (m n : α) : α := quotientOrZero (Scalar.two * m * n) (m + n)

end Laws

end CompliantContact
