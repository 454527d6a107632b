import CompliantContact.Constraint.Parameters
import CompliantContact.Contact.Mesh
import CompliantContact.Index
import CompliantContact.Solver.Status

/-!
What can go wrong while a step is computed.

Failures fall into three families. A configuration failure says that the model, its materials or its
settings cannot be simulated as given. A solver failure says that the velocities of one step were not
found; a retry with other parameters may find them. A structural failure says that sizes or topology
do not fit together. Each failure is named by its cause; its wording is in one other place.

A computation that breaks off gives no answer at all. It stands among the failures, in none of the
families, since nothing that comes after it is carried out either.
-/

namespace CompliantContact

/-- Why the value of a material property is refused. -/
inductive PropertyFault (α : Type) where
  | negativeOrInfinite
  | belowDynamicFriction (dynamic : α)
  | stiffnessNotPositive
  | negativeRelaxationTime
  | stated (reason : String)
deriving DecidableEq, Inhabited

/-- Why a model or its settings are refused. -/
inductive ConfigFault (α : Type) where
  | noIterations
  | negativeTolerance
  | armijoOutOfRange
  | backtrackingOutOfRange
  | defaultStiffness
  | contactRegularization
  | windowFactor
  | limitParameters
  | couplerBeta
  | bodyMass (body : String) (mass : α)
  | bodyTwiceConnected (body : BodyIndex) (joint : String)
  | bodyUnconnected (body : String)
  | jointOrder (joint : String)
  | jointDamping (joint : String)
  | jointReflectedInertia (joint : String)
  | jointLimitsInverted (joint : String)
  | jointAxis (joint : String)
  | springDofs (joint : String) (dofs : Nat)
  | springStiffness (joint : String) (stiffness : α)
  | sphereRadius (geometry : String) (radius : α)
  | couplerDofs (joint : String)
  | couplerSelf
  | couplerNotFinite (ratio offset : α)
  | negativeParameter (what : String) (value : α)
  | stated (reason : String)
deriving DecidableEq, Inhabited

inductive StructureFault (α : Type) where
  | coneParameters (p : ConeParameters α)
  | limitParameters (p : LimitParameters α)
  | limitWithoutSide
  | holonomicParameters (equation : Nat)
  | regularizationFactors (beta : α) (sigma : Option α)
  | blocksShareTree (tree : TreeIndex)
  | blockCount (count : Nat)
  | contactAfterOther
  | pressureForm (mesh : MeshKind)
  | noCompliantSide (m n : GeometryId)
  | contactWithoutTree (a b : GeometryId)
  | forcesNotSized
  | entryNotDeclared (entry : String) (dependency : Nat)
  | entryOfOtherType (entry : String)
  | velocityWithoutTree (velocity : Nat) (joint : String)
  | coupledVelocityWithoutTree (velocity : Nat)
  | staleContext
  | resultsOfOtherContacts
  | stated (reason : String)
deriving DecidableEq, Inhabited

/-- What the solver says of a failed solve. -/
inductive SolverDetail (α : Type) where
  /-- How the solve ended, after how many iterations, and with which residual, if it had one. -/
  | ended (status : SolveStatus) (iterations : Nat) (residual : Option α)
  | stated (detail : String)
deriving DecidableEq, Inhabited

inductive Failure (α : Type) where
  | missingProperty (property context : String)
  | invalidProperty (property : String) (value : α) (fault : PropertyFault α) (context : String)
  | unsupportedJointLimits (joint : String)
  | duplicateModel (model : String)
  | unsupportedSolver (solver : String)
  | invalidTimeStep (value : α)
  | invalidConfig (fault : ConfigFault α)
  | algebraicLoop (entry : String)
  | solverFailed (time : α) (detail : SolverDetail α)
  | notPositiveDefinite (what : String)
  | dimensionMismatch (what : String) (expected actual : Nat)
  | invalidIndex (kind : String) (index : Nat)
  | structural (fault : StructureFault α)
  /-- Part of a list was asked for that ends past the list. Such a request has no answer, and the
      computation breaks off. -/
  | outOfRange (last size : Nat)
deriving DecidableEq, Inhabited

namespace Failure

variable {α : Type}

/-- The model, its materials or its settings cannot be simulated as given. -/
def isConfigError : Failure α → Bool
  | missingProperty .. | invalidProperty .. | unsupportedJointLimits .. | duplicateModel ..
  | unsupportedSolver .. | invalidTimeStep .. | invalidConfig .. | algebraicLoop .. => true
  | _ => false

/-- The velocities of one step were not found. -/
def isSolverFailure : Failure α → Bool
  | solverFailed .. => true
  | _ => false

/-- Sizes or topology do not fit together. -/
def isStructural : Failure α → Bool
  | structural .. | dimensionMismatch .. | invalidIndex .. => true
  | _ => false

end Failure

/-- A value, or the reason why there is none. -/
abbrev Outcome (α β : Type) := Except (Failure α) β

section
variable {α : Type}

/-- Fails for the given reason unless a condition holds. -/
def require (condition : Prop) [Decidable condition] (reason : Failure α) : Outcome α Unit :=
  if condition then .ok () else .error reason

def requireSize (what : String) (expected actual : Nat) : Outcome α Unit :=
  require (expected = actual) (.dimensionMismatch what expected actual)

theorem require_eq_ok_iff {condition : Prop} [Decidable condition] {reason : Failure α} :
    require condition reason = .ok () ↔ condition := by
  by_cases h : condition <;> simp [require, h]

theorem requireSize_eq_ok_iff {what : String} {expected actual : Nat} :
    (requireSize what expected actual : Outcome α Unit) = .ok () ↔ expected = actual :=
  require_eq_ok_iff

end

end CompliantContact
