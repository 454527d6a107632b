import CompliantContact.Decimal.Layout
import CompliantContact.Failure

/-!
The wording of failures.
-/

namespace CompliantContact

open Decimal

/-- A record in a listing: its name, and its fields with their texts. -/
def recordListing (name : String) (fields : List (String × String)) : String :=
  name ++ " \x7b " ++ ", ".intercalate (fields.map fun (field, text) => field ++ ": " ++ text) ++ " \x7d"

def optionListing : Option String → String
  | none => "None"
  | some text => "Some(" ++ text ++ ")"

namespace ConeParameters

def listing (p : ConeParameters Float) : String :=
  recordListing "FrictionConeParameters" [
    ("mu", text .listing p.mu),
    ("stiffness", text .listing p.stiffness),
    ("dissipation_time_scale", text .listing p.dissipationTime),
    ("beta", text .listing p.beta),
    ("sigma", text .listing p.sigma)]

end ConeParameters

namespace LimitParameters

/-- An absent limit is listed as the infinity on its side. -/
def listing (p : LimitParameters Float) : String :=
  recordListing "LimitParameters" [
    ("lower", (p.lower.map (text .listing)).getD "-inf"),
    ("upper", (p.upper.map (text .listing)).getD "inf"),
    ("stiffness", text .listing p.stiffness),
    ("dissipation_time_scale", text .listing p.dissipationTime),
    ("beta", text .listing p.beta)]

end LimitParameters

namespace PropertyFault

def message : PropertyFault Float → String
  | negativeOrInfinite => "must be finite and non-negative"
  | belowDynamicFriction dynamic =>
    "must be finite and at least dynamic_friction = " ++ text .plain dynamic
  | stiffnessNotPositive => "point stiffness must be finite and positive"
  | negativeRelaxationTime => "relaxation time must be non-negative"
  | stated reason => reason

end PropertyFault

namespace ConfigFault

def message : ConfigFault Float → String
  | noIterations => "max_iterations must be at least 1"
  | negativeTolerance => "solver tolerances must be non-negative"
  | armijoOutOfRange => "armijo_c must lie in (0, 1)"
  | backtrackingOutOfRange => "backtracking_rho must lie in (0, 1)"
  | defaultStiffness => "default_contact_stiffness must be finite and positive"
  | contactRegularization => "contact regularization beta and sigma must be positive"
  | windowFactor => "limit window_factor must be finite and non-negative"
  | limitParameters => "limit stiffness and beta must be positive"
  | couplerBeta => "coupler beta must be positive"
  | bodyMass body mass => "body '" ++ body ++ "' has invalid mass " ++ text .plain mass
  | bodyTwiceConnected body joint =>
    "body " ++ toString body ++ " has more than one inboard joint (joint '" ++ joint ++ "')"
  | bodyUnconnected body => "body '" ++ body ++ "' is not connected by any joint"
  | jointOrder joint =>
    "joint '" ++ joint ++ "' must connect a parent to a child added after it"
  | jointDamping joint => "joint '" ++ joint ++ "' has negative damping"
  | jointReflectedInertia joint => "joint '" ++ joint ++ "' has negative reflected inertia"
  | jointLimitsInverted joint => "joint '" ++ joint ++ "' has a lower limit above its upper limit"
  | jointAxis joint => "joint '" ++ joint ++ "' has a degenerate axis"
  | springDofs joint dofs =>
    "joint spring requires a single-dof joint, '" ++ joint ++ "' has " ++ toString dofs
  | springStiffness joint stiffness =>
    "joint spring on '" ++ joint ++ "' has invalid stiffness " ++ text .plain stiffness
  | sphereRadius geometry radius =>
    "sphere '" ++ geometry ++ "' has invalid radius " ++ text .plain radius
  | couplerDofs joint =>
    "coupler joint '" ++ joint ++ "' must have exactly one degree of freedom"
  | couplerSelf => "a joint cannot be coupled to itself"
  | couplerNotFinite ratio offset =>
    "coupler gear ratio and offset must be finite (got " ++ text .plain ratio ++ ", " ++
      text .plain offset ++ ")"
  | negativeParameter what value =>
    what ++ " must be non-negative, got " ++ text .plain value
  | stated reason => reason

end ConfigFault

namespace StructureFault

def message : StructureFault Float → String
  | coneParameters p => "invalid friction cone parameters " ++ p.listing
  | limitParameters p => "invalid limit parameters " ++ p.listing
  | limitWithoutSide => "limit constraint needs at least one finite side"
  | holonomicParameters equation =>
    "invalid holonomic parameters for equation " ++ toString equation
  | regularizationFactors beta sigma =>
    "regularization factors must be positive (beta = " ++ text .plain beta ++ ", sigma = " ++
      optionListing (sigma.map (text .listing)) ++ ")"
  | blocksShareTree tree => "both Jacobian blocks reference tree " ++ toString tree
  | blockCount count =>
    "a constraint couples one or two trees, got " ++ toString count ++ " blocks"
  | contactAfterOther => "contact constraints must be added before any other constraint"
  | pressureForm mesh =>
    "face pressure representation does not match a " ++ mesh.name ++ " surface mesh"
  | noCompliantSide m n =>
    "contact surface between " ++ toString m ++ " and " ++ toString n ++ " has no compliant side"
  | contactWithoutTree a b =>
    "contact between " ++ toString a ++ " and " ++ toString b ++ " involves no valid tree"
  | forcesNotSized => "multibody forces are not sized for this model"
  | entryNotDeclared entry dependency =>
    "cache entry '" ++ entry ++ "' depends on " ++ indexText "CacheIndex" dependency ++
      ", which is not declared before it"
  | entryOfOtherType entry => "cache entry '" ++ entry ++ "' holds a value of another type"
  | velocityWithoutTree velocity joint =>
    "velocity " ++ toString velocity ++ " of joint '" ++ joint ++ "' has no tree"
  | coupledVelocityWithoutTree velocity =>
    "coupled velocity " ++ toString velocity ++ " has no tree"
  | staleContext => "context was created before the manager was last modified"
  | resultsOfOtherContacts => "contact results do not match the discrete contact pairs"
  | stated reason => reason

end StructureFault

namespace SolverDetail

/-- The text, with the residual written by `residualText`. -/
def messageWith (residualText : Float → String) : SolverDetail Float → String
  | ended status iterations residual =>
    "SAP status " ++ status.name ++ " after " ++ toString iterations ++ " iterations, residual " ++
      (residual.map residualText).getD "NaN"
  | stated detail => detail

end SolverDetail

namespace Failure

def kindName {α : Type} : Failure α → String
  | missingProperty .. => "MissingProperty"
  | invalidProperty .. => "InvalidProperty"
  | unsupportedJointLimits .. => "UnsupportedJointLimits"
  | duplicateModel .. => "DuplicateModel"
  | unsupportedSolver .. => "UnsupportedSolver"
  | invalidTimeStep .. => "InvalidTimestep"
  | invalidConfig .. => "InvalidConfig"
  | algebraicLoop .. => "AlgebraicLoop"
  | solverFailed .. => "SolverFailed"
  | notPositiveDefinite .. => "NotPositiveDefinite"
  | dimensionMismatch .. => "DimensionMismatch"
  | invalidIndex .. => "InvalidIndex"
  | structural .. => "Structural"
  | outOfRange .. => "panic"

/-- What usually makes a solve fail, and what to do about it. -/
def divergenceCauses : List String := [
  "Externally applied actuation values diverged due to reasons external to the solver. " ++
    "Revise your control logic.",
  "Force elements such as stiff springs can lead to unstable temporal dynamics. Revise your model " ++
    "and consider modeling these forces as compliant constraints instead.",
  "Numerical ill conditioning of the model caused by, for instance, extremely large mass ratios. " ++
    "Consider removing very small objects or welding them to larger ones."]

/-- Items with their numbers, indented by two blanks. -/
def numbered (items : List String) : List String :=
  items.zipIdx.map fun (item, i) => "  " ++ toString (i + 1) ++ ". " ++ item

/-- The text of a failure, with the residual of a failed solve written by `residualText`. -/
def messageWith (residualText : Float → String) : Failure Float → String
  | missingProperty property context =>
    "missing required property '" ++ property ++ "'. " ++ context
  | invalidProperty property value fault context =>
    "invalid property '" ++ property ++ "' = " ++ text .plain value ++ ": " ++ fault.message ++ ". " ++
      context
  | unsupportedJointLimits joint =>
    "limits for joints with more than one degree of freedom are not supported (joint '" ++ joint ++
      "'). A new multi-dof joint type with limits requires the limit constraint assembly to be " ++
      "extended"
  | duplicateModel model =>
    "a " ++ model ++ " model has already been registered; repeated registration is not allowed"
  | unsupportedSolver solver =>
    "discrete contact solver '" ++ solver ++ "' is not supported by the compliant contact manager"
  | invalidTimeStep value =>
    "invalid time step: " ++ text .plain value ++ " (must be positive and finite)"
  | invalidConfig fault => "invalid configuration: " ++ fault.message
  | algebraicLoop entry =>
    "algebraic loop detected while evaluating '" ++ entry ++ "'. The quantity depends on itself, " ++
      "most likely through an input that depends on contact results; cyclic force dependencies " ++
      "are not supported"
  | solverFailed time detail =>
    "the contact solver failed to converge at simulation time = " ++ text .plain time ++
      ". Reasons for divergence and possible solutions include:\n" ++
      "\n".intercalate (numbered
        (divergenceCauses ++ ["Some other cause (" ++ detail.messageWith residualText ++ ")."]))
  | notPositiveDefinite what => "matrix is not positive definite: " ++ what
  | dimensionMismatch what expected actual =>
    "dimension mismatch for " ++ what ++ ": expected " ++ toString expected ++ ", got " ++
      toString actual
  | invalidIndex kind index => "invalid " ++ kind ++ " index " ++ toString index
  | structural fault => "internal invariant violated: " ++ fault.message
  | outOfRange last size =>
    "range end index " ++ toString last ++ " out of range for slice of length " ++ toString size

def message : Failure Float → String := messageWith (text .scientific)

end Failure

end CompliantContact
