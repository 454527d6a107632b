import CompliantContact.Failure

/-!
Settings of the discrete update: the time step, the contact model, the regularization of the
constraints and the tolerances of the solver.
-/

namespace CompliantContact

/-- Which geometric results become contacts. -/
inductive ContactModel where
  /-- Penetrating pairs of geometries, by their witness points. -/
  | point
  /-- Contact surfaces, one contact for each face. -/
  | hydroelastic
  /-- Both, the point pairs first. -/
  | hydroelasticWithFallback
deriving DecidableEq, Inhabited, Repr

namespace ContactModel

def name : ContactModel → String
  | point => "Point"
  | hydroelastic => "Hydroelastic"
  | hydroelasticWithFallback => "HydroelasticWithFallback"

def usesPointPairs : ContactModel → Bool
  | point | hydroelasticWithFallback => true
  | hydroelastic => false

def usesContactSurfaces : ContactModel → Bool
  | hydroelastic | hydroelasticWithFallback => true
  | point => false

end ContactModel

inductive DiscreteSolver where
  /-- Newton's method on a convex cost with regularized constraints. -/
  | sap
  | tamsi
deriving DecidableEq, Inhabited, Repr

namespace DiscreteSolver

instance : ToString DiscreteSolver where
  toString
    | sap => "SAP"
    | tamsi => "TAMSI"

end DiscreteSolver

/-- Settings of the solver for the velocities of one step. -/
structure SolverConfig (α : Type) where
  maxIterations : Nat
  /-- Tolerances on the scaled residual of the momentum balance. -/
  absTolerance : α
  relTolerance : α
  lineSearchMaxIterations : Nat
  /-- The share of the predicted decrease that a step has to reach. -/
  armijo : α
  /-- The factor by which a refused step is shortened. -/
  backtracking : α
deriving BEq, Inhabited

structure ContactRegularization (α : Type) where
  beta : α
  sigma : α
deriving BEq, Inhabited

structure JointLimitConfig (α : Type) where
  /-- How far ahead limits are looked for, in multiples of the displacement expected in one step. -/
  windowFactor : α
  stiffness : α
  beta : α
deriving BEq, Inhabited

structure Config (α : Type) where
  timeStep : α
  contactModel : ContactModel
  solver : DiscreteSolver
  /-- The point stiffness of a geometry that declares none. -/
  defaultContactStiffness : α
  contact : ContactRegularization α
  jointLimits : JointLimitConfig α
  couplerBeta : α
  solverConfig : SolverConfig α
deriving BEq, Inhabited

open Scalar

namespace SolverConfig

variable {α : Type} [Scalar α]

def standard : SolverConfig α where
  maxIterations := 100
  absTolerance := decimal 1 (-14)
  relTolerance := decimal 1 (-6)
  lineSearchMaxIterations := 40
  armijo := decimal 1 (-4)
  backtracking := decimal 8 (-1)

def highAccuracy : SolverConfig α :=
  { standard with maxIterations := 200, relTolerance := decimal 1 (-10) }

private def isFraction (x : α) : Bool := 0 < x && x < 1

def validate (c : SolverConfig α) : Outcome α Unit := do
  require (c.maxIterations ≠ 0) (.invalidConfig .noIterations)
  require (0 ≤ c.absTolerance ∧ 0 ≤ c.relTolerance) (.invalidConfig .negativeTolerance)
  require (isFraction c.armijo) (.invalidConfig .armijoOutOfRange)
  require (isFraction c.backtracking) (.invalidConfig .backtrackingOutOfRange)

end SolverConfig

namespace Config

variable {α : Type} [Scalar α]

def standard : Config α where
  timeStep := decimal 1 (-3)
  contactModel := .hydroelasticWithFallback
  solver := .sap
  defaultContactStiffness := decimal 1 5
  contact := { beta := 1, sigma := decimal 1 (-3) }
  jointLimits := { windowFactor := two, stiffness := decimal 1 12, beta := decimal 1 (-1) }
  couplerBeta := decimal 1 (-1)
  solverConfig := .standard

/-- Checks every setting; the first that is out of range is reported. -/
def validate (c : Config α) : Outcome α Unit := do
  require (isFinite c.timeStep ∧ ¬ c.timeStep ≤ 0) (.invalidTimeStep c.timeStep)
  require (0 < c.defaultContactStiffness ∧ isFinite c.defaultContactStiffness)
    (.invalidConfig .defaultStiffness)
  require (0 < c.contact.beta ∧ 0 < c.contact.sigma) (.invalidConfig .contactRegularization)
  require (0 ≤ c.jointLimits.windowFactor ∧ isFinite c.jointLimits.windowFactor)
    (.invalidConfig .windowFactor)
  require (0 < c.jointLimits.stiffness ∧ 0 < c.jointLimits.beta) (.invalidConfig .limitParameters)
  require (0 < c.couplerBeta) (.invalidConfig .couplerBeta)
  c.solverConfig.validate

end Config

end CompliantContact
