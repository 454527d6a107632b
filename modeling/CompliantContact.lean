import CompliantContact.Cache.Listing
import CompliantContact.Contact.Registry
import CompliantContact.Decimal.Rounded
import CompliantContact.Proofs.Cache.Evaluation
import CompliantContact.Proofs.Cache.Recomputed
import CompliantContact.Proofs.Cache.Running
import CompliantContact.Proofs.Cache.UpToDate
import CompliantContact.Proofs.Constraint.Cone
import CompliantContact.Proofs.Constraint.Cost
import CompliantContact.Proofs.Constraint.Derivative
import CompliantContact.Proofs.Constraint.Kinds
import CompliantContact.Proofs.Constraint.Monotone
import CompliantContact.Proofs.Constraint.Regularization
import CompliantContact.Proofs.Constraint.Slope
import CompliantContact.Proofs.Constraint.Turn
import CompliantContact.Proofs.Contact.Faces
import CompliantContact.Proofs.Contact.Frame
import CompliantContact.Proofs.Contact.Mirror
import CompliantContact.Proofs.Contact.Orientation
import CompliantContact.Proofs.Contact.Pairs
import CompliantContact.Proofs.Contact.Penetrations
import CompliantContact.Proofs.Contact.Registry
import CompliantContact.Proofs.Contact.Shapes
import CompliantContact.Proofs.Dense.Algebra
import CompliantContact.Proofs.Dense.Cholesky
import CompliantContact.Proofs.Dense.Definite
import CompliantContact.Proofs.Dense.Factorization
import CompliantContact.Proofs.Dense.Inverse
import CompliantContact.Proofs.Dense.Point
import CompliantContact.Proofs.Dense.Solve
import CompliantContact.Proofs.Dense.Stack
import CompliantContact.Proofs.Mechanism.ForwardDynamics
import CompliantContact.Proofs.Mechanism.KineticEnergy
import CompliantContact.Proofs.Mechanism.Limits
import CompliantContact.Proofs.Mechanism.Momentum
import CompliantContact.Proofs.Mechanism.Moving
import CompliantContact.Proofs.Mechanism.OneTree
import CompliantContact.Proofs.Mechanism.Outward
import CompliantContact.Proofs.Mechanism.Places
import CompliantContact.Proofs.Mechanism.PointVelocity
import CompliantContact.Proofs.Mechanism.Positions
import CompliantContact.Proofs.Mechanism.Rest
import CompliantContact.Proofs.Mechanism.Transport
import CompliantContact.Proofs.Mechanism.Trees
import CompliantContact.Proofs.Mechanism.VelocityLayout
import CompliantContact.Proofs.Mechanism.Ways
import CompliantContact.Proofs.Outcome
import CompliantContact.Proofs.Problem.Assembled
import CompliantContact.Proofs.Problem.Built
import CompliantContact.Proofs.Problem.Counted
import CompliantContact.Proofs.Problem.Shape
import CompliantContact.Proofs.Real
import CompliantContact.Proofs.Simulation.Answers
import CompliantContact.Proofs.Simulation.Assembled
import CompliantContact.Proofs.Simulation.Balance
import CompliantContact.Proofs.Simulation.Changes
import CompliantContact.Proofs.Simulation.Checks
import CompliantContact.Proofs.Simulation.Coherent
import CompliantContact.Proofs.Simulation.ComputedOnce
import CompliantContact.Proofs.Simulation.ConstraintVelocities
import CompliantContact.Proofs.Simulation.Direct
import CompliantContact.Proofs.Simulation.DroppedLimits
import CompliantContact.Proofs.Simulation.Faithful
import CompliantContact.Proofs.Simulation.Fallback
import CompliantContact.Proofs.Simulation.Families
import CompliantContact.Proofs.Simulation.FreeMotion
import CompliantContact.Proofs.Simulation.Frictionless
import CompliantContact.Proofs.Simulation.Impartial
import CompliantContact.Proofs.Simulation.InternalFailures
import CompliantContact.Proofs.Simulation.LimitForces
import CompliantContact.Proofs.Simulation.Limits
import CompliantContact.Proofs.Simulation.Mirror
import CompliantContact.Proofs.Simulation.OwnValues
import CompliantContact.Proofs.Simulation.Owned
import CompliantContact.Proofs.Simulation.Reports
import CompliantContact.Proofs.Simulation.Rest
import CompliantContact.Proofs.Simulation.Results
import CompliantContact.Proofs.Simulation.Revisions
import CompliantContact.Proofs.Simulation.Session
import CompliantContact.Proofs.Simulation.Shared
import CompliantContact.Proofs.Simulation.Sized
import CompliantContact.Proofs.Simulation.Stages
import CompliantContact.Proofs.Simulation.TreesApart
import CompliantContact.Proofs.Simulation.TurnedResults
import CompliantContact.Proofs.Simulation.Unnoticed
import CompliantContact.Proofs.Simulation.Values
import CompliantContact.Proofs.Sizes
import CompliantContact.Proofs.Solver.Admissible
import CompliantContact.Proofs.Solver.Assembly
import CompliantContact.Proofs.Solver.ContactImpulses
import CompliantContact.Proofs.Solver.Curvature
import CompliantContact.Proofs.Solver.Delassus
import CompliantContact.Proofs.Solver.Equivalent
import CompliantContact.Proofs.Solver.Evaluate
import CompliantContact.Proofs.Solver.Gradient
import CompliantContact.Proofs.Solver.Inertia
import CompliantContact.Proofs.Solver.Monotone
import CompliantContact.Proofs.Solver.Newton
import CompliantContact.Proofs.Solver.OneStep
import CompliantContact.Proofs.Solver.Rearranged
import CompliantContact.Proofs.Solver.Solution
import CompliantContact.Proofs.Solver.Turned
import CompliantContact.Proofs.Space.Algebra
import CompliantContact.Proofs.Space.Length
import CompliantContact.Proofs.Space.Turning
import CompliantContact.Simulation.Step
