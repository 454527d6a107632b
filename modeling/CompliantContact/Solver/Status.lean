/-!
How a solve ended.
-/

namespace CompliantContact

inductive SolveStatus where
  | success
  /-- A value that is not finite stood in the data or came up in an iterate. -/
  | nonFinite
  /-- A dynamics matrix, or the curvature of the cost, was not positive definite. -/
  | notPositiveDefinite
  | iterationsExceeded
deriving DecidableEq, Inhabited, Repr

namespace SolveStatus

def isSuccess (s : SolveStatus) : Bool := s == .success

def name : SolveStatus → String
  | success => "Success"
  | nonFinite => "NonFinite"
  | notPositiveDefinite => "CholeskyFailed"
  | iterationsExceeded => "MaxIterationsExceeded"

end SolveStatus

end CompliantContact
