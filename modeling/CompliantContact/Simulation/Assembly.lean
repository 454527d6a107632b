import CompliantContact.Simulation.FreeMotion

/-!
Assembly of the problem of one step.

First come the contacts, then the joint limits in the order of the joints, then the couplers in the
order in which they were added. A limit takes part only if it lies within the distance that the joint
may travel in the step.
-/

namespace CompliantContact

namespace Bound

variable {α : Type} [Scalar α]

/-- Whether a bound is absent or an infinite number. -/
def isInfinite : Option α → Bool
  | none => true
  | some x => !Scalar.isFinite x && !Scalar.isNaN x

end Bound

namespace Simulator

variable {α : Type} [Scalar α]

/-- The friction cone of a contact. -/
def contactConstraint (s : Simulator α) (pair : ContactPair α) (k : ContactKinematics α) :
    Outcome α (Constraint α) :=
  Constraint.cone k.blocks k.phi {
    mu := pair.friction
    stiffness := pair.stiffness
    dissipationTime := pair.dissipationTime
    beta := s.config.contact.beta
    sigma := s.config.contact.sigma }

/-- The parameters of the limits of a joint that lie in the window around its position, none if no
    side does. The window reaches as far as the larger of two velocities goes in a step, times a
    factor. -/
def windowedLimits (s : Simulator α) (joint : Joint α) (q0 v0 vFree : α) :
    Option (LimitParameters α) :=
  let limits := s.config.jointLimits
  let travel := s.timeStep * Scalar.larger (Scalar.abs v0) (Scalar.abs vFree)
  let windowLower := q0 - limits.windowFactor * travel
  let windowUpper := q0 + limits.windowFactor * travel
  let lower := (joint.lowerLimits.getD 0 none).filter fun l => ¬ l < windowLower
  let upper := (joint.upperLimits.getD 0 none).filter fun u => ¬ windowUpper < u
  if Bound.isInfinite lower && Bound.isInfinite upper then none
  else some {
    lower
    upper
    stiffness := limits.stiffness
    dissipationTime := s.timeStep
    beta := limits.beta }

/-- The limit constraint of a joint, if one is needed. Only joints with one degree of freedom may have
    limits. -/
def limitConstraint (s : Simulator α) (x : State α) (vFree : Vec α) (joint : Joint α) :
    Outcome α (Option (Constraint α)) :=
  if ¬ joint.hasFiniteLimits then .ok none
  else do
    require (joint.dofs = 1) (.unsupportedJointLimits joint.name)
    let dof := joint.velocityStart
    match s.model.layout.locate? dof with
    | none => .error (.structural (.velocityWithoutTree dof joint.name))
    | some (tree, treeDof) =>
      match s.windowedLimits joint (x.positions dof) (x.velocities dof) (vFree dof) with
      | none => return none
      | some p =>
        return some (← Constraint.limit tree treeDof (s.model.layout.size tree) (x.positions dof) p)

/-- A row that is zero but for given entries. -/
def sparseRow (size : Nat) (entries : List (Nat × α)) : Mat α :=
  .ofFn 1 size fun _ j => ((entries.find? (·.1 = j)).map Prod.snd).getD 0

/-- The tree and the place in it of a coupled velocity. -/
def locateCoupled (s : Simulator α) (dof : Nat) : Outcome α (TreeIndex × Nat) :=
  match s.model.layout.locate? dof with
  | none => .error (.structural (.coupledVelocityWithoutTree dof))
  | some place => .ok place

/-- The first velocity of a joint. -/
def jointStart (s : Simulator α) (j : JointIndex) : Nat :=
  ((s.model.joint? j).map Joint.velocityStart).getD 0

/-- The holonomic constraint of a coupler: rigid, with impulses of any size. -/
def couplerConstraint (s : Simulator α) (x : State α) (c : Coupler α) : Outcome α (Constraint α) := do
  let dofA := s.jointStart c.a
  let dofB := s.jointStart c.b
  let (treeA, placeA) ← s.locateCoupled dofA
  let (treeB, placeB) ← s.locateCoupled dofB
  let size := s.model.layout.size
  let blocks : List (JacobianBlock α) :=
    if treeA = treeB then
      [⟨treeA, sparseRow (size treeA) [(placeB, -c.ratio), (placeA, 1)]⟩]
    else
      [⟨treeA, sparseRow (size treeA) [(placeA, 1)]⟩,
        ⟨treeB, sparseRow (size treeB) [(placeB, -c.ratio)]⟩]
  Constraint.holonomic blocks (.ofList [x.positions dofA - c.ratio * x.positions dofB - c.offset]) {
    lower := #[none]
    upper := #[none]
    stiffness := #[none]
    relaxationTime := .ofList [s.timeStep]
    beta := s.config.couplerBeta }

/-- Makes a constraint and appends it to a problem. -/
def append (p : Problem α) (c : Outcome α (Constraint α)) : Outcome α (Problem α) := do
  return (← p.addConstraint (← c)).1

/-- Appends the contacts, and gives their frames. -/
def addContacts (s : Simulator α) (p : Problem α) (pairs : List (ContactPair α))
    (kinematics : List (ContactKinematics α)) : Outcome α (AssembledProblem α) := do
  requireSize "contact kinematics" pairs.length kinematics.length
  let p ← (pairs.zip kinematics).foldlM (fun p (pair, k) => append p (s.contactConstraint pair k)) p
  return ⟨p, kinematics.map ContactKinematics.frame⟩

/-- Appends the limit of a joint, if one is needed. -/
def addLimit (s : Simulator α) (x : State α) (vFree : Vec α) (p : Problem α) (joint : Joint α) :
    Outcome α (Problem α) := do
  match ← s.limitConstraint x vFree joint with
  | none => return p
  | some c => append p (.ok c)

/-- Appends limits and couplers. -/
def addJointConstraints (s : Simulator α) (x : State α) (p : Problem α) : Outcome α (Problem α) := do
  let p ← s.model.joints.toList.foldlM (s.addLimit x p.freeVelocities) p
  s.couplers.foldlM (fun p c => append p (s.couplerConstraint x c)) p

end Simulator

end CompliantContact
