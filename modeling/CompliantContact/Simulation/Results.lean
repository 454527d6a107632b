import CompliantContact.Simulation.Assembly

/-!
What the solution of a problem says of the contacts.

The impulses and velocities of the contacts head those of the problem, three for each contact. Forces
are impulses divided by the time step.
-/

namespace CompliantContact

variable {α : Type} [Scalar α]

namespace ContactResults

def addContactForces (p : Problem α) (timeStep : α) (impulses : Vec α) (tau : Vec α)
    (contact : Constraint α × Nat) : Vec α :=
  let (c, i) := contact
  c.blocks.foldl (fun tau b =>
    let start := p.treeStart b.tree
    .ofFn tau.size fun v =>
      if start ≤ v ∧ v < start + b.jacobian.cols then
        tau v + 1 / timeStep * Scalar.sum 3 fun n => b.jacobian n (v - start) * impulses (3 * i + n)
      else tau v) tau

def ofSolution (p : Problem α) (solution : Solution α) (timeStep : α) :
    Outcome α (ContactResults α) := do
  let nc := p.numContacts
  let impulses := solution.impulses
  let velocities := solution.velocities
  let available := min impulses.size velocities.size
  require (3 * nc ≤ available) (.dimensionMismatch "contact impulses" (3 * nc) available)
  requireSize "v_next" p.numVelocities solution.v.size
  let contacts := (p.constraints.toList.take nc).zipIdx
  return {
    velocities := solution.v
    normalForces := .ofFn nc fun i => impulses (3 * i + 2) / timeStep
    tangentialForces := .ofFn (2 * nc) fun i => impulses (3 * (i / 2) + i % 2) / timeStep
    normalVelocities := .ofFn nc fun i => velocities (3 * i + 2)
    tangentialVelocities := .ofFn (2 * nc) fun i => velocities (3 * (i / 2) + i % 2)
    contactForces :=
      contacts.foldl (addContactForces p timeStep impulses) (.zeros p.numVelocities) }

end ContactResults

/-- The force and the velocities of one contact, in the world. -/
structure ContactReport (α : Type) where
  a : GeometryId
  b : GeometryId
  point : Vec3 α
  /-- The unit normal from the first geometry into the second. -/
  normal : Vec3 α
  /-- The force on the second geometry; the first has the opposite one. -/
  force : Vec3 α
  /-- The velocity of the second geometry along the normal, relative to the first. -/
  separationSpeed : α
  slipSpeed : α
deriving DecidableEq

namespace ContactReport

def ofResults (r : ContactResults α) (pair : ContactPair α) (frame : Mat3 α) (i : Nat) :
    ContactReport α where
  a := pair.a
  b := pair.b
  point := pair.point
  normal := frame.mulVec .unitZ
  force := frame.mulVec
    ⟨r.tangentialForces (2 * i), r.tangentialForces (2 * i + 1), r.normalForces i⟩
  separationSpeed := r.normalVelocities i
  slipSpeed :=
    (⟨r.tangentialVelocities (2 * i), r.tangentialVelocities (2 * i + 1), 0⟩ : Vec3 α).norm

end ContactReport

namespace Simulator

/-- Solves the problem of a step, from the previous velocities. A solve that does not succeed is a
    failure of the step. -/
def contactResults (s : Simulator α) (x : State α) (p : AssembledProblem α) :
    Outcome α (ContactResults α) := do
  let solution ← p.problem.solve s.config.solverConfig x.velocities
  require solution.status.isSuccess
    (.solverFailed x.time (.ended solution.status solution.iterations solution.residual))
  ContactResults.ofSolution p.problem solution s.timeStep

/-- Requires as many frames and results as pairs, and reports each contact. -/
def contactReports (pairs : List (ContactPair α)) (p : AssembledProblem α) (r : ContactResults α) :
    Outcome α (List (ContactReport α)) := do
  require (p.frames.length = pairs.length ∧ r.numContacts = pairs.length)
    (.structural .resultsOfOtherContacts)
  return (pairs.zip p.frames).zipIdx.map fun ((pair, frame), i) => .ofResults r pair frame i

end Simulator

end CompliantContact
