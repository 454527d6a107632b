import CompliantContact.Assigning
import CompliantContact.Proofs.Problem.Shape

/-!
Problems with their counts beside them.

While a problem is built its counts can be kept along with it: where each tree starts, how many of the
constraints are contacts, and how many equations there are. Calls assign one after another what they
change. Whatever is called, and whether it is accepted or refused, the counts are those of the problem,
and what is refused changes nothing.
-/

namespace CompliantContact

/-- A problem with its counts. -/
structure CountedProblem (α : Type) extends Problem α where
  /-- The first velocity of each tree. -/
  treeStarts : Array Nat
  contactCount : Nat
  equationCount : Nat

namespace CountedProblem

open Assigning

variable {α : Type}

/-- A problem with the counts that it should have. -/
def of (p : Problem α) : CountedProblem α where
  toProblem := p
  treeStarts := ((List.range p.numTrees).map fun t => p.treeStart ⟨t⟩).toArray
  contactCount := p.numContacts
  equationCount := p.numEquations

/-- The first velocity of each tree and the number of all velocities, tree by tree. -/
def countTrees (dynamics : List (Mat α)) (counts : Array Nat × Nat) : Outcome α (Array Nat × Nat) :=
  dynamics.foldlM (fun (starts, next) a => do
    requireSize "tree dynamics matrix columns" a.rows a.cols
    return (starts.push next, next + a.rows)) counts

def reset (dynamics : List (Mat α)) (freeVelocities : Vec α) : Assigning (CountedProblem α) α Unit := do
  let (treeStarts, numVelocities) ← check (countTrees dynamics (#[], 0))
  check (requireSize "free-motion velocities" numVelocities freeVelocities.size)
  modify fun q => { q with dynamics := dynamics.toArray }
  modify fun q => { q with freeVelocities }
  modify fun q => { q with treeStarts }
  modify fun q => { q with constraints := #[] }
  modify fun q => { q with contactCount := 0 }
  modify fun q => { q with equationCount := 0 }

def addConstraint (c : Constraint α) : Assigning (CountedProblem α) α Nat := do
  let q ← get
  check (require (c.isContact → q.contactCount = q.numConstraints) (.structural .contactAfterOther))
  check (c.blocks.forM q.checkBlock)
  if c.isContact then
    modify fun q => { q with contactCount := q.contactCount + 1 }
  modify fun q => { q with equationCount := q.equationCount + c.numEquations }
  modify fun q => { q with constraints := q.constraints.push c }
  return (← get).numConstraints - 1

/-- Counted tree by tree the starts are the sums of the sizes before. -/
theorem countTrees_eq (dynamics : List (Mat α)) (starts : Array Nat) (next : Nat) :
    countTrees dynamics (starts, next) = (do
      dynamics.forM fun a => requireSize "tree dynamics matrix columns" a.rows a.cols
      return (starts ++ (startsFrom next (dynamics.map Mat.rows)).toArray,
        next + total (dynamics.map Mat.rows))) := by
  induction dynamics generalizing starts next with
  | nil => exact congrArg (fun counts => Except.ok (counts, next)) Array.append_empty.symm
  | cons a dynamics ih =>
    show ((requireSize _ a.rows a.cols >>= fun _ => _) >>= fun counts => countTrees dynamics counts) =
      (requireSize _ a.rows a.cols >>= fun _ => dynamics.forM _) >>= fun _ => _
    cases requireSize (α := α) "tree dynamics matrix columns" a.rows a.cols with
    | error e => rfl
    | ok _ =>
      have hstarts : starts.push next ++ (startsFrom (next + a.rows) (dynamics.map Mat.rows)).toArray =
          starts ++ (startsFrom next ((a :: dynamics).map Mat.rows)).toArray := by
        rw [List.map_cons, startsFrom_cons]
        simp
      refine (ih (starts.push next) (next + a.rows)).trans ?_
      rw [hstarts, Nat.add_assoc]
      rfl

theorem apply_reset (dynamics : List (Mat α)) (freeVelocities : Vec α) (q : CountedProblem α) :
    apply (reset dynamics freeVelocities) q = match q.toProblem.reset dynamics freeVelocities with
      | .ok p => (.ok (), of p)
      | .error e => (.error e, q) := by
  rw [reset, apply_check_bind, countTrees_eq, Problem.reset, Problem.checkDynamics]
  cases dynamics.forM fun a => requireSize (α := α) "tree dynamics matrix columns" a.rows a.cols with
  | error e => rfl
  | ok _ =>
    show apply (check _ >>= _) q = _
    rw [apply_check_bind, Nat.zero_add]
    show _ = match ((requireSize (α := α) _ _ _ >>= fun _ => _) : Outcome α (Problem α)) with
      | .ok p => _
      | .error e => _
    cases requireSize (α := α) "free-motion velocities"
      (total (dynamics.map Mat.rows)) freeVelocities.size with
    | error e => rfl
    | ok _ =>
      have hstarts : #[] ++ (startsFrom 0 (dynamics.map Mat.rows)).toArray =
          (of { q.toProblem with dynamics := dynamics.toArray, freeVelocities, constraints :=
            #[] }).treeStarts := by
        simp [of, startsFrom, Problem.treeStart, Problem.numTrees]
      rw [hstarts]
      rfl

/-- With another constraint there is a contact more if it is one, and there are its equations more. -/
theorem of_push (p : Problem α) (c : Constraint α) : of { p with constraints := p.constraints.push c } = {
    timeStep := p.timeStep
    dynamics := p.dynamics
    freeVelocities := p.freeVelocities
    constraints := p.constraints.push c
    treeStarts := (of p).treeStarts
    contactCount := p.numContacts + if c.isContact then 1 else 0
    equationCount := p.numEquations + c.numEquations } := by
  have hequations : Problem.numEquations { p with constraints := p.constraints.push c } =
      p.numEquations + c.numEquations := by
    simp [Problem.numEquations, total_append]
  rw [of, Problem.numContacts_push, hequations]
  rfl

/-- A constraint is accepted with its index, or refused, as for the problem without its counts. -/
theorem apply_addConstraint (c : Constraint α) (p : Problem α) :
    apply (addConstraint c) (of p) = match p.addConstraint c with
    | .ok (p', i) => (.ok i, of p')
    | .error e => (.error e, of p) := by
  show apply (check (require (c.isContact = true → p.numContacts = p.numConstraints) _) >>= _) (of p) = match
    (require (c.isContact = true → p.numContacts = p.numConstraints) _ >>= _ :
      Outcome α (Problem α × Nat)) with
    | .ok (p', i) => (.ok i, of p')
    | .error e => (.error e, of p)
  rw [apply_check_bind]
  cases require (α := α) (c.isContact = true →
    p.numContacts = p.numConstraints) (.structural .contactAfterOther) with
  | error e => rfl
  | ok _ =>
    show apply (check (c.blocks.forM p.checkBlock) >>= _) (of p) = match
      (c.blocks.forM p.checkBlock >>= _ : Outcome α (Problem α × Nat)) with
      | .ok (p', i) => (.ok i, of p')
      | .error e => (.error e, of p)
    rw [apply_check_bind]
    cases c.blocks.forM p.checkBlock with
    | error e => rfl
    | ok _ =>
      have hindex : (p.constraints.push c).size - 1 = p.numConstraints := by simp [Problem.numConstraints]
      show apply _ (of p) = (.ok p.numConstraints, of { p with constraints := p.constraints.push c })
      rw [of_push, ← hindex]
      cases hc : c.isContact <;> rfl

/-! ### Sequences of calls -/

variable [Scalar α]

/-- A problem without trees and constraints, which is then reset. -/
def new (timeStep : α) (dynamics : List (Mat α)) (freeVelocities : Vec α) : Outcome α (CountedProblem α) := do
  require (0 < timeStep) (.invalidTimeStep timeStep)
  let (outcome, q) := apply (reset dynamics freeVelocities) ⟨⟨timeStep, #[], ⟨#[]⟩, #[]⟩, #[], 0, 0⟩
  outcome
  return q

/-- A new problem is the problem without its counts, with them. -/
theorem new_eq (timeStep : α) (dynamics : List (Mat α)) (freeVelocities : Vec α) :
    new timeStep dynamics freeVelocities = (Problem.new timeStep dynamics freeVelocities).map of := by
  rw [new, Problem.new]
  cases require (0 < timeStep) (.invalidTimeStep timeStep) with
  | error e => rfl
  | ok _ =>
    show (let (outcome, q) := apply (reset dynamics freeVelocities) _; (outcome >>= fun _ => pure q)) =
      (Problem.checkDynamics dynamics freeVelocities >>= _ : Outcome α (Problem α)).map of
    rw [apply_reset, Problem.reset]
    cases Problem.checkDynamics dynamics freeVelocities <;> rfl

/-- A problem that clients can have, with the counts that it should have. -/
structure Kept (q : CountedProblem α) : Prop where
  built : q.Built
  counts : q = of q.toProblem

end CountedProblem

namespace Problem

variable [Scalar α]

/-- What clients can ask for. Constraints come from their constructors. -/
inductive Call (α : Type) [Scalar α] where
  | new (timeStep : α) (dynamics : List (Mat α)) (freeVelocities : Vec α)
  | reset (dynamics : List (Mat α)) (freeVelocities : Vec α)
  | addConstraint (c : {c : Constraint α // c.Made})

/-- The reply to a call, and the problem that the client has then: the old one, unless the call gave
    another. -/
def settle (p : Option (Problem α)) : Outcome α (Option Nat × Problem α) →
    Outcome α (Option Nat) × Option (Problem α)
  | .ok (reply, q) => (.ok reply, some q)
  | .error e => (.error e, p)

/-- Performs a call. Without a problem there is nothing to reset or add to. -/
def Call.perform : Call α → Option (Problem α) → Outcome α (Option Nat) × Option (Problem α)
  | .new timeStep dynamics freeVelocities, p =>
    settle p ((Problem.new timeStep dynamics freeVelocities).map fun q => (none, q))
  | .reset _ _, none | .addConstraint _, none => (.ok none, none)
  | .reset dynamics freeVelocities, some p =>
    settle (some p) ((p.reset dynamics freeVelocities).map fun q => (none, q))
  | .addConstraint c, some p => settle (some p) ((p.addConstraint c.val).map fun (q, i) => (some i, q))

/-- The same with counts, where changes are assignments. -/
def Call.performCounted : Call α → Option (CountedProblem α) →
    Outcome α (Option Nat) × Option (CountedProblem α)
  | .new timeStep dynamics freeVelocities, q =>
    match CountedProblem.new timeStep dynamics freeVelocities with
    | .ok q => (.ok none, some q)
    | .error e => (.error e, q)
  | .reset _ _, none | .addConstraint _, none => (.ok none, none)
  | .reset dynamics freeVelocities, some q =>
    let (outcome, q) := Assigning.apply (CountedProblem.reset dynamics freeVelocities) q
    (outcome.map fun _ => none, some q)
  | .addConstraint c, some q =>
    let (outcome, q) := Assigning.apply (CountedProblem.addConstraint c.val) q
    (outcome.map some, some q)

/-- The problem after a sequence of calls. -/
def performAll (calls : List (Call α)) : Option (Problem α) :=
  calls.foldl (fun p call => (call.perform p).2) none

def performAllCounted (calls : List (Call α)) : Option (CountedProblem α) :=
  calls.foldl (fun q call => (call.performCounted q).2) none

variable {p : Option (Problem α)} {call : Call α}

/-- With its counts a problem answers as it does without, and goes on with its counts. -/
theorem Call.performCounted_eq (call : Call α) (p : Option (Problem α)) :
    call.performCounted (p.map .of) = ((call.perform p).1, (call.perform p).2.map .of) := by
  cases call with
  | new timeStep dynamics freeVelocities =>
    rw [performCounted, perform, CountedProblem.new_eq]
    cases Problem.new timeStep dynamics freeVelocities <;> rfl
  | reset dynamics freeVelocities =>
    cases p with
    | none => rfl
    | some p =>
      have hreset : (CountedProblem.of p).toProblem.reset dynamics freeVelocities =
        p.reset dynamics freeVelocities := rfl
      rw [Option.map_some, performCounted, perform, CountedProblem.apply_reset, hreset]
      cases p.reset dynamics freeVelocities <;> rfl
  | addConstraint c =>
    cases p with
    | none => rfl
    | some p =>
      rw [Option.map_some, performCounted, perform, CountedProblem.apply_addConstraint]
      cases p.addConstraint c.val <;> rfl

theorem performAllCounted_eq (calls : List (Call α)) :
    performAllCounted calls = (performAll calls).map .of := by
  suffices h : ∀ p : Option (Problem α), calls.foldl (fun q call => (call.performCounted q).2) (p.map .of) =
      (calls.foldl (fun p call => (call.perform p).2) p).map .of from h none
  induction calls with
  | nil => exact fun _ => rfl
  | cons call calls ih =>
    intro p
    rw [List.foldl_cons, List.foldl_cons, call.performCounted_eq]
    exact ih _

theorem settle_built {x : Outcome α (Option Nat × Problem α)} (hp : ∀ r, p = some r → r.Built)
    (hx : ∀ q, x.map Prod.snd = .ok q → q.Built) : ∀ r, (settle p x).2 = some r → r.Built := by
  cases x with
  | error e => exact hp
  | ok result => exact fun r hr => Option.some.inj hr ▸ hx _ rfl

/-- What a call gives is a problem that clients can have. -/
theorem Call.perform_built (call : Call α) (hp : ∀ r, p = some r → r.Built) :
    ∀ r, (call.perform p).2 = some r → r.Built := by
  cases call with
  | new timeStep dynamics freeVelocities =>
    refine settle_built hp fun q hq => ?_
    cases hnew : Problem.new timeStep dynamics freeVelocities <;> rw [hnew] at hq <;> cases hq
    exact .new hnew
  | reset dynamics freeVelocities =>
    cases p with
    | none => exact hp
    | some p =>
      refine settle_built hp fun q hq => ?_
      cases hreset : p.reset dynamics freeVelocities <;> rw [hreset] at hq <;> cases hq
      exact .reset (hp p rfl) hreset
  | addConstraint c =>
    cases p with
    | none => exact hp
    | some p =>
      refine settle_built hp fun q hq => ?_
      cases hadd : p.addConstraint c.val <;> rw [hadd] at hq <;> cases hq
      exact .addConstraint (hp p rfl) c.property hadd

theorem built_performAll (calls : List (Call α)) : ∀ p, performAll calls = some p → p.Built := by
  suffices h : ∀ p : Option (Problem α), (∀ r, p = some r → r.Built) →
      ∀ r, calls.foldl (fun p call => (call.perform p).2) p = some r →
      r.Built from h none fun _ hr => nomatch hr
  induction calls with
  | nil => exact fun p hp => hp
  | cons call calls ih => exact fun p hp => ih _ (call.perform_built hp)

omit [Scalar α] in
theorem settle_of_error {x : Outcome α (Option Nat × Problem α)} {e : Failure α}
    (h : (settle p x).1 = .error e) :
    (settle p x).2 = p := by
  cases x with
  | error e => rfl
  | ok result => cases h

/-- A call that fails changes nothing, with the counts as without. -/
theorem Call.perform_of_error {e : Failure α} (h : (call.perform p).1 = .error e) :
    (call.perform p).2 = p := by
  cases call with
  | new timeStep dynamics freeVelocities => exact settle_of_error h
  | reset dynamics freeVelocities =>
    cases p with
    | none => rfl
    | some p => exact settle_of_error h
  | addConstraint c =>
    cases p with
    | none => rfl
    | some p => exact settle_of_error h

theorem kept_performAllCounted {calls : List (Call α)} {q : CountedProblem α}
    (h : performAllCounted calls = some q) : q.Kept := by
  rw [performAllCounted_eq] at h
  obtain ⟨p, hp, rfl⟩ := Option.map_eq_some_iff.mp h
  exact ⟨built_performAll calls p hp, rfl⟩

theorem Call.performCounted_of_error {e : Failure α} (h : (call.performCounted (p.map .of)).1 = .error e) :
    (call.performCounted (p.map .of)).2 = p.map .of := by
  rw [call.performCounted_eq] at h ⊢
  rw [perform_of_error h]

end Problem

end CompliantContact
