import CompliantContact.Problem
import CompliantContact.Proofs.Outcome

/-!
Constraints and problems as clients can make them, and what the checks on the way ensure.
-/

namespace CompliantContact

variable {α : Type}

theorem Problem.size_of_checkDynamics {dynamics : List (Mat α)} {freeVelocities : Vec α}
    (h : checkDynamics dynamics freeVelocities = .ok ()) :
    freeVelocities.size = total (dynamics.map Mat.rows) := by
  rw [checkDynamics, Outcome.bind_eq_ok_iff] at h
  obtain ⟨_, -, h⟩ := h
  exact (requireSize_eq_ok_iff.mp h).symm

theorem Problem.square_of_checkDynamics {dynamics : List (Mat α)} {freeVelocities : Vec α}
    (h : checkDynamics dynamics freeVelocities = .ok ()) : ∀ a ∈ dynamics, a.cols = a.rows := by
  rw [checkDynamics, Outcome.bind_eq_ok_iff] at h
  obtain ⟨_, hsquare, -⟩ := h
  exact fun a ha => (requireSize_eq_ok_iff.mp (Outcome.forM_eq_ok_iff.mp hsquare a ha)).symm

theorem Problem.constraint?_eq (p : Problem α) (k : Nat) : p.constraint? k = p.constraints.toList[k]? := by
  rw [constraint?, Array.getElem?_toList]

variable [Scalar α]

/-- A constraint that one of the constructors gave. -/
inductive Constraint.Made : Constraint α → Prop where
  | cone {blocks : List (JacobianBlock α)} {phi : α} {p : ConeParameters α} {c : Constraint α}
      (h : Constraint.cone blocks phi p = .ok c) : Made c
  | limit {tree : TreeIndex} {dof size : Nat} {q0 : α} {p : LimitParameters α} {c : Constraint α}
      (h : Constraint.limit tree dof size q0 p = .ok c) : Made c
  | holonomic {blocks : List (JacobianBlock α)} {g0 : Vec α} {p : HolonomicParameters α} {c : Constraint α}
      (h : Constraint.holonomic blocks g0 p = .ok c) : Made c

/-- A problem that was made new, or reset, with constraints added. -/
inductive Problem.Built : Problem α → Prop where
  | new {timeStep : α} {dynamics : List (Mat α)} {freeVelocities : Vec α} {p : Problem α}
      (h : Problem.new timeStep dynamics freeVelocities = .ok p) : Built p
  | reset {p q : Problem α} {dynamics : List (Mat α)} {freeVelocities : Vec α} (hp : Built p)
      (h : p.reset dynamics freeVelocities = .ok q) : Built q
  | addConstraint {p q : Problem α} {c : Constraint α} {i : Nat} (hp : Built p) (hc : c.Made)
      (h : p.addConstraint c = .ok (q, i)) : Built q

namespace Constraint

/-- The parameters of a constraint are in range. -/
def InRange (c : Constraint α) : Prop :=
  match c.kind with
  | .cone p =>
    c.numEquations = 3 ∧ 0 ≤ p.mu ∧ 0 < p.stiffness ∧ 0 ≤ p.dissipationTime ∧ 0 < p.beta ∧ 0 < p.sigma
  | .limit _ p => 0 < p.stiffness ∧ 0 ≤ p.dissipationTime ∧ 0 < p.beta
  | .holonomic p => 0 < p.beta ∧ ∀ i < c.numEquations, holonomicEquationOk p i = true

namespace InRange

variable {c : Constraint α}

theorem cone {p : ConeParameters α} (hc : c.InRange) (hkind : c.kind = .cone p) :
    c.numEquations = 3 ∧ 0 ≤ p.mu ∧ 0 < p.stiffness ∧ 0 ≤ p.dissipationTime ∧ 0 < p.beta ∧ 0 < p.sigma := by
  simpa only [InRange, hkind] using hc

theorem limit {q0 : α} {p : LimitParameters α} (hc : c.InRange) (hkind : c.kind = .limit q0 p) :
    0 < p.stiffness ∧ 0 ≤ p.dissipationTime ∧ 0 < p.beta := by
  simpa only [InRange, hkind] using hc

theorem holonomic {p : HolonomicParameters α} (hc : c.InRange) (hkind : c.kind = .holonomic p) :
    0 < p.beta ∧ ∀ i < c.numEquations, Bound.ordered (p.lower.getD i none) (p.upper.getD i none) = true ∧
      (p.stiffness.getD i none).all (0 < ·) = true ∧ 0 ≤ p.relaxationTime i := by
  simpa only [InRange, hkind, holonomicEquationOk, Bool.and_eq_true, decide_eq_true_eq, and_assoc] using hc

end InRange

variable {c : Constraint α}

omit [Scalar α] in
theorem isContact_iff : c.isContact = true ↔ ∃ p, c.kind = .cone p := by
  cases hkind : c.kind <;> simp [isContact, hkind]

theorem InRange.numEquations_of_isContact (hc : c.InRange) (hcontact : c.isContact = true) :
    c.numEquations = 3 := by
  obtain ⟨p, hkind⟩ := isContact_iff.mp hcontact
  exact (hc.cone hkind).1

theorem size_regularization (hc : c.InRange) (dt w : α) : (c.regularization dt w).size = c.numEquations := by
  cases hkind : c.kind with
  | cone p =>
    simp only [regularization, hkind, Vec.size_ofList]
    exact (hc.cone hkind).1.symm
  | limit q0 p => simp only [regularization, hkind, Vec.replicate, Vec.size_ofFn]
  | holonomic p => simp only [regularization, hkind, Vec.size_ofFn]

theorem size_bias (hc : c.InRange) (dt : α) : (c.bias dt).size = c.numEquations := by
  cases hkind : c.kind with
  | cone p =>
    simp only [bias, hkind, Vec.size_ofList]
    exact (hc.cone hkind).1.symm
  | limit q0 p =>
    simp only [bias, hkind]
    exact (Vec.size_ofFn ..).trans (Vec.size_ofFn ..)
  | holonomic p => simp only [bias, hkind, Vec.size_ofFn]

open Outcome in
theorem Made.inRange {c : Constraint α} (h : c.Made) : c.InRange := by
  cases h with
  | cone h =>
    rw [Constraint.cone, require_bind_eq_ok_iff, checkFactors, require_bind_eq_ok_iff, bind_eq_ok_iff] at h
    obtain ⟨⟨hmu, hstiffness, hdissipation⟩, ⟨hbeta, hsigma⟩, ⟨first, second⟩, -, h⟩ := h
    cases h
    exact ⟨rfl, hmu, hstiffness, hdissipation, hbeta, by simpa using hsigma⟩
  | limit h =>
    rw [Constraint.limit, require_bind_eq_ok_iff, require_bind_eq_ok_iff, checkFactors,
      require_bind_eq_ok_iff] at h
    obtain ⟨-, ⟨-, hstiffness, hdissipation⟩, ⟨hbeta, -⟩, h⟩ := h
    simp only [require_bind_eq_ok_iff] at h
    obtain ⟨-, h⟩ := h
    cases h
    exact ⟨hstiffness, hdissipation, hbeta⟩
  | holonomic h =>
    simp only [Constraint.holonomic, bind_eq_ok_iff] at h
    obtain ⟨_, -, _, -, _, -, _, -, _, hrows, _, hfactors, ⟨first, second⟩, -, h⟩ := h
    cases h
    refine ⟨(require_eq_ok_iff.mp hfactors).1, fun i hi => ?_⟩
    exact require_eq_ok_iff.mp (forM_eq_ok_iff.mp hrows i (List.mem_range.mpr hi))

end Constraint

namespace Problem

/-- What the checks on the way to a problem ensure. -/
structure Valid (p : Problem α) : Prop where
  timeStep_pos : 0 < p.timeStep
  size : p.freeVelocities.size = total (p.dynamics.toList.map Mat.rows)
  made : ∀ c ∈ p.constraints.toList, c.Made

open Outcome

theorem Built.valid {p : Problem α} (h : p.Built) : p.Valid := by
  induction h with
  | new h =>
    rw [Problem.new, require_bind_eq_ok_iff, bind_eq_ok_iff] at h
    obtain ⟨hpos, _, hcheck, h⟩ := h
    cases h
    exact ⟨hpos, size_of_checkDynamics hcheck, nofun⟩
  | reset _ h ih =>
    rw [Problem.reset, bind_eq_ok_iff] at h
    obtain ⟨_, hcheck, h⟩ := h
    cases h
    exact ⟨ih.timeStep_pos, size_of_checkDynamics hcheck, nofun⟩
  | addConstraint _ hc h ih =>
    rw [Problem.addConstraint, require_bind_eq_ok_iff, bind_eq_ok_iff] at h
    obtain ⟨-, _, -, h⟩ := h
    cases h
    refine ⟨ih.timeStep_pos, ih.size, fun c hmem => ?_⟩
    rw [Array.toList_push, List.mem_append, List.mem_singleton] at hmem
    rcases hmem with hmem | rfl
    · exact ih.made c hmem
    · exact hc

/-- The matrices of the trees are square. -/
theorem Built.square {p : Problem α} (h : p.Built) : ∀ a ∈ p.dynamics.toList, a.cols = a.rows := by
  induction h with
  | new h =>
    rw [Problem.new, require_bind_eq_ok_iff, bind_eq_ok_iff] at h
    obtain ⟨-, _, hcheck, h⟩ := h
    cases h
    exact square_of_checkDynamics hcheck
  | reset _ h _ =>
    rw [Problem.reset, bind_eq_ok_iff] at h
    obtain ⟨_, hcheck, h⟩ := h
    cases h
    exact square_of_checkDynamics hcheck
  | addConstraint _ _ h ih =>
    rw [Problem.addConstraint, require_bind_eq_ok_iff, bind_eq_ok_iff] at h
    obtain ⟨-, _, -, h⟩ := h
    cases h
    exact ih

end Problem

end CompliantContact
