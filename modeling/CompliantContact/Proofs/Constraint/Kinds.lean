import CompliantContact.Constraint.Projection
import CompliantContact.Proofs.Problem.Built
import CompliantContact.Proofs.Real
import Mathlib.Tactic.Ring

/-!
The projections of the three kinds of constraints.

A contact takes the projection onto its cone, with the ratio of the regularizations. A limit and a
holonomic constraint treat each equation by itself, so their slopes are diagonal.
-/

namespace CompliantContact.Constraint

variable {c : Constraint ℝ} {y r rInv : Vec ℝ} {i j : ℕ}

/-! ### Contacts -/

theorem get_mul_diagonal (m : Mat3 ℝ) (d : Vec3 ℝ) (i j : ℕ) :
    (m * Mat3.diagonal d).get i j = m.get i j * d.get j := by
  show (Mat3.mul m (Mat3.diagonal d)).get i j = _
  rcases i with _ | _ | _ | i <;> rcases j with _ | _ | _ | j <;>
    simp [Mat3.get, Mat3.column, Mat3.mul, Mat3.mulVec, Mat3.diagonal, Vec3.get]

theorem get_ofList_toList (u : Vec3 ℝ) : (Vec.ofList u.toList).get = u.get := by
  funext i
  rcases i with _ | _ | _ | i <;> rfl

theorem get_ofFn_three (m : Mat3 ℝ) : (Mat.ofFn 3 3 m.get).get = m.get := by
  funext i j
  rw [Mat.get_ofFn]
  split_ifs with h
  · rfl
  · rcases i with _ | _ | _ | i <;> rcases j with _ | _ | _ | j <;> first | rfl | omega

/-- The ratio that the projection of a contact takes from the regularization. -/
theorem cone_impulse {p : ConeParameters ℝ} (hkind : c.kind = .cone p) (hr : 0 < r 2) :
    (c.project y r rInv).impulse =
      .ofList (FrictionCone.project ⟨y 0, y 1, y 2⟩ p.mu (p.mu * r 0 / r 2)).1.toList := by
  simp only [project, hkind, Scalar.isFinite_eq, hr, and_self, if_true]

theorem cone_slope {p : ConeParameters ℝ} (hkind : c.kind = .cone p) (hr : 0 < r 2) (hj : j < 3) :
    (c.project y r rInv).slope i j =
      (FrictionCone.project ⟨y 0, y 1, y 2⟩ p.mu (p.mu * r 0 / r 2)).2.get i j * rInv j := by
  simp only [project, hkind, Scalar.isFinite_eq, hr, and_self, if_true]
  rw [get_ofFn_three, get_mul_diagonal]
  congr 1
  match j, hj with
  | 0, _ | 1, _ | 2, _ => rfl

/-! ### Limits and holonomic constraints -/

/-- The impulse of a limit is the positive part. -/
noncomputable def limitRow (y : ℝ) : ℝ × Bool := if 0 < y then (y, true) else (0, false)

theorem limit_impulse {q0 : ℝ} {p : LimitParameters ℝ} (hkind : c.kind = .limit q0 p) (hi : i < y.size) :
    (c.project y r rInv).impulse i = (limitRow (y i)).1 := by
  simp only [project, hkind]
  exact Vec.get_ofFn_of_lt hi

theorem holonomic_impulse {p : HolonomicParameters ℝ} (hkind : c.kind = .holonomic p) (hi : i < y.size) :
    (c.project y r rInv).impulse i = (clampRow (p.lower.getD i none) (p.upper.getD i none) (y i)).1 := by
  simp only [project, hkind]
  exact Vec.get_ofFn_of_lt hi

theorem get_projectRows_slope {row : ℕ → ℝ × Bool} (hi : i < y.size) (hj : j < y.size) :
    (projectRows y rInv row).slope i j = if i = j ∧ (row i).2 = true then rInv i else 0 :=
      Mat.get_ofFn_of_lt hi hj

theorem limit_slope {q0 : ℝ} {p : LimitParameters ℝ} (hkind : c.kind = .limit q0 p) (hi : i < y.size)
    (hj : j < y.size) :
    (c.project y r rInv).slope i j = if i = j ∧ (limitRow (y i)).2 = true then rInv i else 0 := by
  simp only [project, hkind]
  exact get_projectRows_slope hi hj

theorem holonomic_slope {p : HolonomicParameters ℝ} (hkind : c.kind = .holonomic p) (hi : i < y.size)
    (hj : j < y.size) :
    (c.project y r rInv).slope i j =
      if i = j ∧ (clampRow (p.lower.getD i none) (p.upper.getD i none) (y i)).2 = true then rInv i
        else 0 := by
  simp only [project, hkind]
  exact get_projectRows_slope hi hj

/-! ### Any constraint -/

/-- A projection has an entry for each equation. -/
theorem shape_project (hc : c.InRange) (hy : y.size = c.numEquations) :
    (c.project y r rInv).impulse.size = c.numEquations ∧
    (c.project y r rInv).slope.rows = c.numEquations ∧ (c.project y r rInv).slope.cols = c.numEquations := by
  cases hkind : c.kind with
  | cone p =>
    have hthree := (hc.cone hkind).1.symm
    simp only [project, hkind, Vec.size_ofList, Mat.rows_ofFn, Mat.cols_ofFn]
    exact ⟨hthree, hthree, hthree⟩
  | limit q0 p =>
    simp only [project, hkind, projectRows, Vec.size_ofFn, Mat.rows_ofFn, Mat.cols_ofFn]
    exact ⟨hy, hy, hy⟩
  | holonomic p =>
    simp only [project, hkind, projectRows, Vec.size_ofFn, Mat.rows_ofFn, Mat.cols_ofFn]
    exact ⟨hy, hy, hy⟩

theorem size_project (hc : c.InRange) (hy : y.size = c.numEquations) :
    (c.project y r rInv).impulse.size = c.numEquations :=
  (shape_project hc hy).1

theorem rows_slope (hc : c.InRange) (hy : y.size = c.numEquations) :
    (c.project y r rInv).slope.rows = c.numEquations :=
  (shape_project hc hy).2.1

theorem cols_slope (hc : c.InRange) (hy : y.size = c.numEquations) :
    (c.project y r rInv).slope.cols = c.numEquations :=
  (shape_project hc hy).2.2

end CompliantContact.Constraint
