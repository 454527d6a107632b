import CompliantContact.Contact.Frame
import CompliantContact.Proofs.Space.Length
import Mathlib.LinearAlgebra.Matrix.Determinant.Basic

/-!
The frames of contacts are rotations.

A frame is made from one direction. A coordinate axis, less its part along the direction, gives the
tangent, and the cross product of the two the third axis. The coordinate axis is never so near the
direction that nothing is left of it, so the axes are orthonormal and right-handed, and they stay so as
they are passed round (`ContactFrame.alongAxis_rotation`).
-/

namespace CompliantContact

/-! ### Orthonormal triples -/

namespace Vec3

/-- Unit vectors at right angles to each other, in the order of a right hand. -/
structure IsFrame (u v w : Vec3 ℝ) : Prop where
  unit : u.dot u = 1 ∧ v.dot v = 1 ∧ w.dot w = 1
  orthogonal : u.dot v = 0 ∧ v.dot w = 0 ∧ w.dot u = 0
  volume : u.dot (v.cross w) = 1

variable {n t u v w : Vec3 ℝ}

/-- Passed round, the vectors stay in the order of the hand; two of them exchanged would not. -/
theorem IsFrame.rotate (h : IsFrame u v w) : IsFrame v w u := by
  obtain ⟨⟨hu, hv, hw⟩, ⟨huv, hvw, hwu⟩, hvolume⟩ := h
  refine ⟨⟨hv, hw, hu⟩, ⟨hvw, hwu, huv⟩, ?_⟩
  rw [dot_comm, ← dot_cross]
  exact hvolume

theorem isFrame_units : IsFrame unitX unitY unitZ := by
  constructor <;> simp [dot, cross, unitX, unitY, unitZ]

theorem cross_dot_self (n t : Vec3 ℝ) : (n.cross t).dot (n.cross t) = n.dot n * t.dot t - n.dot t ^ 2 := by
  simp only [dot, cross]
  ring

theorem dot_cross_cross (n t : Vec3 ℝ) : t.dot ((n.cross t).cross n) = n.dot n * t.dot t - n.dot t ^ 2 := by
  simp only [dot, cross]
  ring

/-- Two unit vectors at right angles, with their cross product between them. -/
theorem isFrame_of_orthogonal (hn : n.dot n = 1) (ht : t.dot t = 1) (horthogonal : n.dot t = 0) :
    IsFrame t (n.cross t) n := by
  have hone : n.dot n * t.dot t - n.dot t ^ 2 = 1 := by
    rw [hn, ht, horthogonal]
    ring
  refine ⟨⟨ht, (cross_dot_self n t).trans hone, hn⟩, ⟨?_, ?_, horthogonal⟩, (dot_cross_cross n t).trans hone⟩
  · simp only [dot, cross]
    ring
  · simp only [dot, cross]
    ring

/-! Without its part along a unit vector. -/

theorem dot_sub_along (hn : n.dot n = 1) (u : Vec3 ℝ) : n.dot (u - n * n.dot u) = 0 := by
  rw [dot_sub, dot_mul, hn, one_mul, sub_self]

theorem sq_norm_sub_along (hn : n.dot n = 1) (u : Vec3 ℝ) :
    (u - n * n.dot u).norm ^ 2 = u.dot u - n.dot u ^ 2 := by
  have hexpand : (u - n * n.dot u).dot (u - n * n.dot u) =
      u.dot u - 2 * n.dot u ^ 2 + n.dot n * n.dot u ^ 2 := by
    simp only [dot, sub_x, sub_y, sub_z, mul_x, mul_y, mul_z]
    ring
  rw [sq_norm, hexpand, hn]
  ring

theorem dot_div (u v : Vec3 ℝ) (x : ℝ) : u.dot (v / x) = u.dot v / x := by
  simp only [dot, div_x, div_y, div_z]
  ring

end Vec3

namespace Mat3

/-- The matrix by rows and columns. -/
noncomputable def toMatrix (m : Mat3 ℝ) : Matrix (Fin 3) (Fin 3) ℝ := .of fun i j => m.get i j

variable {m : Mat3 ℝ}

theorem transpose_mul_toMatrix (m : Mat3 ℝ) (i j : Fin 3) :
    (m.toMatrix.transpose * m.toMatrix) i j = (m.column i).dot (m.column j) := by
  rw [Matrix.mul_apply, Fin.sum_univ_three]
  rfl

theorem det_toMatrix (m : Mat3 ℝ) : m.toMatrix.det = m.x.dot (m.y.cross m.z) := by
  rw [Matrix.det_fin_three]
  show m.x.x * m.y.y * m.z.z - m.x.x * m.z.y * m.y.z - m.y.x * m.x.y * m.z.z + m.y.x * m.z.y * m.x.z +
    m.z.x * m.x.y * m.y.z - m.z.x * m.y.y * m.x.z = _
  rw [Vec3.dot, Vec3.cross]
  ring

/-- A matrix of orthonormal columns in the order of a right hand is a rotation. -/
theorem transpose_mul_and_det (h : Vec3.IsFrame m.x m.y m.z) :
    m.toMatrix.transpose * m.toMatrix = 1 ∧ m.toMatrix.det = 1 := by
  obtain ⟨⟨hx, hy, hz⟩, ⟨hxy, hyz, hzx⟩, hvolume⟩ := h
  refine ⟨Matrix.ext fun i j => ?_, (det_toMatrix m).trans hvolume⟩
  rw [transpose_mul_toMatrix, Matrix.one_apply]
  fin_cases i <;> fin_cases j
  · exact hx
  · exact hxy
  · exact (Vec3.dot_comm _ _).trans hzx
  · exact (Vec3.dot_comm _ _).trans hxy
  · exact hy
  · exact hyz
  · exact hzx
  · exact (Vec3.dot_comm _ _).trans hyz
  · exact hz

end Mat3

/-! ### The frame of a direction -/

namespace ContactFrame

variable {b n : Vec3 ℝ}

/-- The coordinate axis that the tangent of a direction is made from. -/
noncomputable def reference (n : Vec3 ℝ) : Vec3 ℝ := if Scalar.abs n.x < steep then .unitX else .unitY

/-- What is left of the coordinate axis without its part along the direction. -/
noncomputable def tangent (n : Vec3 ℝ) : Vec3 ℝ := reference n - n * n.dot (reference n)

theorem minNormalNorm_eq : (minNormalNorm : ℝ) = 1 / 10 ^ 10 := by
  norm_num [minNormalNorm, Scalar.decimal]

theorem steep_eq : (steep : ℝ) = 9 / 10 := by
  norm_num [steep, Scalar.decimal]

theorem basis_of_short (h : b.norm < minNormalNorm) : basis b = .identity := by
  rw [basis]
  exact if_pos (.inr h)

theorem basis_of_long (h : minNormalNorm ≤ b.norm) :
    basis b = ⟨tangent (b / b.norm) / (tangent (b / b.norm)).norm,
      (b / b.norm).cross (tangent (b / b.norm) / (tangent (b / b.norm)).norm), b / b.norm⟩ := by
  rw [basis]
  exact if_neg (by simpa using h)

theorem norm_pos_of_long (h : minNormalNorm ≤ b.norm) : 0 < b.norm := by
  rw [minNormalNorm_eq] at h
  exact lt_of_lt_of_le (by norm_num) h

theorem dot_self_reference (n : Vec3 ℝ) : (reference n).dot (reference n) = 1 := by
  rw [reference]
  split_ifs <;> simp [Vec3.dot, Vec3.unitX, Vec3.unitY]

/-- A direction that is steep along the first axis is nearly at right angles to the second. -/
theorem sq_dot_reference_lt (hn : n.dot n = 1) : n.dot (reference n) ^ 2 < 81 / 100 := by
  rw [reference, Scalar.abs_eq_abs, steep_eq]
  split_ifs with hflat
  · have hx : n.dot .unitX = n.x := by simp [Vec3.dot, Vec3.unitX]
    rw [hx, ← sq_abs]
    nlinarith [abs_nonneg n.x]
  · have hy : n.dot .unitY = n.y := by simp [Vec3.dot, Vec3.unitY]
    have hsteep : 81 / 100 ≤ n.x ^ 2 := by
      rw [← sq_abs]
      nlinarith [not_lt.mp hflat]
    rw [hy]
    rw [Vec3.dot] at hn
    nlinarith [mul_self_nonneg n.z]

/-- The tangent is never short, and so there is no zero to normalize. -/
theorem norm_tangent_pos (hn : n.dot n = 1) : 0 < (tangent n).norm := by
  have hsq : (tangent n).norm ^ 2 = 1 - n.dot (reference n) ^ 2 := by
    rw [tangent, Vec3.sq_norm_sub_along hn, dot_self_reference]
  have hpos : 0 < (tangent n).norm ^ 2 := by
    rw [hsq]
    linarith [sq_dot_reference_lt hn]
  exact lt_of_le_of_ne (Vec3.norm_nonneg _) fun hzero => by
    rw [← hzero] at hpos
    norm_num at hpos

theorem isFrame_basis (b : Vec3 ℝ) : Vec3.IsFrame (basis b).x (basis b).y (basis b).z := by
  rcases lt_or_ge b.norm minNormalNorm with hshort | hlong
  · rw [basis_of_short hshort]
    exact Vec3.isFrame_units
  · have hn : (b / b.norm).dot (b / b.norm) = 1 :=
      Vec3.dot_self_of_norm (Vec3.norm_div_self (norm_pos_of_long hlong).ne')
    have ht := Vec3.dot_self_of_norm (Vec3.norm_div_self (norm_tangent_pos hn).ne')
    rw [basis_of_long hlong]
    refine Vec3.isFrame_of_orthogonal hn ht ?_
    rw [Vec3.dot_div, tangent, Vec3.dot_sub_along hn, zero_div]

/-- The basis passed round, so that its third vector is along the axis with the given number. -/
theorem alongAxis_eq (b : Vec3 ℝ) (axis : ℕ) :
    axis % 3 = 0 ∧ alongAxis b axis = ⟨(basis b).z, (basis b).x, (basis b).y⟩ ∨
    axis % 3 = 1 ∧ alongAxis b axis = ⟨(basis b).y, (basis b).z, (basis b).x⟩ ∨
    axis % 3 = 2 ∧ alongAxis b axis = basis b := by
  have hcases : axis % 3 = 0 ∨ axis % 3 = 1 ∨ axis % 3 = 2 := by omega
  rcases hcases with haxis | haxis | haxis
  · refine .inl ⟨haxis, ?_⟩
    rw [alongAxis, haxis]
    rfl
  · refine .inr (.inl ⟨haxis, ?_⟩)
    rw [alongAxis, haxis]
    rfl
  · refine .inr (.inr ⟨haxis, ?_⟩)
    rw [alongAxis, haxis]
    rfl

theorem isFrame_alongAxis (b : Vec3 ℝ) (axis : ℕ) :
    Vec3.IsFrame (alongAxis b axis).x (alongAxis b axis).y (alongAxis b axis).z := by
  have hbasis := isFrame_basis b
  rcases alongAxis_eq b axis with ⟨-, heq⟩ | ⟨-, heq⟩ | ⟨-, heq⟩ <;> rw [heq]
  · exact hbasis.rotate.rotate
  · exact hbasis.rotate
  · exact hbasis

theorem alongAxis_two (b : Vec3 ℝ) : alongAxis b 2 = basis b := by
  rw [alongAxis]
  rfl

/-- The third axis of a contact frame is along the direction that it is made for. -/
theorem alongAxis_z (h : minNormalNorm ≤ b.norm) : (alongAxis b 2).z = b / b.norm := by
  rw [alongAxis_two, basis_of_long h]

/-- The third vector of the basis stands at the axis with the given number, and the first one after it. -/
theorem column_alongAxis (b : Vec3 ℝ) (axis : ℕ) : (alongAxis b axis).column (axis % 3) = (basis b).z ∧
    (alongAxis b axis).column ((axis + 1) % 3) = (basis b).x := by
  rcases alongAxis_eq b axis with ⟨haxis, heq⟩ | ⟨haxis, heq⟩ | ⟨haxis, heq⟩ <;>
    rw [heq, Nat.add_mod, haxis] <;>
    exact ⟨rfl, rfl⟩

/-- Whatever vector it is made for, and whichever of its axes is along it, a frame is a rotation. The
    axis is the direction of the vector unless this is very short, and the one after it the tangent,
    which is never zero before it is normalized. -/
theorem alongAxis_rotation (b : Vec3 ℝ) (axis : ℕ) :
    (alongAxis b axis).toMatrix.transpose * (alongAxis b axis).toMatrix = 1 ∧
    (alongAxis b axis).toMatrix.det = 1 ∧
      (1 / 10 ^ 10 ≤ b.norm →
        (alongAxis b axis).column (axis % 3) = b / b.norm ∧
        (alongAxis b axis).column ((axis + 1) % 3) = tangent (b / b.norm) / (tangent (b / b.norm)).norm ∧
        0 < (tangent (b / b.norm)).norm) := by
  obtain ⟨horthogonal, hdet⟩ := Mat3.transpose_mul_and_det (isFrame_alongAxis b axis)
  refine ⟨horthogonal, hdet, fun hlong => ?_⟩
  rw [← minNormalNorm_eq] at hlong
  have hn : (b / b.norm).norm = 1 := Vec3.norm_div_self (norm_pos_of_long hlong).ne'
  obtain ⟨hdirection, htangent⟩ := column_alongAxis b axis
  rw [basis_of_long hlong] at hdirection htangent
  exact ⟨hdirection, htangent, norm_tangent_pos (Vec3.dot_self_of_norm hn)⟩

/-- A direction just as steep as to change the coordinate axis. -/
noncomputable def slope : Vec3 ℝ := ⟨(9 : ℕ), (3 : ℕ), √(10 : ℕ)⟩

theorem norm_slope : slope.norm = 10 := by
  have hsq : slope.normSq = 10 ^ 2 := by
    have hroot : √(10 : ℕ) * √(10 : ℕ) = ((10 : ℕ) : ℝ) := Real.mul_self_sqrt (Nat.cast_nonneg _)
    rw [slope, Vec3.normSq, Vec3.dot, hroot]
    norm_num
  rw [Vec3.norm, hsq, Scalar.sqrt_eq, Real.sqrt_sq (by norm_num)]

theorem reference_slope : reference (slope / slope.norm) = .unitY := by
  have hx : (slope / slope.norm).x = 9 / 10 := by
    rw [norm_slope]
    rfl
  rw [reference, Scalar.abs_eq_abs, hx, steep_eq, if_neg (by norm_num [abs_of_pos])]

theorem alongAxis_rotation_slope : 1 / 10 ^ 10 ≤ slope.norm ∧ reference (slope / slope.norm) = .unitY ∧
    (alongAxis slope 7).toMatrix.transpose * (alongAxis slope 7).toMatrix = 1 ∧
    (alongAxis slope 7).toMatrix.det = 1 ∧
      (alongAxis slope 7).y = ⟨9 / 10, 3 / 10, √10 / 10⟩ ∧ 0 < (tangent (slope / slope.norm)).norm := by
  have hlong : 1 / 10 ^ 10 ≤ slope.norm := by
    rw [norm_slope]
    norm_num
  obtain ⟨horthogonal, hdet, haxes⟩ := alongAxis_rotation slope 7
  obtain ⟨hdirection, -, htangent⟩ := haxes hlong
  rw [norm_slope] at hdirection
  exact ⟨hlong, reference_slope, horthogonal, hdet, hdirection, htangent⟩

end ContactFrame

end CompliantContact
