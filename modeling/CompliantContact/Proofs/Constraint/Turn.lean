import CompliantContact.Proofs.Constraint.Cone
import CompliantContact.Proofs.Constraint.Kinds
import CompliantContact.Proofs.Dense.Algebra
import CompliantContact.Proofs.Constraint.Regularization
import Mathlib.LinearAlgebra.UnitaryGroup

/-!
Turns of the tangential equations of a contact.

The axes along which the tangential equations of a contact are written down can be any two that are
orthonormal. A turn exchanges one such pair for another, and so it may also reflect. It acts on whatever
has an entry for each equation of the contact, and keeps sums of products over the equations. The
projection of a contact follows it: the impulse turns with the unconstrained one, and the slope with
both of its indices.
-/

namespace CompliantContact

open Finset

/-- An orthogonal matrix of the tangential plane. -/
abbrev Turn : Type := Matrix.orthogonalGroup (Fin 2) ℝ

namespace Turn

variable {q : Turn} {u w : ℕ → ℝ} {n i j : ℕ}

theorem rows_orthonormal (q : Turn) :
    q.1 0 0 * q.1 0 0 + q.1 0 1 * q.1 0 1 = 1 ∧ q.1 1 0 * q.1 1 0 + q.1 1 1 * q.1 1 1 = 1 ∧
      q.1 0 0 * q.1 1 0 + q.1 0 1 * q.1 1 1 = 0 := by
  have hproduct := (Matrix.mem_orthogonalGroup_iff (Fin 2) ℝ).mp q.2
  have hentry := fun i j => congrFun (congrFun hproduct i) j
  simp only [Matrix.mul_apply, Matrix.transpose_apply, Fin.sum_univ_two] at hentry
  exact ⟨hentry 0 0, hentry 1 1, hentry 0 1⟩

theorem columns_orthonormal (q : Turn) :
    q.1 0 0 * q.1 0 0 + q.1 1 0 * q.1 1 0 = 1 ∧ q.1 0 1 * q.1 0 1 + q.1 1 1 * q.1 1 1 = 1 ∧
      q.1 0 0 * q.1 0 1 + q.1 1 0 * q.1 1 1 = 0 := by
  have hproduct := (Matrix.mem_orthogonalGroup_iff' (Fin 2) ℝ).mp q.2
  have hentry := fun i j => congrFun (congrFun hproduct i) j
  simp only [Matrix.mul_apply, Matrix.transpose_apply, Fin.sum_univ_two] at hentry
  exact ⟨hentry 0 0, hentry 1 1, hentry 0 1⟩

/-- Turns the first two of the entries that stand for the equations of a contact. -/
def apply (q : Turn) : (ℕ → ℝ) →ₗ[ℝ] ℕ → ℝ where
  toFun u
    | 0 => q.1 0 0 * u 0 + q.1 0 1 * u 1
    | 1 => q.1 1 0 * u 0 + q.1 1 1 * u 1
    | n + 2 => u (n + 2)
  map_add' u w := by
    funext n
    rcases n with _ | _ | n
    · exact (by ring : q.1 0 0 * (u 0 + w 0) + q.1 0 1 * (u 1 + w 1) =
        q.1 0 0 * u 0 + q.1 0 1 * u 1 + (q.1 0 0 * w 0 + q.1 0 1 * w 1))
    · exact (by ring : q.1 1 0 * (u 0 + w 0) + q.1 1 1 * (u 1 + w 1) =
        q.1 1 0 * u 0 + q.1 1 1 * u 1 + (q.1 1 0 * w 0 + q.1 1 1 * w 1))
    · rfl
  map_smul' a u := by
    funext n
    rcases n with _ | _ | n
    · exact (by ring : q.1 0 0 * (a * u 0) + q.1 0 1 * (a * u 1) = a * (q.1 0 0 * u 0 + q.1 0 1 * u 1))
    · exact (by ring : q.1 1 0 * (a * u 0) + q.1 1 1 * (a * u 1) = a * (q.1 1 0 * u 0 + q.1 1 1 * u 1))
    · rfl

theorem apply_zero (q : Turn) (u : ℕ → ℝ) : q.apply u 0 = q.1 0 0 * u 0 + q.1 0 1 * u 1 := rfl

theorem apply_first (q : Turn) (u : ℕ → ℝ) : q.apply u 1 = q.1 1 0 * u 0 + q.1 1 1 * u 1 := rfl

theorem apply_of_le (q : Turn) (u : ℕ → ℝ) (h : 2 ≤ i) : q.apply u i = u i := by
  obtain ⟨n, rfl⟩ := Nat.exists_eq_add_of_le' h
  rfl

@[simp] theorem apply_one (u : ℕ → ℝ) : apply 1 u = u := by
  funext n
  rcases n with _ | _ | n
  · simp [apply_zero]
  · simp [apply_first]
  · rfl

theorem apply_sum {ι : Type} (s : Finset ι) (f : ℕ → ι → ℝ) :
    q.apply (fun n => ∑ k ∈ s, f n k) i = ∑ k ∈ s, q.apply (fun n => f n k) i := by
  rw [← sum_fn, map_sum, Finset.sum_apply]

theorem apply_listSum {ι : Type} (xs : List ι) (f : ℕ → ι → ℝ) :
    q.apply (fun n => (xs.map (f n)).sum) i = (xs.map fun x => q.apply (fun n => f n x) i).sum := by
  induction xs with
  | nil => exact congrFun (map_zero q.apply) i
  | cons x xs ih =>
    simp only [List.map_cons, List.sum_cons]
    rw [← ih]
    exact congrFun (map_add q.apply (fun n => f n x) fun n => (xs.map (f n)).sum) i

theorem apply_mul (f : ℕ → ℝ) (a : ℝ) : q.apply (fun n => f n * a) i = q.apply f i * a := by
  have hsmul := congrFun (map_smul q.apply a f) i
  simp only [mul_comm _ a]
  exact hsmul

/-- There are two equations to turn, or the turn changes nothing. -/
def Fits (q : Turn) (n : ℕ) : Prop := 2 ≤ n ∨ q = 1

/-- Only the equations are looked at. -/
theorem Fits.apply_congr (h : q.Fits n) (hi : i < n) (huw : ∀ m < n, u m = w m) :
    q.apply u i = q.apply w i := by
  rcases h with h | rfl
  · rcases i with _ | _ | i
    · rw [apply_zero, apply_zero, huw 0 (by omega), huw 1 (by omega)]
    · rw [apply_first, apply_first, huw 0 (by omega), huw 1 (by omega)]
    · exact huw _ hi
  · rw [apply_one, apply_one, huw i hi]

/-- Sums of products over the equations stay as they are. -/
theorem Fits.sum_mul (h : q.Fits n) (u w : ℕ → ℝ) :
    ∑ i ∈ range n, q.apply u i * q.apply w i = ∑ i ∈ range n, u i * w i := by
  rcases h with h | rfl
  · obtain ⟨m, rfl⟩ := Nat.exists_eq_add_of_le h
    obtain ⟨hfirst, hsecond, hmixed⟩ := q.columns_orthonormal
    have hrest : ∀ i, q.apply u (2 + i) * q.apply w (2 + i) = u (2 + i) * w (2 + i) := fun i => by
      rw [apply_of_le _ _ (by omega), apply_of_le _ _ (by omega)]
    simp only [sum_range_add, hrest, sum_range_succ, range_zero, sum_empty, apply_zero, apply_first]
    linear_combination u 0 * w 0 * hfirst + u 1 * w 1 * hsecond + (u 0 * w 1 + u 1 * w 0) * hmixed
  · simp only [apply_one]

/-- Turns both indices. -/
def conj (q : Turn) (g : ℕ → ℕ → ℝ) (i j : ℕ) : ℝ := q.apply (fun m => q.apply (g m) j) i

@[simp] theorem conj_one (g : ℕ → ℕ → ℝ) : conj 1 g = g := by
  funext i j
  simp [conj]

/-- Where one index is summed against a turned factor, only the other turn is left. -/
theorem Fits.sum_conj_mul (h : q.Fits n) (g : ℕ → ℕ → ℝ) (w : ℕ → ℝ) :
    ∑ j ∈ range n, q.conj g i j * q.apply w j = q.apply (fun m => ∑ j ∈ range n, g m j * w j) i := by
  have hsum : ∀ m, ∑ j ∈ range n, g m j * w j = ∑ j ∈ range n, q.apply (g m) j * q.apply w j := fun m =>
    (h.sum_mul (g m) w).symm
  simp only [hsum]
  rw [apply_sum]
  exact sum_congr rfl fun j _ => (apply_mul _ _).symm

/-- A form of turned entries is that of the entries. -/
theorem Fits.sum_conj (h : q.Fits n) (g : ℕ → ℕ → ℝ) (u w : ℕ → ℝ) :
    ∑ i ∈ range n, q.apply u i * ∑ j ∈ range n, q.conj g i j * q.apply w j =
      ∑ i ∈ range n, u i * ∑ j ∈ range n, g i j * w j := by
  simp only [h.sum_conj_mul]
  exact h.sum_mul u _

/-- So the squares of the entries of a turned matrix add up to the same. -/
theorem Fits.sum_conj_sq (h : q.Fits n) (g : ℕ → ℕ → ℝ) :
    ∑ j ∈ range n, ∑ i ∈ range n, q.conj g i j * q.conj g i j = ∑ j ∈ range n, ∑ i ∈ range n,
    g i j * g i j := by
  calc ∑ j ∈ range n, ∑ i ∈ range n, q.conj g i j * q.conj g i j
      = ∑ j ∈ range n, ∑ m ∈ range n, q.apply (g m) j * q.apply (g m) j :=
        sum_congr rfl fun j _ => h.sum_mul (fun m => q.apply (g m) j) _
    _ = ∑ m ∈ range n, ∑ j ∈ range n, q.apply (g m) j * q.apply (g m) j := sum_comm
    _ = ∑ m ∈ range n, ∑ j ∈ range n, g m j * g m j := sum_congr rfl fun m _ => h.sum_mul (g m) (g m)
    _ = ∑ j ∈ range n, ∑ i ∈ range n, g i j * g i j := sum_comm

/-- A matrix that distinguishes no tangential direction but that of a vector. -/
def form (a b c d e : ℝ) (t : ℕ → ℝ) : ℕ → ℕ → ℝ
  | 0, 0 => a * (t 0 * t 0) + b
  | 0, 1 => a * (t 0 * t 1)
  | 0, 2 => c * t 0
  | 1, 0 => a * (t 1 * t 0)
  | 1, 1 => a * (t 1 * t 1) + b
  | 1, 2 => c * t 1
  | 2, 0 => d * t 0
  | 2, 1 => d * t 1
  | 2, 2 => e
  | _, _ => 0

/-- It turns with the vector. -/
theorem conj_form (q : Turn) (a b c d e : ℝ) (t : ℕ → ℝ) :
    q.conj (form a b c d e t) = form a b c d e (q.apply t) := by
  obtain ⟨hfirst, hsecond, hmixed⟩ := q.rows_orthonormal
  funext i j
  match i, j with
  | 0, 0 =>
    simp only [conj, apply_zero, form]
    linear_combination b * hfirst
  | 1, 1 =>
    simp only [conj, apply_first, form]
    linear_combination b * hsecond
  | 0, 1 | 1, 0 =>
    simp only [conj, apply_zero, apply_first, form]
    linear_combination b * hmixed
  | 0, 2 | 2, 0 =>
    simp only [conj, apply_zero, apply_of_le _ _ le_rfl, form]
    ring
  | 1, 2 | 2, 1 =>
    simp only [conj, apply_first, apply_of_le _ _ le_rfl, form]
    ring
  | 2, 2 => rfl
  | i, j + 3 =>
    have hcolumn : ∀ m, form a b c d e t m (j + 3) = 0 := fun m => by rcases m with _ | _ | _ | m <;> rfl
    have hcolumn' : form a b c d e (q.apply t) i (j + 3) = 0 := by rcases i with _ | _ | _ | i <;> rfl
    rw [hcolumn', conj]
    simp only [apply_of_le _ _ (show 2 ≤ j + 3 by omega), hcolumn]
    exact congrFun (map_zero q.apply) i
  | i + 3, j =>
    have hrow : form a b c d e t (i + 3) = 0 := by funext n; rcases n with _ | _ | _ | n <;> rfl
    have hrow' : form a b c d e (q.apply t) (i + 3) j = 0 := by rcases j with _ | _ | _ | j <;> rfl
    rw [hrow', conj, apply_of_le _ _ (show 2 ≤ i + 3 by omega), hrow]
    exact congrFun (map_zero q.apply) j

/-- Turns the tangential coordinates of a vector. -/
noncomputable def vec3 (q : Turn) (y : Vec3 ℝ) : Vec3 ℝ := ⟨q.apply y.get 0, q.apply y.get 1, y.z⟩

theorem get_vec3 (q : Turn) (y : Vec3 ℝ) : (q.vec3 y).get = q.apply y.get := by
  funext i
  rcases i with _ | _ | _ | i <;> rfl

end Turn

/-! ### Projections -/

namespace FrictionCone

variable (q : Turn) (y : Vec3 ℝ) (mu muTilde : ℝ)

theorem softNorm_turn : softNorm (q.vec3 y).x (q.vec3 y).y = softNorm y.x y.y := by
  obtain ⟨hfirst, hsecond, hmixed⟩ := q.columns_orthonormal
  rw [softNorm_eq, softNorm_eq]
  congr 2
  show (q.1 0 0 * y.x + q.1 0 1 * y.y) ^ 2 + (q.1 1 0 * y.x + q.1 1 1 * y.y) ^ 2 = _
  linear_combination y.x ^ 2 * hfirst + y.y ^ 2 * hsecond + 2 * y.x * y.y * hmixed

/-- The derivative of a contact that slides, in terms of the tangential impulse and its length. -/
theorem get_slideDerivative (r along across byNormal ofTangent e : ℝ) (t : ℕ → ℝ) :
    (Mat3.ofRows
      ⟨t 0 / r * (t 0 / r) * along + (1 - t 0 / r * (t 0 / r)) * across,
        t 0 / r * (t 1 / r) * along + (0 - t 0 / r * (t 1 / r)) * across, t 0 / r * byNormal⟩
      ⟨t 1 / r * (t 0 / r) * along + (0 - t 1 / r * (t 0 / r)) * across,
        t 1 / r * (t 1 / r) * along + (1 - t 1 / r * (t 1 / r)) * across, t 1 / r * byNormal⟩
      ⟨t 0 / r * ofTangent, t 1 / r * ofTangent, e⟩ : Mat3 ℝ).get =
      Turn.form ((along - across) / (r * r)) across (byNormal / r) (ofTangent / r) e t := by
  funext i j
  rcases i with _ | _ | _ | i <;> rcases j with _ | _ | _ | j <;>
    simp only [Mat3.get, Mat3.column, Mat3.ofRows, Vec3.get, Turn.form] <;> first | rfl | ring

/-- In each of the three regions the impulse turns with the unconstrained one, and so does the one
    direction that the derivative distinguishes. -/
theorem project_turn : (project (q.vec3 y) mu muTilde).1 = q.vec3 (project y mu muTilde).1 ∧
    ∃ a b c d e, (project y mu muTilde).2.get = Turn.form a b c d e y.get ∧
      (project (q.vec3 y) mu muTilde).2.get = Turn.form a b c d e (q.apply y.get) := by
  have hnormal : (q.vec3 y).z = y.z := rfl
  simp only [project, softNorm_turn, hnormal]
  split_ifs with hsticks hseparates
  · have hidentity : ∀ t, (Mat3.identity : Mat3 ℝ).get = Turn.form 0 1 0 0 1 t := by
      intro t
      funext i j
      rcases i with _ | _ | _ | i <;> rcases j with _ | _ | _ | j <;>
        simp [Mat3.get, Mat3.column, Mat3.identity, Vec3.get, Vec3.unitX, Vec3.unitY, Vec3.unitZ, Turn.form]
    exact ⟨rfl, 0, 1, 0, 0, 1, hidentity _, hidentity _⟩
  · have hzero : ∀ t, (0 : Mat3 ℝ).get = Turn.form 0 0 0 0 0 t := by
      intro t
      funext i j
      have hentry : (0 : Mat3 ℝ).get i j = 0 := by
        rcases i with _ | _ | _ | i <;> rcases j with _ | _ | _ | j <;> rfl
      rw [hentry]
      rcases i with _ | _ | _ | i <;> rcases j with _ | _ | _ | j <;> simp [Turn.form]
    have hstays : (0 : Vec3 ℝ) = q.vec3 0 := by
      ext <;> simp [Turn.vec3, Turn.apply_zero, Turn.apply_first, Vec3.get]
    exact ⟨hstays, 0, 0, 0, 0, 0, hzero _, hzero _⟩
  · refine ⟨?_, _, _, _, _, _, get_slideDerivative _ _ _ _ _ _ y.get,
      get_slideDerivative _ _ _ _ _ _ (q.apply y.get)⟩
    ext
    · show (q.1 0 0 * y.x + q.1 0 1 * y.y) / _ * _ = q.1 0 0 * (y.x / _ * _) + q.1 0 1 * (y.y / _ * _)
      ring
    · show (q.1 1 0 * y.x + q.1 1 1 * y.y) / _ * _ = q.1 1 0 * (y.x / _ * _) + q.1 1 1 * (y.y / _ * _)
      ring
    · rfl

end FrictionCone

/-- The second projection is the first one turned. -/
structure Projection.Turned (q : Turn) (x y : Projection ℝ) : Prop where
  size : y.impulse.size = x.impulse.size
  impulse : ∀ i, y.impulse i = q.apply x.impulse i
  rows : y.slope.rows = x.slope.rows
  cols : y.slope.cols = x.slope.cols
  slope : ∀ i j, y.slope i j = q.conj x.slope i j

namespace Constraint

variable {c : Constraint ℝ} {q : Turn} {r rInv y y' : Vec ℝ}

theorem form_mul (a b c d e x z : ℝ) (t : ℕ → ℝ) (i j : ℕ) :
    Turn.form a b c d e t i j * (⟨x, x, z⟩ : Vec3 ℝ).get j =
      Turn.form (a * x) (b * x) (c * z) (d * x) (e * z) t i j := by
  rcases i with _ | _ | _ | i <;> rcases j with _ | _ | _ | j <;> simp only [Turn.form, Vec3.get] <;> ring

/-- A contact whose tangential equations are written down along other axes gives the same impulse, along
    these. -/
theorem project_turned (hq : c.isContact = true ∨ q = 1) (hrInv : c.isContact = true → rInv 0 = rInv 1)
    (hsize : y'.size = y.size) (hy : ∀ i, y' i = q.apply y i) :
    (c.project y r rInv).Turned q (c.project y' r rInv) := by
  rcases hq with hcontact | rfl
  · obtain ⟨p, hkind⟩ := isContact_iff.mp hcontact
    have hvec : (⟨y' 0, y' 1, y' 2⟩ : Vec3 ℝ) = q.vec3 ⟨y 0, y 1, y 2⟩ := by
      rw [hy, hy, hy]
      rfl
    generalize hmu : (if Scalar.isFinite (r 2) ∧ 0 < r 2 then p.mu * r 0 / r 2 else 0) = muTilde
    obtain ⟨himpulse, a, b, e, f, g, hform, hform'⟩ :=
      FrictionCone.project_turn q ⟨y 0, y 1, y 2⟩ p.mu muTilde
    simp only [project, hkind, hmu, hvec]
    refine ⟨rfl, fun i => ?_, rfl, rfl, fun i j => ?_⟩
    · rw [get_ofList_toList, get_ofList_toList, himpulse, Turn.get_vec3]
    · rw [get_ofFn_three, get_ofFn_three, hrInv hcontact]
      have hslope : ∀ m : Mat3 ℝ, ∀ t, m.get = Turn.form a b e f g t →
          (m * Mat3.diagonal ⟨rInv 1, rInv 1, rInv 2⟩).get =
            Turn.form (a * rInv 1) (b * rInv 1) (e * rInv 2) (f * rInv 1) (g * rInv 2) t := by
        intro m t hm
        funext i j
        rw [get_mul_diagonal, hm, form_mul]
      rw [hslope _ _ hform, hslope _ _ hform', Turn.conj_form]
  · have hsame : y' = y := Vec.ext hsize fun i _ => by rw [hy, Turn.apply_one]
    rw [hsame]
    exact ⟨rfl, fun i => by rw [Turn.apply_one], rfl, rfl, fun i j => by rw [Turn.conj_one]⟩

end Constraint

/-! ### Blocks and constraints -/

/-- Turns the rows of a matrix. -/
noncomputable def Turn.mat (q : Turn) (m : Mat ℝ) : Mat ℝ :=
  .ofFn m.rows m.cols fun i j => q.apply (fun n => m n j) i

/-- The block of a contact with its tangential equations along other axes. -/
noncomputable def Turn.block (q : Turn) (b : JacobianBlock ℝ) : JacobianBlock ℝ := ⟨b.tree, q.mat b.jacobian⟩

/-- The second constraint is the first one, along other axes if it is a contact, and with its blocks in
    any order. -/
structure Constraint.Turned (q : Turn) (c d : Constraint ℝ) : Prop where
  kind : d.kind = c.kind
  g0 : d.g0 = c.g0
  blocks : d.blocks.Perm (c.blocks.map q.block)
  contact : c.isContact = true ∨ q = 1

/-- A contact has tangential equations to turn. -/
theorem Constraint.Turned.fits {q : Turn} {c d : Constraint ℝ} (h : c.Turned q d) (hc : c.InRange) :
    q.Fits c.numEquations := by
  refine h.contact.imp_left fun hcontact => ?_
  rw [hc.numEquations_of_isContact hcontact]
  exact Nat.le_succ 2

namespace Turn

variable {q : Turn} {m : Mat ℝ} {i j : ℕ}

theorem mat_one (m : Mat ℝ) : mat 1 m = m := by
  refine Mat.ext rfl rfl fun i hi j hj => ?_
  exact (Mat.get_ofFn_of_lt hi hj).trans (congrFun (apply_one _) i)

theorem get_mat (h : q.Fits m.rows) (i j : ℕ) : q.mat m i j = q.apply (fun n => m n j) i := by
  rw [mat, Mat.get_ofFn]
  split_ifs with hinside
  · rfl
  · by_cases hj : j < m.cols
    · -- Past the rows nothing turns.
      have hi : m.rows ≤ i := not_lt.mp fun hi => hinside ⟨hi, hj⟩
      have hentry : m i j = 0 := Mat.get_outside fun hin => hinside hin
      rcases h with h | rfl
      · rw [apply_of_le _ _ (h.trans hi), hentry]
      · rw [apply_one, hentry]
    · have hcolumn : (fun n => m n j) = 0 := funext fun n => Mat.get_outside fun hin => hj hin.2
      rw [hcolumn, map_zero]
      rfl

end Turn

/-- Without a turn a constraint stays as it is. -/
theorem Constraint.Turned.refl (c : Constraint ℝ) : c.Turned 1 c where
  kind := rfl
  g0 := rfl
  blocks := by
    have hblock : (1 : Turn).block = id := funext fun b =>
      congrArg (JacobianBlock.mk b.tree) (Turn.mat_one b.jacobian)
    rw [hblock, List.map_id]
  contact := .inr rfl

end CompliantContact
