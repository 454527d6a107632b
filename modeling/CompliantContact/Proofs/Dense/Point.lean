import CompliantContact.Proofs.Dense.Algebra
import Mathlib.Analysis.Calculus.Gradient.Basic
import Mathlib.Analysis.InnerProductSpace.PiL2

/-!
Vectors as points of a Euclidean space.

A vector of size `n` and a point of the space of dimension `n` have the same entries. A linear form is
given by its coefficients, and a function has a gradient if its derivative is the form of it.
-/

namespace CompliantContact

open Finset hiding sum_apply

namespace Vec

variable {n i : ℕ} {v : Vec ℝ} {a : ℕ → ℝ}

noncomputable section

def ofPoint (x : EuclideanSpace ℝ (Fin n)) : Vec ℝ := .ofFn n fun i => if h : i < n then x ⟨i, h⟩ else 0

def toPoint (n : ℕ) (a : ℕ → ℝ) : EuclideanSpace ℝ (Fin n) := WithLp.toLp _ fun i => a i

/-- The linear form with given coefficients. -/
def form (n : ℕ) (a : ℕ → ℝ) : EuclideanSpace ℝ (Fin n) →L[ℝ] ℝ := InnerProductSpace.toDual ℝ _ (toPoint n a)

def entry (n i : ℕ) : EuclideanSpace ℝ (Fin n) →L[ℝ] ℝ := form n fun j => if j = i then 1 else 0

end

@[simp] theorem size_ofPoint (x : EuclideanSpace ℝ (Fin n)) : (ofPoint x).size = n := size_ofFn ..

theorem get_ofPoint (x : EuclideanSpace ℝ (Fin n)) (hi : i < n) : ofPoint x i = x ⟨i, hi⟩ := by
  rw [ofPoint, get_ofFn_of_lt hi, dif_pos hi]

theorem ofPoint_toPoint (h : v.size = n) : ofPoint (toPoint n v) = v := by
  refine Vec.ext (by rw [size_ofPoint, h]) fun i hi => ?_
  rw [size_ofPoint] at hi
  exact get_ofPoint _ hi

/-- Points are equal if their entries are. -/
theorem toPoint_inj {b : ℕ → ℝ} : toPoint n a = toPoint n b ↔ ∀ i < n, a i = b i := by
  constructor
  · intro h i hi
    exact congrArg (fun x : EuclideanSpace ℝ (Fin n) => x ⟨i, hi⟩) h
  · intro h
    exact congrArg (WithLp.toLp 2) (funext fun i => h i i.isLt)

theorem form_apply (x : EuclideanSpace ℝ (Fin n)) : form n a x = ∑ j ∈ range n, a j * ofPoint x j := by
  rw [form, InnerProductSpace.toDual_apply_apply, PiLp.inner_apply, ← Fin.sum_univ_eq_sum_range]
  refine sum_congr rfl fun i _ => ?_
  rw [get_ofPoint x i.isLt]
  exact mul_comm ..

theorem entry_apply (x : EuclideanSpace ℝ (Fin n)) (hi : i < n) : entry n i x = ofPoint x i := by
  simp [entry, form_apply, hi]

theorem hasGradientAt_iff {f : EuclideanSpace ℝ (Fin n) → ℝ} {x : EuclideanSpace ℝ (Fin n)} :
    HasGradientAt f (toPoint n a) x ↔ HasFDerivAt f (form n a) x := Iff.rfl

end Vec

namespace Mat

variable {n : ℕ} {m : Mat ℝ} {x : EuclideanSpace ℝ (Fin n)}

theorem hasFDerivAt_term (i j : ℕ) (b : ℕ → ℝ) : HasFDerivAt
    (fun z : EuclideanSpace ℝ (Fin n) => (Vec.entry n i z - b i) * m i j * (Vec.entry n j z - b j))
    (((Vec.entry n i x - b i) * m i j) • Vec.entry n j +
      ((Vec.entry n j x - b j) * m i j) • Vec.entry n i) x := by
  have hfirst := ((Vec.entry n i).hasFDerivAt (x := x)).sub_const (b i)
  have hsecond := ((Vec.entry n j).hasFDerivAt (x := x)).sub_const (b j)
  refine ((hfirst.mul_const (m i j)).mul hsecond).congr_fderiv ?_
  rw [smul_smul]

theorem sum_terms_right (n : ℕ) (m : Mat ℝ) (u w : ℕ → ℝ) :
    ∑ i ∈ range n, ∑ j ∈ range n, u j * m i j * w i = ∑ i ∈ range n, (∑ j ∈ range n, m i j * u j) * w i := by
  refine sum_congr rfl fun i _ => ?_
  rw [sum_mul]
  exact sum_congr rfl fun j _ => by ring

/-- By symmetry both factors of the terms of a quadratic form have the same derivative. -/
theorem sum_terms_left (n : ℕ) (hsymm : ∀ i j, m i j = m j i) (u w : ℕ → ℝ) :
    ∑ i ∈ range n, ∑ j ∈ range n, u i * m i j * w j = ∑ i ∈ range n, (∑ j ∈ range n, m i j * u j) * w i := by
  rw [sum_comm, ← sum_terms_right]
  exact sum_congr rfl fun j _ => sum_congr rfl fun i _ => by rw [hsymm i j]

/-- The derivative of half the quadratic form around a vector. -/
theorem hasFDerivAt_quad (hrows : m.rows = n) (hsymm : ∀ i j, m i j = m j i) (b : ℕ → ℝ) :
    HasFDerivAt (fun z : EuclideanSpace ℝ (Fin n) => 1 / 2 * m.quad fun k => Vec.ofPoint z k - b k)
      (Vec.form n fun j => ∑ k ∈ range n, m j k * (Vec.ofPoint x k - b k)) x := by
  have hsum := (HasFDerivAt.fun_sum fun i (_ : i ∈ range n) =>
    HasFDerivAt.fun_sum fun j (_ : j ∈ range n) => hasFDerivAt_term (m := m) (x := x) i j b).const_mul (1 / 2)
  have hvalue : (fun z : EuclideanSpace ℝ (Fin n) => 1 / 2 * m.quad fun k => Vec.ofPoint z k - b k) =
      fun z => 1 / 2 * ∑ i ∈ range n, ∑ j ∈ range n,
      (Vec.entry n i z - b i) * m i j * (Vec.entry n j z - b j) := by
    funext z
    rw [quad, hrows]
    congr 1
    refine sum_congr rfl fun i hi => sum_congr rfl fun j hj => ?_
    rw [Vec.entry_apply z (mem_range.mp hi), Vec.entry_apply z (mem_range.mp hj)]
  rw [hvalue]
  refine hsum.congr_fderiv ?_
  ext w
  have hterms : ∀ i ∈ range n, ∀ j ∈ range n,
      (Vec.entry n i x - b i) * m i j * Vec.entry n j w + (Vec.entry n j x - b j) * m i j * Vec.entry n i w =
        (Vec.ofPoint x i - b i) * m i j * Vec.ofPoint w j +
          (Vec.ofPoint x j - b j) * m i j * Vec.ofPoint w i := by
    intro i hi j hj
    have hi := mem_range.mp hi
    have hj := mem_range.mp hj
    rw [Vec.entry_apply x hi, Vec.entry_apply x hj, Vec.entry_apply w hi, Vec.entry_apply w hj]
  simp only [smul_apply, sum_apply, add_apply, smul_eq_mul]
  rw [sum_congr rfl fun i hi => sum_congr rfl (hterms i hi), Vec.form_apply]
  simp only [sum_add_distrib]
  rw [sum_terms_left n hsymm fun k => Vec.ofPoint x k - b k,
    sum_terms_right n m fun k => Vec.ofPoint x k - b k]
  ring

end Mat

end CompliantContact
