import CompliantContact.Proofs.Dense.Algebra
import CompliantContact.Proofs.Sizes

/-!
Vectors one after another, and matrices one below another.

What a stack of matrices does to a vector is what each of them does, one after another; its transpose adds up
what each of theirs does to a part of the vector.
-/

namespace CompliantContact

open Finset

namespace Vec

variable {v : Vec ℝ} {vs ws : List (Vec ℝ)} {k : ℕ}

theorem append_assoc (u v w : Vec ℝ) : u ++ v ++ w = u ++ (v ++ w) :=
  congrArg Vec.mk Array.append_assoc

theorem foldl_append (v : Vec ℝ) (vs : List (Vec ℝ)) : vs.foldl (· ++ ·) v = v ++ concat vs := by
  induction vs generalizing v with
  | nil => exact congrArg Vec.mk Array.append_empty.symm
  | cons w vs ih =>
    have hempty : (⟨#[]⟩ : Vec ℝ) ++ w = w := congrArg Vec.mk Array.empty_append
    have hconcat : concat (w :: vs) = w ++ concat vs := by
      rw [concat, List.foldl_cons, hempty, ih]
    rw [List.foldl_cons, ih, hconcat, append_assoc]

theorem concat_cons (v : Vec ℝ) (vs : List (Vec ℝ)) : concat (v :: vs) = v ++ concat vs := by
  have hempty : (⟨#[]⟩ : Vec ℝ) ++ v = v := congrArg Vec.mk Array.empty_append
  rw [concat, List.foldl_cons, hempty, foldl_append]

theorem size_concat (vs : List (Vec ℝ)) : (concat vs).size = total (vs.map size) := by
  induction vs with
  | nil => rfl
  | cons v vs ih => rw [concat_cons, size_append, ih, List.map_cons, total_cons]

theorem get_concat_add (vs ws : List (Vec ℝ)) (i : ℕ) :
    concat (vs ++ ws) (total (vs.map size) + i) = concat ws i := by
  induction vs with
  | nil => rw [List.nil_append, List.map_nil, total_nil, Nat.zero_add]
  | cons v vs ih =>
    rw [List.cons_append, concat_cons, get_append, List.map_cons, total_cons, if_neg (by omega), ← ih]
    congr 1
    omega

theorem slice_concat_append (vs ws : List (Vec ℝ)) :
    (concat (vs ++ ws)).slice (total (vs.map size)) (total (ws.map size)) = concat ws := by
  refine Vec.ext ((size_ofFn ..).trans (size_concat ws).symm) fun i hi => ?_
  have hi : i < total (ws.map size) := by rwa [slice, size_ofFn] at hi
  exact (get_ofFn_of_lt hi).trans (get_concat_add vs ws i)

/-- Products of entries go part by part. -/
theorem hadamard_concat {ι : Type} {xs : List ι} {f g : ι → Vec ℝ} (h : ∀ x ∈ xs, (g x).size = (f x).size) :
    (concat (xs.map f)).hadamard (concat (xs.map g)) = concat (xs.map fun x => (f x).hadamard (g x)) := by
  induction xs with
  | nil => rfl
  | cons x xs ih =>
    have hfirst : (g x).size = (f x).size := h x (List.mem_cons_self ..)
    simp only [List.map_cons, concat_cons]
    rw [← ih fun y hy => h y (List.mem_cons_of_mem _ hy)]
    refine Vec.ext (by simp only [size_hadamard, size_append]) fun i _ => ?_
    rw [get_hadamard, get_append, get_append, get_append, size_hadamard, hfirst]
    split_ifs
    · exact (get_hadamard ..).symm
    · exact (get_hadamard ..).symm

/-- The entries of each vector stand after those of the vectors before it. -/
theorem slice_concat (h : vs[k]? = some v) : (concat vs).slice (total ((vs.take k).map size)) v.size = v := by
  obtain ⟨hk, rfl⟩ := List.getElem?_eq_some_iff.mp h
  have hvs : vs.take k ++ vs[k] :: vs.drop (k + 1) = vs := by
    rw [← List.drop_eq_getElem_cons hk, List.take_append_drop]
  refine Vec.ext (size_ofFn ..) fun i hi => ?_
  have hi : i < vs[k].size := by rwa [slice, size_ofFn] at hi
  calc (concat vs).slice (total ((vs.take k).map size)) vs[k].size i
      = concat vs (total ((vs.take k).map size) + i) := get_ofFn_of_lt hi
    _ = concat (vs[k] :: vs.drop (k + 1)) i := by
        rw [← get_concat_add (vs.take k) (vs[k] :: vs.drop (k + 1)), hvs]
    _ = vs[k] i := by rw [concat_cons, get_append, if_pos hi]

end Vec

namespace Mat

variable {ms ns : List (Mat ℝ)} {n i j : ℕ}

def stackEntry : List (Mat ℝ) → ℕ → ℕ → ℝ
  | [], _, _ => 0
  | m :: rest, i, j => if i < m.rows then m i j else stackEntry rest (i - m.rows) j

/-- Matrices with `n` columns, one below another. -/
def stack (n : ℕ) (ms : List (Mat ℝ)) : Mat ℝ := .ofFn (total (ms.map rows)) n (stackEntry ms)

theorem stackEntry_append (ms ns : List (Mat ℝ)) (i j : ℕ) :
    stackEntry (ms ++ ns) (total (ms.map rows) + i) j = stackEntry ns i j := by
  induction ms with
  | nil => rw [List.nil_append, List.map_nil, total_nil, Nat.zero_add]
  | cons m ms ih =>
    rw [List.cons_append, stackEntry, List.map_cons, total_cons, if_neg (by omega), ← ih]
    congr 1
    omega

theorem rowBlock_stack (n : ℕ) (ms ns : List (Mat ℝ)) :
    (stack n (ms ++ ns)).rowBlock (total (ms.map rows)) (total (ns.map rows)) = stack n ns := by
  refine Mat.ext rfl rfl fun i hi j hj => ?_
  have hi : i < total (ns.map rows) := hi
  have hj : j < n := hj
  have hrow : total (ms.map rows) + i < total ((ms ++ ns).map rows) := by
    rw [List.map_append, total_append]
    omega
  calc (stack n (ms ++ ns)).rowBlock (total (ms.map rows)) (total (ns.map rows)) i j
      = stack n (ms ++ ns) (total (ms.map rows) + i) j := get_ofFn_of_lt hi hj
    _ = stackEntry ns i j := by rw [stack, get_ofFn_of_lt hrow hj, stackEntry_append]
    _ = stack n ns i j := (get_ofFn_of_lt hi hj).symm

theorem sum_stackEntry_mul (h : ∀ m ∈ ms, m.cols = n) (v : Vec ℝ) (hi : i < total (ms.map rows)) :
    ∑ j ∈ range n, stackEntry ms i j * v j = Vec.concat (ms.map (·.mulVec v)) i := by
  induction ms generalizing i with
  | nil => simp at hi
  | cons m ms ih =>
    rw [List.map_cons, total_cons] at hi
    rw [List.map_cons, Vec.concat_cons, Vec.get_append, size_mulVec]
    simp only [stackEntry]
    split_ifs with him
    · rw [get_mulVec him, h m (List.mem_cons_self ..)]
    · exact ih (fun m hm => h m (List.mem_cons_of_mem _ hm)) (by omega)

theorem mulVec_stack (h : ∀ m ∈ ms, m.cols = n) (v : Vec ℝ) :
    (stack n ms).mulVec v = Vec.concat (ms.map (·.mulVec v)) := by
  have hsizes : (ms.map (·.mulVec v)).map Vec.size = ms.map rows := by
    rw [List.map_map]
    exact List.map_congr_left fun m _ => size_mulVec
  refine Vec.ext ?_ fun i hi => ?_
  · rw [size_mulVec, Vec.size_concat, hsizes]
    rfl
  have hi : i < total (ms.map rows) := by rwa [size_mulVec] at hi
  calc (stack n ms).mulVec v i
      = ∑ j ∈ range n, stackEntry ms i j * v j := by
        rw [get_mulVec hi]
        exact sum_congr rfl fun j hj => by rw [stack, get_ofFn_of_lt hi (mem_range.mp hj)]
    _ = Vec.concat (ms.map (·.mulVec v)) i := sum_stackEntry_mul h v hi

/-- The transpose of a stack, part by part. -/
theorem transposeMulVec_stack {ι : Type} {xs : List ι} {m : ι → Mat ℝ} {g : ι → Vec ℝ}
    (hsize : ∀ x ∈ xs, (g x).size = (m x).rows) (hj : j < n) :
    (stack n (xs.map m)).transposeMulVec (Vec.concat (xs.map g)) j =
      (xs.map fun x => ∑ i ∈ range (m x).rows, m x i j * g x i).sum := by
  have hentry : (stack n (xs.map m)).transposeMulVec (Vec.concat (xs.map g)) j =
      ∑ i ∈ range (total ((xs.map m).map rows)), stackEntry (xs.map m) i j * Vec.concat (xs.map g) i := by
    rw [transposeMulVec, Vec.get_ofFn_of_lt (show j < (stack n (xs.map m)).cols from hj),
      Scalar.sum_eq_sum_range]
    exact sum_congr rfl fun i hi => by rw [stack, get_ofFn_of_lt (mem_range.mp hi) hj]
  rw [hentry]
  clear hentry
  induction xs with
  | nil => rfl
  | cons x xs ih =>
    simp only [List.map_cons, total_cons, List.sum_cons]
    rw [sum_range_add, ← ih fun y hy => hsize y (List.mem_cons_of_mem _ hy), Vec.concat_cons]
    have hfirst : (g x).size = (m x).rows := hsize x (List.mem_cons_self ..)
    congr 1
    · refine sum_congr rfl fun i hi => ?_
      have hi := mem_range.mp hi
      rw [stackEntry, if_pos hi, Vec.get_append, if_pos (hfirst ▸ hi)]
    · refine sum_congr rfl fun i _ => ?_
      rw [stackEntry, if_neg (by omega), Vec.get_append, if_neg (by omega), hfirst, Nat.add_sub_cancel_left]

end Mat

end CompliantContact
