import CompliantContact.Dense.Mat

/-!
Cholesky factors of symmetric positive definite matrices.

The factor is found column by column and written over the lower triangle, which is all of the matrix
that is read; what stands above the diagonal stays. A matrix whose next pivot is not positive has no
factor.
-/

namespace CompliantContact

namespace Cholesky

variable {α : Type} [Scalar α]

/-- The entry `m i j` less the products of the rows `i` and `j` over the columns before `j`, which
    hold the factor already. -/
def reduced (m : Mat α) (i j : Nat) : α :=
  (List.range j).foldl (fun acc k => acc - m i k * m j k) (m i j)

/-- Writes column `j` of the factor, given its columns before `j`. -/
def writeColumn (m : Mat α) (j : Nat) : Option (Mat α) :=
  let pivot := reduced m j j
  if pivot > 0 then
    let root := Scalar.sqrt pivot
    some <| Mat.ofFn m.rows m.cols fun i k =>
      if k ≠ j ∨ i < j then m i k
      else if i = j then root
      else reduced m i j / root
  else none

/-- The matrix with its factor in the lower triangle, if it is positive definite. -/
def factor? (m : Mat α) : Option (Mat α) :=
  (List.range m.rows).foldlM writeColumn m

/-- Solves for the first vector with the lower triangle: entry `j` uses those before it. -/
def solveLower (l : Mat α) (b : Vec α) : Vec α :=
  (List.range l.rows).foldl (fun y j =>
    let rest := (List.range j).foldl (fun acc k => acc - l j k * y k) (b j)
    ⟨y.toArray.push (rest / l j j)⟩) ⟨#[]⟩

/-- Solves with the transpose of the lower triangle: entry `j` uses those after it. The answer grows
    from its end, so it is kept in reverse. -/
def solveUpper (l : Mat α) (y : Vec α) : Vec α :=
  let n := l.rows
  let reversed := (List.range n).foldl (fun (x : Array α) step =>
    let j := n - 1 - step
    let rest := (List.range step).foldl (fun acc i =>
      let k := j + 1 + i
      acc - l k j * x.getD (n - 1 - k) 0) (y j)
    x.push (rest / l j j)) #[]
  ⟨reversed.reverse⟩

/-- Solves for the vector that the factored matrix takes to `b`. Entries of `b` past the size of the
    matrix stay as they are. -/
def solve (l : Mat α) (b : Vec α) : Vec α :=
  solveUpper l (solveLower l b) ++ b.slice l.rows (b.size - l.rows)

end Cholesky

end CompliantContact
