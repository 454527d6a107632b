import CompliantContact.Decimal.Layout

/-!
Numbers rounded to a decimal place.

Numbers that belong together, such as the entries of a vector, are rounded to one place, which follows
from the largest of them. What the order of a summation does to the last digits of a small entry then
does not show. The place with exponent `k` holds the multiples of `10 ^ k`; the exact binary value is
rounded, and a tie goes to the even multiple.
-/

namespace CompliantContact

/-- A quotient as the nearest whole number, the even one of two that are equally near. -/
def divNearest (num den : Nat) : Nat :=
  if den < 2 * (num % den) ∨ 2 * (num % den) = den ∧ num / den % 2 = 1 then num / den + 1
  else num / den

namespace Decimal

/-- The number `m * 2 ^ q` at the place with exponent `k`, without zeros at its end. -/
def atPlace (negative : Bool) (m : Nat) (q k : Int) : Decimal :=
  let (num, den) := fraction m q (-k)
  let n := divNearest num den
  trim (digitCount n) ⟨negative, n, k⟩

/-- The exponent of the leading digit of a positive number, after rounding to a number of digits. -/
def roundedExponent (digits m : Nat) (q : Int) : Int :=
  let (num, den) := fraction m q 0
  let e := leadingExponent num den
  (atPlace false m q (e + 1 - digits)).leading

/-- The place of the last of nine digits of a number, once the number is rounded to some digits. Zero
    and what is not finite have none. -/
def ninthPlace? (digits : Nat) (x : Float) : Option Int :=
  match Binary64.ofFloat x with
  | .finite _ m q => if m = 0 then none else some (roundedExponent digits m q - 8)
  | _ => none

/-- The place for numbers that belong together: that of the ninth digit of the largest finite one,
    once it is rounded to six digits, but no place below the least one. -/
def commonPlace (least : Int) (xs : List Float) : Int :=
  let largest := xs.foldl (fun m x => if x.isFinite ∧ m < x.abs then x.abs else m) 0
  ((ninthPlace? 6 largest).map (max least)).getD least

/-- The text of a number at a place: scientific, or a plain zero. -/
def textAtPlace (k : Int) (x : Float) : String :=
  match Binary64.ofFloat x with
  | .notANumber => "NaN"
  | .infinite negative => if negative then "-inf" else "inf"
  | .finite negative m q =>
    let d := atPlace negative m q k
    if d.digits = 0 then "0" else d.write .scientific

def nineDigits (x : Float) : String := textAtPlace ((ninthPlace? 9 x).getD 0) x

end Decimal

end CompliantContact
