/-!
The shortest decimal that reads back to a binary number.

A binary number stands for the interval of all reals that round to it. Of the decimals in that
interval those with the fewest digits are taken, and of these the one nearest to the number. All of it
is exact arithmetic on natural numbers: the grid of decimals with a given last place has only two
points next to the number, and one of them lies in the interval as soon as any point of the grid does.
-/

namespace CompliantContact

/-- The decimal number `digits * 10 ^ exponent`, with its sign. -/
structure Decimal where
  negative : Bool
  digits : Nat
  exponent : Int
deriving Repr, DecidableEq, Inhabited

/-- What a binary floating point number stands for. -/
inductive Binary64 where
  | notANumber
  | infinite (negative : Bool)
  /-- The number `mantissa * 2 ^ exponent`, with its sign. -/
  | finite (negative : Bool) (mantissa : Nat) (exponent : Int)
deriving Repr, DecidableEq, Inhabited

namespace Binary64

/-- The least exponent, that of the numbers next to zero. -/
def minExponent : Int := -1074

/-- The mantissa of a power of two; the interval below such a number is half as wide. -/
def hiddenBit : Nat := Nat.pow 2 52

/-- Reads the sign, the exponent and the mantissa from the bits. -/
def ofBits (bits : UInt64) : Binary64 :=
  let n := bits.toNat
  let negative := n / Nat.pow 2 63 = 1
  let biased := n / hiddenBit % Nat.pow 2 11
  let fraction := n % hiddenBit
  if biased = Nat.pow 2 11 - 1 then if fraction = 0 then .infinite negative else .notANumber
  else if biased = 0 then .finite negative fraction minExponent
  else .finite negative (hiddenBit + fraction) (minExponent + (biased - 1 : Nat))

def ofFloat (x : Float) : Binary64 := ofBits x.toBits

end Binary64

namespace Decimal

/-- The number of decimal digits of a natural number; one for zero. -/
def digitCount (n : Nat) : Nat := (Nat.toDigits 10 n).length

/-- The exponent of the leading digit of the positive fraction `num / den`. -/
def leadingExponent (num den : Nat) : Int :=
  if den ≤ num then digitCount (num / den) - 1
  else
    let d := digitCount (den / num)
    if den ≤ num * Nat.pow 10 (d - 1) then -(d - 1 : Nat) else -d

/-- The positive fraction that `m * 2 ^ q * 10 ^ k` is. -/
def fraction (m : Nat) (q k : Int) : Nat × Nat :=
  (m * Nat.pow 2 q.toNat * Nat.pow 10 k.toNat, Nat.pow 2 (-q).toNat * Nat.pow 10 (-k).toNat)

def trim : Nat → Decimal → Decimal
  | 0, d => d
  | n + 1, d =>
    if d.digits ≠ 0 ∧ d.digits % 10 = 0 then trim n ⟨d.negative, d.digits / 10, d.exponent + 1⟩ else d

/-- The point of the grid of multiples of `10 ^ k` that lies in the interval of the positive number
    `m * 2 ^ q` and nearest to it, if one does; the greater of two that are equally near. -/
def onGrid (m : Nat) (q k : Int) : Option Nat :=
  -- In quarters of the last binary place the number is `4 * m`, and its interval reaches two up.
  let (num, den) := fraction 1 (q - 2) (-k)
  let below := if m = Binary64.hiddenBit ∧ Binary64.minExponent < q then 4 * m - 1 else 4 * m - 2
  let above := 4 * m + 2
  let inside (n : Nat) : Bool :=
    if m % 2 = 0 then below * num ≤ n * den ∧ n * den ≤ above * num
    else below * num < n * den ∧ n * den < above * num
  let lower := 4 * m * num / den
  let upper := lower + 1
  match inside lower, inside upper with
  | true, true =>
    if 4 * m * num - lower * den < upper * den - 4 * m * num then some lower else some upper
  | true, false => some lower
  | false, true => some upper
  | false, false => none

/-- Tries the grids from the coarsest, whose points have one digit, to the seventeenth, which is always
    fine enough. -/
def search (m : Nat) (q leading : Int) : Nat → Option (Nat × Int)
  | 0 => none
  | n + 1 =>
    let k := leading - (17 - (n + 1) : Nat)
    match onGrid m q k with
    | some digits => some (digits, k)
    | none => search m q leading n

def shortest (negative : Bool) (m : Nat) (q : Int) : Decimal :=
  if m = 0 then ⟨negative, 0, 0⟩
  else
    let (num, den) := fraction m q 0
    match search m q (leadingExponent num den) 17 with
    | some (digits, k) => trim 17 ⟨negative, digits, k⟩
    | none => ⟨negative, m, 0⟩

end Decimal

end CompliantContact
