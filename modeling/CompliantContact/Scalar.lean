/-!
The numbers that every computation of the library is written over.

A definition that takes `[Scalar α]` is written once and read twice: with binary floating point it
runs, and with the real numbers it is the exact arithmetic that the theory speaks of. So the class
holds what both readings share: the field operations, an order that can be decided, square roots and
the two trigonometric functions, decimal literals, and the question whether a number is finite.
-/

namespace CompliantContact

/-- Numbers with the operations that the dynamics needs. No laws are asked for: floating point has
    few, and the theory works with the real numbers, where all of them hold. -/
class Scalar (α : Type) extends Zero α, One α, Add α, Sub α, Neg α, Mul α, Div α, LT α, LE α where
  sqrt : α → α
  sin : α → α
  cos : α → α
  pi : α
  /-- The number `mantissa * 10 ^ exponent`. -/
  decimal (mantissa : Nat) (exponent : Int) : α
  /-- The spacing of numbers just above one; zero where arithmetic is exact. -/
  epsilon : α
  isFinite : α → Bool
  decidableLT : DecidableLT α
  decidableLE : DecidableLE α

attribute [reducible, instance] Scalar.decidableLT Scalar.decidableLE

namespace Scalar

variable {α : Type} [Scalar α]

/-- The whole number `n`. -/
def ofNat (n : Nat) : α := decimal n 0

def two : α := 1 + 1

def half : α := 1 / two

def abs (x : α) : α := if x < 0 then -x else x

/-- No number compares with a value that is not a number, not even itself. -/
def isNaN (x : α) : Bool := !decide (x ≤ x)

/-- Equal to zero, of either sign. -/
def isZero (x : α) : Bool := decide (x ≤ 0) && decide (0 ≤ x)

/-- The larger of two numbers; of a number and a value that is not one, the number. -/
def larger (x y : α) : α := if x < y ∨ isNaN x then y else x

/-- The sum `f 0 + f 1 + ⋯ + f (n - 1)`, added in this order. -/
def sum (n : Nat) (f : Nat → α) : α :=
  match n with
  | 0 => 0
  | n + 1 => sum n f + f n

theorem sum_succ (n : Nat) (f : Nat → α) : sum (n + 1) f = sum n f + f n := rfl

/-- The sum of a list, from its head. -/
def listSum (xs : List α) : α := xs.foldl (· + ·) 0

end Scalar

/-- A literal read in tenths: the mantissa with its point moved by the exponent. -/
private def scaleDecimal {β : Type} (ofScientific : Nat → Bool → Nat → β) (m : Nat) : Int → β
  | .ofNat e => ofScientific m false e
  | .negSucc e => ofScientific m true (e + 1)

instance : Scalar Float where
  zero := 0
  one := 1
  sqrt := Float.sqrt
  sin := Float.sin
  cos := Float.cos
  pi := 3.141592653589793
  decimal := scaleDecimal Float.ofScientific
  epsilon := 2.220446049250313e-16
  isFinite := Float.isFinite
  decidableLT := inferInstance
  decidableLE := inferInstance

instance : Scalar Float32 where
  zero := 0
  one := 1
  sqrt := Float32.sqrt
  sin := Float32.sin
  cos := Float32.cos
  pi := 3.141592653589793
  decimal := scaleDecimal Float32.ofScientific
  epsilon := 1.1920929e-7
  isFinite := Float32.isFinite
  decidableLT := inferInstance
  decidableLE := inferInstance

end CompliantContact
