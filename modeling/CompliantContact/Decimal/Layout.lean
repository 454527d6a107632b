import CompliantContact.Decimal.Shortest

/-!
Written forms of numbers.

A layout says which decimals are written in positions and which with an exponent; the digits are
always the shortest ones. Three layouts are in use: plain numbers in messages, numbers inside the
listing of a record, and numbers in scientific form.
-/

namespace CompliantContact

namespace Decimal

structure Layout where
  /-- Whether a number whose leading digit has this exponent is written in positions. -/
  positional : Int → Bool
  /-- Whether a whole number in positions ends in a point and a zero. -/
  pointed : Bool

namespace Layout

/-- A number in a message: every digit in its position, and no point in a whole number. -/
def plain : Layout := ⟨fun _ => true, false⟩

/-- A number in a listing: an exponent from `1e16` up and below `1e-4`, and a point in any other. -/
def listing : Layout := ⟨fun e => -4 ≤ e && e < 16, true⟩

/-- One digit before the point, and always an exponent. -/
def scientific : Layout := ⟨fun _ => false, false⟩

end Layout

def leading (d : Decimal) : Int := d.exponent + (digitCount d.digits - 1 : Nat)

def writePositional (pointed : Bool) (d : Decimal) : String :=
  let digits := Nat.toDigits 10 d.digits
  let whole : List Char → String := fun cs => String.ofList cs ++ if pointed then ".0" else ""
  if d.digits = 0 then whole ['0']
  else if 0 ≤ d.exponent then whole (digits ++ List.replicate d.exponent.toNat '0')
  else
    let places := (-d.exponent).toNat
    let padded := List.replicate (places + 1 - digits.length) '0' ++ digits
    let point := padded.length - places
    String.ofList (padded.take point) ++ "." ++ String.ofList (padded.drop point)

/-- One digit, the others behind a point, and the exponent. -/
def writeScientific (d : Decimal) : String :=
  let digits := Nat.toDigits 10 d.digits
  let mantissa := match digits with
    | [] => "0"
    | [c] => String.ofList [c]
    | c :: rest => String.ofList (c :: '.' :: rest)
  mantissa ++ "e" ++ toString d.leading

def write (layout : Layout) (d : Decimal) : String :=
  (if d.negative then "-" else "") ++
    if d.digits = 0 ∧ layout.pointed ∨ layout.positional d.leading then d.writePositional layout.pointed
    else d.writeScientific

def text (layout : Layout) (x : Float) : String :=
  match Binary64.ofFloat x with
  | .notANumber => "NaN"
  | .infinite negative => if negative then "-inf" else "inf"
  | .finite negative m q => (shortest negative m q).write layout

end Decimal

end CompliantContact
