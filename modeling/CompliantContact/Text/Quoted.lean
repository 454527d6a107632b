import CompliantContact.Text.Hidden

/-!
Strings in listings: between double quotes, with the characters escaped that would break the line or
the quotes, or that a reader could not see.
-/

namespace CompliantContact

namespace Quoted

/-- A character between the quotes. What shows nothing of its own is written by its code point. -/
def escape (c : Char) : String :=
  if c = '\x00' then "\\0"
  else if c = '\t' then "\\t"
  else if c = '\r' then "\\r"
  else if c = '\n' then "\\n"
  else if c = '"' then "\\\""
  else if c = '\\' then "\\\\"
  else if Hidden.contains c then "\\u\x7b" ++ String.ofList (Nat.toDigits 16 c.toNat) ++ "\x7d"
  else c.toString

def write (s : String) : String := "\"" ++ String.join (s.toList.map escape) ++ "\""

end Quoted

end CompliantContact
