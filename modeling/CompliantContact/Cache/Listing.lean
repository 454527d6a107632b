import CompliantContact.Cache.Basic
import CompliantContact.Text.Quoted

/-!
Caches in listings: for each entry its name, whether it holds a value, its version, and whether it is
in progress.
-/

namespace CompliantContact

namespace Entry

variable {V : Type}

def listing (e : Entry V) : String :=
  "(" ++ ", ".intercalate [Quoted.write e.name, toString e.value.isSome, toString e.version,
    toString e.inProgress] ++ ")"

end Entry

namespace Cache

variable {V : Type}

def listing (c : Cache V) : String :=
  "[" ++ ", ".intercalate (c.entries.toList.map Entry.listing) ++ "]"

end Cache

end CompliantContact
