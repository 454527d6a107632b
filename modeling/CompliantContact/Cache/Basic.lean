import CompliantContact.Assigning

/-!
Values that are computed when asked for and kept while what they depend on stays the same.

A cache is a list of declared entries. An entry names its prerequisites: sources of change outside
the cache, which count their changes in versions, and entries declared before it. A kept value is up
to date while every prerequisite has the version that was seen when the value was computed, and every
entry among them is itself up to date.

While the value of an entry is computed the entry is in progress, and asking for it again is an
algebraic loop. A computation may ask for other entries; it takes the cache and gives it back, whether
it succeeds or fails, so what it brought up to date on the way is kept.
-/

namespace CompliantContact

/-- The sources of change outside a cache. -/
inductive Source where
  | time
  | discreteState
  | parameters
  | inputs
deriving DecidableEq, Inhabited, Repr

/-- How often each source has changed. -/
structure SourceVersions where
  time : Nat
  discreteState : Nat
  parameters : Nat
  inputs : Nat
deriving DecidableEq, Inhabited, Repr

namespace SourceVersions

def zero : SourceVersions := ⟨0, 0, 0, 0⟩

def get (v : SourceVersions) : Source → Nat
  | .time => v.time
  | .discreteState => v.discreteState
  | .parameters => v.parameters
  | .inputs => v.inputs

def bump (v : SourceVersions) : Source → SourceVersions
  | .time => { v with time := v.time + 1 }
  | .discreteState => { v with discreteState := v.discreteState + 1 }
  | .parameters => { v with parameters := v.parameters + 1 }
  | .inputs => { v with inputs := v.inputs + 1 }

end SourceVersions

/-- The position of an entry among those of its cache. -/
structure EntryIndex where
  val : Nat
deriving DecidableEq, Inhabited, Ord

namespace EntryIndex

instance : ToString EntryIndex := ⟨fun i => indexText "CacheIndex" i.val⟩

end EntryIndex

/-- What an entry depends on. -/
inductive Prerequisite where
  | source (s : Source)
  | entry (i : EntryIndex)
deriving DecidableEq, Inhabited

structure Entry (V : Type) where
  name : String
  prerequisites : List Prerequisite
  value : Option V
  /-- The versions of the prerequisites when the value was computed. -/
  seen : List Nat
  /-- How often the value was computed. -/
  version : Nat
  inProgress : Bool
deriving DecidableEq, Inhabited

namespace Entry

variable {V : Type}

def declared (name : String) (prerequisites : List Prerequisite) : Entry V :=
  ⟨name, prerequisites, none, [], 0, false⟩

end Entry

structure Cache (V : Type) where
  entries : Array (Entry V)
  /-- The entries whose computation was started, the latest first. -/
  started : List EntryIndex
deriving DecidableEq, Inhabited

/-- A computation that may ask for entries of a cache. -/
abbrev Cached (V α β : Type) := Assigning (Cache V) α β

namespace Cache

variable {V α β : Type}

def empty : Cache V := ⟨#[], []⟩

def size (c : Cache V) : Nat := c.entries.size

def isEmpty (c : Cache V) : Bool := c.entries.isEmpty

def entry? (c : Cache V) (i : EntryIndex) : Option (Entry V) := c.entries[i.val]?

def name? (c : Cache V) (i : EntryIndex) : Option String := (c.entry? i).map Entry.name

def version? (c : Cache V) (i : EntryIndex) : Option Nat := (c.entry? i).map Entry.version

def isInProgress (c : Cache V) (i : EntryIndex) : Bool := (c.entry? i).any Entry.inProgress

/-- The first of the prerequisites that is an entry not declared yet. -/
def undeclared? (c : Cache V) (prerequisites : List Prerequisite) : Option EntryIndex :=
  prerequisites.findSome? fun
    | .entry i => if i.val < c.size then none else some i
    | .source _ => none

/-- Declares an entry. The entries that it depends on must be declared before it. -/
def declare (c : Cache V) (name : String) (prerequisites : List Prerequisite) :
    Outcome α (Cache V × EntryIndex) :=
  match c.undeclared? prerequisites with
  | some i => .error (.structural (.entryNotDeclared name i.val))
  | none => .ok ({ c with entries := c.entries.push (.declared name prerequisites) }, ⟨c.size⟩)

/-- The same declarations without any value. -/
def emptyLike (c : Cache V) : Cache V :=
  ⟨c.entries.map fun e => .declared e.name e.prerequisites, []⟩

def invalidateAll (c : Cache V) : Cache V :=
  { c with entries := c.entries.map fun e => { e with value := none } }

/-- Whether an entry holds a value that is right for the given versions of the sources. -/
def isUpToDate (c : Cache V) (versions : SourceVersions) (i : EntryIndex) : Bool :=
  match c.entry? i with
  | none => false
  | some e =>
    e.value.isSome && (e.prerequisites.zip e.seen).all fun (p, seen) =>
      match p with
      | .source s => versions.get s == seen
      | .entry j =>
        if j.val < i.val then c.isUpToDate versions j && c.version? j == some seen else false
termination_by i.val

def current? (c : Cache V) (versions : SourceVersions) (i : EntryIndex) : Option V :=
  if c.isUpToDate versions i then (c.entry? i).bind Entry.value else none

def prerequisiteVersion (c : Cache V) (versions : SourceVersions) : Prerequisite → Nat
  | .source s => versions.get s
  | .entry j => (c.version? j).getD 0

def modify (c : Cache V) (i : EntryIndex) (f : Entry V → Entry V) : Cache V :=
  { c with entries := c.entries.modify i.val f }

def start (c : Cache V) (i : EntryIndex) : Cache V :=
  { c.modify i fun e => { e with inProgress := true } with started := i :: c.started }

/-- The cache when the computation of an entry has ended, with or without success. -/
def finish (c : Cache V) (i : EntryIndex) : Cache V :=
  c.modify i fun e => { e with inProgress := false }

/-- The cache with a new value of an entry, which has the present versions of its prerequisites. -/
def store (c : Cache V) (versions : SourceVersions) (i : EntryIndex) (value : V) : Cache V :=
  c.modify i fun e => { e with
    value := some value
    seen := e.prerequisites.map (c.prerequisiteVersion versions)
    version := e.version + 1 }

def compute (versions : SourceVersions) (i : EntryIndex) (toValue : β → V) (work : Cached V α β) :
    Cached V α β := fun c =>
  match work (c.start i) with
  | (.error e, c) => (.error e, c.finish i)
  | (.ok x, c) => (.ok x, (c.store versions i (toValue x)).finish i)

/-- The value of an entry, computed only if it is not up to date. The entry may hold a value that is
    not of the kind asked for. -/
def eval (versions : SourceVersions) (i : EntryIndex) (toValue : β → V) (ofValue? : V → Option β)
    (work : Cached V α β) : Cached V α β := fun c =>
  match c.entry? i with
  | none => (.error (.invalidIndex "cache entry" i.val), c)
  | some e =>
    if e.inProgress then (.error (.algebraicLoop e.name), c)
    else match c.current? versions i with
      | none => compute versions i toValue work c
      | some value =>
        match ofValue? value with
        | none => (.error (.structural (.entryOfOtherType e.name)), c)
        | some x => (.ok x, c)

end Cache

end CompliantContact
