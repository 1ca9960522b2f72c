/-! Values of TOML texts and the tables that statements build. A key is defined once; whether a
table may be extended depends on how it came to be. -/

namespace TruthLint.Toml

/-- How a table came to be: by a header, as a table on the way to the one that a header names, as
one on the way of a dotted key, or as a value in braces. -/
inductive Origin where
  | header | implied | dotted | braces
deriving DecidableEq, Repr

inductive Value where
  | string (s : String)
  | boolean (b : Bool)
  /-- An integer or a float. -/
  | number
  /-- A date, a time or both. -/
  | moment
  | array (items : List Value)
  | table (origin : Origin) (entries : List (String × Value))
  /-- An array of tables that headers build; only the last one can still be extended. -/
  | tables (earlier : List (List (String × Value))) (last : List (String × Value))

abbrev Entries := List (String × Value)

/-- A key with dots: the tables on its way and the name in the last of them. -/
structure Key where
  path : List String
  name : String
deriving DecidableEq, Repr

namespace Key

/-- The key as a path of its own. -/
def whole (key : Key) : List String := key.path ++ [key.name]

end Key

namespace Entries

/-- Changes the value of a name, or adds one for a new name. -/
def alter? (name : String) (f : Option Value → Option Value) : Entries → Option Entries
  | [] => (f none).map fun value => [(name, value)]
  | (other, value) :: rest =>
    if other = name then (f (some value)).map fun value => (other, value) :: rest
    else (alter? name f rest).map ((other, value) :: ·)

/-- Changes the table at the end of a path of names as headers give them. Any table but one in
braces can be entered, and a missing one is implied. -/
def within? (f : Entries → Option Entries) : (path : List String) → Entries → Option Entries
  | [], entries => f entries
  | step :: path, entries => alter? step (fun
      | none => (within? f path []).map (.table .implied)
      | some (.table .braces _) => none
      | some (.table origin sub) => (within? f path sub).map (.table origin)
      | some (.tables earlier last) => (within? f path last).map (.tables earlier)
      | some _ => none) entries

/-- Defines a table by a header. It may be implied so far, and keeps what is in it. -/
def openTable? (name : String) : Entries → Option Entries :=
  alter? name fun
    | none => some (.table .header [])
    | some (.table .implied entries) => some (.table .header entries)
    | some _ => none

/-- Adds a table to an array of tables. -/
def openElement? (name : String) : Entries → Option Entries :=
  alter? name fun
    | none => some (.tables [] [])
    | some (.tables earlier last) => some (.tables (earlier ++ [last]) [])
    | some _ => none

def define? (name : String) (value : Value) : Entries → Option Entries :=
  alter? name fun
    | none => some value
    | some _ => none

/-- Whether a dotted key may lead through a table of this origin. The table that gets the value
has to be made by dotted keys alone. -/
def passable (origin : Origin) (isLast : Bool) : Bool :=
  origin == .dotted || (origin == .implied && !isLast)

/-- Defines a value under a dotted key whose path begins in the given table. -/
def assign? (name : String) (value : Value) : (path : List String) → Entries → Option Entries
  | [], entries => define? name value entries
  | step :: path, entries => alter? step (fun
      | none => (assign? name value path []).map (.table .dotted)
      | some (.table origin sub) =>
        if passable origin path.isEmpty then
          (assign? name value path sub).map (.table origin)
        else none
      | some (.tables earlier last) =>
        if path.isEmpty then none else (assign? name value path last).map (.tables earlier)
      | some _ => none) entries

end Entries

end TruthLint.Toml
