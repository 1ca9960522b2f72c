import TruthLint.Checks
import TruthLint.Toml.Document

/-! Configurations and how a TOML document gives one. Options that are not known are no errors;
they are reported. -/

namespace TruthLint

structure Config where
  /-- Names of files and directories that are left out of a search. -/
  exclude : List String
  checks : ChecksConfig
deriving DecidableEq, Repr

namespace Config

def empty : Config := ⟨[], .empty⟩

def fileName : String := "boolcheck.toml"

end Config

namespace Toml.Value

def boolean? : Value → Option Bool
  | boolean b => some b
  | _ => none

def string? : Value → Option String
  | string s => some s
  | _ => none

def strings? : Value → Option (List String)
  | array items => items.mapM string?
  | _ => none

def isEmpty : Value → Bool
  | array items => items.isEmpty
  | table _ entries => entries.isEmpty
  | _ => false

/-- A severity is the text of its name, or a table whose only key is its name and holds nothing. -/
def severity? : Value → Option Severity
  | string s => Severity.ofName? s
  | table _ [(name, value)] => if value.isEmpty then Severity.ofName? name else none
  | _ => none

def severities? : Value → Option (List (String × Severity))
  | table _ entries => entries.mapM fun (name, value) => (severity? value).map (name, ·)
  | _ => none

end Toml.Value

namespace ChecksConfig

/-- The options, in the order in which an array gives them. -/
def optionNames : List String :=
  ["style", "warning", "inconclusive", "experimental", "disabled", "severity"]

/-- The settings for which `value?` tells the values of options; an absent one has a default. -/
def ofValues? (value? : String → Option Toml.Value) : Option ChecksConfig := do
  let flag (name : String) : Option (Option Bool) :=
    match value? name with
    | some v => (Toml.Value.boolean? v).map some
    | none => some none
  return {
    style := ← flag "style"
    warning := ← flag "warning"
    inconclusive := ← flag "inconclusive"
    experimental := ← flag "experimental"
    disabled := ← (match value? "disabled" with
      | some v => Toml.Value.strings? v
      | none => some [])
    severity := ← (match value? "severity" with
      | some v => Toml.Value.severities? v
      | none => some []) }

/-- The settings are a table, or an array of the values in the order of the options, where the
last ones may be missing. A date or a time stands for no settings at all. -/
def ofToml? : Toml.Value → Option ChecksConfig
  | .table _ entries => ofValues? fun name => entries.lookup name
  | .array items => ofValues? fun name => (optionNames.zip items).lookup name
  | .moment => some .empty
  | _ => none

end ChecksConfig

namespace Config

def optionNames : List String := ["exclude", "checks"]

def ofToml? (entries : Toml.Entries) : Option Config := do
  return {
    exclude := ← (match entries.lookup "exclude" with
      | some v => Toml.Value.strings? v
      | none => some [])
    checks := ← (match entries.lookup "checks" with
      | some v => ChecksConfig.ofToml? v
      | none => some .empty) }

/-- The keys that are not known, in the order of their characters. -/
def unknownKeys (known : List String) (entries : Toml.Entries) : List String :=
  ((entries.map (·.1)).filter fun key => !known.contains key).mergeSort fun a b => a ≤ b

/-- A warning for each option that is not known. -/
def warnings (entries : Toml.Entries) : List String :=
  ((unknownKeys optionNames entries).map fun key => s!"Unknown config option: '{key}'") ++
    match entries.lookup "checks" with
    | some (.table _ checks) =>
      (unknownKeys ChecksConfig.optionNames checks).map fun key =>
        s!"Unknown config option in [checks]: '{key}'"
    | _ => []

end Config

end TruthLint
