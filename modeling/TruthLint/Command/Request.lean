import TruthLint.Number.Literal

/-! Requests: what a command line asks for, or why it is no use. -/

namespace TruthLint.Command

structure CheckRequest where
  path : String
  format : String
  inconclusive : Bool
  experimental : Bool
  failOnWarnings : Bool
  noColour : Bool
deriving DecidableEq, Repr

structure ReduceRequest where
  file : String
  line : Nat
  output : Option String
deriving DecidableEq, Repr

inductive Request where
  | check (request : CheckRequest)
  | explain (rule : String)
  | reduce (request : ReduceRequest)
  | help
  | version
deriving DecidableEq, Repr

/-- Why a command line is no use. -/
inductive Misuse where
  | commandMissing
  | unknown (argument : String)
  | repeated (option : String)
  | valueMissing (option : String)
  | valueRefused (name value : String)
  | operandMissing (name : String)
deriving DecidableEq, Repr

namespace Misuse

def message : Misuse → String
  | commandMissing => "a command is missing"
  | unknown argument => s!"unexpected argument '{argument}'"
  | repeated option => s!"the option '--{option}' is given twice"
  | valueMissing option => s!"the option '--{option}' needs a value"
  | valueRefused name value => s!"invalid value '{value}' for '{name}'"
  | operandMissing name => s!"the argument '{name}' is missing"

end Misuse

/-- The first argument that is no option. -/
inductive Verb where
  | check | explain | reduce | help
deriving DecidableEq, Repr

namespace Verb

def ofName? : String → Option Verb
  | "check" => some check
  | "explain" => some explain
  | "reduce" => some reduce
  | "help" => some help
  | _ => none

end Verb

/-- An option: a switch, or one with a value. -/
inductive Parameter where
  | switch (name : String)
  | valued (name : String) (letter : Option Char) (allowed : String → Bool)

namespace Parameter

def name : Parameter → String
  | switch name => name
  | valued name _ _ => name

def letter? : Parameter → Option Char
  | switch _ => none
  | valued _ letter _ => letter

/-- A switch is given with an empty value. -/
def allows : Parameter → String → Bool
  | switch _, value => value.isEmpty
  | valued _ _ allowed, value => allowed value

end Parameter

/-- An argument that is no option, known by its place. -/
structure Operand where
  name : String
  allowed : String → Bool

def isNotEmpty (value : String) : Bool := !value.isEmpty

/-- Options that are known before and after the verb. -/
def commonParameters : List Parameter :=
  [.valued "log-level" none ["trace", "debug", "info", "warn", "error"].contains,
    .switch "log-json"]

namespace Verb

def parameters : Verb → List Parameter
  | check => [.valued "format" (some 'f') fun _ => true, .switch "inconclusive",
      .switch "experimental", .switch "fail-on-warnings", .switch "no-color"]
  | reduce => [.valued "output" (some 'o') isNotEmpty]
  | explain | help => []

def operands : Verb → List Operand
  | check => [⟨"PATH", isNotEmpty⟩]
  | explain => [⟨"RULE_ID", fun _ => true⟩]
  | reduce => [⟨"FILE", isNotEmpty⟩, ⟨"LINE", fun value => (Number.word? 10 value.toList).isSome⟩]
  | help => [⟨"COMMAND", fun value => (ofName? value).isSome⟩]

end Verb

/-- How far a command line has been read. -/
structure Progress where
  verb : Option Verb
  /-- Whether all arguments that follow are operands. -/
  literal : Bool
  /-- The option whose value comes next. -/
  pending : Option Parameter
  given : List (String × String)
  operands : List String

/-- Reading ends early with a request that is answered at once, or with a misuse. -/
inductive Stop where
  | answered (request : Request)
  | refused (misuse : Misuse)
deriving DecidableEq, Repr

namespace Progress

def initial : Progress := ⟨none, false, none, [], []⟩

def parameters (p : Progress) : List Parameter :=
  commonParameters ++ (p.verb.map Verb.parameters).getD []

def give (p : Progress) (parameter : Parameter) (value : String) : Except Stop Progress :=
  if (p.given.lookup parameter.name).isSome then .error (.refused (.repeated parameter.name))
  else if parameter.allows value then
    .ok { p with given := (parameter.name, value) :: p.given, pending := none }
  else .error (.refused (.valueRefused parameter.name value))

/-- An option by its name, with a value after an equals sign or none. -/
def readName (p : Progress) (cs : List Char) : Except Stop Progress :=
  let name := String.ofList (cs.takeWhile (· != '='))
  let value? : Option String := match cs.dropWhile (· != '=') with
    | '=' :: value => some (String.ofList value)
    | _ => none
  match p.parameters.find? (·.name == name), value? with
  | some (.switch name), none => p.give (.switch name) ""
  | some (.valued name letter allowed), some value => p.give (.valued name letter allowed) value
  | some parameter, none => .ok { p with pending := some parameter }
  | some (.switch _), some value => .error (.refused (.valueRefused name value))
  | none, none =>
    if name = "help" then .error (.answered .help)
    else if name = "version" ∧ p.verb.isNone then .error (.answered .version)
    else .error (.refused (.unknown name))
  | none, some _ => .error (.refused (.unknown name))

/-- An option by its letter, with a value after it or none. -/
def readLetter (p : Progress) (letter : Char) (cs : List Char) : Except Stop Progress :=
  match p.parameters.find? (·.letter? == some letter), cs with
  | some parameter, [] => .ok { p with pending := some parameter }
  | some parameter, '=' :: value => p.give parameter (String.ofList value)
  | some parameter, value => p.give parameter (String.ofList value)
  | none, _ =>
    if letter = 'h' then .error (.answered .help)
    else if letter = 'V' ∧ p.verb.isNone then .error (.answered .version)
    else .error (.refused (.unknown letter.toString))

/-- An argument that is no option: the verb, if it is still missing, or an operand. What follows
the verb `help` is never an option. -/
def readOperand (p : Progress) (argument : String) : Except Stop Progress :=
  match p.verb with
  | none =>
    match Verb.ofName? argument with
    | some verb =>
      if p.literal then .error (.refused (.unknown argument))
      else .ok { p with verb := some verb, literal := verb = .help, given := [] }
    | none => .error (.refused (.unknown argument))
  | some verb =>
    match verb.operands[p.operands.length]? with
    | some operand =>
      if operand.allowed argument then .ok { p with operands := p.operands ++ [argument] }
      else .error (.refused (.valueRefused operand.name argument))
    | none => .error (.refused (.unknown argument))

/-- Reads one argument. A value never begins with a hyphen, unless it is nothing else. -/
def read (p : Progress) (argument : String) : Except Stop Progress :=
  if p.literal then p.readOperand argument
  else
    match p.pending, argument.toList with
    | some parameter, '-' :: _ :: _ => .error (.refused (.valueMissing parameter.name))
    | some parameter, _ => p.give parameter argument
    | none, ['-', '-'] => .ok { p with literal := true }
    | none, '-' :: '-' :: cs => p.readName cs
    | none, '-' :: letter :: cs => p.readLetter letter cs
    | none, _ => p.readOperand argument

def has (p : Progress) (name : String) : Bool := (p.given.lookup name).isSome

/-- The request that all arguments together make. -/
def finish (p : Progress) : Except Misuse Request :=
  match p.pending, p.verb, p.operands with
  | some parameter, _, _ => .error (.valueMissing parameter.name)
  | none, none, _ => .error .commandMissing
  | none, some .help, _ => .ok .help
  | none, some .check, [path] =>
    .ok (.check {
      path
      format := (p.given.lookup "format").getD "text"
      inconclusive := p.has "inconclusive"
      experimental := p.has "experimental"
      failOnWarnings := p.has "fail-on-warnings"
      noColour := p.has "no-color" })
  | none, some .explain, [rule] => .ok (.explain rule)
  | none, some .reduce, [file, line] =>
    .ok (.reduce ⟨file, (Number.word? 10 line.toList).getD 0, p.given.lookup "output"⟩)
  | none, some verb, operands =>
    .error (.operandMissing ((verb.operands[operands.length]?.map (·.name)).getD ""))

end Progress

/-- The request that a command line makes. -/
def Request.ofArguments (arguments : List String) : Except Misuse Request :=
  match arguments.foldlM Progress.read .initial with
  | .ok progress => progress.finish
  | .error (.answered request) => .ok request
  | .error (.refused misuse) => .error misuse

end TruthLint.Command
