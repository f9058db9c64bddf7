import Memsift.Parsing
import Memsift.Address
import Memsift.Settings.File

/-!
# Options

The options of the program.  An option has a long name and perhaps a letter; its value follows in the same argument
or in the next one, which then does not begin with a hyphen.  The arguments are taken in order, and the first mistake
counts, unless help or the version is asked for before it.
-/

namespace Memsift.CommandLine

inductive OptionName where
  | current | previous | base | type | bigEndian | alignment | compare | value | constraint | config | limit
  | help | version
deriving DecidableEq

namespace OptionName

def all : List OptionName :=
  [current, previous, base, type, bigEndian, alignment, compare, value, constraint, config, limit, help, version]

def long : OptionName → String
  | current => "current"
  | previous => "previous"
  | base => "base"
  | type => "type"
  | bigEndian => "big-endian"
  | alignment => "alignment"
  | compare => "compare"
  | value => "value"
  | constraint => "constraint"
  | config => "config"
  | limit => "limit"
  | help => "help"
  | version => "version"

def letter? : OptionName → Option Char
  | type => some 't'
  | alignment => some 'a'
  | compare => some 'c'
  | value => some 'v'
  | limit => some 'l'
  | help => some 'h'
  | version => some 'V'
  | _ => none

def takesValue : OptionName → Bool
  | bigEndian | help | version => false
  | _ => true

def ofLong? (cs : List Char) : Option OptionName := all.find? (·.long.toList == cs)

def ofLetter? (c : Char) : Option OptionName := all.find? (·.letter? == some c)

end OptionName

/-- What is wrong with the arguments. -/
inductive Misuse where
  | unexpected (argument : String)
  | unexpectedValue (name : OptionName)
  | missingValue (name : OptionName)
  | invalidValue (name : OptionName) (text : String)
  | repeated (name : OptionName)
  | conflict (first second : OptionName)
  | missing (name : OptionName)
deriving DecidableEq

def Misuse.message : Misuse → String
  | unexpected argument => "unexpected argument '" ++ argument ++ "'"
  | unexpectedValue name => "--" ++ name.long ++ " does not take a value"
  | missingValue name => "--" ++ name.long ++ " needs a value"
  | invalidValue name text => "invalid value '" ++ text ++ "' for --" ++ name.long
  | repeated name => "--" ++ name.long ++ " cannot be given twice"
  | conflict first second => "--" ++ first.long ++ " cannot be used with --" ++ second.long
  | missing name => "--" ++ name.long ++ " is required"

/-! ### Single arguments -/

inductive Argument where
  | option (name : OptionName) (attached : Option String)
  /-- Two hyphens: no option follows. -/
  | separator
  | other

namespace Argument

/-- What an equals sign introduces. -/
def afterEquals? : List Char → Option String
  | '=' :: cs => some (String.ofList cs)
  | _ => none

def ofText (text : String) : Argument :=
  match text.toList with
  | ['-', '-'] => separator
  | '-' :: '-' :: cs =>
    match OptionName.ofLong? (cs.takeWhile (· != '=')) with
    | some name => option name (afterEquals? (cs.dropWhile (· != '=')))
    | none => other
  | '-' :: c :: cs =>
    match OptionName.ofLetter? c with
    | some name =>
      if cs.isEmpty || !name.takesValue then option name none
      else option name (afterEquals? cs <|> some (String.ofList cs))
    | none => other
  | _ => other

/-- Whether an argument can be the value of the option before it. -/
def canBeValue (text : String) : Bool := text == "-" || !text.startsWith "-"

end Argument

/-! ### All arguments -/

structure Options where
  current : String
  previous : Option String
  base : Address
  type : DataType
  alignment : Option Nat
  compare : ConstraintKind
  value : Option String
  constraint : Option String
  config : String
  limit : Nat

/-- The options so far, and the names of those that were given. -/
structure OptionsDraft where
  given : List OptionName := []
  current : Option String := none
  previous : Option String := none
  base : Address := .ofNat 0
  type : ValueType := .number (.signed .four)
  byteOrder : ByteOrder := .little
  alignment : Option Nat := none
  compare : ConstraintKind := .equal
  value : Option String := none
  constraint : Option String := none
  config : Option String := none
  limit : Nat := 20

namespace OptionsDraft

/-- A number of 64 bits. -/
def count? (text : String) : Option Nat :=
  (Text.natural? 10 text.toList).bind fun n => if n < UInt64.size then some n else none

/-- A path that is not empty. -/
def path? (text : String) : Option String := if text.isEmpty then none else some text

/-- Takes the value of an option; absent if it will not do. -/
def assign? (d : OptionsDraft) (name : OptionName) (text : String) : Option OptionsDraft :=
  match name with
  | .current => (path? text).map fun path => { d with current := some path }
  | .previous => (path? text).map fun path => { d with previous := some path }
  | .base => (Address.parse text).toOption.map fun base => { d with base }
  | .type => (ValueType.parse text).toOption.map fun type => { d with type }
  | .alignment => (count? text).map fun n => { d with alignment := some n }
  | .compare => (ConstraintKind.parse text).toOption.map fun compare => { d with compare }
  | .value => some { d with value := some text }
  | .constraint => some { d with constraint := some text }
  | .config => (path? text).map fun path => { d with config := some path }
  | .limit => (count? text).map fun limit => { d with limit }
  | .bigEndian | .help | .version => none

def give (d : OptionsDraft) (name : OptionName) : Except Misuse OptionsDraft :=
  if d.given.contains name then .error (.repeated name) else .ok { d with given := name :: d.given }

def set (d : OptionsDraft) (name : OptionName) (text : String) : Except Misuse OptionsDraft := do
  match d.assign? name text with
  | some d => d.give name
  | none => throw (.invalidValue name text)

/-- Whatever is left open takes its default; `location` is where the settings are unless an option says so. -/
def finish (d : OptionsDraft) (location : Option String) : Except Misuse Options := do
  let config ← match d.config, location with
    | some path, _ => pure path
    | none, some path => if path.isEmpty then throw (.invalidValue .config path) else pure path
    | none, none => pure Settings.defaultLocation
  if d.given.contains .compare ∧ d.given.contains .constraint then throw (.conflict .compare .constraint)
  match d.current with
  | none => throw (.missing .current)
  | some current =>
    return { d with current, config, type := ⟨d.type, d.byteOrder⟩ }

end OptionsDraft

/-- What the arguments ask for. -/
inductive Request where
  | help
  | version
  | scan (options : Options)

namespace Request

def ofArguments (location : Option String) : List String → OptionsDraft → Except Misuse Request
  | [], d => (d.finish location).map scan
  | text :: rest, d =>
    match Argument.ofText text with
    | .separator =>
      match rest with
      | [] => (d.finish location).map scan
      | text :: _ => throw (.unexpected text)
    | .option .help none => return help
    | .option .version none => return version
    | .option .bigEndian none => do ofArguments location rest (← { d with byteOrder := .big }.give .bigEndian)
    | .option name (some value) =>
      if name.takesValue then do ofArguments location rest (← d.set name value) else throw (.unexpectedValue name)
    | .option name none =>
      match rest with
      | value :: rest =>
        if Argument.canBeValue value then do ofArguments location rest (← d.set name value)
        else throw (.missingValue name)
      | [] => throw (.missingValue name)
    | .other => throw (.unexpected text)

/-- What the arguments of the program ask for. -/
def parse (location : Option String) (arguments : List String) : Except Misuse Request :=
  ofArguments location arguments {}

end Request
end Memsift.CommandLine
