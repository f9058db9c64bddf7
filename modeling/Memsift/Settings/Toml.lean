import Memsift.Settings
import Memsift.Toml.Reader

/-!
# Stored settings

Settings as TOML: a table `scanner` and a table `logging`.  What is missing keeps its default, and unknown keys are
ignored.  A table may also be given as an array of its values in order.
-/

namespace Memsift

namespace Settings

/-! ### Reading -/

/-- What a table holds under some keys; an array holds its items under them, and a date holds nothing. -/
def parts? (keys : List String) : Toml → Option (List (Option Toml))
  | .table entries => some (keys.map fun key => entries.lookup key)
  | .array items => some (keys.mapIdx fun i _ => items[i]?)
  | .moment _ => some (keys.map fun _ => none)
  | _ => none

/-- Reads a part, or takes the default for a missing one. -/
def part? {α : Type} (read? : Toml → Option α) (default : α) : Option Toml → Option α
  | some v => read? v
  | none => some default

def count? : Toml → Option Nat
  | .integer i => if 0 ≤ i then some i.toNat else none
  | _ => none

def boolean? : Toml → Option Bool
  | .boolean b => some b
  | _ => none

def string? : Toml → Option String
  | .string content => some content
  | _ => none

/-- A number of bytes or a name. -/
def alignment? : Toml → Option Alignment
  | .integer i => if 0 ≤ i then (Alignment.ofBytes i.toNat).toOption else none
  | .string name => Alignment.ofName? name
  | _ => none

def scanSettings? (v : Toml) : Option ScanSettings := do
  let defaults : ScanSettings := {}
  match ← parts? ["max_threads", "parallel", "alignment", "progress_interval"] v with
  | [threads, parallel, alignment, interval] =>
    return {
      maxThreads := ← part? (fun v => (count? v).map some) defaults.maxThreads threads
      parallel := ← part? boolean? defaults.parallel parallel
      alignment := ← part? alignment? defaults.alignment alignment
      progressInterval := ← part? count? defaults.progressInterval interval }
  | _ => none

def logSettings? (v : Toml) : Option LogSettings := do
  let defaults : LogSettings := {}
  match ← parts? ["level", "file"] v with
  | [level, file] =>
    return { level := ← part? string? defaults.level level, file := ← part? string? defaults.file file }
  | _ => none

def ofToml? (v : Toml) : Option Settings := do
  match ← parts? ["scanner", "logging"] v with
  | [scan, log] => return { scan := ← part? scanSettings? {} scan, log := ← part? logSettings? {} log }
  | _ => none

/-- Reads the bytes of a file. -/
def ofBytes (content : ByteArray) : Except SettingsError Settings :=
  match String.fromUTF8? content with
  | none => .error .io
  | some text =>
    match (Toml.ofText? text).bind ofToml? with
    | some s => .ok s
    | none => .error .unreadable

/-! ### Writing -/

/-- A line of a table; a missing value has none. -/
def line (key : String) : Option String → List String
  | some value => [key ++ " = " ++ value]
  | none => []

/-- A number, if TOML can hold it. -/
def writeCount? (n : Nat) : Option String :=
  if n ≤ Toml.high then some (String.ofList (Text.decimal n)) else none

/-- Both tables with all their keys, the number of threads only if it is set. -/
def toText (s : Settings) : Except SettingsError String :=
  match s.scan.maxThreads.mapM writeCount?, writeCount? s.scan.progressInterval with
  | some threads, some interval =>
    .ok ("\n".intercalate (["[scanner]"] ++ line "max_threads" threads ++
      line "parallel" (if s.scan.parallel then "true" else "false") ++
      line "alignment" (Toml.writeString s.scan.alignment.name) ++
      line "progress_interval" interval ++
      ["", "[logging]"] ++ line "level" (Toml.writeString s.log.level) ++
      line "file" (Toml.writeString s.log.file) ++ [""]))
  | _, _ => .error .unwritable

end Settings
end Memsift
