import Memsift.Disk
import Memsift.Settings.Toml

/-!
# Settings files

Settings that are loaded from a file and saved to one, and the file that the log goes to.
-/

namespace Memsift

variable {m : Type → Type} [Monad m]

namespace Settings

/-- Where settings are looked for unless something else is asked for. -/
def defaultLocation : String := "memory-scan.toml"

def load (disk : Disk m) (path : String) : m (Except SettingsError Settings) := do
  if ← disk.contains path then
    match ← disk.read? path with
    | some content => return ofBytes content
    | none => return .error .io
  else return .error (.fileNotFound path)

/-- The settings of a file, or the defaults if they cannot be loaded. -/
def loadOrDefault (disk : Disk m) (path : String) : m Settings := do
  return (← load disk path).toOption.getD {}

def save (disk : Disk m) (path : String) (s : Settings) : m (Except SettingsError Unit) := do
  match s.toText with
  | .error e => return .error e
  | .ok text => if ← disk.write path text.toUTF8 then return .ok () else return .error .io

end Settings

/-- Adds to the log. -/
def LogSettings.append (disk : Disk m) (log : LogSettings) (text : String) : m (Except SettingsError Unit) := do
  if ← disk.append log.file text.toUTF8 then return .ok () else return .error .io

end Memsift
