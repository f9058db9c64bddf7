import Memsift.CommandLine.Help
import Memsift.Constraint.Json
import Memsift.Scan

/-!
# Running the program

The program reads one or two dumps from a disk, scans them as the options and the settings say, and lists the
elements that were found.
-/

namespace Memsift.CommandLine

open MonadExcept (ofExcept)

/-- Why there is no result. -/
inductive Failure where
  | loading (path : String)
  | settings (e : SettingsError)
  | openingLog (path : String)
  | reading (path : String)
  | missingValue (kind : ConstraintKind)
  | scanning (e : Error)
  | unfinished (state : TaskState)

def Failure.message : Failure → String
  | loading path => "failed to load " ++ path
  | settings e => e.message
  | openingLog path => "failed to open log file " ++ path
  | reading path => "failed to read " ++ path
  | missingValue kind => kind.title ++ " needs --value"
  | scanning e => e.message
  | unfinished state => "scan ended in state " ++ state.title

/-- The line that sums a result up, and a line for each element that is shown. -/
structure Report where
  summary : String
  elements : List String

/-- An element with its current value, and with its previous one on demand. -/
def elementLine (showPrevious : Bool) (e : Element) : String :=
  match e.current, e.previous with
  | some current, some previous =>
    e.address.upper ++ "  " ++ current.display ++
      if showPrevious then " (was " ++ previous.display ++ ")" else ""
  | some current, none => e.address.upper ++ "  " ++ current.display
  | none, _ => e.address.upper

def Report.ofSnapshot (s : Snapshot) (type : DataType) (limit : Nat) (showPrevious : Bool) : Report where
  summary := toString s.elementCount ++ " matches in " ++ toString s.regions.length ++ " regions (" ++
    toString s.byteCount ++ " bytes)"
  elements := (List.range (min s.elementCount limit)).filterMap fun i =>
    (s.elementAt? i type).map (elementLine showPrevious)

namespace Options

/-- The alignment that the options ask for, else that of the settings. -/
def toAlignment (o : Options) (settings : ScanSettings) : Except Failure Alignment :=
  match o.alignment with
  | some n => (Alignment.ofBytes n).mapError .scanning
  | none => .ok settings.alignment

/-- The constraint that the options describe: a tree, or one comparison with its value. -/
def toConstraint (o : Options) : Except Failure Constraint :=
  match o.constraint, o.value with
  | some text, _ => (Constraint.ofJsonText text).mapError .scanning
  | none, some text =>
    if o.compare.requiresValue then
      ((ScanValue.parse text o.type.valueType).mapError .scanning).map fun value => .leaf o.compare (some value)
    else .ok (.leaf o.compare none)
  | none, none => if o.compare.requiresValue then .error (.missingValue o.compare) else .ok (.leaf o.compare none)

/-- Scans dumps that were read. -/
def scanDumps (o : Options) (settings : ScanSettings) (c : Constraint) (current previous : ByteArray) :
    Except Failure Report := do
  let group ← (ReadGroup.ofValues o.base current.data previous.data).mapError .scanning
  let snapshot := Snapshot.ofGroups o.current #[group]
  let registry : TaskRegistry := { history := TaskRegistry.defaultHistory }
  let (outcome, _) := snapshot.scan settings .unattended c o.type "cli" ⟨registry, ()⟩
  let outcome ← outcome.mapError .scanning
  match outcome.snapshot with
  | some s => return .ofSnapshot s o.type o.limit c.requiresPrevious
  | none => throw (.unfinished outcome.state)

end Options

variable {m : Type → Type} [Monad m]

/-- The settings of a file that have been checked, the defaults if there is no file. -/
def loadSettings (disk : Disk m) (path : String) : ExceptT Failure m Settings := do
  let settings ← if ← disk.contains path then
      match ← (Settings.load disk path : m _) with
      | .ok settings => pure settings
      | .error _ => throw (.loading path)
    else pure {}
  match settings.validate with
  | .ok () => return settings
  | .error e => throw (.settings e)

def readDump (disk : Disk m) (path : String) : ExceptT Failure m ByteArray := do
  match ← disk.read? path with
  | some content => return content
  | none => throw (.reading path)

/-- Loads the settings, opens the log, and scans.  Without a dump of earlier values, the current ones are taken for
them. -/
def scan (disk : Disk m) (o : Options) : ExceptT Failure m Report := do
  let settings ← loadSettings disk o.config
  if let .error _ ← (settings.log.append disk "" : m _) then throw (.openingLog settings.log.file)
  let alignment ← ofExcept (o.toAlignment settings.scan)
  let c ← ofExcept o.toConstraint
  let current ← readDump disk o.current
  let previous ← match o.previous with
    | some path => readDump disk path
    | none => pure current
  ofExcept (o.scanDumps { settings.scan with alignment } c current previous)

/-- How a run ended. -/
inductive Answer where
  | text (lines : List String)
  | report (r : Report)
  | failed (f : Failure)
  | misused (e : Misuse)

/-- Runs the program with its arguments; `location` is where the settings are unless an option says so. -/
def run (disk : Disk m) (location : Option String) (arguments : List String) : m Answer := do
  match Request.parse location arguments with
  | .error e => return .misused e
  | .ok .help => return .text helpLines
  | .ok .version => return .text [versionLine]
  | .ok (.scan options) =>
    match ← (scan disk options).run with
    | .ok r => return .report r
    | .error f => return .failed f

end Memsift.CommandLine
