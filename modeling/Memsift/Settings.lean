import Memsift.Alignment

/-!
# Settings

What a user can set for scans and for the log, and the values that are taken where nothing is set.
-/

namespace Memsift

structure ScanSettings where
  /-- The number of threads; absent for what the machine offers, eight at most. -/
  maxThreads : Option Nat := none
  parallel : Bool := true
  alignment : Alignment := .auto
  /-- The number of regions between two reports of progress. -/
  progressInterval : Nat := 64
deriving DecidableEq, Repr

structure LogSettings where
  level : String := "info"
  file : String := "memory-scan.log"
deriving DecidableEq, Repr

structure Settings where
  scan : ScanSettings := {}
  log : LogSettings := {}
deriving DecidableEq, Repr

/-- Why settings cannot be used. -/
inductive SettingsError where
  | io
  | unreadable
  | unwritable
  | fileNotFound (path : String)
  | invalid (reason : String)
deriving DecidableEq, Repr

def SettingsError.message : SettingsError → String
  | io => "IO error"
  | unreadable => "TOML parsing error"
  | unwritable => "TOML serialization error"
  | fileNotFound path => "Configuration file not found: " ++ path
  | invalid reason => "Invalid configuration: " ++ reason

namespace Settings

/-- The most threads that can be asked for. -/
def threadLimit : Nat := 128

/-- The log levels, the most talkative one first. -/
def levels : List String := ["trace", "debug", "info", "warn", "error", "off"]

/-- The first setting that is out of range; a level may be written in any case. -/
def validate (s : Settings) : Except SettingsError Unit :=
  let threads := s.scan.maxThreads.getD 1
  if threads = 0 then .error (.invalid "Scanner threads must be at least 1")
  else if threadLimit < threads then .error (.invalid ("Scanner threads cannot exceed " ++ toString threadLimit))
  else if s.scan.progressInterval = 0 then .error (.invalid "Progress interval must be at least 1")
  else if !levels.contains (s.log.level.map Char.toLower) then
    .error (.invalid ("Invalid log level: " ++ s.log.level ++ ". Must be one of: [" ++
      ", ".intercalate (levels.map fun level => "\"" ++ level ++ "\"") ++ "]"))
  else if s.log.file.isEmpty then .error (.invalid "Log file path cannot be empty")
  else .ok ()

end Settings
end Memsift
