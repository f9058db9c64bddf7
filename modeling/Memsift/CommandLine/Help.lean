import Memsift.CommandLine.Options

/-!
# Help

The name and the version of the program, and the text that explains its options.
-/

namespace Memsift.CommandLine

def programName : String := "memory-scan"

def version : String := "0.1.0"

/-- The name and the version. -/
def versionLine : String := programName ++ " " ++ version

namespace OptionName

/-- The name of the value in the help text. -/
def placeholder : OptionName → String
  | type => "VALUE_TYPE"
  | name => name.long.map Char.toUpper

def purpose : OptionName → String
  | current => "Dump holding the current values"
  | previous => "Dump of the same range taken earlier; required by delta constraints"
  | base => "Address the dumps were read from [default: 0x0]"
  | type => "Element type (i8..i64, u8..u64, f32, f64) [default: i32]"
  | bigEndian => "Interpret elements as big-endian"
  | alignment => "Stride between elements in bytes, overriding the configuration (0 = element size)"
  | compare => "Comparison to apply [default: equal]"
  | value => "Scan value for comparisons that take one"
  | constraint => "Full constraint tree as JSON"
  | config => "Configuration file [env: MEMORY_SCAN_CONFIG=] [default: " ++ Settings.defaultLocation ++ "]"
  | limit => "Number of matching elements to print [default: 20]"
  | help => "Print help"
  | version => "Print version"

/-- The ways to write an option. -/
def usage (name : OptionName) : String :=
  (match name.letter? with
    | some c => String.ofList ['-', c, ','] ++ " "
    | none => "    ") ++
  "--" ++ name.long ++ (if name.takesValue then " <" ++ name.placeholder ++ ">" else "")

end OptionName

/-- The width of the column for the ways to write an option. -/
def usageWidth : Nat := (OptionName.all.map (·.usage.length)).foldl max 0 + 2

def helpLines : List String :=
  ["Scan memory dumps for values matching a constraint", "",
    "Usage: " ++ programName ++ " [OPTIONS] --current <CURRENT>", "", "Options:"] ++
  OptionName.all.map fun name => "  " ++ name.usage.pushn ' ' (usageWidth - name.usage.length) ++ name.purpose

end Memsift.CommandLine
