import Memsift.CommandLine.Run

/-!
# The program

Gives the program the files of the machine and its arguments, and prints the answer.
-/

namespace Memsift.CommandLine

/-- Whether an action works. -/
def succeeds (action : IO Unit) : IO Bool := do
  try
    action
    return true
  catch _ => return false

/-- The part of a path before the last slash; empty if there is no slash. -/
def folderOf (path : String) : String := "/".intercalate (path.splitOn "/").dropLast

/-- The files of the machine. -/
def machine : Disk IO where
  contains path := succeeds (discard (IO.FS.realPath path))
  read? path := do
    try
      return some (← IO.FS.readBinFile path)
    catch _ => return none
  write path content := succeeds (IO.FS.writeBinFile path content)
  append path content := succeeds do
    let folder := folderOf path
    if !folder.isEmpty then IO.FS.createDirAll folder
    let handle ← IO.FS.Handle.mk path .append
    handle.write content

/-- A span of time in the largest unit of which it has one at least. -/
def elapsedText (nanoseconds : Nat) : String :=
  let (unit, size, width) :=
    if 1000000000 ≤ nanoseconds then ("s", 1000000000, 9)
    else if 1000000 ≤ nanoseconds then ("ms", 1000000, 6)
    else if 1000 ≤ nanoseconds then ("µs", 1000, 3)
    else ("ns", 1, 0)
  let digits := List.leftpad width '0' (Text.decimal (nanoseconds % size))
  let kept := if nanoseconds % size = 0 then [] else '.' :: (digits.reverse.dropWhile (· == '0')).reverse
  toString (nanoseconds / size) ++ String.ofList kept ++ unit

/-- Runs the program and prints what it answers; the exit code. -/
def answerArguments (arguments : List String) : IO UInt32 := do
  let start ← IO.monoNanosNow
  match ← run machine (← IO.getEnv "MEMORY_SCAN_CONFIG") arguments with
  | .text lines =>
    lines.forM IO.println
    return 0
  | .report r =>
    IO.println (r.summary ++ " in " ++ elapsedText ((← IO.monoNanosNow) - start))
    r.elements.forM IO.println
    return 0
  | .failed f =>
    IO.eprintln ("Error: " ++ f.message)
    return 1
  | .misused e =>
    IO.eprintln ("error: " ++ e.message)
    return 2

end Memsift.CommandLine

def main (arguments : List String) : IO UInt32 := Memsift.CommandLine.answerArguments arguments
