import Memsift.Machine
import Memsift.Region

/-!
# Runs of matches

The outcome of a scan arrives as lengths of matching and of other memory, in the order of addresses.  A run is the
matching memory between two stretches of other memory.  Each run gives at most one region, which starts at the start
of an element and ends at the end of one.  Nobody looks whether the sums and differences of offsets are words.
-/

namespace Memsift

/-- What the length of a run counts: bytes of matching memory, or one element start for every `alignment` bytes. -/
inductive RunUnit where
  | bytes | slots
deriving DecidableEq, Repr

/-- The window that runs are found in and the elements of the window. -/
structure RunGrid where
  readGroup : Nat
  /-- The offset where the scan began. -/
  origin : Nat
  regionStart : Nat
  regionEnd : Nat
  bufferSize : Nat
  alignment : Nat
  elementSize : Nat
  unit : RunUnit

namespace RunGrid

/-- The grid of a view; elements have a size and a distance of one at least. -/
def ofView (view : View) (origin alignment elementSize : Nat) (unit : RunUnit) : RunGrid where
  readGroup := view.groupIndex
  origin
  regionStart := view.offset
  regionEnd := view.endOffset
  bufferSize := view.bufferSize
  alignment := max alignment 1
  elementSize := max elementSize 1
  unit

/-- The first start of an element from an offset of the window on. -/
def nextElement (g : RunGrid) (offset : Nat) : Nat :=
  let skew := (offset - g.regionStart) % g.alignment
  if skew = 0 then offset else Machine.sub (Machine.add offset g.alignment) skew

/-- The end of the last element that a run to `stop` can hold, zero at least. -/
def reach (g : RunGrid) (stop : Nat) : Nat :=
  match g.unit with
  | .bytes => stop
  | .slots => Machine.add stop g.elementSize - g.alignment

/-- The region of the elements in a run from offset `start` to offset `stop`.  A run without a whole element has
none, nor has a run that begins before the window or whose last element leaves it. -/
def region? (g : RunGrid) (start stop : Nat) : Option Region :=
  let first := g.nextElement start
  let reach := g.reach stop
  let steps := Machine.sub (Machine.sub reach g.elementSize) first / g.alignment
  let last := Machine.add first (steps * g.alignment)
  let finish := Machine.add last g.elementSize
  if start < g.regionStart ∨ reach < Machine.add first g.elementSize then none
  else if g.regionEnd < finish ∨ g.bufferSize < finish then none
  else some { readGroup := g.readGroup, offset := first, length := Machine.sub finish first }

end RunGrid

/-- How far a scan has come, measured from the origin of the grid; how far back the run that is still open began;
and the regions of the runs before it. -/
structure RunEncoder where
  grid : RunGrid
  cursor : Nat := 0
  runLength : Nat := 0
  /-- Whether a run is open. -/
  isEncoding : Bool := false
  regions : Array Region := #[]

namespace RunEncoder

/-- The offset of the cursor. -/
def position (e : RunEncoder) : Nat := Machine.add e.grid.origin e.cursor

/-- The offset where the open run began. -/
def runStart (e : RunEncoder) : Nat := Machine.sub e.position e.runLength

/-- Ends the open run at the cursor. -/
def emit (e : RunEncoder) : RunEncoder :=
  let ended := { e with runLength := 0, isEncoding := false }
  match e.grid.region? e.runStart e.position with
  | none => ended
  | some region => { ended with regions := e.regions.push region }

/-- Closes the open run, if there is one. -/
def close (e : RunEncoder) : RunEncoder := if e.isEncoding then e.emit else e

/-- Extends the open run, or begins one. -/
def encode (e : RunEncoder) (length : Nat) : RunEncoder :=
  { e with
    cursor := Machine.add e.cursor length
    runLength := Machine.add e.runLength length
    isEncoding := true }

/-- Closes the open run and passes over memory that does not match. -/
def skip (e : RunEncoder) (length : Nat) : RunEncoder :=
  let e := e.close
  { e with cursor := Machine.add e.cursor length }

/-- Extends the open run or closes it, as a test turns out. -/
def advance (e : RunEncoder) (result : Bool) (length : Nat) : RunEncoder :=
  if result then e.encode length else e.skip length

/-- The regions of all runs. -/
def finish (e : RunEncoder) : List Region := e.close.regions.toList

end RunEncoder
end Memsift
