import Memsift.Machine
import Memsift.Region
import Memsift.Predicate
import Memsift.Scan.Runs

/-!
# Scanning element by element

A cursor stands at an element of a view and looks at its current and previous bytes and its label; what it does not
need it does not move along.  A view is scanned by moving a cursor over all its elements.
-/

namespace Memsift

/-- What a cursor moves along: current values, previous values, labels. -/
inductive Track where
  | everything | values | labels | current | exceptPrevious
deriving DecidableEq, Repr

namespace Track

def title : Track → String
  | everything => "AllPointers"
  | values => "ValuesOnly"
  | labels => "LabelsOnly"
  | current => "CurrentOnly"
  | exceptPrevious => "NoPrevious"

def all : List Track := [everything, values, labels, current, exceptPrevious]

def ofTitle? (title : String) : Option Track := all.find? (·.title == title)

/-- The least that a scan has to move along. -/
def forScan (requiresPrevious hasLabels : Bool) : Track :=
  match requiresPrevious, hasLabels with
  | true, true => everything
  | true, false => values
  | false, true => exceptPrevious
  | false, false => current

def movesCurrent (t : Track) : Bool := t != labels

def movesPrevious (t : Track) : Bool := t == everything || t == values

def movesLabels (t : Track) : Bool := t == everything || t == labels || t == exceptPrevious

end Track

/-- Offsets into the buffers of a group. -/
structure Cursor where
  group : ReadGroup
  track : Track
  currentIndex : Nat
  previousIndex : Nat
  labelIndex : Nat

/-- The bytes of a window of a buffer, if it lies inside. -/
def window? (buffer : Array UInt8) (start size : Nat) : Option (List UInt8) :=
  if start + size ≤ buffer.size then some (buffer.extract start (start + size)).toList else none

namespace Cursor

/-- A cursor at the start of a view. -/
def start (view : View) (track : Track) : Cursor := ⟨view.group, track, view.offset, view.offset, view.offset⟩

def advance (c : Cursor) (step : Nat) : Cursor :=
  { c with
    currentIndex := if c.track.movesCurrent then Machine.add c.currentIndex step else c.currentIndex
    previousIndex := if c.track.movesPrevious then Machine.add c.previousIndex step else c.previousIndex
    labelIndex := if c.track.movesLabels then Machine.add c.labelIndex step else c.labelIndex }

def current? (c : Cursor) (size : Nat) : Option (List UInt8) := window? c.group.current c.currentIndex size

def previous? (c : Cursor) (size : Nat) : Option (List UInt8) := window? c.group.previous c.previousIndex size

def label? (c : Cursor) : Option UInt64 := c.group.labels.bind fun ls => ls[c.labelIndex]?

/-- Whether the element at the cursor passes a test; an element that leaves the buffer does not. -/
def passes (c : Cursor) (test : ElementTest) : Bool :=
  match c.current? test.size with
  | none => false
  | some current =>
    if test.requiresPrevious then
      match c.previous? test.size with
      | none => false
      | some previous => test.holds current previous
    else test.holds current current

/-- Tests a number of elements in a row. -/
def walk (test : ElementTest) (alignment : Nat) : Nat → Cursor → RunEncoder → RunEncoder
  | 0, _, e => e
  | count + 1, c, e => walk test alignment count (c.advance alignment) (e.advance (c.passes test) alignment)

end Cursor

namespace View

/-- The regions of the elements that pass a test, found one element at a time. -/
def scanElements (view : View) (test : ElementTest) (alignment : Nat) : List Region :=
  let alignment := max alignment 1
  let cursor := Cursor.start view (Track.forScan test.requiresPrevious view.group.labels.isSome)
  let encoder : RunEncoder := { grid := .ofView view view.offset alignment test.size .slots }
  (Cursor.walk test alignment (view.elementCount alignment test.size) cursor encoder).finish

end View
end Memsift
