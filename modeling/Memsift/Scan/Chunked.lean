import Memsift.Region
import Memsift.Predicate
import Memsift.Scan.Runs

/-!
# Scanning chunk by chunk

A view is read in chunks from the last chunk boundary up to its start that its elements can be counted from.  Lanes
before the view and past its last element are masked.  Elements as far apart as they are long, or farther, are found
by one comparison per chunk; the bytes between them count as matching so that they do not part a run.  Elements that
overlap are found by one comparison for each offset inside an element, and the answers are gathered in bits.
-/

namespace Memsift

/-- How the distance of the elements compares with their size. -/
inductive Spacing where
  | dense | sparse | staggered
deriving DecidableEq, Repr

namespace Spacing

def title : Spacing → String
  | dense => "Dense"
  | sparse => "Sparse"
  | staggered => "Staggered"

def of (alignment elementSize : Nat) : Spacing :=
  if alignment = elementSize then dense else if elementSize < alignment then sparse else staggered

end Spacing

/-- The chunks that cover the elements of a view, and the lanes that belong to them.  Positions count from the start
of the first chunk. -/
structure ScanPlan where
  alignment : Nat
  elementSize : Nat
  /-- The offset where the first chunk starts. -/
  readStart : Nat
  /-- The position of the first element. -/
  misalignment : Nat
  /-- The position of the last element. -/
  lastPosition : Nat
  /-- The number of chunks. -/
  chunkCount : Nat
deriving DecidableEq, Repr

namespace ScanPlan

/-- The plan for a view that holds an element. -/
def of? (view : View) (alignment elementSize : Nat) : Option ScanPlan :=
  let elements := view.elementCount alignment elementSize
  if elements = 0 then none
  else
    let misalignment := view.offset % chunkSize / alignment * alignment
    let lastPosition := misalignment + (elements - 1) * alignment
    some {
      alignment
      elementSize
      readStart := view.offset - misalignment
      misalignment
      lastPosition
      chunkCount := lastPosition / chunkSize + 1 }

def isLast (p : ScanPlan) (chunk : Nat) : Bool := chunk + 1 == p.chunkCount

/-- The lanes of a chunk that belong to elements, if not all do. -/
def laneMask (p : ScanPlan) (chunk : Nat) : Option Mask :=
  let lead := if chunk = 0 ∧ 0 < p.misalignment then some (Mask.leadingFalse p.misalignment) else none
  let valid := p.lastPosition + p.elementSize - chunk * chunkSize
  if p.isLast chunk ∧ valid < chunkSize then
    let trail := Mask.leadingTrue valid
    some (lead.elim trail (· &&& trail))
  else lead

/-- Whether an element of the view starts at a lane of a chunk. -/
def slotValid (p : ScanPlan) (chunk lane : Nat) : Bool :=
  p.misalignment ≤ chunk * chunkSize + lane && chunk * chunkSize + lane ≤ p.lastPosition

/-- The lanes at which elements start. -/
def slots (p : ScanPlan) : List Nat := (List.range chunkSize).filter (· % p.alignment == 0)

/-- Compares the chunk at a position. -/
def compareAt (p : ScanPlan) (view : View) (test : ElementTest) (position : Nat) : Mask :=
  let current := Chunk.load view.group.current (p.readStart + position)
  if test.requiresPrevious then
    test.compare current (Chunk.load view.group.previous (p.readStart + position))
  else test.compare current current

/-- Passes on the outcome for the slots of a chunk, at once if all are alike. -/
def passOn (p : ScanPlan) (e : RunEncoder) (allTrue allFalse : Bool) (results : List Bool) : RunEncoder :=
  if allTrue then e.encode chunkSize
  else if allFalse then e.skip chunkSize
  else results.foldl (fun e result => e.advance result p.alignment) e

/-- The lanes of a chunk that count as matching when elements do not overlap. -/
def laneResults (p : ScanPlan) (view : View) (test : ElementTest) (chunk : Nat) : Mask :=
  let mask := p.compareAt view test (chunk * chunkSize)
  let mask := match Spacing.of p.alignment p.elementSize with
    | .sparse => mask ||| Mask.sparse p.alignment p.elementSize
    | _ => mask
  match p.laneMask chunk with
  | some valid => mask &&& valid
  | none => mask

def scanLanes (p : ScanPlan) (view : View) (test : ElementTest) : List Region :=
  let encoder : RunEncoder := { grid := .ofView view p.readStart p.alignment p.elementSize .bytes }
  ((List.range p.chunkCount).foldl (fun e chunk =>
    let mask := p.laneResults view test chunk
    p.passOn e mask.isAllTrue mask.isAllFalse (p.slots.map mask.lane)) encoder).finish

/-- The number of offsets inside an element at which elements start. -/
def offsets (p : ScanPlan) : Nat := p.elementSize / p.alignment

/-- A bit for each offset inside an element.  The first mask has the answers for the elements that start where
a group of `elementSize` lanes starts, the next one for those that start at the next offset, and so on. -/
def groupBits (p : ScanPlan) (masks : List Mask) (group : Nat) : BitVec 8 :=
  masks.zipIdx.foldl (fun bits (mask, j) =>
    if mask.lane (group * p.elementSize) then bits ||| BitVec.twoPow 8 j else bits) 0#8

/-- Clears the bits of elements that the view does not hold. -/
def keepValid (p : ScanPlan) (chunk group : Nat) (bits : BitVec 8) : BitVec 8 :=
  (List.range p.offsets).foldl (fun bits j =>
    if p.slotValid chunk (group * p.elementSize + j * p.alignment) then bits else bits &&& ~~~BitVec.twoPow 8 j) bits

/-- The bits of all groups of a chunk. -/
def chunkBits (p : ScanPlan) (view : View) (test : ElementTest) (chunk : Nat) : List (BitVec 8) :=
  let masks := (List.range p.offsets).map fun j => p.compareAt view test (chunk * chunkSize + j * p.alignment)
  (List.range (chunkSize / p.elementSize)).map fun group =>
    let bits := p.groupBits masks group
    if chunk == 0 || p.isLast chunk then p.keepValid chunk group bits else bits

/-- The bits of a group all of whose elements match. -/
def fullBits (p : ScanPlan) : BitVec 8 := BitVec.ofNat 8 (1 <<< p.offsets - 1)

def scanStaggered (p : ScanPlan) (view : View) (test : ElementTest) : List Region :=
  let encoder : RunEncoder := { grid := .ofView view p.readStart p.alignment p.elementSize .slots }
  ((List.range p.chunkCount).foldl (fun e chunk =>
    let bitmap := p.chunkBits view test chunk
    p.passOn e (bitmap.all (· == p.fullBits)) (bitmap.all (· == 0#8))
      (bitmap.flatMap fun bits => (List.range p.offsets).map bits.getLsbD)) encoder).finish

end ScanPlan

namespace View

/-- The regions of the elements that pass a test, found chunk by chunk.  The elements have to be one, two, four or
eight bytes apart. -/
def scanChunks (view : View) (test : ElementTest) (alignment : Nat) : Except Error (List Region) :=
  if alignment ∈ [1, 2, 4, 8] then
    match ScanPlan.of? view alignment test.size with
    | none => .ok []
    | some plan =>
      match Spacing.of alignment test.size with
      | .staggered => .ok (plan.scanStaggered view test)
      | _ => .ok (plan.scanLanes view test)
  else .error (.invalidAlignment alignment)

end View
end Memsift
