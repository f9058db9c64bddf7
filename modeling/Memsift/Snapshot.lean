import Memsift.Parsing
import Memsift.Scan.Cursor

/-!
# Snapshots

A snapshot is a list of regions over read groups, with the size and the distance of the elements of interest.  The
elements of all regions are numbered throughout; every operation that changes the regions renumbers them.
-/

namespace Memsift

/-- An element as it is shown: its address, and its values where they can be decoded. -/
structure Element where
  address : Address
  current : Option ScanValue
  previous : Option ScanValue
  label : Option UInt64
deriving DecidableEq

structure Snapshot where
  name : String
  groups : Array ReadGroup
  regions : List Region
  alignment : Nat
  elementSize : Nat
  elementCount : Nat
  byteCount : Nat
deriving DecidableEq

namespace Snapshot

/-- Gives each region the number of the elements before it, of which there are `before` already. -/
def number (alignment elementSize : Nat) : Nat → List Region → List Region
  | _, [] => []
  | before, r :: rs =>
    { r with baseIndex := before } ::
      number alignment elementSize (before + Memsift.elementCount r.length alignment elementSize) rs

/-- A snapshot with the given regions, numbered for elements of the given distance and size, both one at least. -/
def build (name : String) (groups : Array ReadGroup) (regions : List Region) (alignment elementSize : Nat) :
    Snapshot :=
  let alignment := max alignment 1
  let elementSize := max elementSize 1
  { name
    groups
    regions := number alignment elementSize 0 regions
    alignment
    elementSize
    elementCount := (regions.map fun r => Memsift.elementCount r.length alignment elementSize).foldr (· + ·) 0
    byteCount := (regions.map (·.length)).foldr (· + ·) 0 }

/-- One region over each read group that is not empty. -/
def ofGroups (name : String) (groups : Array ReadGroup) : Snapshot :=
  let regions := groups.toList.zipIdx.filterMap fun (g, i) =>
    if g.isEmpty then none else some { readGroup := i, offset := 0, length := g.size : Region }
  build name groups regions 1 1

/-- Zeros for ranges of memory that are still to be read. -/
def ofRanges (name : String) (ranges : List (Address × Nat)) : Snapshot :=
  ofGroups name (ranges.map fun (base, size) => ReadGroup.zeros base size).toArray

/-- Other regions over the same read groups. -/
def withRegions (s : Snapshot) (name : String) (regions : List Region) : Snapshot :=
  build name s.groups regions s.alignment s.elementSize

/-- Renumbers the elements for another distance and size. -/
def recount (s : Snapshot) (alignment elementSize : Nat) : Snapshot :=
  build s.name s.groups s.regions alignment elementSize

/-- Checks a region against its read group. -/
def view (s : Snapshot) (r : Region) : Except Error View :=
  match s.groups[r.readGroup]? with
  | some group => View.ofWindow r.readGroup group r.offset r.length
  | none => .error (.invalidRegion r.offset r.length 0)

/-- The regions with their places in the list, the largest first; regions of one length stay in order. -/
def bySize (s : Snapshot) : List (Region × Nat) :=
  s.regions.zipIdx.mergeSort fun x y => decide (y.1.length ≤ x.1.length)

/-- A region without the bytes before its first aligned address, if an element is left. -/
def alignRegion? (s : Snapshot) (alignment elementSize : Nat) (r : Region) : Option Region :=
  match s.groups[r.readGroup]? with
  | none => none
  | some group =>
    let skip := (group.base.add r.offset).gap alignment
    if r.length < skip ∨ r.length - skip < elementSize then none
    else some { readGroup := r.readGroup, offset := (r.offset + skip) % UInt64.size, length := r.length - skip }

/-- The regions that hold an aligned element, each from its first aligned address on. -/
def aligned (s : Snapshot) (alignment elementSize : Nat) : Snapshot :=
  build s.name s.groups (s.regions.filterMap (s.alignRegion? (max alignment 1) elementSize)) alignment elementSize

/-- Whether a region comes before another one or at the same offset. -/
def placedBefore (x y : Region) : Bool :=
  x.readGroup < y.readGroup || (x.readGroup == y.readGroup && x.offset ≤ y.offset)

/-- Puts the regions in the order of read groups and offsets. -/
def sort (s : Snapshot) : Snapshot :=
  build s.name s.groups (s.regions.mergeSort placedBefore) s.alignment s.elementSize

/-- Keeps the regions that pass a test. -/
def retain (s : Snapshot) (keep : Region → Bool) : Snapshot :=
  build s.name s.groups (s.regions.filter keep) s.alignment s.elementSize

/-- The last region that starts with element `index` or one before it. -/
def regionAt? (s : Snapshot) (index : Nat) : Option Region :=
  (s.regions.takeWhile fun r => r.baseIndex ≤ index).getLast?

/-- The element with a number, decoded as a data type. -/
def elementAt? (s : Snapshot) (index : Nat) (type : DataType) : Option Element :=
  match s.regionAt? index with
  | none => none
  | some r =>
    let k := index - r.baseIndex
    match decide (k < Memsift.elementCount r.length s.alignment s.elementSize), s.view r, type.size with
    | true, .ok view, .ok size =>
      let cursor := (Cursor.start view .everything).advance (k * s.alignment)
      let decode := fun bytes? => bytes?.bind (ScanValue.ofBytes? type.valueType type.byteOrder)
      some {
        address := view.baseAddress.add (k * s.alignment)
        current := decode (cursor.current? size)
        previous := decode (cursor.previous? size)
        label := cursor.label? }
    | _, _, _ => none

end Snapshot
end Memsift
