import Memsift.ReadGroup

/-!
# Regions and views

A region is a window into one of the read groups of a snapshot.  A view is a region that was checked against its
group.  Elements start at the region's start and then every `alignment` bytes, as long as a whole element fits.
-/

namespace Memsift

/-- The number of elements in a window. -/
def elementCount (length alignment elementSize : Nat) : Nat :=
  if alignment = 0 ∨ elementSize = 0 ∨ length < elementSize then 0
  else (length - elementSize) / alignment + 1

structure Region where
  readGroup : Nat
  offset : Nat
  length : Nat
  /-- The number of elements in the regions before this one. -/
  baseIndex : Nat := 0
deriving DecidableEq, Repr

/-- The offset one past the last byte. -/
def Region.endOffset (r : Region) : Nat := r.offset + r.length

/-- A window that lies inside a read group. -/
structure View where
  groupIndex : Nat
  group : ReadGroup
  offset : Nat
  length : Nat
  inside : offset + length ≤ group.size

namespace View

def ofWindow (groupIndex : Nat) (group : ReadGroup) (offset length : Nat) : Except Error View :=
  if h : offset + length ≤ group.size then .ok ⟨groupIndex, group, offset, length, h⟩
  else .error (.invalidRegion offset length group.size)

/-- The window over a whole group. -/
def whole (groupIndex : Nat) (group : ReadGroup) : View :=
  ⟨groupIndex, group, 0, group.size, by simp⟩

def endOffset (v : View) : Nat := v.offset + v.length

def bufferSize (v : View) : Nat := v.group.size

/-- The offsets of a view and some way beyond are machine words. -/
theorem endOffset_add_lt (v : View) {n : Nat} (h : n ≤ ReadGroup.maxSize) : v.endOffset + n < UInt64.size := by
  have hend : v.endOffset ≤ ReadGroup.maxSize := Nat.le_trans v.inside v.group.size_le
  have hword : ReadGroup.maxSize + ReadGroup.maxSize < UInt64.size := by decide
  omega

def baseAddress (v : View) : Address := v.group.base.add v.offset

def endAddress (v : View) : Address := v.baseAddress.add v.length

def currentValues (v : View) : Array UInt8 := v.group.current.extract v.offset v.endOffset

def previousValues (v : View) : Array UInt8 := v.group.previous.extract v.offset v.endOffset

def elementCount (v : View) (alignment elementSize : Nat) : Nat :=
  Memsift.elementCount v.length alignment elementSize

def toRegion (v : View) : Region := { readGroup := v.groupIndex, offset := v.offset, length := v.length }

end View
end Memsift
