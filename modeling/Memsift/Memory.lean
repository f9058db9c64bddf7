import Memsift.ReadGroup

/-!
# Mapped memory

An address space made of ranges of bytes.  An address is looked up in the range with the greatest start up to it.
-/

namespace Memsift

/-- Ranges of bytes by their start, in ascending order. -/
structure Memory where
  ranges : List (Nat × Array UInt8)
deriving DecidableEq

namespace Memory

def empty : Memory := ⟨[]⟩

/-- Puts a range in order, in place of one with the same start. -/
def insertRange (start : Nat) (bytes : Array UInt8) : List (Nat × Array UInt8) → List (Nat × Array UInt8)
  | [] => [(start, bytes)]
  | (s, b) :: rest =>
    if start < s then (start, bytes) :: (s, b) :: rest
    else if start = s then (start, bytes) :: rest
    else (s, b) :: insertRange start bytes rest

/-- Maps bytes at an address. -/
def insert (m : Memory) (address : Address) (bytes : Array UInt8) : Memory :=
  ⟨insertRange address.toNat bytes m.ranges⟩

/-- The range with the greatest start up to an address. -/
def rangeAt? (m : Memory) (address : Address) : Option (Nat × Array UInt8) :=
  (m.ranges.takeWhile fun r => r.1 ≤ address.toNat).getLast?

/-- Overwrites bytes of one range; all of them have to lie in it.  The memory that is left goes with the answer, also
if it is that nothing was written. -/
def store (m : Memory) (address : Address) (bytes : Array UInt8) : Except Error Unit × Memory :=
  match m.rangeAt? address with
  | none => (.error (.invalidAddress address.upper), m)
  | some (start, range) =>
    let offset := address.toNat - start
    if offset + bytes.size ≤ range.size then
      let written := range.extract 0 offset ++ bytes ++ range.extract (offset + bytes.size) range.size
      (.ok (), ⟨insertRange start written m.ranges⟩)
    else (.error (.invalidAddress address.upper), m)

/-- The memory with bytes of one range overwritten. -/
def write (m : Memory) (address : Address) (bytes : Array UInt8) : Except Error Memory :=
  (m.store address bytes).1.map fun _ => (m.store address bytes).2

/-- Reads into a buffer as far as the range goes. -/
def read (m : Memory) : Reader := fun {size} address buffer =>
  match m.rangeAt? address with
  | none => (buffer, .error (.readFailed address.upper "address is not mapped"))
  | some (start, range) =>
    let offset := address.toNat - start
    if range.size ≤ offset then (buffer, .error (.readFailed address.upper "address is not mapped"))
    else
      let count := min (range.size - offset) size
      (Vector.ofFn fun i => if i < count then range.getD (offset + i) 0 else buffer[i], .ok count)

/-- The address and the size of each range. -/
def mapped (m : Memory) : List (Address × Nat) := m.ranges.map fun r => (Address.ofNat r.1, r.2.size)

end Memory
end Memsift
