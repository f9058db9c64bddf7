/-!
# Chunks and lane masks

Memory is compared sixteen bytes at a time.  A chunk holds the bytes; a mask holds one byte for each of the sixteen
lanes, and a lane counts as true if its byte is not zero.  Masks combine byte by byte.
-/

namespace Memsift

/-- The number of bytes of a chunk, and of lanes of a mask. -/
def chunkSize : Nat := 16

/-- The bytes that are compared at once. -/
abbrev Chunk := Vector UInt8 chunkSize

/-- The chunk that starts at an offset of a buffer, with zeros past the end. -/
def Chunk.load (buffer : Array UInt8) (start : Nat) : Chunk :=
  Vector.ofFn fun i => buffer.getD (start + i) 0

/-- The bytes of a chunk from a lane on. -/
def Chunk.from (chunk : Chunk) (lane : Nat) : List UInt8 := chunk.toList.drop lane

structure Mask where
  lanes : Vector UInt8 chunkSize
deriving DecidableEq

namespace Mask

/-- The mask whose true lanes satisfy a test. -/
def ofFn (f : Nat → Bool) : Mask := ⟨Vector.ofFn fun i => if f i then 0xFF else 0⟩

def allTrue : Mask := ofFn fun _ => true

def allFalse : Mask := ofFn fun _ => false

/-- The first `count` lanes are false. -/
def leadingFalse (count : Nat) : Mask := ofFn fun i => count ≤ i

/-- Only the first `count` lanes are true. -/
def leadingTrue (count : Nat) : Mask := ofFn fun i => i < count

/-- The lanes that belong to no element when an element starts every `alignment` lanes. -/
def sparse (alignment elementSize : Nat) : Mask := ofFn fun i => elementSize ≤ i % alignment

/-- As `sparse`; there is no mask for elements at no distance. -/
def sparse? (alignment elementSize : Nat) : Option Mask :=
  if alignment = 0 then none else some (sparse alignment elementSize)

def lane (m : Mask) (i : Nat) : Bool := m.lanes.toArray.getD i 0 != 0

/-- As `lane`; there is no answer past the last lane. -/
def lane? (m : Mask) (i : Nat) : Option Bool := if i < chunkSize then some (m.lane i) else none

def isAllTrue (m : Mask) : Bool := m.lanes.toList.all (· != 0)

def isAllFalse (m : Mask) : Bool := m.lanes.toList.all (· == 0)

def countTrue (m : Mask) : Nat := m.lanes.toList.countP (· != 0)

instance : AndOp Mask := ⟨fun a b => ⟨a.lanes.zipWith (· &&& ·) b.lanes⟩⟩

instance : OrOp Mask := ⟨fun a b => ⟨a.lanes.zipWith (· ||| ·) b.lanes⟩⟩

instance : XorOp Mask := ⟨fun a b => ⟨a.lanes.zipWith (· ^^^ ·) b.lanes⟩⟩

instance : Complement Mask := ⟨fun a => ⟨a.lanes.map (~~~ ·)⟩⟩

/-- The true lanes as ones and the false ones as zeros. -/
def display (m : Mask) : String :=
  "LaneMask<" ++ String.ofList (m.lanes.toList.map fun b => if b != 0 then '1' else '0') ++ ">"

@[simp] theorem lane_ofFn (f : Nat → Bool) (i : Nat) : (ofFn f).lane i = (i < chunkSize && f i) := by
  by_cases h : i < chunkSize
  · cases hf : f i <;> simp [lane, ofFn, h, hf]
  · simp [lane, ofFn, h]

end Mask
end Memsift
