import Memsift.Address
import Memsift.Error

/-!
# Read groups

A read group holds the current and the previous bytes of one range of memory, and a label for each byte if there are
labels.  All of them have the same length, which no operation changes.

An operation that may be refused answers whether it was, and gives the group as it leaves it in either case.
-/

namespace Memsift

/-- No buffer is longer, so that the offsets into it and some way beyond are machine words. -/
def ReadGroup.maxSize : Nat := 0x7FFFFFFFFFFFFFFF

structure ReadGroup where
  base : Address
  current : Array UInt8
  previous : Array UInt8
  labels : Option (Array UInt64) := none
  previous_size : previous.size = current.size
  labels_size : ∀ ls ∈ labels, ls.size = current.size
  size_le : current.size ≤ ReadGroup.maxSize
deriving DecidableEq

/-- Reads memory from an address into a buffer: what the buffer holds afterwards, and the number of bytes that were
read or what went wrong. -/
abbrev Reader := {size : Nat} → Address → Vector UInt8 size → Vector UInt8 size × Except Error Nat

namespace ReadGroup

/-- A group of zeros, as long as asked for or as a buffer can be. -/
def zeros (base : Address) (size : Nat) : ReadGroup where
  base
  current := Array.replicate (min size maxSize) 0
  previous := Array.replicate (min size maxSize) 0
  previous_size := rfl
  labels_size := by simp
  size_le := by
    rw [Array.size_replicate]
    exact Nat.min_le_right ..

/-- A group of values that were read before. -/
def ofValues (base : Address) (current previous : Array UInt8) : Except Error ReadGroup :=
  if h : previous.size = current.size ∧ current.size ≤ maxSize then
    .ok { base, current, previous, previous_size := h.1, labels_size := by simp, size_le := h.2 }
  else .error (.invalidRegion 0 previous.size current.size)

def size (g : ReadGroup) : Nat := g.current.size

theorem size_lt (g : ReadGroup) : g.size < UInt64.size := Nat.lt_of_le_of_lt g.size_le (by decide)

def isEmpty (g : ReadGroup) : Bool := g.size == 0

/-- The first address past the group. -/
def endAddress (g : ReadGroup) : Address := g.base.add g.size

/-- The answer of an operation, and the group that it leaves. -/
abbrev Answer := Except Error Unit × ReadGroup

/-- The group that an operation makes, unless it is refused. -/
def Answer.made (a : Answer) : Except Error ReadGroup := a.1.map fun _ => a.2

theorem Answer.eq_of_made_eq_ok {a : Answer} {g : ReadGroup} (h : a.made = .ok g) : a = (.ok (), g) := by
  obtain ⟨_ | _, _⟩ := a <;> cases h
  rfl

theorem Answer.fst_eq_of_made_eq_error {a : Answer} {e : Error} (h : a.made = .error e) : a.1 = .error e := by
  obtain ⟨_ | _, _⟩ := a <;> cases h
  rfl

/-- Attaches one label to each byte. -/
def attach (g : ReadGroup) (labels : Array UInt64) : Answer :=
  if h : labels.size = g.size then
    (.ok (), { g with labels := some labels, labels_size := by simpa [size] using h })
  else (.error (.invalidRegion 0 labels.size g.size), g)

/-- Replaces the current values and keeps the previous ones. -/
def overwrite (g : ReadGroup) (values : Array UInt8) : Answer :=
  if h : values.size = g.size then
    (.ok (), { g with
      current := values
      previous_size := g.previous_size.trans h.symm
      labels_size := fun ls hl => (g.labels_size ls hl).trans h.symm
      size_le := Nat.le_trans (Nat.le_of_eq h) g.size_le })
  else (.error (.invalidRegion 0 values.size g.size), g)

/-- Makes the current values the previous ones and reads new ones into a buffer of its own; nothing but a full read is
taken from there. -/
def reread (g : ReadGroup) (reader : Reader) : Answer :=
  match reader g.base (Vector.replicate g.size 0) with
  | (_, .error e) => (.error e, g)
  | (buffer, .ok count) =>
    if count = g.size then
      (.ok (), { g with
        current := buffer.toArray
        previous := g.current
        previous_size := by simp [size]
        labels_size := fun ls hl => by simpa [size] using g.labels_size ls hl
        size_le := by simpa [size] using g.size_le })
    else
      (.error (.readFailed g.base.upper
        ("partial read: " ++ toString count ++ " of " ++ toString g.size ++ " bytes")), g)

def withLabels (g : ReadGroup) (labels : Array UInt64) : Except Error ReadGroup := (g.attach labels).made

def setCurrent (g : ReadGroup) (values : Array UInt8) : Except Error ReadGroup := (g.overwrite values).made

def refresh (g : ReadGroup) (reader : Reader) : Except Error ReadGroup := (g.reread reader).made

end ReadGroup
end Memsift
