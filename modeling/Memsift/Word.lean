import Memsift.DataType
import Memsift.ConstraintKind
import Memsift.Binary.Format

/-!
# Words

The bit patterns of the values of a number type, read from bytes in either order.  Integers add, subtract and
compare as two's-complement words; floating-point words are decoded, and results are rounded once.  Casting an
integer to a narrower one drops the high bits; casting a floating-point value to an integer truncates it and stops
at the ends of the range.
-/

namespace Memsift

open Binary (Format Value binary32 binary64)

def Precision.format : Precision → Format
  | single => binary32
  | double => binary64

/-- A bit pattern of the type. -/
abbrev Word (t : NumberType) := BitVec (8 * t.size)

/-- The number that bytes stand for, the least significant one first. -/
def littleEndian : List UInt8 → Nat
  | [] => 0
  | b :: bs => b.toNat + 256 * littleEndian bs

def ByteOrder.toNat (order : ByteOrder) (bytes : List UInt8) : Nat :=
  match order with
  | .little => littleEndian bytes
  | .big => littleEndian bytes.reverse

/-- The least value of an integer type. -/
def NumberType.low : NumberType → Int
  | .signed w => -(1 <<< (8 * w.bytes - 1) : Nat)
  | _ => 0

/-- The greatest value of an integer type. -/
def NumberType.high : NumberType → Int
  | .signed w => (1 <<< (8 * w.bytes - 1) : Nat) - 1
  | .unsigned w => (1 <<< (8 * w.bytes) : Nat) - 1
  | .float _ => 0

namespace Word

/-- The word at the start of at least as many bytes as the type has. -/
def read (t : NumberType) (order : ByteOrder) (bytes : List UInt8) : Word t :=
  BitVec.ofNat _ (order.toNat (bytes.take t.size))

/-- The word at the start of some bytes, if there are enough of them. -/
def read? (t : NumberType) (order : ByteOrder) (bytes : List UInt8) : Option (Word t) :=
  if bytes.length < t.size then none else some (read t order bytes)

def zero (t : NumberType) : Word t := 0#_

/-- The integer that the word of an integer type stands for; a floating-point word counts by its pattern. -/
def toInt : (t : NumberType) → Word t → Int
  | .signed _, w => BitVec.toInt w
  | _, w => w.toNat

/-- What the word stands for. -/
def value : (t : NumberType) → Word t → Value
  | .float p, w => p.format.decode w.toNat
  | t, w => .ofInt (toInt t w)

/-- The floating-point word nearest to a value. -/
def ofValue (p : Precision) (x : Value) : Word (.float p) := BitVec.ofNat _ (p.format.encode x)

def cast : (t u : NumberType) → Word t → Word u
  | t, .float p, w => ofValue p (value t w)
  | .float p, u, w => BitVec.ofInt _ ((value (.float p) w).truncate u.low u.high)
  | t, _, w => BitVec.ofInt _ (toInt t w)

def add : (t : NumberType) → Word t → Word t → Word t
  | .float p, a, b => ofValue p ((value (.float p) a).add (value (.float p) b))
  | _, a, b => a + b

def sub : (t : NumberType) → Word t → Word t → Word t
  | .float p, a, b => ofValue p ((value (.float p) a).sub (value (.float p) b))
  | _, a, b => a - b

/-- Equality; floating-point words may differ by one step at one. -/
def close : (t : NumberType) → Word t → Word t → Bool
  | .float p, a, b => p.format.close (value (.float p) a) (value (.float p) b)
  | _, a, b => a == b

def lt : (t : NumberType) → Word t → Word t → Bool
  | .float p, a, b => (value (.float p) a).lt (value (.float p) b)
  | .signed _, a, b => BitVec.slt a b
  | .unsigned _, a, b => BitVec.ult a b

def le : (t : NumberType) → Word t → Word t → Bool
  | .float p, a, b => (value (.float p) a).le (value (.float p) b)
  | .signed _, a, b => BitVec.sle a b
  | .unsigned _, a, b => BitVec.ule a b

/-- Whether a comparison holds of an element with the given current and previous words. -/
def evaluate (t : NumberType) (kind : ConstraintKind) (current previous value : Word t) : Bool :=
  match kind with
  | .equal => close t current value
  | .notEqual => !close t current value
  | .greaterThan => lt t value current
  | .greaterThanOrEqual => le t value current
  | .lessThan => lt t current value
  | .lessThanOrEqual => le t current value
  | .changed => !close t current previous
  | .unchanged => close t current previous
  | .increased => lt t previous current
  | .decreased => lt t current previous
  | .increasedByX => close t current (add t previous value)
  | .decreasedByX => close t current (sub t previous value)

end Word
end Memsift
