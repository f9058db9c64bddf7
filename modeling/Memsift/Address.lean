import Memsift.Text.Blank
import Memsift.Text.Numeral
import Memsift.Error

/-!
# Addresses

Addresses of 64 bits.  Sums are taken modulo 2^64, and so is rounding up to a multiple; the distance between two
addresses exists only upwards.
-/

namespace Memsift

structure Address where
  word : UInt64
deriving DecidableEq

namespace Address

def ofNat (n : Nat) : Address := ⟨UInt64.ofNat n⟩

def toNat (a : Address) : Nat := a.word.toNat

def isNull (a : Address) : Bool := a.toNat == 0

def add (a : Address) (bytes : Nat) : Address := ofNat (a.toNat + bytes)

/-- No address is a multiple of zero. -/
def isAligned (a : Address) (alignment : Nat) : Bool := alignment != 0 && a.toNat % alignment == 0

/-- The last multiple of `alignment` up to `a`; `a` itself for zero. -/
def alignDown (a : Address) (alignment : Nat) : Address :=
  if alignment = 0 then a else ofNat (a.toNat - a.toNat % alignment)

/-- How far the next multiple of `alignment` lies above `a`; nothing for zero. -/
def gap (a : Address) (alignment : Nat) : Nat :=
  if a.toNat % alignment = 0 ∨ alignment = 0 then 0 else alignment - a.toNat % alignment

/-- The first multiple of `alignment` from `a` on; `a` itself for zero. -/
def alignUp (a : Address) (alignment : Nat) : Address := a.add (a.gap alignment)

def offsetFrom? (a base : Address) : Option Nat :=
  if base.toNat ≤ a.toNat then some (a.toNat - base.toNat) else none

/-- Reads `0x`, `0X` or `$` and a hexadecimal numeral, else a hexadecimal numeral if a letter occurs, else a decimal
one, all below 2^64. -/
def ofText? (cs : List Char) : Option Address :=
  let value? := match cs with
    | '0' :: 'x' :: body => Text.natural? 16 body
    | '0' :: 'X' :: body => Text.natural? 16 body
    | '$' :: body => Text.natural? 16 body
    | _ => Text.natural? (if cs.any Char.isAlpha then 16 else 10) cs
  value?.bind fun n => if n < UInt64.size then some (ofNat n) else none

def parse (text : String) : Except Error Address :=
  let cs := Text.trim text.toList
  match ofText? cs with
  | some a => .ok a
  | none => .error (.invalidAddress (String.ofList cs))

/-- Sixteen hexadecimal digits, letters in lower case. -/
def lower (a : Address) : String := String.ofList ('0' :: 'x' :: Text.hexadecimal 16 a.toNat)

/-- Sixteen hexadecimal digits, letters in upper case. -/
def upper (a : Address) : String :=
  String.ofList ('0' :: 'x' :: (Text.hexadecimal 16 a.toNat).map Char.toUpper)

instance : ToString Address := ⟨upper⟩

@[simp] theorem toNat_ofNat (n : Nat) : (ofNat n).toNat = n % UInt64.size := by
  simp [ofNat, toNat]

theorem toNat_lt (a : Address) : a.toNat < UInt64.size := a.word.toNat_lt

@[simp] theorem ofNat_toNat (a : Address) : ofNat a.toNat = a := by
  simp [ofNat, toNat]

@[simp] theorem toNat_add (a : Address) (n : Nat) : (a.add n).toNat = (a.toNat + n) % UInt64.size := by
  simp [add]

theorem ext_toNat {a b : Address} (h : a.toNat = b.toNat) : a = b := by
  rw [← ofNat_toNat a, ← ofNat_toNat b, h]

end Address
end Memsift
