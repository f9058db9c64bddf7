import Memsift.Word
import Memsift.Error
import Memsift.Decimal.Layout
import Memsift.Decimal.Literal

/-!
# Scan values

The typed values that constraints compare with and that elements are shown as.  A value is read from a user's text
or from bytes, and written as text.
-/

namespace Memsift

/-- A word of some number type, a byte string, or a text. -/
inductive ScanValue where
  | number (type : NumberType) (word : Word type)
  | bytes (content : List UInt8)
  | text (content : String)
deriving DecidableEq

namespace ScanValue

def type : ScanValue → ValueType
  | number t _ => .number t
  | bytes _ => .bytes
  | text _ => .text

/-- The number of bytes that the value takes. -/
def size : ScanValue → Nat
  | number t _ => t.size
  | bytes content => content.length
  | text content => content.utf8ByteSize

/-- Decodes a value at the start of some bytes; byte strings and texts take all of them. -/
def ofBytes? (type : ValueType) (order : ByteOrder) (content : List UInt8) : Option ScanValue :=
  match type with
  | .number t => (Word.read? t order content).map (number t)
  | .bytes => some (bytes content)
  | .text => (String.fromUTF8? ⟨content.toArray⟩).map text

/-- The word of an integer type for an integer in its range. -/
def wordOfInt? (t : NumberType) (i : Int) : Option (Word t) :=
  if t.low ≤ i ∧ i ≤ t.high then some (BitVec.ofInt _ i) else none

/-- An integer as users write it: decimal, or hexadecimal after `0x`.  Only signed types take a minus, and it comes
after the `0x`. -/
def integerText? (t : NumberType) (cs : List Char) : Option (Word t) :=
  let read base cs := match t with
    | .signed _ => Text.integer? base cs
    | _ => (Text.natural? base cs).map Int.ofNat
  let value? := match cs with
    | '0' :: 'x' :: body => read 16 body
    | '0' :: 'X' :: body => read 16 body
    | _ => read 10 cs
  value?.bind (wordOfInt? t)

/-- A number as users write it. -/
def numberText? (t : NumberType) (cs : List Char) : Option (Word t) :=
  match t with
  | .float p => (Decimal.value? cs).map (Word.ofValue p)
  | t => integerText? t cs

/-- Reads what a user wrote; blanks at the ends do not count. -/
def parse (text : String) (type : ValueType) : Except Error ScanValue :=
  let cs := Text.trim text.toList
  match type with
  | .number t =>
    match numberText? t cs with
    | some word => .ok (number t word)
    | none => .error (.invalidValue ("'" ++ String.ofList cs ++ "' is not a valid " ++ t.name))
  | .text => .ok (.text (String.ofList cs))
  | .bytes => .error (.unsupportedType .byteText)

/-- The value as a word of a number type; byte strings and texts cannot be cast. -/
def cast (value : ScanValue) (t : NumberType) : Except Error (Word t) :=
  match value with
  | number u word => .ok (Word.cast u t word)
  | other => .error (.unsupportedType (.scanValue other.type))

/-- Floating-point values are shown with all their places; of two equally near decimals the larger one is taken. -/
def layout : Decimal.Layout where
  tie := .up
  positional := none
  pointZero := false
  notANumber := "NaN"
  infinity := "inf"

def numberDisplay : (t : NumberType) → Word t → String
  | .float p, w => layout.write p.format w.toNat
  | t, w => String.ofList (Text.signedDecimal (Word.toInt t w))

def display : ScanValue → String
  | number t word => numberDisplay t word
  | bytes content => "[" ++ ", ".intercalate (content.map fun b => toString b.toNat) ++ "]"
  | text content => "\"" ++ content ++ "\""

instance : ToString ScanValue := ⟨display⟩

end ScanValue
end Memsift
