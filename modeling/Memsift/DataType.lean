import Memsift.Text.Blank

/-!
# Data types

The types of values that can be read from memory: integers of one, two, four or eight bytes, the two floating-point
formats, byte strings and text.  A data type adds the order in which the bytes of a number are stored.
-/

namespace Memsift

/-- How many bytes an integer takes. -/
inductive Width where
  | one | two | four | eight
deriving DecidableEq, Repr

def Width.bytes : Width → Nat
  | one => 1
  | two => 2
  | four => 4
  | eight => 8

inductive Precision where
  | single | double
deriving DecidableEq, Repr

def Precision.bytes : Precision → Nat
  | single => 4
  | double => 8

/-- The types whose values can be compared. -/
inductive NumberType where
  | signed (width : Width)
  | unsigned (width : Width)
  | float (precision : Precision)
deriving DecidableEq, Repr

namespace NumberType

/-- The number of bytes of a value. -/
def size : NumberType → Nat
  | signed w => w.bytes
  | unsigned w => w.bytes
  | float p => p.bytes

def isFloat : NumberType → Bool
  | float _ => true
  | _ => false

def name : NumberType → String
  | signed .one => "i8"
  | signed .two => "i16"
  | signed .four => "i32"
  | signed .eight => "i64"
  | unsigned .one => "u8"
  | unsigned .two => "u16"
  | unsigned .four => "u32"
  | unsigned .eight => "u64"
  | float .single => "f32"
  | float .double => "f64"

/-- Every number type with its name in everyday language. -/
def everyday : List (String × NumberType) :=
  [("sbyte", signed .one), ("short", signed .two), ("int", signed .four), ("long", signed .eight),
    ("byte", unsigned .one), ("ushort", unsigned .two), ("uint", unsigned .four), ("ulong", unsigned .eight),
    ("float", float .single), ("double", float .double)]

def all : List NumberType := everyday.map (·.2)

theorem size_pos (t : NumberType) : 0 < t.size := by
  rcases t with w | w | p
  · cases w <;> decide
  · cases w <;> decide
  · cases p <;> decide

theorem size_mem (t : NumberType) : t.size ∈ [1, 2, 4, 8] := by
  rcases t with w | w | p
  · cases w <;> decide
  · cases w <;> decide
  · cases p <;> decide

theorem mem_all (t : NumberType) : t ∈ all := by
  rcases t with w | w | p
  · cases w <;> decide
  · cases w <;> decide
  · cases p <;> decide

end NumberType

inductive ValueType where
  | number (type : NumberType)
  | bytes
  | text
deriving DecidableEq, Repr

namespace ValueType

def name : ValueType → String
  | number t => t.name
  | bytes => "bytes"
  | text => "string"

/-- The name that marks a scan value in a stored constraint. -/
def tag : ValueType → String
  | number t => t.name.map Char.toUpper
  | bytes => "Bytes"
  | text => "String"

/-- The size of all values of the type, if they have one. -/
def size? : ValueType → Option Nat
  | number t => some t.size
  | _ => none

def isNumeric : ValueType → Bool
  | number _ => true
  | _ => false

def isFloat : ValueType → Bool
  | number t => t.isFloat
  | _ => false

def all : List ValueType := NumberType.all.map number ++ [bytes, text]

/-- The type with exactly this name. -/
def ofName? (name : String) : Option ValueType := all.find? (·.name == name)

/-- The type with exactly this tag. -/
def ofTag? (tag : String) : Option ValueType := all.find? (·.tag == tag)

/-- The type with this name, or with this name in everyday language. -/
def ofWord? (word : String) : Option ValueType :=
  ofName? word <|> ((NumberType.everyday.find? (·.1 == word)).map fun entry => number entry.2)

end ValueType

inductive ByteOrder where
  | little | big
deriving DecidableEq, Repr

namespace ByteOrder

def name : ByteOrder → String
  | little => "little"
  | big => "big"

def ofName? (name : String) : Option ByteOrder := [little, big].find? (·.name == name)

end ByteOrder

/-- A value type and the order in which the bytes of its numbers are stored. -/
structure DataType where
  valueType : ValueType
  byteOrder : ByteOrder := .little
deriving DecidableEq, Repr

/-- The name of the value type, marked if the most significant byte comes first. -/
def DataType.name (t : DataType) : String :=
  match t.byteOrder with
  | .little => t.valueType.name
  | .big => t.valueType.name ++ "be"

end Memsift
