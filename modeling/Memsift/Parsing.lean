import Memsift.Text.Blank
import Memsift.Error

/-!
# Names written by a user

Value types and comparisons by name.  Blanks at the ends do not count, and neither does the case of ASCII letters;
the error for an unknown name quotes what was looked up.
-/

namespace Memsift

private def normalized (text : String) : List Char := Text.lowercase (Text.trim text.toList)

def ValueType.parse (text : String) : Except Error ValueType :=
  let word := String.ofList (normalized text)
  match ofWord? word with
  | some type => .ok type
  | none => .error (.unsupportedType (.named word))

/-- A hyphen may stand for an underscore. -/
def ConstraintKind.parse (text : String) : Except Error ConstraintKind :=
  let word := String.ofList ((normalized text).map fun c => if c = '-' then '_' else c)
  match ofWord? word with
  | some kind => .ok kind
  | none => .error (.malformedConstraint (.unknownKind word))

/-- The size of the elements of a data type; an error if they have no common size. -/
def DataType.size (type : DataType) : Except Error Nat :=
  match type.valueType.size? with
  | some size => .ok size
  | none => .error (.unsupportedType (.named type.name))

end Memsift
