import Memsift.Alignment
import Memsift.Json.Reader
import Memsift.Json.Name

/-!
# Stored data types and alignments

Data types and alignments as JSON.  A data type is an object with its `value_type` and, unless it is little-endian,
its `byte_order`, or an array of the two.  Either may be a name or an object with the name as its only key and null as
its value.  An alignment is a name or a number of bytes.
-/

namespace Memsift

namespace DataType

def toJson (t : DataType) : Json :=
  .ofFields [("value_type", .text t.valueType.name), ("byte_order", .text t.byteOrder.name)]

def ofParts? (valueType byteOrder : Json) : Option DataType := do
  let valueType ← (Json.name? Json.isNull valueType).bind ValueType.ofName?
  let byteOrder ← (Json.name? Json.isNull byteOrder).bind ByteOrder.ofName?
  return ⟨valueType, byteOrder⟩

def ofJson? : Json → Option DataType
  | .object members =>
    if members.any fun m => m.1.isNone then none
    else
      match Json.required? members "value_type", Json.member? members "byte_order" with
      | some valueType, some byteOrder => ofParts? valueType (byteOrder.getD (.text ByteOrder.little.name))
      | _, _ => none
  | .array [valueType] => ofParts? valueType (.text ByteOrder.little.name)
  | .array [valueType, byteOrder] => ofParts? valueType byteOrder
  | _ => none

def ofJsonText (text : String) : Except Error DataType :=
  match (Json.ofText? text).bind ofJson? with
  | some t => .ok t
  | none => .error (.json "not a data type")

end DataType

namespace Alignment

def toJson (a : Alignment) : Json := .text a.name

def ofJson? : Json → Option Alignment
  | .number literal => (Json.natural? literal).bind fun n => (ofBytes n).toOption
  | .string (some name) => ofName? name
  | _ => none

def ofJsonText (text : String) : Except Error Alignment :=
  match (Json.ofText? text).bind ofJson? with
  | some a => .ok a
  | none => .error (.json "not an alignment")

end Alignment
end Memsift
