import Memsift.Constraint
import Memsift.Json.Reader
import Memsift.Json.Name

/-!
# Stored constraints

Constraints as JSON.  A comparison is an object with its `kind` and, if it has one, its `value`; an operation has
its `op` and its operands `left` and `right`, null for a missing one.  A scan value has its type and its content.
Keys may come in any order, unknown keys are ignored, a known key may not be given twice, and at most 127 arrays and
objects may be nested.

Constraints and scan values may also be written as arrays of what the object holds, the `node` or the `type` first.
An array leaves nothing out but the `value` of a comparison, and has nothing more.
-/

namespace Memsift

namespace ScanValue

/-- Doubles in JSON: ties go to the even decimal, and powers of ten are split off above 10^16 and below 10^-5. -/
def doubleLayout : Decimal.Layout where
  tie := .even
  positional := some (-5, 15)
  pointZero := true
  notANumber := "null"
  infinity := "null"

def singleLayout : Decimal.Layout := { doubleLayout with positional := some (-6, 12) }

/-- A number; those that are not finite become null. -/
def numberJson : (t : NumberType) → Word t → Json
  | .float p, w =>
    let layout := match p with
      | .single => singleLayout
      | .double => doubleLayout
    match p.format.decode w.toNat with
    | .finite _ _ _ => .number (layout.write p.format w.toNat)
    | _ => .null
  | t, w => .integer (Word.toInt t w)

def contentJson : ScanValue → Json
  | number t w => numberJson t w
  | bytes content => .array (content.map fun b => .natural b.toNat)
  | text content => .text content

def toJson (value : ScanValue) : Json :=
  .ofFields [("type", .text value.type.tag), ("value", value.contentJson)]

/-- A byte is an integer literal up to 255. -/
def byteOfJson? : Json → Option UInt8
  | .number literal =>
    match (Json.Number.ofLiteral? literal).bind (Json.Number.toWord? (.unsigned .one)) with
    | some w => some (UInt8.ofNat w.toNat)
    | none => none
  | _ => none

def ofContent? : ValueType → Json → Option ScanValue
  | .number t, .number literal => ((Json.Number.ofLiteral? literal).bind (Json.Number.toWord? t)).map (number t)
  | .bytes, .array items => (items.mapM byteOfJson?).map bytes
  | .text, .string content => content.map text
  | _, _ => none

/-- In an array the type may be given by its place among all types. -/
def ofJson? : Json → Option ScanValue
  | .object members => do
    let type ← (Json.required? members "type").bind (Json.name? Json.isEmpty)
    let content ← Json.required? members "value"
    ofContent? (← ValueType.ofTag? type) content
  | .array [type, content] => do ofContent? (← Json.alternative? ValueType.all ValueType.tag true type) content
  | _ => none

end ScanValue

namespace Constraint

/-- The two kinds of trees. -/
inductive Node where
  | scan | operation
deriving DecidableEq, Repr

namespace Node

def all : List Node := [scan, operation]

def name : Node → String
  | scan => "scan"
  | operation => "operation"

end Node

mutual

def toJson : Constraint → Json
  | leaf kind none => .ofFields [("node", .text Node.scan.name), ("kind", .text kind.name)]
  | leaf kind (some value) =>
    .ofFields [("node", .text Node.scan.name), ("kind", .text kind.name), ("value", value.toJson)]
  | operation op left right =>
    .ofFields [("node", .text Node.operation.name), ("op", .text op.name), ("left", operandJson left),
      ("right", operandJson right)]

def operandJson : Option Constraint → Json
  | none => .null
  | some c => c.toJson

end

/-- Nothing for null, else what the value was read as. -/
def optional? {α : Type} (v : Json) (read : Option α) : Option (Option α) :=
  match v with
  | .null => some none
  | _ => read.map some

def leafOfParts? (kind value : Json) : Option Constraint := do
  let kind ← (Json.name? Json.isEmpty kind).bind ConstraintKind.ofName?
  return leaf kind (← optional? value (ScanValue.ofJson? value))

/-- An operation, given what its operands were read as. -/
def operationOfParts? (op : Json) (left right : Option (Option Constraint)) : Option Constraint := do
  let op ← (Json.name? Json.isEmpty op).bind Connective.ofName?
  return operation op (← left) (← right)

def leafOfMembers? (members : List (Option String × Json)) : Option Constraint := do
  let value ← Json.member? members "value"
  leafOfParts? (← Json.required? members "kind") (value.getD .null)

/-- An operation, given what each member was read as if it is an operand. -/
def operationOfMembers? (members : List (Option String × Json))
    (operands : List (Option String × Option (Option Constraint))) : Option Constraint := do
  let left ← Json.member? operands "left"
  let right ← Json.member? operands "right"
  operationOfParts? (← Json.required? members "op") (left.getD (some none)) (right.getD (some none))

mutual

/-- The `node` of an operand may be given by its number, that of the whole tree may not. -/
def ofJson? (numbered : Bool) : Json → Option Constraint
  | .object members =>
    match (Json.required? members "node").bind (Json.alternative? Node.all Node.name numbered) with
    | some .scan => leafOfMembers? members
    | some .operation => operationOfMembers? members (operandsOfMembers members)
    | none => none
  | .array (node :: parts) =>
    match Json.alternative? Node.all Node.name numbered node, parts with
    | some .scan, [kind] => leafOfParts? kind .null
    | some .scan, [kind, value] => leafOfParts? kind value
    | some .operation, [op, left, right] =>
      operationOfParts? op (optional? left (ofJson? true left)) (optional? right (ofJson? true right))
    | _, _ => none
  | _ => none
termination_by structural v => v

def operandsOfMembers : List (Option String × Json) → List (Option String × Option (Option Constraint))
  | [] => []
  | (key, v) :: ms => (key, optional? v (ofJson? true v)) :: operandsOfMembers ms
termination_by structural members => members

end

/-- How many arrays and objects may be nested. -/
def nestingLimit : Nat := 127

def ofJsonText (text : String) : Except Error Constraint :=
  match Json.ofText? text with
  | none => .error (.json "not a JSON text")
  | some v =>
    if nestingLimit < v.nesting || !v.sound then .error (.json "nested too deep, or out of range")
    else
      match ofJson? false v with
      | some c => .ok c
      | none => .error (.json "not a constraint")

def toJsonText (c : Constraint) : String := c.toJson.toText

end Constraint
end Memsift
