import Memsift.DataType
import Memsift.ConstraintKind

/-!
# Errors

What can go wrong while values and constraints are read, while a scan is prepared, and while memory is read; and the
wording of each.
-/

namespace Memsift

/-- Why a type will not do. -/
inductive Unsupported where
  | named (text : String)
  | scanValue (type : ValueType)
  | comparison (type : ValueType)
  | byteText
deriving DecidableEq, Repr

def Unsupported.message : Unsupported → String
  | named text => text
  | scanValue type => type.name ++ " values cannot be used as numeric scan values"
  | comparison type => type.name ++ " cannot be compared by the scanner"
  | byteText => "byte arrays cannot be parsed as scan values"

/-- What is wrong with a constraint. -/
inductive Malformed where
  | described (text : String)
  | unknownKind (word : String)
  | missingValue (kind : ConstraintKind)
  | missingOperand (op : Connective) (side : Side)
deriving DecidableEq, Repr

def Malformed.message : Malformed → String
  | described text => text
  | unknownKind word => "unknown constraint kind '" ++ word ++ "'"
  | missingValue kind => kind.title ++ " requires a scan value"
  | missingOperand op side => op.title ++ " node is missing its " ++ side.name ++ " operand"

/-- What went wrong. -/
inductive Error where
  | unsupportedType (reason : Unsupported)
  | malformedConstraint (reason : Malformed)
  | taskConflict (task : String)
  | regionFailure (address reason : String)
  | invalidRegion (offset length size : Nat)
  | readFailed (address reason : String)
  | invalidAddress (text : String)
  | invalidValue (text : String)
  | invalidAlignment (bytes : Nat)
  | io (reason : String)
  | json (reason : String)
  | unknown (reason : String)
deriving DecidableEq, Repr

namespace Error

def message : Error → String
  | unsupportedType reason => "Unsupported type: " ++ reason.message
  | malformedConstraint reason => "Malformed constraint: " ++ reason.message
  | taskConflict task => "Task already running: " ++ task
  | regionFailure address reason => "Region at " ++ address ++ " failed: " ++ reason
  | invalidRegion offset length size =>
    "Region [" ++ toString offset ++ ", +" ++ toString length ++ ") exceeds buffer of " ++ toString size ++ " bytes"
  | readFailed address reason => "Failed to read memory at " ++ address ++ ": " ++ reason
  | invalidAddress text => "Invalid memory address: " ++ text
  | invalidValue text => "Invalid scan value: " ++ text
  | invalidAlignment bytes => "Invalid alignment: " ++ toString bytes
  | io reason => "I/O error: " ++ reason
  | json reason => "JSON error: " ++ reason
  | unknown reason => "Unknown error: " ++ reason

/-- Whether the error is found while a scan is prepared, before any element is looked at. -/
def isPreparation : Error → Bool
  | unsupportedType _ | malformedConstraint _ => true
  | _ => false

end Error
end Memsift
