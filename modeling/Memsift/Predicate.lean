import Memsift.Constraint
import Memsift.Lane

/-!
# Predicates

A predicate is a constraint prepared for elements of one number type.  It answers for the element at the start of
some bytes, and for all elements of a chunk at once.
-/

namespace Memsift

/-- A test of elements, in a form for a single element and in a form for a whole chunk. -/
structure ElementTest where
  size : Nat
  requiresPrevious : Bool
  /-- Whether the element at the start of the current and previous bytes passes. -/
  holds : List UInt8 → List UInt8 → Bool
  /-- The lanes of the elements at the multiples of the size that pass. -/
  compare : Chunk → Chunk → Mask

/-- A constraint with its scan values cast to one type and all operands in place. -/
inductive PredicateTree (t : NumberType) where
  | leaf (kind : ConstraintKind) (value : Word t)
  | operation (op : Connective) (left right : PredicateTree t)

namespace PredicateTree

variable {t : NumberType}

/-- Prepares a constraint.  Of an operation the missing operands come first, then what is wrong with the left and
with the right one; a value that is not looked at may be anything. -/
def ofConstraint (t : NumberType) : Constraint → Except Error (PredicateTree t)
  | .leaf kind value =>
    if kind.requiresValue then
      match value with
      | some v => (v.cast t).map (leaf kind)
      | none => .error (.malformedConstraint (.missingValue kind))
    else .ok (leaf kind (Word.zero t))
  | .operation op none _ => .error (.malformedConstraint (.missingOperand op .left))
  | .operation op (some _) none => .error (.malformedConstraint (.missingOperand op .right))
  | .operation op (some left) (some right) => do
    let left ← ofConstraint t left
    let right ← ofConstraint t right
    return operation op left right
termination_by structural c => c

/-- Whether an element with the given current and previous words satisfies the constraint.  The right operand is
looked at only if it can change the answer. -/
def eval (current previous : Word t) : PredicateTree t → Bool
  | leaf kind value => Word.evaluate t kind current previous value
  | operation op left right =>
    let holds := left.eval current previous
    match op with
    | .and => holds && right.eval current previous
    | .or => holds || right.eval current previous
    | .xor => holds ^^ right.eval current previous

/-- The lanes of the elements of a chunk that satisfy one comparison. -/
def compareLeaf (order : ByteOrder) (kind : ConstraintKind) (value : Word t) (current previous : Chunk) : Mask :=
  let results := (List.range (chunkSize / t.size)).map fun k =>
    Word.evaluate t kind (Word.read t order (current.from (k * t.size)))
      (Word.read t order (previous.from (k * t.size))) value
  Mask.ofFn fun i => results.getD (i / t.size) false

/-- The lanes of the elements of a chunk that satisfy the constraint.  Here the right operand is looked at if it can
change the answer for some lane. -/
def compare (order : ByteOrder) (current previous : Chunk) : PredicateTree t → Mask
  | leaf kind value => compareLeaf order kind value current previous
  | operation op left right =>
    let mask := left.compare order current previous
    match op with
    | .and => if mask.isAllFalse then mask else mask &&& right.compare order current previous
    | .or => if mask.isAllTrue then mask else mask ||| right.compare order current previous
    | .xor => mask ^^^ right.compare order current previous

end PredicateTree

structure Predicate where
  type : NumberType
  byteOrder : ByteOrder
  requiresPrevious : Bool
  tree : PredicateTree type

namespace Predicate

/-- Prepares a constraint for numbers of a type, whether or not the constraint is complete. -/
def prepare (c : Constraint) (t : NumberType) (order : ByteOrder) : Except Error Predicate :=
  (PredicateTree.ofConstraint t c).map fun tree => ⟨t, order, c.requiresPrevious, tree⟩

/-- Prepares a constraint for a data type.  The defects of the constraint come before those of the type. -/
def compile (c : Constraint) (type : DataType) : Except Error Predicate := do
  c.validate
  match type.valueType with
  | .number t => prepare c t type.byteOrder
  | other => throw (.unsupportedType (.comparison other))

/-- Whether the element at the start of the current and previous bytes satisfies the constraint. -/
def holds (p : Predicate) (current previous : List UInt8) : Bool :=
  p.tree.eval (Word.read p.type p.byteOrder current)
    (if p.requiresPrevious then Word.read p.type p.byteOrder previous else Word.zero p.type)

def compare (p : Predicate) (current previous : Chunk) : Mask := p.tree.compare p.byteOrder current previous

def test (p : Predicate) : ElementTest where
  size := p.type.size
  requiresPrevious := p.requiresPrevious
  holds := p.holds
  compare := p.compare

end Predicate
end Memsift
