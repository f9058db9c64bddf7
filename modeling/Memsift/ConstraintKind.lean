import Memsift.Text.Blank

/-!
# Comparisons and connectives

The comparisons that a constraint can ask of an element, and the connectives that join two constraints.
-/

namespace Memsift

/-- A comparison of the current value with a scan value, with the previous value, or with both. -/
inductive ConstraintKind where
  | equal | notEqual | greaterThan | greaterThanOrEqual | lessThan | lessThanOrEqual
  | changed | unchanged | increased | decreased | increasedByX | decreasedByX
deriving DecidableEq, Repr

namespace ConstraintKind

def all : List ConstraintKind :=
  [equal, notEqual, greaterThan, greaterThanOrEqual, lessThan, lessThanOrEqual, changed, unchanged, increased,
    decreased, increasedByX, decreasedByX]

/-- Whether the comparison looks at the previous value. -/
def requiresPrevious : ConstraintKind → Bool
  | changed | unchanged | increased | decreased | increasedByX | decreasedByX => true
  | _ => false

/-- Whether the comparison looks at a scan value. -/
def requiresValue : ConstraintKind → Bool
  | changed | unchanged | increased | decreased => false
  | _ => true

/-- The name in messages. -/
def title : ConstraintKind → String
  | equal => "Equal"
  | notEqual => "NotEqual"
  | greaterThan => "GreaterThan"
  | greaterThanOrEqual => "GreaterThanOrEqual"
  | lessThan => "LessThan"
  | lessThanOrEqual => "LessThanOrEqual"
  | changed => "Changed"
  | unchanged => "Unchanged"
  | increased => "Increased"
  | decreased => "Decreased"
  | increasedByX => "IncreasedByX"
  | decreasedByX => "DecreasedByX"

/-- The name in stored constraints. -/
def name : ConstraintKind → String
  | equal => "equal"
  | notEqual => "not_equal"
  | greaterThan => "greater_than"
  | greaterThanOrEqual => "greater_than_or_equal"
  | lessThan => "less_than"
  | lessThanOrEqual => "less_than_or_equal"
  | changed => "changed"
  | unchanged => "unchanged"
  | increased => "increased"
  | decreased => "decreased"
  | increasedByX => "increased_by_x"
  | decreasedByX => "decreased_by_x"

/-- Shorter ways to write a name. -/
def short : ConstraintKind → List String
  | equal => ["eq", "=="]
  | notEqual => ["ne", "!="]
  | greaterThan => ["gt", ">"]
  | greaterThanOrEqual => ["ge", ">="]
  | lessThan => ["lt", "<"]
  | lessThanOrEqual => ["le", "<="]
  | increasedByX => ["increased_by"]
  | decreasedByX => ["decreased_by"]
  | _ => []

/-- The comparison with exactly this name. -/
def ofName? (name : String) : Option ConstraintKind := all.find? (·.name == name)

/-- The comparison with this name or this shorter name. -/
def ofWord? (word : String) : Option ConstraintKind :=
  all.find? fun kind => kind.name == word || kind.short.contains word

theorem mem_all (kind : ConstraintKind) : kind ∈ all := by cases kind <;> decide

end ConstraintKind

inductive Connective where
  | and | or | xor
deriving DecidableEq, Repr

namespace Connective

def all : List Connective := [and, or, xor]

/-- The name in messages. -/
def title : Connective → String
  | and => "And"
  | or => "Or"
  | xor => "Xor"

/-- The name in stored constraints. -/
def name : Connective → String
  | and => "and"
  | or => "or"
  | xor => "xor"

def ofName? (name : String) : Option Connective := all.find? (·.name == name)

def apply : Connective → Bool → Bool → Bool
  | and => Bool.and
  | or => Bool.or
  | xor => Bool.xor

end Connective

/-- The place of an operand of a connective. -/
inductive Side where
  | left | right
deriving DecidableEq, Repr

def Side.name : Side → String
  | left => "left"
  | right => "right"

end Memsift
