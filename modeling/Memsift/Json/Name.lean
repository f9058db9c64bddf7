import Memsift.Json.Number

/-!
# Names in JSON

How JSON says which of several alternatives is meant.  Mostly it is a string, the name of the alternative.  An
alternative that holds nothing may also be an object with its name as the only key and an empty value.  Where the
alternatives are numbered, an integer literal stands for the one at that place, the first at zero.
-/

namespace Memsift.Json

def isNull : Json → Bool
  | null => true
  | _ => false

/-- Null, or an object without members. -/
def isEmpty : Json → Bool
  | null | object [] => true
  | _ => false

/-- The name in a string, or the only key of an object whose value counts as empty. -/
def name? (empty : Json → Bool) : Json → Option String
  | string content => content
  | object [(key, v)] => if empty v then key else none
  | _ => none

/-- The alternative with the name in a string, or at the place that a number stands for. -/
def alternative? {α : Type} (all : List α) (name : α → String) (numbered : Bool) : Json → Option α
  | string (some s) => all.find? (name · == s)
  | number literal => if numbered then (natural? literal).bind (all[·]?) else none
  | _ => none

end Memsift.Json
