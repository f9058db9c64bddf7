import Memsift.Text.Numeral

/-!
# JSON values

JSON values and their compact text.  Numbers are kept as the literals they are written as.  A string that holds one
half of a surrogate pair has no content as a text; it is a value all the same.
-/

namespace Memsift

inductive Json where
  | null
  | bool (b : Bool)
  | number (literal : String)
  | string (content : Option String)
  | array (items : List Json)
  | object (members : List (Option String × Json))

namespace Json

/-- The string with a text as its content. -/
def text (s : String) : Json := string (some s)

def natural (n : Nat) : Json := number (String.ofList (Text.decimal n))

def integer (i : Int) : Json := number (String.ofList (Text.signedDecimal i))

/-- An object whose keys are texts. -/
def ofFields (fields : List (String × Json)) : Json := object (fields.map fun (key, v) => (some key, v))

mutual

/-- How deep arrays and objects are nested. -/
def nesting : Json → Nat
  | array items => nestingItems items + 1
  | object members => nestingMembers members + 1
  | _ => 0

def nestingItems : List Json → Nat
  | [] => 0
  | v :: vs => max (nesting v) (nestingItems vs)

def nestingMembers : List (Option String × Json) → Nat
  | [] => 0
  | (_, v) :: ms => max (nesting v) (nestingMembers ms)

end

/-- A character of a string: quotes, backslashes and control characters are escaped, all else stands for itself. -/
def escaped (c : Char) : List Char :=
  if c = '"' then ['\\', '"']
  else if c = '\\' then ['\\', '\\']
  else if c = '\x08' then ['\\', 'b']
  else if c = '\x0c' then ['\\', 'f']
  else if c = '\n' then ['\\', 'n']
  else if c = '\r' then ['\\', 'r']
  else if c = '\t' then ['\\', 't']
  else if c.toNat < 32 then '\\' :: 'u' :: Text.hexadecimal 4 c.toNat
  else [c]

/-- A string between quotes; half a surrogate pair is written where there is no content. -/
def quoted : Option String → List Char
  | some s => '"' :: s.toList.flatMap escaped ++ ['"']
  | none => ['"', '\\', 'u', 'd', '8', '0', '0', '"']

mutual

/-- The text of a value, without blanks. -/
def write : Json → List Char
  | null => ['n', 'u', 'l', 'l']
  | bool true => ['t', 'r', 'u', 'e']
  | bool false => ['f', 'a', 'l', 's', 'e']
  | number literal => literal.toList
  | string content => quoted content
  | array [] => ['[', ']']
  | array (v :: vs) => '[' :: write v ++ writeItems vs
  | object [] => ['\x7b', '\x7d']
  | object ((key, v) :: ms) => '\x7b' :: quoted key ++ ':' :: write v ++ writeMembers ms

/-- The items after the first, and the end of the array. -/
def writeItems : List Json → List Char
  | [] => [']']
  | v :: vs => ',' :: write v ++ writeItems vs

/-- The members after the first, and the end of the object. -/
def writeMembers : List (Option String × Json) → List Char
  | [] => ['\x7d']
  | (key, v) :: ms => ',' :: quoted key ++ ':' :: write v ++ writeMembers ms

end

def toText (v : Json) : String := String.ofList v.write

end Json
end Memsift
