import Memsift.Toml.Draft
import Memsift.Toml.Token

/-!
# Reading TOML

The tokens of a text are taken one after another, by the tables that are under construction and a stack of the arrays
and braces that are open.  Every line gives a header, a key with its value, or nothing.
-/

namespace Memsift.Toml

/-! ### Keys -/

/-- Characters of keys without quotes. -/
def isBare (c : Char) : Bool := c.isAlphanum || c = '_' || c = '-'

/-- The words of a run and, absent, the points between them. -/
def pieces : List Char → List (Option (List Char))
  | [] => []
  | '.' :: cs => none :: pieces cs
  | c :: cs =>
    match pieces cs with
    | some word :: rest => some (c :: word) :: rest
    | rest => some [c] :: rest

/-- The pieces of the parts of a key. -/
def keyPieces? : Token → Option (List (Option (List Char)))
  | .run cs => if cs.all fun c => isBare c || c = '.' then some (pieces cs) else none
  | .string content false => some [some content.toList]
  | _ => none

/-- Words with single points between them. -/
def dotted? : List (Option (List Char)) → Option (List String)
  | [some word] => some [String.ofList word]
  | some word :: none :: rest => (dotted? rest).map (String.ofList word :: ·)
  | _ => none

/-- How many arrays and tables in braces may be open, and of how many parts a key may consist, is less than this. -/
def depthLimit : Nat := 80

/-- The path and the last part of the key that some tokens make up. -/
def key? (tokens : List Token) : Option (List String × String) :=
  match (tokens.mapM keyPieces?).bind fun ps => dotted? ps.flatten with
  | some parts =>
    if parts.length < depthLimit then parts.getLast?.map fun last => (parts.dropLast, last) else none
  | none => none

/-! ### Values and lines -/

/-- What a value is for: the key of a line, an array with the items so far, the last one first, or a key in
braces. -/
inductive Frame where
  | line (path : List String) (key : String)
  | array (items : List Toml)
  | braces (entries : Entries) (path : List String) (key : String)

/-- What may come next.  Tokens of keys are collected, the last one first. -/
inductive Expected where
  | line
  | lineEnd
  | header (repeated : Bool) (tokens : List Token)
  | headerEnd (path : List String) (key : String)
  | lineKey (tokens : List Token)
  | firstKey (entries : Entries) (stack : List Frame)
  | key (tokens : List Token) (entries : Entries) (stack : List Frame)
  | afterEntry (entries : Entries) (stack : List Frame)
  | value (stack : List Frame)
  | afterItem (items : List Toml) (stack : List Frame)

/-- A text that has been read in part: the header in force, the entries of all tables, and what may come next. -/
structure Reading where
  header : List String := []
  entries : Entries := []
  expected : Expected := .line

namespace Reading

/-- Hands a finished value to what it is for. -/
def finish (r : Reading) (v : Toml) : List Frame → Option Reading
  | .line path key :: _ =>
    (r.entries.insertUnder r.header path key v).map fun entries => { r with entries, expected := .lineEnd }
  | .array items :: stack => some { r with expected := .afterItem (v :: items) stack }
  | .braces entries path key :: stack =>
    (entries.insert path key v).map fun entries => { r with expected := .afterEntry entries stack }
  | [] => none

/-- Takes the first token of a value. -/
def begin (r : Reading) (stack : List Frame) : Token → Option Reading
  | .run cs => (scalar? cs).bind (r.finish · stack)
  | .string content _ => r.finish (.string content) stack
  | .mark '[' _ => if stack.length < depthLimit then some { r with expected := .value (.array [] :: stack) } else none
  | .mark '\x7b' _ => if stack.length < depthLimit then some { r with expected := .firstKey [] stack } else none
  | _ => none

/-- Takes a token of a key in braces. -/
def stepKey (r : Reading) (tokens : List Token) (entries : Entries) (stack : List Frame) : Token → Option Reading
  | .mark '=' _ =>
    (key? tokens.reverse).map fun (path, key) => { r with expected := .value (.braces entries path key :: stack) }
  | .run cs => some { r with expected := .key (.run cs :: tokens) entries stack }
  | .string content lines => some { r with expected := .key (.string content lines :: tokens) entries stack }
  | _ => none

/-- Takes a token of the key of a line. -/
def stepLineKey (r : Reading) (tokens : List Token) : Token → Option Reading
  | .mark '=' _ => (key? tokens.reverse).map fun (path, key) => { r with expected := .value [.line path key] }
  | .run cs => some { r with expected := .lineKey (.run cs :: tokens) }
  | .string content lines => some { r with expected := .lineKey (.string content lines :: tokens) }
  | _ => none

/-- Takes a token of a header. -/
def stepHeader (r : Reading) (repeated : Bool) (tokens : List Token) : Token → Option Reading
  | .mark ']' _ =>
    match key? tokens.reverse, repeated with
    | some (path, key), true => some { r with expected := .headerEnd path key }
    | some (path, key), false =>
      (r.entries.declare path key).map fun entries => { header := path ++ [key], entries, expected := .lineEnd }
    | none, _ => none
  | .mark '[' true => if tokens.isEmpty && !repeated then some { r with expected := .header true [] } else none
  | .run cs => some { r with expected := .header repeated (.run cs :: tokens) }
  | .string content lines => some { r with expected := .header repeated (.string content lines :: tokens) }
  | _ => none

def step (r : Reading) (t : Token) : Option Reading :=
  match r.expected, t with
  | .line, .newline => some r
  | .line, .mark '[' _ => some { r with expected := .header false [] }
  | .line, t => r.stepLineKey [] t
  | .lineEnd, .newline => some { r with expected := .line }
  | .header repeated tokens, t => r.stepHeader repeated tokens t
  | .headerEnd path key, .mark ']' true =>
    (r.entries.addRow path key).map fun entries => { header := path ++ [key], entries, expected := .lineEnd }
  | .lineKey tokens, t => r.stepLineKey tokens t
  | .firstKey entries stack, .mark '\x7d' _ => r.finish entries.finish stack
  | .firstKey entries stack, t => r.stepKey [] entries stack t
  | .key tokens entries stack, t => r.stepKey tokens entries stack t
  | .afterEntry entries stack, .mark ',' _ => some { r with expected := .key [] entries stack }
  | .afterEntry entries stack, .mark '\x7d' _ => r.finish entries.finish stack
  | .value (.array _ :: _), .newline => some r
  | .value (.array items :: stack), .mark ']' _ => r.finish (.array items.reverse) stack
  | .value stack, t => r.begin stack t
  | .afterItem _ _, .newline => some r
  | .afterItem items stack, .mark ',' _ => some { r with expected := .value (.array items :: stack) }
  | .afterItem items stack, .mark ']' _ => r.finish (.array items.reverse) stack
  | _, _ => none

/-- Whether the text may end here. -/
def isOver (r : Reading) : Bool :=
  match r.expected with
  | .line | .lineEnd => true
  | _ => false

end Reading

/-- The table that a text is the text of.  A byte order mark in front does not count. -/
def ofText? (text : String) : Option Toml :=
  let cs := match text.toList with
    | '\ufeff' :: cs => cs
    | cs => cs
  match (Token.ofChars none cs).bind fun tokens => tokens.foldlM Reading.step {} with
  | some r => if r.isOver then some r.entries.finish else none
  | none => none

end Memsift.Toml
