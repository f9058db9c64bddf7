import Memsift.Json

/-!
# Reading JSON

Reading goes in two steps.  A text is cut into tokens; a stack of open arrays and objects then takes the tokens one
after another.  The grammar is strict: one value, no trailing commas, no comments, no raw control characters in
strings.
-/

namespace Memsift.Json

/-- One of the six marks `[ ] { } : ,`, or a value that is not made of others. -/
inductive Token where
  | mark (c : Char)
  | scalar (v : Json)

def isSpace (c : Char) : Bool := [' ', '\t', '\n', '\r'].contains c

def isMark (c : Char) : Bool := ['[', ']', '\x7b', '\x7d', ':', ','].contains c

/-- Characters of words and numbers, and of nothing else. -/
def isPlain (c : Char) : Bool := !isSpace c && !isMark c && c != '"'

/-! ### Strings -/

/-- The character that follows a backslash, other than `u`. -/
def escape? : Char → Option Nat
  | '"' => some 34
  | '\\' => some 92
  | '/' => some 47
  | 'b' => some 8
  | 'f' => some 12
  | 'n' => some 10
  | 'r' => some 13
  | 't' => some 9
  | _ => none

/-- The code points of a string up to the closing quote, halves of surrogate pairs among them, and what follows. -/
def codePoints : List Char → Option (List Nat × List Char)
  | [] => none
  | '"' :: rest => some ([], rest)
  | '\\' :: 'u' :: a :: b :: c :: d :: rest =>
    match Text.digits? 16 [a, b, c, d], codePoints rest with
    | some n, some (ns, rest) => some (n :: ns, rest)
    | _, _ => none
  | '\\' :: e :: rest =>
    match escape? e, codePoints rest with
    | some n, some (ns, rest) => some (n :: ns, rest)
    | _, _ => none
  | c :: rest =>
    if c.toNat < 32 then none
    else
      match codePoints rest with
      | some (ns, rest) => some (c.toNat :: ns, rest)
      | none => none

/-- The first half of a surrogate pair. -/
def isHigh (n : Nat) : Bool := 0xD800 ≤ n && n < 0xDC00

/-- The second half of a surrogate pair. -/
def isLow (n : Nat) : Bool := 0xDC00 ≤ n && n < 0xE000

/-- The characters of code points; two halves of a surrogate pair make one, and a half alone makes none. -/
def characters : List Nat → Option (List Char)
  | [] => some []
  | n :: m :: ns =>
    if isHigh n && isLow m then
      (characters ns).map (Char.ofNat (0x10000 + (n - 0xD800) * 0x400 + (m - 0xDC00)) :: ·)
    else if isHigh n || isLow n then none
    else (characters (m :: ns)).map (Char.ofNat n :: ·)
  | [n] => if isHigh n || isLow n then none else some [Char.ofNat n]

theorem length_codePoints {cs rest : List Char} {ns : List Nat} (h : codePoints cs = some (ns, rest)) :
    rest.length < cs.length := by
  fun_induction codePoints cs generalizing ns rest <;> try simp at h
  case case2 => grind
  case case3 ih =>
    have := ih ‹_›
    simp [← h.2]
    omega
  case case5 ih =>
    have := ih ‹_›
    simp [← h.2]
    omega
  case case8 ih =>
    have := ih ‹_›
    simp [← h.2]
    omega

/-! ### Numbers -/

/-- An integer without needless zeros in front, and what follows. -/
def wholePart? (cs : List Char) : Option (List Char) :=
  match cs with
  | '0' :: rest => some rest
  | c :: rest => if c.isDigit then some (rest.dropWhile Char.isDigit) else none
  | [] => none

/-- What follows one digit or more. -/
def someDigits? : List Char → Option (List Char)
  | c :: rest => if c.isDigit then some (rest.dropWhile Char.isDigit) else none
  | [] => none

def fractionPart? : List Char → Option (List Char)
  | '.' :: rest => someDigits? rest
  | rest => some rest

def exponentPart? : List Char → Option (List Char)
  | c :: rest =>
    if c = 'e' ∨ c = 'E' then
      match rest with
      | '+' :: rest => someDigits? rest
      | '-' :: rest => someDigits? rest
      | rest => someDigits? rest
    else some (c :: rest)
  | [] => some []

/-- Whether some characters are a number, all of them. -/
def isNumber (cs : List Char) : Bool :=
  let body := match cs with
    | '-' :: rest => rest
    | _ => cs
  ((wholePart? body).bind fractionPart?).bind exponentPart? == some []

/-! ### Tokens and values -/

/-- The value of a run of plain characters. -/
def plainValue? (cs : List Char) : Option Json :=
  match String.ofList cs with
  | "null" => some .null
  | "true" => some (.bool true)
  | "false" => some (.bool false)
  | literal => if isNumber cs then some (.number literal) else none

def tokens : List Char → Option (List Token)
  | [] => some []
  | c :: cs =>
    if isSpace c then tokens cs
    else if isMark c then (tokens cs).map (.mark c :: ·)
    else if c = '"' then
      match h : codePoints cs with
      | some (ns, rest) =>
        have := length_codePoints h
        (tokens rest).map (.scalar (.string ((characters ns).map String.ofList)) :: ·)
      | none => none
    else
      match plainValue? (c :: cs.takeWhile isPlain) with
      | some v => (tokens (cs.dropWhile isPlain)).map (.scalar v :: ·)
      | none => none
termination_by cs => cs.length
decreasing_by
  · simp
  · simp
  · simp; omega
  · have := (List.dropWhile_sublist isPlain (l := cs)).length_le; simp; omega

/-- An array or object that has been opened, with what it holds so far, the last thing first. -/
inductive Frame where
  | array (items : List Json)
  | object (members : List (Option String × Json)) (key : Option String)

/-- What may come next: a value, the first item of an array, the first or a further key of an object, a colon, or
whatever can follow a finished value. -/
inductive Expected where
  | value (stack : List Frame)
  | firstItem (stack : List Frame)
  | firstKey (stack : List Frame)
  | key (members : List (Option String × Json)) (stack : List Frame)
  | colon (members : List (Option String × Json)) (key : Option String) (stack : List Frame)
  | finished (v : Json) (stack : List Frame)

namespace Expected

/-- Takes the first token of a value. -/
def begin (stack : List Frame) : Token → Option Expected
  | .scalar v => some (finished v stack)
  | .mark '[' => some (firstItem stack)
  | .mark '\x7b' => some (firstKey stack)
  | _ => none

def step : Expected → Token → Option Expected
  | value stack, t => begin stack t
  | firstItem stack, .mark ']' => some (finished (.array []) stack)
  | firstItem stack, t => begin (.array [] :: stack) t
  | firstKey stack, .mark '\x7d' => some (finished (.object []) stack)
  | firstKey stack, .scalar (.string k) => some (colon [] k stack)
  | key members stack, .scalar (.string k) => some (colon members k stack)
  | colon members k stack, .mark ':' => some (value (.object members k :: stack))
  | finished v (.array items :: stack), .mark ',' => some (value (.array (v :: items) :: stack))
  | finished v (.array items :: stack), .mark ']' => some (finished (.array (v :: items).reverse) stack)
  | finished v (.object members k :: stack), .mark ',' => some (key ((k, v) :: members) stack)
  | finished v (.object members k :: stack), .mark '\x7d' =>
    some (finished (.object ((k, v) :: members).reverse) stack)
  | _, _ => none

end Expected

/-- The value that some tokens make up. -/
def ofTokens? (ts : List Token) : Option Json :=
  match ts.foldlM Expected.step (.value []) with
  | some (.finished v []) => some v
  | _ => none

/-- The value that a text is the text of. -/
def ofText? (text : String) : Option Json := (tokens text.toList).bind ofTokens?

end Memsift.Json
