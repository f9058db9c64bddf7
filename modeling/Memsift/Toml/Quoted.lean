import Memsift.Text.Numeral

/-!
# Strings in TOML

A string stands between quotes or apostrophes, one of them or three.  Three of them may stand around several lines.
Between quotes a backslash escapes a character or the end of a line; between apostrophes every character stands for
itself.  Writing takes the first form in which nothing has to be escaped.
-/

namespace Memsift.Toml

def isSpace (c : Char) : Bool := c = ' ' || c = '\t'

/-- Tabs and the characters that are not control characters. -/
def isVisible (c : Char) : Bool := c = '\t' || (32 ≤ c.toNat && c.toNat != 127)

/-- Whether nothing but spaces is left of the line. -/
def lineIsOver (cs : List Char) : Bool :=
  match cs.dropWhile isSpace with
  | '\n' :: _ => true
  | '\r' :: '\n' :: _ => true
  | _ => false

/-! ### Reading -/

/-- The character that follows a backslash, other than `u` and `U`. -/
def escape? : Char → Option Char
  | '"' => some '"'
  | '\\' => some '\\'
  | 'b' => some '\x08'
  | 'f' => some '\x0c'
  | 'n' => some '\n'
  | 'r' => some '\r'
  | 't' => some '\t'
  | _ => none

/-- The number of digits of a code point after a letter. -/
def codeWidth? : Char → Option Nat
  | 'u' => some 4
  | 'U' => some 8
  | _ => none

/-- The character whose code point some hexadecimal digits are. -/
def ofCode? (width : Nat) (cs : List Char) : Option Char :=
  if cs.length = width then
    (Text.digits? 16 cs).bind fun n => if n.isValidChar then some (Char.ofNat n) else none
  else none

/-- What follows three quotes: two more quotes at most belong to the content. -/
def closing (quote : Char) : List Char → List Char × List Char
  | a :: b :: rest =>
    if a = quote ∧ b = quote then ([quote, quote], rest)
    else if a = quote then ([quote], b :: rest)
    else ([], a :: b :: rest)
  | [a] => if a = quote then ([quote], []) else ([], [a])
  | [] => ([], [])

/-- Whether a string that may have several lines ends where a quote was found. -/
def closes (quote : Char) (rest : List Char) : Bool := rest.take 2 == [quote, quote]

/-- Puts a character in front of a content that was read. -/
def prepend (c : Char) : Option (List Char × List Char) → Option (List Char × List Char) :=
  Option.map fun (cs, rest) => (c :: cs, rest)

/-- The content of a string up to its end, and what follows.  After a backslash at the end of a line, `skipping` goes
on until the next visible character. -/
def content (quote : Char) (lines skipping : Bool) : List Char → Option (List Char × List Char)
  | [] => none
  | c :: rest =>
    if skipping && (isSpace c || c = '\n' || (c = '\r' && rest.head? == some '\n')) then
      content quote lines true rest
    else if c = quote then
      if !lines then some ([], rest)
      else if closes quote rest then some (closing quote (rest.drop 2))
      else prepend c (content quote lines false rest)
    else if c = '\\' ∧ quote = '"' then
      match rest with
      | [] => none
      | e :: rest =>
        match escape? e, codeWidth? e with
        | some a, _ => prepend a (content quote lines false rest)
        | none, some width =>
          match ofCode? width (rest.take width) with
          | some a => prepend a (content quote lines false (rest.drop width))
          | none => none
        | none, none => if lines && lineIsOver (e :: rest) then content quote lines true (e :: rest) else none
    else if isVisible c then prepend c (content quote lines false rest)
    else if lines && c = '\n' then prepend c (content quote lines false rest)
    else if lines && c = '\r' && rest.head? == some '\n' then content quote lines false rest
    else none
termination_by cs => cs.length

/-- A string without the end of line that may follow three quotes. -/
def dropLine : List Char → List Char
  | '\n' :: rest => rest
  | '\r' :: '\n' :: rest => rest
  | rest => rest

/-- A string after its first quote: whether it may have several lines, its content, and what follows. -/
def quoted (quote : Char) (cs : List Char) : Option (Bool × List Char × List Char) :=
  if closes quote cs then (content quote true false (dropLine (cs.drop 2))).map (true, ·)
  else (content quote false false cs).map (false, ·)

theorem length_closing (quote : Char) (cs : List Char) : (closing quote cs).2.length ≤ cs.length := by
  unfold closing
  split
  · split
    · simp; omega
    · split <;> simp
  · split <;> simp
  · simp

theorem eq_some_of_prepend {c : Char} {r : Option (List Char × List Char)} {ds rest : List Char}
    (h : prepend c r = some (ds, rest)) : ∃ es, r = some (es, rest) := by
  cases r with
  | none => simp [prepend] at h
  | some p => exact ⟨p.1, by simp_all [prepend, Prod.ext_iff]⟩

theorem length_content {quote : Char} {lines skipping : Bool} {cs ds rest : List Char}
    (h : content quote lines skipping cs = some (ds, rest)) : rest.length < cs.length := by
  fun_induction content quote lines skipping cs generalizing ds rest <;> grind [eq_some_of_prepend, length_closing]

theorem length_dropLine (cs : List Char) : (dropLine cs).length ≤ cs.length := by
  unfold dropLine
  split <;> simp; omega

theorem length_quoted {quote : Char} {cs ds rest : List Char} {lines : Bool}
    (h : quoted quote cs = some (lines, ds, rest)) : rest.length < cs.length := by
  unfold quoted at h
  split at h
  · cases hc : content quote true false (dropLine (cs.drop 2)) with
    | none => simp [hc] at h
    | some p =>
      have := length_content (show _ = some (p.1, p.2) from hc)
      have := length_dropLine (cs.drop 2)
      simp_all
      omega
  · cases hc : content quote false false cs with
    | none => simp [hc] at h
    | some p =>
      have := length_content (show _ = some (p.1, p.2) from hc)
      simp_all

/-! ### Writing -/

/-- The most times that a character occurs in a row. -/
def longestRun (c : Char) (cs : List Char) : Nat :=
  (cs.foldl (fun (run, most) d => if d = c then (run + 1, max most (run + 1)) else (0, most)) (0, 0)).2

/-- A character between quotes. -/
def escaped (c : Char) : List Char :=
  if c = '"' then ['\\', '"']
  else if c = '\\' then ['\\', '\\']
  else if c = '\x08' then ['\\', 'b']
  else if c = '\t' then ['\\', 't']
  else if c = '\n' then ['\\', 'n']
  else if c = '\x0c' then ['\\', 'f']
  else if c = '\r' then ['\\', 'r']
  else if isVisible c then [c]
  else '\\' :: 'u' :: (Text.hexadecimal 4 c.toNat).map Char.toUpper

/-- Characters between three quotes, after `run` quotes in a row: ends of lines stand for themselves, and so do two
quotes in a row. -/
def escapedLines (run : Nat) : List Char → List Char
  | [] => []
  | c :: cs =>
    if c = '"' then
      if run < 2 then c :: escapedLines (run + 1) cs else '\\' :: c :: escapedLines 0 cs
    else if c = '\n' then c :: escapedLines 0 cs
    else escaped c ++ escapedLines 0 cs

/-- A string in the first form in which nothing but tabs has to be escaped, else between quotes. -/
def writeString (s : String) : String :=
  let cs := s.toList
  let newline := cs.contains '\n'
  let control := cs.any fun c => !isVisible c && c != '\n'
  let backslash := cs.contains '\\'
  let one (quote : Char) (body : List Char) := String.ofList (quote :: body ++ [quote])
  let three (quote : Char) (body : List Char) :=
    String.ofList (List.replicate 3 quote ++ (if newline then ['\n'] else []) ++ body ++ List.replicate 3 quote)
  if !control && !backslash && !newline && longestRun '"' cs = 0 then one '"' (cs.flatMap escaped)
  else if !control && !newline && longestRun '\'' cs = 0 then one '\'' cs
  else if !control && !backslash && longestRun '"' cs ≤ 2 then three '"' (escapedLines 0 cs)
  else if !control && longestRun '\'' cs ≤ 2 then three '\'' cs
  else if newline then three '"' (escapedLines 0 cs)
  else one '"' (cs.flatMap escaped)

end Memsift.Toml
