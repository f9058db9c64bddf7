import Memsift.Toml.Quoted
import Memsift.Toml.Scalar

/-!
# TOML tokens

A text is cut into marks, ends of lines, strings and runs of other characters.  Comments and spaces are left out; a
space inside a run stands between a date and a time.
-/

namespace Memsift.Toml

inductive Token where
  /-- One of `[ ] { } = ,`, and whether it comes directly after the same mark. -/
  | mark (c : Char) (doubled : Bool)
  | newline
  | string (content : String) (lines : Bool)
  | run (cs : List Char)
deriving DecidableEq

namespace Token

def isMark (c : Char) : Bool := ['[', ']', '\x7b', '\x7d', '=', ','].contains c

/-- Characters of runs. -/
def isPlain (c : Char) : Bool :=
  isVisible c && !isSpace c && !isMark c && c != '"' && c != '\'' && c != '#'

/-- The run that starts with a character, and what follows it. -/
def splitRun (c : Char) (cs : List Char) : List Char × List Char :=
  let word := c :: cs.takeWhile isPlain
  match cs.dropWhile isPlain with
  | ' ' :: rest =>
    if isDate word && rest.head?.any Char.isDigit then
      (word ++ ' ' :: rest.takeWhile isPlain, rest.dropWhile isPlain)
    else (word, ' ' :: rest)
  | rest => (word, rest)

theorem length_splitRun (c : Char) (cs : List Char) : (splitRun c cs).2.length ≤ cs.length := by
  have hd := (List.dropWhile_sublist isPlain (l := cs)).length_le
  simp only [splitRun]
  split
  · rename_i rest heq
    rw [heq] at hd
    have := (List.dropWhile_sublist isPlain (l := rest)).length_le
    split <;> simp at * <;> omega
  · simpa using hd

/-- The tokens of a text after the character `last`. -/
def ofChars (last : Option Char) : List Char → Option (List Token)
  | [] => some []
  | c :: cs =>
    if isSpace c then ofChars none cs
    else if c = '\n' then (ofChars none cs).map (newline :: ·)
    else if c = '\r' ∧ cs.head? = some '\n' then ofChars none cs
    else if c = '#' then ofChars none (cs.dropWhile isVisible)
    else if isMark c then (ofChars (some c) cs).map (mark c (last == some c) :: ·)
    else if c = '"' ∨ c = '\'' then
      match h : quoted c cs with
      | some (lines, content, rest) =>
        have := length_quoted h
        (ofChars none rest).map (string (String.ofList content) lines :: ·)
      | none => none
    else if isPlain c then
      have := length_splitRun c cs
      (ofChars none (splitRun c cs).2).map (run (splitRun c cs).1 :: ·)
    else none
termination_by cs => cs.length
decreasing_by
  · simp
  · simp
  · simp
  · have := (List.dropWhile_sublist isVisible (l := cs)).length_le; simp; omega
  · simp
  · simp; omega
  · simp; omega

end Token
end Memsift.Toml
