/-!
# Blank characters

The characters with the Unicode property White_Space, and the removal of blanks at both ends of a text.  The key
fact: what is left over neither begins nor ends with a blank (`head_trim`, `getLast_trim`).
-/

namespace Memsift.Text

/-- The characters with the Unicode property White_Space. -/
def blanks : List Char :=
  ['\t', '\n', '\x0b', '\x0c', '\r', ' ', '\u0085', '\u00a0', '\u1680', '\u2000', '\u2001', '\u2002', '\u2003',
    '\u2004', '\u2005', '\u2006', '\u2007', '\u2008', '\u2009', '\u200a', '\u2028', '\u2029', '\u202f', '\u205f',
    '\u3000']

def isBlank (c : Char) : Bool := blanks.contains c

/-- A text without the blanks at its end. -/
def trimRight : List Char → List Char
  | [] => []
  | c :: cs =>
    match trimRight cs with
    | [] => if isBlank c then [] else [c]
    | rest => c :: rest

/-- A text without the blanks at its two ends. -/
def trim (cs : List Char) : List Char := trimRight (cs.dropWhile isBlank)

/-- ASCII letters in lower case, all else unchanged. -/
def lowercase (cs : List Char) : List Char := cs.map Char.toLower

theorem getLast_trimRight {cs : List Char} {c : Char} (h : (trimRight cs).getLast? = some c) :
    isBlank c = false := by
  induction cs with
  | nil => simp [trimRight] at h
  | cons a cs ih =>
    unfold trimRight at h
    split at h
    · split at h <;> simp_all
    · rename_i rest hne
      cases hr : trimRight cs with
      | nil => exact absurd hr hne
      | cons b bs => exact ih (by simpa [hr, List.getLast?_cons_cons] using h)

theorem head_trimRight {c : Char} (cs : List Char) (h : isBlank c = false) :
    (trimRight (c :: cs)).head? = some c := by
  simp only [trimRight]
  split <;> simp_all

theorem head_trim {cs : List Char} {c : Char} (h : (trim cs).head? = some c) : isBlank c = false := by
  unfold trim at h
  cases hd : cs.dropWhile isBlank with
  | nil => simp [hd, trimRight] at h
  | cons a as =>
    have ha : isBlank a = false := by
      have := List.head?_dropWhile_not isBlank cs
      simpa [hd] using this
    rw [hd, head_trimRight as ha] at h
    simp_all

theorem getLast_trim {cs : List Char} {c : Char} (h : (trim cs).getLast? = some c) : isBlank c = false :=
  getLast_trimRight h

end Memsift.Text
