import Memsift.Proofs.Numerals
import Memsift.Proofs.ModularComparisons

/-!
# Which texts are integers

What users may write for a value of an integer type.  A numeral in base ten may have a plus, and for signed types a
minus; a numeral in base sixteen stands after `0x` and is not meant to be negative.  For signed types it may be, if the
minus comes after the `0x`.  The key facts: what is left of a text lies between blanks (`trimmed_trim`); after `0x` the
same numerals are read as elsewhere (`integerText_marked_iff`); and an integer of the range of the type has one word
(`wordOfInt?_eq_some_iff`), so a text is read as the integer that it denotes (`numberText?_eq_some_iff`).
-/

namespace Memsift

namespace Text

/-- The rest of some characters without the blanks around it, which has none at its own ends. -/
structure Trimmed (cs rest : List Char) : Prop where
  parts : ∃ before after, cs = before ++ rest ++ after ∧ (∀ c ∈ before, isBlank c) ∧ ∀ c ∈ after, isBlank c
  head : ∀ c ∈ rest.head?, isBlank c = false
  last : ∀ c ∈ rest.getLast?, isBlank c = false

theorem exists_trimRight_append (cs : List Char) : ∃ after, cs = trimRight cs ++ after ∧ ∀ c ∈ after, isBlank c := by
  induction cs with
  | nil => exact ⟨[], rfl, List.forall_mem_nil _⟩
  | cons c cs ih =>
    obtain ⟨after, hcs, hafter⟩ := ih
    unfold trimRight
    split
    · rename_i hnil
      rw [hnil, List.nil_append] at hcs
      split
      · rename_i hc
        exact ⟨c :: after, by rw [hcs, List.nil_append], List.forall_mem_cons.2 ⟨hc, hafter⟩⟩
      · exact ⟨after, by rw [hcs, List.singleton_append], hafter⟩
    · exact ⟨after, by rw [List.cons_append, ← hcs], hafter⟩

theorem trimmed_trim (cs : List Char) : Trimmed cs (trim cs) := by
  refine ⟨?_, fun c hc => head_trim hc, fun c hc => getLast_trim hc⟩
  obtain ⟨after, hrest, hafter⟩ := exists_trimRight_append (cs.dropWhile isBlank)
  refine ⟨cs.takeWhile isBlank, after, ?_, fun c hc => List.mem_takeWhile_imp hc, hafter⟩
  rw [trim, List.append_assoc, ← hrest, List.takeWhile_append_dropWhile]

theorem trim_eq_self {cs : List Char} (h : ∀ c ∈ cs, isBlank c = false) : trim cs = cs := by
  have hhead : cs.dropWhile isBlank = cs := by
    cases cs with
    | nil => rfl
    | cons c cs => exact List.dropWhile_cons_of_neg (by simp [h c (List.mem_cons_self ..)])
  obtain ⟨after, hcs, hafter⟩ := exists_trimRight_append cs
  have hnone : after = [] := by
    apply List.eq_nil_iff_forall_not_mem.2
    intro c hc
    have hmem : c ∈ cs := hcs ▸ List.mem_append_right _ hc
    exact absurd (hafter c hc) (by simp [h c hmem])
  rw [trim, hhead]
  rw [hnone, List.append_nil] at hcs
  exact hcs.symm

/-- No digit is a blank. -/
theorem Denotes.isBlank_eq_false {base n : Nat} {cs : List Char} (hbase : base ≤ 16) (h : Denotes base cs n) :
    ∀ c ∈ cs, isBlank c = false := by
  intro c hc
  obtain ⟨d, hd, hdigit⟩ := h.exists_digit hc
  have hdigits : ∀ d < 16, isBlank d.digitChar = false ∧ isBlank d.digitChar.toUpper = false := by decide
  obtain ⟨hlower, hupper⟩ := hdigits d (by omega)
  rcases hdigit with rfl | rfl
  · exact hlower
  · exact hupper

end Text

/-- A numeral of a base as an integer type takes it: only signed types take a minus. -/
inductive Numeral (t : NumberType) (base : Nat) : List Char → Int → Prop
  | unsigned {cs n} : Text.Unsigned base cs n → Numeral t base cs n
  | minus {w cs n} : t = .signed w → Text.Denotes base cs n → Numeral t base ('-' :: cs) (-(n : Int))

/-- What a text for an integer type is documented to denote. -/
inductive IntegerText (t : NumberType) : List Char → Int → Prop
  | decimal {cs v} : Numeral t 10 cs v → IntegerText t cs v
  | hexadecimal {x cs n} : x = 'x' ∨ x = 'X' → Text.Unsigned 16 cs n → IntegerText t ('0' :: x :: cs) n

/-- A minus after the `0x`, which the documentation does not provide for. -/
inductive NegativeHexadecimal (t : NumberType) : List Char → Int → Prop
  | minus {w x cs n} : t = .signed w → x = 'x' ∨ x = 'X' → Text.Denotes 16 cs n →
      NegativeHexadecimal t ('0' :: x :: '-' :: cs) (-(n : Int))

namespace ScanValue

variable {t : NumberType} {base : Nat} {cs : List Char} {v : Int}

/-- Reads a numeral of a base as an integer type takes it. -/
def numeral? (t : NumberType) (base : Nat) (cs : List Char) : Option Int :=
  match t with
  | .signed _ => Text.integer? base cs
  | _ => (Text.natural? base cs).map Int.ofNat

theorem integerText?_eq (t : NumberType) (cs : List Char) :
    integerText? t cs =
      (match cs with
        | '0' :: 'x' :: body => numeral? t 16 body
        | '0' :: 'X' :: body => numeral? t 16 body
        | _ => numeral? t 10 cs).bind (wordOfInt? t) := by
  cases t <;> rfl

theorem numeral?_eq_some_iff (ht : t.isFloat = false) (hbase : base ≤ 16) :
    numeral? t base cs = some v ↔ Numeral t base cs v := by
  cases t with
  | signed w =>
    rw [numeral?, Text.integer?_eq_some_iff hbase]
    constructor
    · rintro (h | h)
      · exact .unsigned h
      · exact .minus rfl h
    · rintro (h | ⟨_, h⟩)
      · exact .unsigned h
      · exact .minus h
  | unsigned w =>
    constructor
    · intro h
      obtain ⟨n, hn, rfl⟩ := Option.map_eq_some_iff.1 h
      exact .unsigned ((Text.natural?_eq_some_iff hbase).1 hn)
    · rintro (h | ⟨hsigned, h⟩)
      · exact Option.map_eq_some_iff.2 ⟨_, (Text.natural?_eq_some_iff hbase).2 h, rfl⟩
      · cases hsigned
  | float p => cases ht

/-- An integer of the range of the type has exactly one word, which stands for it. -/
theorem wordOfInt?_eq_some_iff (ht : t.isFloat = false) {w : Word t} :
    wordOfInt? t v = some w ↔ t.low ≤ v ∧ v ≤ t.high ∧ Word.toInt t w = v := by
  constructor
  · intro h
    obtain ⟨⟨hlow, hhigh⟩, hw⟩ := Option.ite_none_right_eq_some.1 h
    have hself : t.Represents v v := ⟨hlow, hhigh, rfl⟩
    rw [← Option.some.inj hw, Word.toInt_ofInt t v ht]
    exact ⟨hlow, hhigh, (Word.represents_wrap ht v).unique ht hself⟩
  · rintro ⟨-, -, rfl⟩
    exact wordOfInt?_toInt ht w

/-- No numeral in base ten begins as a hexadecimal text does. -/
theorem not_numeral_marked {x : Char} (hx : x = 'x' ∨ x = 'X') : ¬ Numeral t 10 ('0' :: x :: cs) v := by
  rintro ⟨h⟩
  exact Text.not_unsigned_marked (by decide) hx h

/-- After `0x` the same numerals are read for a type as elsewhere, those with a minus included. -/
theorem integerText_marked_iff {x : Char} (hx : x = 'x' ∨ x = 'X') :
    IntegerText t ('0' :: x :: cs) v ∨ NegativeHexadecimal t ('0' :: x :: cs) v ↔ Numeral t 16 cs v := by
  constructor
  · rintro ((h | ⟨_, h⟩) | ⟨ht, _, h⟩)
    · exact absurd h (not_numeral_marked hx)
    · exact .unsigned h
    · exact .minus ht h
  · rintro (h | ⟨ht, h⟩)
    · exact .inl (.hexadecimal hx h)
    · exact .inr (.minus ht hx h)

theorem integerText_unmarked_iff (hcs : ∀ x ds, x = 'x' ∨ x = 'X' → cs ≠ '0' :: x :: ds) :
    IntegerText t cs v ∨ NegativeHexadecimal t cs v ↔ Numeral t 10 cs v := by
  constructor
  · rintro ((h | ⟨hx, _⟩) | ⟨_, hx, _⟩)
    · exact h
    · exact absurd rfl (hcs _ _ hx)
    · exact absurd rfl (hcs _ _ hx)
  · intro h
    exact .inl (.decimal h)

/-- Nothing is documented for a text with a minus after the `0x`. -/
theorem not_integerText_of_negativeHexadecimal {u : Int} (h : NegativeHexadecimal t cs v) : ¬ IntegerText t cs u := by
  obtain ⟨-, hx, -⟩ := h
  rintro (h | ⟨-, ⟨h⟩⟩)
  · exact not_numeral_marked hx h
  · exact absurd (List.mem_cons_self ..) (h.not_mem (by decide) (by decide))

/-- The `0x` decides which numerals are read, and the range of the type which of them are taken. -/
theorem integerText?_eq_some_iff (ht : t.isFloat = false) {w : Word t} :
    integerText? t cs = some w ↔
      ∃ v, (IntegerText t cs v ∨ NegativeHexadecimal t cs v) ∧ wordOfInt? t v = some w := by
  rw [integerText?_eq, Option.bind_eq_some_iff]
  refine exists_congr fun v => and_congr_left fun _ => ?_
  split
  · rw [numeral?_eq_some_iff ht (by decide), integerText_marked_iff (.inl rfl)]
  · rw [numeral?_eq_some_iff ht (by decide), integerText_marked_iff (.inr rfl)]
  · rename_i hlower hupper
    rw [numeral?_eq_some_iff ht (by decide), integerText_unmarked_iff]
    rintro x ds (rfl | rfl)
    · exact hlower ds
    · exact hupper ds

/-- A text is read as a word if and only if it denotes the integer that the word stands for. -/
theorem numberText?_eq_some_iff (ht : t.isFloat = false) {w : Word t} :
    numberText? t cs = some w ↔
      IntegerText t cs (Word.toInt t w) ∨ NegativeHexadecimal t cs (Word.toInt t w) := by
  have hinteger : numberText? t cs = integerText? t cs := by
    cases t with
    | float p => cases ht
    | _ => rfl
  rw [hinteger, integerText?_eq_some_iff ht]
  constructor
  · rintro ⟨v, h, hw⟩
    rw [((wordOfInt?_eq_some_iff ht).1 hw).2.2]
    exact h
  · intro h
    exact ⟨_, h, wordOfInt?_toInt ht w⟩

theorem parse_eq_ok_iff (text : String) {w : Word t} :
    parse text (.number t) = .ok (.number t w) ↔ numberText? t (Text.trim text.toList) = some w := by
  cases h : numberText? t (Text.trim text.toList) <;> simp [parse, h]

/-- What is read from a text for an integer type: without the blanks at its ends, it is read as an integer if it
denotes that integer as documented or has a minus after the `0x`, and the integer lies in the range of the type.  All
other texts are refused. -/
theorem parse_integer (ht : t.isFloat = false) (text : String) :
    let cs := Text.trim text.toList
    Text.Trimmed text.toList cs ∧
      (∀ v, (∃ w, parse text (.number t) = .ok (.number t w) ∧ Word.toInt t w = v) ↔
        (IntegerText t cs v ∨ NegativeHexadecimal t cs v) ∧ t.low ≤ v ∧ v ≤ t.high) ∧
      ((¬ ∃ v, (IntegerText t cs v ∨ NegativeHexadecimal t cs v) ∧ t.low ≤ v ∧ v ≤ t.high) →
        parse text (.number t) =
          .error (.invalidValue ("'" ++ String.ofList cs ++ "' is not a valid " ++ t.name))) := by
  intro cs
  refine ⟨Text.trimmed_trim _, fun v => ⟨?_, ?_⟩, fun hnone => ?_⟩
  · rintro ⟨w, hparse, rfl⟩
    exact ⟨(numberText?_eq_some_iff ht).1 ((parse_eq_ok_iff text).1 hparse), Word.toInt_mem_range ht w⟩
  · rintro ⟨hdenotes, hlow, hhigh⟩
    obtain ⟨w, hw⟩ : ∃ w, wordOfInt? t v = some w := ⟨_, if_pos ⟨hlow, hhigh⟩⟩
    obtain ⟨-, -, rfl⟩ := (wordOfInt?_eq_some_iff ht).1 hw
    exact ⟨w, (parse_eq_ok_iff text).2 ((numberText?_eq_some_iff ht).2 hdenotes), rfl⟩
  · cases h : numberText? t cs with
    | none => simp [parse, h, cs]
    | some w => exact absurd ⟨_, (numberText?_eq_some_iff ht).1 h, Word.toInt_mem_range ht w⟩ hnone

/-- Blanks around, leading zeros and a minus are taken. -/
theorem parse_integer_padded :
    (NumberType.signed .two).isFloat = false ∧
      ∃ w, parse "\t-0012 " (.number (.signed .two)) = .ok (.number (.signed .two) w) ∧ Word.toInt _ w = -12 := by
  have htrim : Text.trim "\t-0012 ".toList = ['-', '0', '0', '1', '2'] := by decide
  have hzero : Text.Denotes 10 ['0', '0'] 0 := .concat (d := 0) (.digit (d := 0) (by decide)) (by decide)
  have htwelve : Text.Denotes 10 ['0', '0', '1', '2'] 12 :=
    .concat (d := 2) (.concat (d := 1) hzero (by decide)) (by decide)
  have hnumeral : Numeral (.signed .two) 10 ['-', '0', '0', '1', '2'] (-12) := .minus rfl htwelve
  refine ⟨rfl, ((parse_integer rfl "\t-0012 ").2.1 (-12)).2 ⟨.inl (.decimal ?_), by decide, by decide⟩⟩
  rw [htrim]
  exact hnumeral

/-- A minus after the `0x` is taken, although the text is not one that is documented to denote an integer. -/
theorem parse_negativeHexadecimal :
    parse "0x-5" (.number (.signed .two)) = .ok (.number (.signed .two) (BitVec.ofInt _ (-5))) ∧
      ¬ ∃ v, IntegerText (.signed .two) (Text.trim "0x-5".toList) v := by
  have htrim : Text.trim "0x-5".toList = ['0', 'x', '-', '5'] := by decide
  have hnegative : NegativeHexadecimal (.signed .two) ['0', 'x', '-', '5'] (-5) :=
    .minus rfl (.inl rfl) (.digit (d := 5) (by decide))
  refine ⟨by decide, ?_⟩
  rintro ⟨v, h⟩
  rw [htrim] at h
  exact not_integerText_of_negativeHexadecimal hnegative h

end ScanValue
end Memsift
