import Memsift.Address
import Memsift.Proofs.IntegerTexts

/-!
# Which texts are addresses, and what is read back

A text of an address has a hexadecimal numeral after `0x`, `0X` or `$`.  Without such a mark the numeral is hexadecimal
if a letter occurs in it and decimal otherwise.  The key facts: a mark never begins a numeral, so exactly these texts
are read, as what they denote (`ofText?_eq_some_iff`); and the text that an address or an integer is shown as denotes it
(`parse_hexadecimal`, `parse_display`).
-/

namespace Memsift

/-- What a text of an address denotes.  The letters are those of ASCII. -/
inductive AddressText : List Char → Nat → Prop
  | marked {x cs n} : x = 'x' ∨ x = 'X' → Text.Unsigned 16 cs n → AddressText ('0' :: x :: cs) n
  | dollar {cs n} : Text.Unsigned 16 cs n → AddressText ('$' :: cs) n
  | letters {cs n} : (∃ c ∈ cs, c.isAlpha = true) → Text.Unsigned 16 cs n → AddressText cs n
  | plain {cs n} : (∀ c ∈ cs, c.isAlpha = false) → Text.Unsigned 10 cs n → AddressText cs n

namespace AddressText

variable {cs : List Char} {n : Nat}

theorem marked_iff {x : Char} (hx : x = 'x' ∨ x = 'X') : AddressText ('0' :: x :: cs) n ↔ Text.Unsigned 16 cs n := by
  constructor
  · rintro (⟨_, h⟩ | _ | ⟨_, h⟩ | ⟨_, h⟩)
    · exact h
    · exact absurd h (Text.not_unsigned_marked (by decide) hx)
    · exact absurd h (Text.not_unsigned_marked (by decide) hx)
  · exact .marked hx

theorem dollar_iff : AddressText ('$' :: cs) n ↔ Text.Unsigned 16 cs n := by
  have hmem : '$' ∈ '$' :: cs := List.mem_cons_self ..
  constructor
  · rintro (_ | h | ⟨_, h⟩ | ⟨_, h⟩)
    · exact h
    · exact absurd hmem (h.not_mem (by decide) (by decide))
    · exact absurd hmem (h.not_mem (by decide) (by decide))
  · exact .dollar

theorem unmarked_iff (hmarked : ∀ x ds, x = 'x' ∨ x = 'X' → cs ≠ '0' :: x :: ds) (hdollar : ∀ ds, cs ≠ '$' :: ds) :
    AddressText cs n ↔ Text.Unsigned (if cs.any Char.isAlpha then 16 else 10) cs n := by
  constructor
  · rintro (⟨hx, _⟩ | _ | ⟨hletter, h⟩ | ⟨hnone, h⟩)
    · exact absurd rfl (hmarked _ _ hx)
    · exact absurd rfl (hdollar _)
    · rw [if_pos (List.any_eq_true.2 hletter)]
      exact h
    · have hany : ¬ cs.any Char.isAlpha = true := by simpa using hnone
      rw [if_neg hany]
      exact h
  · intro h
    by_cases hany : cs.any Char.isAlpha = true
    · rw [if_pos hany] at h
      exact .letters (List.any_eq_true.1 hany) h
    · rw [if_neg hany] at h
      exact .plain (by simpa using hany) h

end AddressText

namespace Address

variable {a : Address} {cs : List Char} {n : Nat}

/-- Reads the number of an address, of whatever size. -/
def number? (cs : List Char) : Option Nat :=
  match cs with
  | '0' :: 'x' :: body => Text.natural? 16 body
  | '0' :: 'X' :: body => Text.natural? 16 body
  | '$' :: body => Text.natural? 16 body
  | _ => Text.natural? (if cs.any Char.isAlpha then 16 else 10) cs

theorem ofText?_eq (cs : List Char) :
    ofText? cs = (number? cs).bind fun n => if n < UInt64.size then some (ofNat n) else none := rfl

theorem number?_eq_some_iff : number? cs = some n ↔ AddressText cs n := by
  unfold number?
  split
  · rw [Text.natural?_eq_some_iff (by decide), AddressText.marked_iff (.inl rfl)]
  · rw [Text.natural?_eq_some_iff (by decide), AddressText.marked_iff (.inr rfl)]
  · rw [Text.natural?_eq_some_iff (by decide), AddressText.dollar_iff]
  · rename_i hlower hupper hdollar
    have hbase : (if cs.any Char.isAlpha then 16 else 10) ≤ 16 := by split <;> decide
    rw [Text.natural?_eq_some_iff hbase, AddressText.unmarked_iff _ hdollar]
    rintro x ds (rfl | rfl)
    · exact hlower ds
    · exact hupper ds

/-- A text is read as the address that it denotes. -/
theorem ofText?_eq_some_iff : ofText? cs = some a ↔ AddressText cs a.toNat := by
  rw [ofText?_eq, Option.bind_eq_some_iff]
  constructor
  · rintro ⟨n, hn, h⟩
    obtain ⟨hlt, heq⟩ := Option.ite_none_right_eq_some.1 h
    rw [← Option.some.inj heq, toNat_ofNat, Nat.mod_eq_of_lt hlt]
    exact number?_eq_some_iff.1 hn
  · intro h
    exact ⟨a.toNat, number?_eq_some_iff.2 h, by rw [if_pos a.toNat_lt, ofNat_toNat]⟩

theorem parse_eq_ok_iff (text : String) : parse text = .ok a ↔ AddressText (Text.trim text.toList) a.toNat := by
  rw [← ofText?_eq_some_iff]
  cases h : ofText? (Text.trim text.toList) <;> simp [parse, h]

/-- A hexadecimal numeral after `0x` has nothing around it that would be taken away. -/
theorem parse_hexadecimal (h : Text.Denotes 16 cs a.toNat) : parse (String.ofList ('0' :: 'x' :: cs)) = .ok a := by
  have hblank : ∀ c ∈ '0' :: 'x' :: cs, Text.isBlank c = false := by
    rintro c (_ | ⟨_, _ | ⟨_, hc⟩⟩)
    · decide
    · decide
    · exact h.isBlank_eq_false (by decide) c hc
  rw [parse_eq_ok_iff, String.toList_ofList, Text.trim_eq_self hblank]
  exact .marked (.inl rfl) (.bare h)

theorem denotes_hexadecimal (width n : Nat) : Text.Denotes 16 (Text.hexadecimal width n) n :=
  (Text.denotes_toDigits (by decide) n).leftpad width

end Address

namespace ScanValue

variable {t : NumberType} {v : Int}

/-- The text that an integer is shown as denotes it for every type that it is in the range of. -/
theorem numeral_signedDecimal (ht : t.isFloat = false) (hlow : t.low ≤ v) : Numeral t 10 (Text.signedDecimal v) v := by
  have hdigits : Text.Denotes 10 (Text.decimal v.natAbs) v.natAbs := Text.denotes_toDigits (by decide) _
  obtain ⟨hv, h⟩ | ⟨hv, h⟩ := Text.signedDecimal_cases v
  · have hnumeral : Numeral t 10 (Text.decimal v.natAbs) v.natAbs := .unsigned (.bare hdigits)
    rwa [Int.natAbs_of_nonneg hv, ← h] at hnumeral
  · cases t with
    | signed width =>
      have hnumeral : Numeral (.signed width) 10 ('-' :: Text.decimal v.natAbs) (-(v.natAbs : Int)) :=
        .minus rfl hdigits
      have hvalue : -(v.natAbs : Int) = v := by omega
      rwa [hvalue, ← h] at hnumeral
    | unsigned width =>
      -- no negative number is in the range
      exact absurd hlow (Int.not_le.2 hv)
    | float p => cases ht

theorem isBlank_of_mem_signedDecimal (v : Int) : ∀ c ∈ Text.signedDecimal v, Text.isBlank c = false := by
  have hdigits : Text.Denotes 10 (Text.decimal v.natAbs) v.natAbs := Text.denotes_toDigits (by decide) _
  obtain ⟨_, h⟩ | ⟨_, h⟩ := Text.signedDecimal_cases v
  · rw [h]
    exact hdigits.isBlank_eq_false (by decide)
  · rw [h]
    exact List.forall_mem_cons.2 ⟨by decide, hdigits.isBlank_eq_false (by decide)⟩

theorem parse_display (ht : t.isFloat = false) (w : Word t) :
    parse (number t w).display (.number t) = .ok (.number t w) := by
  have hdisplay : (number t w).display = String.ofList (Text.signedDecimal (Word.toInt t w)) := by
    cases t with
    | float p => cases ht
    | _ => rfl
  rw [hdisplay, parse_eq_ok_iff, String.toList_ofList, Text.trim_eq_self (isBlank_of_mem_signedDecimal _),
    numberText?_eq_some_iff ht]
  exact .inl (.decimal (numeral_signedDecimal ht (Word.toInt_mem_range ht w).1))

end ScanValue

/-- A text is read as an address if what is left without the blanks at its ends denotes the address, and is refused,
with what is left, if it denotes none of 64 bits.  An address is read back from its texts in either case of letters,
and an integer of any type from the text that it is shown as. -/
theorem Address.parse_iff_and_parse_written :
    (∀ text : String,
      let cs := Text.trim text.toList
      Text.Trimmed text.toList cs ∧
        (∀ a, parse text = .ok a ↔ AddressText cs a.toNat) ∧
        ((¬ ∃ n < 2 ^ 64, AddressText cs n) → parse text = .error (.invalidAddress (String.ofList cs)))) ∧
      (∀ a : Address, parse a.upper = .ok a ∧ parse a.lower = .ok a) ∧
      ∀ (t : NumberType) (w : Word t), t.isFloat = false →
        let value := ScanValue.number t w
        ScanValue.parse value.display value.type = .ok value := by
  refine ⟨fun text => ⟨Text.trimmed_trim _, fun a => parse_eq_ok_iff text, fun hnone => ?_⟩, fun a => ⟨?_, ?_⟩,
    fun t w ht => ScanValue.parse_display ht w⟩
  · cases h : ofText? (Text.trim text.toList) with
    | none => simp only [parse, h]
    | some a => exact absurd ⟨a.toNat, a.toNat_lt, ofText?_eq_some_iff.1 h⟩ hnone
  · exact parse_hexadecimal ((denotes_hexadecimal 16 a.toNat).map_toUpper (by decide))
  · exact parse_hexadecimal (denotes_hexadecimal 16 a.toNat)

/-- The least integer of 64 bits is read back, minus and all. -/
theorem Address.parse_iff_and_parse_written_least :
    (NumberType.signed .eight).isFloat = false ∧
      ScanValue.display (.number (.signed .eight) (BitVec.intMin 64)) = "-9223372036854775808" ∧
      ScanValue.parse "-9223372036854775808" (.number (.signed .eight)) =
        .ok (.number (.signed .eight) (BitVec.intMin 64)) := by
  have hdisplay : ScanValue.display (.number (.signed .eight) (BitVec.intMin 64)) = "-9223372036854775808" := by decide
  refine ⟨rfl, hdisplay, ?_⟩
  rw [← hdisplay]
  exact Address.parse_iff_and_parse_written.2.2 (.signed .eight) (BitVec.intMin 64) rfl

end Memsift
