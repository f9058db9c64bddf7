import Memsift.Json.Reader
import Memsift.Json.Number
import Mathlib.Data.List.TakeWhile

/-!
# Integer literals

What is written for an integer is a number, and it means that integer if 64 bits are enough for it.  The key facts: a
number begins with a zero only if it is zero (`exists_decimal_eq_cons`); and while the value of the digits stays below
2^64 all of them are taken in (`absorb_eq`).
-/

namespace Memsift

variable {n : Nat}

namespace Text

theorem isDigit_of_mem_decimal {c : Char} (h : c ∈ decimal n) : c.isDigit = true :=
  Nat.isDigit_of_mem_toDigits (by decide) (by decide) h

/-- A number begins with a digit, which is no zero unless the number is zero. -/
theorem exists_decimal_eq_cons (n : Nat) : ∃ c cs, decimal n = c :: cs ∧ c.isDigit = true ∧ (c = '0' → n = 0) := by
  induction n using Nat.strongRecOn with
  | ind n ih =>
    by_cases hsmall : n < 10
    · refine ⟨n.digitChar, [], Nat.toDigits_of_lt_base hsmall, ?_, Nat.digitChar_eq_zero.1⟩
      rw [Nat.isDigit_digitChar, decide_eq_true hsmall]
    · obtain ⟨c, cs, hcons, hdigit, hzero⟩ := ih (n / 10) (by omega)
      have hdecimal : decimal n = decimal (n / 10) ++ [(n % 10).digitChar] :=
        Nat.toDigits_of_base_le (by decide) (by omega)
      refine ⟨c, cs ++ [(n % 10).digitChar], by rw [hdecimal, hcons, List.cons_append], hdigit, ?_⟩
      intro hc
      have := hzero hc
      omega

theorem takeWhile_decimal (n : Nat) : (decimal n).takeWhile Char.isDigit = decimal n :=
  List.takeWhile_eq_self_iff.2 fun _ => isDigit_of_mem_decimal

theorem dropWhile_decimal (n : Nat) : (decimal n).dropWhile Char.isDigit = [] :=
  List.dropWhile_eq_nil_iff.2 fun _ => isDigit_of_mem_decimal

/-- What is written for an integer is its absolute value, after a minus if it is negative. -/
theorem signedDecimal_cases (i : Int) :
    (0 ≤ i ∧ signedDecimal i = decimal i.natAbs) ∨ (i < 0 ∧ signedDecimal i = '-' :: decimal i.natAbs) := by
  unfold signedDecimal
  split
  · rename_i h
    exact .inr ⟨h, rfl⟩
  · rename_i h
    exact .inl ⟨by omega, rfl⟩

theorem signedDecimal_natCast (n : Nat) : signedDecimal (n : Int) = decimal n := by
  rw [signedDecimal, if_neg (by omega), Int.natAbs_natCast]

end Text

namespace Json

open Text

theorem wholePart?_decimal (n : Nat) : wholePart? (decimal n) = some [] := by
  obtain ⟨c, cs, hcons, hdigit, hzero⟩ := exists_decimal_eq_cons n
  have hdrop := dropWhile_decimal n
  by_cases h : c = '0'
  · rw [hzero h]
    rfl
  · rw [hcons, List.dropWhile_cons_of_pos hdigit] at hdrop
    rw [hcons, wholePart?, if_pos hdigit, hdrop]
    rintro rfl
    exact h rfl

theorem isNumber_decimal (n : Nat) : isNumber (decimal n) = true := by
  have hparts := wholePart?_decimal n
  obtain ⟨c, cs, hcons, hdigit, _⟩ := exists_decimal_eq_cons n
  rw [hcons] at hparts ⊢
  unfold isNumber
  split
  · rename_i hminus
    obtain ⟨rfl, _⟩ := List.cons.inj hminus
    exact absurd hdigit (by decide)
  · simp only [hparts]
    rfl

theorem isNumber_signedDecimal (i : Int) : isNumber (signedDecimal i) = true := by
  obtain ⟨_, h⟩ | ⟨_, h⟩ := signedDecimal_cases i
  · rw [h, isNumber_decimal]
  · have hbody : isNumber ('-' :: decimal i.natAbs) =
        (((wholePart? (decimal i.natAbs)).bind fractionPart?).bind exponentPart? == some []) := rfl
    rw [h, hbody, wholePart?_decimal]
    rfl

theorem le_ofDigitChars (cs : List Char) (n : Nat) : n ≤ Nat.ofDigitChars 10 cs n := by
  induction cs generalizing n with
  | nil => rw [Nat.ofDigitChars_nil]
  | cons c cs ih =>
    have := ih (10 * n + (c.toNat - '0'.toNat))
    rw [Nat.ofDigitChars_cons]
    omega

/-- Digits whose value stays below 2^64 are all taken in. -/
theorem absorb_eq {cs : List Char} (h : Nat.ofDigitChars 10 cs n < UInt64.size) :
    absorb n cs = (Nat.ofDigitChars 10 cs n, []) := by
  induction cs generalizing n with
  | nil => rw [absorb, Nat.ofDigitChars_nil]
  | cons c cs ih =>
    rw [Nat.ofDigitChars_cons] at h ⊢
    rw [absorb, Nat.mul_comm n 10]
    have hnext := Nat.lt_of_le_of_lt (le_ofDigitChars cs _) h
    simp only [if_pos hnext]
    exact ih h

theorem absorb_decimal (h : n < UInt64.size) : absorb 0 (decimal n) = (n, []) := by
  have hvalue : Nat.ofDigitChars 10 (decimal n) 0 = n := Nat.ofDigitChars_ten_toDigits
  rw [absorb_eq (by rwa [hvalue]), hvalue]

theorem splitSign_decimal (n : Nat) : Decimal.splitSign (decimal n) = (false, decimal n) := by
  obtain ⟨c, cs, hcons, hdigit, _⟩ := exists_decimal_eq_cons n
  rw [hcons]
  unfold Decimal.splitSign
  split
  · rename_i hminus
    obtain ⟨rfl, _⟩ := List.cons.inj hminus
    exact absurd hdigit (by decide)
  · rename_i hplus
    obtain ⟨rfl, _⟩ := List.cons.inj hplus
    exact absurd hdigit (by decide)
  · rfl

/-- The literal of an integer means that integer, if 64 bits with or without a sign are enough for it. -/
theorem Number.ofLiteral?_signedDecimal {i : Int} (hlow : -0x8000000000000000 ≤ i) (hhigh : i < UInt64.size) :
    Number.ofLiteral? (String.ofList (signedDecimal i)) = some (.integer i) := by
  have hsize : i.natAbs < UInt64.size := by
    have : UInt64.size = 0x10000000000000000 := rfl
    omega
  have habsorb := absorb_decimal hsize
  rw [Number.ofLiteral?, String.toList_ofList]
  obtain ⟨hi, h⟩ | ⟨hi, h⟩ := signedDecimal_cases i
  · have hvalue : Int.ofNat i.natAbs = i := Int.natAbs_of_nonneg hi
    simp only [h, splitSign_decimal, takeWhile_decimal, dropWhile_decimal, habsorb]
    exact congrArg (fun i => some (integer i)) hvalue
  · have hsplit : Decimal.splitSign ('-' :: decimal i.natAbs) = (true, decimal i.natAbs) := rfl
    have hvalue : -Int.ofNat i.natAbs = i := by
      have : Int.ofNat i.natAbs = (i.natAbs : Int) := rfl
      omega
    have hfits : (([] : List Char).isEmpty && ([] : List Char).isEmpty && decide (0 < i.natAbs) &&
        decide (i.natAbs ≤ 0x8000000000000000)) = true := by
      rw [decide_eq_true (by omega), decide_eq_true (by omega)]
      rfl
    simp only [h, hsplit, takeWhile_decimal, dropWhile_decimal, habsorb]
    rw [if_neg (by decide), if_pos hfits]
    exact congrArg (fun i => some (integer i)) hvalue

end Json
end Memsift
