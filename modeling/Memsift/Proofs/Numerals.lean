import Memsift.Text.Numeral
import Mathlib.Data.List.Induction
import Mathlib.Tactic.SplitIfs

/-!
# Numerals denote numbers

Which lists of characters are numerals of a base up to sixteen, and what they denote.  The key facts: a character has
the value of the digit that it is, if it is one (`digitValue?_eq_some_iff`); and a numeral takes in its digits one by
one from the left, each multiplying by the base what stands before it (`digits?_concat`), so exactly the numerals are
read, as what they denote (`digits?_eq_some_iff`, `natural?_eq_some_iff`, `integer?_eq_some_iff`).  The digits that a
number is written with denote it (`denotes_toDigits`), also with zeros in front and in upper case.
-/

namespace Memsift.Text

/-- The character is the digit `d` of the base; digits from ten on are letters, of either case. -/
def DigitOf (base : Nat) (c : Char) (d : Nat) : Prop :=
  d < base ∧ (c = d.digitChar ∨ c = d.digitChar.toUpper)

instance (base : Nat) (c : Char) (d : Nat) : Decidable (DigitOf base c d) := inferInstanceAs (Decidable (_ ∧ _))

/-- One digit or more denote a number. -/
inductive Denotes (base : Nat) : List Char → Nat → Prop
  | digit {c d} : DigitOf base c d → Denotes base [c] d
  | concat {cs c n d} : Denotes base cs n → DigitOf base c d → Denotes base (cs ++ [c]) (n * base + d)

/-- One digit or more, which may follow a plus, denote a number. -/
inductive Unsigned (base : Nat) : List Char → Nat → Prop
  | bare {cs n} : Denotes base cs n → Unsigned base cs n
  | plus {cs n} : Denotes base cs n → Unsigned base ('+' :: cs) n

/-- One digit or more, which may follow a plus or a minus, denote an integer. -/
inductive Signed (base : Nat) : List Char → Int → Prop
  | unsigned {cs n} : Unsigned base cs n → Signed base cs n
  | minus {cs n} : Denotes base cs n → Signed base ('-' :: cs) (-(n : Int))

variable {base n d : Nat} {i : Int} {c : Char} {cs : List Char}

/-! ### Digits -/

/-- Whether a digit counts depends on the base, but its value does not. -/
theorem digitValue?_eq_some_iff_sixteen (hbase : base ≤ 16) :
    digitValue? base c = some d ↔ d < base ∧ digitValue? 16 c = some d := by
  simp only [digitValue?, Option.ite_none_right_eq_some, Option.some.injEq]
  split_ifs <;> omega

theorem toNat_lt_of_digitValue? (h : digitValue? 16 c = some d) : c.toNat < 128 := by
  have hkind : c.isDigit = true ∨ c.isLower = true ∨ c.isUpper = true := by
    by_contra hnone
    obtain ⟨hdigit, hlower, hupper⟩ := by simpa only [not_or] using hnone
    rw [digitValue?, if_neg hdigit, if_neg hlower, if_neg hupper] at h
    cases h
  rcases hkind with h | h | h
  · exact Nat.lt_of_le_of_lt (Char.isDigit_iff_toNat.1 h).2 (by decide)
  · have hle : c.val ≤ 'z'.val := of_decide_eq_true (Bool.and_eq_true_iff.1 h).2
    exact Nat.lt_of_le_of_lt hle (by decide)
  · have hle : c.val ≤ 'Z'.val := (of_decide_eq_true h).2
    exact Nat.lt_of_le_of_lt hle (by decide)

theorem digitValue?_sixteen_eq_some_iff : digitValue? 16 c = some d ↔ DigitOf 16 c d := by
  constructor
  · intro h
    have hd : d < 16 := ((digitValue?_eq_some_iff_sixteen (Nat.le_refl 16)).1 h).1
    have hcodes : ∀ k < 128, ∀ d < 16, digitValue? 16 (Char.ofNat k) = some d → DigitOf 16 (Char.ofNat k) d := by
      decide +kernel
    have hcode := hcodes c.toNat (toNat_lt_of_digitValue? h) d hd
    rw [Char.ofNat_toNat] at hcode
    exact hcode h
  · rintro ⟨hd, h⟩
    have hvalues : ∀ d < 16, digitValue? 16 d.digitChar = some d ∧ digitValue? 16 d.digitChar.toUpper = some d := by
      decide
    rcases h with rfl | rfl
    · exact (hvalues d hd).1
    · exact (hvalues d hd).2

/-- A character has the value of the digit that it is. -/
theorem digitValue?_eq_some_iff (hbase : base ≤ 16) : digitValue? base c = some d ↔ DigitOf base c d := by
  rw [digitValue?_eq_some_iff_sixteen hbase, digitValue?_sixteen_eq_some_iff]
  constructor
  · rintro ⟨hd, _, hc⟩
    exact ⟨hd, hc⟩
  · rintro ⟨hd, hc⟩
    exact ⟨hd, by omega, hc⟩

/-! ### Lists of digits -/

theorem Denotes.ne_nil (h : Denotes base cs n) : cs ≠ [] := by
  cases h <;> simp

theorem Denotes.exists_digit (h : Denotes base cs n) (hc : c ∈ cs) : ∃ d, DigitOf base c d := by
  induction h with
  | digit hd => exact ⟨_, List.mem_singleton.1 hc ▸ hd⟩
  | concat _ hd ih =>
    rcases List.mem_append.1 hc with hc | hc
    · exact ih hc
    · exact ⟨_, List.mem_singleton.1 hc ▸ hd⟩

theorem digits?_singleton (base : Nat) (c : Char) : digits? base [c] = digitValue? base c := by
  cases h : digitValue? base c <;> simp [digits?, ofDigits, h]

/-- A further digit multiplies by the base what stands before it. -/
theorem digits?_concat (base : Nat) (hcs : cs ≠ []) (c : Char) :
    digits? base (cs ++ [c]) =
      (digits? base cs).bind fun n => (digitValue? base c).map fun d => n * base + d := by
  have hempty : cs.isEmpty = false := List.isEmpty_eq_false_iff.2 hcs
  cases h : cs.mapM (digitValue? base) <;> cases hd : digitValue? base c <;>
    simp [digits?, ofDigits, hempty, List.mapM_append, h, hd]

/-- Exactly the numerals are read, as what they denote. -/
theorem digits?_eq_some_iff (hbase : base ≤ 16) : digits? base cs = some n ↔ Denotes base cs n := by
  constructor
  · intro h
    induction cs using List.reverseRecOn generalizing n with
    | nil => cases h
    | append_singleton cs c ih =>
      by_cases hcs : cs = []
      · subst hcs
        rw [List.nil_append, digits?_singleton, digitValue?_eq_some_iff hbase] at h
        exact .digit h
      · rw [digits?_concat base hcs] at h
        obtain ⟨m, hm, h⟩ := Option.bind_eq_some_iff.1 h
        obtain ⟨d, hd, rfl⟩ := Option.map_eq_some_iff.1 h
        exact .concat (ih hm) ((digitValue?_eq_some_iff hbase).1 hd)
  · intro h
    induction h with
    | digit hd => rw [digits?_singleton, digitValue?_eq_some_iff hbase]; exact hd
    | concat h hd ih => rw [digits?_concat base h.ne_nil, ih, (digitValue?_eq_some_iff hbase).2 hd]; rfl

/-! ### Signs -/

/-- The marks that may stand before digits are no digits themselves. -/
theorem Denotes.not_mem (hbase : base ≤ 16) (h : Denotes base cs n) (hc : c ∈ ['+', '-', 'x', 'X', '$']) : c ∉ cs := by
  intro hmem
  obtain ⟨d, hd, hdigit⟩ := h.exists_digit hmem
  have hmarks : ∀ d < 16, d.digitChar ∉ ['+', '-', 'x', 'X', '$'] ∧
      d.digitChar.toUpper ∉ ['+', '-', 'x', 'X', '$'] := by
    decide
  obtain ⟨hlower, hupper⟩ := hmarks d (by omega)
  rcases hdigit with rfl | rfl
  · exact hlower hc
  · exact hupper hc

theorem Unsigned.not_mem (hbase : base ≤ 16) (h : Unsigned base cs n) (hc : c ∈ ['x', 'X', '$']) : c ∉ cs := by
  have hmark : c ∈ ['+', '-', 'x', 'X', '$'] := List.mem_cons_of_mem _ (List.mem_cons_of_mem _ hc)
  cases h with
  | bare h => exact h.not_mem hbase hmark
  | plus h =>
    have hplus : c ≠ '+' := by
      rintro rfl
      exact absurd hc (by decide)
    rw [List.mem_cons, not_or]
    exact ⟨hplus, h.not_mem hbase hmark⟩

/-- No numeral begins as a hexadecimal text does. -/
theorem not_unsigned_marked (hbase : base ≤ 16) (hc : c = 'x' ∨ c = 'X') : ¬ Unsigned base ('0' :: c :: cs) n := by
  intro h
  have hmark : c ∈ ['x', 'X', '$'] := by
    rcases hc with rfl | rfl <;> decide
  exact h.not_mem hbase hmark (List.mem_cons_of_mem _ (List.mem_cons_self ..))

theorem natural?_eq_some_iff (hbase : base ≤ 16) : natural? base cs = some n ↔ Unsigned base cs n := by
  constructor
  · intro h
    unfold natural? at h
    split at h
    · exact .plus ((digits?_eq_some_iff hbase).1 h)
    · exact .bare ((digits?_eq_some_iff hbase).1 h)
  · rintro (h | h)
    · unfold natural?
      split
      · exact absurd (List.mem_cons_self ..) (h.not_mem hbase (by decide))
      · exact (digits?_eq_some_iff hbase).2 h
    · exact (digits?_eq_some_iff hbase).2 h

theorem integer?_eq_some_iff (hbase : base ≤ 16) : integer? base cs = some i ↔ Signed base cs i := by
  constructor
  · intro h
    unfold integer? at h
    split at h
    · obtain ⟨_, hcast, rfl⟩ := Option.map_eq_some_iff.1 h
      obtain ⟨n, hn, ⟨⟩⟩ := Option.bind_eq_some_iff.1 hcast
      exact .minus ((digits?_eq_some_iff hbase).1 hn)
    · obtain ⟨_, hcast, rfl⟩ := Option.map_eq_some_iff.1 h
      obtain ⟨n, hn, ⟨⟩⟩ := Option.bind_eq_some_iff.1 hcast
      exact .unsigned ((natural?_eq_some_iff hbase).1 hn)
  · rintro (h | h)
    · unfold integer?
      split
      · cases h with
        | bare h => exact absurd (List.mem_cons_self ..) (h.not_mem hbase (by decide))
      · rw [(natural?_eq_some_iff hbase).2 h]
        rfl
    · rw [integer?, (digits?_eq_some_iff hbase).2 h]
      rfl

/-! ### Written numerals -/

theorem denotes_toDigits (hbase : 1 < base) (n : Nat) : Denotes base (Nat.toDigits base n) n := by
  induction n using Nat.strongRecOn with
  | ind n ih =>
    by_cases hsmall : n < base
    · rw [Nat.toDigits_of_lt_base hsmall]
      exact .digit ⟨hsmall, .inl rfl⟩
    · have hrest := ih (n / base) (Nat.div_lt_self (by omega) hbase)
      have hlast : DigitOf base (n % base).digitChar (n % base) := ⟨Nat.mod_lt _ (by omega), .inl rfl⟩
      have hall := hrest.concat hlast
      rwa [Nat.div_add_mod', ← Nat.toDigits_of_base_le hbase (by omega)] at hall

/-- Leading zeros do not count. -/
theorem Denotes.zero_cons (h : Denotes base cs n) : Denotes base ('0' :: cs) n := by
  induction h with
  | digit hd =>
    have hzero : Denotes base ['0'] 0 := .digit ⟨Nat.zero_lt_of_lt hd.1, .inl rfl⟩
    have hboth := hzero.concat hd
    rwa [Nat.zero_mul, Nat.zero_add] at hboth
  | concat _ hd ih => exact ih.concat hd

theorem Denotes.leftpad (h : Denotes base cs n) (width : Nat) : Denotes base (cs.leftpad width '0') n := by
  have hzeros : ∀ k, Denotes base (List.replicate k '0' ++ cs) n := by
    intro k
    induction k with
    | zero => exact h
    | succ k ih => exact ih.zero_cons
  exact hzeros _

/-- The case of letters does not count. -/
theorem Denotes.map_toUpper (hbase : base ≤ 16) (h : Denotes base cs n) : Denotes base (cs.map Char.toUpper) n := by
  have hupper : ∀ {c d}, DigitOf base c d → DigitOf base c.toUpper d := by
    intro c d hd
    have htwice : ∀ d < 16, d.digitChar.toUpper.toUpper = d.digitChar.toUpper := by decide
    refine ⟨hd.1, .inr ?_⟩
    rcases hd.2 with rfl | rfl
    · rfl
    · exact htwice d (Nat.lt_of_lt_of_le hd.1 hbase)
  induction h with
  | digit hd => exact .digit (hupper hd)
  | concat _ hd ih =>
    rw [List.map_append]
    exact ih.concat (hupper hd)

end Memsift.Text
