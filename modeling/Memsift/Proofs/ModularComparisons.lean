import Memsift.Proofs.StoredConstraints
import Memsift.Proofs.Compilation
import Memsift.Proofs.WordBytes
import Mathlib.Data.Int.ModEq
import Mathlib.Algebra.Order.Ring.Int

/-!
# Comparisons of integers are modular

A word of an integer type stands for an integer of the range of the type, and for all integers congruent to it.  The
key facts: each integer has one representative in the range (`represents_wrap`, `Represents.unique`), which is what
its word stands for (`toInt_ofInt`); words are the same if and only if the integers are congruent
(`ofInt_eq_ofInt_iff`), so a scan value of whatever width and sign is compared, added and subtracted modulo the number
of words (`evaluate_ofInt_iff`).
-/

namespace Memsift

namespace NumberType

variable {t : NumberType}

/-- How many words the type has. -/
def modulus (t : NumberType) : Int := 2 ^ (8 * t.size)

/-- The integer of the range of an integer type that is congruent to `i`. -/
def wrap (t : NumberType) (i : Int) : Int :=
  match t with
  | .signed _ => i.bmod (2 ^ (8 * t.size))
  | _ => i % t.modulus

/-- An integer lies in the range of the type and is congruent to `i`. -/
structure Represents (t : NumberType) (r i : Int) : Prop where
  low_le : t.low ≤ r
  le_high : r ≤ t.high
  modEq : r ≡ i [ZMOD t.modulus]

/-- The integer that the first bytes of an element stand for. -/
def decoded (t : NumberType) (order : ByteOrder) (bytes : List UInt8) : Int :=
  t.wrap (order.toNat (bytes.take t.size))

theorem high_sub_low_lt (ht : t.isFloat = false) : t.high - t.low < t.modulus := by
  have hall : ∀ t ∈ all, t.isFloat = false → t.high - t.low < t.modulus := by decide
  exact hall t t.mem_all ht

theorem modulus_eq (t : NumberType) : t.modulus = ((2 ^ (8 * t.size) : Nat) : Int) := by
  rw [modulus, Nat.cast_pow, Nat.cast_ofNat]

theorem Represents.unique (ht : t.isFloat = false) {r r' i : Int} (h : t.Represents r i) (h' : t.Represents r' i) :
    r = r' := by
  have hdvd : t.modulus ∣ r - r' := (h'.modEq.trans h.modEq.symm).dvd
  have hwidth := t.high_sub_low_lt ht
  have := h.low_le
  have := h.le_high
  have := h'.low_le
  have := h'.le_high
  have hzero : r - r' = 0 := Int.eq_zero_of_abs_lt_dvd hdvd (abs_lt.2 ⟨by omega, by omega⟩)
  omega

end NumberType

namespace Word

variable {t u : NumberType}

theorem ofInt_eq_ofInt_iff {i j : Int} :
    BitVec.ofInt (8 * t.size) i = BitVec.ofInt (8 * t.size) j ↔ i ≡ j [ZMOD t.modulus] := by
  rw [← BitVec.toInt_inj, BitVec.toInt_ofInt, BitVec.toInt_ofInt, Int.bmod_eq_bmod_iff_bmod_sub_eq_zero,
    ← Int.dvd_iff_bmod_eq_zero, ← NumberType.modulus_eq, Int.modEq_comm, Int.modEq_iff_dvd]

theorem toInt_ofInt (t : NumberType) (i : Int) (ht : t.isFloat = false) :
    toInt t (BitVec.ofInt _ i) = t.wrap i := by
  cases t with
  | signed width => exact BitVec.toInt_ofInt i
  | unsigned width =>
    have hpos : ((2 ^ (8 * width.bytes) : Nat) : Int) ≠ 0 := Int.natCast_ne_zero.2 (Nat.two_pow_pos _).ne'
    show ((BitVec.ofInt (8 * width.bytes) i).toNat : Int) = i % (NumberType.unsigned width).modulus
    rw [BitVec.toNat_ofInt, Int.toNat_of_nonneg (Int.emod_nonneg i hpos), NumberType.modulus_eq]
    rfl
  | float p => cases ht

theorem toInt_inj (ht : t.isFloat = false) {a b : Word t} : toInt t a = toInt t b ↔ a = b := by
  constructor
  · intro h
    rw [← ofInt_toInt ht a, h, ofInt_toInt ht]
  · rintro rfl
    rfl

/-- The integer that a word stands for represents every integer that has this word. -/
theorem represents_wrap (ht : t.isFloat = false) (i : Int) : t.Represents (t.wrap i) i := by
  obtain ⟨hlow, hhigh⟩ := toInt_mem_range ht (BitVec.ofInt _ i)
  rw [toInt_ofInt t i ht] at hlow hhigh
  refine ⟨hlow, hhigh, ?_⟩
  rw [← ofInt_eq_ofInt_iff, ← toInt_ofInt t i ht, ofInt_toInt ht]

theorem toInt_read (ht : t.isFloat = false) (order : ByteOrder) (bytes : List UInt8) :
    toInt t (read t order bytes) = t.decoded order bytes := by
  rw [read, ← BitVec.ofInt_natCast, toInt_ofInt _ _ ht, NumberType.decoded]

theorem lt_iff (ht : t.isFloat = false) {a b : Word t} : lt t a b = true ↔ toInt t a < toInt t b := by
  cases t with
  | signed width => exact BitVec.slt_iff_toInt_lt
  | unsigned width => exact BitVec.ult_iff_toNat_lt.trans Int.ofNat_lt.symm
  | float p => cases ht

theorem le_iff (ht : t.isFloat = false) {a b : Word t} : le t a b = true ↔ toInt t a ≤ toInt t b := by
  cases t with
  | signed width => exact BitVec.sle_iff_toInt_le
  | unsigned width => exact BitVec.ule_iff_toNat_le.trans Int.ofNat_le.symm
  | float p => cases ht

theorem close_iff (ht : t.isFloat = false) {a b : Word t} : close t a b = true ↔ a = b := by
  rw [close_eq_beq ht, beq_iff_eq]

/-- A word is the one of an integer if it stands for an integer congruent to it. -/
theorem eq_ofInt_iff (ht : t.isFloat = false) {a : Word t} {i : Int} :
    a = BitVec.ofInt _ i ↔ toInt t a ≡ i [ZMOD t.modulus] := by
  rw [← ofInt_eq_ofInt_iff, ofInt_toInt ht]

theorem eq_add_ofInt_iff (ht : t.isFloat = false) {a b : Word t} {i : Int} :
    a = add t b (BitVec.ofInt _ i) ↔ toInt t a - toInt t b ≡ i [ZMOD t.modulus] := by
  have hadd : add t b (BitVec.ofInt _ i) = BitVec.ofInt _ (toInt t b + i) := by
    rw [BitVec.ofInt_add, ofInt_toInt ht]
    cases t with
    | signed width => rfl
    | unsigned width => rfl
    | float p => cases ht
  have hdifference : toInt t b + i - toInt t a = i - (toInt t a - toInt t b) := by omega
  rw [hadd, eq_ofInt_iff ht, Int.modEq_iff_dvd, Int.modEq_iff_dvd, hdifference]

theorem eq_sub_ofInt_iff (ht : t.isFloat = false) {a b : Word t} {i : Int} :
    a = sub t b (BitVec.ofInt _ i) ↔ toInt t b - toInt t a ≡ i [ZMOD t.modulus] := by
  have hsub : sub t b (BitVec.ofInt _ i) = b - BitVec.ofInt _ i := by
    cases t with
    | signed width => rfl
    | unsigned width => rfl
    | float p => cases ht
  have hdifference : toInt t a + i - toInt t b = i - (toInt t b - toInt t a) := by omega
  rw [hsub, BitVec.eq_sub_iff_add_eq, ← ofInt_toInt ht a, ← BitVec.ofInt_add, eq_comm, eq_ofInt_iff ht,
    ofInt_toInt ht, Int.modEq_iff_dvd, Int.modEq_iff_dvd, hdifference]

theorem cast_eq_ofInt (ht : t.isFloat = false) (hu : u.isFloat = false) (w : Word u) :
    cast u t w = BitVec.ofInt _ (toInt u w) := by
  cases t with
  | float p => cases ht
  | signed width => cases u with
    | float p => cases hu
    | signed width' => rfl
    | unsigned width' => rfl
  | unsigned width => cases u with
    | float p => cases hu
    | signed width' => rfl
    | unsigned width' => rfl

end Word

/-- What a comparison says of the integers `cur` and `prev` of a type and a scan value `v`. -/
def ConstraintKind.SaysOf (kind : ConstraintKind) (t : NumberType) (v cur prev : Int) : Prop :=
  match kind with
  | .equal => cur ≡ v [ZMOD t.modulus]
  | .notEqual => ¬ cur ≡ v [ZMOD t.modulus]
  | .greaterThan => t.wrap v < cur
  | .greaterThanOrEqual => t.wrap v ≤ cur
  | .lessThan => cur < t.wrap v
  | .lessThanOrEqual => cur ≤ t.wrap v
  | .changed => cur ≠ prev
  | .unchanged => cur = prev
  | .increased => prev < cur
  | .decreased => cur < prev
  | .increasedByX => cur - prev ≡ v [ZMOD t.modulus]
  | .decreasedByX => prev - cur ≡ v [ZMOD t.modulus]

instance (kind : ConstraintKind) (t : NumberType) (v cur prev : Int) : Decidable (kind.SaysOf t v cur prev) :=
  match kind with
  | .equal | .increasedByX | .decreasedByX => inferInstanceAs (Decidable (_ ≡ _ [ZMOD _]))
  | .notEqual => inferInstanceAs (Decidable (¬ _ ≡ _ [ZMOD _]))
  | .greaterThan | .lessThan | .increased | .decreased => inferInstanceAs (Decidable (_ < _))
  | .greaterThanOrEqual | .lessThanOrEqual => inferInstanceAs (Decidable (_ ≤ _))
  | .changed => inferInstanceAs (Decidable (cur ≠ prev))
  | .unchanged => inferInstanceAs (Decidable (cur = prev))

namespace Word

variable {t u : NumberType}

theorem evaluate_ofInt_iff (ht : t.isFloat = false) (kind : ConstraintKind) (current previous : Word t) (v : Int) :
    evaluate t kind current previous (BitVec.ofInt _ v) = true ↔
      kind.SaysOf t v (toInt t current) (toInt t previous) := by
  have hv := toInt_ofInt t v ht
  cases kind with
  | equal => exact (close_iff ht).trans (eq_ofInt_iff ht)
  | notEqual => rw [evaluate, Bool.not_eq_true', ← Bool.not_eq_true, close_iff ht, eq_ofInt_iff ht]; rfl
  | greaterThan => rw [evaluate, lt_iff ht, hv]; rfl
  | greaterThanOrEqual => rw [evaluate, le_iff ht, hv]; rfl
  | lessThan => rw [evaluate, lt_iff ht, hv]; rfl
  | lessThanOrEqual => rw [evaluate, le_iff ht, hv]; rfl
  | changed => rw [evaluate, Bool.not_eq_true', ← Bool.not_eq_true, close_iff ht, ← toInt_inj ht]; rfl
  | unchanged => exact (close_iff ht).trans (toInt_inj ht).symm
  | increased => exact lt_iff ht
  | decreased => exact lt_iff ht
  | increasedByX => exact (close_iff ht).trans (eq_add_ofInt_iff ht)
  | decreasedByX => exact (close_iff ht).trans (eq_sub_ofInt_iff ht)

theorem evaluate_congr_value {kind : ConstraintKind} (h : kind.requiresValue = false)
    (current previous value value' : Word t) :
    evaluate t kind current previous value = evaluate t kind current previous value' := by
  cases kind <;> first | rfl | cases h

end Word

namespace Predicate

variable {t u : NumberType}

/-- A comparison with an integer can be prepared for every integer type, and answers for an element what it says of the
integers of the element. -/
theorem exists_compile_integer_leaf (ht : t.isFloat = false) (hu : u.isFloat = false) (order : ByteOrder)
    (word : Word u) (kind : ConstraintKind) :
    ∃ p, compile (.leaf kind (some (.number u word))) ⟨.number t, order⟩ = .ok p ∧
      ∀ current previous, p.holds current previous = true ↔
        kind.SaysOf t (Word.toInt u word) (t.decoded order current) (t.decoded order previous) := by
  let c : Constraint := .leaf kind (some (.number u word))
  obtain ⟨w, htree, hw⟩ : ∃ w, PredicateTree.ofConstraint t c = .ok (.leaf kind w) ∧
      ∀ cur prev, Word.evaluate t kind cur prev w = Word.evaluate t kind cur prev (Word.cast u t word) := by
    rw [PredicateTree.ofConstraint_leaf]
    cases hkind : kind.requiresValue with
    | false => exact ⟨Word.zero t, rfl, fun cur prev => Word.evaluate_congr_value hkind ..⟩
    | true => exact ⟨Word.cast u t word, rfl, fun _ _ => rfl⟩
  have hprepare : prepare c t order = .ok ⟨t, order, c.requiresPrevious, .leaf kind w⟩ := by
    rw [prepare, htree]
    rfl
  refine ⟨_, compile_eq_ok_iff.2 ⟨rfl, t, rfl, hprepare⟩, ?_⟩
  intro current previous
  rw [holds_eq_eval htree, PredicateTree.eval, hw, Word.cast_eq_ofInt ht hu, Word.evaluate_ofInt_iff ht,
    Word.toInt_read ht, Word.toInt_read ht]

/-- Comparisons of the elements of an integer type with an integer of any other type can all be prepared.  They are
modulo the number of words, the ordering ones with the one integer in the range of the type that represents the scan
value; a difference upwards is one downwards with the current and the previous value exchanged. -/
theorem integer_leaf_modular (ht : t.isFloat = false) (hu : u.isFloat = false) (order : ByteOrder) (word : Word u) :
    let v := Word.toInt u word
    ∃ p : ConstraintKind → Predicate,
      (∀ kind, compile (.leaf kind (some (.number u word))) ⟨.number t, order⟩ = .ok (p kind)) ∧
      (∀ kind current previous, (p kind).holds current previous = true ↔
        kind.SaysOf t v (t.decoded order current) (t.decoded order previous)) ∧
      (∀ current previous, (p .increasedByX).holds current previous = (p .decreasedByX).holds previous current) ∧
      t.Represents (t.wrap v) v ∧ (∀ r, t.Represents r v → r = t.wrap v) ∧
      ∀ bytes, t.Represents (t.decoded order bytes) (order.toNat (bytes.take t.size)) := by
  intro v
  have hleaf := exists_compile_integer_leaf ht hu order word
  choose p hcompile hholds using hleaf
  refine ⟨p, hcompile, hholds, ?_, Word.represents_wrap ht v, ?_, fun bytes => Word.represents_wrap ht _⟩
  · intro current previous
    rw [Bool.eq_iff_iff, hholds, hholds]
    rfl
  · intro r hr
    exact hr.unique ht (Word.represents_wrap ht v)

/-- An unsigned value of four bytes, compared with elements of two signed bytes: it has the word of the least of
them. -/
theorem integer_leaf_modular_narrowed :
    let t : NumberType := .signed .two
    let word : Word (.unsigned .four) := 0x00018000#32
    let current : List UInt8 := [0x80, 0x05]
    let previous : List UInt8 := [0x00, 0x05]
    let compiled (kind : ConstraintKind) := Predicate.compile (.leaf kind (some (.number _ word))) ⟨.number t, .big⟩
    t.isFloat = false ∧ (NumberType.unsigned .four).isFloat = false ∧ Word.toInt _ word = 98304 ∧
      t.wrap 98304 = -32768 ∧ t.decoded .big current = -32763 ∧ t.decoded .big previous = 5 ∧
      (∃ p, compiled .increasedByX = .ok p ∧ p.holds current previous = true) ∧
      (∃ p, compiled .greaterThan = .ok p ∧ p.holds current previous = true) ∧
      ∃ p, compiled .equal = .ok p ∧ p.holds current previous = false := by
  intro t word current previous compiled
  have hcurrent : t.decoded .big current = -32763 := by decide
  have hprevious : t.decoded .big previous = 5 := by decide
  obtain ⟨p, hcompile, hholds, _⟩ :=
    integer_leaf_modular (t := t) (u := .unsigned .four) rfl rfl .big word
  refine ⟨rfl, rfl, by decide, by decide, hcurrent, hprevious, ⟨_, hcompile _, ?_⟩, ⟨_, hcompile _, ?_⟩,
    _, hcompile _, ?_⟩
  · rw [hholds, hcurrent, hprevious]
    decide
  · rw [hholds, hcurrent, hprevious]
    decide
  · rw [← Bool.not_eq_true, hholds, hcurrent, hprevious]
    decide

end Predicate
end Memsift
