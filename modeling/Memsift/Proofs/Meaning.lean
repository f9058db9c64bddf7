import Memsift.Predicate
import Memsift.Proofs.Lanes

/-!
# What a predicate means

A constraint has a plain meaning: its comparisons are all made, and the connectives join the answers.  The key facts:
a prepared constraint answers for a single element what the constraint means (`eval_eq_meaning`); its mask holds that
answer in every lane of every element (`compare_eq`); and a constraint that does not ask for the previous value has the
same answers whatever it is (`eval_congr_previous`).  Hence the two forms of a predicate agree (`lawful_test`).
-/

namespace Memsift

/-- The word that a comparison compares with: its scan value, or zero if it takes none. -/
def ConstraintKind.operand? (kind : ConstraintKind) (t : NumberType) (value : Option ScanValue) : Option (Word t) :=
  if kind.requiresValue then value.bind fun v => (v.cast t).toOption else some (Word.zero t)

/-- What a constraint says of an element with the given current and previous words; nothing if an operand is
missing, or a scan value that is missing or cannot be cast. -/
def Constraint.meaning? (t : NumberType) (current previous : Word t) : Constraint → Option Bool
  | leaf kind value => (kind.operand? t value).map (Word.evaluate t kind current previous)
  | operation op (some left) (some right) => do
    let l ← left.meaning? t current previous
    let r ← right.meaning? t current previous
    return op.apply l r
  | operation _ _ _ => none
termination_by structural c => c

namespace Word

theorem read_take (t : NumberType) (order : ByteOrder) (bytes : List UInt8) :
    read t order (bytes.take t.size) = read t order bytes := by
  simp [read, List.take_take]

theorem evaluate_congr_previous {t : NumberType} {kind : ConstraintKind} (h : kind.requiresPrevious = false)
    (current previous previous' value : Word t) :
    evaluate t kind current previous value = evaluate t kind current previous' value := by
  cases kind <;> first | rfl | cases h

end Word

namespace PredicateTree

variable {t : NumberType}

theorem eval_operation (current previous : Word t) (op : Connective) (left right : PredicateTree t) :
    (operation op left right).eval current previous =
      op.apply (left.eval current previous) (right.eval current previous) := by
  cases op <;> rfl

/-- An operation that could be prepared has both operands, and these could be prepared. -/
theorem ofConstraint_operation_eq_ok {op : Connective} {left right : Option Constraint} {tree : PredicateTree t}
    (h : ofConstraint t (.operation op left right) = .ok tree) :
    ∃ l r treeL treeR, left = some l ∧ right = some r ∧ ofConstraint t l = .ok treeL ∧ ofConstraint t r = .ok treeR ∧
      tree = operation op treeL treeR := by
  cases left with
  | none => rw [ofConstraint] at h; cases h
  | some l =>
    cases right with
    | none => rw [ofConstraint] at h; cases h
    | some r =>
      rw [ofConstraint] at h
      cases hl : ofConstraint t l with
      | error e => simp [hl, bind, Except.bind] at h
      | ok treeL =>
        cases hr : ofConstraint t r with
        | error e => simp [hl, hr, bind, Except.bind] at h
        | ok treeR =>
          simp only [hl, hr, bind, Except.bind, pure, Except.pure, Except.ok.injEq] at h
          exact ⟨l, r, treeL, treeR, rfl, rfl, hl, hr, h.symm⟩

theorem ofConstraint_leaf (kind : ConstraintKind) (value : Option ScanValue) :
    ofConstraint t (.leaf kind value) =
      if kind.requiresValue then
        match value with
        | some v => (v.cast t).map (leaf kind)
        | none => .error (.malformedConstraint (.missingValue kind))
      else .ok (leaf kind (Word.zero t)) := rfl

theorem ofConstraint_leaf_eq_ok {kind : ConstraintKind} {value : Option ScanValue} {tree : PredicateTree t}
    (h : ofConstraint t (.leaf kind value) = .ok tree) : ∃ w, kind.operand? t value = some w ∧ tree = leaf kind w := by
  rw [ofConstraint_leaf] at h
  unfold ConstraintKind.operand?
  split at h
  · rename_i hkind
    cases value with
    | none => cases h
    | some v =>
      cases hv : v.cast t with
      | error e => simp [hv, Except.map] at h
      | ok w =>
        simp only [hv, Except.map, Except.ok.injEq] at h
        exact ⟨w, by simp [hkind, hv, Except.toOption], h.symm⟩
  · rename_i hkind
    cases h
    exact ⟨Word.zero t, by simp [hkind], rfl⟩

theorem eval_eq_meaning {c : Constraint} {tree : PredicateTree t} (h : ofConstraint t c = .ok tree)
    (current previous : Word t) : c.meaning? t current previous = some (tree.eval current previous) := by
  fun_induction Constraint.meaning? t current previous c generalizing tree with
  | case1 kind value =>
    obtain ⟨w, hw, rfl⟩ := ofConstraint_leaf_eq_ok h
    simp [hw, eval]
  | case2 op left right ihl ihr =>
    obtain ⟨_, _, treeL, treeR, ⟨⟩, ⟨⟩, hl, hr, rfl⟩ := ofConstraint_operation_eq_ok h
    rw [eval_operation]
    simp [ihl hl, ihr hr]
  | case3 op left right hmissing =>
    obtain ⟨l, r, _, _, rfl, rfl, _⟩ := ofConstraint_operation_eq_ok h
    exact absurd rfl (hmissing l r rfl)

theorem eval_congr_previous {c : Constraint} {tree : PredicateTree t} (h : ofConstraint t c = .ok tree)
    (hc : c.requiresPrevious = false) (current previous previous' : Word t) :
    tree.eval current previous = tree.eval current previous' := by
  fun_induction Constraint.meaning? t current previous c generalizing tree with
  | case1 kind value =>
    obtain ⟨w, _, rfl⟩ := ofConstraint_leaf_eq_ok h
    rw [Constraint.requiresPrevious] at hc
    exact Word.evaluate_congr_previous hc ..
  | case2 op left right ihl ihr =>
    obtain ⟨_, _, treeL, treeR, ⟨⟩, ⟨⟩, hl, hr, rfl⟩ := ofConstraint_operation_eq_ok h
    simp only [Constraint.requiresPrevious, Constraint.requiresPreviousOperand, Bool.or_eq_false_iff] at hc
    rw [eval_operation, eval_operation, ihl hl hc.1, ihr hr hc.2]
  | case3 op left right hmissing =>
    obtain ⟨l, r, _, _, rfl, rfl, _⟩ := ofConstraint_operation_eq_ok h
    exact absurd rfl (hmissing l r rfl)

theorem size_dvd_chunkSize (t : NumberType) : t.size ∣ chunkSize :=
  Nat.dvd_trans (dvd_eight_of_mem t.size_mem).1 (by decide)

theorem div_size_lt {i : Nat} (h : i < chunkSize) : i / t.size < chunkSize / t.size := by
  rw [Nat.div_lt_iff_lt_mul t.size_pos, Nat.div_mul_cancel (size_dvd_chunkSize t)]
  exact h

theorem compareLeaf_eq (order : ByteOrder) (kind : ConstraintKind) (value : Word t) (current previous : Chunk) :
    compareLeaf order kind value current previous = Mask.ofFn fun i =>
      Word.evaluate t kind (Word.read t order (current.from (i / t.size * t.size)))
        (Word.read t order (previous.from (i / t.size * t.size))) value := by
  unfold compareLeaf
  refine Mask.ofFn_congr fun i hi => ?_
  simp [List.getD_eq_getElem?_getD, div_size_lt hi]

theorem compare_eq (order : ByteOrder) (current previous : Chunk) (tree : PredicateTree t) :
    tree.compare order current previous = Mask.ofFn fun i =>
      tree.eval (Word.read t order (current.from (i / t.size * t.size)))
        (Word.read t order (previous.from (i / t.size * t.size))) := by
  induction tree with
  | leaf kind value => exact compareLeaf_eq order kind value current previous
  | operation op left right ihl ihr =>
    simp only [compare, ihl, ihr]
    cases op with
    | and =>
      simp only [Mask.ofFn_and]
      split
      · -- where the left answer is no in every lane, the right one changes none
        rename_i hfalse
        apply Mask.ofFn_congr
        intro i hi
        simp [eval, Mask.isAllFalse_ofFn_iff.1 hfalse i hi]
      · rfl
    | or =>
      simp only [Mask.ofFn_or]
      split
      · rename_i htrue
        apply Mask.ofFn_congr
        intro i hi
        simp [eval, Mask.isAllTrue_ofFn_iff.1 htrue i hi]
      · rfl
    | xor => rw [Mask.ofFn_xor]; rfl

end PredicateTree

/-- What is asked of the two forms of a test. -/
structure ElementTest.Lawful (test : ElementTest) : Prop where
  /-- Only the element at the start of the bytes is looked at. -/
  holds_take : ∀ current previous : List UInt8, test.size ≤ current.length → test.size ≤ previous.length →
    test.holds (current.take test.size) (previous.take test.size) = test.holds current previous
  /-- All lanes of an element of a chunk hold the answer for the element. -/
  lane_compare : ∀ (current previous : Chunk) (slot : Nat), slot < chunkSize / test.size → ∀ lane < test.size,
    (test.compare current previous).lane (slot * test.size + lane) =
      test.holds (current.from (slot * test.size)) (previous.from (slot * test.size))

namespace Predicate

variable {c : Constraint} {t : NumberType} {order : ByteOrder} {p : Predicate}

theorem prepare_eq_ok (h : prepare c t order = .ok p) :
    ∃ tree, PredicateTree.ofConstraint t c = .ok tree ∧ p = ⟨t, order, c.requiresPrevious, tree⟩ := by
  unfold prepare at h
  cases htree : PredicateTree.ofConstraint t c with
  | error e => simp [htree, Except.map] at h
  | ok tree =>
    simp only [htree, Except.map, Except.ok.injEq] at h
    exact ⟨tree, rfl, h.symm⟩

theorem compile_eq_ok_iff {type : DataType} :
    compile c type = .ok p ↔
      c.validate = .ok () ∧ ∃ t, type.valueType = .number t ∧ prepare c t type.byteOrder = .ok p := by
  unfold compile
  cases hvalid : c.validate with
  | error e => simp [bind, Except.bind]
  | ok u =>
    cases htype : type.valueType with
    | number t => simp [bind, Except.bind]
    | bytes => simp [bind, Except.bind]
    | text => simp [bind, Except.bind]

theorem compile_eq_ok {type : DataType} (h : compile c type = .ok p) :
    ∃ t, type.valueType = .number t ∧ prepare c t type.byteOrder = .ok p :=
  (compile_eq_ok_iff.1 h).2

/-- A prepared constraint reads the previous value only if it needs it, and that does not show. -/
theorem holds_eq_eval {tree : PredicateTree t} (h : PredicateTree.ofConstraint t c = .ok tree)
    (current previous : List UInt8) :
    holds ⟨t, order, c.requiresPrevious, tree⟩ current previous =
      tree.eval (Word.read t order current) (Word.read t order previous) := by
  unfold holds
  cases hc : c.requiresPrevious with
  | true => rfl
  | false => exact PredicateTree.eval_congr_previous h hc ..

theorem slot_div {slot lane size : Nat} (h : lane < size) : (slot * size + lane) / size = slot := by
  rw [Nat.mul_comm, Nat.mul_add_div (Nat.zero_lt_of_lt h), Nat.div_eq_of_lt h, Nat.add_zero]

theorem slot_lt {slot lane : Nat} (hslot : slot < chunkSize / t.size) (hlane : lane < t.size) :
    slot * t.size + lane < chunkSize := by
  have hle : (slot + 1) * t.size ≤ chunkSize := by
    rw [← Nat.le_div_iff_mul_le t.size_pos]
    exact hslot
  rw [Nat.succ_mul] at hle
  omega

theorem lawful_test (h : prepare c t order = .ok p) : p.test.Lawful := by
  obtain ⟨tree, htree, rfl⟩ := prepare_eq_ok h
  constructor
  · intro current previous _ _
    simp only [test, holds_eq_eval htree, Word.read_take]
  · intro current previous slot hslot lane hlane
    change slot < chunkSize / t.size at hslot
    change lane < t.size at hlane
    simp only [test, compare, PredicateTree.compare_eq, Mask.lane_ofFn, holds_eq_eval htree, slot_div hlane,
      slot_lt hslot hlane, decide_true, Bool.true_and]

theorem lawful_of_compile {type : DataType} (h : compile c type = .ok p) : p.test.Lawful := by
  obtain ⟨t, _, hprepare⟩ := compile_eq_ok h
  exact lawful_test hprepare

theorem holds_iff_meaning (h : prepare c t order = .ok p) (current previous : List UInt8) :
    p.holds current previous = true ↔
      c.meaning? t (Word.read t order current) (Word.read t order previous) = some true := by
  obtain ⟨tree, htree, rfl⟩ := prepare_eq_ok h
  rw [holds_eq_eval htree, PredicateTree.eval_eq_meaning htree, Option.some_inj]

/-- The mask of a chunk, the answer for a single element and the meaning of the constraint are the same for every
element of every chunk, in every lane; without a comparison that asks for the previous value this is so whatever the
previous bytes are. -/
theorem compare_eq_meaning (h : prepare c t order = .ok p) (current previous : Chunk) {slot : Nat}
    (hslot : slot < chunkSize / t.size) :
    let cur := current.from (slot * t.size)
    let prev := previous.from (slot * t.size)
    ∃ answer : Bool,
      (∀ lane < t.size,
        (p.compare current previous).lanes[slot * t.size + lane]? = some (if answer then 0xFF else 0)) ∧
      p.holds cur prev = answer ∧
      c.meaning? t (Word.read t order cur) (Word.read t order prev) = some answer ∧
      (c.requiresPrevious = false → ∀ other : Chunk,
        p.compare current other = p.compare current previous ∧
        p.holds cur (other.from (slot * t.size)) = answer ∧
        c.meaning? t (Word.read t order cur) (Word.read t order (other.from (slot * t.size))) = some answer) := by
  obtain ⟨tree, htree, rfl⟩ := prepare_eq_ok h
  intro cur prev
  refine ⟨tree.eval (Word.read t order cur) (Word.read t order prev), ?_, ?_, ?_, ?_⟩
  · intro lane hlane
    have hlt := slot_lt hslot hlane
    rw [Vector.getElem?_eq_getElem hlt]
    simp only [compare, PredicateTree.compare_eq, Mask.getElem_ofFn _ hlt, slot_div hlane]
    rfl
  · exact holds_eq_eval htree ..
  · exact PredicateTree.eval_eq_meaning htree ..
  · intro hc other
    have hsame := PredicateTree.eval_congr_previous htree hc
    refine ⟨?_, ?_, ?_⟩
    · simp only [compare, PredicateTree.compare_eq]
      exact Mask.ofFn_congr fun i _ => hsame ..
    · rw [holds_eq_eval htree]
      exact hsame ..
    · rw [PredicateTree.eval_eq_meaning htree]
      exact congrArg some (hsame ..)

theorem compare_eq_meaning_second_slot :
    let c : Constraint := .operation .or (some (.leaf .equal (some (.number (.unsigned .two) 0x0102#16))))
      (some (.leaf .changed none))
    let chunk := Chunk.load #[9, 9, 1, 2] 0
    ∃ p, prepare c (.unsigned .two) .big = .ok p ∧ 1 < chunkSize / (NumberType.unsigned .two).size ∧
      ∀ lane < 2, (p.compare chunk chunk).lanes[1 * 2 + lane]? = some 0xFF := by
  intro c chunk
  have hprepare : prepare c (.unsigned .two) .big = .ok ⟨.unsigned .two, .big, true, _⟩ := rfl
  have hslot : 1 < chunkSize / (NumberType.unsigned .two).size := by decide
  refine ⟨_, hprepare, hslot, ?_⟩
  obtain ⟨answer, hlanes, _, hmeaning, _⟩ := compare_eq_meaning hprepare chunk chunk hslot
  have hvalue : c.meaning? (.unsigned .two) 0x0102#16 0x0102#16 = some true := by decide
  obtain rfl : answer = true := Option.some.inj (hmeaning.symm.trans hvalue)
  exact hlanes

end Predicate
end Memsift
