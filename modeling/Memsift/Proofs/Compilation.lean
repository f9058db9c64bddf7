import Memsift.Proofs.Meaning

/-!
# Which constraints can be prepared

A scan value that is needed but is no number is a misfit.  The key facts: a complete constraint can be prepared if it
has no misfit, and otherwise the leftmost one is reported (`ofConstraint_of_validate_eq_ok`); an incomplete one cannot,
and without misfits the reason is what validating reports (`ofConstraint_of_validate_eq_error`), although the two look
at the tree independently.
-/

namespace Memsift

section Bind

variable {ε α β : Type} {x : Except ε α} {f : α → Except ε β}

theorem bind_eq_ok_iff {b : β} : x >>= f = .ok b ↔ ∃ a, x = .ok a ∧ f a = .ok b := by
  cases x <;> simp [bind, Except.bind]

theorem bind_eq_error_iff {e : ε} : x >>= f = .error e ↔ x = .error e ∨ ∃ a, x = .ok a ∧ f a = .error e := by
  cases x <;> simp [bind, Except.bind]

end Bind

namespace Constraint

mutual

/-- The scan values that are needed and are no numbers, from left to right. -/
def misfits : Constraint → List ScanValue
  | leaf kind value => if kind.requiresValue then value.toList.filter fun v => !v.type.isNumeric else []
  | operation _ left right => misfitsOperand left ++ misfitsOperand right

def misfitsOperand : Option Constraint → List ScanValue
  | none => []
  | some c => c.misfits

end

mutual

/-- The constraint without the scan values that are not needed. -/
def trimmed : Constraint → Constraint
  | leaf kind value => leaf kind (if kind.requiresValue then value else none)
  | operation op left right => operation op (trimmedOperand left) (trimmedOperand right)

def trimmedOperand : Option Constraint → Option Constraint
  | none => none
  | some c => some c.trimmed

end

theorem misfits_operation (op : Connective) (left right : Constraint) :
    (operation op (some left) (some right)).misfits = left.misfits ++ right.misfits := rfl

variable {op : Connective} {left right : Constraint} {e : Error}

theorem validate_operation_eq_ok_iff :
    (operation op (some left) (some right)).validate = .ok () ↔ left.validate = .ok () ∧ right.validate = .ok () := by
  rw [validate_operation, bind_eq_ok_iff]
  exact ⟨fun ⟨_, h⟩ => h, fun h => ⟨(), h⟩⟩

theorem validate_operation_eq_error_iff :
    (operation op (some left) (some right)).validate = .error e ↔
      left.validate = .error e ∨ left.validate = .ok () ∧ right.validate = .error e := by
  rw [validate_operation, bind_eq_error_iff]
  exact or_congr_right ⟨fun ⟨_, h⟩ => h, fun h => ⟨(), h⟩⟩

theorem validate_trimmed (c : Constraint) : c.trimmed.validate = c.validate := by
  fun_induction validate c with
  | case1 kind h => simp [trimmed, validate, h]
  | case2 kind h => simp [trimmed, validate, h]
  | case3 kind value => cases h : kind.requiresValue <;> simp [trimmed, validate, h]
  | case4 op right => rfl
  | case5 op left => rfl
  | case6 op left right ihl ihr => rw [trimmed, trimmedOperand, trimmedOperand, validate_operation, ihl, ihr]

theorem requiresPrevious_trimmed (c : Constraint) : c.trimmed.requiresPrevious = c.requiresPrevious := by
  induction c using induction_operands with
  | leaf kind value => rfl
  | operation op left right ihl ihr =>
    have hoperand : ∀ operand : Option Constraint, (∀ c ∈ operand, c.trimmed.requiresPrevious = c.requiresPrevious) →
        requiresPreviousOperand (trimmedOperand operand) = requiresPreviousOperand operand := by
      intro operand ih
      cases operand with
      | none => rfl
      | some c => exact ih c rfl
    rw [trimmed, requiresPrevious, requiresPrevious, hoperand left ihl, hoperand right ihr]

end Constraint

namespace ScanValue

theorem exists_cast_eq_ok (t : NumberType) {value : ScanValue} (h : value.type.isNumeric = true) :
    ∃ w, value.cast t = .ok w := by
  cases value with
  | number u w => exact ⟨_, rfl⟩
  | bytes content => cases h
  | text content => cases h

theorem cast_eq_error (t : NumberType) {value : ScanValue} (h : value.type.isNumeric = false) :
    value.cast t = .error (.unsupportedType (.scanValue value.type)) := by
  cases value with
  | number u w => cases h
  | bytes content => rfl
  | text content => rfl

end ScanValue

namespace PredicateTree

open Constraint (misfits)

variable {t : NumberType} {c : Constraint} {v : ScanValue} {e : Error}

section Operation

variable {op : Connective} {left right : Constraint}

theorem ofConstraint_operation :
    ofConstraint t (.operation op (some left) (some right)) =
      (do
        let l ← ofConstraint t left
        let r ← ofConstraint t right
        return operation op l r) := by
  rw [ofConstraint]

theorem ofConstraint_operation_eq_error_iff :
    ofConstraint t (.operation op (some left) (some right)) = .error e ↔
      ofConstraint t left = .error e ∨
        (∃ tree, ofConstraint t left = .ok tree) ∧ ofConstraint t right = .error e := by
  simp only [ofConstraint_operation, bind_eq_error_iff]
  constructor
  · rintro (h | ⟨tree, hl, hr | ⟨_, _, h⟩⟩)
    · exact .inl h
    · exact .inr ⟨⟨tree, hl⟩, hr⟩
    · cases h
  · rintro (h | ⟨⟨tree, hl⟩, hr⟩)
    · exact .inl h
    · exact .inr ⟨tree, hl, .inl hr⟩

end Operation

theorem ofConstraint_leaf_some {kind : ConstraintKind} (hkind : kind.requiresValue = true) (value : ScanValue) :
    ofConstraint t (.leaf kind (some value)) = (value.cast t).map (leaf kind) := by
  rw [ofConstraint_leaf, if_pos hkind]

theorem misfits_leaf_some {kind : ConstraintKind} (hkind : kind.requiresValue = true) (value : ScanValue) :
    misfits (.leaf kind (some value)) = if value.type.isNumeric then [] else [value] := by
  cases h : value.type.isNumeric <;> simp [misfits, hkind, h]

/-- A complete constraint can be prepared if it has no misfit, and otherwise the leftmost one is reported. -/
theorem ofConstraint_of_validate_eq_ok (t : NumberType) (hvalid : c.validate = .ok ()) :
    (c.misfits = [] → ∃ tree, ofConstraint t c = .ok tree) ∧
      ∀ v ∈ c.misfits.head?, ofConstraint t c = .error (.unsupportedType (.scanValue v.type)) := by
  fun_induction Constraint.validate c with
  | case1 kind h => cases hvalid
  | case2 kind h =>
    rw [misfits, if_neg h, ofConstraint_leaf, if_neg h]
    exact ⟨fun _ => ⟨_, rfl⟩, fun _ hv => by cases hv⟩
  | case3 kind value =>
    cases hkind : kind.requiresValue with
    | false =>
      rw [misfits, ofConstraint_leaf, hkind]
      exact ⟨fun _ => ⟨_, rfl⟩, fun _ hv => by cases hv⟩
    | true =>
      rw [misfits_leaf_some hkind, ofConstraint_leaf_some hkind]
      cases hnumeric : value.type.isNumeric with
      | false =>
        rw [value.cast_eq_error t hnumeric]
        refine ⟨fun hnone => absurd hnone (List.cons_ne_nil _ _), ?_⟩
        rintro _ ⟨⟩
        rfl
      | true =>
        obtain ⟨w, hw⟩ := value.exists_cast_eq_ok t hnumeric
        rw [hw]
        exact ⟨fun _ => ⟨_, rfl⟩, fun _ hv => by cases hv⟩
  | case4 op right => cases hvalid
  | case5 op left => cases hvalid
  | case6 op left right ihl ihr =>
    rw [← Constraint.validate_operation op, Constraint.validate_operation_eq_ok_iff] at hvalid
    obtain ⟨hleft, hleft'⟩ := ihl hvalid.1
    obtain ⟨hright, hright'⟩ := ihr hvalid.2
    rw [Constraint.misfits_operation]
    constructor
    · intro hfit
      rw [List.append_eq_nil_iff] at hfit
      obtain ⟨l, hl⟩ := hleft hfit.1
      obtain ⟨r, hr⟩ := hright hfit.2
      exact ⟨operation op l r, by rw [ofConstraint_operation, hl, hr]; rfl⟩
    · intro v hv
      rw [ofConstraint_operation_eq_error_iff]
      cases hmisfits : left.misfits with
      | nil =>
        rw [hmisfits, List.nil_append] at hv
        exact .inr ⟨hleft hmisfits, hright' v hv⟩
      | cons first rest =>
        -- the right operand is not looked at
        rw [hmisfits, List.cons_append, List.head?_cons] at hv
        exact .inl (hleft' v (by rw [hmisfits, List.head?_cons]; exact hv))

/-- An incomplete constraint cannot be prepared, and without misfits the reason is the same. -/
theorem ofConstraint_of_validate_eq_error (hvalid : c.validate = .error e) :
    (∃ e', ofConstraint t c = .error e') ∧ (c.misfits = [] → ofConstraint t c = .error e) := by
  fun_induction Constraint.validate c generalizing e with
  | case1 kind h =>
    obtain rfl := Except.error.inj hvalid
    rw [ofConstraint_leaf, if_pos h]
    exact ⟨⟨_, rfl⟩, fun _ => rfl⟩
  | case2 kind h => cases hvalid
  | case3 kind value => cases hvalid
  | case4 op right =>
    obtain rfl := Except.error.inj hvalid
    exact ⟨⟨_, rfl⟩, fun _ => rfl⟩
  | case5 op left =>
    obtain rfl := Except.error.inj hvalid
    exact ⟨⟨_, rfl⟩, fun _ => rfl⟩
  | case6 op left right ihl ihr =>
    rw [← Constraint.validate_operation op, Constraint.validate_operation_eq_error_iff] at hvalid
    simp only [ofConstraint_operation_eq_error_iff, Constraint.misfits_operation, List.append_eq_nil_iff]
    obtain hleft | ⟨hleft, hright⟩ := hvalid
    · obtain ⟨⟨e', he'⟩, hsame⟩ := ihl hleft
      exact ⟨⟨e', .inl he'⟩, fun hfit => .inl (hsame hfit.1)⟩
    · obtain ⟨hprepared, hmisfit⟩ := ofConstraint_of_validate_eq_ok t hleft
      obtain ⟨⟨e', he'⟩, hsame⟩ := ihr hright
      refine ⟨?_, fun hfit => .inr ⟨hprepared hfit.1, hsame hfit.2⟩⟩
      -- the left operand may have a misfit, which is then the reason
      cases hmisfits : left.misfits with
      | nil => exact ⟨e', .inr ⟨hprepared hmisfits, he'⟩⟩
      | cons first rest => exact ⟨_, .inl (hmisfit first (by rw [hmisfits]; rfl))⟩

theorem ofConstraint_trimmed (t : NumberType) (c : Constraint) : ofConstraint t c.trimmed = ofConstraint t c := by
  fun_induction Constraint.validate c with
  | case1 kind h => rw [Constraint.trimmed, if_pos h]
  | case2 kind h => rw [Constraint.trimmed, if_neg h]
  | case3 kind value =>
    cases hkind : kind.requiresValue with
    | false => simp [Constraint.trimmed, ofConstraint_leaf, hkind]
    | true => simp [Constraint.trimmed, hkind]
  | case4 op right => rfl
  | case5 op left => rfl
  | case6 op left right ihl ihr =>
    rw [Constraint.trimmed, Constraint.trimmedOperand, Constraint.trimmedOperand, ofConstraint_operation, ihl, ihr,
      ofConstraint_operation]

end PredicateTree

namespace Predicate

variable {c : Constraint} {t : NumberType} {order : ByteOrder} {type : DataType} {e : Error}

theorem prepare_eq_error_iff : prepare c t order = .error e ↔ PredicateTree.ofConstraint t c = .error e := by
  unfold prepare
  cases PredicateTree.ofConstraint t c <;> simp [Except.map]

theorem exists_prepare_eq_ok_iff :
    (∃ p, prepare c t order = .ok p) ↔ ∃ tree, PredicateTree.ofConstraint t c = .ok tree := by
  unfold prepare
  cases PredicateTree.ofConstraint t c <;> simp [Except.map]

theorem prepare_trimmed (c : Constraint) (t : NumberType) (order : ByteOrder) :
    prepare c.trimmed t order = prepare c t order := by
  rw [prepare, prepare, PredicateTree.ofConstraint_trimmed, Constraint.requiresPrevious_trimmed]

theorem compile_of_validate_eq_error (h : c.validate = .error e) (type : DataType) : compile c type = .error e := by
  rw [compile, h]
  rfl

theorem compile_of_validate_eq_ok (h : c.validate = .ok ()) (type : DataType) :
    compile c type =
      match type.valueType with
      | .number t => prepare c t type.byteOrder
      | other => .error (.unsupportedType (.comparison other)) := by
  rw [compile, h]
  rfl

theorem compile_trimmed (c : Constraint) (type : DataType) : compile c.trimmed type = compile c type := by
  cases hvalid : c.validate with
  | error e =>
    rw [compile_of_validate_eq_error hvalid, compile_of_validate_eq_error (c.validate_trimmed.trans hvalid)]
  | ok u =>
    rw [compile_of_validate_eq_ok hvalid, compile_of_validate_eq_ok (c.validate_trimmed.trans hvalid)]
    simp only [prepare_trimmed]

/-- What becomes of a constraint that is compiled.  If it is incomplete, that is the error, whatever the data type.  A
complete one fails if the data type is no number type, and otherwise at its leftmost misfit, and only then; scan values
that are not needed do not matter.  Preparing it without a check accepts no incomplete constraint either, and gives the
error of the check unless there is a misfit. -/
theorem compile_outcome (c : Constraint) (type : DataType) :
    (∀ e, c.validate = .error e → compile c type = .error e) ∧
    (c.validate = .ok () →
      ((∃ reason, compile c type = .error (.unsupportedType reason)) ↔
        type.valueType.isNumeric = false ∨ c.misfits ≠ []) ∧
      (type.valueType.isNumeric = false →
        compile c type = .error (.unsupportedType (.comparison type.valueType))) ∧
      (type.valueType.isNumeric = true → ∀ v ∈ c.misfits.head?,
        compile c type = .error (.unsupportedType (.scanValue v.type))) ∧
      ((∃ p, compile c type = .ok p) ↔ type.valueType.isNumeric = true ∧ c.misfits = [])) ∧
    compile c.trimmed type = compile c type ∧
    ∀ t order e, c.validate = .error e →
      (∃ e', prepare c t order = .error e') ∧ (c.misfits = [] → prepare c t order = .error e) := by
  refine ⟨fun e h => compile_of_validate_eq_error h type, ?_, compile_trimmed c type, ?_⟩
  · intro hvalid
    rw [compile_of_validate_eq_ok hvalid]
    cases type.valueType with
    | number t =>
      obtain ⟨hok, hmisfit⟩ := PredicateTree.ofConstraint_of_validate_eq_ok t hvalid
      simp only [ValueType.isNumeric, prepare_eq_error_iff, exists_prepare_eq_ok_iff]
      cases hmisfits : c.misfits with
      | nil =>
        obtain ⟨tree, htree⟩ := hok hmisfits
        simp [htree]
      | cons first rest =>
        have herror := hmisfit first (by rw [hmisfits]; rfl)
        simp [herror]
    | bytes => simp [ValueType.isNumeric]
    | text => simp [ValueType.isNumeric]
  · intro t order e hvalid
    simp only [prepare_eq_error_iff]
    exact PredicateTree.ofConstraint_of_validate_eq_error hvalid

/-- The text on the left comes before the missing operand if the constraint is prepared, but not if it is compiled. -/
example :
    let c : Constraint := .operation .and (some (.leaf .equal (some (.text "a")))) (some (.operation .or none none))
    prepare c (.unsigned .one) .little = .error (.unsupportedType (.scanValue .text)) ∧
      compile c ⟨.number (.unsigned .one), .little⟩ = .error (.malformedConstraint (.missingOperand .or .left)) :=
  ⟨rfl, rfl⟩

end Predicate
end Memsift
