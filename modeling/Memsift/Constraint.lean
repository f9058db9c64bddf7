import Memsift.ScanValue

/-!
# Constraints

Trees of comparisons joined by connectives.  An operand may be missing, and so may the scan value of a comparison
that needs one: such a tree can be held and shown, but it is not complete.  The key fact: `validate` accepts exactly
the complete trees (`validate_eq_ok_iff`).
-/

namespace Memsift

inductive Constraint where
  | leaf (kind : ConstraintKind) (value : Option ScanValue)
  | operation (op : Connective) (left right : Option Constraint)

namespace Constraint

/-- Induction on the tree, with the operands that are there. -/
@[elab_as_elim]
theorem induction_operands {motive : Constraint → Prop}
    (leaf : ∀ (kind : ConstraintKind) (value : Option ScanValue), motive (leaf kind value))
    (operation : ∀ (op : Connective) (left right : Option Constraint), (∀ c ∈ left, motive c) →
      (∀ c ∈ right, motive c) → motive (operation op left right))
    (c : Constraint) : motive c := by
  refine @Constraint.rec motive (fun operand => ∀ c ∈ operand, motive c) leaf operation nofun ?_ c
  intro c ih c' hc
  obtain rfl := Option.mem_some_iff.1 hc
  exact ih

/-- The first defect: of an operation its own missing operands come before the defects of its operands, left before
right. -/
def validate : Constraint → Except Error Unit
  | leaf kind none => if kind.requiresValue then .error (.malformedConstraint (.missingValue kind)) else .ok ()
  | leaf _ (some _) => .ok ()
  | operation op none _ => .error (.malformedConstraint (.missingOperand op .left))
  | operation op (some _) none => .error (.malformedConstraint (.missingOperand op .right))
  | operation _ (some left) (some right) => do
    left.validate
    right.validate
termination_by structural c => c

/-- Every operand is there, and so is every scan value that is needed. -/
inductive Complete : Constraint → Prop where
  | leaf {kind : ConstraintKind} {value : Option ScanValue} (h : kind.requiresValue → value.isSome) :
      Complete (leaf kind value)
  | operation {op : Connective} {left right : Constraint} (hl : Complete left) (hr : Complete right) :
      Complete (operation op (some left) (some right))

mutual

/-- Whether any comparison looks at the previous value. -/
def requiresPrevious : Constraint → Bool
  | leaf kind _ => kind.requiresPrevious
  | operation _ left right => requiresPreviousOperand left || requiresPreviousOperand right

def requiresPreviousOperand : Option Constraint → Bool
  | none => false
  | some c => c.requiresPrevious

end

mutual

/-- The number of comparisons. -/
def leafCount : Constraint → Nat
  | leaf _ _ => 1
  | operation _ left right => leafCountOperand left + leafCountOperand right

def leafCountOperand : Option Constraint → Nat
  | none => 0
  | some c => c.leafCount

end

mutual

/-- A comparison with its value in brackets, an operation in infix form, a question mark for what is missing. -/
def display : Constraint → String
  | leaf kind none => kind.title
  | leaf kind (some value) => kind.title ++ "(" ++ value.display ++ ")"
  | operation op left right => "(" ++ displayOperand left ++ " " ++ op.title ++ " " ++ displayOperand right ++ ")"

def displayOperand : Option Constraint → String
  | none => "?"
  | some c => c.display

end

instance : ToString Constraint := ⟨display⟩

theorem validate_operation (op : Connective) (left right : Constraint) :
    validate (operation op (some left) (some right)) = (do left.validate; right.validate) := by
  rw [validate]

theorem validate_eq_ok_iff (c : Constraint) : c.validate = .ok () ↔ Complete c := by
  fun_induction validate c with
  | case1 kind h =>
    constructor
    · intro h'; cases h'
    · intro h'; cases h' with | leaf hv => simp [h] at hv
  | case2 kind h => exact ⟨fun _ => .leaf (by simp [h]), fun _ => rfl⟩
  | case3 kind value => exact ⟨fun _ => .leaf (by simp), fun _ => rfl⟩
  | case4 op right => exact ⟨nofun, nofun⟩
  | case5 op left => exact ⟨nofun, nofun⟩
  | case6 op left right ihl ihr =>
    constructor
    · intro h
      cases hl : left.validate with
      | error e => simp [hl, bind, Except.bind] at h
      | ok u =>
        rw [hl] at h
        exact .operation (ihl.1 hl) (ihr.1 h)
    · intro h
      cases h with
      | operation hl hr => rw [ihl.2 hl]; exact ihr.2 hr

end Constraint
end Memsift
