import Memsift.Constraint.Json
import Memsift.Proofs.IntegerLiterals
import Memsift.Proofs.JsonText

/-!
# Stored constraints are read back

What is written for a constraint without floating-point numbers is read as that constraint.  The key facts: its JSON
holds numbers that mean something and texts only, and is as deep as the tree says (`stored_toJson`); and each node is
read from its own object, whatever its operands are (`ofJson?_toJson`).
-/

namespace Memsift

theorem ConstraintKind.ofName?_name (kind : ConstraintKind) : ofName? kind.name = some kind := by
  cases kind <;> rfl

theorem Connective.ofName?_name (op : Connective) : ofName? op.name = some op := by
  cases op <;> rfl

theorem ValueType.mem_all (type : ValueType) : type ∈ all := by
  cases type with
  | number t => exact List.mem_append_left _ (List.mem_map_of_mem t.mem_all)
  | bytes => decide
  | text => decide

theorem ValueType.ofTag?_tag (type : ValueType) : ofTag? type.tag = some type := by
  have hall : ∀ type ∈ ValueType.all, ofTag? type.tag = some type := by decide +kernel
  exact hall type type.mem_all

namespace Json

variable {v : Json} {vs : List Json} {ms : List (Option String × Json)} {depth depth' : Nat}

/-- Numbers are written as numbers and mean something, strings are texts, and arrays and objects are nested so deep. -/
structure Stored (v : Json) (depth : Nat) : Prop where
  numeric : v.numeric = true
  sound : v.sound = true
  nesting : v.nesting = depth

/-- The same for the members of an object. -/
structure StoredMembers (ms : List (Option String × Json)) (depth : Nat) : Prop where
  numeric : numericMembers ms = true
  sound : soundMembers ms = true
  nesting : nestingMembers ms = depth

theorem Stored.null : Stored null 0 := ⟨rfl, rfl, rfl⟩

theorem Stored.text (s : String) : Stored (text s) 0 := ⟨rfl, rfl, rfl⟩

theorem Stored.integer {i : Int} (hlow : -0x8000000000000000 ≤ i) (hhigh : i < UInt64.size) :
    Stored (integer i) 0 := by
  refine ⟨?_, ?_, rfl⟩
  · rw [Json.integer, Json.numeric, String.toList_ofList, isNumber_signedDecimal]
  · rw [Json.integer, Json.sound, Number.ofLiteral?_signedDecimal hlow hhigh]
    rfl

theorem Stored.natural {n : Nat} (h : n < UInt64.size) : Stored (natural n) 0 := by
  have hinteger : Json.integer n = Json.natural n := by
    rw [Json.integer, Text.signedDecimal_natCast]
    rfl
  rw [← hinteger]
  exact .integer (by omega) (by omega)

theorem Stored.array (h : ∀ v ∈ vs, Stored v 0) : Stored (array vs) 1 := by
  have hitems : numericItems vs = true ∧ soundItems vs = true ∧ nestingItems vs = 0 := by
    induction vs with
    | nil => exact ⟨rfl, rfl, rfl⟩
    | cons v vs ih =>
      obtain ⟨hv, hvs⟩ := List.forall_mem_cons.1 h
      obtain ⟨hnumeric, hsound, hnesting⟩ := ih hvs
      simp [numericItems, soundItems, nestingItems, hv.numeric, hv.sound, hv.nesting, hnumeric, hsound, hnesting]
  obtain ⟨hnumeric, hsound, hnesting⟩ := hitems
  exact ⟨hnumeric, hsound, by rw [Json.nesting, hnesting]⟩

theorem StoredMembers.nil : StoredMembers [] 0 := ⟨rfl, rfl, rfl⟩

theorem StoredMembers.cons (key : String) (hv : Stored v depth) (hms : StoredMembers ms depth') :
    StoredMembers ((some key, v) :: ms) (max depth depth') := by
  refine ⟨?_, ?_, ?_⟩
  · rw [numericMembers, hv.numeric, hms.numeric, Bool.and_self]
  · rw [soundMembers, hv.sound, hms.sound, Option.isSome_some, Bool.and_self, Bool.and_self]
  · rw [nestingMembers, hv.nesting, hms.nesting]

theorem StoredMembers.object (hms : StoredMembers ms depth) : Stored (object ms) (depth + 1) :=
  ⟨hms.numeric, hms.sound, by rw [Json.nesting, hms.nesting]⟩

end Json

namespace Word

variable {t : NumberType}

theorem ofInt_toInt (ht : t.isFloat = false) (w : Word t) : BitVec.ofInt (8 * t.size) (toInt t w) = w := by
  cases t with
  | signed width => exact BitVec.ofInt_toInt
  | unsigned width => simp [toInt]
  | float p => cases ht

theorem toInt_mem_range (ht : t.isFloat = false) (w : Word t) : t.low ≤ toInt t w ∧ toInt t w ≤ t.high := by
  cases t with
  | signed width =>
    have hlow := BitVec.le_toInt w
    have hhigh := BitVec.toInt_lt (x := w)
    simp only [NumberType.low, NumberType.high, Nat.one_shiftLeft]
    push_cast
    exact ⟨hlow, Int.le_sub_one_of_lt hhigh⟩
  | unsigned width =>
    have hhigh := w.isLt
    have hcast : ((2 ^ (8 * width.bytes) : Nat) : Int) - 1 = (2 ^ (8 * width.bytes) - 1 : Nat) := by
      have := Nat.two_pow_pos (8 * width.bytes)
      omega
    simp only [NumberType.low, NumberType.high, Nat.one_shiftLeft, hcast]
    exact ⟨Int.natCast_nonneg _, Int.ofNat_le.2 (Nat.le_sub_one_of_lt hhigh)⟩
  | float p => cases ht

/-- The range of an integer type fits into 64 bits with or without a sign, and so do its values. -/
theorem toInt_fits (ht : t.isFloat = false) (w : Word t) :
    -0x8000000000000000 ≤ toInt t w ∧ toInt t w < UInt64.size := by
  have hranges : ∀ t ∈ NumberType.all, t.isFloat = false →
      -0x8000000000000000 ≤ t.low ∧ t.high < UInt64.size := by decide
  obtain ⟨hleast, hgreatest⟩ := hranges t t.mem_all ht
  obtain ⟨hlow, hhigh⟩ := toInt_mem_range ht w
  exact ⟨Int.le_trans hleast hlow, Int.lt_of_le_of_lt hhigh hgreatest⟩

end Word

namespace ScanValue

variable {t : NumberType} {value : ScanValue}

theorem wordOfInt?_toInt (ht : t.isFloat = false) (w : Word t) : wordOfInt? t (Word.toInt t w) = some w := by
  rw [wordOfInt?, if_pos (Word.toInt_mem_range ht w), Word.ofInt_toInt ht]

theorem toWord?_integer (ht : t.isFloat = false) (w : Word t) :
    Json.Number.toWord? t (.integer (Word.toInt t w)) = some w := by
  cases t with
  | signed width => exact wordOfInt?_toInt ht w
  | unsigned width => exact wordOfInt?_toInt ht w
  | float p => cases ht

theorem ofLiteral?_toInt (ht : t.isFloat = false) (w : Word t) :
    Json.Number.ofLiteral? (String.ofList (Text.signedDecimal (Word.toInt t w))) =
      some (.integer (Word.toInt t w)) := by
  obtain ⟨hlow, hhigh⟩ := Word.toInt_fits ht w
  exact Json.Number.ofLiteral?_signedDecimal hlow hhigh

theorem numberJson_eq (ht : t.isFloat = false) (w : Word t) : numberJson t w = .integer (Word.toInt t w) := by
  cases t with
  | signed width => rfl
  | unsigned width => rfl
  | float p => cases ht

theorem byteOfJson?_natural (b : UInt8) : byteOfJson? (.natural b.toNat) = some b := by
  have hliteral := ofLiteral?_toInt (t := .unsigned .one) rfl b.toBitVec
  have hword := toWord?_integer (t := .unsigned .one) rfl b.toBitVec
  have hdecimal : Text.signedDecimal (Word.toInt (.unsigned .one) b.toBitVec) = Text.decimal b.toNat :=
    Text.signedDecimal_natCast b.toNat
  rw [hdecimal] at hliteral
  rw [Json.natural, byteOfJson?, hliteral, Option.bind_some, hword]
  exact congrArg some UInt8.ofNat_toNat

theorem mapM_byteOfJson? (content : List UInt8) :
    (content.map fun b => Json.natural b.toNat).mapM byteOfJson? = some content := by
  induction content with
  | nil => rfl
  | cons b content ih =>
    rw [List.map_cons, List.mapM_cons, byteOfJson?_natural, ih]
    rfl

/-- How deep a scan value is nested in JSON. -/
def depth : ScanValue → Nat
  | bytes _ => 2
  | _ => 1

theorem stored_toJson (hvalue : value.type.isFloat = false) : value.toJson.Stored value.depth := by
  have hmembers : ∀ {content depth}, value.contentJson = content → content.Stored depth →
      value.toJson.Stored (depth + 1) := by
    rintro _ depth rfl hcontent
    have htype : Json.Stored (.text value.type.tag) 0 := .text value.type.tag
    simpa [toJson, Json.ofFields] using (Json.StoredMembers.cons "type" htype (.cons "value" hcontent .nil)).object
  cases value with
  | number t w =>
    obtain ⟨hlow, hhigh⟩ := Word.toInt_fits hvalue w
    exact hmembers (numberJson_eq hvalue w) (.integer hlow hhigh)
  | bytes content =>
    refine hmembers rfl (.array ?_)
    intro v hv
    obtain ⟨b, _, rfl⟩ := List.mem_map.1 hv
    exact .natural (b.toNat_lt.trans (by decide))
  | text content => exact hmembers rfl (.text content)

theorem ofJson?_toJson (hvalue : value.type.isFloat = false) : ofJson? value.toJson = some value := by
  have hmembers : ofJson? value.toJson =
      (ValueType.ofTag? value.type.tag).bind fun type => ofContent? type value.contentJson := rfl
  rw [hmembers, ValueType.ofTag?_tag, Option.bind_some]
  cases value with
  | number t w =>
    rw [contentJson, numberJson_eq hvalue w, Json.integer, type, ofContent?, ofLiteral?_toInt hvalue w,
      Option.bind_some, toWord?_integer hvalue w]
    rfl
  | bytes content =>
    rw [contentJson, type, ofContent?, mapM_byteOfJson?]
    rfl
  | text content => rfl

end ScanValue

namespace Constraint

variable {c : Constraint}

mutual

/-- How deep a constraint is nested in JSON. -/
def depth : Constraint → Nat
  | leaf _ none => 1
  | leaf _ (some value) => value.depth + 1
  | operation _ left right => max (operandDepth left) (operandDepth right) + 1

def operandDepth : Option Constraint → Nat
  | none => 0
  | some c => c.depth

end

/-- No scan value is a floating-point number. -/
inductive FloatFree : Constraint → Prop where
  | leaf {kind : ConstraintKind} {value : Option ScanValue} (h : ∀ v ∈ value, v.type.isFloat = false) :
      FloatFree (leaf kind value)
  | operation {op : Connective} {left right : Option Constraint} (hl : ∀ c ∈ left, FloatFree c)
      (hr : ∀ c ∈ right, FloatFree c) : FloatFree (operation op left right)

theorem exists_toJson_eq_object (c : Constraint) : ∃ members, c.toJson = .object members := by
  cases c with
  | leaf kind value => cases value <;> exact ⟨_, rfl⟩
  | operation op left right => exact ⟨_, rfl⟩

theorem stored_operandJson {operand : Option Constraint} (h : ∀ c ∈ operand, c.toJson.Stored c.depth) :
    (operandJson operand).Stored (operandDepth operand) := by
  cases operand with
  | none => exact .null
  | some c => exact h c rfl

theorem stored_toJson (hc : c.FloatFree) : c.toJson.Stored c.depth := by
  induction c using Constraint.induction_operands with
  | leaf kind value =>
    have hnode : Json.Stored (.text Node.scan.name) 0 := .text _
    have hkind : Json.Stored (.text kind.name) 0 := .text _
    cases value with
    | none =>
      simpa [toJson, Json.ofFields, depth] using
        (Json.StoredMembers.cons "node" hnode (.cons "kind" hkind .nil)).object
    | some value =>
      cases hc with
      | leaf h =>
        have hvalue := ScanValue.stored_toJson (h value rfl)
        simpa [toJson, Json.ofFields, depth] using
          (Json.StoredMembers.cons "node" hnode (.cons "kind" hkind (.cons "value" hvalue .nil))).object
  | operation op left right ihl ihr =>
    cases hc with
    | operation hl hr =>
      have hnode : Json.Stored (.text Node.operation.name) 0 := .text _
      have hop : Json.Stored (.text op.name) 0 := .text _
      have hleft := stored_operandJson fun c hmem => ihl c hmem (hl c hmem)
      have hright := stored_operandJson fun c hmem => ihr c hmem (hr c hmem)
      simpa [toJson, Json.ofFields, depth] using
        (Json.StoredMembers.cons "node" hnode (.cons "op" hop (.cons "left" hleft (.cons "right" hright .nil)))).object

theorem optional?_operandJson {operand : Option Constraint}
    (h : ∀ c ∈ operand, ofJson? true c.toJson = some c) :
    optional? (operandJson operand) (ofJson? true (operandJson operand)) = some operand := by
  cases operand with
  | none => rfl
  | some c =>
    have hc := h c rfl
    obtain ⟨members, hobject⟩ := exists_toJson_eq_object c
    rw [operandJson, hc, hobject]
    rfl

theorem leafOfParts?_name (kind : ConstraintKind) (v : Json) :
    leafOfParts? (.text kind.name) v = (optional? v (ScanValue.ofJson? v)).map (leaf kind) := by
  have hkind : (Json.name? Json.isEmpty (.text kind.name)).bind ConstraintKind.ofName? = some kind :=
    kind.ofName?_name
  rw [leafOfParts?, hkind]
  cases optional? v (ScanValue.ofJson? v) <;> rfl

theorem operationOfParts?_name (op : Connective) (left right : Option Constraint) :
    operationOfParts? (.text op.name) (some left) (some right) = some (operation op left right) := by
  have hop : (Json.name? Json.isEmpty (.text op.name)).bind Connective.ofName? = some op := op.ofName?_name
  rw [operationOfParts?, hop]
  rfl

theorem ofJson?_toJson (hc : c.FloatFree) (numbered : Bool) : ofJson? numbered c.toJson = some c := by
  induction c using Constraint.induction_operands generalizing numbered with
  | leaf kind value =>
    cases hc with
    | leaf h =>
      cases value with
      | none =>
        have hread : ofJson? numbered (leaf kind none).toJson = leafOfParts? (.text kind.name) .null := rfl
        rw [hread, leafOfParts?_name]
        rfl
      | some value =>
        have hread : ofJson? numbered (leaf kind (some value)).toJson =
            leafOfParts? (.text kind.name) value.toJson := rfl
        have hvalue : optional? value.toJson (ScanValue.ofJson? value.toJson) = some (some value) := by
          rw [ScanValue.ofJson?_toJson (h value rfl)]
          rfl
        rw [hread, leafOfParts?_name, hvalue]
        rfl
  | operation op left right ihl ihr =>
    cases hc with
    | operation hl hr =>
      have hleft := optional?_operandJson fun c hmem => ihl c hmem (hl c hmem) true
      have hright := optional?_operandJson fun c hmem => ihr c hmem (hr c hmem) true
      have hread : ofJson? numbered (operation op left right).toJson = operationOfParts? (.text op.name)
          (optional? (operandJson left) (ofJson? true (operandJson left)))
          (optional? (operandJson right) (ofJson? true (operandJson right))) := rfl
      rw [hread, hleft, hright, operationOfParts?_name]

/-- A constraint without floating-point numbers is read back from its text, complete or not, unless it is nested too
deep. -/
theorem ofJsonText_toJsonText (hc : c.FloatFree) :
    (ofJsonText c.toJsonText = .ok c ↔ c.depth ≤ 127) ∧
    (¬ c.depth ≤ 127 → ∃ reason, ofJsonText c.toJsonText = .error (.json reason)) := by
  obtain ⟨hnumeric, hsound, hnesting⟩ := stored_toJson hc
  have htext : Json.ofText? c.toJsonText = some c.toJson := Json.ofText?_toText hnumeric
  by_cases hdepth : c.depth ≤ 127
  · have hread : ofJsonText c.toJsonText = .ok c := by
      simp [ofJsonText, htext, hnesting, hsound, nestingLimit, hdepth, ofJson?_toJson hc]
    exact ⟨iff_of_true hread hdepth, absurd hdepth⟩
  · have hread : ofJsonText c.toJsonText = .error (.json "nested too deep, or out of range") := by
      simp [ofJsonText, htext, hnesting, nestingLimit, Nat.lt_of_not_le hdepth]
    refine ⟨iff_of_false ?_ hdepth, fun _ => ⟨_, hread⟩⟩
    rw [hread]
    exact fun h => by cases h

/-- A missing operand, a value that is not needed and a text with escapes, in as many levels as can be read back and in
one more. -/
theorem ofJsonText_toJsonText_deepest :
    let text : Constraint := leaf .equal (some (.text "\"\\/\n\t\u0001\u007f é 😀"))
    let bytes : Constraint := leaf .changed (some (.bytes [0, 255]))
    let nested (levels : Nat) : Constraint :=
      Nat.repeat (fun c => operation .xor (some text) (some c)) levels (operation .or none (some bytes))
    ofJsonText (nested 123).toJsonText = .ok (nested 123) ∧
      ∃ reason, ofJsonText (nested 124).toJsonText = .error (.json reason) := by
  intro text bytes nested
  have htext : text.FloatFree := .leaf (by simp [ScanValue.type, ValueType.isFloat])
  have hbytes : bytes.FloatFree := .leaf (by simp [ScanValue.type, ValueType.isFloat])
  have hnested : ∀ levels, (nested levels).FloatFree := by
    intro levels
    induction levels with
    | zero => exact .operation (by simp) (by simpa using hbytes)
    | succ levels ih => exact .operation (by simpa using htext) (by simpa using ih)
  exact ⟨(ofJsonText_toJsonText (hnested 123)).1.2 (by decide +kernel),
    (ofJsonText_toJsonText (hnested 124)).2 (by decide +kernel)⟩

end Constraint
end Memsift
