import Memsift.Json.Reader
import Mathlib.Data.List.TakeWhile
import Mathlib.Tactic.SplitIfs

/-!
# Reading what was written

The reader inverts the writer, for values whose numbers are written as numbers.  The key facts: an escaped character is
read as that character (`codePoints_escaped`); the text of a value is cut into the tokens of the value, as nothing plain
follows a number (`tokens_write`); and the tokens of a value finish it on any stack (`foldlM_toTokens`).
-/

namespace Memsift.Json

/-! ### Strings -/

theorem hexadecimal_of_lt {n : Nat} (h : n < 32) :
    ∃ a b c d, Text.hexadecimal 4 n = [a, b, c, d] ∧ Text.digits? 16 [a, b, c, d] = some n := by
  have hall : ∀ m < 32, (Text.hexadecimal 4 m).length = 4 ∧ Text.digits? 16 (Text.hexadecimal 4 m) = some m := by
    decide
  obtain ⟨hlength, hdigits⟩ := hall n h
  match hfour : Text.hexadecimal 4 n, hlength with
  | [a, b, c, d], _ => exact ⟨a, b, c, d, rfl, hfour ▸ hdigits⟩

/-- A character stands for itself, or what stands after the backslash tells which one it is. -/
theorem escaped_cases (c : Char) :
    (c ≠ '"' ∧ c ≠ '\\' ∧ ¬ c.toNat < 32 ∧ escaped c = [c]) ∨
    (∃ e, escaped c = ['\\', e] ∧ escape? e = some c.toNat) ∨
    ∃ x y z w, escaped c = ['\\', 'u', x, y, z, w] ∧ Text.digits? 16 [x, y, z, w] = some c.toNat := by
  -- the goal names the escape four times; it is split in one place
  generalize hescaped : escaped c = cs
  unfold escaped at hescaped
  split_ifs at hescaped with hquote hbackslash _ _ _ _ _ hcontrol
  rotate_left 7
  · obtain ⟨x, y, z, w, hhexadecimal, hdigits⟩ := hexadecimal_of_lt hcontrol
    exact .inr (.inr ⟨x, y, z, w, by rw [← hescaped, hhexadecimal], hdigits⟩)
  · exact .inl ⟨hquote, hbackslash, hcontrol, hescaped.symm⟩
  all_goals
    refine .inr (.inl ⟨_, hescaped.symm, ?_⟩)
    subst_vars
    rfl

theorem codePoints_escaped (c : Char) (rest : List Char) :
    codePoints (escaped c ++ rest) = (codePoints rest).map fun (ns, rest) => (c.toNat :: ns, rest) := by
  obtain ⟨hquote, hbackslash, hc, h⟩ | ⟨e, h, he⟩ | ⟨x, y, z, w, h, hdigits⟩ := escaped_cases c
  · rw [h, List.singleton_append, codePoints, if_neg hc]
    · cases codePoints rest <;> rfl
    all_goals simp [hquote, hbackslash]
  · have hu : e ≠ 'u' := by
      rintro rfl
      cases he
    rw [h, List.cons_append, List.singleton_append, codePoints, he]
    · cases codePoints rest <;> rfl
    · simp [hu]
  · rw [h]
    show codePoints ('\\' :: 'u' :: x :: y :: z :: w :: rest) = _
    rw [codePoints, hdigits]
    cases codePoints rest <;> rfl

theorem codePoints_flatMap_escaped (cs rest : List Char) :
    codePoints (cs.flatMap escaped ++ '"' :: rest) = some (cs.map Char.toNat, rest) := by
  induction cs with
  | nil => rfl
  | cons c cs ih =>
    rw [List.flatMap_cons, List.append_assoc, codePoints_escaped, ih]
    rfl

/-- No character is half of a surrogate pair. -/
theorem not_surrogate (c : Char) : isHigh c.toNat = false ∧ isLow c.toNat = false := by
  have hvalid : c.toNat < 0xD800 ∨ 0xDFFF < c.toNat ∧ c.toNat < 0x110000 := c.valid
  simp only [isHigh, isLow, Bool.and_eq_false_iff, decide_eq_false_iff_not]
  omega

theorem characters_map_toNat (cs : List Char) : characters (cs.map Char.toNat) = some cs := by
  induction cs with
  | nil => rfl
  | cons c cs ih =>
    obtain ⟨hhigh, hlow⟩ := not_surrogate c
    cases cs with
    | nil => simp [characters, hhigh, hlow]
    | cons d ds =>
      rw [List.map_cons] at ih
      simp [characters, hhigh, hlow, ih]

/-! ### Numbers -/

theorem isPlain_of_isDigit {c : Char} (h : c.isDigit = true) : isPlain c = true := by
  have hne : ∀ d : Char, d.isDigit = false → c ≠ d := by
    rintro d hd rfl
    rw [h] at hd
    cases hd
  simp (disch := decide) [isPlain, isSpace, isMark, hne]

/-- What is left of some characters after plain ones. -/
def PlainBefore (cs rest : List Char) : Prop := ∃ part, cs = part ++ rest ∧ ∀ c ∈ part, isPlain c = true

theorem PlainBefore.refl (cs : List Char) : PlainBefore cs cs := ⟨[], rfl, by simp⟩

theorem PlainBefore.cons {c : Char} {cs rest : List Char} (hc : isPlain c = true) (h : PlainBefore cs rest) :
    PlainBefore (c :: cs) rest := by
  obtain ⟨part, rfl, hpart⟩ := h
  exact ⟨c :: part, rfl, List.forall_mem_cons.2 ⟨hc, hpart⟩⟩

theorem PlainBefore.trans {cs rest rest' : List Char} (h : PlainBefore cs rest) (h' : PlainBefore rest rest') :
    PlainBefore cs rest' := by
  obtain ⟨part, rfl, hpart⟩ := h
  obtain ⟨part', rfl, hpart'⟩ := h'
  exact ⟨part ++ part', (List.append_assoc ..).symm, List.forall_mem_append.2 ⟨hpart, hpart'⟩⟩

theorem plainBefore_dropWhile (cs : List Char) : PlainBefore cs (cs.dropWhile Char.isDigit) :=
  ⟨cs.takeWhile Char.isDigit, List.takeWhile_append_dropWhile.symm,
    fun _ h => isPlain_of_isDigit (List.mem_takeWhile_imp h)⟩

theorem plainBefore_of_someDigits? {cs rest : List Char} (h : someDigits? cs = some rest) : PlainBefore cs rest := by
  unfold someDigits? at h
  split at h
  · split at h
    · rename_i hc
      obtain rfl := Option.some.inj h
      exact .cons (isPlain_of_isDigit hc) (plainBefore_dropWhile _)
    · cases h
  · cases h

theorem plainBefore_of_wholePart? {cs rest : List Char} (h : wholePart? cs = some rest) : PlainBefore cs rest := by
  unfold wholePart? at h
  split at h
  · obtain rfl := Option.some.inj h
    exact .cons (by decide) (.refl _)
  · exact plainBefore_of_someDigits? h
  · cases h

theorem plainBefore_of_fractionPart? {cs rest : List Char} (h : fractionPart? cs = some rest) :
    PlainBefore cs rest := by
  unfold fractionPart? at h
  split at h
  · exact .cons (by decide) (plainBefore_of_someDigits? h)
  · obtain rfl := Option.some.inj h
    exact .refl _

theorem plainBefore_of_exponentPart? {cs rest : List Char} (h : exponentPart? cs = some rest) :
    PlainBefore cs rest := by
  unfold exponentPart? at h
  split at h
  · rename_i c _
    split at h
    · rename_i he
      have hplain : isPlain c = true := by
        obtain rfl | rfl := he
        · decide
        · decide
      split at h
      · exact .cons hplain (.cons (by decide) (plainBefore_of_someDigits? h))
      · exact .cons hplain (.cons (by decide) (plainBefore_of_someDigits? h))
      · exact .cons hplain (plainBefore_of_someDigits? h)
    · obtain rfl := Option.some.inj h
      exact .refl _
  · obtain rfl := Option.some.inj h
    exact .refl _

/-- A number consists of plain characters, and there is one at least. -/
theorem isPlain_of_isNumber {cs : List Char} (h : isNumber cs = true) : cs ≠ [] ∧ ∀ c ∈ cs, isPlain c = true := by
  have hparts : ∀ body, ((wholePart? body).bind fractionPart?).bind exponentPart? = some [] →
      PlainBefore body [] := by
    intro body hbody
    obtain ⟨rest', hrest', hexponent⟩ := Option.bind_eq_some_iff.1 hbody
    obtain ⟨rest, hwhole, hfraction⟩ := Option.bind_eq_some_iff.1 hrest'
    exact (plainBefore_of_wholePart? hwhole).trans
      ((plainBefore_of_fractionPart? hfraction).trans (plainBefore_of_exponentPart? hexponent))
  have hcs : PlainBefore cs [] := by
    unfold isNumber at h
    split at h
    · exact .cons (by decide) (hparts _ (eq_of_beq h))
    · exact hparts _ (eq_of_beq h)
  obtain ⟨part, rfl, hpart⟩ := hcs
  rw [List.append_nil] at h ⊢
  refine ⟨?_, hpart⟩
  rintro rfl
  exact absurd h (by decide)

/-! ### Tokens -/

mutual

/-- The tokens of a value. -/
def toTokens : Json → List Token
  | array [] => [.mark '[', .mark ']']
  | array (v :: vs) => .mark '[' :: toTokens v ++ itemTokens vs
  | object [] => [.mark '\x7b', .mark '\x7d']
  | object ((key, v) :: ms) => .mark '\x7b' :: .scalar (string key) :: .mark ':' :: toTokens v ++ memberTokens ms
  | v => [.scalar v]

/-- The tokens of the items after the first, and of the end of the array. -/
def itemTokens : List Json → List Token
  | [] => [.mark ']']
  | v :: vs => .mark ',' :: toTokens v ++ itemTokens vs

/-- The tokens of the members after the first, and of the end of the object. -/
def memberTokens : List (Option String × Json) → List Token
  | [] => [.mark '\x7d']
  | (key, v) :: ms => .mark ',' :: .scalar (string key) :: .mark ':' :: toTokens v ++ memberTokens ms

end

mutual

/-- Whether every number is written as one. -/
def numeric : Json → Bool
  | number literal => isNumber literal.toList
  | array items => numericItems items
  | object members => numericMembers members
  | _ => true

def numericItems : List Json → Bool
  | [] => true
  | v :: vs => numeric v && numericItems vs

def numericMembers : List (Option String × Json) → Bool
  | [] => true
  | (_, v) :: ms => numeric v && numericMembers ms

end

theorem tokens_mark {c : Char} (h : isMark c = true) (rest : List Char) :
    tokens (c :: rest) = (tokens rest).map (.mark c :: ·) := by
  have hmarks : ∀ d ∈ ['[', ']', '\x7b', '\x7d', ':', ','], isSpace d = false := by simp [isSpace]
  have hspace : isSpace c = false := hmarks c (List.contains_iff_mem.1 h)
  rw [tokens, hspace, if_neg Bool.false_ne_true, if_pos h]

theorem tokens_quoted (content : Option String) (rest : List Char) :
    tokens (quoted content ++ rest) = (tokens rest).map (.scalar (.string content) :: ·) := by
  have hstring : ∀ cs ns, codePoints cs = some (ns, rest) → (characters ns).map String.ofList = content →
      tokens ('"' :: cs) = (tokens rest).map (.scalar (.string content) :: ·) := by
    rintro cs ns hcs rfl
    have hspace : isSpace '"' = false := by decide
    have hmark : isMark '"' = false := by decide
    rw [tokens, hspace, hmark, if_neg Bool.false_ne_true, if_neg Bool.false_ne_true, if_pos rfl]
    split
    · rename_i hread
      rw [hcs] at hread
      obtain ⟨rfl, rfl⟩ := Prod.mk.inj (Option.some.inj hread)
      rfl
    · rename_i hread
      rw [hcs] at hread
      cases hread
  cases content with
  | none => exact hstring _ [0xD800] rfl rfl
  | some s =>
    have hread := codePoints_flatMap_escaped s.toList rest
    rw [quoted, List.append_assoc, List.cons_append]
    refine hstring _ _ hread ?_
    rw [characters_map_toNat, Option.map_some, String.ofList_toList]

/-- Nothing, or something that is not plain. -/
def Stops (rest : List Char) : Prop := ∀ c ∈ rest.head?, isPlain c = false

theorem stops_nil : Stops [] := fun _ h => by cases h

theorem stops_cons {c : Char} (h : isPlain c = false) (cs : List Char) : Stops (c :: cs) := by
  intro d hd
  obtain rfl := Option.some.inj hd
  exact h

theorem tokens_plain {cs : List Char} {v : Json} (hne : cs ≠ []) (hplain : cs.all isPlain = true)
    (hv : plainValue? cs = some v) {rest : List Char} (hrest : Stops rest) :
    tokens (cs ++ rest) = (tokens rest).map (.scalar v :: ·) := by
  obtain ⟨c, cs, rfl⟩ := List.exists_cons_of_ne_nil hne
  obtain ⟨hc, hcs⟩ := List.forall_mem_cons.1 (List.all_eq_true.1 hplain)
  have hends : rest.takeWhile isPlain = [] ∧ rest.dropWhile isPlain = rest := by
    cases rest with
    | nil => exact ⟨rfl, rfl⟩
    | cons d ds =>
      have hd : ¬ isPlain d = true := by simp [hrest d (by simp)]
      exact ⟨List.takeWhile_cons_of_neg hd, List.dropWhile_cons_of_neg hd⟩
  have htake : (cs ++ rest).takeWhile isPlain = cs := by
    rw [List.takeWhile_append_of_pos hcs, hends.1, List.append_nil]
  have hdrop : (cs ++ rest).dropWhile isPlain = rest := by
    rw [List.dropWhile_append_of_pos hcs, hends.2]
  simp only [isPlain, Bool.and_eq_true, Bool.not_eq_true', bne_iff_ne] at hc
  rw [List.cons_append, tokens, hc.1.1, hc.1.2, if_neg Bool.false_ne_true, if_neg Bool.false_ne_true, if_neg hc.2,
    htake, hdrop, hv]

theorem plainValue?_of_isNumber {literal : String} (h : isNumber literal.toList = true) :
    plainValue? literal.toList = some (.number literal) := by
  unfold plainValue?
  rw [String.ofList_toList]
  split
  · exact absurd h (by decide)
  · exact absurd h (by decide)
  · exact absurd h (by decide)
  · rw [if_pos h]

theorem stops_writeItems (vs : List Json) (rest : List Char) : Stops (writeItems vs ++ rest) := by
  cases vs with
  | nil => exact stops_cons rfl rest
  | cons v vs => exact stops_cons rfl _

theorem stops_writeMembers (ms : List (Option String × Json)) (rest : List Char) :
    Stops (writeMembers ms ++ rest) := by
  cases ms with
  | nil => exact stops_cons rfl rest
  | cons m ms => exact stops_cons rfl _

mutual

theorem tokens_write : ∀ v : Json, v.numeric = true → ∀ {rest : List Char}, Stops rest →
    tokens (v.write ++ rest) = (tokens rest).map (v.toTokens ++ ·)
  | .null, _, _, hrest => tokens_plain (by decide) rfl rfl hrest
  | .bool true, _, _, hrest => tokens_plain (by decide) rfl rfl hrest
  | .bool false, _, _, hrest => tokens_plain (by decide) rfl rfl hrest
  | .number literal, hv, _, hrest => by
    obtain ⟨hne, hplain⟩ := isPlain_of_isNumber hv
    exact tokens_plain hne (List.all_eq_true.2 hplain) (plainValue?_of_isNumber hv) hrest
  | .string content, _, rest, _ => tokens_quoted content rest
  | .array [], _, rest, _ => by
    simp only [write, List.cons_append, List.nil_append]
    rw [tokens_mark (by decide), tokens_mark (by decide), Option.map_map]
    rfl
  | .array (v :: vs), h, rest, _ => by
    obtain ⟨hv, hvs⟩ := Bool.and_eq_true_iff.1 h
    simp only [write, toTokens, List.cons_append, List.append_assoc]
    rw [tokens_mark (by decide), tokens_write v hv (stops_writeItems vs rest), tokens_writeItems vs hvs rest,
      Option.map_map, Option.map_map]
    rfl
  | .object [], _, rest, _ => by
    simp only [write, List.cons_append, List.nil_append]
    rw [tokens_mark (by decide), tokens_mark (by decide), Option.map_map]
    rfl
  | .object ((key, v) :: ms), h, rest, _ => by
    obtain ⟨hv, hms⟩ := Bool.and_eq_true_iff.1 h
    simp only [write, toTokens, List.cons_append, List.append_assoc]
    rw [tokens_mark (by decide), tokens_quoted, tokens_mark (by decide), tokens_write v hv (stops_writeMembers ms rest),
      tokens_writeMembers ms hms rest]
    simp only [Option.map_map]
    rfl

theorem tokens_writeItems : ∀ vs : List Json, numericItems vs = true → ∀ rest : List Char,
    tokens (writeItems vs ++ rest) = (tokens rest).map (itemTokens vs ++ ·)
  | [], _, rest => tokens_mark (by decide) rest
  | v :: vs, h, rest => by
    obtain ⟨hv, hvs⟩ := Bool.and_eq_true_iff.1 h
    simp only [writeItems, itemTokens, List.cons_append, List.append_assoc]
    rw [tokens_mark (by decide), tokens_write v hv (stops_writeItems vs rest), tokens_writeItems vs hvs rest,
      Option.map_map, Option.map_map]
    rfl

theorem tokens_writeMembers : ∀ ms : List (Option String × Json), numericMembers ms = true → ∀ rest : List Char,
    tokens (writeMembers ms ++ rest) = (tokens rest).map (memberTokens ms ++ ·)
  | [], _, rest => tokens_mark (by decide) rest
  | (key, v) :: ms, h, rest => by
    obtain ⟨hv, hms⟩ := Bool.and_eq_true_iff.1 h
    simp only [writeMembers, memberTokens, List.cons_append, List.append_assoc]
    rw [tokens_mark (by decide), tokens_quoted, tokens_mark (by decide), tokens_write v hv (stops_writeMembers ms rest),
      tokens_writeMembers ms hms rest]
    simp only [Option.map_map]
    rfl

end

/-! ### Values -/

/-- A value is not ended before it has begun. -/
theorem foldlM_firstItem (v : Json) (stack : List Frame) :
    v.toTokens.foldlM Expected.step (.firstItem stack) =
      v.toTokens.foldlM Expected.step (.value (.array [] :: stack)) := by
  have hbegin : ∃ t ts, v.toTokens = t :: ts ∧
      Expected.step (.firstItem stack) t = Expected.step (.value (.array [] :: stack)) t := by
    match v with
    | .array [] => exact ⟨_, _, rfl, rfl⟩
    | .array (_ :: _) => exact ⟨_, _, rfl, rfl⟩
    | .object [] => exact ⟨_, _, rfl, rfl⟩
    | .object (_ :: _) => exact ⟨_, _, rfl, rfl⟩
    | .null | .bool _ | .number _ | .string _ => exact ⟨_, _, rfl, rfl⟩
  obtain ⟨t, ts, h, hstep⟩ := hbegin
  rw [h, List.foldlM_cons, List.foldlM_cons, hstep]

mutual

theorem foldlM_toTokens : ∀ (v : Json) (stack : List Frame),
    v.toTokens.foldlM Expected.step (.value stack) = some (.finished v stack)
  | .null, _ => rfl
  | .bool _, _ => rfl
  | .number _, _ => rfl
  | .string _, _ => rfl
  | .array [], _ => rfl
  | .array (v :: vs), stack => by
    show (v.toTokens ++ itemTokens vs).foldlM Expected.step (.firstItem stack) = _
    rw [List.foldlM_append, foldlM_firstItem, foldlM_toTokens v]
    exact foldlM_itemTokens vs v [] stack
  | .object [], _ => rfl
  | .object ((key, v) :: ms), stack => by
    show (v.toTokens ++ memberTokens ms).foldlM Expected.step (.value (.object [] key :: stack)) = _
    rw [List.foldlM_append, foldlM_toTokens v]
    exact foldlM_memberTokens ms v key [] stack

theorem foldlM_itemTokens : ∀ (vs : List Json) (v : Json) (items : List Json) (stack : List Frame),
    (itemTokens vs).foldlM Expected.step (.finished v (.array items :: stack)) =
      some (.finished (.array ((v :: items).reverse ++ vs)) stack)
  | [], v, items, stack => by
    rw [List.append_nil]
    rfl
  | w :: vs, v, items, stack => by
    have happend : (v :: items).reverse ++ w :: vs = (w :: v :: items).reverse ++ vs := by simp
    show (w.toTokens ++ itemTokens vs).foldlM Expected.step (.value (.array (v :: items) :: stack)) = _
    rw [List.foldlM_append, foldlM_toTokens w, happend]
    exact foldlM_itemTokens vs w (v :: items) stack

theorem foldlM_memberTokens : ∀ (ms : List (Option String × Json)) (v : Json) (key : Option String)
    (members : List (Option String × Json)) (stack : List Frame),
    (memberTokens ms).foldlM Expected.step (.finished v (.object members key :: stack)) =
      some (.finished (.object (((key, v) :: members).reverse ++ ms)) stack)
  | [], v, key, members, stack => by
    rw [List.append_nil]
    rfl
  | (key', w) :: ms, v, key, members, stack => by
    have happend : ((key, v) :: members).reverse ++ (key', w) :: ms =
        ((key', w) :: (key, v) :: members).reverse ++ ms := by simp
    show (w.toTokens ++ memberTokens ms).foldlM Expected.step (.value (.object ((key, v) :: members) key' :: stack)) = _
    rw [List.foldlM_append, foldlM_toTokens w, happend]
    exact foldlM_memberTokens ms w key' ((key, v) :: members) stack

end

/-- A value is read back from its text, if its numbers are written as numbers. -/
theorem ofText?_toText {v : Json} (h : v.numeric = true) : ofText? v.toText = some v := by
  have hwrite : tokens v.write = some v.toTokens := by
    have hend := tokens_write v h stops_nil
    rw [List.append_nil] at hend
    rw [hend, tokens, Option.map_some, List.append_nil]
  rw [ofText?, toText, String.toList_ofList, hwrite, Option.bind_some, ofTokens?, foldlM_toTokens]

end Memsift.Json
