import Memsift.Memory
import Mathlib.Data.List.Pairwise

/-!
# The ranges of a memory

The ranges of a memory are kept in ascending order of their starts.  The key facts: a range that is put in order takes
the place of the one with the same start and leaves the others (`mem_insertRange`); the range that an address is looked
up in is the one with the greatest start up to the address (`rangeAt?_eq_some`), and is missing only if all ranges start
past it (`rangeAt?_eq_none`); a write puts that range in order again, with other bytes (`store_cases`).
-/

namespace Memsift.Memory

/-- The ranges come in the order of their starts, no two of which are equal. -/
def Ascending (ranges : List (Nat × Array UInt8)) : Prop := ranges.Pairwise fun r r' => r.1 < r'.1

variable {m : Memory} {ranges : List (Nat × Array UInt8)} {r r' : Nat × Array UInt8} {start start' x : Nat}
  {bytes range : Array UInt8} {address : Address}

/-! ### Putting a range in order -/

theorem mem_insertRange (h : Ascending ranges) :
    r ∈ insertRange start bytes ranges ↔ r = (start, bytes) ∨ r ∈ ranges ∧ r.1 ≠ start := by
  induction ranges with
  | nil => simp [insertRange]
  | cons first rest ih =>
    obtain ⟨s, b⟩ := first
    obtain ⟨hfirst, hrest⟩ := List.pairwise_cons.1 h
    have hne : start ≤ s → ∀ r ∈ rest, r.1 ≠ start := by
      intro hle r hr
      have : s < r.1 := hfirst r hr
      omega
    unfold insertRange
    split
    · rename_i hbefore
      have hold : ∀ r ∈ (s, b) :: rest, r.1 ≠ start :=
        List.forall_mem_cons.2 ⟨Nat.ne_of_gt hbefore, hne (Nat.le_of_lt hbefore)⟩
      rw [List.mem_cons]
      exact or_congr_right ⟨fun hr => ⟨hr, hold r hr⟩, And.left⟩
    · split
      · rename_i hsame
        subst hsame
        rw [List.mem_cons, List.mem_cons]
        constructor
        · rintro (hr | hr)
          · exact .inl hr
          · exact .inr ⟨.inr hr, hne (Nat.le_refl _) r hr⟩
        · rintro (hr | ⟨rfl | hr, hstart⟩)
          · exact .inl hr
          · exact absurd rfl hstart
          · exact .inr hr
      · rename_i hbefore hsame
        rw [List.mem_cons, List.mem_cons, ih hrest]
        constructor
        · rintro (rfl | hr | ⟨hr, hstart⟩)
          · exact .inr ⟨.inl rfl, fun hs => hsame hs.symm⟩
          · exact .inl hr
          · exact .inr ⟨.inr hr, hstart⟩
        · rintro (hr | ⟨hr | hr, hstart⟩)
          · exact .inr (.inl hr)
          · exact .inl hr
          · exact .inr (.inr ⟨hr, hstart⟩)

theorem mk_mem_insertRange (h : Ascending ranges) :
    (start', range) ∈ insertRange start bytes ranges ↔
      (start' = start ∧ range = bytes) ∨ (start', range) ∈ ranges ∧ start' ≠ start := by
  rw [mem_insertRange h, Prod.mk.injEq]

theorem ascending_insertRange (h : Ascending ranges) (start : Nat) (bytes : Array UInt8) :
    Ascending (insertRange start bytes ranges) := by
  induction ranges with
  | nil => exact List.pairwise_singleton _ _
  | cons first rest ih =>
    obtain ⟨s, b⟩ := first
    obtain ⟨hfirst, hrest⟩ := List.pairwise_cons.1 h
    unfold insertRange
    split
    · rename_i hbefore
      refine List.pairwise_cons.2 ⟨List.forall_mem_cons.2 ⟨hbefore, ?_⟩, h⟩
      intro r hr
      exact Nat.lt_trans hbefore (hfirst r hr)
    · split
      · rename_i hsame
        subst hsame
        exact List.pairwise_cons.2 ⟨hfirst, hrest⟩
      · rename_i hbefore hsame
        refine List.pairwise_cons.2 ⟨?_, ih hrest⟩
        intro r hr
        rcases (mem_insertRange hrest).1 hr with rfl | ⟨hr, _⟩
        · exact Nat.lt_of_le_of_ne (Nat.le_of_not_lt hbefore) fun hs => hsame hs.symm
        · exact hfirst r hr

theorem Ascending.eq_of_start_eq (h : Ascending ranges) (hr : r ∈ ranges) (hr' : r' ∈ ranges) (hstart : r.1 = r'.1) :
    r = r' := by
  have hsymm : Std.Symm fun r r' : Nat × Array UInt8 => r.1 = r'.1 → r = r' := ⟨fun _ _ h heq => (h heq.symm).symm⟩
  have hall : ranges.Pairwise fun r r' => r.1 = r'.1 → r = r' :=
    List.Pairwise.imp (fun hlt heq => absurd heq (Nat.ne_of_lt hlt)) h
  exact hall.forall_of_forall (fun _ _ _ => rfl) hr hr' hstart

/-! ### Looking up -/

theorem mem_takeWhile_iff (h : Ascending ranges) : r ∈ ranges.takeWhile (·.1 ≤ x) ↔ r ∈ ranges ∧ r.1 ≤ x := by
  induction ranges with
  | nil => simp
  | cons first rest ih =>
    obtain ⟨hfirst, hrest⟩ := List.pairwise_cons.1 h
    by_cases hle : first.1 ≤ x
    · rw [List.takeWhile_cons_of_pos (by simpa using hle), List.mem_cons, List.mem_cons, ih hrest]
      constructor
      · rintro (rfl | ⟨hr, hx⟩)
        · exact ⟨.inl rfl, hle⟩
        · exact ⟨.inr hr, hx⟩
      · rintro ⟨rfl | hr, hx⟩
        · exact .inl rfl
        · exact .inr ⟨hr, hx⟩
    · rw [List.takeWhile_cons_of_neg (by simpa using hle)]
      constructor
      · intro hr
        cases hr
      · rintro ⟨hr, hx⟩
        rcases List.mem_cons.1 hr with rfl | hr
        · exact absurd hx hle
        · have := hfirst r hr
          omega

theorem rangeAt?_eq_none (h : Ascending m.ranges) (hnone : m.rangeAt? address = none) :
    ∀ r ∈ m.ranges, address.toNat < r.1 := by
  intro r hr
  by_contra hle
  have hmem := (mem_takeWhile_iff h).2 ⟨hr, Nat.le_of_not_lt hle⟩
  rw [List.getLast?_eq_none_iff.1 hnone] at hmem
  cases hmem

theorem rangeAt?_eq_some (h : Ascending m.ranges) (hsome : m.rangeAt? address = some (start, range)) :
    (start, range) ∈ m.ranges ∧ start ≤ address.toNat ∧ ∀ r ∈ m.ranges, r.1 ≤ address.toNat → r.1 ≤ start := by
  obtain ⟨before, hbefore⟩ := List.getLast?_eq_some_iff.1 hsome
  have hmem : (start, range) ∈ m.ranges.takeWhile (·.1 ≤ address.toNat) := by
    rw [hbefore]
    exact List.mem_append_right _ (List.mem_singleton_self _)
  have hascending : Ascending (before ++ [(start, range)]) := by
    rw [← hbefore]
    exact h.sublist (List.takeWhile_sublist _)
  obtain ⟨hr, hle⟩ := (mem_takeWhile_iff h).1 hmem
  refine ⟨hr, hle, ?_⟩
  intro r hr' hle'
  have hmem' := (mem_takeWhile_iff h).2 ⟨hr', hle'⟩
  rw [hbefore] at hmem'
  rcases List.mem_append.1 hmem' with hbelow | hlast
  · exact Nat.le_of_lt ((List.pairwise_append.1 hascending).2.2 r hbelow _ (List.mem_singleton_self _))
  · exact Nat.le_of_eq (congrArg Prod.fst (List.mem_singleton.1 hlast))

/-! ### Writing -/

/-- A range with other bytes from an offset on. -/
def overwrite (range : Array UInt8) (offset : Nat) (bytes : Array UInt8) : Array UInt8 :=
  range.extract 0 offset ++ bytes ++ range.extract (offset + bytes.size) range.size

theorem size_overwrite {offset : Nat} (h : offset + bytes.size ≤ range.size) :
    (overwrite range offset bytes).size = range.size := by
  simp only [overwrite, Array.size_append, Array.size_extract]
  omega

theorem getElem?_overwrite {offset : Nat} (h : offset + bytes.size ≤ range.size) (k : Nat) :
    (overwrite range offset bytes)[k]? =
      if offset ≤ k ∧ k < offset + bytes.size then bytes[k - offset]? else range[k]? := by
  have hbefore : (range.extract 0 offset).size = offset := by
    rw [Array.size_extract]
    omega
  have hmiddle : (range.extract 0 offset ++ bytes).size = offset + bytes.size := by
    rw [Array.size_append, hbefore]
  unfold overwrite
  by_cases hk : k < offset + bytes.size
  · rw [Array.getElem?_append_left (by omega)]
    by_cases hle : offset ≤ k
    · rw [if_pos ⟨hle, hk⟩, Array.getElem?_append_right (by omega), hbefore]
    · rw [if_neg (by omega), Array.getElem?_append_left (by omega), Array.getElem?_extract, if_pos (by omega),
        Nat.zero_add]
  · rw [if_neg (by omega), Array.getElem?_append_right (by omega), hmiddle, Array.getElem?_extract]
    split
    · rw [Nat.add_sub_cancel' (by omega)]
    · rw [Array.getElem?_eq_none (by omega)]

/-- A write changes the range that its address is looked up in if that range has room for all that is written; else
it is refused, and the memory is as it was. -/
theorem store_cases (m : Memory) (address : Address) (bytes : Array UInt8) :
    (∃ start range, m.rangeAt? address = some (start, range) ∧ address.toNat - start + bytes.size ≤ range.size ∧
      m.store address bytes =
        (.ok (), ⟨insertRange start (overwrite range (address.toNat - start) bytes) m.ranges⟩)) ∨
    (m.store address bytes = (.error (.invalidAddress address.upper), m) ∧
      ∀ start range, m.rangeAt? address = some (start, range) →
        ¬ address.toNat - start + bytes.size ≤ range.size) := by
  cases hrange : m.rangeAt? address with
  | none => exact .inr ⟨by simp only [store, hrange], by simp⟩
  | some r =>
    obtain ⟨start, range⟩ := r
    by_cases hfits : address.toNat - start + bytes.size ≤ range.size
    · exact .inl ⟨start, range, rfl, hfits, by simp only [store, hrange, if_pos hfits, overwrite]⟩
    · refine .inr ⟨by simp only [store, hrange, if_neg hfits], ?_⟩
      intro start' range' hsome
      cases hsome
      exact hfits

theorem store_of_write_eq_ok (h : m.write address bytes = .ok m') : m.store address bytes = (.ok (), m') := by
  obtain ⟨_, _, _, _, hdone⟩ | ⟨hrefused, _⟩ := store_cases m address bytes
  · rw [write, hdone] at h
    rw [hdone, ← Except.ok.inj h]
  · rw [write, hrefused] at h
    cases h

theorem store_of_not_written (h : ¬ ∃ m', m.write address bytes = .ok m') :
    m.store address bytes = (.error (.invalidAddress address.upper), m) := by
  obtain ⟨_, _, _, _, hdone⟩ | ⟨hrefused, _⟩ := store_cases m address bytes
  · exact absurd ⟨_, by rw [write, hdone]; rfl⟩ h
  · exact hrefused

end Memsift.Memory
