import Memsift.Memory
import Memsift.Proofs.Refreshed
import Memsift.Proofs.WordBytes

/-!
# Changes between two collections

After two collections the previous values are what the first one read, and the current values are what the second one
read.  The key facts: an integer is unchanged if and only if all its bytes are (`unchanged_iff`), and so a scan after
two collections tells the elements at which the two images of memory differ from those at which they agree
(`collect_collect_scan`).
-/

namespace Memsift
namespace Snapshot

variable {s once twice : Snapshot} {group : ReadGroup} {r : Region} {x : Nat × Nat} {t : NumberType}
  {order : ByteOrder} {image₁ image₂ : Nat → Array UInt8} {alignment : Nat}

/-- Two images of memory differ in a byte of an element. -/
def DifferAt (image₁ image₂ : Nat → Array UInt8) (size : Nat) (x : Nat × Nat) : Prop :=
  ∃ k < size, (image₁ x.1)[x.2 + k]? ≠ (image₂ x.1)[x.2 + k]?

instance (image₁ image₂ : Nat → Array UInt8) (size : Nat) : DecidablePred (DifferAt image₁ image₂ size) :=
  fun x => inferInstanceAs (Decidable (∃ k < size, (image₁ x.1)[x.2 + k]? ≠ (image₂ x.1)[x.2 + k]?))

theorem satisfies_leaf (hgroup : s.groups[x.1]? = some group) {kind : ConstraintKind}
    (hkind : kind.requiresValue = false) (value : Option ScanValue) :
    s.satisfies (.leaf kind value) t order x =
      Word.evaluate t kind (group.currentWord t order x.2) (group.previousWord t order x.2) (Word.zero t) := by
  have hoperand : kind.operand? t value = some (Word.zero t) := if_neg (by simp [hkind])
  rw [satisfies, hgroup, Option.any_some, ReadGroup.satisfies, Constraint.meaning?, hoperand, Option.map_some]
  cases Word.evaluate t kind (group.currentWord t order x.2) (group.previousWord t order x.2) (Word.zero t) <;> rfl

/-- A scan for a comparison that takes no value finds the aligned elements that satisfy it. -/
theorem exists_scansTo_leaf (hs : s.Valid) (settings : ScanSettings) {type : DataType}
    (htype : type.valueType = .number t) (kind : ConstraintKind) (hkind : kind.requiresValue = false)
    (value : Option ScanValue) :
    ∃ result, s.ScansTo settings (.leaf kind value) type result ∧
      result.elements.Perm ((s.regions.flatMap
        (s.alignedElements (settings.alignment.resolve t.size) t.size)).filter
          (s.satisfies (.leaf kind value) t type.byteOrder)) := by
  have hcomplete : (Constraint.leaf kind value).Complete := .leaf (by simp [hkind])
  have htree : PredicateTree.ofConstraint t (.leaf kind value) = .ok (.leaf kind (Word.zero t)) := by
    rw [PredicateTree.ofConstraint_leaf, if_neg (by simp [hkind])]
  obtain ⟨p, hp, hsize⟩ : ∃ p, Predicate.prepare (.leaf kind value) t type.byteOrder = .ok p ∧
      p.type.size = t.size := by
    rw [Predicate.prepare, htree]
    exact ⟨_, rfl, rfl⟩
  have hcompile : Predicate.compile (.leaf kind value) type = .ok p :=
    Predicate.compile_eq_ok_iff.2 ⟨(Constraint.validate_eq_ok_iff _).2 hcomplete, t, htype, hp⟩
  obtain ⟨result, hscan, hresult⟩ := exists_scansTo hs settings hcompile
  have hperm := hresult.elements_perm hs hp
  rw [hsize] at hperm
  exact ⟨result, hscan, hperm⟩

theorem exists_group_of_mem_alignedElements (hs : s.Valid) (hr : r ∈ s.regions)
    (hx : x ∈ s.alignedElements alignment t.size r) :
    ∃ group, s.groups[x.1]? = some group ∧ x.2 + t.size ≤ group.size := by
  obtain ⟨group, hgroup, hin⟩ := hs.inside r hr
  rw [alignedElements_eq hgroup] at hx
  obtain ⟨o, ho, rfl⟩ := List.mem_map.1 hx
  have hfit := (Region.mem_alignedStarts.1 ho).2.2.1
  exact ⟨group, hgroup, by omega⟩

section Twice

variable (hs : s.Valid) (h₁ : s.RefreshedTo image₁ once) (h₂ : once.RefreshedTo image₂ twice)
include hs h₁ h₂

/-- The current values around an element are those of the second image, and the previous ones those of the first. -/
theorem exists_group_of_refreshed (hr : r ∈ s.regions) (hx : x ∈ s.alignedElements alignment t.size r) :
    ∃ group, twice.groups[x.1]? = some group ∧ x.2 + t.size ≤ group.size ∧ group.current = image₂ x.1 ∧
      group.previous = image₁ x.1 := by
  have hS := t.size_pos
  obtain ⟨g, hg, hfit⟩ := exists_group_of_mem_alignedElements hs hr hx
  obtain ⟨g₁, hg₁, _, hsize₁, _, hcurrent₁⟩ := h₁.groups _ g hg
  obtain ⟨g₂, hg₂, _, hsize₂, hprevious₂, hcurrent₂⟩ := h₂.groups _ g₁ hg₁
  have hpos : 0 < g.size := by omega
  refine ⟨g₂, hg₂, by omega, hcurrent₂ (by omega), ?_⟩
  rw [hprevious₂, hcurrent₁ hpos]

theorem unchanged_iff (order : ByteOrder) (ht : t.isFloat = false) (hr : r ∈ s.regions)
    (hx : x ∈ s.alignedElements alignment t.size r) :
    ∃ group, twice.groups[x.1]? = some group ∧
      (Word.close t (group.currentWord t order x.2) (group.previousWord t order x.2) = true ↔
        ¬ DifferAt image₁ image₂ t.size x) := by
  obtain ⟨group, hgroup, hfit, hcurrent, hprevious⟩ := exists_group_of_refreshed hs h₁ h₂ hr hx
  have hfit' : x.2 + t.size ≤ group.previous.size := by
    rw [group.previous_size]
    exact hfit
  have hread : group.previousWord t order x.2 = group.currentWord t order x.2 ↔
      ∀ k < t.size, group.previous[x.2 + k]? = group.current[x.2 + k]? := read_bytesAt_eq_iff hfit' hfit
  refine ⟨group, hgroup, ?_⟩
  rw [Word.close_eq_beq ht, beq_iff_eq, eq_comm, hread, hcurrent, hprevious, DifferAt]
  simp only [not_exists, not_and, ne_eq, not_not]

theorem satisfies_changed (ht : t.isFloat = false) (value : Option ScanValue) (hr : r ∈ s.regions)
    (hx : x ∈ s.alignedElements alignment t.size r) :
    twice.satisfies (.leaf .changed value) t order x = decide (DifferAt image₁ image₂ t.size x) := by
  obtain ⟨group, hgroup, hunchanged⟩ := unchanged_iff hs h₁ h₂ order ht hr hx
  rw [satisfies_leaf hgroup rfl, Word.evaluate, Bool.eq_iff_iff, Bool.not_eq_true', ← Bool.not_eq_true, hunchanged,
    not_not, decide_eq_true_eq]

theorem satisfies_unchanged (ht : t.isFloat = false) (value : Option ScanValue) (hr : r ∈ s.regions)
    (hx : x ∈ s.alignedElements alignment t.size r) :
    twice.satisfies (.leaf .unchanged value) t order x = decide (¬ DifferAt image₁ image₂ t.size x) := by
  obtain ⟨group, hgroup, hunchanged⟩ := unchanged_iff hs h₁ h₂ order ht hr hx
  rw [satisfies_leaf hgroup rfl, Word.evaluate, Bool.eq_iff_iff, hunchanged, decide_eq_true_eq]

end Twice

/-- If all groups can be read twice, a scan for changes that follows finds the aligned integers at which the two
images of memory differ, and a scan for what is unchanged all others. -/
theorem collect_collect_scan (hs : s.Valid) {type : DataType} (htype : type.valueType = .number t)
    (ht : t.isFloat = false) {reader₁ reader₂ : Reader} (hread₁ : s.Delivers reader₁ image₁)
    (hread₂ : s.Delivers reader₂ image₂) (settings₁ settings₂ settings : ScanSettings)
    (value₁ value₂ : Option ScanValue) :
    ∃ once twice changed unchanged : Snapshot,
      s.CollectsTo settings₁ reader₁ once ∧ once.CollectsTo settings₂ reader₂ twice ∧
      twice.ScansTo settings (.leaf .changed value₁) type changed ∧
      twice.ScansTo settings (.leaf .unchanged value₂) type unchanged ∧
      let elements := s.regions.flatMap (s.alignedElements (settings.alignment.resolve t.size) t.size)
      changed.elements.Perm (elements.filter (DifferAt image₁ image₂ t.size)) ∧
      unchanged.elements.Perm (elements.filter (¬ DifferAt image₁ image₂ t.size ·)) := by
  obtain ⟨once, honce, h₁⟩ := exists_collectsTo hread₁ settings₁
  obtain ⟨twice, htwice, h₂⟩ := exists_collectsTo (h₁.delivers hread₂) settings₂
  have hvalid := h₂.valid (h₁.valid hs)
  have hsame := fun alignment => (h₂.flatMap_alignedElements alignment t.size).trans
    (h₁.flatMap_alignedElements alignment t.size)
  obtain ⟨changed, hchanged, hperm⟩ := exists_scansTo_leaf hvalid settings htype .changed rfl value₁
  obtain ⟨unchanged, hunchanged, hperm'⟩ := exists_scansTo_leaf hvalid settings htype .unchanged rfl value₂
  rw [hsame] at hperm hperm'
  refine ⟨once, twice, changed, unchanged, honce, htwice, hchanged, hunchanged, ?_, ?_⟩
  · refine hperm.trans (.of_eq (List.filter_congr ?_))
    intro x hx
    obtain ⟨r, hr, hx⟩ := List.mem_flatMap.1 hx
    exact satisfies_changed hs h₁ h₂ ht value₁ hr hx
  · refine hperm'.trans (.of_eq (List.filter_congr ?_))
    intro x hx
    obtain ⟨r, hr, hx⟩ := List.mem_flatMap.1 hx
    exact satisfies_unchanged hs h₁ h₂ ht value₂ hr hx

/-- Of two integers at even addresses the second one changes in its high byte; the byte before the first one, which
changes as well, belongs to neither. -/
theorem collect_collect_scan_odd_base :
    let s := ofRanges "live" [(⟨0x1001⟩, 6), (⟨0x1800⟩, 0)]
    let first : Memory := ⟨[(0x1001, #[1, 2, 3, 4, 5, 6])]⟩
    let second : Memory := ⟨[(0x1001, #[9, 2, 3, 7, 5, 6])]⟩
    let type : DataType := ⟨.number (.signed .two), .big⟩
    s.Valid ∧ ∃ once twice changed unchanged : Snapshot,
      s.CollectsTo {} first.read once ∧ once.CollectsTo {} second.read twice ∧
      twice.ScansTo {} (.leaf .changed none) type changed ∧ twice.ScansTo {} (.leaf .unchanged none) type unchanged ∧
      changed.elements = [(0, 3)] ∧ unchanged.elements = [(0, 1)] := by
  intro s first second type
  let image₁ : Nat → Array UInt8 := fun _ => #[1, 2, 3, 4, 5, 6]
  let image₂ : Nat → Array UInt8 := fun _ => #[9, 2, 3, 7, 5, 6]
  have hs : s.Valid := by decide
  have htype : type.valueType = .number (.signed .two) := rfl
  have hint : (NumberType.signed .two).isFloat = false := rfl
  have hdelivers : ∀ (memory : Memory) (image : Nat → Array UInt8),
      (ReadGroup.zeros ⟨0x1001⟩ 6).Filled memory.read (image 0) → s.Delivers memory.read image := by
    intro memory image hfilled i g hg hpos
    match i, hg with
    | 0, hg =>
      obtain rfl := Option.some.inj hg
      exact hfilled
    | 1, hg =>
      obtain rfl := Option.some.inj hg
      exact absurd hpos (by decide)
  have hread₁ : s.Delivers first.read image₁ := hdelivers first image₁ ⟨⟨image₁ 0, rfl⟩, rfl, by decide +kernel⟩
  have hread₂ : s.Delivers second.read image₂ := hdelivers second image₂ ⟨⟨image₂ 0, rfl⟩, rfl, by decide +kernel⟩
  obtain ⟨once, twice, changed, unchanged, honce, htwice, hchanged, hunchanged, hperm, hperm'⟩ :=
    collect_collect_scan hs htype hint hread₁ hread₂ {} {} {} none none
  have hdiffer : (s.regions.flatMap (s.alignedElements 2 2)).filter (DifferAt image₁ image₂ 2) = [(0, 3)] := by
    decide +kernel
  have hagree : (s.regions.flatMap (s.alignedElements 2 2)).filter (¬ DifferAt image₁ image₂ 2 ·) = [(0, 1)] := by
    decide +kernel
  have helements : changed.elements.Perm [(0, 3)] := hperm.trans (.of_eq hdiffer)
  have helements' : unchanged.elements.Perm [(0, 1)] := hperm'.trans (.of_eq hagree)
  exact ⟨hs, once, twice, changed, unchanged, honce, htwice, hchanged, hunchanged, List.perm_singleton.1 helements,
    List.perm_singleton.1 helements'⟩

end Snapshot
end Memsift
