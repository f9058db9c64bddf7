import Memsift.Proofs.Results

/-!
# Successive scans

Scanning the result of a scan.  The key facts: a span of aligned elements has exactly these as its aligned elements
(`alignedStarts_ofRun`), so scanning the spans of a region once more finds the spans of the elements that satisfy both
constraints (`flatMap_matchingSpans`), even where spans share bytes; hence scanning a result finds what one scan for
both constraints finds (`ResultOf.flatMap_regions_perm`).
-/

namespace Memsift

namespace Region

variable {r : Region} {base : Address} {alignment elementSize : Nat}

theorem onGrid_alignedStarts (r : Region) (base : Address) (hA : alignment ∣ UInt64.size) (elementSize : Nat) :
    OnGrid alignment (r.alignedStarts base alignment elementSize) := by
  refine (r.pairwise_alignedStarts base alignment elementSize).imp_of_mem ?_
  intro a b ha hb hab
  have hdvd := Nat.dvd_sub (dvd_of_mem_alignedStarts hA hb) (dvd_of_mem_alignedStarts hA ha)
  rw [Nat.add_sub_add_left] at hdvd
  exact ⟨hab, hdvd⟩

/-- All elements of a region that begins at an aligned address are aligned, and there are no others. -/
theorem alignedStarts_eq_starts (hA : alignment ∣ UInt64.size) (hS : 0 < elementSize)
    (h : alignment ∣ base.toNat + r.offset) :
    r.alignedStarts base alignment elementSize = r.starts alignment elementSize := by
  have hpos : 0 < alignment := Nat.pos_of_dvd_of_pos hA (by decide)
  apply (r.pairwise_alignedStarts ..).eq_of_mem_iff (pairwise_starts r elementSize hpos)
  intro o
  rw [mem_alignedStarts, mem_starts hpos hS, ← Nat.dvd_iff_mod_eq_zero, Nat.dvd_mod_iff hA]
  constructor
  · rintro ⟨_, hle, hfit, haligned⟩
    have hdvd := Nat.dvd_sub haligned h
    rw [Nat.add_sub_add_left] at hdvd
    exact ⟨hle, hdvd, hfit⟩
  · rintro ⟨hle, hdvd, hfit⟩
    have hsum := Nat.dvd_add h hdvd
    rw [Nat.add_assoc, Nat.add_sub_of_le hle] at hsum
    exact ⟨by omega, hle, hfit, hsum⟩

theorem alignedStarts_ofRun (hA : alignment ∣ UInt64.size) (hS : 0 < elementSize) {run : List Nat} (hne : run ≠ [])
    (hrun : run.IsChain fun a b => (b == a + alignment) = true) (readGroup : Nat)
    (h : ∀ o ∈ run, alignment ∣ base.toNat + o) :
    (ofRun readGroup elementSize run).alignedStarts base alignment elementSize = run := by
  have hpos : 0 < alignment := Nat.pos_of_dvd_of_pos hA (by decide)
  obtain ⟨a, rest, rfl⟩ := List.exists_cons_of_ne_nil hne
  rw [alignedStarts_eq_starts hA hS (h a List.mem_cons_self), starts_ofRun hpos hS hne hrun]

end Region

namespace Predicate

variable {c₁ c₂ : Constraint} {type : DataType} {p₁ p₂ : Predicate}

/-- An operation can be compiled if its operands can, and joins their answers. -/
theorem compile_operation (op : Connective) (h₁ : compile c₁ type = .ok p₁) (h₂ : compile c₂ type = .ok p₂) :
    ∃ p, compile (.operation op (some c₁) (some c₂)) type = .ok p ∧ p₁.type = p.type ∧ p₂.type = p.type ∧
      ∀ current previous, p.holds current previous =
        op.apply (p₁.holds current previous) (p₂.holds current previous) := by
  obtain ⟨hvalid₁, t, htype, hp₁⟩ := compile_eq_ok_iff.1 h₁
  obtain ⟨hvalid₂, t', htype', hp₂⟩ := compile_eq_ok_iff.1 h₂
  obtain rfl : t' = t := ValueType.number.inj (htype'.symm.trans htype)
  obtain ⟨tree₁, htree₁, rfl⟩ := prepare_eq_ok hp₁
  obtain ⟨tree₂, htree₂, rfl⟩ := prepare_eq_ok hp₂
  let both : Constraint := .operation op (some c₁) (some c₂)
  have htree : PredicateTree.ofConstraint t' both = .ok (.operation op tree₁ tree₂) := by
    rw [PredicateTree.ofConstraint, htree₁, htree₂]
    rfl
  refine ⟨⟨t', type.byteOrder, both.requiresPrevious, .operation op tree₁ tree₂⟩,
    compile_eq_ok_iff.2 ⟨?_, t', htype, ?_⟩, rfl, rfl, ?_⟩
  · rw [Constraint.validate_operation, hvalid₁]
    exact hvalid₂
  · rw [prepare, htree]
    rfl
  · intro current previous
    rw [holds_eq_eval htree₁, holds_eq_eval htree₂, ← PredicateTree.eval_operation]
    exact holds_eq_eval htree current previous

end Predicate

namespace Snapshot

variable {s t : Snapshot} {r r' : Region} {group : ReadGroup} {p p₁ p₂ : Predicate} {alignment : Nat}

/-- The spans of what satisfies one constraint hold, of what satisfies another one, the spans of what satisfies both. -/
theorem flatMap_matchingSpans (hgroup : s.groups[r.readGroup]? = some group) (hA : alignment ∣ UInt64.size)
    (htype₁ : p₁.type = p.type) (htype₂ : p₂.type = p.type)
    (hp : ∀ current previous, p.holds current previous = (p₁.holds current previous && p₂.holds current previous)) :
    (s.matchingSpans p₁ alignment r).flatMap (s.matchingSpans p₂ alignment) = s.matchingSpans p alignment r := by
  have hS := p.type.size_pos
  let holds (p' : Predicate) (o : Nat) : Bool :=
    p'.holds (bytesAt group.current o p.type.size) (bytesAt group.previous o p.type.size)
  let aligned := r.alignedStarts group.base alignment p.type.size
  let first := aligned.filter (holds p₁)
  have hspans : ∀ run ∈ first.splitBy fun a b => b == a + alignment,
      s.matchingSpans p₂ alignment (Region.ofRun r.readGroup p.type.size run) =
        spans r.readGroup alignment p.type.size (run.filter (holds p₂)) := by
    intro run hrun
    have hmem : ∀ o ∈ run, o ∈ first := by
      intro o ho
      rw [← List.flatten_splitBy (fun a b => b == a + alignment) first]
      exact List.mem_flatten.2 ⟨run, hrun, ho⟩
    have hstarts := Region.alignedStarts_ofRun hA hS (List.ne_nil_of_mem_splitBy hrun)
      (List.isChain_of_mem_splitBy hrun) r.readGroup
      fun o ho => Region.dvd_of_mem_alignedStarts hA (List.mem_of_mem_filter (hmem o ho))
    rw [matchingSpans_eq (r := Region.ofRun r.readGroup p.type.size run) hgroup, htype₂, hstarts]
    rfl
  have hgrid : OnGrid alignment first := (r.onGrid_alignedStarts group.base hA p.type.size).filter _
  have hboth : first.filter (holds p₂) = aligned.filter (holds p) := by
    rw [List.filter_filter]
    apply List.filter_congr
    intro o _
    rw [Bool.and_comm]
    exact (hp _ _).symm
  rw [matchingSpans_eq hgroup, htype₁, spans_eq, List.flatMap_map, List.flatMap_congr hspans,
    ← spans_filter hgrid r.readGroup p.type.size (holds p₂), hboth, matchingSpans_eq hgroup]

/-- Snapshots with the same windows, in any order, count the same elements and bytes. -/
theorem Indexed.counts_eq (hs : s.Indexed) (ht : t.Indexed) (hA : s.alignment = t.alignment)
    (hS : s.elementSize = t.elementSize)
    (h : (s.regions.map Region.place).Perm (t.regions.map Region.place)) :
    s.elementCount = t.elementCount ∧ s.byteCount = t.byteCount := by
  have hlength : (s.regions.map (·.length)).Perm (t.regions.map (·.length)) := by
    have hmap := h.map (·.2.2)
    rwa [List.map_map, List.map_map] at hmap
  have hcounts : (s.regions.map s.countOf).Perm (t.regions.map t.countOf) := by
    have hmap := hlength.map fun n => Memsift.elementCount n s.alignment s.elementSize
    rw [List.map_map, List.map_map] at hmap
    have hcount : t.countOf = fun r => Memsift.elementCount r.length s.alignment s.elementSize := by
      funext r
      rw [countOf, hA, hS]
    rw [hcount]
    exact hmap
  rw [hs.elementCount_eq_sum, ht.elementCount_eq_sum, hs.byteCount_eq, ht.byteCount_eq]
  exact ⟨hcounts.sum_nat, hlength.sum_nat⟩

/-- Scanning a result for another constraint finds what scanning for both finds. -/
theorem ResultOf.flatMap_regions_perm (h : s.ResultOf p₁ alignment t) (hs : s.Valid) (hA : alignment ∣ UInt64.size)
    (htype₁ : p₁.type = p.type) (htype₂ : p₂.type = p.type)
    (hp : ∀ current previous, p.holds current previous = (p₁.holds current previous && p₂.holds current previous)) :
    (t.regions.flatMap (t.matchingSpans p₂ alignment)).Perm (s.regions.flatMap (s.matchingSpans p alignment)) := by
  have hsame : t.matchingSpans p₂ alignment = s.matchingSpans p₂ alignment := by
    funext r
    simp only [matchingSpans, h.groups_eq]
  have hboth : ∀ r ∈ s.regions,
      (s.matchingSpans p₁ alignment r).flatMap (s.matchingSpans p₂ alignment) = s.matchingSpans p alignment r := by
    intro r hr
    obtain ⟨group, hgroup, _⟩ := hs.inside r hr
    exact flatMap_matchingSpans hgroup hA htype₁ htype₂ hp
  rw [hsame, ← List.flatMap_congr hboth, ← List.flatMap_assoc]
  exact flatMap_perm_of_map_place_perm (fun _ _ => rfl) h.places_perm

/-- Scanning for one constraint, and then the result for another one, finds the same windows as scanning for both
constraints at once, and as many elements and bytes. -/
theorem scan_scan_perm_scan_and (hs : s.Valid) (settings : ScanSettings) {c₁ c₂ : Constraint} {type : DataType}
    (h₁ : Predicate.compile c₁ type = .ok p₁) (h₂ : Predicate.compile c₂ type = .ok p₂) :
    ∃ first second both, s.ScansTo settings c₁ type first ∧ first.ScansTo settings c₂ type second ∧
      s.ScansTo settings (.operation .and (some c₁) (some c₂)) type both ∧
      (second.regions.map Region.place).Perm (both.regions.map Region.place) ∧
      second.elementCount = both.elementCount ∧ second.byteCount = both.byteCount := by
  obtain ⟨p, hp, htype₁, htype₂, hholds⟩ := Predicate.compile_operation .and h₁ h₂
  have hdvd := settings.alignment.resolve_dvd p.type.size_mem
  obtain ⟨first, hfirst, hresult₁⟩ := exists_scansTo hs settings h₁
  obtain ⟨second, hsecond, hresult₂⟩ := exists_scansTo hresult₁.valid settings h₂
  obtain ⟨both, hboth, hresult⟩ := exists_scansTo hs settings hp
  rw [htype₁] at hresult₁
  rw [htype₂] at hresult₂
  have hregions := hresult₁.flatMap_regions_perm hs hdvd htype₁ htype₂ hholds
  have hperm : (second.regions.map Region.place).Perm (both.regions.map Region.place) :=
    hresult₂.places_perm.trans ((hregions.map _).trans hresult.places_perm.symm)
  have hcounts := hresult₂.indexed.counts_eq hresult.indexed (hresult₂.alignment_eq.trans hresult.alignment_eq.symm)
    (by rw [hresult₂.elementSize_eq, hresult.elementSize_eq, htype₂]) hperm
  exact ⟨first, second, both, hfirst, hsecond, hboth, hperm, hcounts⟩

/-- The windows of the first result share two bytes. -/
theorem scan_scan_perm_scan_and_overlapping :
    let bytes : Array UInt8 := #[1, 2, 3, 4, 5, 6, 7, 8, 9]
    let group : ReadGroup := ⟨⟨0x1003⟩, bytes, bytes, none, rfl, by simp, by decide⟩
    let s := build "start" #[group] [{ readGroup := 0, offset := 0, length := 9 }] 1 1
    let settings : ScanSettings := { alignment := .fixed .one }
    let type : DataType := ⟨.number (.unsigned .four), .little⟩
    let c₁ : Constraint := .leaf .notEqual (some (.number (.unsigned .four) 0x06050403#32))
    let c₂ : Constraint := .leaf .notEqual (some (.number (.unsigned .four) 0x08070605#32))
    s.Valid ∧ (∃ p₁, Predicate.compile c₁ type = .ok p₁) ∧ (∃ p₂, Predicate.compile c₂ type = .ok p₂) ∧
      ∃ first second both, s.ScansTo settings c₁ type first ∧ first.ScansTo settings c₂ type second ∧
        s.ScansTo settings (.operation .and (some c₁) (some c₂)) type both ∧
        (first.regions.map Region.place).Perm [(0, 0, 5), (0, 3, 6)] ∧
        (second.regions.map Region.place).Perm (both.regions.map Region.place) ∧
        (both.regions.map Region.place).Perm [(0, 0, 5), (0, 3, 4), (0, 5, 4)] ∧
        second.elementCount = both.elementCount ∧ second.byteCount = both.byteCount := by
  intro bytes group s settings type c₁ c₂
  have hs : s.Valid := by decide
  let leaf (value : BitVec 32) : PredicateTree (.unsigned .four) := .leaf .notEqual value
  let predicate (tree : PredicateTree (.unsigned .four)) : Predicate := ⟨.unsigned .four, .little, false, tree⟩
  have h₁ : Predicate.compile c₁ type = .ok (predicate (leaf 0x06050403#32)) := rfl
  have h₂ : Predicate.compile c₂ type = .ok (predicate (leaf 0x08070605#32)) := rfl
  have h : Predicate.compile (.operation .and (some c₁) (some c₂)) type =
    .ok (predicate (.operation .and (leaf 0x06050403#32) (leaf 0x08070605#32))) := rfl
  obtain ⟨first, second, both, hfirst, hsecond, hboth, hsame, hcounts⟩ := scan_scan_perm_scan_and hs settings h₁ h₂
  obtain ⟨first', hfirst', hresult₁⟩ := exists_scansTo hs settings h₁
  obtain ⟨both', hboth', hresult⟩ := exists_scansTo hs settings h
  have hplaces₁ := hresult₁.places_perm
  have hplaces := hresult.places_perm
  obtain rfl := hfirst.unique hfirst'
  obtain rfl := hboth.unique hboth'
  have hspans₁ : (s.regions.flatMap (s.matchingSpans (predicate (leaf 0x06050403#32)) 1)).map Region.place =
      [(0, 0, 5), (0, 3, 6)] := by decide +kernel
  have hspans : (s.regions.flatMap (s.matchingSpans
      (predicate (.operation .and (leaf 0x06050403#32) (leaf 0x08070605#32))) 1)).map Region.place =
      [(0, 0, 5), (0, 3, 4), (0, 5, 4)] := by decide +kernel
  rw [← hspans₁, ← hspans]
  exact ⟨hs, ⟨_, h₁⟩, ⟨_, h₂⟩, first, second, both, hfirst, hsecond, hboth, hplaces₁, hsame, hplaces, hcounts⟩

end Snapshot
end Memsift
