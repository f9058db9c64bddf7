import Memsift.Proofs.Completed
import Memsift.Proofs.Results

/-!
# Listing the elements of a result

The numbers of the elements of a result list what the scan has found.  The key facts: the elements of a snapshot, in
the order of their numbers, are those of its regions one after the other (`Indexed.getElem?_elements`); in a result
these are the aligned elements that satisfy the constraint (`ResultOf.elements_perm`); and as no element is found
twice, they come in the order of read groups and offsets, although their regions may share bytes
(`pairwise_elements_of_nodup`).
-/

namespace Memsift

/-- The elements of a region, each by its read group and its offset. -/
def Region.elements (r : Region) (alignment elementSize : Nat) : List (Nat × Nat) :=
  (r.starts alignment elementSize).map (r.readGroup, ·)

@[simp]
theorem Region.length_elements (r : Region) (alignment elementSize : Nat) :
    (r.elements alignment elementSize).length = elementCount r.length alignment elementSize := by
  rw [elements, starts, List.length_map, List.length_range']

namespace ReadGroup

/-- The current word of the element at an offset. -/
def currentWord (group : ReadGroup) (t : NumberType) (order : ByteOrder) (offset : Nat) : Word t :=
  Word.read t order (bytesAt group.current offset t.size)

/-- The previous word of the element at an offset. -/
def previousWord (group : ReadGroup) (t : NumberType) (order : ByteOrder) (offset : Nat) : Word t :=
  Word.read t order (bytesAt group.previous offset t.size)

/-- Whether the words of the element at an offset are such that a constraint is true. -/
def satisfies (group : ReadGroup) (c : Constraint) (t : NumberType) (order : ByteOrder) (offset : Nat) : Bool :=
  c.meaning? t (group.currentWord t order offset) (group.previousWord t order offset) == some true

end ReadGroup

/-- An element is shown with its address and with its current and previous words. -/
structure Element.Shows (e : Element) (group : ReadGroup) (t : NumberType) (order : ByteOrder) (offset : Nat) :
    Prop where
  address_eq : e.address.toNat = (group.base.toNat + offset) % UInt64.size
  current_eq : e.current = some (.number t (group.currentWord t order offset))
  previous_eq : e.previous = some (.number t (group.previousWord t order offset))

theorem ReadGroup.shows_shown (group : ReadGroup) {type : DataType} {t : NumberType}
    (htype : type.valueType = .number t) {offset : Nat} (h : offset + t.size ≤ group.size) :
    (group.shown type t.size offset).Shows group t type.byteOrder offset := by
  have hvalue : ∀ buffer : Array UInt8, offset + t.size ≤ buffer.size →
      (window? buffer offset t.size).bind (ScanValue.ofBytes? type.valueType type.byteOrder) =
        some (.number t (Word.read t type.byteOrder (bytesAt buffer offset t.size))) := by
    intro buffer hin
    have hlength : ¬ (bytesAt buffer offset t.size).length < t.size := by
      rw [bytesAt, Array.length_toList, Array.size_extract]
      omega
    rw [window?_of_le hin, Option.bind_some, htype, ScanValue.ofBytes?, Word.read?, if_neg hlength]
    rfl
  exact ⟨Address.toNat_add .., hvalue _ h, hvalue _ (by rw [group.previous_size]; exact h)⟩

namespace Snapshot

variable {s result : Snapshot} {r : Region} {group : ReadGroup} {p : Predicate} {alignment : Nat}

/-- The elements of all regions. -/
def elements (s : Snapshot) : List (Nat × Nat) := s.regions.flatMap (·.elements s.alignment s.elementSize)

/-- The elements of a region at multiples of `alignment`. -/
def alignedElements (s : Snapshot) (alignment elementSize : Nat) (r : Region) : List (Nat × Nat) :=
  match s.groups[r.readGroup]? with
  | none => []
  | some group => (r.alignedStarts group.base alignment elementSize).map (r.readGroup, ·)

/-- Whether an element satisfies a constraint. -/
def satisfies (s : Snapshot) (c : Constraint) (t : NumberType) (order : ByteOrder) (x : Nat × Nat) : Bool :=
  (s.groups[x.1]?).any (·.satisfies c t order x.2)

section Numbers

variable {before after : List Region}

theorem length_flatMap_elements (s : Snapshot) (rs : List Region) :
    (rs.flatMap (·.elements s.alignment s.elementSize)).length = (rs.map s.countOf).sum := by
  simp only [List.length_flatMap, Region.length_elements]
  rfl

theorem Indexed.length_elements (hs : s.Indexed) : s.elements.length = s.elementCount := by
  rw [hs.elementCount_eq_sum]
  exact length_flatMap_elements s s.regions

theorem Indexed.getElem?_elements (hs : s.Indexed) (h : s.regions = before ++ r :: after) {k : Nat}
    (hk : k < s.countOf r) :
    s.elements[r.baseIndex + k]? = some (r.readGroup, r.offset + k * s.alignment) := by
  have hbefore := length_flatMap_elements s before
  rw [← hs.baseIndex_eq_sum h] at hbefore
  have hstart : (r.starts s.alignment s.elementSize)[k]? = some (r.offset + k * s.alignment) := by
    rw [Nat.mul_comm]
    exact List.getElem?_range' hk
  have hlocal : k < (r.elements s.alignment s.elementSize).length := by
    rw [r.length_elements]
    exact hk
  rw [elements, h, List.flatMap_append, List.flatMap_cons, List.getElem?_append_right (by omega), hbefore,
    Nat.add_sub_cancel_left, List.getElem?_append_left hlocal, Region.elements, List.getElem?_map, hstart]
  rfl

theorem Indexed.exists_shows (hs : s.Indexed) (hvalid : s.Valid) {type : DataType} {t : NumberType}
    (htype : type.valueType = .number t) (hsize : s.elementSize = t.size) {i : Nat} (hi : i < s.elements.length) :
    ∃ group element, s.groups[s.elements[i].1]? = some group ∧ s.elementAt? i type = some element ∧
      element.Shows group t type.byteOrder s.elements[i].2 := by
  rw [hs.length_elements] at hi
  obtain ⟨before, r, after, k, hregions, hk, rfl⟩ := hs.exists_of_lt hi
  obtain ⟨group, hgroup, hin⟩ := hvalid.inside r (by simp [hregions])
  have helement : s.elements[r.baseIndex + k] = (r.readGroup, r.offset + k * s.alignment) :=
    (List.getElem?_eq_some_iff.1 (hs.getElem?_elements hregions hk)).2
  have hfit := (lt_elementCount_iff hs.alignment_pos hs.elementSize_pos).1 hk
  have hshown := elementAt?_eq htype (view_of_le hgroup hin) (hs.regionAt?_eq hregions hk) hk
  simp only [helement]
  refine ⟨group, _, hgroup, hshown, group.shows_shown htype ?_⟩
  unfold Region.endOffset at hin
  omega

end Numbers

/-- If no element comes twice, regions in order have their elements in order. -/
theorem pairwise_elements_of_nodup (hA : 0 < s.alignment) (hS : 0 < s.elementSize)
    (hsorted : s.regions.Pairwise fun x y =>
      x.readGroup < y.readGroup ∨ x.readGroup = y.readGroup ∧ x.offset ≤ y.offset)
    (hnodup : s.elements.Nodup)
    (hgrid : ∀ g o o', (g, o) ∈ s.elements → (g, o') ∈ s.elements → s.alignment ∣ o - o') :
    s.elements.Pairwise fun x y => x.1 < y.1 ∨ x.1 = y.1 ∧ x.2 < y.2 := by
  have hmem : ∀ r ∈ s.regions, ∀ o ∈ r.starts s.alignment s.elementSize, (r.readGroup, o) ∈ s.elements :=
    fun r hr o ho => List.mem_flatMap.2 ⟨r, hr, List.mem_map_of_mem ho⟩
  have hdisjoint := (List.nodup_flatMap.1 hnodup).2
  rw [elements, List.pairwise_flatMap]
  constructor
  · intro r _
    rw [Region.elements, List.pairwise_map]
    exact (pairwise_starts r s.elementSize hA).imp fun hlt => .inr ⟨rfl, hlt⟩
  · refine (hsorted.and hdisjoint).imp_of_mem ?_
    rintro x y hx hy ⟨hplaced, hxy⟩ a ha b hb
    obtain ⟨o, ho, rfl⟩ := List.mem_map.1 ha
    obtain ⟨o', ho', rfl⟩ := List.mem_map.1 hb
    obtain hlt | ⟨hgroup, hle⟩ := hplaced
    · exact .inl hlt
    · refine .inr ⟨hgroup, ?_⟩
      by_contra hge
      have hdvd := hgrid _ _ _ (hmem x hx o ho) (hgroup ▸ hmem y hy o' ho')
      -- an element of the second region that is not behind one of the first is among those of the first
      have ho'x : o' ∈ x.starts s.alignment s.elementSize := by
        rw [mem_starts hA hS] at ho ho' ⊢
        have hstep := Nat.dvd_sub ho.2.1 hdvd
        have hdistance : o - x.offset - (o - o') = o' - x.offset := by omega
        rw [hdistance] at hstep
        exact ⟨by omega, hstep, by omega⟩
      have hb' : (y.readGroup, o') ∈ x.elements s.alignment s.elementSize := by
        rw [← hgroup]
        exact List.mem_map_of_mem ho'x
      exact hxy hb' hb

theorem alignedElements_eq (hgroup : s.groups[r.readGroup]? = some group) (alignment elementSize : Nat) :
    s.alignedElements alignment elementSize r =
      (r.alignedStarts group.base alignment elementSize).map (r.readGroup, ·) := by
  simp only [alignedElements, hgroup]

theorem nodup_alignedElements (s : Snapshot) (alignment elementSize : Nat) (r : Region) :
    (s.alignedElements alignment elementSize r).Nodup := by
  unfold alignedElements
  split
  · exact List.nodup_nil
  · rename_i group _
    rw [List.Nodup, List.pairwise_map]
    exact (r.pairwise_alignedStarts group.base alignment elementSize).imp fun hlt heq => by simp at heq; omega

theorem exists_of_mem_alignedElements {elementSize : Nat} {x : Nat × Nat} (hA : alignment ∣ UInt64.size)
    (h : x ∈ s.alignedElements alignment elementSize r) :
    ∃ group, s.groups[x.1]? = some group ∧ alignment ∣ group.base.toNat + x.2 := by
  unfold alignedElements at h
  split at h
  · cases h
  · rename_i group hgroup
    obtain ⟨o, ho, rfl⟩ := List.mem_map.1 h
    exact ⟨group, hgroup, Region.dvd_of_mem_alignedStarts hA ho⟩

theorem flatMap_elements_matchingSpans {c : Constraint} {t : NumberType} {order : ByteOrder}
    (hp : Predicate.prepare c t order = .ok p) (hgroup : s.groups[r.readGroup]? = some group) (hA : 0 < alignment) :
    (s.matchingSpans p alignment r).flatMap (·.elements alignment p.type.size) =
      (s.alignedElements alignment p.type.size r).filter (s.satisfies c t order) := by
  have hspans : ∀ r' ∈ s.matchingSpans p alignment r, r'.elements alignment p.type.size =
      (r'.starts alignment p.type.size).map (r.readGroup, ·) := by
    intro r' hr'
    rw [matchingSpans_eq hgroup] at hr'
    rw [Region.elements, (of_mem_spans hr').1]
  have hsatisfies : (s.satisfies c t order ∘ (r.readGroup, ·)) = fun o =>
      p.holds (bytesAt group.current o p.type.size) (bytesAt group.previous o p.type.size) := by
    funext o
    have hmeaning := Predicate.holds_iff_meaning hp (bytesAt group.current o p.type.size)
      (bytesAt group.previous o p.type.size)
    obtain ⟨tree, _, rfl⟩ := Predicate.prepare_eq_ok hp
    rw [Bool.eq_iff_iff, hmeaning, Function.comp_apply, satisfies, hgroup, Option.any_some, ReadGroup.satisfies,
      beq_iff_eq]
    rfl
  rw [List.flatMap_congr hspans, ← List.map_flatMap, matchingSpans_eq hgroup,
    flatMap_starts_spans hA p.type.size_pos, alignedElements_eq hgroup, List.filter_map, hsatisfies]

/-- The elements of a result are the aligned ones that satisfy the constraint. -/
theorem ResultOf.elements_perm (h : s.ResultOf p alignment result) (hs : s.Valid) {c : Constraint} {t : NumberType}
    {order : ByteOrder} (hp : Predicate.prepare c t order = .ok p) :
    result.elements.Perm
      ((s.regions.flatMap (s.alignedElements alignment p.type.size)).filter (s.satisfies c t order)) := by
  have hA : 0 < alignment := by
    rw [← h.alignment_eq]
    exact h.indexed.alignment_pos
  have hspans : ∀ r ∈ s.regions, (s.matchingSpans p alignment r).flatMap (·.elements alignment p.type.size) =
      (s.alignedElements alignment p.type.size r).filter (s.satisfies c t order) := by
    intro r hr
    obtain ⟨group, hgroup, _⟩ := hs.inside r hr
    exact flatMap_elements_matchingSpans hp hgroup hA
  rw [elements, h.alignment_eq, h.elementSize_eq, List.filter_flatMap, ← List.flatMap_congr hspans,
    ← List.flatMap_assoc]
  exact flatMap_perm_of_map_place_perm (fun _ _ => rfl) h.places_perm

section Apart

variable {c : Constraint} {t : NumberType} {order : ByteOrder} (hs : s.Valid)
  (hp : Predicate.prepare c t order = .ok p)
  (hapart : s.regions.Pairwise fun x y =>
    (s.alignedElements alignment p.type.size x).Disjoint (s.alignedElements alignment p.type.size y))

include hs hp hapart

theorem ResultOf.nodup_elements (h : s.ResultOf p alignment result) : result.elements.Nodup := by
  rw [(h.elements_perm hs hp).nodup_iff]
  apply List.Nodup.filter
  exact List.nodup_flatMap.2 ⟨fun r _ => s.nodup_alignedElements alignment p.type.size r, hapart⟩

theorem ResultOf.pairwise_elements (h : s.ResultOf p alignment result) (hA : alignment ∣ UInt64.size) :
    result.elements.Pairwise fun x y => x.1 < y.1 ∨ x.1 = y.1 ∧ x.2 < y.2 := by
  have haligned : ∀ x ∈ result.elements, ∃ group, s.groups[x.1]? = some group ∧ alignment ∣ group.base.toNat + x.2 := by
    intro x hx
    obtain ⟨r, _, hr⟩ := List.mem_flatMap.1 (List.mem_of_mem_filter ((h.elements_perm hs hp).subset hx))
    exact exists_of_mem_alignedElements hA hr
  refine pairwise_elements_of_nodup h.indexed.alignment_pos h.indexed.elementSize_pos h.sorted
    (nodup_elements hs hp hapart h) ?_
  intro g o o' ho ho'
  obtain ⟨group, hgroup, hdvd⟩ := haligned _ ho
  obtain ⟨group', hgroup', hdvd'⟩ := haligned _ ho'
  obtain rfl := Option.some.inj (hgroup.symm.trans hgroup')
  have hsub := Nat.dvd_sub hdvd hdvd'
  rwa [Nat.add_sub_add_left, ← h.alignment_eq] at hsub

end Apart

/-- A completed scan of regions that have no aligned element in common lists the aligned elements that satisfy the
constraint, each once and in the order of read groups and offsets: these are the elements that are shown for the
numbers below the count, each with its address and with words for which the constraint is true. -/
theorem listing_of_completed {σ : Type} {watch : Watch σ} (hs : s.Valid) (settings : ScanSettings) {c : Constraint}
    {type : DataType} {t : NumberType} (htype : type.valueType = .number t)
    (hapart : s.regions.Pairwise fun x y =>
      (s.alignedElements (settings.alignment.resolve t.size) t.size x).Disjoint
        (s.alignedElements (settings.alignment.resolve t.size) t.size y))
    {task : String} {scene : Scene σ} {outcome : ScanOutcome}
    (hscan : (s.scan settings watch c type task scene).1 = .ok outcome) (hdone : outcome.state = .completed) :
    ∃ (result : Snapshot) (listing : List (Nat × Nat)), outcome.snapshot = some result ∧
      (∀ x, x ∈ listing ↔
        (∃ r ∈ s.regions, x ∈ s.alignedElements (settings.alignment.resolve t.size) t.size r) ∧
          s.satisfies c t type.byteOrder x = true) ∧
      (listing.Pairwise fun x y => x.1 < y.1 ∨ x.1 = y.1 ∧ x.2 < y.2) ∧
      result.elementCount = listing.length ∧
      (∀ i (hi : i < listing.length), ∃ group element, s.groups[listing[i].1]? = some group ∧
        result.elementAt? i type = some element ∧ element.Shows group t type.byteOrder listing[i].2 ∧
        c.meaning? t (group.currentWord t type.byteOrder listing[i].2)
          (group.previousWord t type.byteOrder listing[i].2) = some true) ∧
      ∀ i, listing.length ≤ i → result.elementAt? i type = none := by
  obtain ⟨hnot, _⟩ | ⟨p, hcompile, rfl⟩ := scan_cases hscan
  · exact absurd hdone hnot
  obtain ⟨t', htype', hp⟩ := Predicate.compile_eq_ok hcompile
  obtain rfl := ValueType.number.inj (htype'.symm.trans htype)
  have hsize : p.type.size = t'.size := by
    obtain ⟨tree, _, rfl⟩ := Predicate.prepare_eq_ok hp
    rfl
  rw [← hsize] at hapart ⊢
  have hA := settings.alignment.resolve_mem p.type.size_mem
  have hdvd := settings.alignment.resolve_dvd p.type.size_mem
  obtain ⟨result, hall, hresult⟩ := exists_resultOf hs (Predicate.lawful_test hp) hA
  have hsnapshot : (s.scanAll p (settings.alignment.resolve p.test.size)).1 = result := congrArg Prod.fst hall
  have hmem : ∀ x, x ∈ result.elements ↔
      (∃ r ∈ s.regions, x ∈ s.alignedElements (settings.alignment.resolve p.type.size) p.type.size r) ∧
        s.satisfies c t' type.byteOrder x = true := by
    intro x
    rw [(hresult.elements_perm hs hp).mem_iff, List.mem_filter, List.mem_flatMap]
  refine ⟨result, result.elements, congrArg some hsnapshot, hmem, hresult.pairwise_elements hs hp hapart hdvd,
    hresult.indexed.length_elements.symm, ?_, ?_⟩
  · intro i hi
    obtain ⟨group, element, hgroup, helement, hshows⟩ :=
      hresult.indexed.exists_shows hresult.valid htype (hresult.elementSize_eq.trans hsize) hi
    rw [hresult.groups_eq] at hgroup
    have htrue := ((hmem _).1 (List.getElem_mem hi)).2
    rw [satisfies, hgroup, Option.any_some, ReadGroup.satisfies, beq_iff_eq] at htrue
    exact ⟨group, element, hgroup, helement, hshows, htrue⟩
  · intro i hi
    rw [hresult.indexed.length_elements] at hi
    exact hresult.indexed.elementAt?_of_le hi type

/-- The regions share a byte and come in the wrong order, and the addresses wrap around between the elements found. -/
theorem listing_of_completed_wrapping :
    let bytes : Array UInt8 := #[0, 7, 0, 7, 0, 0, 7, 0]
    let group : ReadGroup := ⟨⟨0xFFFFFFFFFFFFFFFC⟩, bytes, Array.replicate 8 0, none, by decide, by simp, by decide⟩
    let s := build "start" #[group] [{ readGroup := 0, offset := 3, length := 5 },
      { readGroup := 0, offset := 0, length := 4 }] 1 1
    let settings : ScanSettings := { alignment := .fixed .one }
    let type : DataType := ⟨.number (.unsigned .two), .big⟩
    let c : Constraint := .operation .and (some (.leaf .changed none))
      (some (.leaf .equal (some (.number (.unsigned .two) 7#16))))
    let scene : Scene Unit := ⟨{ history := 4 }, ()⟩
    let outcome := (s.scan settings Watch.unattended c type "scan" scene).1
    s.Valid ∧
      (s.regions.Pairwise fun x y => (s.alignedElements 1 2 x).Disjoint (s.alignedElements 1 2 y)) ∧
      ∃ done result, outcome = .ok done ∧ done.state = .completed ∧ done.snapshot = some result ∧
        result.elementCount = 3 ∧ ∃ element, result.elementAt? 2 type = some element ∧
          element.address.toNat = 1 ∧ element.current = some (.number (.unsigned .two) 7#16) ∧
          element.previous = some (.number (.unsigned .two) 0#16) := by
  intro bytes group s settings type c scene outcome
  have hs : s.Valid := by decide
  have hapart : s.regions.Pairwise fun x y => (s.alignedElements 1 2 x).Disjoint (s.alignedElements 1 2 y) := by
    have helements : s.regions.map (s.alignedElements 1 2) =
        [[(0, 3), (0, 4), (0, 5), (0, 6)], [(0, 0), (0, 1), (0, 2)]] := by decide +kernel
    rw [← List.pairwise_map, helements]
    simp
  have hcompile : Predicate.compile c type =
    .ok ⟨.unsigned .two, .big, true, .operation .and (.leaf .changed 0#16) (.leaf .equal 7#16)⟩ := rfl
  have htype : type.valueType = .number (.unsigned .two) := rfl
  have htask : scene.registry.state "scan" ≠ .running := by decide
  have hscan := scan_of_calm s settings Watch.calm_unattended hcompile trivial htask
  obtain ⟨result, listing, hresult, hmem, hsorted, hcount, hshown, _⟩ :=
    listing_of_completed hs settings htype hapart hscan rfl
  have hfound : (s.regions.flatMap (s.alignedElements 1 2)).filter (s.satisfies c (.unsigned .two) .big) =
      [(0, 5), (0, 0), (0, 2)] := by decide +kernel
  have hlisting : listing = [(0, 0), (0, 2), (0, 5)] := by
    have hnodup : listing.Nodup := hsorted.imp fun hlt heq => by simp [heq] at hlt
    have hperm : listing.Perm [(0, 5), (0, 0), (0, 2)] := by
      rw [List.perm_ext_iff_of_nodup hnodup (by decide)]
      intro x
      rw [hmem, ← hfound, List.mem_filter, List.mem_flatMap]
      rfl
    exact (hperm.trans (by decide)).eq_of_pairwise (fun x y _ _ hxy hyx => by omega) hsorted (by simp)
  subst hlisting
  obtain ⟨group', element, hgroup, helement, hshows, _⟩ := hshown 2 (by decide)
  obtain rfl : group = group' := Option.some.inj hgroup
  have haddress : (group.base.toNat + 5) % UInt64.size = 1 := by decide
  have hcurrent : group.currentWord (.unsigned .two) .big 5 = 7#16 := rfl
  have hprevious : group.previousWord (.unsigned .two) .big 5 = 0#16 := rfl
  refine ⟨hs, hapart, _, result, hscan, rfl, hresult, hcount, element, helement, hshows.address_eq.trans haddress,
    ?_, ?_⟩
  · rw [← hcurrent]
    exact hshows.current_eq
  · rw [← hprevious]
    exact hshows.previous_eq

end Snapshot
end Memsift
