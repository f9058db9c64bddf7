import Memsift.Proofs.Listing
import Memsift.Proofs.Windows

/-!
# Malformed regions

What regions that do not lie inside their groups do to a scan.  The key facts: a region that reaches past the end of
its group counts as one failure if an element is left from its first aligned address on (`snd_scanAll_eq_countP`), and
otherwise the scan goes as if there were only the regions inside their groups (`scan_mixed`); taking one malformed
region away takes away one failure and nothing else (`scan_malformed`).  Two exceptions are counted by no one: regions
over a group that does not exist, and regions whose offset wraps around when they are aligned (`scan_uncounted`).
-/

namespace Memsift
namespace Snapshot

variable {s result : Snapshot} {r r' : Region} {before after : List Region} {group : ReadGroup} {p : Predicate}
  {alignment elementSize : Nat} {settings : ScanSettings} {c : Constraint} {type : DataType}

/-- Whatever the task and the watch, an undisturbed scan completes with the result, and this many regions fail. -/
def CompletesWith (s : Snapshot) (settings : ScanSettings) (c : Constraint) (type : DataType) (result : Snapshot)
    (failed : Nat) : Prop :=
  ∀ {σ : Type} (watch : Watch σ) (calm : σ → Prop) (task : String) (scene : Scene σ), watch.Calm calm →
    calm scene.state → scene.registry.state task ≠ .running →
      (s.scan settings watch c type task scene).1 = .ok ⟨task, .completed, some result, failed⟩

/-- A region reaches past the end of its read group, and an element is left from its first aligned address on. -/
def overruns (s : Snapshot) (alignment elementSize : Nat) (r : Region) : Bool :=
  (s.groups[r.readGroup]?).any fun group =>
    group.size < r.endOffset ∧ r.padding group.base alignment + elementSize ≤ r.length

theorem completesWith_scanAll (s : Snapshot) (settings : ScanSettings) (hp : Predicate.compile c type = .ok p) :
    s.CompletesWith settings c type (s.scanAll p (settings.alignment.resolve p.type.size)).1
      (s.scanAll p (settings.alignment.resolve p.type.size)).2 :=
  fun _ _ _ _ hwatch hscene htask => scan_of_calm s settings hwatch hp hscene htask

theorem completesWith_of_scanAll_eq (hp : Predicate.compile c type = .ok p)
    (halignment : settings.alignment.resolve p.type.size = alignment) {failed : Nat}
    (hresult : (s.scanAll p alignment).1 = result) (hfailed : (s.scanAll p alignment).2 = failed) :
    s.CompletesWith settings c type result failed := by
  subst halignment hresult hfailed
  exact completesWith_scanAll s settings hp

theorem CompletesWith.unique {result' : Snapshot} {failed failed' : Nat}
    (h : s.CompletesWith settings c type result failed) (h' : s.CompletesWith settings c type result' failed') :
    result = result' ∧ failed = failed' := by
  let scene : Scene Unit := ⟨{ history := 0 }, ()⟩
  have hidle : scene.registry.state "" ≠ .running := by decide
  have hscan := h Watch.unattended _ "" scene Watch.calm_unattended trivial hidle
  have hscan' := h' Watch.unattended _ "" scene Watch.calm_unattended trivial hidle
  simpa using hscan.symm.trans hscan'

/-- The regions of a snapshot that lie inside their groups. -/
def wellFormed (s : Snapshot) : Snapshot := s.withRegions s.name (s.regions.filter s.contains)

theorem map_place_wellFormed (s : Snapshot) :
    s.wellFormed.regions.map Region.place = (s.regions.filter s.contains).map Region.place :=
  map_place_build ..

theorem exists_of_mem_wellFormed (h : r ∈ s.wellFormed.regions) :
    ∃ r' ∈ s.regions, s.contains r' = true ∧ r'.place = r.place := by
  have hplace := List.mem_map_of_mem (f := Region.place) h
  rw [map_place_wellFormed] at hplace
  obtain ⟨r', hr', hplace⟩ := List.mem_map.1 hplace
  exact ⟨r', (List.mem_filter.1 hr').1, (List.mem_filter.1 hr').2, hplace⟩

theorem valid_wellFormed (s : Snapshot) : s.wellFormed.Valid := by
  refine ⟨fun r hr => ?_⟩
  obtain ⟨r', _, hin, hplace⟩ := exists_of_mem_wellFormed hr
  exact inside_of_place_eq hplace (contains_eq_true_iff.1 hin)

theorem windows_wellFormed (hwrap : ∀ r ∈ s.regions, s.Unwrapped alignment r) :
    s.wellFormed.windows alignment elementSize = (s.windows alignment elementSize).filter s.contains := by
  rw [filter_windows hwrap]
  exact windows_eq rfl s.map_place_wellFormed alignment elementSize

theorem isSome_alignRegion? (hgroup : s.groups[r.readGroup]? = some group) :
    (s.alignRegion? alignment elementSize r).isSome ↔ r.padding group.base alignment + elementSize ≤ r.length := by
  rw [alignRegion?_eq hgroup, Address.gap_add_offset]
  simp only [Option.isSome_ite', not_or]
  omega

theorem isSome_alignRegion?_of_le (hA : 0 < alignment) (h : elementSize + alignment - 1 ≤ r.length) :
    (s.alignRegion? alignment elementSize r).isSome ↔ r.readGroup < s.groups.size := by
  by_cases hgroup : r.readGroup < s.groups.size
  · have hpadding : r.padding s.groups[r.readGroup].base alignment < alignment := Nat.mod_lt _ hA
    rw [isSome_alignRegion? (Array.getElem?_eq_getElem hgroup)]
    exact ⟨fun _ => hgroup, fun _ => by omega⟩
  · have hmissing : s.groups[r.readGroup]? = none := Array.getElem?_eq_none (Nat.le_of_not_lt hgroup)
    simp only [alignRegion?, hmissing, Option.isSome_none, Bool.false_eq_true, hgroup]

/-- The regions that overrun their groups are those of which a window outside its group is left. -/
theorem overruns_iff (hwrap : s.Unwrapped alignment r) :
    s.overruns alignment elementSize r = true ↔
      ∃ r', s.alignRegion? alignment elementSize r = some r' ∧ s.contains r' = false := by
  cases hgroup : s.groups[r.readGroup]? with
  | none => simp [overruns, alignRegion?, hgroup]
  | some group =>
    have hfit : (s.alignRegion? alignment elementSize r).isSome ↔
        r.padding group.base alignment + elementSize ≤ r.length := isSome_alignRegion? hgroup
    have hout : s.contains r = false ↔ group.size < r.endOffset := by simp [contains, hgroup]
    have hoverruns : s.overruns alignment elementSize r = true ↔ group.size < r.endOffset ∧
        r.padding group.base alignment + elementSize ≤ r.length := by simp [overruns, hgroup]
    rw [hoverruns, ← hout, ← hfit, Option.isSome_iff_exists]
    constructor
    · rintro ⟨hout, r', h⟩
      exact ⟨r', h, by rw [contains_of_alignRegion?_eq_some hwrap h, hout]⟩
    · rintro ⟨r', h, hout⟩
      exact ⟨by rw [← contains_of_alignRegion?_eq_some hwrap h, hout], r', h⟩

/-- An element of a result lies inside one of the regions that were scanned. -/
theorem ResultOf.exists_region (h : s.ResultOf p alignment result) (hs : s.Valid) {t : NumberType} {order : ByteOrder}
    (hp : Predicate.prepare c t order = .ok p) {x : Nat × Nat} (hx : x ∈ result.elements) :
    ∃ r ∈ s.regions, x.1 = r.readGroup ∧ r.offset ≤ x.2 ∧ x.2 + p.type.size ≤ r.endOffset := by
  obtain ⟨r, hr, hx⟩ := List.mem_flatMap.1 (List.mem_of_mem_filter ((h.elements_perm hs hp).subset hx))
  obtain ⟨group, hgroup, _⟩ := hs.inside r hr
  rw [alignedElements_eq hgroup] at hx
  obtain ⟨o, ho, rfl⟩ := List.mem_map.1 hx
  obtain ⟨_, hle, hfit, _⟩ := Region.mem_alignedStarts.1 ho
  exact ⟨r, hr, rfl, hle, hfit⟩

section Lawful

variable (htest : p.test.Lawful) (hA : alignment ∈ [1, 2, 4, 8])
  (hwrap : ∀ r ∈ s.regions, s.Unwrapped alignment r)
include htest hA hwrap

/-- Malformed regions have no part in the result. -/
theorem fst_scanAll_wellFormed : (s.wellFormed.scanAll p alignment).1 = (s.scanAll p alignment).1 := by
  refine fst_scanAll_congr (s := s) htest hA rfl rfl ?_
  rw [windows_wellFormed hwrap, List.filter_filter]
  simp only [Bool.and_self]

theorem snd_scanAll_wellFormed : (s.wellFormed.scanAll p alignment).2 = 0 := by
  rw [snd_scanAll htest hA, windows_wellFormed hwrap, List.countP_eq_zero]
  intro r hr
  have hin : s.contains r = true := (List.mem_filter.1 hr).2
  show ¬ (!s.contains r) = true
  rw [hin]
  exact Bool.false_ne_true

/-- The failures are the regions that overrun their groups. -/
theorem snd_scanAll_eq_countP :
    (s.scanAll p alignment).2 = s.regions.countP (s.overruns alignment p.type.size) := by
  rw [snd_scanAll htest hA, windows, List.countP_filterMap]
  apply List.countP_congr
  intro r hr
  rw [overruns_iff (hwrap r hr)]
  cases s.alignRegion? alignment p.type.size r with
  | none => simp
  | some r' => simp

theorem resultOf_wellFormed : s.wellFormed.ResultOf p alignment (s.scanAll p alignment).1 := by
  obtain ⟨result, hall, hresult⟩ := exists_resultOf s.valid_wellFormed htest hA
  rwa [← fst_scanAll_wellFormed htest hA hwrap, hall]

theorem exists_region_of_mem_elements {t : NumberType} {order : ByteOrder}
    (hp : Predicate.prepare c t order = .ok p) {x : Nat × Nat}
    (hx : x ∈ (s.scanAll p alignment).1.elements) :
    ∃ r ∈ s.regions, s.contains r = true ∧ x.1 = r.readGroup ∧ r.offset ≤ x.2 ∧
      x.2 + p.type.size ≤ r.endOffset := by
  obtain ⟨r, hr, hin⟩ := (resultOf_wellFormed htest hA hwrap).exists_region s.valid_wellFormed hp hx
  obtain ⟨r', hr', hcontains, hplace⟩ := exists_of_mem_wellFormed hr
  simp only [Region.place, Prod.mk.injEq] at hplace
  obtain ⟨hgroup, hoffset, hlength⟩ := hplace
  refine ⟨r', hr', hcontains, ?_⟩
  unfold Region.endOffset at hin ⊢
  rwa [hgroup, hoffset, hlength]

end Lawful

/-- A scan of regions inside and outside their groups, in any order, ends with the result of scanning those inside them
by themselves, and the regions that overrun their groups fail. -/
theorem scan_mixed (hend : ∀ r ∈ s.regions, r.endOffset < UInt64.size) (settings : ScanSettings)
    (hp : Predicate.compile c type = .ok p) :
    ∃ result, (s.withRegions s.name (s.regions.filter s.contains)).CompletesWith settings c type result 0 ∧
      s.CompletesWith settings c type result
        (s.regions.countP (s.overruns (settings.alignment.resolve p.type.size) p.type.size)) := by
  have htest := Predicate.lawful_of_compile hp
  have hA := settings.alignment.resolve_mem p.type.size_mem
  have hwrap : ∀ r ∈ s.regions, s.Unwrapped (settings.alignment.resolve p.type.size) r :=
    fun r hr => unwrapped_of_endOffset_lt (hend r hr)
  exact ⟨_, completesWith_of_scanAll_eq hp rfl (fst_scanAll_wellFormed htest hA hwrap)
    (snd_scanAll_wellFormed htest hA hwrap), completesWith_of_scanAll_eq hp rfl rfl
    (snd_scanAll_eq_countP htest hA hwrap)⟩

/-- The first and the third region reach past the end of the group; only the first one has an element left. -/
theorem scan_mixed_short :
    let bytes : Array UInt8 := #[0, 7, 0, 7, 7, 0, 7, 0]
    let group : ReadGroup := ⟨⟨0x1001⟩, bytes, bytes, none, rfl, by simp, by decide⟩
    let s := build "start" #[group] [⟨0, 4, 9, 0⟩, ⟨0, 3, 5, 4⟩, ⟨0, 5, 5, 2⟩, ⟨0, 0, 7, 9⟩] 1 1
    let type : DataType := ⟨.number (.unsigned .four), .little⟩
    let c : Constraint := .leaf .notEqual (some (.number (.unsigned .four) 7#32))
    (∀ r ∈ s.regions, r.endOffset < UInt64.size) ∧ (∃ p, Predicate.compile c type = .ok p) ∧
      ∃ result, (s.withRegions s.name (s.regions.filter s.contains)).CompletesWith {} c type result 0 ∧
        s.CompletesWith {} c type result 1 := by
  intro bytes group s type c
  have hend : ∀ r ∈ s.regions, r.endOffset < UInt64.size := by decide
  have hp : Predicate.compile c type = .ok ⟨.unsigned .four, .little, false, .leaf .notEqual 7#32⟩ := rfl
  obtain ⟨result, hgood, hmixed⟩ := scan_mixed hend {} hp
  have hcount : s.regions.countP (s.overruns 4 4) = 1 := by decide
  exact ⟨hend, ⟨_, hp⟩, result, hgood, hcount ▸ hmixed⟩

/-- Of a malformed region nothing is scanned: without it the result is the same. -/
theorem scanAll_of_not_contains (htest : p.test.Lawful) (hA : alignment ∈ [1, 2, 4, 8])
    (h : s.regions = before ++ r :: after) (hout : s.contains r = false) (hwrap : s.Unwrapped alignment r) :
    let t := s.withRegions s.name (before ++ after)
    (t.scanAll p alignment).1 = (s.scanAll p alignment).1 ∧
      (s.scanAll p alignment).2 =
        (t.scanAll p alignment).2 + if (s.alignRegion? alignment p.type.size r).isSome then 1 else 0 := by
  intro t
  let align := s.alignRegion? alignment p.type.size
  have ht : t.windows alignment p.type.size = before.filterMap align ++ after.filterMap align := by
    rw [← List.filterMap_append]
    exact windows_eq rfl (map_place_build ..) alignment p.type.size
  have hcontains : t.contains = s.contains := contains_congr rfl
  have hresult := fst_scanAll_congr (s := s) (t := t) htest hA rfl rfl
  rw [snd_scanAll htest hA s, snd_scanAll htest hA t, hcontains]
  cases halign : s.alignRegion? alignment p.type.size r with
  | none =>
    have hs : s.windows alignment p.type.size = t.windows alignment p.type.size := by
      rw [windows, h, List.filterMap_append, List.filterMap_cons_none halign, ht]
    rw [hs] at hresult ⊢
    exact ⟨hresult rfl, rfl⟩
  | some r' =>
    have hs : s.windows alignment p.type.size = before.filterMap align ++ r' :: after.filterMap align := by
      rw [windows, h, List.filterMap_append, List.filterMap_cons_some halign]
    have hout' : s.contains r' = false := by
      rw [contains_of_alignRegion?_eq_some hwrap halign, hout]
    rw [hs, ht] at hresult ⊢
    constructor
    · apply hresult
      rw [List.filter_append, List.filter_append, List.filter_cons_of_neg (by simp [hout'])]
    · rw [List.countP_append, List.countP_append, List.countP_cons_of_pos (by simp [hout'])]
      rfl

/-- Taking away a malformed region that an element would fit into leaves the result as it is, and one failure less if
the region names a group; without a group it was not counted.  If no offset wraps around, every element of the result
lies inside a region that is inside its group. -/
theorem scan_malformed (settings : ScanSettings) (hp : Predicate.compile c type = .ok p) :
    let alignment := settings.alignment.resolve p.type.size
    ∃ result failed, s.CompletesWith settings c type result failed ∧
      (∀ before r after, s.regions = before ++ r :: after → s.contains r = false →
        p.type.size + alignment - 1 ≤ r.length → s.Unwrapped alignment r →
          ∃ failed', (s.withRegions s.name (before ++ after)).CompletesWith settings c type result failed' ∧
            failed = failed' + if r.readGroup < s.groups.size then 1 else 0) ∧
      ((∀ r ∈ s.regions, s.Unwrapped alignment r) →
        ∀ x ∈ result.elements, ∃ r ∈ s.regions, s.contains r = true ∧
          x.1 = r.readGroup ∧ r.offset ≤ x.2 ∧ x.2 + p.type.size ≤ r.endOffset) := by
  intro alignment
  have htest := Predicate.lawful_of_compile hp
  have hA : alignment ∈ [1, 2, 4, 8] := settings.alignment.resolve_mem p.type.size_mem
  refine ⟨_, _, completesWith_scanAll s settings hp, ?_, ?_⟩
  · intro before r after h hout hlength hwrap
    obtain ⟨hresult, hfailed⟩ := scanAll_of_not_contains htest hA h hout hwrap
    refine ⟨_, completesWith_of_scanAll_eq hp rfl hresult rfl, ?_⟩
    simp only [← isSome_alignRegion?_of_le (s := s) (dvd_eight_of_mem hA).2 hlength]
    exact hfailed
  · intro hwrap x hx
    obtain ⟨_, _, hprepare⟩ := Predicate.compile_eq_ok hp
    exact exists_region_of_mem_elements htest hA hwrap hprepare hx

/-- The region in the middle reaches past the end of its group by one byte. -/
theorem scan_malformed_past_end :
    let bytes : Array UInt8 := #[0, 7, 0, 7, 7, 0, 7, 0]
    let group : ReadGroup := ⟨⟨0x1001⟩, bytes, bytes, none, rfl, by simp, by decide⟩
    let s := build "start" #[group] [⟨0, 0, 6, 0⟩, ⟨0, 6, 3, 6⟩, ⟨0, 4, 4, 9⟩] 1 1
    let type : DataType := ⟨.number (.unsigned .two), .little⟩
    let c : Constraint := .leaf .equal (some (.number (.unsigned .two) 7#16))
    (∃ p, Predicate.compile c type = .ok p) ∧
      ∃ result, s.CompletesWith {} c type result 1 ∧
        (s.withRegions s.name [⟨0, 0, 6, 0⟩, ⟨0, 4, 4, 9⟩]).CompletesWith {} c type result 0 ∧
        ∀ x ∈ result.elements, ∃ r ∈ s.regions, s.contains r = true ∧
          x.1 = r.readGroup ∧ r.offset ≤ x.2 ∧ x.2 + 2 ≤ r.endOffset := by
  intro bytes group s type c
  have hp : Predicate.compile c type = .ok ⟨.unsigned .two, .little, false, .leaf .equal 7#16⟩ := rfl
  obtain ⟨result, failed, hall, hremove, hinside⟩ := scan_malformed {} hp
  let t := s.withRegions s.name [⟨0, 0, 6, 0⟩, ⟨0, 4, 4, 9⟩]
  have hwrap : ∀ r ∈ s.regions, s.Unwrapped 2 r := by
    have hend : ∀ r ∈ s.regions, r.endOffset < UInt64.size := by decide
    exact fun r hr => unwrapped_of_endOffset_lt (hend r hr)
  obtain ⟨failed', hrest, hfailed⟩ :=
    hremove [⟨0, 0, 6, 0⟩] ⟨0, 6, 3, 6⟩ [⟨0, 4, 4, 9⟩] rfl (by decide) (by decide) (hwrap _ (by decide))
  have hzero : (t.scanAll ⟨.unsigned .two, .little, false, .leaf .equal 7#16⟩ 2).2 = 0 := by
    rw [snd_scanAll (Predicate.lawful_of_compile hp) (by decide)]
    decide
  obtain rfl : failed' = 0 := (hrest.unique (completesWith_scanAll t {} hp)).2.trans hzero
  obtain rfl : failed = 1 := hfailed
  exact ⟨⟨_, hp⟩, result, hall, hrest, hinside hwrap⟩

/-- A malformed region over a group that does not exist is not counted, and neither is one whose offset wraps around
when it is aligned: it is scanned as a window at the start of the group. -/
theorem scan_uncounted :
    let groups : Array ReadGroup := #[.zeros ⟨0⟩ 24]
    let missing := build "start" groups [⟨1, 0, 4, 0⟩] 1 1
    let wrapping := build "start" groups [⟨0, 0xFFFFFFFFFFFFFFFF, 20, 0⟩] 1 1
    let type : DataType := ⟨.number (.unsigned .one), .little⟩
    let c : Constraint := .leaf .unchanged none
    (missing.regions.countP fun r => !missing.contains r ∧ 1 + 1 - 1 ≤ r.length) = 1 ∧
      (∃ result, missing.CompletesWith {} c type result 0) ∧
    (wrapping.regions.countP fun r => !wrapping.contains r ∧ 1 + 8 - 1 ≤ r.length) = 1 ∧
      ∃ result, wrapping.CompletesWith { alignment := .fixed .eight } c type result 0 ∧
        result.elements.Perm [(0, 0), (0, 8), (0, 16)] := by
  intro groups missing wrapping type c
  let p : Predicate := ⟨.unsigned .one, .little, true, .leaf .unchanged 0#8⟩
  have hp : Predicate.compile c type = .ok p := rfl
  have htest := Predicate.lawful_of_compile hp
  let eights : ScanSettings := { alignment := .fixed .eight }
  have hone : ({} : ScanSettings).alignment.resolve p.type.size = 1 := rfl
  have height : eights.alignment.resolve p.type.size = 8 := rfl
  have hmissing : (missing.scanAll p 1).2 = 0 := by
    rw [snd_scanAll htest (by decide)]
    decide
  have hwrapping : (wrapping.scanAll p 8).2 = 0 := by
    rw [snd_scanAll htest (by decide)]
    decide
  -- the same windows as of a region that is inside the group
  let start := build "start" groups [⟨0, 0, 19, 0⟩] 1 1
  have hstart : start.Valid := by decide
  obtain ⟨result, hall, hresult⟩ := exists_resultOf hstart htest (by decide : 8 ∈ [1, 2, 4, 8])
  have hsame : (wrapping.scanAll p 8).1 = result := by
    rw [← fst_scanAll_congr (s := wrapping) (t := start) htest (by decide) rfl rfl (by decide), hall]
  have hprepare : Predicate.prepare c (.unsigned .one) .little = .ok p := rfl
  have helements := hresult.elements_perm hstart hprepare
  have hfound : (start.regions.flatMap (start.alignedElements 8 1)).filter
      (start.satisfies c (.unsigned .one) .little) = [(0, 0), (0, 8), (0, 16)] := by decide +kernel
  exact ⟨by decide, ⟨_, completesWith_of_scanAll_eq hp hone rfl hmissing⟩, by decide, result,
    completesWith_of_scanAll_eq hp height hsame hwrapping, helements.trans (.of_eq hfound)⟩

end Snapshot
end Memsift
