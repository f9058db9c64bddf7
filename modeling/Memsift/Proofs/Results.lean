import Memsift.Proofs.Narrowing
import Memsift.Proofs.Numbering
import Memsift.Proofs.SpanElements

/-!
# Results of scans

What a scan finds is a snapshot again.  The key facts: the regions of a result lie inside their groups
(`Valid.of_map_place_perm`) and their elements are numbered, so a result can be scanned and listed like any other
snapshot (`exists_resultOf`).
-/

namespace Memsift
namespace Snapshot

variable {s t : Snapshot} {r r' : Region} {group : ReadGroup} {p : Predicate} {alignment : Nat}

theorem matchingSpans_eq (hgroup : s.groups[r.readGroup]? = some group) :
    s.matchingSpans p alignment r =
      spans r.readGroup alignment p.type.size
        ((r.alignedStarts group.base alignment p.type.size).filter fun o =>
          p.holds (bytesAt group.current o p.type.size) (bytesAt group.previous o p.type.size)) := by
  simp only [matchingSpans, hgroup]

theorem inside_of_mem_matchingSpans (hs : s.Valid) (hr : r ∈ s.regions) (h : r' ∈ s.matchingSpans p alignment r) :
    ∃ group, s.groups[r'.readGroup]? = some group ∧ r'.endOffset ≤ group.size := by
  obtain ⟨group, hgroup, hin⟩ := hs.inside r hr
  rw [matchingSpans_eq hgroup] at h
  obtain ⟨hread, _, last, hlast, hend⟩ := of_mem_spans h
  have hfit := (Region.mem_alignedStarts.1 (List.mem_of_mem_filter hlast)).2.2.1
  refine ⟨group, by rw [hread, hgroup], ?_⟩
  omega

/-- The regions that a scan finds lie inside their groups. -/
theorem Valid.of_map_place_perm (hs : s.Valid) (hgroups : t.groups = s.groups)
    (h : (t.regions.map Region.place).Perm ((s.regions.flatMap (s.matchingSpans p alignment)).map Region.place)) :
    t.Valid := by
  refine ⟨fun r hr => ?_⟩
  have hplace := h.subset (List.mem_map_of_mem hr)
  obtain ⟨r', hr', hplace⟩ := List.mem_map.1 hplace
  obtain ⟨origin, horigin, hr'⟩ := List.mem_flatMap.1 hr'
  rw [hgroups]
  exact inside_of_place_eq hplace (inside_of_mem_matchingSpans hs horigin hr')

/-- A snapshot holds in order what scanning all regions of `s` finds, and can be scanned itself. -/
structure ResultOf (s : Snapshot) (p : Predicate) (alignment : Nat) (result : Snapshot) : Prop where
  valid : result.Valid
  indexed : result.Indexed
  groups_eq : result.groups = s.groups
  alignment_eq : result.alignment = alignment
  elementSize_eq : result.elementSize = p.type.size
  places_perm : (result.regions.map Region.place).Perm
    ((s.regions.flatMap (s.matchingSpans p alignment)).map Region.place)
  sorted : result.regions.Pairwise fun x y =>
    x.readGroup < y.readGroup ∨ x.readGroup = y.readGroup ∧ x.offset ≤ y.offset

theorem exists_resultOf (hs : s.Valid) (hp : p.test.Lawful) (hA : alignment ∈ [1, 2, 4, 8]) :
    ∃ result, s.scanAll p alignment = (result, 0) ∧ s.ResultOf p alignment result := by
  obtain ⟨result, hall, hgroups, halignment, helementSize, hplaces, hsorted⟩ := scanAll_spec hs hp hA
  have hindexed : (s.scanAll p alignment).1.Indexed := indexed_build ..
  rw [hall] at hindexed
  exact ⟨result, hall, hs.of_map_place_perm hgroups hplaces, hindexed, hgroups, halignment, helementSize, hplaces,
    hsorted⟩

theorem exists_scansTo (hs : s.Valid) (settings : ScanSettings) {c : Constraint} {type : DataType}
    (hp : Predicate.compile c type = .ok p) :
    ∃ result, s.ScansTo settings c type result ∧
      s.ResultOf p (settings.alignment.resolve p.type.size) result := by
  obtain ⟨result, hall, hresult⟩ :=
    exists_resultOf hs (Predicate.lawful_of_compile hp) (settings.alignment.resolve_mem p.type.size_mem)
  exact ⟨result, scansTo_of_scanAll_eq hp hall, hresult⟩

end Snapshot
end Memsift
