import Memsift.Proofs.Aligned
import Memsift.Proofs.Chunks
import Memsift.Proofs.Places
import Memsift.Proofs.Undisturbed

/-!
# What a scan finds

The outcome of a scan said without aligning, ordering, chunks or runs: of each region the offsets of the elements at
aligned addresses that satisfy the constraint, in spans (`Snapshot.matchingSpans`).  The key facts: a region inside its
group gives the spans of its elements that pass, whether or not it is scanned by chunks (`scanRegion_eq_found`); an
aligned region gives those of the region that it comes from (`found_alignRegion`); hence a scan of a snapshot
whose regions lie inside their groups gives the spans of all regions, in order, and no region fails (`scanAll_spec`).
-/

namespace Memsift

/-- The regions lie inside their read groups. -/
structure Snapshot.Valid (s : Snapshot) : Prop where
  inside : ∀ r ∈ s.regions, ∃ group, s.groups[r.readGroup]? = some group ∧ r.endOffset ≤ group.size

theorem Snapshot.valid_iff {s : Snapshot} :
    s.Valid ↔ ∀ r ∈ s.regions, (s.groups[r.readGroup]?).any (r.endOffset ≤ ·.size) = true := by
  simp only [Option.any_eq_true, decide_eq_true_eq]
  exact ⟨fun h => h.inside, fun h => ⟨h⟩⟩

instance (s : Snapshot) : Decidable s.Valid := decidable_of_iff _ Snapshot.valid_iff.symm

/-- The spans of the elements of a region that start at multiples of `alignment` and satisfy a predicate. -/
def Snapshot.matchingSpans (s : Snapshot) (p : Predicate) (alignment : Nat) (r : Region) : List Region :=
  match s.groups[r.readGroup]? with
  | none => []
  | some group =>
    spans r.readGroup alignment p.type.size <|
      (r.alignedStarts group.base alignment p.type.size).filter fun o =>
        p.holds (bytesAt group.current o p.type.size) (bytesAt group.previous o p.type.size)

theorem Alignment.resolve_mem (a : Alignment) {size : Nat} (h : size ∈ [1, 2, 4, 8]) :
    a.resolve size ∈ [1, 2, 4, 8] := by
  cases a with
  | auto =>
    have hpos := (dvd_eight_of_mem h).2
    rwa [resolve, Nat.max_eq_left hpos]
  | fixed width =>
    show width.bytes ∈ [1, 2, 4, 8]
    cases width <;> decide

theorem Alignment.resolve_dvd (a : Alignment) {size : Nat} (h : size ∈ [1, 2, 4, 8]) : a.resolve size ∣ UInt64.size :=
  Nat.dvd_trans (dvd_eight_of_mem (a.resolve_mem h)).1 (by decide)

/-- A predicate that needs no previous bytes does not look at those it is given. -/
theorem ReadGroup.passes_test (group : ReadGroup) (p : Predicate) (o : Nat) :
    group.passes p.test o =
      p.holds (bytesAt group.current o p.type.size) (bytesAt group.previous o p.type.size) := by
  unfold passes Predicate.test Predicate.holds
  cases p.requiresPrevious <;> rfl

namespace Snapshot

variable {s : Snapshot} {r r' : Region} {group : ReadGroup} {test : ElementTest} {p : Predicate} {alignment : Nat}

/-- The spans of the elements of a region that pass a test. -/
def found (s : Snapshot) (test : ElementTest) (alignment : Nat) (r : Region) : List Region :=
  match s.groups[r.readGroup]? with
  | none => []
  | some group => spans r.readGroup alignment test.size ((r.starts alignment test.size).filter (group.passes test))

theorem found_eq (hgroup : s.groups[r.readGroup]? = some group) :
    s.found test alignment r =
      spans r.readGroup alignment test.size ((r.starts alignment test.size).filter (group.passes test)) := by
  simp only [found, hgroup]

theorem view_of_le (hgroup : s.groups[r.readGroup]? = some group) (hin : r.endOffset ≤ group.size) :
    s.view r = .ok ⟨r.readGroup, group, r.offset, r.length, hin⟩ := by
  simp only [Snapshot.view, hgroup]
  exact dif_pos hin

theorem scanRegion_eq_found (hgroup : s.groups[r.readGroup]? = some group) (hin : r.endOffset ≤ group.size)
    (htest : test.Lawful) (hsize : test.size ∈ [1, 2, 4, 8]) (hA : alignment ∈ [1, 2, 4, 8]) :
    s.scanRegion r test alignment = .ok (s.found test alignment r) := by
  have hS := (dvd_eight_of_mem hsize).2
  have hpos := (dvd_eight_of_mem hA).2
  let view : View := ⟨r.readGroup, group, r.offset, r.length, hin⟩
  have hview : s.view r = .ok view := view_of_le hgroup hin
  rw [found_eq hgroup]
  simp only [scanRegion, hview, bind, Except.bind]
  by_cases hcount : view.elementCount alignment test.size = 0
  · rw [if_pos hcount]
    have hstarts : r.starts alignment test.size = [] := congrArg (List.range' r.offset · alignment) hcount
    rw [hstarts]
    rfl
  · rw [if_neg hcount]
    have hmatching : view.matching test alignment = (r.starts alignment test.size).filter (group.passes test) := rfl
    rw [← hmatching]
    split
    · rw [View.scanElements_eq_spans view hS hpos (Nat.le_trans (le_eight_of_mem hA) (by decide))]
      rfl
    · rw [View.scanChunks_eq_spans view htest hsize hA]
      rfl

theorem found_alignRegion (hs : s.Valid) (hr : r ∈ s.regions) (hA : alignment ∈ [1, 2, 4, 8]) :
    ((s.alignRegion? alignment p.type.size r).toList.flatMap (s.found p.test alignment)) =
      s.matchingSpans p alignment r := by
  obtain ⟨group, hgroup, hin⟩ := hs.inside r hr
  have hdvd : alignment ∣ UInt64.size := Nat.dvd_trans (dvd_eight_of_mem hA).1 (by decide)
  have hpasses : group.passes p.test = fun o =>
      p.holds (bytesAt group.current o p.type.size) (bytesAt group.previous o p.type.size) := by
    funext o
    exact group.passes_test p o
  simp only [matchingSpans, hgroup]
  cases h : s.alignRegion? alignment p.type.size r with
  | none =>
    rw [alignedStarts_eq_nil hgroup hdvd h]
    rfl
  | some r' =>
    have hend : r.endOffset < UInt64.size := Nat.lt_of_le_of_lt hin group.size_lt
    obtain ⟨hread, _, _⟩ := alignRegion?_eq_some hgroup hend h
    have hstarts := starts_alignRegion hgroup hend hdvd p.type.size_pos h
    rw [← hread] at hgroup
    rw [Option.toList_some, List.flatMap_singleton, found_eq hgroup, hpasses, hread]
    show spans r.readGroup alignment p.type.size ((r'.starts alignment p.type.size).filter _) = _
    rw [hstarts]

theorem map_place_aligned (s : Snapshot) (hA : 0 < alignment) (elementSize : Nat) :
    (s.aligned alignment elementSize).regions.map Region.place =
      (s.regions.filterMap (s.alignRegion? alignment elementSize)).map Region.place := by
  rw [aligned, map_place_build, Nat.max_eq_left hA]

theorem inside_of_place_eq (h : r'.place = r.place)
    (hin : ∃ group, s.groups[r'.readGroup]? = some group ∧ r'.endOffset ≤ group.size) :
    ∃ group, s.groups[r.readGroup]? = some group ∧ r.endOffset ≤ group.size := by
  simp only [Region.place, Prod.mk.injEq] at h
  unfold Region.endOffset at hin ⊢
  rwa [h.1, h.2.1, h.2.2] at hin

theorem inside_of_mem_aligned (hs : s.Valid) (hA : 0 < alignment) (elementSize : Nat)
    (hr : r' ∈ (s.aligned alignment elementSize).regions) :
    ∃ group, s.groups[r'.readGroup]? = some group ∧ r'.endOffset ≤ group.size := by
  have hplace := List.mem_map_of_mem (f := Region.place) hr
  rw [map_place_aligned s hA, List.mem_map] at hplace
  obtain ⟨r'', hmem, hplace⟩ := hplace
  obtain ⟨r, hr, halign⟩ := List.mem_filterMap.1 hmem
  obtain ⟨group, hgroup, hin⟩ := hs.inside r hr
  have hend : r.endOffset < UInt64.size := Nat.lt_of_le_of_lt hin group.size_lt
  obtain ⟨hread, _, hend'⟩ := alignRegion?_eq_some hgroup hend halign
  exact inside_of_place_eq hplace ⟨group, by rw [hread, hgroup], by omega⟩

theorem collectMatches_of_ok (aligned : Snapshot) {order : List Region}
    {work : Region → Except Error (List Region)} {found : Region → List Region}
    (h : ∀ r ∈ order, work r = .ok (found r)) :
    aligned.collectMatches (order.map work) =
      ((aligned.withRegions aligned.name (order.flatMap found)).sort, 0) := by
  have hwork : order.map work = (order.map found).map .ok := by
    rw [List.map_map]
    exact List.map_congr_left h
  rw [hwork]
  simp only [collectMatches, List.flatMap_map, List.countP_map]
  congr 1
  simp [Function.comp_def, Except.toOption]

/-- Scanning all regions of a snapshot finds the spans of the elements that match, and no region fails. -/
theorem scanAll_spec (hs : s.Valid) (hp : p.test.Lawful) (hA : alignment ∈ [1, 2, 4, 8]) :
    ∃ result, s.scanAll p alignment = (result, 0) ∧
      result.groups = s.groups ∧ result.alignment = alignment ∧ result.elementSize = p.type.size ∧
      (result.regions.map Region.place).Perm ((s.regions.flatMap (s.matchingSpans p alignment)).map Region.place) ∧
      result.regions.Pairwise fun x y =>
        x.readGroup < y.readGroup ∨ x.readGroup = y.readGroup ∧ x.offset ≤ y.offset := by
  have hpos := (dvd_eight_of_mem hA).2
  have hsize := p.type.size_pos
  let aligned := s.aligned alignment p.type.size
  let order := aligned.bySize.map (·.1)
  -- scanning the largest regions first only permutes what is found
  have hperm : order.Perm aligned.regions := aligned.bySize_perm
  have hwork : ∀ r ∈ order, aligned.scanRegion r p.test alignment = .ok (s.found p.test alignment r) := by
    intro r hr
    obtain ⟨group, hgroup, hin⟩ := inside_of_mem_aligned hs hpos p.type.size (hperm.mem_iff.1 hr)
    exact scanRegion_eq_found (s := aligned) hgroup hin hp p.type.size_mem hA
  let result := aligned.withRegions aligned.name (order.flatMap (s.found p.test alignment))
  have hregions : aligned.regions.flatMap (s.found p.test alignment) =
      s.regions.flatMap (s.matchingSpans p alignment) := by
    have hplaces := s.map_place_aligned hpos p.type.size
    have hflat : aligned.regions.flatMap (s.found p.test alignment) = _ :=
      flatMap_eq_of_map_place_eq (fun _ _ => rfl) hplaces
    rw [hflat, List.filterMap_eq_flatMap_toList, List.flatMap_assoc]
    apply List.flatMap_congr
    intro r hr
    exact found_alignRegion hs hr hA
  have halignment : result.sort.alignment = alignment := by
    show max (max (max alignment 1) 1) 1 = alignment
    omega
  have helementSize : result.sort.elementSize = p.type.size := by
    show max (max (max p.type.size 1) 1) 1 = p.type.size
    omega
  have hplaces : (result.regions.map Region.place).Perm
      ((s.regions.flatMap (s.matchingSpans p alignment)).map Region.place) := by
    have hfound := (hperm.flatMap_right (s.found p.test alignment)).map Region.place
    rw [hregions] at hfound
    show ((build _ _ _ _ _).regions.map Region.place).Perm _
    rwa [map_place_build]
  exact ⟨result.sort, collectMatches_of_ok aligned hwork, rfl, halignment, helementSize,
    result.map_place_sort_perm.trans hplaces, result.pairwise_sort⟩

/-- An undisturbed scan of a snapshot whose regions lie inside their read groups completes.  It finds exactly the spans
of the elements at aligned addresses that satisfy the constraint, and puts them in order. -/
theorem scan_exact {σ : Type} (hs : s.Valid) (settings : ScanSettings) {watch : Watch σ} {calm : σ → Prop}
    (hwatch : watch.Calm calm) {c : Constraint} {type : DataType} (hp : Predicate.compile c type = .ok p)
    {task : String} {scene : Scene σ} (hscene : calm scene.state) (htask : scene.registry.state task ≠ .running) :
    let alignment := settings.alignment.resolve p.type.size
    ∃ result, (s.scan settings watch c type task scene).1 = .ok ⟨task, .completed, some result, 0⟩ ∧
      result.groups = s.groups ∧ result.alignment = alignment ∧ result.elementSize = p.type.size ∧
      (result.regions.map Region.place).Perm ((s.regions.flatMap (s.matchingSpans p alignment)).map Region.place) ∧
      result.regions.Pairwise fun x y =>
        x.readGroup < y.readGroup ∨ x.readGroup = y.readGroup ∧ x.offset ≤ y.offset := by
  intro alignment
  obtain ⟨t, _, hprepare⟩ := Predicate.compile_eq_ok hp
  have hA : alignment ∈ [1, 2, 4, 8] := settings.alignment.resolve_mem p.type.size_mem
  obtain ⟨result, hall, hresult⟩ := scanAll_spec hs (Predicate.lawful_test hprepare) hA
  refine ⟨result, ?_, hresult⟩
  have hscan := scan_of_calm s settings hwatch hp hscene htask
  have hresolve : settings.alignment.resolve p.test.size = alignment := rfl
  rw [hscan, hresolve, hall]

theorem scan_exact_unaligned_base :
    let bytes : Array UInt8 := #[0, 7, 7, 0, 7, 0, 7, 0, 0, 0, 0, 0, 0, 0, 0, 0, 0, 0, 7, 0, 0, 0, 7, 0]
    let group : ReadGroup := ⟨⟨0x1002⟩, bytes, bytes, none, rfl, by simp, by decide⟩
    let s := build "start" #[group] [{ readGroup := 0, offset := 1, length := 22 }] 1 1
    let c : Constraint := .leaf .equal (some (.number (.unsigned .two) 7#16))
    let scene : Scene Unit := ⟨{ history := 4 }, ()⟩
    s.Valid ∧ scene.registry.state "scan" ≠ .running ∧
      (∃ p, Predicate.compile c ⟨.number (.unsigned .two), .little⟩ = .ok p) ∧
      ∃ result, (s.scan {} Watch.unattended c ⟨.number (.unsigned .two), .little⟩ "scan" scene).1 =
          .ok ⟨"scan", .completed, some result, 0⟩ ∧
        (result.regions.map Region.place).Perm [(0, 2, 6), (0, 18, 2)] := by
  intro bytes group s c scene
  have hs : s.Valid := by decide
  have hcompile : Predicate.compile c ⟨.number (.unsigned .two), .little⟩ =
    .ok ⟨.unsigned .two, .little, false, .leaf .equal 7#16⟩ := rfl
  have htask : scene.registry.state "scan" ≠ .running := by decide
  obtain ⟨result, hscan, _, _, _, hplaces, _⟩ := scan_exact hs {} Watch.calm_unattended hcompile trivial htask
  have hspans : (s.regions.flatMap (s.matchingSpans ⟨.unsigned .two, .little, false, .leaf .equal 7#16⟩ 2)).map
      Region.place = [(0, 2, 6), (0, 18, 2)] := by decide +kernel
  refine ⟨hs, htask, ⟨_, hcompile⟩, result, hscan, ?_⟩
  rw [← hspans]
  exact hplaces

end Snapshot
end Memsift
