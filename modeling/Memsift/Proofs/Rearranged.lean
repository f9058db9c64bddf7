import Memsift.Proofs.Isolation

/-!
# Rearranged regions

The order of the regions of a snapshot has no influence on a scan.  The largest regions are scanned first, and regions
of one size in the order in which they come; but what is found is sorted afterwards by read group and offset.  The key
facts: each region of a result begins with one of its elements (`ResultOf.start_mem_elements`), so two of them begin
at the same place only if an element is found twice (`ResultOf.nodup_starts`); hence the order of a result is the only
one there is (`eq_of_perm_of_nodup_starts`), and with it the numbers of its elements (`scan_rearranged`).
-/

namespace Memsift

variable {s t result : Snapshot} {r : Region} {p : Predicate} {alignment elementSize : Nat}

theorem offset_mem_starts_of_mem_spans (hA : 0 < alignment) (hS : 0 < elementSize) {readGroup : Nat}
    {offsets : List Nat} (h : r ∈ spans readGroup alignment elementSize offsets) :
    r.offset ∈ r.starts alignment elementSize := by
  rw [spans_eq, List.mem_map] at h
  obtain ⟨run, hrun, rfl⟩ := h
  have hne := List.ne_nil_of_mem_splitBy hrun
  rw [starts_ofRun hA hS hne (List.isChain_of_mem_splitBy hrun)]
  obtain ⟨first, rest, rfl⟩ := List.exists_cons_of_ne_nil hne
  exact List.mem_cons_self

/-- Windows in the order of read groups and offsets are in the only such order if no two of them begin at the same
place. -/
theorem eq_of_perm_of_nodup_starts {xs ys : List (Nat × Nat × Nat)} (hperm : xs.Perm ys)
    (hxs : xs.Pairwise fun x y => x.1 < y.1 ∨ x.1 = y.1 ∧ x.2.1 ≤ y.2.1)
    (hys : ys.Pairwise fun x y => x.1 < y.1 ∨ x.1 = y.1 ∧ x.2.1 ≤ y.2.1)
    (hnodup : (xs.map fun x => (x.1, x.2.1)).Nodup) : xs = ys := by
  refine hperm.eq_of_pairwise ?_ hxs hys
  intro x y hx hy hxy hyx
  refine List.inj_on_of_nodup_map hnodup hx (hperm.mem_iff.2 hy) ?_
  exact Prod.ext (by omega) (by omega)

namespace Snapshot

theorem number_congr {rs rs' : List Region} (h : rs.map Region.place = rs'.map Region.place)
    (alignment elementSize before : Nat) :
    number alignment elementSize before rs = number alignment elementSize before rs' := by
  induction rs generalizing rs' before with
  | nil => rw [List.map_eq_nil_iff.1 h.symm]
  | cons r rs ih =>
    obtain ⟨r', rs', rfl, hr, hrs⟩ := List.map_eq_cons_iff.1 h.symm
    simp only [Region.place, Prod.mk.injEq] at hr
    obtain ⟨hgroup, hoffset, hlength⟩ := hr
    rw [number, number, hgroup, hoffset, hlength, ih hrs.symm]

/-- A snapshot is determined by its windows. -/
theorem build_congr {rs rs' : List Region} (h : rs.map Region.place = rs'.map Region.place) (name : String)
    (groups : Array ReadGroup) (alignment elementSize : Nat) :
    build name groups rs alignment elementSize = build name groups rs' alignment elementSize := by
  have hlengths := map_eq_of_map_place_eq (g := Region.length) (fun _ _ => rfl) h
  have hcounts := map_eq_of_map_place_eq
    (g := fun r => Memsift.elementCount r.length (max alignment 1) (max elementSize 1)) (fun _ _ => rfl) h
  simp only [build, number_congr h, hlengths, hcounts]

/-- The result of a scan is built from its own windows. -/
theorem fst_scanAll_eq_build (htest : p.test.Lawful) (hA : alignment ∈ [1, 2, 4, 8]) (s : Snapshot) :
    (s.scanAll p alignment).1 =
      build s.name s.groups (s.scanAll p alignment).1.regions alignment p.type.size := by
  obtain ⟨rs, hrs⟩ : ∃ rs, (s.scanAll p alignment).1 = build s.name s.groups rs alignment p.type.size := by
    have halignment : max alignment 1 = alignment := Nat.max_eq_left (dvd_eight_of_mem hA).2
    have helementSize : max p.type.size 1 = p.type.size := Nat.max_eq_left p.type.size_pos
    rw [fst_scanAll htest hA, sort]
    simp only [build, halignment, helementSize]
    exact ⟨_, rfl⟩
  rw [hrs]
  exact build_congr (map_place_build ..).symm ..

/-- Every region of a result begins with one of its elements. -/
theorem ResultOf.start_mem_elements (h : s.ResultOf p alignment result) (hs : s.Valid) (hr : r ∈ result.regions) :
    (r.readGroup, r.offset) ∈ r.elements result.alignment result.elementSize := by
  have hplace := h.places_perm.subset (List.mem_map_of_mem hr)
  obtain ⟨r', hr', hplace⟩ := List.mem_map.1 hplace
  obtain ⟨origin, horigin, hr'⟩ := List.mem_flatMap.1 hr'
  obtain ⟨group, hgroup, _⟩ := hs.inside origin horigin
  rw [matchingSpans_eq hgroup] at hr'
  have hA : 0 < alignment := by
    rw [← h.alignment_eq]
    exact h.indexed.alignment_pos
  have hstart := offset_mem_starts_of_mem_spans hA p.type.size_pos hr'
  simp only [Region.place, Prod.mk.injEq] at hplace
  obtain ⟨-, hoffset, hlength⟩ := hplace
  rw [Region.starts, hoffset, hlength] at hstart
  rw [h.alignment_eq, h.elementSize_eq]
  exact List.mem_map_of_mem hstart

theorem ResultOf.nodup_starts (h : s.ResultOf p alignment result) (hs : s.Valid) (hnodup : result.elements.Nodup) :
    (result.regions.map fun r => (r.readGroup, r.offset)).Nodup := by
  rw [List.Nodup, List.pairwise_map]
  refine (List.nodup_flatMap.1 hnodup).2.imp_of_mem ?_
  intro x y hx hy hdisjoint heq
  have hstart := h.start_mem_elements hs hy
  rw [← heq] at hstart
  exact hdisjoint (h.start_mem_elements hs hx) hstart

theorem pairwise_wellFormed
    (h : s.regions.Pairwise fun x y =>
      (s.alignedElements alignment elementSize x).Disjoint (s.alignedElements alignment elementSize y)) :
    s.wellFormed.regions.Pairwise fun x y =>
      (s.wellFormed.alignedElements alignment elementSize x).Disjoint
        (s.wellFormed.alignedElements alignment elementSize y) := by
  have hmap := map_eq_of_map_place_eq (g := s.alignedElements alignment elementSize) (fun _ _ => rfl)
    s.map_place_wellFormed
  have hpairwise := h.filter s.contains
  rw [← List.pairwise_map, ← hmap, List.pairwise_map] at hpairwise
  exact hpairwise

theorem endOffset_lt_of_perm (hperm : (t.regions.map Region.place).Perm (s.regions.map Region.place))
    (hend : ∀ r ∈ s.regions, r.endOffset < UInt64.size) : ∀ r ∈ t.regions, r.endOffset < UInt64.size := by
  intro r hr
  obtain ⟨r', hr', hplace⟩ := List.mem_map.1 (hperm.subset (List.mem_map_of_mem hr))
  have hlt := hend r' hr'
  simp only [Region.place, Prod.mk.injEq] at hplace
  unfold Region.endOffset at hlt ⊢
  omega

section Rearranged

variable (hgroups : t.groups = s.groups) (hperm : (t.regions.map Region.place).Perm (s.regions.map Region.place))
include hgroups hperm

theorem windows_perm (alignment elementSize : Nat) :
    (t.windows alignment elementSize).Perm (s.windows alignment elementSize) := by
  rw [windows, windows, alignRegion?_congr hgroups, List.filterMap_eq_flatMap_toList,
    List.filterMap_eq_flatMap_toList]
  exact flatMap_perm_of_map_place_perm (fun _ _ => rfl) hperm

theorem map_place_wellFormed_perm :
    (t.wellFormed.regions.map Region.place).Perm (s.wellFormed.regions.map Region.place) := by
  have hfilter : ∀ rs : List Region, (rs.filter s.contains).map Region.place =
      (rs.map Region.place).filter fun place => s.contains (.ofPlace place) := by
    intro rs
    rw [List.filter_map]
    rfl
  rw [map_place_wellFormed, map_place_wellFormed, contains_congr hgroups, hfilter, hfilter]
  exact hperm.filter _

variable (htest : p.test.Lawful) (hA : alignment ∈ [1, 2, 4, 8])
  (hend : ∀ r ∈ s.regions, r.endOffset < UInt64.size)
include htest hA hend

theorem fst_scanAll_rearranged {c : Constraint} {n : NumberType} {order : ByteOrder}
    (hp : Predicate.prepare c n order = .ok p)
    (hapart : s.regions.Pairwise fun x y =>
      (s.alignedElements alignment p.type.size x).Disjoint (s.alignedElements alignment p.type.size y)) :
    (t.scanAll p alignment).1 = { (s.scanAll p alignment).1 with name := t.name } := by
  have hwrap : ∀ r ∈ s.regions, s.Unwrapped alignment r := fun r hr => unwrapped_of_endOffset_lt (hend r hr)
  have hwrap' : ∀ r ∈ t.regions, t.Unwrapped alignment r :=
    fun r hr => unwrapped_of_endOffset_lt (endOffset_lt_of_perm hperm hend r hr)
  have hresult := resultOf_wellFormed htest hA hwrap
  have hresult' := resultOf_wellFormed htest hA hwrap'
  have hsame : t.wellFormed.matchingSpans p alignment = s.wellFormed.matchingSpans p alignment := by
    funext r
    have hwellFormed : t.wellFormed.groups = s.wellFormed.groups := hgroups
    simp only [matchingSpans, hwellFormed]
  have hplaces : ((t.scanAll p alignment).1.regions.map Region.place).Perm
      ((s.scanAll p alignment).1.regions.map Region.place) := by
    have hfound := flatMap_perm_of_map_place_perm (f := s.wellFormed.matchingSpans p alignment) (fun _ _ => rfl)
      (map_place_wellFormed_perm hgroups hperm)
    refine hresult'.places_perm.trans (.trans ?_ hresult.places_perm.symm)
    rw [hsame]
    exact hfound.map _
  have hvalid := s.valid_wellFormed
  have hnodup : (((s.scanAll p alignment).1.regions.map Region.place).map fun x => (x.1, x.2.1)).Nodup := by
    rw [List.map_map]
    exact hresult.nodup_starts hvalid (hresult.nodup_elements hvalid hp (pairwise_wellFormed hapart))
  -- the windows of both results are in the same order, so their numbers are the same as well
  have heq : (t.scanAll p alignment).1.regions.map Region.place = (s.scanAll p alignment).1.regions.map Region.place :=
    eq_of_perm_of_nodup_starts hplaces (List.pairwise_map.2 hresult'.sorted) (List.pairwise_map.2 hresult.sorted)
      ((hplaces.map _).nodup_iff.2 hnodup)
  rw [fst_scanAll_eq_build htest hA t, fst_scanAll_eq_build htest hA s, build_congr heq, hgroups]
  rfl

end Rearranged

/-- Nothing disturbs a scan: the task is not running, the token is never set, and every report is taken. -/
def Undisturbed {σ : Type} (watch : Watch σ) (task : String) (scene : Scene σ) : Prop :=
  ∃ calm : σ → Prop, watch.Calm calm ∧ calm scene.state ∧ scene.registry.state task ≠ .running

theorem scan_of_compile_eq_error {σ : Type} {watch : Watch σ} {task : String} {scene : Scene σ}
    (h : Undisturbed watch task scene) {c : Constraint} {type : DataType} {e : Error}
    (he : Predicate.compile c type = .error e) (s : Snapshot) (settings : ScanSettings) :
    (s.scan settings watch c type task scene).1 = .error e := by
  obtain ⟨_, _, _, htask⟩ := h
  obtain ⟨registry, hregistry⟩ := TaskRegistry.exists_begin htask
  simp only [scan, hregistry, he]

/-- If no aligned element belongs to two regions, undisturbed scans of the same regions in another order end in the same
way: with the same error, or with the same result and the same number of failures. -/
theorem scan_rearranged {σ τ : Type} {watch : Watch σ} {watch' : Watch τ} {task task' : String} {scene : Scene σ}
    {scene' : Scene τ} (h : Undisturbed watch task scene) (h' : Undisturbed watch' task' scene')
    (hgroups : t.groups = s.groups) (hperm : (t.regions.map Region.place).Perm (s.regions.map Region.place))
    (hend : ∀ r ∈ s.regions, r.endOffset < UInt64.size) (settings : ScanSettings) (c : Constraint) (type : DataType)
    (hapart : ∀ n, type.valueType = .number n → s.regions.Pairwise fun x y =>
      (s.alignedElements (settings.alignment.resolve n.size) n.size x).Disjoint
        (s.alignedElements (settings.alignment.resolve n.size) n.size y)) :
    (t.scan settings watch' c type task' scene').1 =
      (s.scan settings watch c type task scene).1.map fun outcome =>
        { outcome with
          task := task'
          snapshot := outcome.snapshot.map fun result => { result with name := t.name } } := by
  cases hp : Predicate.compile c type with
  | error e =>
    rw [scan_of_compile_eq_error h hp, scan_of_compile_eq_error h' hp]
    rfl
  | ok p =>
    obtain ⟨n, htype, hprepare⟩ := Predicate.compile_eq_ok hp
    have hn : p.type = n := by
      obtain ⟨tree, _, rfl⟩ := Predicate.prepare_eq_ok hprepare
      rfl
    have htest := Predicate.lawful_of_compile hp
    have hA := settings.alignment.resolve_mem p.type.size_mem
    specialize hapart n htype
    rw [← hn] at hapart
    have hresult := fst_scanAll_rearranged hgroups hperm htest hA hend hprepare hapart
    have hfailed : (t.scanAll p (settings.alignment.resolve p.type.size)).2 =
        (s.scanAll p (settings.alignment.resolve p.type.size)).2 := by
      rw [snd_scanAll htest hA, snd_scanAll htest hA, contains_congr hgroups]
      exact (windows_perm hgroups hperm _ _).countP_eq _
    obtain ⟨calm, hwatch, hscene, htask⟩ := h
    obtain ⟨calm', hwatch', hscene', htask'⟩ := h'
    have hscan := completesWith_of_scanAll_eq hp rfl hresult hfailed watch' calm' task' scene' hwatch' hscene' htask'
    rw [hscan, completesWith_scanAll s settings hp watch calm task scene hwatch hscene htask]
    rfl

/-- Two regions of one length, a longer one behind them that reaches past the end of the group, and one over no group;
they come in both orders, with numbers that mean nothing. -/
theorem scan_rearranged_ties :
    let bytes : Array UInt8 := #[0, 7, 0, 7, 7, 0, 7, 0, 7, 7]
    let groups : Array ReadGroup := #[⟨⟨0x1001⟩, bytes, bytes, none, rfl, by simp, by decide⟩]
    let s := build "one" groups [⟨0, 5, 3, 0⟩, ⟨0, 0, 3, 0⟩, ⟨0, 8, 4, 0⟩, ⟨3, 0, 9, 0⟩] 1 1
    let t : Snapshot := { s with name := "two", regions := [⟨3, 0, 9, 8⟩, ⟨0, 0, 3, 5⟩, ⟨0, 8, 4, 5⟩, ⟨0, 5, 3, 1⟩] }
    let settings : ScanSettings := { alignment := .fixed .one }
    let type : DataType := ⟨.number (.unsigned .two), .little⟩
    let c : Constraint := .leaf .notEqual (some (.number (.unsigned .two) 7#16))
    let scene : Scene Unit := ⟨{ history := 4 }, ()⟩
    Undisturbed Watch.unattended "scan" scene ∧ t.groups = s.groups ∧
      (t.regions.map Region.place).Perm (s.regions.map Region.place) ∧
      (∀ r ∈ s.regions, r.endOffset < UInt64.size) ∧
      (s.regions.Pairwise fun x y => (s.alignedElements 1 2 x).Disjoint (s.alignedElements 1 2 y)) ∧
      ∃ result, (s.scan settings Watch.unattended c type "scan" scene).1 = .ok ⟨"scan", .completed, some result, 1⟩ ∧
        (t.scan settings Watch.unattended c type "again" scene).1 =
          .ok ⟨"again", .completed, some { result with name := "two" }, 1⟩ := by
  intro bytes groups s t settings type c scene
  let p : Predicate := ⟨.unsigned .two, .little, false, .leaf .notEqual 7#16⟩
  have hp : Predicate.compile c type = .ok p := rfl
  have hcalm : ∀ task, scene.registry.state task ≠ .running → Undisturbed Watch.unattended task scene :=
    fun task htask => ⟨_, Watch.calm_unattended, trivial, htask⟩
  have hscene := hcalm "scan" (by decide)
  have hgroups : t.groups = s.groups := rfl
  have hperm : (t.regions.map Region.place).Perm (s.regions.map Region.place) := by decide
  have hend : ∀ r ∈ s.regions, r.endOffset < UInt64.size := by decide
  have hapart : s.regions.Pairwise fun x y => (s.alignedElements 1 2 x).Disjoint (s.alignedElements 1 2 y) := by
    have helements : s.regions.map (s.alignedElements 1 2) =
        [[(0, 5), (0, 6)], [(0, 0), (0, 1)], [(0, 8), (0, 9), (0, 10)], []] := by decide +kernel
    rw [← List.pairwise_map, helements]
    simp
  have hapart' : ∀ n, type.valueType = .number n → s.regions.Pairwise fun x y =>
      (s.alignedElements 1 n.size x).Disjoint (s.alignedElements 1 n.size y) := by
    intro n hn
    obtain rfl := ValueType.number.inj hn
    exact hapart
  have hfailed : (s.scanAll p 1).2 = 1 := by
    rw [snd_scanAll (Predicate.lawful_of_compile hp) (by decide)]
    decide
  have hone : settings.alignment.resolve p.type.size = 1 := rfl
  have hscan := completesWith_of_scanAll_eq hp hone rfl hfailed Watch.unattended _ "scan" scene Watch.calm_unattended
    trivial (by decide)
  have hagain := scan_rearranged hscene (hcalm "again" (by decide)) hgroups hperm hend settings c type hapart'
  rw [hscan] at hagain
  exact ⟨hscene, hgroups, hperm, hend, hapart, _, hscan, hagain⟩

end Snapshot
end Memsift
