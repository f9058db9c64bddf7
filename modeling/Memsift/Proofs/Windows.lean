import Memsift.Proofs.Results

/-!
# Windows

What a scan makes of any regions, whether or not they lie inside their read groups.  A scan looks at the windows that
aligning leaves of the regions (`Snapshot.windows`).  The key facts: the windows that do not lie inside their groups are
the ones that fail (`snd_scanAll`), and only the others have a part in the result (`fst_scanAll`), in the same order as
without the failing ones, because sorting is stable (`filter_mergeSort`); as long as no offset wraps around, a window
lies inside its group if and only if its region does (`contains_of_alignRegion?_eq_some`).
-/

namespace Memsift

section Stable

variable {α : Type} {le : α → α → Bool}

theorem append_inj_of_forall {q : α → Bool} {xs xs' ys ys' : List α} (h : xs ++ ys = xs' ++ ys')
    (hxs : ∀ a ∈ xs, q a = true) (hxs' : ∀ a ∈ xs', q a = true) (hys : ∀ a ∈ ys, ¬ q a = true)
    (hys' : ∀ a ∈ ys', ¬ q a = true) : xs = xs' ∧ ys = ys' := by
  have hfilter := congrArg (List.filter q) h
  rw [List.filter_append, List.filter_append, List.filter_eq_self.2 hxs, List.filter_eq_self.2 hxs',
    List.filter_eq_nil_iff.2 hys, List.filter_eq_nil_iff.2 hys', List.append_nil, List.append_nil] at hfilter
  subst hfilter
  exact ⟨rfl, List.append_cancel_left h⟩

/-- Sorting keeps the order of equals, so elements can be chosen before it as well as after it. -/
theorem filter_mergeSort (htrans : ∀ a b c, le a b = true → le b c = true → le a c = true)
    (htotal : ∀ a b, (le a b || le b a) = true) (q : α → Bool) (l : List α) :
    (l.mergeSort le).filter q = (l.filter q).mergeSort le := by
  have hafter : ∀ {a : α} {l xs ys : List α}, (a :: l).mergeSort le = xs ++ a :: ys →
      ∀ b ∈ ys, ¬ (!le a b) = true := by
    intro a l xs ys h b hb
    have hsorted := List.pairwise_mergeSort htrans htotal (a :: l)
    rw [h, List.pairwise_append, List.pairwise_cons] at hsorted
    simp [hsorted.2.1.1 b hb]
  induction l with
  | nil => rw [List.mergeSort_nil, List.filter_nil, List.mergeSort_nil]
  | cons a l ih =>
    obtain ⟨xs, ys, hcons, hl, hbefore⟩ := List.mergeSort_cons htrans htotal a l
    rw [hl, List.filter_append] at ih
    rw [hcons, List.filter_append]
    by_cases ha : q a = true
    · rw [List.filter_cons_of_pos ha, List.filter_cons_of_pos ha]
      obtain ⟨xs', ys', hcons', hl', hbefore'⟩ := List.mergeSort_cons htrans htotal a (l.filter q)
      rw [hl'] at ih
      -- `a` stands in both lists behind what is less than it and before everything else
      obtain ⟨hxs, hys⟩ := append_inj_of_forall (q := fun b => !le a b) ih
        (fun b hb => hbefore b (List.mem_of_mem_filter hb)) hbefore'
        (fun b hb => hafter hcons b (List.mem_of_mem_filter hb)) (hafter hcons')
      rw [hcons', hxs, hys]
    · rw [List.filter_cons_of_neg ha, List.filter_cons_of_neg ha, ih]

end Stable

namespace Snapshot

variable {s t : Snapshot} {r r' : Region} {group : ReadGroup} {test : ElementTest} {p : Predicate}
  {alignment elementSize : Nat}

/-- Whether a region lies inside its read group. -/
def contains (s : Snapshot) (r : Region) : Bool := (s.groups[r.readGroup]?).any (r.endOffset ≤ ·.size)

/-- What aligning leaves of the regions. -/
def windows (s : Snapshot) (alignment elementSize : Nat) : List Region :=
  s.regions.filterMap (s.alignRegion? alignment elementSize)

/-- The order in which windows are scanned. -/
def notSmaller (x y : Region) : Bool := decide (y.length ≤ x.length)

/-- What is reported of a window, which is nothing if it cannot be scanned. -/
def reported (s : Snapshot) (test : ElementTest) (alignment : Nat) (r : Region) : List Region :=
  (s.scanRegion r test alignment).toOption.getD []

theorem contains_eq_true_iff :
    s.contains r = true ↔ ∃ group, s.groups[r.readGroup]? = some group ∧ r.endOffset ≤ group.size := by
  simp [contains, Option.any_eq_true]

theorem contains_congr (hgroups : t.groups = s.groups) : t.contains = s.contains := by
  funext r
  rw [contains, hgroups, contains]

theorem alignRegion?_congr (hgroups : t.groups = s.groups) : t.alignRegion? = s.alignRegion? := by
  funext alignment elementSize r
  simp only [alignRegion?, hgroups]

theorem reported_congr (hgroups : t.groups = s.groups) : t.reported = s.reported := by
  funext test alignment r
  simp only [reported, scanRegion, view, hgroups]

theorem windows_eq (hgroups : t.groups = s.groups) {rs : List Region}
    (h : t.regions.map Region.place = rs.map Region.place) (alignment elementSize : Nat) :
    t.windows alignment elementSize = rs.filterMap (s.alignRegion? alignment elementSize) := by
  rw [windows, alignRegion?_congr hgroups, List.filterMap_eq_flatMap_toList, List.filterMap_eq_flatMap_toList]
  exact flatMap_eq_of_map_place_eq (fun _ _ => rfl) h

/-- The first aligned address in a region, if there is one, has an offset that is a machine word. -/
def Unwrapped (s : Snapshot) (alignment : Nat) (r : Region) : Prop :=
  ∀ group, s.groups[r.readGroup]? = some group → r.padding group.base alignment ≤ r.length →
    r.offset + r.padding group.base alignment < UInt64.size

theorem unwrapped_of_endOffset_lt (h : r.endOffset < UInt64.size) : s.Unwrapped alignment r := by
  intro group _ hgap
  unfold Region.endOffset at h
  omega

theorem contains_of_alignRegion?_eq_some (hwrap : s.Unwrapped alignment r)
    (h : s.alignRegion? alignment elementSize r = some r') : s.contains r' = s.contains r := by
  cases hgroup : s.groups[r.readGroup]? with
  | none =>
    simp only [alignRegion?, hgroup] at h
    cases h
  | some group =>
    rw [alignRegion?_eq hgroup, Address.gap_add_offset] at h
    simp only at h
    split at h
    · cases h
    · rename_i hskip
      obtain rfl := Option.some.inj h
      have hoffset := Nat.mod_eq_of_lt (hwrap group hgroup (by omega))
      have hend : (r.offset + r.padding group.base alignment) % UInt64.size +
          (r.length - r.padding group.base alignment) = r.endOffset := by
        unfold Region.endOffset
        omega
      rw [contains, contains, Region.endOffset, hend]

theorem filter_windows (hwrap : ∀ r ∈ s.regions, s.Unwrapped alignment r) :
    (s.windows alignment elementSize).filter s.contains =
      (s.regions.filter s.contains).filterMap (s.alignRegion? alignment elementSize) := by
  rw [windows, List.filter_filterMap, List.filterMap_filter]
  apply List.filterMap_congr
  intro r hr
  cases h : s.alignRegion? alignment elementSize r with
  | none => simp
  | some r' => rw [Option.filter_some, contains_of_alignRegion?_eq_some (hwrap r hr) h]

theorem map_place_bySize {rs : List Region} (h : s.regions.map Region.place = rs.map Region.place) :
    (s.bySize.map (·.1)).map Region.place = (rs.mergeSort notSmaller).map Region.place := by
  have hplaces : ∀ rs : List Region, (rs.mergeSort notSmaller).map Region.place =
      (rs.map Region.place).mergeSort fun x y => decide (y.2.2 ≤ x.2.2) :=
    fun rs => List.map_mergeSort fun _ _ _ _ => rfl
  have horder : s.bySize.map (·.1) = (s.regions.zipIdx.map (·.1)).mergeSort notSmaller :=
    List.map_mergeSort fun _ _ _ _ => rfl
  rw [horder, List.zipIdx_map_fst, hplaces, h, hplaces]

theorem scanAll_eq (s : Snapshot) (p : Predicate) (hA : 0 < alignment) :
    s.scanAll p alignment = (s.aligned alignment p.test.size).collectMatches
      (((s.windows alignment p.test.size).mergeSort notSmaller).map fun r => s.scanRegion r p.test alignment) := by
  have hplaces := s.map_place_aligned hA p.test.size
  have hwork := map_eq_of_map_place_eq (g := fun r => s.scanRegion r p.test alignment) (fun _ _ => rfl)
    (map_place_bySize hplaces)
  rw [scanAll, windows, ← hwork]
  rfl

/-- A window can be scanned if it lies inside its group. -/
theorem toOption_scanRegion_isNone (htest : test.Lawful) (hsize : test.size ∈ [1, 2, 4, 8])
    (hA : alignment ∈ [1, 2, 4, 8]) (r : Region) :
    (s.scanRegion r test alignment).toOption.isNone = !s.contains r := by
  by_cases hin : s.contains r = true
  · obtain ⟨group, hgroup, hend⟩ := contains_eq_true_iff.1 hin
    rw [scanRegion_eq_found hgroup hend htest hsize hA, hin]
    rfl
  · have hview : ∀ view, s.view r ≠ .ok view := by
      intro view h
      obtain ⟨hgroup, _, hoffset, hlength⟩ := view_eq_ok h
      refine hin (contains_eq_true_iff.2 ⟨view.group, hgroup, ?_⟩)
      rw [Region.endOffset, ← hoffset, ← hlength]
      exact view.inside
    cases h : s.view r with
    | ok view => exact absurd h (hview view)
    | error e =>
      simp only [scanRegion, h, hin]
      rfl

section Lawful

variable (htest : p.test.Lawful) (hA : alignment ∈ [1, 2, 4, 8])
include htest hA

/-- The failures are the windows that do not lie inside their groups. -/
theorem snd_scanAll (s : Snapshot) :
    (s.scanAll p alignment).2 = (s.windows alignment p.type.size).countP fun r => !s.contains r := by
  have hfails : ∀ r : Region, (s.scanRegion r p.test alignment).toOption.isNone = !s.contains r :=
    toOption_scanRegion_isNone htest p.type.size_mem hA
  rw [scanAll_eq s p (dvd_eight_of_mem hA).2, collectMatches, List.countP_map]
  simp only [Function.comp_def, hfails]
  exact (List.mergeSort_perm _ _).countP_eq _

/-- Only windows inside their groups have a part in the result, in the order in which they come without the others. -/
theorem fst_scanAll (s : Snapshot) :
    (s.scanAll p alignment).1 =
      (build s.name s.groups ((((s.windows alignment p.type.size).filter s.contains).mergeSort notSmaller).flatMap
        (s.reported p.test alignment)) alignment p.type.size).sort := by
  have htrans : ∀ x y z, notSmaller x y = true → notSmaller y z = true → notSmaller x z = true := by
    intro x y z hxy hyz
    simp only [notSmaller, decide_eq_true_eq] at *
    omega
  have htotal : ∀ x y, (notSmaller x y || notSmaller y x) = true := by
    intro x y
    simp only [notSmaller, Bool.or_eq_true, decide_eq_true_eq]
    omega
  have hreported : ∀ rs : List Region, rs.flatMap (s.reported p.test alignment) =
      (rs.filter s.contains).flatMap (s.reported p.test alignment) := by
    intro rs
    induction rs with
    | nil => rfl
    | cons r rs ih =>
      rw [List.flatMap_cons, ih, List.filter_cons]
      split
      · rw [List.flatMap_cons]
      · rename_i hout
        have hnone := toOption_scanRegion_isNone (s := s) htest p.type.size_mem hA r
        rw [Bool.not_eq_true] at hout
        rw [hout, Bool.not_false, Option.isNone_iff_eq_none] at hnone
        rw [reported, hnone, Option.getD_none, List.nil_append]
  rw [scanAll_eq s p (dvd_eight_of_mem hA).2, ← filter_mergeSort htrans htotal, ← hreported]
  simp only [collectMatches, List.flatMap_map]
  simp only [withRegions, aligned, build, Nat.max_eq_left (Nat.le_max_right _ 1)]
  rfl

/-- Snapshots with the same windows inside their groups have the same result. -/
theorem fst_scanAll_congr (hname : t.name = s.name) (hgroups : t.groups = s.groups)
    (h : (t.windows alignment p.type.size).filter s.contains =
      (s.windows alignment p.type.size).filter s.contains) :
    (t.scanAll p alignment).1 = (s.scanAll p alignment).1 := by
  rw [fst_scanAll htest hA, fst_scanAll htest hA, contains_congr hgroups, reported_congr hgroups, hname, hgroups, h]

end Lawful

end Snapshot
end Memsift
