import Memsift.Proofs.Narrowing
import Memsift.Proofs.Numbering
import Memsift.Proofs.SpanElements

/-!
# Position independence

Where a view lies does not matter for what is found in it.  The key facts: the bytes of an element inside a view are
those of the values of the view (`bytesAt_extract`), so the elements that pass are told from these values alone
(`matching_eq_map`) and all regions can be given from the start of the view (`scan_eq_map_regionAt`); hence views with
the same values give the same ones, whatever stands around them in their groups (`places_congr`).
-/

namespace Memsift

theorem bytesAt_extract (buffer : Array UInt8) {start length o size : Nat} (h : o + size ≤ length) :
    bytesAt (buffer.extract start (start + length)) o size = bytesAt buffer (start + o) size := by
  have hend : min (start + (o + size)) (start + length) = start + o + size := by omega
  rw [bytesAt, Array.extract_extract, hend, bytesAt]

namespace View

/-- The region at a place in a view: its distance from the start of the view, and its length. -/
def regionAt (view : View) (place : Nat × Nat) : Region :=
  { readGroup := view.groupIndex, offset := view.offset + place.1, length := place.2 }

/-- Whether the element at a distance from the start of a view passes a test, as told from the values of the view. -/
def passes (view : View) (test : ElementTest) (distance : Nat) : Bool :=
  test.holds (bytesAt view.currentValues distance test.size)
    (bytesAt (if test.requiresPrevious then view.previousValues else view.currentValues) distance test.size)

/-- The distances from the start of a view of the elements that pass a test. -/
def distances (view : View) (test : ElementTest) (alignment : Nat) : List Nat :=
  (List.range' 0 (view.elementCount alignment test.size) alignment).filter (view.passes test)

/-- The places in a view of the spans of the elements that pass a test. -/
def places (view : View) (test : ElementTest) (alignment : Nat) : List (Nat × Nat) :=
  (spans 0 alignment test.size (view.distances test alignment)).map fun r => (r.offset, r.length)

variable {view v w : View} {test : ElementTest} {alignment : Nat}

theorem passes_add {distance : Nat} (h : distance + test.size ≤ view.length) :
    view.group.passes test (view.offset + distance) = view.passes test distance := by
  have hcurrent : bytesAt view.currentValues distance test.size =
    bytesAt view.group.current (view.offset + distance) test.size := bytesAt_extract _ h
  have hprevious : bytesAt view.previousValues distance test.size =
    bytesAt view.group.previous (view.offset + distance) test.size := bytesAt_extract _ h
  unfold ReadGroup.passes passes
  cases test.requiresPrevious with
  | false => simp only [Bool.false_eq_true, ↓reduceIte, hcurrent]
  | true => simp only [↓reduceIte, hcurrent, hprevious]

theorem matching_eq_map (hA : 0 < alignment) (hS : 0 < test.size) :
    view.matching test alignment = (view.distances test alignment).map (view.offset + ·) := by
  have hstarts : view.toRegion.starts alignment test.size =
      (List.range' 0 (view.elementCount alignment test.size) alignment).map (view.offset + ·) := by
    rw [List.map_add_range']
    rfl
  rw [matching, hstarts, List.filter_map, distances]
  congr 1
  apply List.filter_congr
  intro distance hmem
  obtain ⟨k, hk, rfl⟩ := List.mem_range'.1 hmem
  have hfit := (lt_elementCount_iff hA hS).1 hk
  rw [Function.comp_apply, passes_add]
  rw [Nat.zero_add, Nat.mul_comm]
  exact hfit

theorem spans_matching (hA : 0 < alignment) (hS : 0 < test.size) :
    spans view.groupIndex alignment test.size (view.matching test alignment) =
      (view.places test alignment).map view.regionAt := by
  rw [matching_eq_map hA hS, spans_map_add, places, List.map_map]
  apply List.map_congr_left
  intro r hr
  obtain ⟨run, _, rfl⟩ := List.mem_map.1 hr
  rfl

theorem length_eq_of_currentValues_eq (h : v.currentValues = w.currentValues) : v.length = w.length := by
  have hsize : ∀ view : View, view.currentValues.size = view.length := by
    intro view
    have hinside : view.offset + view.length ≤ view.group.current.size := view.inside
    rw [currentValues, endOffset, Array.size_extract]
    omega
  rw [← hsize v, ← hsize w, h]

theorem places_congr (hcurrent : v.currentValues = w.currentValues)
    (hprevious : test.requiresPrevious = true → v.previousValues = w.previousValues) :
    v.places test alignment = w.places test alignment := by
  have hpasses : v.passes test = w.passes test := by
    funext distance
    unfold passes
    cases h : test.requiresPrevious with
    | false => simp only [Bool.false_eq_true, ↓reduceIte, hcurrent]
    | true => simp only [↓reduceIte, hcurrent, hprevious h]
  rw [places, distances, elementCount, hpasses, length_eq_of_currentValues_eq hcurrent]
  rfl

/-- Scanning a view, by itself or as a region of any snapshot, finds its places. -/
theorem scan_eq_map_regionAt (htest : test.Lawful) (hsize : test.size ∈ [1, 2, 4, 8]) (hA : alignment ∈ [1, 2, 4, 8])
    (view : View) :
    view.scanChunks test alignment = .ok ((view.places test alignment).map view.regionAt) ∧
      ∀ s r, Snapshot.view s r = .ok view →
        s.scanRegion r test alignment = .ok ((view.places test alignment).map view.regionAt) := by
  rw [← spans_matching (dvd_eight_of_mem hA).2 (dvd_eight_of_mem hsize).2]
  refine ⟨scanChunks_eq_spans view htest hsize hA, ?_⟩
  intro s r hview
  obtain ⟨hgroup, hindex, hoffset, hlength⟩ := Snapshot.view_eq_ok hview
  have hin : r.endOffset ≤ view.group.size := by
    rw [Region.endOffset, ← hoffset, ← hlength]
    exact view.inside
  rw [Snapshot.scanRegion_eq_found hgroup hin htest hsize hA, Snapshot.found_eq hgroup, hindex, matching,
    Region.starts, Region.starts, toRegion, hoffset, hlength]

/-- Views with the same current values, and the same previous ones if these are looked at, give the same places,
wherever they lie and whatever surrounds them. -/
theorem scan_position_independent {c : Constraint} {t : NumberType} {order : ByteOrder} {p : Predicate}
    (hp : Predicate.prepare c t order = .ok p) (hA : alignment ∈ [1, 2, 4, 8])
    (hcurrent : v.currentValues = w.currentValues)
    (hprevious : p.requiresPrevious = true → v.previousValues = w.previousValues) :
    ∃ places : List (Nat × Nat), ∀ view ∈ [v, w],
      view.scanChunks p.test alignment = .ok (places.map view.regionAt) ∧
        ∀ s r, Snapshot.view s r = .ok view → s.scanRegion r p.test alignment = .ok (places.map view.regionAt) := by
  have hsame : v.places p.test alignment = w.places p.test alignment := places_congr hcurrent hprevious
  refine ⟨v.places p.test alignment, ?_⟩
  intro view hview
  have hscan := scan_eq_map_regionAt (Predicate.lawful_test hp) p.type.size_mem hA view
  rcases List.mem_pair.1 hview with rfl | rfl
  · exact hscan
  · rwa [← hsame] at hscan

/-- The views lie at different phases of a chunk, and one of them reaches the end of its group. -/
theorem scan_position_independent_phases :
    let current : Array UInt8 := #[1, 2, 3, 2, 5, 6, 7, 8, 9, 9, 9, 9, 9, 9, 9, 9, 1, 1]
    let previous : Array UInt8 := #[0, 2, 4, 2, 0, 6, 7, 8, 9, 9, 9, 9, 9, 9, 9, 9, 1, 0]
    let junk : Array UInt8 := #[0, 0, 0, 0, 0, 0, 0, 0, 0, 0, 0, 255, 255]
    let v : View := ⟨0, ⟨⟨0x1000⟩, current, previous, none, rfl, by simp, by decide⟩, 0, 18, by decide⟩
    let around (bytes : Array UInt8) : Array UInt8 := junk ++ bytes ++ #[255]
    let w : View := ⟨3, ⟨⟨0x2003⟩, around current, around previous, none, by decide +kernel, by simp,
      by decide +kernel⟩, 13, 18, by decide +kernel⟩
    let s : Snapshot := .build "start" #[v.group] [v.toRegion] 1 1
    let p : Predicate := ⟨.unsigned .two, .big, true, .leaf .increased 0#16⟩
    Predicate.prepare (.leaf .increased none) (.unsigned .two) .big = .ok p ∧ 1 ∈ [1, 2, 4, 8] ∧
      v.currentValues = w.currentValues ∧ (p.requiresPrevious = true → v.previousValues = w.previousValues) ∧
      v.scanChunks p.test 1 = .ok [v.regionAt (0, 2), v.regionAt (3, 3), v.regionAt (16, 2)] ∧
      w.scanChunks p.test 1 = .ok [w.regionAt (0, 2), w.regionAt (3, 3), w.regionAt (16, 2)] ∧
      s.scanRegion v.toRegion p.test 1 = .ok [v.regionAt (0, 2), v.regionAt (3, 3), v.regionAt (16, 2)] := by
  intro current previous junk v around w s p
  have hp : Predicate.prepare (.leaf .increased none) (.unsigned .two) .big = .ok p := rfl
  have hA : 1 ∈ [1, 2, 4, 8] := by decide
  have hcurrent : v.currentValues = w.currentValues := by decide +kernel
  have hprevious : p.requiresPrevious = true → v.previousValues = w.previousValues := fun _ => by decide +kernel
  obtain ⟨places, hscan⟩ := scan_position_independent hp hA hcurrent hprevious
  obtain ⟨hv, hregion⟩ := hscan v (by simp)
  have hplaces : places = [(0, 2), (3, 3), (16, 2)] := by
    have hfound : v.places p.test 1 = [(0, 2), (3, 3), (16, 2)] := by decide +kernel
    have hv' := (scan_eq_map_regionAt (Predicate.lawful_test hp) p.type.size_mem hA v).1
    have hinjective : Function.Injective v.regionAt := by
      intro x y h
      simpa [regionAt, Prod.ext_iff] using h
    rw [← hfound]
    exact hinjective.list_map (Except.ok.inj (hv.symm.trans hv'))
  rw [hplaces] at hv hregion hscan
  exact ⟨hp, hA, hcurrent, hprevious, hv, (hscan w (by simp)).1, hregion s v.toRegion rfl⟩

end View
end Memsift
