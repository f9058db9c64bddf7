import Memsift.Scan.Cursor
import Memsift.Proofs.Spans

/-!
# The elements that match, one at a time

Which elements of a view pass a test, said without a scan: the element at an offset passes if the test holds of its
current and previous bytes.  The key facts: a cursor tests the elements of a view in turn (`walk_eq_foldl`), so
scanning a view one element at a time gives the spans of the elements that pass (`scanElements_eq_spans`), if need be
without the last one (`scanElements_eq_filter`).
-/

namespace Memsift

/-- The bytes of a window of a buffer. -/
def bytesAt (buffer : Array UInt8) (offset size : Nat) : List UInt8 :=
  (buffer.extract offset (offset + size)).toList

/-- Whether the element at an offset passes a test.  A test that needs no previous bytes is shown the current ones. -/
def ReadGroup.passes (group : ReadGroup) (test : ElementTest) (offset : Nat) : Bool :=
  test.holds (bytesAt group.current offset test.size)
    (bytesAt (if test.requiresPrevious then group.previous else group.current) offset test.size)

/-- The starts of the elements of a view that pass a test. -/
def View.matching (view : View) (test : ElementTest) (alignment : Nat) : List Nat :=
  (view.toRegion.starts alignment test.size).filter (view.group.passes test)

theorem window?_of_le {buffer : Array UInt8} {start size : Nat} (h : start + size ≤ buffer.size) :
    window? buffer start size = some (bytesAt buffer start size) := by
  unfold window? bytesAt
  rw [if_pos h]

namespace Cursor

variable {test : ElementTest}

/-- The cursor stands at an element, with all that the test needs, and moves along all that the test needs. -/
structure Ready (c : Cursor) (test : ElementTest) : Prop where
  movesCurrent : c.track.movesCurrent = true
  movesPrevious : test.requiresPrevious = true → c.track.movesPrevious = true
  previousIndex : test.requiresPrevious = true → c.previousIndex = c.currentIndex

theorem ready_start (view : View) (test : ElementTest) (hasLabels : Bool) :
    (start view (Track.forScan test.requiresPrevious hasLabels)).Ready test := by
  unfold start Track.forScan
  cases h : test.requiresPrevious <;> cases hasLabels <;>
    exact ⟨rfl, fun h' => by first | rfl | simp [h] at h', fun _ => rfl⟩

theorem ready_advance {c : Cursor} (h : c.Ready test) (step : Nat) :
    (c.advance step).Ready test ∧ (c.advance step).currentIndex = Machine.add c.currentIndex step := by
  have hcurrent : (c.advance step).currentIndex = Machine.add c.currentIndex step := by
    simp [advance, h.movesCurrent]
  refine ⟨⟨h.movesCurrent, h.movesPrevious, fun hp => ?_⟩, hcurrent⟩
  rw [hcurrent]
  simp [advance, h.movesPrevious hp, h.previousIndex hp]

theorem passes_eq {c : Cursor} (h : c.Ready test) (hin : c.currentIndex + test.size ≤ c.group.size) :
    c.passes test = c.group.passes test c.currentIndex := by
  have hcurrent : c.current? test.size = some (bytesAt c.group.current c.currentIndex test.size) :=
    window?_of_le hin
  unfold passes ReadGroup.passes
  cases hp : test.requiresPrevious with
  | false => simp [hcurrent]
  | true =>
    have hprevious : c.previous? test.size = some (bytesAt c.group.previous c.currentIndex test.size) := by
      unfold previous?
      rw [h.previousIndex hp]
      apply window?_of_le
      rw [c.group.previous_size]
      exact hin
    simp [hcurrent, hprevious]

theorem walk_eq_foldl {c : Cursor} (h : c.Ready test) (alignment count : Nat) (e : RunEncoder)
    (hin : ∀ o ∈ List.range' c.currentIndex count alignment, o + test.size ≤ c.group.size) :
    walk test alignment count c e =
      ((List.range' c.currentIndex count alignment).map (c.group.passes test)).foldl
        (fun e result => e.advance result alignment) e := by
  induction count generalizing c e with
  | zero => rfl
  | succ count ih =>
    obtain ⟨hready, hindex⟩ := ready_advance h alignment
    rw [List.range'_succ] at hin ⊢
    have hfirst := passes_eq h (hin _ List.mem_cons_self)
    cases count with
    | zero =>
      -- where the cursor ends up does not matter
      rw [walk, walk, hfirst]
      rfl
    | succ count =>
      have hnext := hin (c.currentIndex + alignment) (by simp [List.range'_succ])
      rw [Machine.add_eq (by have := c.group.size_lt; omega)] at hindex
      have hrest := ih hready (e.advance (c.passes test) alignment) (by
        rw [hindex]
        exact fun o ho => hin o (List.mem_cons_of_mem _ ho))
      rw [walk, hrest, hindex, hfirst]
      rfl

end Cursor

namespace View

variable (view : View) {test : ElementTest}

theorem le_of_mem_starts {alignment elementSize o : Nat} (hA : 0 < alignment) (hS : 0 < elementSize)
    (h : o ∈ view.toRegion.starts alignment elementSize) :
    view.offset ≤ o ∧ alignment ∣ o - view.offset ∧ o + elementSize ≤ view.endOffset :=
  (mem_starts hA hS).1 h

theorem of_mem_matching {alignment o : Nat} (hA : 0 < alignment) (hS : 0 < test.size)
    (h : o ∈ view.matching test alignment) :
    view.offset ≤ o ∧ alignment ∣ o - view.offset ∧ o + test.size ≤ view.endOffset :=
  view.le_of_mem_starts hA hS (List.mem_of_mem_filter h)

theorem scanElements_eq_finish (hS : 0 < test.size) (alignment : Nat) :
    view.scanElements test alignment =
      (((view.toRegion.starts (max alignment 1) test.size).map (view.group.passes test)).foldl
        (fun e result => e.advance result (max alignment 1))
        ({ grid := .ofView view view.offset (max alignment 1) test.size .slots } : RunEncoder)).finish := by
  have hcursor := Cursor.ready_start view test view.group.labels.isSome
  have hA : 0 < max alignment 1 := Nat.le_max_right ..
  simp only [scanElements]
  generalize max alignment 1 = A at hA
  have hstarts : ∀ o ∈ view.toRegion.starts A test.size, o + test.size ≤ view.group.size :=
    fun o ho => Nat.le_trans (view.le_of_mem_starts hA hS ho).2.2 view.inside
  have hwalk := Cursor.walk_eq_foldl hcursor A (view.elementCount A test.size)
    { grid := .ofView view view.offset A test.size .slots } hstarts
  exact congrArg RunEncoder.finish hwalk

theorem hits_eq_matching (alignment : Nat) (test : ElementTest) :
    hits alignment view.offset ((view.toRegion.starts alignment test.size).map (view.group.passes test)) =
      view.matching test alignment := hits_map_range' ..

theorem scanElements_eq_spans (hS : 0 < test.size) {alignment : Nat} (hA : 0 < alignment)
    (hword : alignment ≤ ReadGroup.maxSize) :
    view.scanElements test alignment =
      spans view.groupIndex alignment test.size (view.matching test alignment) := by
  rw [scanElements_eq_finish view hS, Nat.max_eq_left hA, ← hits_eq_matching]
  apply RunEncoder.finish_results_eq_spans view view.offset hA hS _ ?_ hword (by simp)
  rw [hits_eq_matching]
  exact fun o => view.of_mem_matching hA hS

end View
end Memsift
