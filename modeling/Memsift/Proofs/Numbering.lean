import Memsift.Snapshot
import Memsift.Proofs.Starts
import Mathlib.Data.Set.Card
import Mathlib.Order.Interval.Finset.Nat

/-!
# The numbers of elements

The elements of a snapshot are numbered through its regions, and each region knows the number of its first element.
The key facts: building a snapshot makes its counts and numbers right (`indexed_build`); a number then belongs to the
one region whose elements it falls among, whatever regions without elements stand around it (`regionAt?_eq`), and that
is the region an element is shown from (`elementAt?_eq`); nothing is shown for a number that is too large
(`elementAt?_of_le`).
-/

namespace Memsift

/-- The steps from the start of a region at which a whole element fits. -/
def Region.slots (r : Region) (alignment elementSize : Nat) : Set Nat :=
  {k | k * alignment + elementSize ≤ r.length}

/-- The counts of a snapshot are those of its regions, and each region has the number of the elements before it. -/
structure Snapshot.Indexed (s : Snapshot) : Prop where
  alignment_pos : 1 ≤ s.alignment
  elementSize_pos : 1 ≤ s.elementSize
  byteCount_eq : s.byteCount = (s.regions.map (·.length)).sum
  elementCount_eq : s.elementCount = (s.regions.map fun r => (r.slots s.alignment s.elementSize).ncard).sum
  baseIndex_eq : ∀ before r after, s.regions = before ++ r :: after →
    r.baseIndex = (before.map fun r => (r.slots s.alignment s.elementSize).ncard).sum

/-- No step to an element leaves the region. -/
theorem window_of_lt_elementCount {k length alignment elementSize : Nat}
    (h : k < elementCount length alignment elementSize) :
    0 < elementSize ∧ k * alignment + elementSize ≤ length := by
  have hA : 0 < alignment := by
    by_contra hzero
    simp [elementCount, Nat.eq_zero_of_not_pos hzero] at h
  have hS : 0 < elementSize := by
    by_contra hzero
    simp [elementCount, Nat.eq_zero_of_not_pos hzero] at h
  exact ⟨hS, (lt_elementCount_iff hA hS).1 h⟩

/-- The element at an offset of a group, as it is shown. -/
def ReadGroup.shown (group : ReadGroup) (type : DataType) (size offset : Nat) : Element where
  address := group.base.add offset
  current := (window? group.current offset size).bind (ScanValue.ofBytes? type.valueType type.byteOrder)
  previous := (window? group.previous offset size).bind (ScanValue.ofBytes? type.valueType type.byteOrder)
  label := group.labels.bind fun ls => ls[offset]?

theorem Address.add_add (a : Address) (m n : Nat) : (a.add m).add n = a.add (m + n) := by
  apply ext_toNat
  rw [toNat_add, toNat_add, toNat_add, Nat.mod_add_mod, Nat.add_assoc]

theorem Region.ncard_slots (r : Region) {alignment elementSize : Nat} (hA : 0 < alignment) (hS : 0 < elementSize) :
    (r.slots alignment elementSize).ncard = elementCount r.length alignment elementSize := by
  have hslots : r.slots alignment elementSize = Set.Iio (elementCount r.length alignment elementSize) := by
    ext k
    exact (lt_elementCount_iff hA hS).symm
  rw [hslots, ← Finset.coe_Iio, Set.ncard_coe_finset, Nat.card_Iio]

/-- A number below a sum falls among the terms of one summand. -/
theorem exists_append_of_lt_sum {α : Type} {count : α → Nat} {l : List α} {i : Nat} (h : i < (l.map count).sum) :
    ∃ before a after k, l = before ++ a :: after ∧ k < count a ∧ i = (before.map count).sum + k := by
  induction l generalizing i with
  | nil => cases h
  | cons a l ih =>
    rw [List.map_cons, List.sum_cons] at h
    by_cases hi : i < count a
    · exact ⟨[], a, l, i, rfl, hi, by simp⟩
    · obtain ⟨before, b, after, k, rfl, hk, hsum⟩ := ih (i := i - count a) (by omega)
      refine ⟨a :: before, b, after, k, rfl, hk, ?_⟩
      rw [List.map_cons, List.sum_cons]
      omega

namespace Snapshot

variable {s : Snapshot} {r : Region} {before after : List Region}

section Build

variable {alignment elementSize : Nat}

theorem map_length_number (n : Nat) (rs : List Region) :
    (number alignment elementSize n rs).map (·.length) = rs.map (·.length) := by
  induction rs generalizing n with
  | nil => rfl
  | cons r rs ih => rw [number, List.map_cons, List.map_cons, ih]

theorem baseIndex_number {n : Nat} {rs : List Region}
    (h : number alignment elementSize n rs = before ++ r :: after) :
    r.baseIndex = n + (before.map fun r => Memsift.elementCount r.length alignment elementSize).sum := by
  induction before generalizing n rs with
  | nil =>
    cases rs with
    | nil => cases h
    | cons x rs =>
      obtain ⟨rfl, _⟩ := List.cons.inj h
      rfl
  | cons y before ih =>
    cases rs with
    | nil => cases h
    | cons x rs =>
      obtain ⟨rfl, hrest⟩ := List.cons.inj h
      rw [ih hrest, List.map_cons, List.sum_cons, Nat.add_assoc]

theorem indexed_build (name : String) (groups : Array ReadGroup) (rs : List Region) (alignment elementSize : Nat) :
    (build name groups rs alignment elementSize).Indexed := by
  have hA : 0 < max alignment 1 := Nat.le_max_right ..
  have hS : 0 < max elementSize 1 := Nat.le_max_right ..
  have hslots : (fun r : Region => (r.slots (max alignment 1) (max elementSize 1)).ncard) =
      fun r => Memsift.elementCount r.length (max alignment 1) (max elementSize 1) := by
    funext r
    exact r.ncard_slots hA hS
  have hlength := @map_length_number (max alignment 1) (max elementSize 1) 0 rs
  refine ⟨hA, hS, ?_, ?_, ?_⟩
  · show (rs.map (·.length)).sum = ((number _ _ 0 rs).map (·.length)).sum
    rw [hlength]
  · show (rs.map fun r => Memsift.elementCount r.length _ _).sum =
      ((number _ _ 0 rs).map fun r => (r.slots (max alignment 1) (max elementSize 1)).ncard).sum
    -- the count of a region depends on its length alone
    have hcounts := congrArg (List.map fun n => Memsift.elementCount n (max alignment 1) (max elementSize 1)) hlength
    rw [List.map_map, List.map_map] at hcounts
    rw [hslots]
    exact congrArg List.sum hcounts.symm
  · intro before r after h
    show r.baseIndex = (before.map fun r => (r.slots (max alignment 1) (max elementSize 1)).ncard).sum
    rw [hslots, baseIndex_number h, Nat.zero_add]

end Build

/-- The number of the elements of a region. -/
def countOf (s : Snapshot) (r : Region) : Nat := Memsift.elementCount r.length s.alignment s.elementSize

namespace Indexed

theorem ncard_slots (hs : s.Indexed) :
    (fun r : Region => (r.slots s.alignment s.elementSize).ncard) = s.countOf := by
  funext r
  exact r.ncard_slots hs.alignment_pos hs.elementSize_pos

theorem elementCount_eq_sum (hs : s.Indexed) : s.elementCount = (s.regions.map s.countOf).sum := by
  rw [hs.elementCount_eq, hs.ncard_slots]

theorem baseIndex_eq_sum (hs : s.Indexed) (h : s.regions = before ++ r :: after) :
    r.baseIndex = (before.map s.countOf).sum := by
  rw [hs.baseIndex_eq _ _ _ h, hs.ncard_slots]

theorem baseIndex_add_le (hs : s.Indexed) (h : s.regions = before ++ r :: after) :
    r.baseIndex + s.countOf r ≤ s.elementCount := by
  rw [hs.baseIndex_eq_sum h, hs.elementCount_eq_sum, h]
  simp only [List.map_append, List.map_cons, List.sum_append, List.sum_cons]
  omega

theorem baseIndex_le (hs : s.Indexed) (h : s.regions = before ++ r :: after) {x : Region} (hx : x ∈ before) :
    x.baseIndex + s.countOf x ≤ r.baseIndex := by
  obtain ⟨before', after', rfl⟩ := List.append_of_mem hx
  rw [List.append_assoc, List.cons_append] at h
  have hbase := hs.baseIndex_eq_sum h
  rw [← List.cons_append, ← List.append_assoc] at h
  rw [hbase, hs.baseIndex_eq_sum h]
  simp only [List.map_append, List.map_cons, List.sum_append, List.sum_cons]
  omega

/-- The element with a number belongs to the region whose elements the number falls among. -/
theorem regionAt?_eq (hs : s.Indexed) (h : s.regions = before ++ r :: after) {k : Nat} (hk : k < s.countOf r) :
    s.regionAt? (r.baseIndex + k) = some r := by
  have hbefore : ∀ x ∈ before, decide (x.baseIndex ≤ r.baseIndex + k) = true := by
    intro x hx
    have := hs.baseIndex_le h hx
    simp only [decide_eq_true_eq]
    omega
  have hafter : after.takeWhile (fun x => decide (x.baseIndex ≤ r.baseIndex + k)) = [] := by
    cases after with
    | nil => rfl
    | cons y after =>
      -- the next region begins after the last element of this one
      have hnext : s.regions = (before ++ [r]) ++ y :: after := by rw [h, List.append_assoc, List.singleton_append]
      have := hs.baseIndex_le hnext (x := r) (by simp)
      apply List.takeWhile_cons_of_neg
      simp only [decide_eq_true_eq]
      omega
  rw [regionAt?, h, List.takeWhile_append_of_pos hbefore, List.takeWhile_cons_of_pos (by simp), hafter]
  exact List.getLast?_concat

theorem exists_of_lt (hs : s.Indexed) {i : Nat} (hi : i < s.elementCount) :
    ∃ before r after k, s.regions = before ++ r :: after ∧ k < s.countOf r ∧ i = r.baseIndex + k := by
  rw [hs.elementCount_eq_sum] at hi
  obtain ⟨before, r, after, k, hregions, hk, hsum⟩ := exists_append_of_lt_sum hi
  exact ⟨before, r, after, k, hregions, hk, by rw [hs.baseIndex_eq_sum hregions, hsum]⟩

end Indexed

theorem view_eq_ok {view : View} (h : s.view r = .ok view) :
    s.groups[r.readGroup]? = some view.group ∧ view.groupIndex = r.readGroup ∧ view.offset = r.offset ∧
      view.length = r.length := by
  unfold Snapshot.view View.ofWindow at h
  split at h
  · rename_i group hgroup
    split at h
    · cases h
      exact ⟨hgroup, rfl, rfl, rfl⟩
    · cases h
  · cases h

theorem mem_of_regionAt?_eq_some {i : Nat} (h : s.regionAt? i = some r) : r ∈ s.regions :=
  (List.takeWhile_sublist _).mem (List.mem_of_getLast? h)

theorem elementAt?_eq {type : DataType} {t : NumberType} (htype : type.valueType = .number t) {view : View}
    (hview : s.view r = .ok view) {k : Nat} (hregion : s.regionAt? (r.baseIndex + k) = some r)
    (hk : k < s.countOf r) :
    s.elementAt? (r.baseIndex + k) type = some (view.group.shown type t.size (r.offset + k * s.alignment)) := by
  have hsize : type.size = .ok t.size := by
    unfold DataType.size
    rw [htype]
    rfl
  have hlocal : r.baseIndex + k - r.baseIndex = k := Nat.add_sub_cancel_left ..
  have hin : decide (k < Memsift.elementCount r.length s.alignment s.elementSize) = true := decide_eq_true hk
  obtain ⟨_, _, hoffset, hlength⟩ := view_eq_ok hview
  have hcursor : Machine.add view.offset (k * s.alignment) = view.offset + k * s.alignment := by
    obtain ⟨_, hwindow⟩ := window_of_lt_elementCount hk
    have hend := view.endOffset_add_lt (Nat.zero_le _)
    rw [View.endOffset, hlength] at hend
    exact Machine.add_eq (by omega)
  -- the cursor moves along all three buffers
  have hadvance : (Cursor.start view .everything).advance (k * s.alignment) =
      let offset := view.offset + k * s.alignment
      ⟨view.group, .everything, offset, offset, offset⟩ := by
    rw [← hcursor]
    rfl
  simp only [elementAt?, hregion, hlocal, hin, hview, hsize, hadvance, ReadGroup.shown, View.baseAddress,
    Address.add_add, ← hoffset]
  rfl

theorem Indexed.elementAt?_of_le (hs : s.Indexed) {i : Nat} (hi : s.elementCount ≤ i) (type : DataType) :
    s.elementAt? i type = none := by
  unfold elementAt?
  cases hregion : s.regionAt? i with
  | none => rfl
  | some r =>
    obtain ⟨before, after, hregions⟩ := List.append_of_mem (mem_of_regionAt?_eq_some hregion)
    have hend := hs.baseIndex_add_le hregions
    have hout : decide (i - r.baseIndex < Memsift.elementCount r.length s.alignment s.elementSize) = false := by
      unfold countOf at hend
      rw [decide_eq_false_iff_not]
      omega
    simp only [hout]

end Snapshot
end Memsift
