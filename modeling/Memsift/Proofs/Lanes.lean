import Memsift.Lane

/-!
# Lanes of masks

How the operations on masks act on single lanes, and the bytes that a chunk holds from a lane on.  The key facts: the
masks of tests combine as the tests do (`ofFn_and`, `ofFn_or`, `ofFn_xor`); joining any mask with the mask of a test
joins each lane with the test (`lane_and_ofFn`, `lane_or_ofFn`); and a window of a buffer can be read off a chunk that
was loaded there (`take_from_load`).
-/

namespace Memsift
namespace Mask

theorem lane_eq (m : Mask) {i : Nat} (h : i < chunkSize) : m.lane i = (m.lanes[i] != 0) := by
  simp [lane, h]

theorem getElem_ofFn (f : Nat → Bool) {i : Nat} (h : i < chunkSize) :
    (ofFn f).lanes[i] = if f i then 0xFF else 0 := by
  simp [ofFn]

theorem getElem_and (a b : Mask) {i : Nat} (h : i < chunkSize) :
    (a &&& b).lanes[i] = a.lanes[i] &&& b.lanes[i] := by
  show (a.lanes.zipWith (· &&& ·) b.lanes)[i] = _
  simp

theorem getElem_or (a b : Mask) {i : Nat} (h : i < chunkSize) :
    (a ||| b).lanes[i] = a.lanes[i] ||| b.lanes[i] := by
  show (a.lanes.zipWith (· ||| ·) b.lanes)[i] = _
  simp

theorem getElem_xor (a b : Mask) {i : Nat} (h : i < chunkSize) :
    (a ^^^ b).lanes[i] = a.lanes[i] ^^^ b.lanes[i] := by
  show (a.lanes.zipWith (· ^^^ ·) b.lanes)[i] = _
  simp

theorem ext_lanes {a b : Mask} (h : ∀ i (hi : i < chunkSize), a.lanes[i] = b.lanes[i]) : a = b := by
  cases a
  cases b
  congr 1
  exact Vector.ext h

theorem ofFn_congr {f g : Nat → Bool} (h : ∀ i < chunkSize, f i = g i) : ofFn f = ofFn g := by
  apply ext_lanes
  intro i hi
  rw [getElem_ofFn f hi, getElem_ofFn g hi, h i hi]

theorem ofFn_and (f g : Nat → Bool) : ofFn f &&& ofFn g = ofFn fun i => f i && g i := by
  apply ext_lanes
  intro i hi
  rw [getElem_and _ _ hi, getElem_ofFn _ hi, getElem_ofFn _ hi, getElem_ofFn _ hi]
  cases f i <;> cases g i <;> rfl

theorem ofFn_or (f g : Nat → Bool) : ofFn f ||| ofFn g = ofFn fun i => f i || g i := by
  apply ext_lanes
  intro i hi
  rw [getElem_or _ _ hi, getElem_ofFn _ hi, getElem_ofFn _ hi, getElem_ofFn _ hi]
  cases f i <;> cases g i <;> rfl

theorem ofFn_xor (f g : Nat → Bool) : ofFn f ^^^ ofFn g = ofFn fun i => f i ^^ g i := by
  apply ext_lanes
  intro i hi
  rw [getElem_xor _ _ hi, getElem_ofFn _ hi, getElem_ofFn _ hi, getElem_ofFn _ hi]
  cases f i <;> cases g i <;> rfl

/-- The lanes of `m` may hold any bytes: the lanes of a test are all ones or all zeros, so no bit gets lost. -/
theorem lane_and_ofFn (m : Mask) (f : Nat → Bool) {i : Nat} (h : i < chunkSize) :
    (m &&& ofFn f).lane i = (m.lane i && f i) := by
  rw [lane_eq _ h, lane_eq _ h, getElem_and _ _ h, getElem_ofFn _ h]
  cases f i
  · simp
  · simp [show (0xFF : UInt8) = -1 from rfl]

theorem lane_or_ofFn (m : Mask) (f : Nat → Bool) {i : Nat} (h : i < chunkSize) :
    (m ||| ofFn f).lane i = (m.lane i || f i) := by
  rw [lane_eq _ h, lane_eq _ h, getElem_or _ _ h, getElem_ofFn _ h]
  cases f i
  · simp
  · simp [show (0xFF : UInt8) = -1 from rfl]

theorem isAllTrue_iff (m : Mask) : m.isAllTrue = true ↔ ∀ i < chunkSize, m.lane i = true := by
  unfold isAllTrue
  rw [List.all_eq_true]
  constructor
  · intro h i hi
    rw [lane_eq m hi]
    exact h _ (by simp)
  · intro h b hb
    obtain ⟨i, hi, rfl⟩ := Vector.getElem_of_mem (Vector.mem_toList_iff.1 hb)
    rw [← lane_eq m hi]
    exact h i hi

theorem isAllFalse_iff (m : Mask) : m.isAllFalse = true ↔ ∀ i < chunkSize, m.lane i = false := by
  unfold isAllFalse
  rw [List.all_eq_true]
  constructor
  · intro h i hi
    rw [lane_eq m hi]
    simpa using h m.lanes[i] (by simp)
  · intro h b hb
    obtain ⟨i, hi, rfl⟩ := Vector.getElem_of_mem (Vector.mem_toList_iff.1 hb)
    have := h i hi
    rw [lane_eq m hi] at this
    simpa using this

theorem isAllTrue_ofFn_iff {f : Nat → Bool} : (ofFn f).isAllTrue = true ↔ ∀ i < chunkSize, f i = true := by
  rw [isAllTrue_iff]
  refine forall_congr' fun i => forall_congr' fun hi => ?_
  rw [lane_ofFn, decide_eq_true hi, Bool.true_and]

theorem isAllFalse_ofFn_iff {f : Nat → Bool} : (ofFn f).isAllFalse = true ↔ ∀ i < chunkSize, f i = false := by
  rw [isAllFalse_iff]
  refine forall_congr' fun i => forall_congr' fun hi => ?_
  rw [lane_ofFn, decide_eq_true hi, Bool.true_and]

end Mask

/-- A whole number of elements of any of the sizes fits into a chunk, and into half of one. -/
theorem dvd_eight_of_mem {a : Nat} (ha : a ∈ [1, 2, 4, 8]) : a ∣ 8 ∧ 0 < a := by
  simp only [List.mem_cons, List.not_mem_nil, or_false] at ha
  rcases ha with rfl | rfl | rfl | rfl <;> decide

theorem le_eight_of_mem {a : Nat} (ha : a ∈ [1, 2, 4, 8]) : a ≤ 8 := Nat.le_of_dvd (by decide) (dvd_eight_of_mem ha).1

/-- The bytes of a chunk from a lane on are those of the buffer, as far as both go. -/
theorem Chunk.take_from_load {buffer : Array UInt8} {start lane n : Nat} (hbuffer : start + lane + n ≤ buffer.size)
    (hchunk : lane + n ≤ chunkSize) :
    ((Chunk.load buffer start).from lane).take n = (buffer.extract (start + lane) (start + lane + n)).toList := by
  apply List.ext_getElem
  · simp [Chunk.from]
    omega
  · intro k hk _
    have hk' : k < n := by
      simp [Chunk.from] at hk
      omega
    have hin : start + (lane + k) < buffer.size := by omega
    simp [Chunk.from, Chunk.load, hin, Nat.add_assoc]

end Memsift
