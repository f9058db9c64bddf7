import Memsift.Scan.Chunked
import Memsift.Proofs.Elements
import Memsift.Proofs.Lanes

/-!
# The chunks of a plan

What the plan for a view knows about the elements of the view (`ScanPlan.For`).  Positions count from the start of the
first chunk.  The key facts: a position on the grid lies between those of the first and the last element iff an element
of the view starts there (`mem_starts_iff`), which is so for the positions of a chunk that are not masked
(`laneMask_spec`, `inWindow_eq_slotValid`); and no element starts past the last chunk (`div_lt_chunkCount`).
-/

namespace Memsift
namespace ScanPlan

/-- The plan belongs to a view that holds an element. -/
structure For (p : ScanPlan) (view : View) : Prop where
  alignment_dvd : p.alignment ∣ chunkSize
  elementSize_pos : 0 < p.elementSize
  elements_pos : 0 < view.elementCount p.alignment p.elementSize
  readStart_add : p.readStart + p.misalignment = view.offset
  dvd_misalignment : p.alignment ∣ p.misalignment
  misalignment_lt : p.misalignment < chunkSize
  lastPosition_eq :
    p.lastPosition = p.misalignment + (view.elementCount p.alignment p.elementSize - 1) * p.alignment
  chunkCount_eq : p.chunkCount = p.lastPosition / chunkSize + 1

variable {p : ScanPlan} {view : View}

theorem of?_eq_none_iff {alignment elementSize : Nat} :
    of? view alignment elementSize = none ↔ view.elementCount alignment elementSize = 0 := by
  simp only [of?]
  by_cases hcount : view.elementCount alignment elementSize = 0 <;> simp [hcount]

theorem for_of_of?_eq_some {alignment elementSize : Nat} (hA : alignment ∣ chunkSize) (hS : 0 < elementSize)
    (h : of? view alignment elementSize = some p) :
    p.For view ∧ p.alignment = alignment ∧ p.elementSize = elementSize := by
  simp only [of?] at h
  by_cases hcount : view.elementCount alignment elementSize = 0
  · rw [if_pos hcount] at h
    cases h
  · rw [if_neg hcount] at h
    obtain rfl := Option.some.inj h
    have hmod : view.offset % chunkSize < chunkSize := Nat.mod_lt _ (by decide)
    have hle : view.offset % chunkSize / alignment * alignment ≤ view.offset % chunkSize := Nat.div_mul_le_self ..
    have hoffset : view.offset % chunkSize ≤ view.offset := Nat.mod_le ..
    refine ⟨⟨hA, hS, Nat.pos_of_ne_zero hcount, ?_, Nat.dvd_mul_left .., ?_, rfl, rfl⟩, rfl, rfl⟩
    · exact Nat.sub_add_cancel (Nat.le_trans hle hoffset)
    · exact Nat.lt_of_le_of_lt hle hmod

namespace For

theorem alignment_pos (hp : p.For view) : 0 < p.alignment :=
  Nat.pos_of_dvd_of_pos hp.alignment_dvd (by decide)

theorem dvd_lastPosition (hp : p.For view) : p.alignment ∣ p.lastPosition := by
  rw [hp.lastPosition_eq]
  exact Nat.dvd_add hp.dvd_misalignment (Nat.dvd_mul_left ..)

/-- A position on the grid is that of an element iff it lies between the first and the last one. -/
theorem mem_starts_iff (hp : p.For view) {position : Nat} (hgrid : p.alignment ∣ position) :
    p.readStart + position ∈ view.toRegion.starts p.alignment p.elementSize ↔
      p.misalignment ≤ position ∧ position ≤ p.lastPosition := by
  have hread := hp.readStart_add
  have hcount := hp.elements_pos
  rw [Region.starts, List.mem_range']
  change (∃ k < view.elementCount p.alignment p.elementSize,
    p.readStart + position = view.offset + p.alignment * k) ↔ _
  rw [hp.lastPosition_eq]
  obtain ⟨m, hm⟩ := hp.dvd_misalignment
  obtain ⟨q, rfl⟩ := hgrid
  rw [hm, Nat.mul_comm _ p.alignment, ← Nat.mul_add, Nat.mul_le_mul_left_iff hp.alignment_pos,
    Nat.mul_le_mul_left_iff hp.alignment_pos]
  constructor
  · rintro ⟨k, hk, hposition⟩
    have hq : q = m + k := by
      apply Nat.eq_of_mul_eq_mul_left hp.alignment_pos
      rw [Nat.mul_add]
      omega
    omega
  · intro hq
    refine ⟨q - m, by omega, ?_⟩
    rw [Nat.mul_sub, ← hread, hm]
    have := Nat.mul_le_mul_left p.alignment hq.1
    omega

theorem exists_position (hp : p.For view) {o : Nat} (ho : o ∈ view.toRegion.starts p.alignment p.elementSize) :
    ∃ k, o = p.readStart + k * p.alignment := by
  obtain ⟨hle, ⟨q, hq⟩, _⟩ := view.le_of_mem_starts hp.alignment_pos hp.elementSize_pos ho
  obtain ⟨m, hm⟩ := hp.dvd_misalignment
  have hread := hp.readStart_add
  refine ⟨m + q, ?_⟩
  rw [Nat.add_mul, Nat.mul_comm m, Nat.mul_comm q]
  omega

theorem div_lt_chunkCount (hp : p.For view) {position : Nat} (h : position ≤ p.lastPosition) :
    position / chunkSize < p.chunkCount := by
  rw [hp.chunkCount_eq]
  exact Nat.lt_succ_of_le (Nat.div_le_div_right h)

/-- Only the last chunk reaches past the last element. -/
theorem chunk_le_lastPosition (hp : p.For view) {chunk : Nat} (h : chunk < p.chunkCount) :
    chunk * chunkSize ≤ p.lastPosition ∧
      (p.isLast chunk = false → chunk * chunkSize + chunkSize ≤ p.lastPosition) := by
  rw [hp.chunkCount_eq] at h
  constructor
  · exact (Nat.le_div_iff_mul_le (by decide)).1 (Nat.le_of_lt_succ h)
  · intro hlast
    unfold isLast at hlast
    rw [hp.chunkCount_eq] at hlast
    simp only [beq_eq_false_iff_ne] at hlast
    rw [← Nat.succ_mul]
    exact (Nat.le_div_iff_mul_le (by decide)).1 (by omega)

end For

/-- Whether a byte lies between the first byte of the first element and the last byte of the last one. -/
def inWindow (p : ScanPlan) (chunk lane : Nat) : Bool :=
  p.misalignment ≤ chunk * chunkSize + lane && chunk * chunkSize + lane < p.lastPosition + p.elementSize

namespace For

/-- The mask of a chunk shows the lanes inside the window, and is left out only if that is all of them. -/
theorem laneMask_spec (hp : p.For view) {chunk : Nat} (hchunk : chunk < p.chunkCount) :
    match p.laneMask chunk with
    | some mask => mask = Mask.ofFn (p.inWindow chunk)
    | none => ∀ lane < chunkSize, p.inWindow chunk lane = true := by
  have hmis := hp.misalignment_lt
  have hS := hp.elementSize_pos
  obtain ⟨hle, hnext⟩ := hp.chunk_le_lastPosition hchunk
  have htrail : ∀ lane, chunk * chunkSize + lane < p.lastPosition + p.elementSize ↔
      lane < p.lastPosition + p.elementSize - chunk * chunkSize := by
    intro lane
    omega
  -- only the first chunk begins before the first element, and only the last one ends after the last element
  have hnoLead : ¬ (chunk = 0 ∧ 0 < p.misalignment) → ∀ lane, p.misalignment ≤ chunk * chunkSize + lane := by
    intro h lane
    unfold chunkSize at hmis ⊢
    omega
  have hnoTrail : ¬ (p.isLast chunk = true ∧ p.lastPosition + p.elementSize - chunk * chunkSize < chunkSize) →
      ∀ lane < chunkSize, chunk * chunkSize + lane < p.lastPosition + p.elementSize := by
    intro h lane hlane
    cases hlast : p.isLast chunk with
    | false =>
      have := hnext hlast
      omega
    | true =>
      have : ¬ p.lastPosition + p.elementSize - chunk * chunkSize < chunkSize := fun hvalid => h ⟨hlast, hvalid⟩
      omega
  simp only [laneMask]
  by_cases hfirst : chunk = 0 ∧ 0 < p.misalignment <;>
    by_cases hend : p.isLast chunk = true ∧ p.lastPosition + p.elementSize - chunk * chunkSize < chunkSize
  · rw [if_pos hfirst, if_pos hend]
    show Mask.leadingFalse _ &&& Mask.leadingTrue _ = _
    rw [Mask.leadingFalse, Mask.leadingTrue, Mask.ofFn_and]
    apply Mask.ofFn_congr
    intro lane _
    simp only [inWindow, htrail]
    simp only [hfirst.1, Nat.zero_mul, Nat.zero_add]
  · rw [if_pos hfirst, if_neg hend]
    apply Mask.ofFn_congr
    intro lane hlane
    simp only [inWindow, hnoTrail hend lane hlane, decide_true, Bool.and_true]
    simp only [hfirst.1, Nat.zero_mul, Nat.zero_add]
  · rw [if_neg hfirst, if_pos hend]
    show Mask.leadingTrue _ = _
    apply Mask.ofFn_congr
    intro lane _
    simp only [inWindow, hnoLead hfirst lane, htrail, decide_true, Bool.true_and]
  · rw [if_neg hfirst, if_neg hend]
    intro lane hlane
    simp only [inWindow, hnoLead hfirst lane, hnoTrail hend lane hlane, decide_true, Bool.and_self]

/-- When elements do not overlap, the window has all bytes of an element of the view and no byte of any other one. -/
theorem inWindow_eq_slotValid (hp : p.For view) (hsize : p.elementSize ≤ p.alignment) (chunk : Nat) {slot lane : Nat}
    (hgrid : p.alignment ∣ slot) (hle : slot ≤ lane) (hlt : lane < slot + p.elementSize) :
    p.inWindow chunk lane = p.slotValid chunk slot := by
  have hposition : p.alignment ∣ chunk * chunkSize + slot :=
    Nat.dvd_add (Nat.dvd_mul_left_of_dvd hp.alignment_dvd chunk) hgrid
  -- two positions on the grid are a whole element apart
  have hgap : ∀ {a b : Nat}, p.alignment ∣ a → p.alignment ∣ b → a < b → a + p.alignment ≤ b := by
    intro a b ha hb hab
    have := Nat.le_of_dvd (by omega) (Nat.dvd_sub hb ha)
    omega
  have hlead : p.misalignment ≤ chunk * chunkSize + lane ↔ p.misalignment ≤ chunk * chunkSize + slot := by
    constructor
    · intro h
      by_contra hbefore
      have := hgap hposition hp.dvd_misalignment (by omega)
      omega
    · omega
  have htrail : chunk * chunkSize + lane < p.lastPosition + p.elementSize ↔
      chunk * chunkSize + slot ≤ p.lastPosition := by
    constructor
    · intro h
      by_contra hafter
      have := hgap hp.dvd_lastPosition hposition (by omega)
      omega
    · omega
  simp only [inWindow, slotValid, hlead, htrail]

theorem slotValid_of_inner (hp : p.For view) {chunk lane : Nat} (hchunk : chunk < p.chunkCount)
    (hfirst : chunk ≠ 0) (hlast : p.isLast chunk = false) (hlane : lane < chunkSize) :
    p.slotValid chunk lane = true := by
  have hmis := hp.misalignment_lt
  obtain ⟨_, hnext⟩ := hp.chunk_le_lastPosition hchunk
  have := hnext hlast
  have hle : chunkSize ≤ chunk * chunkSize := Nat.le_mul_of_pos_left _ (Nat.pos_of_ne_zero hfirst)
  simp only [slotValid, Bool.and_eq_true, decide_eq_true_eq]
  omega

theorem slotValid_iff (hp : p.For view) (chunk : Nat) {lane : Nat} (hgrid : p.alignment ∣ lane) :
    p.slotValid chunk lane = true ↔
      p.readStart + (chunk * chunkSize + lane) ∈ view.toRegion.starts p.alignment p.elementSize := by
  have hposition : p.alignment ∣ chunk * chunkSize + lane :=
    Nat.dvd_add (Nat.dvd_mul_left_of_dvd hp.alignment_dvd chunk) hgrid
  rw [hp.mem_starts_iff hposition]
  simp only [slotValid, Bool.and_eq_true, decide_eq_true_eq]

end For
end ScanPlan
end Memsift
