import Memsift.Proofs.Plan
import Mathlib.Data.Nat.ModEq
import Mathlib.Data.Set.Function

/-!
# One slot for every element

A slot is a chunk and one of its lanes at which an element may start.  The key facts: every element of a view has a
slot (`exists_slot`), no two slots are at the same offset (`eq_of_slotOffset_eq`), and what starts in a slot that counts
is an element of the view (`exists_index`), so the slots that count are the elements, each of them once; the mask of a
chunk lets the bytes of these elements through and those of no others (`allows_eq_slotValid`).
-/

namespace Memsift
namespace ScanPlan

/-- A chunk of the plan and a lane of it at which an element may start. -/
structure IsSlot (p : ScanPlan) (slot : Nat × Nat) : Prop where
  chunk_lt : slot.1 < p.chunkCount
  lane_lt : slot.2 < chunkSize
  dvd_lane : p.alignment ∣ slot.2

/-- The slots that count as elements. -/
def validSlots (p : ScanPlan) : Set (Nat × Nat) := {slot | p.IsSlot slot ∧ p.slotValid slot.1 slot.2 = true}

/-- Where in the read group a slot is. -/
def slotOffset (p : ScanPlan) (slot : Nat × Nat) : Nat := p.readStart + chunkSize * slot.1 + slot.2

/-- The number of the element in a slot. -/
def elementIndex (p : ScanPlan) (view : View) (slot : Nat × Nat) : Nat :=
  (p.slotOffset slot - view.offset) / p.alignment

/-- Whether the mask of a chunk lets a lane through.  Without a mask all lanes get through. -/
def allows (p : ScanPlan) (chunk lane : Nat) : Bool := (p.laneMask chunk).elim true (·.lane lane)

/-- The plan begins shortly before the view, on the grid of its elements; the slots that count correspond one to one
with the elements of the view; between the first and the last chunk all slots count; and the masks agree with this
for elements that do not overlap. -/
structure Covers (p : ScanPlan) (view : View) : Prop where
  readStart_le : p.readStart ≤ view.offset
  offset_lt : view.offset < p.readStart + chunkSize
  readStart_modEq : p.readStart ≡ view.offset [MOD p.alignment]
  bijOn : Set.BijOn (p.elementIndex view) p.validSlots {k | k < view.elementCount p.alignment p.elementSize}
  slotOffset_eq : ∀ slot ∈ p.validSlots, p.slotOffset slot = view.offset + p.elementIndex view slot * p.alignment
  inner : ∀ slot, p.IsSlot slot → slot.1 ≠ 0 → p.isLast slot.1 = false → slot ∈ p.validSlots
  masks : p.elementSize ≤ p.alignment → ∀ slot, p.IsSlot slot → ∀ lane, slot.2 ≤ lane →
    lane < slot.2 + p.elementSize → p.allows slot.1 lane = p.slotValid slot.1 slot.2

variable {p : ScanPlan} {view : View} {slot slot' : Nat × Nat} {k : Nat}

theorem eq_of_slotOffset_eq (hslot : p.IsSlot slot) (hslot' : p.IsSlot slot')
    (h : p.slotOffset slot = p.slotOffset slot') : slot = slot' := by
  have hlane := hslot.lane_lt
  have hlane' := hslot'.lane_lt
  unfold slotOffset at h
  unfold chunkSize at h hlane hlane'
  apply Prod.ext <;> omega

namespace For

/-- An element of the view starts in every slot that counts. -/
theorem exists_index (hp : p.For view) (h : slot ∈ p.validSlots) :
    ∃ k < view.elementCount p.alignment p.elementSize, p.slotOffset slot = view.offset + k * p.alignment := by
  obtain ⟨hslot, hvalid⟩ := h
  have hstart := (hp.slotValid_iff slot.1 hslot.dvd_lane).1 hvalid
  obtain ⟨k, hk, hoffset⟩ := List.mem_range'.1 hstart
  refine ⟨k, hk, ?_⟩
  rw [slotOffset, Nat.mul_comm chunkSize, Nat.mul_comm k, Nat.add_assoc]
  exact hoffset

theorem elementIndex_eq (hp : p.For view) (h : p.slotOffset slot = view.offset + k * p.alignment) :
    p.elementIndex view slot = k := by
  rw [elementIndex, h, Nat.add_sub_cancel_left, Nat.mul_div_cancel _ hp.alignment_pos]

/-- Every element of the view has a slot. -/
theorem exists_slot (hp : p.For view) (hk : k < view.elementCount p.alignment p.elementSize) :
    ∃ slot ∈ p.validSlots, p.slotOffset slot = view.offset + k * p.alignment := by
  let position := p.misalignment + k * p.alignment
  have hgrid : p.alignment ∣ position := Nat.dvd_add hp.dvd_misalignment (Nat.dvd_mul_left ..)
  have hlast : position ≤ p.lastPosition := by
    rw [hp.lastPosition_eq]
    exact Nat.add_le_add_left (Nat.mul_le_mul_right _ (by omega)) _
  have hsplit : position / chunkSize * chunkSize + position % chunkSize = position := Nat.div_add_mod' ..
  refine ⟨(position / chunkSize, position % chunkSize), ⟨⟨?_, ?_, ?_⟩, ?_⟩, ?_⟩
  · exact hp.div_lt_chunkCount hlast
  · exact Nat.mod_lt _ (by decide)
  · exact (Nat.dvd_mod_iff hp.alignment_dvd).2 hgrid
  · simp only [slotValid, hsplit, Bool.and_eq_true, decide_eq_true_eq]
    exact ⟨Nat.le_add_right .., hlast⟩
  · rw [slotOffset, Nat.add_assoc, Nat.mul_comm chunkSize, hsplit, ← Nat.add_assoc, hp.readStart_add]

/-- The elements of the view are in the slots that count, each of them in one. -/
theorem bijOn_elementIndex (hp : p.For view) :
    Set.BijOn (p.elementIndex view) p.validSlots {k | k < view.elementCount p.alignment p.elementSize} := by
  refine ⟨?_, ?_, ?_⟩
  · intro slot hslot
    obtain ⟨k, hk, hoffset⟩ := hp.exists_index hslot
    rw [hp.elementIndex_eq hoffset]
    exact hk
  · intro slot hslot slot' hslot' hindex
    obtain ⟨k, _, hoffset⟩ := hp.exists_index hslot
    obtain ⟨k', _, hoffset'⟩ := hp.exists_index hslot'
    rw [hp.elementIndex_eq hoffset, hp.elementIndex_eq hoffset'] at hindex
    subst hindex
    exact eq_of_slotOffset_eq hslot.1 hslot'.1 (hoffset.trans hoffset'.symm)
  · intro k hk
    obtain ⟨slot, hslot, hoffset⟩ := hp.exists_slot hk
    exact ⟨slot, hslot, hp.elementIndex_eq hoffset⟩

theorem allows_eq_inWindow (hp : p.For view) {chunk lane : Nat} (hchunk : chunk < p.chunkCount)
    (hlane : lane < chunkSize) : p.allows chunk lane = p.inWindow chunk lane := by
  have hspec := hp.laneMask_spec hchunk
  unfold allows
  cases hmask : p.laneMask chunk with
  | none =>
    rw [hmask] at hspec
    exact (hspec lane hlane).symm
  | some mask =>
    rw [hmask] at hspec
    rw [Option.elim_some, hspec, Mask.lane_ofFn, decide_eq_true hlane, Bool.true_and]

theorem allows_eq_slotValid (hp : p.For view) (hsize : p.elementSize ≤ p.alignment) (hslot : p.IsSlot slot)
    {lane : Nat} (hle : slot.2 ≤ lane) (hlt : lane < slot.2 + p.elementSize) :
    p.allows slot.1 lane = p.slotValid slot.1 slot.2 := by
  have hroom : slot.2 + p.alignment ≤ chunkSize := by
    -- the end of the chunk is the next slot at the earliest
    have hlane := hslot.lane_lt
    have := Nat.le_of_dvd (by omega) (Nat.dvd_sub hp.alignment_dvd hslot.dvd_lane)
    omega
  rw [hp.allows_eq_inWindow hslot.chunk_lt (by omega)]
  exact hp.inWindow_eq_slotValid hsize slot.1 hslot.dvd_lane hle hlt

end For

/-- A view that holds an element has a plan, which covers its elements once each. -/
theorem covers_elements_once (view : View) {alignment elementSize : Nat} (hA : alignment ∈ [1, 2, 4, 8])
    (hS : elementSize ∈ [1, 2, 4, 8]) (hheld : 0 < view.elementCount alignment elementSize) :
    ∃ p, of? view alignment elementSize = some p ∧ p.alignment = alignment ∧ p.elementSize = elementSize ∧
      p.Covers view := by
  cases hplan : of? view alignment elementSize with
  | none =>
    rw [of?_eq_none_iff] at hplan
    omega
  | some p =>
    have hchunk : alignment ∣ chunkSize := Nat.dvd_trans (dvd_eight_of_mem hA).1 (by decide)
    obtain ⟨hp, halignment, helementSize⟩ := for_of_of?_eq_some hchunk (dvd_eight_of_mem hS).2 hplan
    have hread := hp.readStart_add
    have hlead := hp.misalignment_lt
    refine ⟨p, rfl, halignment, helementSize, ?_⟩
    exact {
      readStart_le := by omega
      offset_lt := by omega
      readStart_modEq := by
        obtain ⟨m, hm⟩ := hp.dvd_misalignment
        rw [← hread, hm]
        exact (Nat.add_mul_mod_self_left ..).symm
      bijOn := hp.bijOn_elementIndex
      slotOffset_eq := by
        intro slot hslot
        obtain ⟨k, _, hoffset⟩ := hp.exists_index hslot
        rw [hp.elementIndex_eq hoffset, hoffset]
      inner := by
        intro slot hslot hfirst hlast
        exact ⟨hslot, hp.slotValid_of_inner hslot.chunk_lt hfirst hlast hslot.lane_lt⟩
      masks := by
        intro hsize slot hslot lane hle hlt
        exact hp.allows_eq_slotValid hsize hslot hle hlt }

/-- One chunk can be the first and the last; it begins before the view and ends after the last element. -/
theorem covers_elements_once_single_chunk :
    let view : View := ⟨0, ReadGroup.zeros (Address.ofNat 0x1000) 64, 21, 9, by decide⟩
    view.elementCount 4 2 = 2 ∧
      ∃ p, of? view 4 2 = some p ∧ p.chunkCount = 1 ∧ p.misalignment = 4 ∧ p.lastPosition = 8 ∧ p.Covers view := by
  intro view
  have hheld : 0 < view.elementCount 4 2 := by decide
  obtain ⟨p, hplan, _, _, hcovers⟩ := covers_elements_once view (by decide) (by decide) hheld
  have hfields : of? view 4 2 = some ⟨4, 2, 17, 4, 8, 1⟩ := by decide
  obtain rfl := Option.some.inj (hfields.symm.trans hplan)
  exact ⟨by decide, _, hplan, rfl, rfl, rfl, hcovers⟩

end ScanPlan
end Memsift
