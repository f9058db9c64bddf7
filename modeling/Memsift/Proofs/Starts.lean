import Memsift.Region
import Mathlib.Data.List.Sort

/-!
# Starts of elements

The elements of a window start at offsets in arithmetic progression.  The key facts: an offset is the start of an
element of a region iff it is on the grid of the region and the whole element fits (`mem_starts`); a test that
picks the members of a progression out of a range gives that progression (`filter_range_eq_range'`).
-/

namespace Memsift

/-- The offsets at which the elements of a region start. -/
def Region.starts (r : Region) (alignment elementSize : Nat) : List Nat :=
  List.range' r.offset (elementCount r.length alignment elementSize) alignment

theorem lt_elementCount_iff {k length alignment elementSize : Nat} (hA : 0 < alignment) (hS : 0 < elementSize) :
    k < elementCount length alignment elementSize ↔ k * alignment + elementSize ≤ length := by
  unfold elementCount
  have hne : alignment ≠ 0 ∧ elementSize ≠ 0 := by omega
  by_cases h : length < elementSize
  · simp only [h, or_true, ↓reduceIte]
    omega
  · simp only [hne.1, hne.2, h, or_self, ↓reduceIte, Nat.lt_succ_iff, Nat.le_div_iff_mul_le hA]
    omega

theorem elementCount_eq_zero_iff {length alignment elementSize : Nat} (hA : 0 < alignment) (hS : 0 < elementSize) :
    elementCount length alignment elementSize = 0 ↔ length < elementSize := by
  have h : 0 < elementCount length alignment elementSize ↔ 0 * alignment + elementSize ≤ length :=
    lt_elementCount_iff hA hS
  omega

theorem elementCount_window (k : Nat) {alignment elementSize : Nat} (hA : 0 < alignment) (hS : 0 < elementSize) :
    elementCount (k * alignment + elementSize) alignment elementSize = k + 1 := by
  have hlast : k < elementCount (k * alignment + elementSize) alignment elementSize := by
    rw [lt_elementCount_iff hA hS]
  have hnext : ¬ k + 1 < elementCount (k * alignment + elementSize) alignment elementSize := by
    rw [lt_elementCount_iff hA hS, Nat.succ_mul]
    omega
  omega

theorem mem_starts {r : Region} {alignment elementSize o : Nat} (hA : 0 < alignment) (hS : 0 < elementSize) :
    o ∈ r.starts alignment elementSize ↔
      r.offset ≤ o ∧ alignment ∣ o - r.offset ∧ o + elementSize ≤ r.endOffset := by
  unfold Region.starts Region.endOffset
  rw [List.mem_range']
  constructor
  · rintro ⟨k, hk, rfl⟩
    rw [lt_elementCount_iff hA hS, Nat.mul_comm] at hk
    exact ⟨by omega, ⟨k, by omega⟩, by omega⟩
  · rintro ⟨hle, ⟨k, hk⟩, hfit⟩
    refine ⟨k, ?_, by omega⟩
    rw [lt_elementCount_iff hA hS, Nat.mul_comm]
    omega

theorem pairwise_starts (r : Region) {alignment : Nat} (elementSize : Nat) (hA : 0 < alignment) :
    (r.starts alignment elementSize).Pairwise (· < ·) :=
  List.pairwise_lt_range' alignment hA

theorem filter_range_eq_range' {p : Nat → Bool} {n first count step : Nat} (hstep : 0 < step)
    (h : ∀ o, (o < n ∧ p o) ↔ ∃ k < count, o = first + step * k) :
    (List.range n).filter p = List.range' first count step := by
  have hfilter : ((List.range n).filter p).Pairwise (· < ·) := List.pairwise_lt_range.filter p
  apply hfilter.eq_of_mem_iff (List.pairwise_lt_range' step hstep)
  intro o
  rw [List.mem_filter, List.mem_range, List.mem_range', h]

end Memsift
