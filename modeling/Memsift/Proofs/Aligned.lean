import Memsift.Snapshot
import Memsift.Proofs.Starts

/-!
# Aligned elements

Aligning a region takes off the bytes before its first aligned address.  The key facts: among the offsets from one on,
those with aligned addresses come in steps of the alignment after the gap (`aligned_iff`); so the elements of an
aligned region are the elements of the region at aligned addresses (`starts_alignRegion`), and a region that is left
out has none (`alignedStarts_eq_nil`).  Addresses wrap around; the alignment divides the size of the address space.
-/

namespace Memsift

/-- The offsets of the elements of a region that start at multiples of `alignment`. -/
def Region.alignedStarts (r : Region) (base : Address) (alignment elementSize : Nat) : List Nat :=
  (List.range r.endOffset).filter fun o =>
    r.offset ≤ o ∧ o + elementSize ≤ r.endOffset ∧ (base.toNat + o) % UInt64.size % alignment = 0

/-- The bytes of a region before its first aligned address. -/
def Region.padding (r : Region) (base : Address) (alignment : Nat) : Nat :=
  (alignment - (base.toNat + r.offset) % UInt64.size % alignment) % alignment

namespace Region

variable {r : Region} {base : Address} {alignment elementSize : Nat}

theorem mem_alignedStarts {o : Nat} :
    o ∈ r.alignedStarts base alignment elementSize ↔
      o < r.endOffset ∧ r.offset ≤ o ∧ o + elementSize ≤ r.endOffset ∧
        (base.toNat + o) % UInt64.size % alignment = 0 := by
  rw [alignedStarts, List.mem_filter, List.mem_range, decide_eq_true_eq]

theorem dvd_of_mem_alignedStarts (hA : alignment ∣ UInt64.size) {o : Nat}
    (h : o ∈ r.alignedStarts base alignment elementSize) : alignment ∣ base.toNat + o := by
  have haligned := (mem_alignedStarts.1 h).2.2.2
  rwa [← Nat.dvd_iff_mod_eq_zero, Nat.dvd_mod_iff hA] at haligned

theorem pairwise_alignedStarts (r : Region) (base : Address) (alignment elementSize : Nat) :
    (r.alignedStarts base alignment elementSize).Pairwise (· < ·) :=
  List.pairwise_lt_range.filter _

end Region

namespace Address

variable {alignment : Nat}

theorem gap_lt (a : Address) (hA : 0 < alignment) : a.gap alignment < alignment := by
  unfold gap
  split
  · exact hA
  · omega

theorem gap_add_offset (base : Address) (r : Region) (alignment : Nat) :
    (base.add r.offset).gap alignment = r.padding base alignment := by
  unfold gap Region.padding
  rw [toNat_add]
  generalize (base.toNat + r.offset) % UInt64.size = address
  obtain rfl | hA := Nat.eq_zero_or_pos alignment
  · simp
  · by_cases h : address % alignment = 0
    · rw [if_pos (Or.inl h), h, Nat.sub_zero, Nat.mod_self]
    · have hlt : alignment - address % alignment < alignment := by omega
      rw [if_neg (by omega), Nat.mod_eq_of_lt hlt]

theorem dvd_add_gap (a : Address) (hA : 0 < alignment) : alignment ∣ a.toNat + a.gap alignment := by
  unfold gap
  by_cases h : a.toNat % alignment = 0
  · rw [if_pos (Or.inl h)]
    exact Nat.dvd_of_mod_eq_zero h
  · rw [if_neg (by omega)]
    have hlt := Nat.mod_lt a.toNat hA
    have hdiv := Nat.div_add_mod a.toNat alignment
    refine ⟨a.toNat / alignment + 1, ?_⟩
    rw [Nat.mul_succ]
    omega

theorem gap_le (a : Address) {n : Nat} (hA : 0 < alignment) (h : alignment ∣ a.toNat + n) : a.gap alignment ≤ n := by
  by_contra hlt
  have hdvd : alignment ∣ a.toNat + a.gap alignment - (a.toNat + n) := Nat.dvd_sub (a.dvd_add_gap hA) h
  have hle := Nat.le_of_dvd (by omega) hdvd
  have := a.gap_lt hA
  omega

/-- The offsets from `offset` on with aligned addresses begin after the gap and come in steps of the alignment. -/
theorem aligned_iff (base : Address) {offset o : Nat} (hA : alignment ∣ UInt64.size) (ho : offset ≤ o) :
    (base.toNat + o) % UInt64.size % alignment = 0 ↔
      offset + (base.add offset).gap alignment ≤ o ∧
        alignment ∣ o - (offset + (base.add offset).gap alignment) := by
  have hpos : 0 < alignment := Nat.pos_of_dvd_of_pos hA (by decide)
  -- wrapping around keeps the residue of an address
  have haddress : ∀ n, alignment ∣ (base.add offset).toNat + n ↔ alignment ∣ base.toNat + (offset + n) := by
    intro n
    rw [toNat_add, ← Nat.add_assoc, ← Nat.dvd_mod_iff hA, Nat.mod_add_mod, Nat.dvd_mod_iff hA]
  have hgap := (haddress _).1 ((base.add offset).dvd_add_gap hpos)
  rw [← Nat.dvd_iff_mod_eq_zero, Nat.dvd_mod_iff hA]
  constructor
  · intro h
    have hdistance : offset + (o - offset) = o := Nat.add_sub_of_le ho
    have hle : (base.add offset).gap alignment ≤ o - offset := by
      apply gap_le _ hpos
      rwa [haddress, hdistance]
    have hsub := Nat.dvd_sub h hgap
    refine ⟨by omega, ?_⟩
    rwa [Nat.add_sub_add_left] at hsub
  · rintro ⟨hle, hdvd⟩
    have hsum := Nat.dvd_add hgap hdvd
    rwa [Nat.add_assoc, Nat.add_sub_of_le hle] at hsum

end Address

namespace Snapshot

variable {s : Snapshot} {r r' : Region} {group : ReadGroup} {alignment elementSize : Nat}

theorem alignRegion?_eq (hgroup : s.groups[r.readGroup]? = some group) :
    s.alignRegion? alignment elementSize r =
      let skip := (group.base.add r.offset).gap alignment
      if r.length < skip ∨ r.length - skip < elementSize then none
      else some { readGroup := r.readGroup, offset := (r.offset + skip) % UInt64.size, length := r.length - skip } := by
  simp only [alignRegion?, hgroup]

theorem alignRegion?_eq_some (hgroup : s.groups[r.readGroup]? = some group) (hend : r.endOffset < UInt64.size)
    (h : s.alignRegion? alignment elementSize r = some r') :
    r'.readGroup = r.readGroup ∧ r'.offset = r.offset + (group.base.add r.offset).gap alignment ∧
      r'.endOffset = r.endOffset := by
  rw [alignRegion?_eq hgroup] at h
  unfold Region.endOffset at hend ⊢
  simp only at h
  by_cases hskip : r.length < (group.base.add r.offset).gap alignment ∨
      r.length - (group.base.add r.offset).gap alignment < elementSize
  · rw [if_pos hskip] at h
    cases h
  · rw [if_neg hskip] at h
    obtain rfl := Option.some.inj h
    have hoffset : (r.offset + (group.base.add r.offset).gap alignment) % UInt64.size =
        r.offset + (group.base.add r.offset).gap alignment := Nat.mod_eq_of_lt (by omega)
    refine ⟨rfl, hoffset, ?_⟩
    simp only [hoffset]
    omega

/-- The elements of an aligned region are the aligned ones of the region. -/
theorem starts_alignRegion (hgroup : s.groups[r.readGroup]? = some group) (hend : r.endOffset < UInt64.size)
    (hA : alignment ∣ UInt64.size) (hS : 0 < elementSize) (h : s.alignRegion? alignment elementSize r = some r') :
    r'.starts alignment elementSize = r.alignedStarts group.base alignment elementSize := by
  obtain ⟨_, hoffset, hend'⟩ := alignRegion?_eq_some hgroup hend h
  have hpos : 0 < alignment := Nat.pos_of_dvd_of_pos hA (by decide)
  apply (pairwise_starts r' elementSize hpos).eq_of_mem_iff (r.pairwise_alignedStarts ..)
  intro o
  rw [mem_starts hpos hS, hoffset, hend', Region.mem_alignedStarts]
  constructor
  · rintro ⟨hle, hdvd, hfit⟩
    have ho : r.offset ≤ o := by omega
    exact ⟨by omega, ho, hfit, (Address.aligned_iff _ hA ho).2 ⟨hle, hdvd⟩⟩
  · rintro ⟨_, ho, hfit, haligned⟩
    obtain ⟨hle, hdvd⟩ := (Address.aligned_iff _ hA ho).1 haligned
    exact ⟨hle, hdvd, hfit⟩

/-- A region that is left out has no aligned element. -/
theorem alignedStarts_eq_nil (hgroup : s.groups[r.readGroup]? = some group) (hA : alignment ∣ UInt64.size)
    (h : s.alignRegion? alignment elementSize r = none) :
    r.alignedStarts group.base alignment elementSize = [] := by
  rw [alignRegion?_eq hgroup] at h
  simp only [ite_eq_left_iff, reduceCtorEq, imp_false, not_not] at h
  rw [Region.alignedStarts, List.filter_eq_nil_iff]
  intro o _ haligned
  rw [decide_eq_true_eq] at haligned
  obtain ⟨ho, hfit, haligned⟩ := haligned
  have hle := ((Address.aligned_iff _ hA ho).1 haligned).1
  unfold Region.endOffset at hfit
  omega

end Snapshot
end Memsift
