import Memsift.Snapshot
import Mathlib.Data.List.Basic

/-!
# Places of regions

A region has a place, which is the window it covers, and a number, which depends on the regions before it.  The key
facts: numbering the regions of a snapshot keeps their places (`map_place_build`); sorting permutes them into the order
of read groups and offsets (`map_place_sort_perm`, `pairwise_sort`); and taking the largest regions first permutes them
as well (`bySize_perm`).
-/

namespace Memsift

/-- The window that a region covers: its read group, offset and length. -/
def Region.place (r : Region) : Nat × Nat × Nat := (r.readGroup, r.offset, r.length)

/-- The region that covers a window. -/
def Region.ofPlace (place : Nat × Nat × Nat) : Region :=
  { readGroup := place.1, offset := place.2.1, length := place.2.2 }

section FlatMap

variable {α : Type} {f : Region → List α}

/-- What does not depend on the numbers of regions can be computed from their places. -/
theorem flatMap_eq_flatMap_place (hf : ∀ r n, f { r with baseIndex := n } = f r) (rs : List Region) :
    rs.flatMap f = (rs.map Region.place).flatMap fun place => f (.ofPlace place) := by
  rw [List.flatMap_map]
  exact List.flatMap_congr fun r _ => (hf r 0).symm

theorem flatMap_eq_of_map_place_eq (hf : ∀ r n, f { r with baseIndex := n } = f r) {rs rs' : List Region}
    (h : rs.map Region.place = rs'.map Region.place) : rs.flatMap f = rs'.flatMap f := by
  rw [flatMap_eq_flatMap_place hf, h, ← flatMap_eq_flatMap_place hf]

theorem flatMap_perm_of_map_place_perm (hf : ∀ r n, f { r with baseIndex := n } = f r) {rs rs' : List Region}
    (h : (rs.map Region.place).Perm (rs'.map Region.place)) : (rs.flatMap f).Perm (rs'.flatMap f) := by
  rw [flatMap_eq_flatMap_place hf, flatMap_eq_flatMap_place hf]
  exact h.flatMap_right _

theorem map_eq_of_map_place_eq {g : Region → α} (hg : ∀ r n, g { r with baseIndex := n } = g r) {rs rs' : List Region}
    (h : rs.map Region.place = rs'.map Region.place) : rs.map g = rs'.map g := by
  have hplaces : ∀ rs : List Region, rs.map g = (rs.map Region.place).map fun place => g (.ofPlace place) := by
    intro rs
    rw [List.map_map]
    exact List.map_congr_left fun r _ => (hg r 0).symm
  rw [hplaces, h, ← hplaces]

end FlatMap

namespace Snapshot

theorem map_place_number (alignment elementSize before : Nat) (rs : List Region) :
    (number alignment elementSize before rs).map Region.place = rs.map Region.place := by
  induction rs generalizing before with
  | nil => rfl
  | cons r rs ih =>
    rw [number, List.map_cons, List.map_cons, ih]
    rfl

theorem map_place_build (name : String) (groups : Array ReadGroup) (rs : List Region) (alignment elementSize : Nat) :
    (build name groups rs alignment elementSize).regions.map Region.place = rs.map Region.place :=
  map_place_number ..

theorem placedBefore_iff {x y : Region} :
    placedBefore x y = true ↔ x.readGroup < y.readGroup ∨ x.readGroup = y.readGroup ∧ x.offset ≤ y.offset := by
  simp [placedBefore]

theorem pairwise_sort (s : Snapshot) :
    s.sort.regions.Pairwise fun x y => x.readGroup < y.readGroup ∨ x.readGroup = y.readGroup ∧ x.offset ≤ y.offset := by
  let before : Nat × Nat × Nat → Nat × Nat × Nat → Prop := fun x y => x.1 < y.1 ∨ x.1 = y.1 ∧ x.2.1 ≤ y.2.1
  have htrans : ∀ x y z : Region, placedBefore x y = true → placedBefore y z = true → placedBefore x z = true := by
    intro x y z hxy hyz
    rw [placedBefore_iff] at *
    omega
  have htotal : ∀ x y : Region, (placedBefore x y || placedBefore y x) = true := by
    intro x y
    rw [Bool.or_eq_true, placedBefore_iff, placedBefore_iff]
    omega
  -- the regions are numbered after sorting, so the order is shown for their places
  have hsorted : ((s.regions.mergeSort placedBefore).map Region.place).Pairwise before := by
    rw [List.pairwise_map]
    exact (List.pairwise_mergeSort htrans htotal s.regions).imp fun h => placedBefore_iff.1 h
  rw [← map_place_build s.name s.groups _ s.alignment s.elementSize, List.pairwise_map] at hsorted
  exact hsorted

theorem map_place_sort_perm (s : Snapshot) : (s.sort.regions.map Region.place).Perm (s.regions.map Region.place) := by
  rw [sort, map_place_build]
  exact (List.mergeSort_perm s.regions placedBefore).map _

theorem bySize_perm (s : Snapshot) : (s.bySize.map (·.1)).Perm s.regions := by
  have hperm := (List.mergeSort_perm s.regions.zipIdx fun x y => decide (y.1.length ≤ x.1.length)).map (·.1)
  rwa [List.zipIdx_map_fst] at hperm

end Snapshot
end Memsift
