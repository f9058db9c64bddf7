import Memsift.Collection
import Memsift.Proofs.Completed
import Memsift.Proofs.Numbering
import Mathlib.Data.Prod.Lex
import Mathlib.Order.Hom.Set

/-!
# Reachable snapshots

A snapshot is reachable if operations make it from groups of memory.  The key facts: every operation leaves the counts
and the numbers of the elements right (`Reachable.indexed`); and right numbers run through the elements of all regions
in order (`Slot.strictMono_number`, `Slot.surjective_number`, `Slot.elementAt?_number`).
-/

namespace Memsift
namespace Snapshot

/-- Snapshots that are made by operations, with any arguments and however scans and collections end. -/
inductive Reachable : Snapshot → Prop
  | ofGroups (name : String) (groups : Array ReadGroup) : Reachable (ofGroups name groups)
  | ofRanges (name : String) (ranges : List (Address × Nat)) : Reachable (ofRanges name ranges)
  | withRegions {s : Snapshot} (h : Reachable s) (name : String) (regions : List Region) :
      Reachable (s.withRegions name regions)
  | recount {s : Snapshot} (h : Reachable s) (alignment elementSize : Nat) :
      Reachable (s.recount alignment elementSize)
  | aligned {s : Snapshot} (h : Reachable s) (alignment elementSize : Nat) :
      Reachable (s.aligned alignment elementSize)
  | sort {s : Snapshot} (h : Reachable s) : Reachable s.sort
  | retain {s : Snapshot} (h : Reachable s) (keep : Region → Bool) : Reachable (s.retain keep)
  | scan {σ : Type} {s result : Snapshot} (h : Reachable s) (settings : ScanSettings) (watch : Watch σ)
      (c : Constraint) (type : DataType) (task : String) (scene : Scene σ) {outcome : ScanOutcome}
      (hscan : (s.scan settings watch c type task scene).1 = .ok outcome)
      (hresult : outcome.snapshot = some result) : Reachable result
  | collect {σ : Type} {s : Snapshot} (h : Reachable s) (settings : ScanSettings) (watch : Watch σ)
      (readers : Nat → Reader) (task : String) (scene : Scene σ) :
      Reachable (s.collectFrom settings watch readers task scene).2.1

variable {s : Snapshot}

/-- Replacing the groups does not concern the counts. -/
theorem Indexed.withGroups (hs : s.Indexed) (groups : Array ReadGroup) : Indexed { s with groups } :=
  ⟨hs.alignment_pos, hs.elementSize_pos, hs.byteCount_eq, hs.elementCount_eq, hs.baseIndex_eq⟩

theorem Indexed.collectFrom {σ : Type} (hs : s.Indexed) (settings : ScanSettings) (watch : Watch σ)
    (readers : Nat → Reader) (task : String) (scene : Scene σ) :
    (s.collectFrom settings watch readers task scene).2.1.Indexed := by
  unfold Snapshot.collectFrom
  cases scene.registry.begin task with
  | error e => exact hs
  | ok registry =>
    simp only
    split
    · exact hs.withGroups _
    · exact indexed_build ..

theorem Reachable.indexed (h : s.Reachable) : s.Indexed := by
  induction h with
  | ofGroups | ofRanges | withRegions | recount | aligned | sort | retain => exact indexed_build ..
  | scan _ settings watch c type task scene hscan hresult _ =>
    obtain ⟨_, hnone⟩ | ⟨p, _, rfl⟩ := scan_cases hscan
    · cases hnone.symm.trans hresult
    · obtain rfl := Option.some.inj hresult
      exact indexed_build ..
  | collect _ settings watch readers task scene ih => exact ih.collectFrom settings watch readers task scene

/-- A region, by its place among the regions, and the steps from its start to one of its elements.  Slots are in order
of regions first. -/
abbrev Slot (s : Snapshot) : Type :=
  {x : Fin s.regions.length ×ₗ Nat // (ofLex x).2 ∈ s.regions[(ofLex x).1].slots s.alignment s.elementSize}

namespace Slot

def region (x : s.Slot) : Region := s.regions[(ofLex x.1).1]

def step (x : s.Slot) : Nat := (ofLex x.1).2

/-- The offset of the element. -/
def offset (x : s.Slot) : Nat := x.region.offset + x.step * s.alignment

theorem regions_eq (x : s.Slot) :
    s.regions = s.regions.take (ofLex x.1).1 ++ x.region :: s.regions.drop ((ofLex x.1).1 + 1) := by
  have hdrop : s.regions.drop (ofLex x.1).1 = x.region :: s.regions.drop ((ofLex x.1).1 + 1) :=
    List.drop_eq_getElem_cons (ofLex x.1).1.isLt
  rw [← hdrop, List.take_append_drop]

theorem step_lt (hs : s.Indexed) (x : s.Slot) : x.step < s.countOf x.region :=
  (lt_elementCount_iff hs.alignment_pos hs.elementSize_pos).2 x.2

/-- The number of the element. -/
def number (hs : s.Indexed) (x : s.Slot) : Fin s.elementCount :=
  ⟨x.region.baseIndex + x.step, by
    have hend := hs.baseIndex_add_le x.regions_eq
    have hstep := x.step_lt hs
    omega⟩

theorem strictMono_number (hs : s.Indexed) : StrictMono (number hs) := by
  intro x y hxy
  rw [Fin.lt_def]
  show x.region.baseIndex + x.step < y.region.baseIndex + y.step
  rcases Prod.Lex.lt_iff.1 (show x.1 < y.1 from hxy) with hregion | ⟨hregion, hstep⟩
  · -- the elements of an earlier region come before those of a later one
    have hmem : x.region ∈ s.regions.take (ofLex y.1).1 :=
      List.mem_take_iff_getElem.2 ⟨(ofLex x.1).1, by omega, rfl⟩
    have hend := hs.baseIndex_le y.regions_eq hmem
    have := x.step_lt hs
    omega
  · have hsame : x.region = y.region := congrArg (fun j : Fin s.regions.length => s.regions[j]) hregion
    rw [hsame]
    exact Nat.add_lt_add_left hstep _

theorem surjective_number (hs : s.Indexed) : Function.Surjective (number hs) := by
  rintro ⟨i, hi⟩
  obtain ⟨before, r, after, k, hregions, hk, rfl⟩ := hs.exists_of_lt hi
  have hlength : before.length < s.regions.length := by simp [hregions]
  have hregion : s.regions[before.length] = r := by simp [hregions]
  have hslot : k ∈ s.regions[before.length].slots s.alignment s.elementSize := by
    rw [hregion]
    exact (lt_elementCount_iff hs.alignment_pos hs.elementSize_pos).1 hk
  refine ⟨⟨toLex (⟨before.length, hlength⟩, k), hslot⟩, ?_⟩
  apply Fin.ext
  show s.regions[before.length].baseIndex + k = r.baseIndex + k
  rw [hregion]

/-- The elements in the order of their numbers are the slots in order. -/
noncomputable def ofNumber (hs : s.Indexed) : Fin s.elementCount ≃o s.Slot :=
  (StrictMono.orderIsoOfSurjective (number hs) (strictMono_number hs) (surjective_number hs)).symm

theorem number_ofNumber (hs : s.Indexed) (i : Fin s.elementCount) : number hs (ofNumber hs i) = i :=
  (StrictMono.orderIsoOfSurjective (number hs) (strictMono_number hs) (surjective_number hs)).apply_symm_apply i

theorem regionAt?_number (hs : s.Indexed) (x : s.Slot) : s.regionAt? (number hs x) = some x.region :=
  hs.regionAt?_eq x.regions_eq (x.step_lt hs)

theorem elementAt?_number (hs : s.Indexed) (x : s.Slot) {view : View} (hview : s.view x.region = .ok view)
    {type : DataType} {t : NumberType} (htype : type.valueType = .number t) :
    s.elementAt? (number hs x) type = some (view.group.shown type t.size x.offset) :=
  elementAt?_eq htype hview (regionAt?_number hs x) (x.step_lt hs)

theorem toNat_address_shown (x : s.Slot) (group : ReadGroup) (type : DataType) (size : Nat) :
    (group.shown type size x.offset).address.toNat =
      (group.base.toNat + x.region.offset + x.step * s.alignment) % UInt64.size := by
  rw [ReadGroup.shown, Address.toNat_add, offset, Nat.add_assoc]

end Slot

/-- Whatever operations a snapshot was made by, its counts and numbers are right.  If its regions lie inside their
groups, the numbers below the count stand in order for all elements of all regions: an element is shown for these
numbers and no others, and it is taken from the region and the step that the number stands for, with the address that
lies so many steps from the start of the region. -/
theorem numbers_elements_of_reachable (h : s.Reachable) :
    s.Indexed ∧
    ((∀ r ∈ s.regions, ∃ view, s.view r = .ok view) →
      ∃ slot : Fin s.elementCount ≃o s.Slot,
        (∀ i : Fin s.elementCount, s.regionAt? i = some (slot i).region ∧
          (i : Nat) = (slot i).region.baseIndex + (slot i).step) ∧
        ∀ (type : DataType) (t : NumberType), type.valueType = .number t →
          (∀ i, (s.elementAt? i type).isSome ↔ i < s.elementCount) ∧
          ∀ i : Fin s.elementCount, ∃ group element, s.groups[(slot i).region.readGroup]? = some group ∧
            s.elementAt? i type = some element ∧
            element.address.toNat =
              (group.base.toNat + (slot i).region.offset + (slot i).step * s.alignment) % UInt64.size ∧
            element = group.shown type t.size (slot i).offset) := by
  have hs := h.indexed
  refine ⟨hs, fun hvalid => ⟨Slot.ofNumber hs, ?_, ?_⟩⟩
  · intro i
    have hregion := Slot.regionAt?_number hs (Slot.ofNumber hs i)
    rw [Slot.number_ofNumber] at hregion
    exact ⟨hregion, (congrArg Fin.val (Slot.number_ofNumber hs i)).symm⟩
  · intro type t htype
    have hshown : ∀ i : Fin s.elementCount, ∃ group,
        s.groups[(Slot.ofNumber hs i).region.readGroup]? = some group ∧
        s.elementAt? i type = some (group.shown type t.size (Slot.ofNumber hs i).offset) := by
      intro i
      obtain ⟨view, hview⟩ := hvalid _ (List.getElem_mem (ofLex (Slot.ofNumber hs i).1).1.isLt)
      have helement := Slot.elementAt?_number hs (Slot.ofNumber hs i) hview htype
      rw [Slot.number_ofNumber] at helement
      exact ⟨view.group, (view_eq_ok hview).1, helement⟩
    refine ⟨fun i => ⟨fun hsome => ?_, fun hi => ?_⟩, fun i => ?_⟩
    · by_contra hi
      rw [hs.elementAt?_of_le (Nat.le_of_not_lt hi)] at hsome
      cases hsome
    · obtain ⟨group, _, helement⟩ := hshown ⟨i, hi⟩
      exact Option.isSome_of_eq_some helement
    · obtain ⟨group, hgroup, helement⟩ := hshown i
      exact ⟨group, _, hgroup, helement, Slot.toNat_address_shown _ group type t.size, rfl⟩

/-- Four of the six regions hold no element, and two of these lie between the two that do. -/
theorem numbers_elements_of_reachable_empty_regions :
    let parts : List Region := [⟨0, 0, 1, 9⟩, ⟨0, 1, 9, 9⟩, ⟨0, 9, 0, 9⟩, ⟨0, 9, 3, 9⟩, ⟨0, 16, 16, 9⟩, ⟨0, 32, 0, 9⟩]
    let s := ((ofRanges "memory" [(⟨0x1000⟩, 32)]).withRegions "parts" parts).recount 4 4
    let type : DataType := ⟨.number (.unsigned .four), .little⟩
    s.Reachable ∧ (∀ r ∈ s.regions, ∃ view, s.view r = .ok view) ∧ s.elementCount = 6 ∧
      (∃ slot : Fin s.elementCount ≃o s.Slot, ∀ i : Fin s.elementCount, (i : Nat) = 2 → (slot i).offset = 16) ∧
      (∃ element, s.elementAt? 2 type = some element ∧ element.address.toNat = 0x1010) ∧
      ∃ element, s.elementAt? 5 type = some element ∧ element.address.toNat = 0x101C := by
  intro parts s type
  have hs : s.Reachable := ((Reachable.ofRanges _ _).withRegions _ _).recount 4 4
  have hvalid : ∀ r ∈ s.regions, ∃ view, s.view r = .ok view := by
    have hinside : ∀ r ∈ s.regions, r.readGroup = 0 ∧ r.offset + r.length ≤ 32 := by decide
    intro r hr
    obtain ⟨hgroup, hend⟩ := hinside r hr
    refine ⟨⟨0, ReadGroup.zeros ⟨0x1000⟩ 32, r.offset, r.length, hend⟩, ?_⟩
    unfold Snapshot.view
    rw [hgroup]
    exact dif_pos hend
  have hcount : s.elementCount = 6 := by decide
  obtain ⟨slot, hslot, hshown⟩ := (numbers_elements_of_reachable hs).2 hvalid
  -- from number two on it is the elements of the region at offset 16
  have hlast : ∀ i : Fin s.elementCount, 2 ≤ (i : Nat) →
      (slot i).region = ⟨0, 16, 16, 2⟩ ∧ (i : Nat) = 2 + (slot i).step := by
    intro i hi
    obtain ⟨hregion, hstep⟩ := hslot i
    have hfound : ∀ n < 6, 2 ≤ n → s.regionAt? n = some ⟨0, 16, 16, 2⟩ := by decide
    rw [hfound i (hcount ▸ i.isLt) hi] at hregion
    have hregion := Option.some.inj hregion
    rw [← hregion] at hstep
    exact ⟨hregion.symm, hstep⟩
  have haddress : ∀ k < 4, ∃ element, s.elementAt? (2 + k) type = some element ∧
      element.address.toNat = (0x1000 + 16 + k * 4) % UInt64.size := by
    intro k hk
    let i : Fin s.elementCount := ⟨2 + k, by omega⟩
    obtain ⟨hregion, hstep⟩ := hlast i (Nat.le_add_right 2 k)
    obtain ⟨group, element, hgroup, helement, haddress, _⟩ := (hshown type (.unsigned .four) rfl).2 i
    rw [hregion] at hgroup haddress
    obtain rfl : ReadGroup.zeros ⟨0x1000⟩ 32 = group := Option.some.inj hgroup
    rw [← Nat.add_left_cancel hstep] at haddress
    exact ⟨element, helement, haddress⟩
  refine ⟨hs, hvalid, hcount, ⟨slot, ?_⟩, haddress 0 (by decide), haddress 3 (by decide)⟩
  intro i hi
  obtain ⟨hregion, hstep⟩ := hlast i (Nat.le_of_eq hi.symm)
  rw [Slot.offset, hregion]
  show 16 + (slot i).step * 4 = 16
  omega

end Snapshot
end Memsift
