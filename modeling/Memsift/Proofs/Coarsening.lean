import Memsift.Proofs.Listing

/-!
# Coarser alignments

Scanning at a multiple of an alignment filters what is found at the alignment.  The two scans cut the regions at
different offsets, go over them in different ways and report different runs; but both list the aligned elements that
satisfy the constraint.  The key facts: the aligned elements of a region at a multiple are those at the alignment whose
addresses are multiples as well (`filter_alignedElements`), hence so are the elements of the results
(`ResultOf.elements_perm_filter`).
-/

namespace Memsift

variable {fine coarse elementSize : Nat}

theorem Address.isAligned_iff {a : Address} {alignment : Nat} (hA : 0 < alignment) :
    a.isAligned alignment = true ↔ a.toNat % alignment = 0 := by
  have hne : alignment ≠ 0 := Nat.ne_of_gt hA
  simp [isAligned, hne]

theorem Region.filter_alignedStarts (r : Region) (base : Address) (hcoarse : 0 < coarse) (h : fine ∣ coarse) :
    ((r.alignedStarts base fine elementSize).filter fun o => (base.add o).isAligned coarse) =
      r.alignedStarts base coarse elementSize := by
  rw [alignedStarts, alignedStarts, List.filter_filter]
  apply List.filter_congr
  intro o _
  have hfiner : (base.toNat + o) % UInt64.size % coarse = 0 → (base.toNat + o) % UInt64.size % fine = 0 :=
    fun haligned => Nat.mod_eq_zero_of_dvd (h.trans (Nat.dvd_of_mod_eq_zero haligned))
  rw [Bool.eq_iff_iff, Bool.and_eq_true, Address.isAligned_iff hcoarse, Address.toNat_add, decide_eq_true_eq,
    decide_eq_true_eq]
  constructor
  · rintro ⟨haligned, hle, hfit, -⟩
    exact ⟨hle, hfit, haligned⟩
  · rintro ⟨hle, hfit, haligned⟩
    exact ⟨haligned, hle, hfit, hfiner haligned⟩

namespace Snapshot

variable {s result result' : Snapshot} {p : Predicate} {c : Constraint}

/-- Whether the address of an element is a multiple of `alignment`. -/
def isAlignedAt (s : Snapshot) (alignment : Nat) (x : Nat × Nat) : Bool :=
  (s.groups[x.1]?).any fun group => (group.base.add x.2).isAligned alignment

theorem filter_alignedElements (hcoarse : 0 < coarse) (h : fine ∣ coarse) (r : Region) :
    (s.alignedElements fine elementSize r).filter (s.isAlignedAt coarse) = s.alignedElements coarse elementSize r := by
  cases hgroup : s.groups[r.readGroup]? with
  | none => simp only [alignedElements, hgroup, List.filter_nil]
  | some group =>
    have haligned : (s.isAlignedAt coarse ∘ (r.readGroup, ·)) = fun o => (group.base.add o).isAligned coarse := by
      funext o
      rw [Function.comp_apply, isAlignedAt, hgroup, Option.any_some]
    rw [alignedElements_eq hgroup, alignedElements_eq hgroup, List.filter_map, haligned,
      r.filter_alignedStarts group.base hcoarse h]

/-- At a multiple of its alignment, a scan finds those elements whose addresses are multiples as well. -/
theorem ResultOf.elements_perm_filter {t : NumberType} {order : ByteOrder} (hresult : s.ResultOf p fine result)
    (hresult' : s.ResultOf p coarse result') (hs : s.Valid) (hp : Predicate.prepare c t order = .ok p)
    (h : fine ∣ coarse) : result'.elements.Perm (result.elements.filter (s.isAlignedAt coarse)) := by
  have hcoarse : 0 < coarse := by
    rw [← hresult'.alignment_eq]
    exact hresult'.indexed.alignment_pos
  have hregions : s.regions.flatMap (s.alignedElements coarse p.type.size) =
      (s.regions.flatMap (s.alignedElements fine p.type.size)).filter (s.isAlignedAt coarse) := by
    rw [List.filter_flatMap]
    exact List.flatMap_congr fun r _ => (filter_alignedElements hcoarse h r).symm
  have hfound := (hresult.elements_perm hs hp).filter (s.isAlignedAt coarse)
  have hfound' := hresult'.elements_perm hs hp
  rw [hregions, List.filter_comm] at hfound'
  exact hfound'.trans hfound.symm

/-- A scan at an alignment finds those elements of a scan at alignment one whose addresses are its multiples, each as
often. -/
theorem scan_aligned_perm_filter {type : DataType} (hs : s.Valid) (settings settings' : ScanSettings) (width : Width)
    (hp : Predicate.compile c type = .ok p) :
    ∃ bytewise aligned, s.ScansTo { settings with alignment := .fixed .one } c type bytewise ∧
      s.ScansTo { settings' with alignment := .fixed width } c type aligned ∧
      aligned.elements.Perm (bytewise.elements.filter (s.isAlignedAt width.bytes)) := by
  obtain ⟨bytewise, hbytewise, hresult⟩ := exists_scansTo hs { settings with alignment := .fixed .one } hp
  obtain ⟨aligned, haligned, hresult'⟩ := exists_scansTo hs { settings' with alignment := .fixed width } hp
  obtain ⟨_, _, hprepare⟩ := Predicate.compile_eq_ok hp
  exact ⟨bytewise, aligned, hbytewise, haligned, hresult.elements_perm_filter hresult' hs hprepare (Nat.one_dvd _)⟩

/-- Two regions that have elements in common, over a group whose odd base is followed by a wrap around; the alignment
is half the size of an element. -/
theorem scan_aligned_perm_filter_overlapping :
    let bytes : Array UInt8 := #[1, 2, 3, 4, 5, 6, 7, 8, 9]
    let group : ReadGroup := ⟨⟨0xFFFFFFFFFFFFFFFD⟩, bytes, bytes, none, rfl, by simp, by decide⟩
    let s := build "start" #[group] [⟨0, 1, 8, 0⟩, ⟨0, 0, 6, 5⟩] 1 1
    let type : DataType := ⟨.number (.unsigned .four), .little⟩
    let c : Constraint := .leaf .notEqual (some (.number (.unsigned .four) 0x07060504#32))
    s.Valid ∧ (∃ p, Predicate.compile c type = .ok p) ∧
      ∃ bytewise aligned, s.ScansTo { alignment := .fixed .one } c type bytewise ∧
        s.ScansTo { alignment := .fixed .two } c type aligned ∧
        bytewise.elements.Perm [(0, 1), (0, 2), (0, 4), (0, 5), (0, 0), (0, 1), (0, 2)] ∧
        aligned.elements.Perm (bytewise.elements.filter (s.isAlignedAt 2)) ∧
        aligned.elements.Perm [(0, 1), (0, 5), (0, 1)] := by
  intro bytes group s type c
  have hs : s.Valid := by decide
  let p : Predicate := ⟨.unsigned .four, .little, false, .leaf .notEqual 0x07060504#32⟩
  have hp : Predicate.compile c type = .ok p := rfl
  obtain ⟨bytewise, aligned, hbytewise, haligned, hfilter⟩ := scan_aligned_perm_filter hs {} {} .two hp
  obtain ⟨bytewise', hbytewise', hresult⟩ := exists_scansTo hs { alignment := .fixed .one } hp
  obtain rfl := hbytewise.unique hbytewise'
  have helements : bytewise.elements.Perm [(0, 1), (0, 2), (0, 4), (0, 5), (0, 0), (0, 1), (0, 2)] := by
    have hfound : (s.regions.flatMap (s.alignedElements 1 4)).filter (s.satisfies c (.unsigned .four) .little) =
        [(0, 1), (0, 2), (0, 4), (0, 5), (0, 0), (0, 1), (0, 2)] := by decide +kernel
    rw [← hfound]
    exact hresult.elements_perm hs rfl
  have hkept : [(0, 1), (0, 2), (0, 4), (0, 5), (0, 0), (0, 1), (0, 2)].filter (s.isAlignedAt 2) =
      [(0, 1), (0, 5), (0, 1)] := by decide
  have hperm := hfilter.trans (helements.filter _)
  exact ⟨hs, ⟨_, hp⟩, bytewise, aligned, hbytewise, haligned, helements, hfilter, hperm.trans (.of_eq hkept)⟩

end Snapshot
end Memsift
