import Memsift.Proofs.Answers

/-!
# Scanning chunk by chunk gives the elements that match

The key facts: passing a chunk on at once is as good as passing on its answers one by one (`passOn_eq`), so the chunks
together give the spans of the elements that match (`finish_chunks`), for elements of any distance and size that chunks
can be scanned for (`scanChunks_eq_spans`).  A scan of one element at a time gives the same spans.
-/

namespace Memsift

namespace RunEncoder

theorem advance_advance (e : RunEncoder) (result : Bool) (m n : Nat) :
    (e.advance result m).advance result n = e.advance result (m + n) := by
  cases result with
  | true => exact encode_encode e m n
  | false =>
    have hclosed : ({ e.close with cursor := Machine.add e.close.cursor m } : RunEncoder).close =
        { e.close with cursor := Machine.add e.close.cursor m } := close_of_closed (isEncoding_close e)
    show ({ e.close with cursor := Machine.add e.close.cursor m } : RunEncoder).skip n = e.skip (m + n)
    simp only [skip, hclosed, Machine.add_add]

theorem foldl_advance_same (e : RunEncoder) {result : Bool} {results : List Bool} (h : ∀ r ∈ results, r = result)
    (length n : Nat) :
    results.foldl (fun e result => e.advance result length) (e.advance result n) =
      e.advance result (n + results.length * length) := by
  induction results generalizing n with
  | nil => simp
  | cons r results ih =>
    obtain rfl := h r (by simp)
    have hrest := ih (fun r' hr' => h r' (by simp [hr'])) (n + length)
    rw [List.foldl_cons, advance_advance, hrest, List.length_cons, Nat.succ_mul]
    congr 1
    omega

end RunEncoder

namespace ScanPlan

variable {p : ScanPlan} {view : View} {test : ElementTest}

theorem passOn_eq (p : ScanPlan) (e : RunEncoder) {allTrue allFalse : Bool} {results : List Bool}
    (hlength : results.length * p.alignment = chunkSize) (htrue : allTrue = true → ∀ r ∈ results, r = true)
    (hfalse : allFalse = true → ∀ r ∈ results, r = false) :
    p.passOn e allTrue allFalse results = results.foldl (fun e result => e.advance result p.alignment) e := by
  have halike : ∀ result, (∀ r ∈ results, r = result) →
      results.foldl (fun e result => e.advance result p.alignment) e = e.advance result chunkSize := by
    intro result h
    cases results with
    | nil =>
      -- a chunk has a slot
      rw [List.length_nil, Nat.zero_mul] at hlength
      cases hlength
    | cons r results =>
      obtain rfl := h r (by simp)
      have hrest := e.foldl_advance_same (fun r' hr' => h r' (List.mem_cons_of_mem r hr')) p.alignment p.alignment
      rw [List.foldl_cons, hrest, ← hlength, List.length_cons, Nat.succ_mul, Nat.add_comm]
  unfold passOn
  split
  · rename_i h
    exact (halike true (htrue h)).symm
  · split
    · rename_i h
      exact (halike false (hfalse h)).symm
    · rfl

theorem answers_eq (hp : p.For view) (chunk : Nat) :
    p.answers view test chunk =
      (List.range' (p.readStart + chunk * (chunkSize / p.alignment * p.alignment)) (chunkSize / p.alignment)
        p.alignment).map fun o =>
          decide (o ∈ view.toRegion.starts p.alignment p.elementSize) && view.group.passes test o := by
  have hstart : p.readStart + chunk * (chunkSize / p.alignment * p.alignment) =
      p.readStart + chunk * chunkSize + 0 := by
    rw [Nat.div_mul_cancel hp.alignment_dvd, Nat.add_zero]
  rw [hstart, ← List.map_add_range', List.map_map, answers]
  apply List.map_congr_left
  intro lane hlane
  obtain ⟨k, _, hk⟩ := List.mem_range'.1 hlane
  have hgrid : p.alignment ∣ lane := ⟨k, by omega⟩
  rw [Function.comp_apply, Nat.add_assoc, Bool.eq_iff_iff, Bool.and_eq_true, Bool.and_eq_true, decide_eq_true_eq,
    hp.slotValid_iff chunk hgrid]

theorem mem_range'_of_mem_starts (hp : p.For view) {o : Nat}
    (ho : o ∈ view.toRegion.starts p.alignment p.elementSize) :
    o ∈ List.range' p.readStart (p.chunkCount * (chunkSize / p.alignment)) p.alignment := by
  obtain ⟨k, rfl⟩ := hp.exists_position ho
  have hlast := ((hp.mem_starts_iff (Nat.dvd_mul_left ..)).1 ho).2
  have hchunk := hp.div_lt_chunkCount hlast
  rw [Nat.div_lt_iff_lt_mul (by decide)] at hchunk
  refine List.mem_range'.2 ⟨k, ?_, by rw [Nat.mul_comm]⟩
  apply Nat.lt_of_mul_lt_mul_right (a := p.alignment)
  rw [Nat.mul_assoc, Nat.div_mul_cancel hp.alignment_dvd]
  exact hchunk

theorem finish_chunks (hp : p.For view) (hsize : test.size = p.elementSize) {unit : RunUnit}
    (hunit : unit = .bytes → p.elementSize ≤ p.alignment) {step : RunEncoder → Nat → RunEncoder}
    (hstep : ∀ chunk < p.chunkCount, ∀ e, step e chunk =
      (p.answers view test chunk).foldl (fun e result => e.advance result p.alignment) e) :
    ((List.range p.chunkCount).foldl step
        { grid := .ofView view p.readStart p.alignment p.elementSize unit }).finish =
      spans view.groupIndex p.alignment p.elementSize (view.matching test p.alignment) := by
  have hA := hp.alignment_pos
  have hS := hp.elementSize_pos
  let starts := view.toRegion.starts p.alignment p.elementSize
  let found : Nat → Bool := fun o => decide (o ∈ starts) && view.group.passes test o
  let offsets := List.range' p.readStart (p.chunkCount * (chunkSize / p.alignment)) p.alignment
  have hflat : (List.range p.chunkCount).flatMap (p.answers view test) = offsets.map found := by
    have hrows : offsets = (List.range p.chunkCount).flatMap _ := (flatMap_range' ..).symm
    rw [hrows, List.map_flatMap]
    congr 1
    funext chunk
    exact answers_eq hp chunk
  have hmatching : offsets.filter found = view.matching test p.alignment := by
    rw [View.matching, hsize]
    have hoffsets : offsets.Pairwise (· < ·) := List.pairwise_lt_range' _ hA
    -- the slots reach past the elements on both sides, where nothing is found
    apply (hoffsets.filter found).eq_of_mem_iff ((pairwise_starts _ _ hA).filter _)
    intro o
    rw [List.mem_filter, List.mem_filter, Bool.and_eq_true, decide_eq_true_eq]
    constructor
    · rintro ⟨_, ho, hpass⟩
      exact ⟨ho, hpass⟩
    · rintro ⟨ho, hpass⟩
      exact ⟨mem_range'_of_mem_starts hp ho, ho, hpass⟩
  have hfold : ∀ e, (List.range p.chunkCount).foldl step e =
      (offsets.map found).foldl (fun e result => e.advance result p.alignment) e := by
    intro e
    rw [← hflat, List.foldl_flatMap]
    apply List.foldl_ext
    intro e chunk hchunk
    exact hstep chunk (List.mem_range.1 hchunk) e
  have hhits : hits p.alignment p.readStart (offsets.map found) = view.matching test p.alignment :=
    (hits_map_range' ..).trans hmatching
  have halignment : p.alignment ≤ ReadGroup.maxSize :=
    Nat.le_trans (Nat.le_of_dvd (by decide) hp.alignment_dvd) (by decide)
  rw [hfold, RunEncoder.finish_results_eq_spans view p.readStart hA hS _ ?_ halignment hunit, hhits]
  rw [hhits, ← hsize]
  exact fun o => view.of_mem_matching hA (by rwa [hsize])

theorem scanLanes_eq_spans (hp : p.For view) (htest : test.Lawful) (hsize : test.size = p.elementSize)
    (hdvd : p.elementSize ∣ p.alignment) :
    p.scanLanes view test = spans view.groupIndex p.alignment p.elementSize (view.matching test p.alignment) := by
  apply finish_chunks hp hsize (fun _ => Nat.le_of_dvd hp.alignment_pos hdvd)
  intro chunk hchunk e
  have hanswers := slots_laneResults hp htest hsize hdvd hchunk
  have hlane : ∀ lane ∈ p.slots, lane < chunkSize := fun lane h => List.mem_range.1 (List.mem_of_mem_filter h)
  simp only [hanswers]
  apply passOn_eq p e (length_answers hp.alignment_dvd chunk)
  · intro hall r hr
    rw [← hanswers] at hr
    obtain ⟨lane, hmem, rfl⟩ := List.mem_map.1 hr
    exact (Mask.isAllTrue_iff _).1 hall lane (hlane lane hmem)
  · intro hall r hr
    rw [← hanswers] at hr
    obtain ⟨lane, hmem, rfl⟩ := List.mem_map.1 hr
    exact (Mask.isAllFalse_iff _).1 hall lane (hlane lane hmem)

theorem scanStaggered_eq_spans (hp : p.For view) (htest : test.Lawful) (hsize : test.size = p.elementSize)
    (hdvd : p.alignment ∣ p.elementSize) (height : p.elementSize ∣ 8) :
    p.scanStaggered view test =
      spans view.groupIndex p.alignment p.elementSize (view.matching test p.alignment) := by
  apply finish_chunks hp hsize (by simp)
  intro chunk hchunk e
  simp only [flatMap_chunkBits hp htest hsize hdvd height hchunk]
  have hoffsets : p.offsets ≤ 8 := Nat.le_trans (Nat.div_le_self ..) (Nat.le_of_dvd (by decide) height)
  apply passOn_eq p e (length_answers hp.alignment_dvd chunk)
  · apply answers_of_all hp htest hsize hdvd height hchunk
    intro k hk
    exact getLsbD_fullBits p hk (Nat.lt_of_lt_of_le hk hoffsets)
  · apply answers_of_all hp htest hsize hdvd height hchunk
    intro k _
    exact BitVec.getLsbD_zero

end ScanPlan

theorem Spacing.of_eq_staggered_iff {alignment elementSize : Nat} :
    Spacing.of alignment elementSize = .staggered ↔ alignment < elementSize := by
  unfold of
  by_cases heq : alignment = elementSize
  · simp [heq]
  · by_cases hlt : elementSize < alignment
    · simp [heq, hlt, Nat.le_of_lt hlt]
    · simp only [heq, hlt, ↓reduceIte, true_iff]
      omega

theorem dvd_or_dvd_of_mem {a b : Nat} (ha : a ∈ [1, 2, 4, 8]) (hb : b ∈ [1, 2, 4, 8]) :
    a ∣ b ∧ a ≤ b ∨ b ∣ a ∧ b < a := by
  simp only [List.mem_cons, List.not_mem_nil, or_false] at ha hb
  rcases ha with rfl | rfl | rfl | rfl <;> rcases hb with rfl | rfl | rfl | rfl <;> decide

namespace View

variable {test : ElementTest} {alignment : Nat}

theorem scanChunks_eq_spans (view : View) (htest : test.Lawful) (hsize : test.size ∈ [1, 2, 4, 8])
    (hA : alignment ∈ [1, 2, 4, 8]) :
    view.scanChunks test alignment =
      .ok (spans view.groupIndex alignment test.size (view.matching test alignment)) := by
  have hchunkSize : alignment ∣ chunkSize := Nat.dvd_trans (dvd_eight_of_mem hA).1 (by decide)
  obtain ⟨height, hpos⟩ := dvd_eight_of_mem hsize
  unfold scanChunks
  rw [if_pos hA]
  cases hplan : ScanPlan.of? view alignment test.size with
  | none =>
    have hcount := ScanPlan.of?_eq_none_iff.1 hplan
    have hstarts : view.toRegion.starts alignment test.size = [] := by
      rw [Region.starts]
      exact congrArg (List.range' _ · _) hcount
    simp only [matching, hstarts]
    rfl
  | some p =>
    obtain ⟨hp, rfl, hpS⟩ := ScanPlan.for_of_of?_eq_some hchunkSize hpos hplan
    simp only
    cases hspacing : Spacing.of p.alignment test.size with
    | staggered =>
      obtain ⟨hdvd, _⟩ := (dvd_or_dvd_of_mem hsize hA).resolve_left
        fun h => Nat.not_lt.2 h.2 (Spacing.of_eq_staggered_iff.1 hspacing)
      rw [← hpS] at hdvd height
      simp only [ScanPlan.scanStaggered_eq_spans hp htest hpS.symm hdvd height, hpS]
    | dense | sparse =>
      obtain ⟨hdvd, _⟩ := (dvd_or_dvd_of_mem hsize hA).resolve_right
        fun h => by simp [Spacing.of_eq_staggered_iff.2 h.2] at hspacing
      rw [← hpS] at hdvd
      simp only [ScanPlan.scanLanes_eq_spans hp htest hpS.symm hdvd, hpS]

/-- Scanning chunk by chunk finds the same regions as scanning one element at a time, for elements of any distance
and size that chunks can be scanned for.  The test may be any whose two forms agree; those of a compiled constraint
do. -/
theorem scanChunks_eq_scanElements (view : View) (hA : alignment ∈ [1, 2, 4, 8]) :
    (∀ test : ElementTest, test.Lawful → test.size ∈ [1, 2, 4, 8] →
      view.scanChunks test alignment = .ok (view.scanElements test alignment)) ∧
    (∀ c type p, Predicate.compile c type = .ok p →
      view.scanChunks p.test alignment = .ok (view.scanElements p.test alignment)) := by
  have hpos := (dvd_eight_of_mem hA).2
  have hlawful : ∀ test : ElementTest, test.Lawful → test.size ∈ [1, 2, 4, 8] →
      view.scanChunks test alignment = .ok (view.scanElements test alignment) := by
    intro test htest hsize
    rw [scanChunks_eq_spans view htest hsize hA,
      scanElements_eq_spans view (dvd_eight_of_mem hsize).2 hpos (Nat.le_trans (le_eight_of_mem hA) (by decide))]
  refine ⟨hlawful, ?_⟩
  intro c type p hp
  obtain ⟨t, _, hprepare⟩ := Predicate.compile_eq_ok hp
  exact hlawful p.test (Predicate.lawful_test hprepare) p.type.size_mem

theorem scanChunks_eq_scanElements_overlapping :
    let bytes : Array UInt8 := #[7, 7, 7, 0, 0, 0, 0, 0, 0, 0, 0, 0, 0, 0, 0, 0, 0, 7, 7]
    let view : View := ⟨0, ⟨⟨0⟩, bytes, bytes, none, rfl, by simp, by decide⟩, 1, 18, by decide⟩
    let c : Constraint := .leaf .greaterThan (some (.number (.unsigned .two) 0x0600#16))
    1 ∈ [1, 2, 4, 8] ∧ ∃ p, Predicate.compile c ⟨.number (.unsigned .two), .little⟩ = .ok p ∧
      p.test.Lawful ∧ p.test.size ∈ [1, 2, 4, 8] ∧ view.scanChunks p.test 1 = .ok [
        { readGroup := 0, offset := 1, length := 2 }, { readGroup := 0, offset := 16, length := 3 }] := by
  intro bytes view c
  have hA : 1 ∈ [1, 2, 4, 8] := by decide
  have hcompile : Predicate.compile c ⟨.number (.unsigned .two), .little⟩ =
    .ok ⟨.unsigned .two, .little, false, .leaf .greaterThan 0x0600#16⟩ := rfl
  have hlawful := Predicate.lawful_test (c := c) (t := .unsigned .two) hcompile
  refine ⟨hA, _, hcompile, hlawful, (NumberType.unsigned .two).size_mem, ?_⟩
  rw [(scanChunks_eq_scanElements view hA).2 c _ _ hcompile]
  decide +kernel

end View
end Memsift
