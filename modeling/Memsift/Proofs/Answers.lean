import Memsift.Proofs.Plan
import Memsift.Proofs.Meaning

/-!
# The answers of a chunk

The answers of a chunk, one for each position on the grid, are those of the elements that start there, and false where
none does (`ScanPlan.answers`).  The key facts: the lanes of one comparison hold them when elements do not overlap
(`slots_laneResults`), and the bits gathered from several comparisons do when they overlap (`flatMap_chunkBits`).  The
test may be any whose two forms agree.
-/

namespace Memsift

theorem flatMap_range' (first n m step : Nat) :
    (List.range n).flatMap (fun k => List.range' (first + k * (m * step)) m step) =
      List.range' first (n * m) step := by
  induction n with
  | zero => simp
  | succ n ih =>
    rw [List.range_succ, List.flatMap_append, ih, List.flatMap_singleton, Nat.succ_mul, ← List.range'_append]
    congr 2
    rw [Nat.mul_comm step, Nat.mul_assoc]

namespace ScanPlan

variable {p : ScanPlan} {view : View} {test : ElementTest}

/-- The answers for the slots of a chunk: whether an element of the view starts there and passes. -/
def answers (p : ScanPlan) (view : View) (test : ElementTest) (chunk : Nat) : List Bool :=
  (List.range' 0 (chunkSize / p.alignment) p.alignment).map fun lane =>
    p.slotValid chunk lane && view.group.passes test (p.readStart + (chunk * chunkSize + lane))

theorem length_answers (hA : p.alignment ∣ chunkSize) (chunk : Nat) :
    (p.answers view test chunk).length * p.alignment = chunkSize := by
  rw [answers, List.length_map, List.length_range']
  exact Nat.div_mul_cancel hA

theorem slots_eq (hA : p.alignment ∣ chunkSize) :
    p.slots = List.range' 0 (chunkSize / p.alignment) p.alignment := by
  have hpos : 0 < p.alignment := Nat.pos_of_dvd_of_pos hA (by decide)
  apply filter_range_eq_range' hpos
  intro lane
  rw [beq_iff_eq]
  constructor
  · rintro ⟨hlt, hmod⟩
    obtain ⟨k, rfl⟩ := Nat.dvd_of_mod_eq_zero hmod
    exact ⟨k, (Nat.lt_div_iff_mul_lt' hA k).2 hlt, by omega⟩
  · rintro ⟨k, hk, rfl⟩
    rw [Nat.zero_add]
    exact ⟨(Nat.lt_div_iff_mul_lt' hA k).1 hk, Nat.mul_mod_right ..⟩

theorem lane_compareAt (htest : test.Lawful) (hS : 0 < test.size) {position lane : Nat} (hslot : test.size ∣ lane)
    (hlane : lane + test.size ≤ chunkSize)
    (hin : p.readStart + position + lane + test.size ≤ view.group.size) :
    (p.compareAt view test position).lane lane = view.group.passes test (p.readStart + position + lane) := by
  obtain ⟨slot, rfl⟩ := hslot
  have hslot : slot < chunkSize / test.size := by
    rw [Nat.lt_iff_add_one_le, Nat.le_div_iff_mul_le hS, Nat.succ_mul, Nat.mul_comm]
    exact hlane
  rw [Nat.mul_comm] at hlane hin ⊢
  have hbytes : ∀ buffer : Array UInt8, buffer.size = view.group.size →
      ((Chunk.load buffer (p.readStart + position)).from (slot * test.size)).take test.size =
        bytesAt buffer (p.readStart + position + slot * test.size) test.size := by
    intro buffer hbuffer
    exact Chunk.take_from_load (by rw [hbuffer]; exact hin) hlane
  have hlength : ∀ chunk : Chunk, test.size ≤ (chunk.from (slot * test.size)).length := by
    intro chunk
    simp only [Chunk.from, List.length_drop, Vector.length_toList]
    omega
  have hcompare : ∀ current previous : Chunk, (test.compare current previous).lane (slot * test.size) =
      test.holds ((current.from (slot * test.size)).take test.size)
        ((previous.from (slot * test.size)).take test.size) := by
    intro current previous
    have hfirst := htest.lane_compare current previous slot hslot 0 hS
    rw [Nat.add_zero] at hfirst
    rw [hfirst, htest.holds_take _ _ (hlength _) (hlength _)]
  unfold compareAt ReadGroup.passes
  cases hprev : test.requiresPrevious with
  | true =>
    simp only [↓reduceIte]
    rw [hcompare, hbytes _ rfl, hbytes _ view.group.previous_size]
  | false =>
    -- both forms are shown the current bytes twice
    simp only [Bool.false_eq_true, ↓reduceIte]
    rw [hcompare, hbytes _ rfl]

theorem laneResults_eq (p : ScanPlan) (view : View) (test : ElementTest) (chunk : Nat) {lane : Nat}
    (hlane : lane < chunkSize) (hS : 0 < p.elementSize) (hgrid : p.alignment ∣ lane) :
    ∃ mask : Mask, mask.lane lane = (p.compareAt view test (chunk * chunkSize)).lane lane ∧
      p.laneResults view test chunk = (p.laneMask chunk).elim mask (mask &&& ·) := by
  -- the bytes between two elements, which count as matching, come after the first lane of an element
  have hsparse : ∀ mask : Mask, (mask ||| Mask.sparse p.alignment p.elementSize).lane lane = mask.lane lane := by
    intro mask
    rw [Mask.sparse, Mask.lane_or_ofFn _ _ hlane, Nat.mod_eq_zero_of_dvd hgrid]
    simp only [Nat.le_zero, Nat.ne_of_gt hS, decide_false, Bool.or_false]
  unfold laneResults
  cases Spacing.of p.alignment p.elementSize with
  | dense => exact ⟨_, rfl, by cases p.laneMask chunk <;> rfl⟩
  | sparse => exact ⟨_, hsparse _, by cases p.laneMask chunk <;> rfl⟩
  | staggered => exact ⟨_, rfl, by cases p.laneMask chunk <;> rfl⟩

section Lanes

variable (hp : p.For view) (htest : test.Lawful) (hsize : test.size = p.elementSize)
include hp htest hsize

theorem lane_compareAt_of_slotValid {chunk shift lane : Nat} (hgrid : p.alignment ∣ shift + lane)
    (hslot : test.size ∣ lane) (hlane : lane + test.size ≤ chunkSize)
    (hvalid : p.slotValid chunk (shift + lane) = true) :
    (p.compareAt view test (chunk * chunkSize + shift)).lane lane =
      view.group.passes test (p.readStart + (chunk * chunkSize + (shift + lane))) := by
  have hS := hp.elementSize_pos
  have hstart := (hp.slotValid_iff chunk hgrid).1 hvalid
  have hin := Nat.le_trans (view.le_of_mem_starts hp.alignment_pos hS hstart).2.2 view.inside
  rw [lane_compareAt htest (by rwa [hsize]) hslot hlane (by rw [hsize]; omega)]
  congr 1
  omega

/-- The lanes at which elements start hold the answers of the chunk, when elements do not overlap. -/
theorem slots_laneResults (hdvd : p.elementSize ∣ p.alignment) {chunk : Nat} (hchunk : chunk < p.chunkCount) :
    p.slots.map (p.laneResults view test chunk).lane = p.answers view test chunk := by
  have hS := hp.elementSize_pos
  have hle : p.elementSize ≤ p.alignment := Nat.le_of_dvd hp.alignment_pos hdvd
  rw [slots_eq hp.alignment_dvd, answers]
  apply List.map_congr_left
  intro lane hmem
  obtain ⟨k, hk, hlane⟩ := List.mem_range'.1 hmem
  have hgrid : p.alignment ∣ lane := ⟨k, by omega⟩
  have hroom : lane + p.alignment ≤ chunkSize := by
    have := (Nat.le_div_iff_mul_le hp.alignment_pos).1 (Nat.succ_le_of_lt hk)
    rw [Nat.succ_mul, Nat.mul_comm] at this
    omega
  have hin : lane < chunkSize := by
    have := hp.alignment_pos
    omega
  have hcompare : p.slotValid chunk lane = true → (p.compareAt view test (chunk * chunkSize)).lane lane =
      view.group.passes test (p.readStart + (chunk * chunkSize + lane)) := by
    intro hvalid
    have hsub : test.size ∣ lane := by
      rw [hsize]
      exact Nat.dvd_trans hdvd hgrid
    rw [← Nat.zero_add lane] at hgrid hvalid
    have hanswer := lane_compareAt_of_slotValid hp htest hsize hgrid hsub (by omega) hvalid
    rwa [Nat.zero_add, Nat.add_zero] at hanswer
  have hspec := hp.laneMask_spec hchunk
  have hvalid := hp.inWindow_eq_slotValid hle chunk hgrid (Nat.le_refl lane) (by omega)
  obtain ⟨mask, hmask, hresults⟩ := laneResults_eq p view test chunk hin hS hgrid
  rw [hresults]
  cases hlaneMask : p.laneMask chunk with
  | none =>
    rw [hlaneMask] at hspec
    have hslot := hspec lane hin
    rw [hvalid] at hslot
    rw [Option.elim_none, hmask, hcompare hslot, hslot, Bool.true_and]
  | some valid =>
    rw [hlaneMask] at hspec
    rw [Option.elim_some, hspec, Mask.lane_and_ofFn _ _ hin, hmask, hvalid]
    cases hslot : p.slotValid chunk lane with
    | true => rw [hcompare hslot, Bool.and_true, Bool.true_and]
    | false => rw [Bool.and_false, Bool.false_and]

end Lanes

section Bits

/-- If each step of a loop changes one bit, in turn, the loop changes each of these bits once. -/
theorem getLsbD_foldl_range (update : Nat → Bool → Bool) {step : BitVec 8 → Nat → BitVec 8}
    (h : ∀ bits j k, k < 8 →
      (step bits j).getLsbD k = if j = k then update k (bits.getLsbD k) else bits.getLsbD k)
    (bits : BitVec 8) (n : Nat) {k : Nat} (hk : k < 8) :
    ((List.range n).foldl step bits).getLsbD k =
      if k < n then update k (bits.getLsbD k) else bits.getLsbD k := by
  induction n with
  | zero => rfl
  | succ n ih =>
    rw [List.range_succ, List.foldl_append, List.foldl_cons, List.foldl_nil, h _ _ _ hk, ih]
    by_cases hkn : n = k
    · subst hkn
      simp
    · have hlt : k < n + 1 ↔ k < n := by omega
      simp only [hkn, hlt, ↓reduceIte]

theorem getLsbD_twoPow_of_lt (j : Nat) {k : Nat} (hk : k < 8) : (BitVec.twoPow 8 j).getLsbD k = decide (j = k) := by
  rw [BitVec.getLsbD_twoPow]
  by_cases h : j = k <;> simp [h, hk]

theorem getLsbD_groupBits (p : ScanPlan) (masks : Nat → Mask) {n : Nat} (group : Nat) {k : Nat} (hk : k < n)
    (hk8 : k < 8) :
    (p.groupBits ((List.range n).map masks) group).getLsbD k = (masks k).lane (group * p.elementSize) := by
  have hzip : ((List.range n).map masks).zipIdx = (List.range n).map fun j => (masks j, j) := by
    apply List.ext_getElem <;> simp
  rw [groupBits, hzip, List.foldl_map]
  have hset : ∀ (bits : BitVec 8) (j k : Nat), k < 8 →
      (if (masks j).lane (group * p.elementSize) then bits ||| BitVec.twoPow 8 j else bits).getLsbD k =
        if j = k then bits.getLsbD k || (masks k).lane (group * p.elementSize) else bits.getLsbD k := by
    intro bits j k hk
    by_cases hjk : j = k
    · subst hjk
      cases h : (masks j).lane (group * p.elementSize) <;> simp [getLsbD_twoPow_of_lt _ hk]
    · cases h : (masks j).lane (group * p.elementSize) <;> simp [hjk, getLsbD_twoPow_of_lt _ hk]
  have hbits := getLsbD_foldl_range (fun k bit => bit || (masks k).lane (group * p.elementSize)) hset 0#8 n hk8
  rw [hbits, if_pos hk, BitVec.getLsbD_zero, Bool.false_or]

theorem getLsbD_keepValid (p : ScanPlan) (chunk group : Nat) (bits : BitVec 8) {k : Nat} (hk : k < p.offsets)
    (hk8 : k < 8) :
    (p.keepValid chunk group bits).getLsbD k =
      (p.slotValid chunk (group * p.elementSize + k * p.alignment) && bits.getLsbD k) := by
  have hclear : ∀ (bits : BitVec 8) (j k : Nat), k < 8 →
      (if p.slotValid chunk (group * p.elementSize + j * p.alignment) then bits
        else bits &&& ~~~BitVec.twoPow 8 j).getLsbD k =
        if j = k then p.slotValid chunk (group * p.elementSize + k * p.alignment) && bits.getLsbD k
        else bits.getLsbD k := by
    intro bits j k hk
    by_cases hjk : j = k
    · subst hjk
      cases h : p.slotValid chunk (group * p.elementSize + j * p.alignment) <;>
        simp [getLsbD_twoPow_of_lt _ hk]
    · cases h : p.slotValid chunk (group * p.elementSize + j * p.alignment) with
      | true => simp only [hjk, ↓reduceIte]
      | false =>
        simp only [Bool.false_eq_true, ↓reduceIte, BitVec.getLsbD_and, BitVec.getLsbD_not, getLsbD_twoPow_of_lt _ hk,
          hjk, hk, decide_true, decide_false, Bool.not_false, Bool.and_true]
  have hbits := getLsbD_foldl_range
    (fun k bit => p.slotValid chunk (group * p.elementSize + k * p.alignment) && bit) hclear bits p.offsets hk8
  rw [keepValid, hbits, if_pos hk]

theorem getLsbD_fullBits (p : ScanPlan) {k : Nat} (hk : k < p.offsets) (hk8 : k < 8) :
    p.fullBits.getLsbD k = true := by
  rw [fullBits, BitVec.getLsbD_ofNat, Nat.one_shiftLeft, Nat.testBit_two_pow_sub_one]
  simp [hk, hk8]

variable (hp : p.For view) (htest : test.Lawful) (hsize : test.size = p.elementSize)
  (hdvd : p.alignment ∣ p.elementSize) (height : p.elementSize ∣ 8) {chunk : Nat} (hchunk : chunk < p.chunkCount)
include hp htest hsize hdvd height hchunk

theorem exists_chunkBits :
    ∃ bits : Nat → BitVec 8,
      p.chunkBits view test chunk = (List.range (chunkSize / p.elementSize)).map bits ∧
      ∀ group < chunkSize / p.elementSize, ∀ k < p.offsets, (bits group).getLsbD k =
        (p.slotValid chunk (group * p.elementSize + k * p.alignment) && view.group.passes test
          (p.readStart + (chunk * chunkSize + (group * p.elementSize + k * p.alignment)))) := by
  have hA := hp.alignment_pos
  have hS := hp.elementSize_pos
  refine ⟨_, rfl, ?_⟩
  intro group hgroup k hk
  have hkS : k * p.alignment < p.elementSize := by
    rw [Nat.mul_comm]
    exact (Nat.lt_div_iff_mul_lt' hdvd k).1 hk
  have hk8 : k < 8 := by
    have hle := Nat.le_of_dvd (by decide) height
    have := Nat.le_mul_of_pos_right k hA
    omega
  have hroom : group * p.elementSize + p.elementSize ≤ chunkSize := by
    rw [← Nat.succ_mul]
    exact (Nat.le_div_iff_mul_le hS).1 hgroup
  have hgrid : p.alignment ∣ k * p.alignment + group * p.elementSize :=
    Nat.dvd_add (Nat.dvd_mul_left ..) (Nat.dvd_mul_left_of_dvd hdvd group)
  have hmask : p.slotValid chunk (group * p.elementSize + k * p.alignment) = true →
      (p.compareAt view test (chunk * chunkSize + k * p.alignment)).lane (group * p.elementSize) =
        view.group.passes test
          (p.readStart + (chunk * chunkSize + (group * p.elementSize + k * p.alignment))) := by
    intro hvalid
    rw [Nat.add_comm (group * p.elementSize)] at hvalid ⊢
    exact lane_compareAt_of_slotValid hp htest hsize hgrid (hsize ▸ Nat.dvd_mul_left ..) (hsize ▸ hroom) hvalid
  have hbits := p.getLsbD_groupBits
    (fun j => p.compareAt view test (chunk * chunkSize + j * p.alignment)) group hk hk8
  simp only
  split
  · rw [getLsbD_keepValid p chunk group _ hk hk8, hbits]
    cases hvalid : p.slotValid chunk (group * p.elementSize + k * p.alignment) with
    | true => rw [hmask hvalid]
    | false => rfl
  · rename_i hinner
    simp only [Bool.or_eq_true, beq_iff_eq, not_or, Bool.not_eq_true] at hinner
    have hin : group * p.elementSize + k * p.alignment < chunkSize := by omega
    have hvalid := hp.slotValid_of_inner hchunk hinner.1 hinner.2 hin
    rw [hbits, hmask hvalid, hvalid, Bool.true_and]

/-- The bits of the groups are the answers of the chunk, when elements overlap. -/
theorem flatMap_chunkBits :
    (p.chunkBits view test chunk).flatMap (fun bits => (List.range p.offsets).map bits.getLsbD) =
      p.answers view test chunk := by
  obtain ⟨bits, hbits, hanswer⟩ := exists_chunkBits hp htest hsize hdvd height hchunk
  have hoffsets : p.offsets * p.alignment = p.elementSize := Nat.div_mul_cancel hdvd
  have hchunkSize : p.elementSize ∣ chunkSize := Nat.dvd_trans height (by decide)
  have hcount : chunkSize / p.elementSize * p.offsets = chunkSize / p.alignment := by
    apply Nat.eq_of_mul_eq_mul_right hp.alignment_pos
    rw [Nat.mul_assoc, hoffsets, Nat.div_mul_cancel hchunkSize, Nat.div_mul_cancel hp.alignment_dvd]
  rw [hbits, List.flatMap_map, answers, ← hcount, ← flatMap_range', List.map_flatMap]
  apply List.flatMap_congr
  intro group hgroup
  apply List.ext_getElem
  · simp
  · intro k hk _
    have hk' : k < p.offsets := by simpa using hk
    simp only [List.getElem_map, List.getElem_range, List.getElem_range']
    rw [hanswer group (List.mem_range.1 hgroup) k hk', hoffsets, Nat.zero_add, Nat.mul_comm p.alignment]

theorem answers_of_all {bits : BitVec 8} {result : Bool} (hresult : ∀ k < p.offsets, bits.getLsbD k = result)
    (hall : (p.chunkBits view test chunk).all (· == bits) = true) :
    ∀ r ∈ p.answers view test chunk, r = result := by
  intro r hr
  rw [← flatMap_chunkBits hp htest hsize hdvd height hchunk, List.mem_flatMap] at hr
  obtain ⟨b, hb, hr⟩ := hr
  obtain ⟨k, hk, rfl⟩ := List.mem_map.1 hr
  have : b = bits := by simpa using List.all_eq_true.1 hall b hb
  rw [this, hresult k (List.mem_range.1 hk)]

end Bits

end ScanPlan
end Memsift
