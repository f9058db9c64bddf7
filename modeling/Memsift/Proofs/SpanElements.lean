import Memsift.Proofs.Spans

/-!
# The elements of spans

Spans hold the offsets that they were made from and no others.  The key facts: the elements of the spans of some offsets
are these offsets (`flatMap_starts_spans`); the spans move along when the offsets do (`spans_map_add`); and choosing
among offsets on a grid chooses among those of each run (`spans_filter`), as different runs are too far apart to
grow together.
-/

namespace Memsift

/-- The region of one run of offsets. -/
def Region.ofRun (readGroup elementSize : Nat) (run : List Nat) : Region :=
  { readGroup, offset := run.headD 0, length := run.getLastD 0 + elementSize - run.headD 0 }

variable {readGroup alignment elementSize : Nat} {offsets : List Nat}

theorem spans_eq (readGroup alignment elementSize : Nat) (offsets : List Nat) :
    spans readGroup alignment elementSize offsets =
      (offsets.splitBy fun a b => b == a + alignment).map (Region.ofRun readGroup elementSize) := rfl

theorem starts_ofRun (hA : 0 < alignment) (hS : 0 < elementSize) {run : List Nat} (hne : run ≠ [])
    (hrun : run.IsChain fun a b => (b == a + alignment) = true) (readGroup : Nat) :
    (Region.ofRun readGroup elementSize run).starts alignment elementSize = run := by
  have hrange := eq_range'_of_isChain hrun
  obtain ⟨m, hm⟩ : ∃ m, run.length = m + 1 :=
    Nat.exists_eq_succ_of_ne_zero (by simpa using hne)
  rw [hm] at hrange
  generalize run.headD 0 = first at hrange
  subst hrange
  have hhead : (List.range' first (m + 1) alignment).headD 0 = first := rfl
  have hlast : (List.range' first (m + 1) alignment).getLastD 0 = first + m * alignment := by
    rw [List.range'_concat, List.getLastD_concat, Nat.mul_comm]
  have hlength : first + m * alignment + elementSize - first = m * alignment + elementSize := by omega
  simp only [Region.starts, Region.ofRun, hhead, hlast, hlength, elementCount_window m hA hS]

/-- The elements of spans are the offsets that the spans were made from. -/
theorem flatMap_starts_spans (hA : 0 < alignment) (hS : 0 < elementSize) (readGroup : Nat) (offsets : List Nat) :
    (spans readGroup alignment elementSize offsets).flatMap (·.starts alignment elementSize) = offsets := by
  rw [spans_eq, List.flatMap_map]
  have hruns : ∀ run ∈ offsets.splitBy fun a b => b == a + alignment,
      (Region.ofRun readGroup elementSize run).starts alignment elementSize = run :=
    fun run hrun => starts_ofRun hA hS (List.ne_nil_of_mem_splitBy hrun) (List.isChain_of_mem_splitBy hrun) readGroup
  rw [List.flatMap_congr hruns, List.flatMap_id', List.flatten_splitBy]

/-- A span begins with one of the offsets and ends with the element at one of them. -/
theorem of_mem_spans {r : Region} (h : r ∈ spans readGroup alignment elementSize offsets) :
    r.readGroup = readGroup ∧ r.offset ∈ offsets ∧ ∃ last ∈ offsets, r.endOffset = last + elementSize := by
  rw [spans_eq, List.mem_map] at h
  obtain ⟨run, hrun, rfl⟩ := h
  obtain ⟨first, m, hhead, hlast, hfirst, hend⟩ := exists_of_mem_splitBy hrun
  refine ⟨rfl, ?_, first + m * alignment, hend, ?_⟩
  · rw [Region.ofRun, hhead]
    exact hfirst
  · simp only [Region.endOffset, Region.ofRun, hhead, hlast]
    omega

section Map

variable {α β : Type} {r : β → β → Bool}

theorem splitBy_map (f : α → β) (l : List α) :
    (l.map f).splitBy r = (l.splitBy fun a b => r (f a) (f b)).map (List.map f) := by
  rw [List.splitBy_eq_iff]
  refine ⟨?_, ?_, ?_, ?_⟩
  · rw [← List.map_flatten, List.flatten_splitBy]
  · intro hnil
    obtain ⟨run, hrun, hmap⟩ := List.mem_map.1 hnil
    exact List.ne_nil_of_mem_splitBy hrun (List.map_eq_nil_iff.1 hmap)
  · intro m hm
    obtain ⟨run, hrun, rfl⟩ := List.mem_map.1 hm
    rw [List.isChain_map]
    exact List.isChain_of_mem_splitBy hrun
  · rw [List.isChain_map]
    refine (List.isChain_getLast_head_splitBy _ l).imp ?_
    rintro xs ys ⟨hxs, hys, h⟩
    refine ⟨by simpa using hxs, by simpa using hys, ?_⟩
    rwa [List.getLast_map, List.head_map]

end Map

theorem ofRun_map_add (readGroup base : Nat) {run : List Nat} (hne : run ≠ []) :
    Region.ofRun readGroup elementSize (run.map (base + ·)) =
      { Region.ofRun 0 elementSize run with
        readGroup, offset := base + (Region.ofRun 0 elementSize run).offset } := by
  obtain ⟨a, rest, rfl⟩ := List.exists_cons_of_ne_nil hne
  have hlast : (rest.map (base + ·)).getLastD (base + a) = base + rest.getLastD a := by
    simp
  simp only [Region.ofRun, List.map_cons, List.headD_cons, List.getLastD_cons, hlast]
  rw [Nat.add_assoc, Nat.add_sub_add_left]

/-- Spans move along with the offsets, and into other groups. -/
theorem spans_map_add (readGroup base : Nat) (offsets : List Nat) :
    spans readGroup alignment elementSize (offsets.map (base + ·)) =
      (spans 0 alignment elementSize offsets).map fun r => { r with readGroup, offset := base + r.offset } := by
  have hstep : (fun a b => base + b == base + a + alignment) = fun a b : Nat => b == a + alignment := by
    funext a b
    rw [Nat.add_assoc, Bool.eq_iff_iff, beq_iff_eq, beq_iff_eq, Nat.add_left_cancel_iff]
  rw [spans_eq, splitBy_map, hstep, spans_eq, List.map_map, List.map_map]
  apply List.map_congr_left
  intro run hrun
  exact ofRun_map_add readGroup base (List.ne_nil_of_mem_splitBy hrun)

section Filter

theorem splitBy_flatten_of_pairwise {r : Nat → Nat → Bool} {ms : List (List Nat)}
    (h : ms.Pairwise fun xs ys => ∀ a ∈ xs, ∀ b ∈ ys, r a b = false) :
    ms.flatten.splitBy r = ms.flatMap (·.splitBy r) := by
  induction ms with
  | nil => rfl
  | cons m ms ih =>
    obtain ⟨hfirst, hrest⟩ := List.pairwise_cons.1 h
    rw [List.flatten_cons, List.splitBy_append, ih hrest, List.flatMap_cons]
    intro a ha b hb
    obtain ⟨ys, hys, hb⟩ := List.mem_flatten.1 (List.mem_of_mem_head? hb)
    exact hfirst ys hys a (List.mem_of_mem_getLast? ha) b hb

/-- The offsets lie on a grid, in increasing order. -/
def OnGrid (step : Nat) (offsets : List Nat) : Prop := offsets.Pairwise fun a b => a < b ∧ step ∣ b - a

theorem OnGrid.filter (h : OnGrid alignment offsets) (q : Nat → Bool) : OnGrid alignment (offsets.filter q) :=
  List.Pairwise.filter q h

/-- Offsets in different runs are more than a step apart. -/
theorem OnGrid.pairwise_splitBy (h : OnGrid alignment offsets) :
    (offsets.splitBy fun a b => b == a + alignment).Pairwise fun xs ys => ∀ a ∈ xs, ∀ b ∈ ys, a + alignment < b := by
  let apart : List Nat → List Nat → Prop := fun xs ys => ys ≠ [] ∧ ∀ a ∈ xs, ∀ b ∈ ys, a + alignment < b
  have htrans : Trans apart apart apart := by
    constructor
    rintro xs ys zs ⟨hys, hxy⟩ ⟨hzs, hyz⟩
    refine ⟨hzs, fun a ha c hc => ?_⟩
    obtain ⟨b, hb⟩ := List.exists_mem_of_ne_nil ys hys
    have := hxy a ha b hb
    have := hyz b hb c hc
    omega
  rw [OnGrid, ← List.flatten_splitBy (fun a b => b == a + alignment) offsets, List.pairwise_flatten] at h
  obtain ⟨hruns, hcross⟩ := h
  have hsorted : ∀ run ∈ offsets.splitBy fun a b => b == a + alignment, run.Pairwise (· ≤ ·) :=
    fun run hrun => (hruns run hrun).imp fun hab => Nat.le_of_lt hab.1
  have hchain : (offsets.splitBy fun a b => b == a + alignment).IsChain apart := by
    have hsplit := List.isChain_getLast_head_splitBy (fun a b => b == a + alignment) offsets
    rw [List.isChain_iff_getElem] at hsplit ⊢
    rw [List.pairwise_iff_getElem] at hcross
    intro i hi
    obtain ⟨hxs, hys, hstep⟩ := hsplit i hi
    refine ⟨hys, fun a ha b hb => ?_⟩
    -- the last offset of a run and the first of the next one are neighbours on the grid at most
    obtain ⟨hlt, hdvd⟩ := hcross i (i + 1) (by omega) hi (by omega) _ (List.getLast_mem hxs) _ (List.head_mem hys)
    have hgap := Nat.le_of_dvd (Nat.sub_pos_of_lt hlt) hdvd
    have hlast := (hsorted _ (List.getElem_mem (by omega))).rel_getLast ha
    have hfirst := (hsorted _ (List.getElem_mem hi)).rel_head hb
    rw [beq_eq_false_iff_ne] at hstep
    omega
  exact hchain.pairwise.imp fun hapart => hapart.2

theorem spans_filter (h : OnGrid alignment offsets) (readGroup elementSize : Nat) (q : Nat → Bool) :
    spans readGroup alignment elementSize (offsets.filter q) =
      (offsets.splitBy fun a b => b == a + alignment).flatMap fun run =>
        spans readGroup alignment elementSize (run.filter q) := by
  have hapart : ((offsets.splitBy fun a b => b == a + alignment).map (List.filter q)).Pairwise fun xs ys =>
      ∀ a ∈ xs, ∀ b ∈ ys, (b == a + alignment) = false := by
    rw [List.pairwise_map]
    refine h.pairwise_splitBy.imp ?_
    intro xs ys hxy a ha b hb
    have := hxy a (List.mem_of_mem_filter ha) b (List.mem_of_mem_filter hb)
    rw [beq_eq_false_iff_ne]
    omega
  have hfilter : offsets.filter q = ((offsets.splitBy fun a b => b == a + alignment).map (List.filter q)).flatten := by
    rw [← List.filter_flatten, List.flatten_splitBy]
  rw [spans_eq, hfilter, splitBy_flatten_of_pairwise hapart, List.flatMap_map, List.map_flatMap]
  rfl

end Filter

end Memsift
