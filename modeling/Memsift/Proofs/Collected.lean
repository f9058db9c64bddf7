import Memsift.Collection
import Memsift.Memory
import Memsift.Proofs.GroupHistory
import Memsift.Proofs.Numbering
import Memsift.Proofs.Places
import Memsift.Proofs.Recorded

/-!
# What a collection leaves

A collection reads the groups of a snapshot one by one, and each group is read in full, cannot be read or is skipped.
The key facts: a read that gives less than the whole group changes nothing (`readGroup_cases`), the numbers of the
groups that could not be read are known afterwards (`mem_failures_iff`, `length_failures`), and so each group and the
regions over it are as its fate says, whatever became of the other groups (`collect_atomic`).
-/

namespace Memsift

/-- What becomes of a read group in a collection. -/
inductive GroupFate where
  | read | failed | skipped
deriving DecidableEq

namespace ReadGroup

variable {g g' : ReadGroup} {reader : Reader} {bytes : Array UInt8}

/-- A reader fills the whole group with some bytes; an empty group is not read. -/
def Filled (g : ReadGroup) (reader : Reader) (bytes : Array UInt8) : Prop :=
  ∃ buffer : Vector UInt8 g.size, buffer.toArray = bytes ∧
    (0 < g.size → reader g.base (Vector.replicate g.size 0) = (buffer, .ok g.size))

/-- The group after its fate in a collection. -/
inductive Collected (g : ReadGroup) (reader : Reader) : GroupFate → ReadGroup → Prop where
  | read {g' : ReadGroup} (filled : g.Filled reader g'.current) (previous : g'.previous = g.current)
    (base : g'.base = g.base) (size : g'.size = g.size) (labels : g'.labels = g.labels) : Collected g reader .read g'
  | failed (unfilled : ∀ bytes, ¬ g.Filled reader bytes) : Collected g reader .failed g
  | skipped : Collected g reader .skipped g

theorem isEmpty_iff : g.isEmpty = true ↔ g.size = 0 := by
  rw [isEmpty, beq_iff_eq]

theorem exists_filled_of_isEmpty (h : g.isEmpty = true) (reader : Reader) : ∃ bytes, g.Filled reader bytes := by
  rw [isEmpty_iff] at h
  exact ⟨_, Vector.replicate g.size 0, rfl, fun hpos => by omega⟩

theorem Filled.congr (h : g.Filled reader bytes) (hbase : g'.base = g.base) (hsize : g'.size = g.size) :
    g'.Filled reader bytes := by
  unfold Filled
  rw [hbase, hsize]
  exact h

end ReadGroup

namespace Snapshot

variable {g : ReadGroup} {reader : Reader}

/-- A group is filled and its values have moved on, or it could not be filled. -/
theorem readGroup_cases (g : ReadGroup) (reader : Reader) :
    (∃ g', readGroup g reader = (.ok (), g') ∧ g.Collected reader .read g') ∨
    ∃ e, readGroup g reader = (.error e, g) ∧ g.Collected reader .failed g := by
  cases hempty : g.isEmpty with
  | true =>
    have hsize : g.current.size = 0 := ReadGroup.isEmpty_iff.1 hempty
    have hcurrent : g.current = #[] := Array.eq_empty_of_size_eq_zero hsize
    have hprevious : g.previous = #[] := Array.eq_empty_of_size_eq_zero (g.previous_size.trans hsize)
    have hfilled : g.Filled reader g.current := ⟨⟨g.current, rfl⟩, rfl, fun hpos => absurd hsize hpos.ne'⟩
    exact .inl ⟨g, if_pos hempty, .read hfilled (hprevious.trans hcurrent.symm) rfl rfl rfl⟩
  | false =>
    have hpos : 0 < g.size := by
      have hsize := mt ReadGroup.isEmpty_iff.2 (Bool.eq_false_iff.1 hempty)
      omega
    have heffect := g.effect_reread @reader
    have hsize := heffect.size_eq
    rw [show readGroup g reader = g.reread @reader from if_neg (by rw [hempty]; decide)]
    generalize g.reread @reader = result at heffect hsize ⊢
    obtain ⟨answer, g'⟩ := result
    simp only at heffect hsize
    cases heffect with
    | refreshed hread hbase hcurrent hprevious hlabels =>
      exact .inl ⟨g', rfl, .read ⟨_, hcurrent.symm, fun _ => hread⟩ hprevious hbase hsize hlabels⟩
    | unread hread =>
      refine .inr ⟨_, rfl, .failed ?_⟩
      rintro bytes ⟨buffer, _, hfilled⟩
      cases hread.symm.trans (hfilled hpos)
    | partlyRead hread hshort =>
      refine .inr ⟨_, rfl, .failed ?_⟩
      rintro bytes ⟨buffer, _, hfilled⟩
      cases hread.symm.trans (hfilled hpos)
      exact hshort rfl

/-- The fate of a group whose read had this result. -/
def fateOf : Option ReadGroup.Answer → GroupFate
  | none => .skipped
  | some (.error _, _) => .failed
  | some (.ok _, _) => .read

section Results

variable {results : List (Option ReadGroup.Answer)} {groups : List ReadGroup}

theorem replaceGroups_eq (h : results.length = groups.length) :
    replaceGroups groups results = groups.zipWith (fun g result => (result.map (·.2)).getD g) results := by
  induction groups generalizing results with
  | nil => cases results <;> rfl
  | cons g groups ih =>
    obtain _ | ⟨result, results⟩ := results
    · cases h
    · rw [replaceGroups, List.zipWith_cons_cons, ih (Nat.succ.inj h)]

theorem mem_failures_iff {i : Nat} : i ∈ failures results ↔ (results.map fateOf)[i]? = some .failed := by
  simp only [failures, List.mem_filterMap, List.getElem?_map, Option.map_eq_some_iff, Prod.exists]
  constructor
  · rintro ⟨result, j, hmem, hresult⟩
    rw [List.mk_mem_zipIdx_iff_getElem?] at hmem
    rcases result with _ | ⟨_ | _, _⟩
    · cases hresult
    · obtain rfl := Option.some.inj hresult
      exact ⟨_, hmem, rfl⟩
    · cases hresult
  · rintro ⟨result, hresult, hfate⟩
    rcases result with _ | ⟨_ | _, _⟩
    · cases hfate
    · exact ⟨_, i, List.mk_mem_zipIdx_iff_getElem?.2 hresult, rfl⟩
    · cases hfate

theorem length_failures : (failures results).length = (results.map fateOf).count .failed := by
  have hfst : results = results.zipIdx.map Prod.fst := (List.zipIdx_map_fst 0 results).symm
  rw [failures, List.length_filterMap_eq_countP, List.count, List.countP_map]
  conv => rhs; rw [hfst]
  rw [List.countP_map]
  apply List.countP_congr
  rintro ⟨result, i⟩ _
  rcases result with _ | ⟨_ | _, _⟩
  · simp [fateOf]
  · simp [fateOf]
  · simp [fateOf]

end Results

/-- The fates of the groups say what a snapshot is after a collection. -/
structure CollectedTo (s : Snapshot) (readers : Nat → Reader) (fates : List GroupFate) (s' : Snapshot) : Prop where
  length_fates : fates.length = s.groups.size
  size_groups : s'.groups.size = s.groups.size
  groups : ∀ (i : Nat) (g : ReadGroup) fate, s.groups[i]? = some g → fates[i]? = some fate →
    ∃ g', s'.groups[i]? = some g' ∧ g.Collected (readers i) fate g'
  empty : ∀ (i : Nat) (g : ReadGroup), s.groups[i]? = some g → g.isEmpty = true → fates[i]? ≠ some .failed
  map_place : s'.regions.map Region.place =
    (s.regions.filter fun r => fates[r.readGroup]? != some .failed).map Region.place
  indexed : s'.Indexed
  name : s'.name = s.name
  alignment : s'.alignment = max s.alignment 1
  elementSize : s'.elementSize = max s.elementSize 1

/-- The groups as they are listed for a pass. -/
def items (s : Snapshot) : List (ReadGroup × Nat) := s.groups.toList.zipIdx

/-- The snapshot after a pass over its groups. -/
def afterReads (s : Snapshot) (results : List (Option ReadGroup.Answer)) : Snapshot :=
  let read := { s with groups := (replaceGroups s.groups.toList results).toArray }
  read.retain fun r => !(failures results).contains r.readGroup

variable {s : Snapshot} {readers : Nat → Reader} {answers : List Bool}

theorem length_items (s : Snapshot) : s.items.length = s.groups.size := by
  rw [items, List.length_zipIdx, Array.length_toList]

theorem getElem?_items (s : Snapshot) (i : Nat) : s.items[i]? = s.groups[i]?.map fun g => (g, i) := by
  rw [items, List.getElem?_zipIdx, Array.getElem?_toList, Nat.zero_add]

/-- What the answers of the token make of the groups. -/
def reads (s : Snapshot) (readers : Nat → Reader) (answers : List Bool) : List (Option ReadGroup.Answer) :=
  attempts (fun (g, i) => readGroup g (readers i)) s.items answers

theorem getElem?_reads {i : Nat} {answer : Bool} (hg : s.groups[i]? = some g) (hanswer : answers[i]? = some answer) :
    (s.reads readers answers)[i]? = some (if answer then none else some (readGroup g (readers i))) := by
  rw [reads, getElem?_attempts, getElem?_items, hg, hanswer]
  rfl

theorem length_reads (h : answers.length = s.groups.size) : (s.reads readers answers).length = s.groups.size := by
  rw [reads, attempts, List.length_zipWith, length_items, h, Nat.min_self]

theorem getElem?_groups_afterReads (h : answers.length = s.groups.size) {i : Nat} {answer : Bool}
    (hg : s.groups[i]? = some g) (hanswer : answers[i]? = some answer) :
    (s.afterReads (s.reads readers answers)).groups[i]? =
      some (if answer then g else (readGroup g (readers i)).2) := by
  have hlength : (s.reads readers answers).length = s.groups.toList.length := by
    rw [length_reads h, Array.length_toList]
  show (replaceGroups s.groups.toList (s.reads readers answers)).toArray[i]? = _
  rw [replaceGroups_eq hlength, List.getElem?_toArray, List.getElem?_zipWith, Array.getElem?_toList, hg,
    getElem?_reads hg hanswer]
  cases answer <;> rfl

theorem exists_collected (h : answers.length = s.groups.size) {i : Nat} {fate : GroupFate}
    (hg : s.groups[i]? = some g) (hfate : ((s.reads readers answers).map fateOf)[i]? = some fate) :
    ∃ g', (s.afterReads (s.reads readers answers)).groups[i]? = some g' ∧ g.Collected (readers i) fate g' := by
  obtain ⟨answer, hanswer⟩ : ∃ answer, answers[i]? = some answer := by
    obtain ⟨hi, _⟩ := Array.getElem?_eq_some_iff.1 hg
    exact ⟨answers[i], List.getElem?_eq_getElem (by rwa [h])⟩
  refine ⟨_, getElem?_groups_afterReads h hg hanswer, ?_⟩
  rw [List.getElem?_map, getElem?_reads hg hanswer] at hfate
  obtain rfl := Option.some.inj hfate
  cases answer with
  | true => exact .skipped
  | false =>
    obtain ⟨g', hread, hcollected⟩ | ⟨e, hread, hcollected⟩ := readGroup_cases g (readers i)
    · rw [hread]
      exact hcollected
    · rw [hread]
      exact hcollected

theorem collectedTo_afterReads (h : answers.length = s.groups.size) :
    s.CollectedTo readers ((s.reads readers answers).map fateOf) (s.afterReads (s.reads readers answers)) := by
  have hlength : (s.reads readers answers).length = s.groups.size := length_reads h
  refine ⟨?_, ?_, fun i g fate => exists_collected h, ?_, ?_, indexed_build .., rfl, rfl, rfl⟩
  · rw [List.length_map, hlength]
  · show (replaceGroups s.groups.toList (s.reads readers answers)).toArray.size = _
    rw [replaceGroups_eq (hlength.trans Array.length_toList.symm), List.size_toArray, List.length_zipWith, hlength,
      Array.length_toList, Nat.min_self]
  · intro i g hg hempty hfailed
    obtain ⟨_, _, hcollected⟩ := exists_collected h hg hfailed
    obtain ⟨bytes, hfilled⟩ := ReadGroup.exists_filled_of_isEmpty hempty (readers i)
    cases hcollected with
    | failed unfilled => exact unfilled bytes hfilled
  · have hkeep : (fun r : Region => !(failures (s.reads readers answers)).contains r.readGroup) =
        fun r => ((s.reads readers answers).map fateOf)[r.readGroup]? != some .failed := by
      funext r
      rw [Bool.eq_iff_iff, Bool.not_eq_true', bne_iff_ne, ne_eq, ← mem_failures_iff, ← List.contains_iff_mem,
        Bool.not_eq_true]
    rw [afterReads, retain, map_place_build, hkeep]

theorem fateOf_reads_eq_skipped_iff (h : answers.length = s.groups.size) (i : Nat) :
    ((s.reads readers answers).map fateOf)[i]? = some .skipped ↔ answers[i]? = some true := by
  rw [List.getElem?_map]
  by_cases hi : i < s.groups.size
  · have hg : s.groups[i]? = some s.groups[i] := Array.getElem?_eq_getElem hi
    have hi' : i < answers.length := by omega
    have hanswer : answers[i]? = some answers[i] := List.getElem?_eq_getElem hi'
    rw [getElem?_reads hg hanswer, hanswer]
    cases answers[i] with
    | true => simp [fateOf]
    | false =>
      obtain ⟨g', hread, _⟩ | ⟨e, hread, _⟩ := readGroup_cases s.groups[i] (readers i)
      · simp [hread, fateOf]
      · simp [hread, fateOf]
  · rw [List.getElem?_eq_none (by rw [length_reads h]; omega), List.getElem?_eq_none (by omega)]
    simp

theorem skipped_mem_iff (h : answers.length = s.groups.size) :
    .skipped ∈ (s.reads readers answers).map fateOf ↔ true ∈ answers := by
  rw [List.mem_iff_getElem?, List.mem_iff_getElem?]
  exact exists_congr (fateOf_reads_eq_skipped_iff h)

section Runs

variable {σ : Type} {watch : Watch σ} {settings : ScanSettings} {task : String} {scene : Scene σ}

theorem anySkipped_iff (log : PassLog σ ReadGroup.Answer) :
    log.anySkipped = true ↔ .skipped ∈ log.results.map fateOf := by
  rw [PassLog.anySkipped, List.any_eq_true, List.mem_map]
  constructor
  · rintro ⟨result, hresult, hnone⟩
    rw [Option.isNone_iff_eq_none] at hnone
    exact ⟨result, hresult, by rw [hnone]; rfl⟩
  · rintro ⟨result, hresult, hfate⟩
    rcases result with _ | _ | _
    · exact ⟨none, hresult, rfl⟩
    · cases hfate
    · cases hfate

/-- The pass over the groups of a collection. -/
def readPass (s : Snapshot) (settings : ScanSettings) (watch : Watch σ) (readers : Nat → Reader) (scene : Scene σ) :
    PassLog σ ReadGroup.Answer :=
  runPass watch (max settings.progressInterval 1) s.items.length (fun (g, i) => readGroup g (readers i)) s.items 0 scene

/-- How a collection ends whose groups have these fates. -/
def collectedOutcome (task : String) (fates : List GroupFate) : CollectOutcome :=
  ⟨task, if .skipped ∈ fates then .canceled else .completed, fates.count .failed⟩

theorem collectFrom_eq (s : Snapshot) (settings : ScanSettings) (readers : Nat → Reader) {registry : TaskRegistry}
    (hbegin : scene.registry.begin task = .ok registry)
    (h : (s.readPass settings watch readers { scene with registry }).wentThrough = true) :
    s.collectFrom settings watch readers task scene =
      let log := s.readPass settings watch readers { scene with registry }
      let outcome := collectedOutcome task (log.results.map fateOf)
      (.ok outcome, s.afterReads log.results,
        { log.scene with registry := log.scene.registry.finish task outcome.state }) := by
  have hcollect : s.collectFrom settings watch readers task scene =
      let log := s.readPass settings watch readers { scene with registry }
      let state := if log.anySkipped then .canceled else .completed
      (.ok ⟨task, state, (failures log.results).length⟩, s.afterReads log.results,
        { log.scene with registry := log.scene.registry.finish task state }) := by
    unfold readPass items at h
    simp only [collectFrom, hbegin, h]
    rfl
  simp only [hcollect, collectedOutcome, length_failures, anySkipped_iff]

/-- A collection is refused while its task runs, and changes nothing then.  Otherwise it comes to an end however its
token is set, and each group was read in full, could not be read, or was skipped as the token was set before it: a
group that was read has its old values as the previous ones and the bytes that were read as the current ones, and
every other group is as it was; the regions over the groups that could not be read are gone, and only these. -/
theorem collect_atomic (s : Snapshot) (settings : ScanSettings) {fine : Scene σ → Prop} (hwatch : watch.Steady fine)
    (readers : Nat → Reader) (task : String) {scene : Scene σ}
    (hfine : ∀ registry, scene.registry.begin task = .ok registry → fine { scene with registry }) :
    (scene.registry.state task = .running →
      s.collectFrom settings watch readers task scene = (.error (.taskConflict task), s, scene)) ∧
    (scene.registry.state task ≠ .running →
      ∃ (fates : List GroupFate) (answers : List Bool) (s' : Snapshot) (scene' : Scene σ),
        s.collectFrom settings watch readers task scene = (.ok (collectedOutcome task fates), s', scene') ∧
        s.collectFrom settings watch.recorded readers task (scene.recorded []) =
          (.ok (collectedOutcome task fates), s', scene'.recorded answers) ∧
        answers.length = s.groups.size ∧ (∀ i : Nat, fates[i]? = some .skipped ↔ answers[i]? = some true) ∧
        s.CollectedTo readers fates s') := by
  constructor
  · intro hrunning
    have hbegin : scene.registry.begin task = .error (.taskConflict task) := TaskRegistry.begin_of_running hrunning
    simp only [collectFrom, hbegin]
  · intro hidle
    obtain ⟨registry, hbegin⟩ := TaskRegistry.exists_begin hidle
    have hbegin' : (scene.recorded []).registry.begin task = .ok registry := hbegin
    obtain ⟨answers, hlength, hresults, hthrough, _, hrecorded⟩ :=
      runPass_recorded hwatch (max settings.progressInterval 1) s.items.length
        (fun (g, i) => readGroup g (readers i)) s.items 0 (hfine registry hbegin) []
    rw [length_items] at hlength
    let log := s.readPass settings watch readers { scene with registry }
    have hlog : log.results = s.reads readers answers := hresults
    have hpass : s.readPass settings watch.recorded readers { scene.recorded [] with registry } =
      ⟨log.results, true, log.scene.recorded answers⟩ := hrecorded
    have hrun := s.collectFrom_eq settings readers hbegin hthrough
    have hrun' := s.collectFrom_eq settings readers hbegin' (congrArg PassLog.wentThrough hpass)
    rw [hpass] at hrun'
    refine ⟨log.results.map fateOf, answers, s.afterReads log.results, _, hrun, hrun', hlength, ?_⟩
    rw [hlog]
    exact ⟨fateOf_reads_eq_skipped_iff hlength, collectedTo_afterReads hlength⟩

/-- Of five groups the second one is empty, the third one is read in part and the fourth one not at all; the token is
set before the last one. -/
theorem collect_atomic_mixed :
    let group (base size : Nat) : ReadGroup := ReadGroup.zeros (.ofNat base) size
    let s := ofGroups "live" #[group 0x1000 2, group 0x1800 0, group 0x2000 4, group 0x3000 1, group 0x1001 1]
    let memory : Memory := ⟨[(0x1000, #[8, 9]), (0x2000, #[7])]⟩
    let watch : Watch Nat :=
      ⟨fun reports => (decide (4 ≤ reports), reports), fun _ scene => .ok { scene with state := scene.state + 1 }⟩
    let settings : ScanSettings := { progressInterval := 1 }
    let scene : Scene Nat := ⟨{ history := 1 }, 0⟩
    scene.registry.state "collect" ≠ .running ∧ ∃ fates s' scene',
      s.collectFrom settings watch (fun _ => memory.read) "collect" scene =
        (.ok (collectedOutcome "collect" fates), s', scene') ∧
      s.CollectedTo (fun _ => memory.read) fates s' ∧
      (collectedOutcome "collect" fates).state = .canceled ∧ fates.count .failed = 2 ∧
      s'.regions.map Region.place = [(0, 0, 2), (4, 0, 1)] ∧
      s'.groups.toList.map (·.current) = [#[8, 9], #[], #[0, 0, 0, 0], #[0], #[0]] := by
  intro group s memory watch settings scene
  have hwatch : watch.Steady fun _ => True :=
    ⟨fun _ _ => trivial, fun _ scene _ => ⟨{ scene with state := scene.state + 1 }, rfl, trivial⟩⟩
  have hidle : scene.registry.state "collect" ≠ .running := by decide
  have hfine : ∀ registry, scene.registry.begin "collect" = .ok registry → True := fun _ _ => trivial
  obtain ⟨_, hends⟩ := collect_atomic s settings hwatch (fun _ => memory.read) "collect" hfine
  obtain ⟨fates, answers, s', scene', hrun, _, _, _, hcollected⟩ := hends hidle
  let collected := s.collectFrom settings watch (fun _ => memory.read) "collect" scene
  have houtcome : collected.1.toOption = some (collectedOutcome "collect" fates) := by
    simp only [collected, hrun]
    rfl
  have hs' : collected.2.1 = s' := by simp only [collected, hrun]
  have hstate : collected.1.toOption.map (·.state) = some .canceled := by decide +kernel
  have hfailed : collected.1.toOption.map (·.failedGroups) = some 2 := by decide +kernel
  rw [houtcome] at hstate hfailed
  refine ⟨hidle, fates, s', scene', hrun, hcollected, Option.some.inj hstate, Option.some.inj hfailed, ?_, ?_⟩
  · rw [← hs']
    decide +kernel
  · rw [← hs']
    decide +kernel

end Runs

end Snapshot
end Memsift
