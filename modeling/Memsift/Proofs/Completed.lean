import Memsift.Proofs.Undisturbed

/-!
# Completed scans

A scan that gives a snapshot has looked at all regions, however it was watched.  The key facts: an item is skipped,
breaks the pass off or is worked on (`runPass_cons_cases`), so a pass that goes through and skips nothing has the
results of the work for all items (`results_runPass`); hence the snapshot of a scan is what was collected from all
regions (`scan_cases`).
-/

namespace Memsift

variable {σ α β : Type} {watch : Watch σ} {interval total : Nat} {work : α → β}

/-- What becomes of the first item of a pass; in two cases the pass goes on with the other items. -/
theorem runPass_cons_cases (item : α) (items : List α) (done : Nat) (scene : Scene σ) :
    let log := runPass watch interval total work (item :: items) done scene
    (log.results = [some (work item)] ∧ log.wentThrough = false) ∨
    ∃ done' scene', let rest := runPass watch interval total work items done' scene'
      log.wentThrough = rest.wentThrough ∧
        (log.results = none :: rest.results ∨ log.results = some (work item) :: rest.results) := by
  intro log
  unfold log
  rw [runPass]
  rcases watch.cancelled scene.state with ⟨cancelled, state⟩
  cases cancelled with
  | true => exact .inr ⟨done, { scene with state }, rfl, .inl rfl⟩
  | false =>
    simp only
    split
    · -- a report is due
      cases watch.report (percent (done + 1) total) { scene with state } with
      | error scene' => exact .inl ⟨rfl, rfl⟩
      | ok scene' => exact .inr ⟨done + 1, scene', rfl, .inr rfl⟩
    · exact .inr ⟨done + 1, { scene with state }, rfl, .inr rfl⟩

theorem results_runPass {items : List α} {done : Nat} {scene : Scene σ}
    (hthrough : (runPass watch interval total work items done scene).wentThrough = true)
    (hskipped : (runPass watch interval total work items done scene).anySkipped = false) :
    (runPass watch interval total work items done scene).results = items.map fun item => some (work item) := by
  induction items generalizing done scene with
  | nil => rfl
  | cons item items ih =>
    unfold PassLog.anySkipped at hskipped ih
    obtain ⟨_, hbroken⟩ | ⟨done', scene', hrest, hresults | hresults⟩ :=
      @runPass_cons_cases σ α β watch interval total work item items done scene
    · rw [hbroken] at hthrough
      cases hthrough
    · rw [hresults] at hskipped
      cases hskipped
    · rw [hrest] at hthrough
      rw [hresults] at hskipped ⊢
      rw [ih hthrough hskipped, List.map_cons]

namespace Snapshot

variable {s : Snapshot} {settings : ScanSettings} {c : Constraint} {type : DataType} {task : String}
  {scene : Scene σ}

theorem scanWith_cases (p : Predicate) :
    let found := s.scanAll p (settings.alignment.resolve p.test.size)
    let outcome := (s.scanWith settings watch p task scene).1
    (outcome.state ≠ .completed ∧ outcome.snapshot = none) ∨
      outcome = ⟨task, .completed, some found.1, found.2⟩ := by
  simp only [scanWith]
  split
  · exact .inl ⟨by simp, rfl⟩
  · rename_i hthrough
    split
    · exact .inl ⟨by simp, rfl⟩
    · rename_i hskipped
      rw [Bool.not_eq_true', Bool.not_eq_false] at hthrough
      rw [Bool.not_eq_true] at hskipped
      -- every item has a result, so nothing is dropped from the log
      rw [results_runPass hthrough hskipped, List.filterMap_map, Function.id_comp, List.filterMap_eq_map']
      exact .inr rfl

/-- How a scan ends: it gives no snapshot, or it is completed and the snapshot is what was found in all regions. -/
theorem scan_cases {outcome : ScanOutcome} (h : (s.scan settings watch c type task scene).1 = .ok outcome) :
    (outcome.state ≠ .completed ∧ outcome.snapshot = none) ∨
    ∃ p, Predicate.compile c type = .ok p ∧
      let found := s.scanAll p (settings.alignment.resolve p.test.size)
      outcome = ⟨task, .completed, some found.1, found.2⟩ := by
  unfold scan at h
  split at h
  · cases h
  · split at h
    · cases h
    · rename_i p hp
      split at h
      · obtain rfl := Except.ok.inj h
        exact .inl ⟨by simp, rfl⟩
      · obtain rfl := Except.ok.inj h
        exact (scanWith_cases p).imp id fun houtcome => ⟨p, hp, houtcome⟩

end Snapshot
end Memsift
