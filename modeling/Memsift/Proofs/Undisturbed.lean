import Memsift.Scan

/-!
# Undisturbed scans

A pass that nothing disturbs gives a result for every item.  A watch is calm on some states of the surroundings if,
from these on, the token is never set and every report is taken; what the reports do otherwise is up to them.  The key
facts: a calm pass goes through and its results are those of the work (`runPass_of_calm`), so a calm scan completes
with what was collected from all regions (`scan_of_calm`), which is the same for all calm scans (`ScansTo`).
-/

namespace Memsift

variable {σ α β : Type}

/-- From the states in `calm` on, the token is never set and no report breaks the pass off. -/
structure Watch.Calm (watch : Watch σ) (calm : σ → Prop) : Prop where
  cancelled : ∀ state, calm state → ∃ state', watch.cancelled state = (false, state') ∧ calm state'
  report : ∀ percent scene, calm scene.state → ∃ scene', watch.report percent scene = .ok scene' ∧ calm scene'.state

theorem Watch.calm_unattended : Watch.unattended.Calm fun _ => True :=
  ⟨fun _ _ => ⟨(), rfl, trivial⟩, fun _ scene _ => ⟨scene, rfl, trivial⟩⟩

variable {watch : Watch σ} {calm : σ → Prop}

theorem runPass_of_calm (hwatch : watch.Calm calm) (interval total : Nat) (work : α → β) (items : List α) (done : Nat)
    {scene : Scene σ} (hscene : calm scene.state) :
    (runPass watch interval total work items done scene).results = items.map (fun item => some (work item)) ∧
      (runPass watch interval total work items done scene).wentThrough = true := by
  induction items generalizing done scene with
  | nil => exact ⟨rfl, rfl⟩
  | cons item items ih =>
    obtain ⟨state, hcancelled, hstate⟩ := hwatch.cancelled scene.state hscene
    have hlooked : calm ({ scene with state } : Scene σ).state := hstate
    obtain ⟨scene', hreport, hscene'⟩ := hwatch.report (percent (done + 1) total) _ hlooked
    rw [runPass, hcancelled]
    simp only [hreport]
    -- a report may be due or not
    split
    · obtain ⟨hresults, hthrough⟩ := ih (done + 1) hscene'
      exact ⟨congrArg _ hresults, hthrough⟩
    · obtain ⟨hresults, hthrough⟩ := ih (done + 1) hlooked
      exact ⟨congrArg _ hresults, hthrough⟩

namespace Snapshot

/-- What is found in the regions of a snapshot when all of them are scanned. -/
def scanAll (s : Snapshot) (p : Predicate) (alignment : Nat) : Snapshot × Nat :=
  let aligned := s.aligned alignment p.test.size
  aligned.collectMatches ((aligned.bySize.map (·.1)).map fun r => aligned.scanRegion r p.test alignment)

theorem scanWith_of_calm (s : Snapshot) (settings : ScanSettings) (hwatch : watch.Calm calm) (p : Predicate)
    (task : String) {scene : Scene σ} (hscene : calm scene.state) :
    (s.scanWith settings watch p task scene).1 =
      ⟨task, .completed, some (s.scanAll p (settings.alignment.resolve p.test.size)).1,
        (s.scanAll p (settings.alignment.resolve p.test.size)).2⟩ := by
  have hpass := fun interval total (work : Region → Except Error (List Region)) items =>
    runPass_of_calm hwatch interval total work items 0 hscene
  have hresults := fun interval total work items => (hpass interval total work items).1
  have hthrough := fun interval total work items => (hpass interval total work items).2
  simp only [scanWith, scanAll, PassLog.anySkipped, hresults, hthrough, List.filterMap_map]
  simp [Function.comp_def]

theorem scan_of_calm (s : Snapshot) (settings : ScanSettings) (hwatch : watch.Calm calm) {c : Constraint}
    {type : DataType} {p : Predicate} (hp : Predicate.compile c type = .ok p) {task : String} {scene : Scene σ}
    (hscene : calm scene.state) (htask : scene.registry.state task ≠ .running) :
    (s.scan settings watch c type task scene).1 =
      .ok ⟨task, .completed, some (s.scanAll p (settings.alignment.resolve p.test.size)).1,
        (s.scanAll p (settings.alignment.resolve p.test.size)).2⟩ := by
  obtain ⟨state, hcancelled, hstate⟩ := hwatch.cancelled scene.state hscene
  obtain ⟨registry, hregistry⟩ := TaskRegistry.exists_begin htask
  have hbegun : calm ({ registry, state } : Scene σ).state := hstate
  simp only [scan, hregistry, hp, hcancelled, scanWith_of_calm s settings hwatch p task hbegun]

/-- Whatever the task and the watch, an undisturbed scan completes with the result, and no region fails. -/
def ScansTo (s : Snapshot) (settings : ScanSettings) (c : Constraint) (type : DataType) (result : Snapshot) : Prop :=
  ∀ {σ : Type} (watch : Watch σ) (calm : σ → Prop) (task : String) (scene : Scene σ), watch.Calm calm →
    calm scene.state → scene.registry.state task ≠ .running →
      (s.scan settings watch c type task scene).1 = .ok ⟨task, .completed, some result, 0⟩

theorem scansTo_of_scanAll_eq {s result : Snapshot} {settings : ScanSettings} {c : Constraint} {type : DataType}
    {p : Predicate} (hp : Predicate.compile c type = .ok p)
    (h : s.scanAll p (settings.alignment.resolve p.test.size) = (result, 0)) : s.ScansTo settings c type result := by
  intro σ watch calm task scene hwatch hscene htask
  rw [scan_of_calm s settings hwatch hp hscene htask, h]

theorem ScansTo.unique {s result result' : Snapshot} {settings : ScanSettings} {c : Constraint} {type : DataType}
    (h : s.ScansTo settings c type result) (h' : s.ScansTo settings c type result') : result = result' := by
  let scene : Scene Unit := ⟨{ history := 0 }, ()⟩
  have hidle : scene.registry.state "" ≠ .running := by decide
  have hscan := h Watch.unattended _ "" scene Watch.calm_unattended trivial hidle
  have hscan' := h' Watch.unattended _ "" scene Watch.calm_unattended trivial hidle
  simpa using hscan.symm.trans hscan'

end Snapshot
end Memsift
