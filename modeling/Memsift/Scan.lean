import Memsift.Pass
import Memsift.Settings
import Memsift.Snapshot
import Memsift.Scan.Chunked

/-!
# Scans

A scan narrows a snapshot to the elements that satisfy a constraint.  Its regions are aligned and scanned one by one,
the largest first; a region that cannot be scanned is counted and left out.  A scan runs under the name of a task,
which is given back however the scan ends.
-/

namespace Memsift

/-- How a scan ended; there is a snapshot only if it was completed. -/
structure ScanOutcome where
  task : String
  state : TaskState
  snapshot : Option Snapshot
  failedRegions : Nat

namespace Snapshot

/-- The regions of the elements of a region that pass a test: one element at a time if the region is shorter than a
chunk, else by chunks. -/
def scanRegion (s : Snapshot) (r : Region) (test : ElementTest) (alignment : Nat) : Except Error (List Region) := do
  let view ← s.view r
  if view.elementCount alignment test.size = 0 then return []
  else if view.length < chunkSize then return view.scanElements test alignment
  else
    match view.scanChunks test alignment with
    | .ok regions => return regions
    | .error e => throw (.regionFailure view.baseAddress.upper e.message)

/-- The outcome of a pass over the regions of `aligned`. -/
def collectMatches (aligned : Snapshot) (results : List (Except Error (List Region))) : Snapshot × Nat :=
  let found := results.flatMap fun result => (result.toOption).getD []
  ((aligned.withRegions aligned.name found).sort, results.countP fun result => result.toOption.isNone)

/-- Scans with a prepared predicate. -/
def scanWith {σ : Type} (s : Snapshot) (settings : ScanSettings) (watch : Watch σ) (p : Predicate) (task : String)
    (scene : Scene σ) : ScanOutcome × Scene σ :=
  let alignment := settings.alignment.resolve p.test.size
  let aligned := s.aligned alignment p.test.size
  let order := aligned.bySize.map (·.1)
  let log := runPass watch (max settings.progressInterval 1) order.length
    (fun r => aligned.scanRegion r p.test alignment) order 0 scene
  let (result, failed) := aligned.collectMatches (log.results.filterMap id)
  if !log.wentThrough then (⟨task, .failed, none, 0⟩, log.scene)
  else if log.anySkipped then (⟨task, .canceled, none, failed⟩, log.scene)
  else (⟨task, .completed, some result, failed⟩, log.scene)

/-- Scans under the name of a task.  A task of that name that is running comes before the defects of the constraint,
and these come before a token that is set. -/
def scan {σ : Type} (s : Snapshot) (settings : ScanSettings) (watch : Watch σ) (c : Constraint) (type : DataType)
    (task : String) (scene : Scene σ) : Except Error ScanOutcome × Scene σ :=
  match scene.registry.begin task with
  | .error e => (.error e, scene)
  | .ok registry =>
    match Predicate.compile c type with
    | .error e => (.error e, { scene with registry := registry.finish task .failed })
    | .ok p =>
      match watch.cancelled scene.state with
      | (true, state) => (.ok ⟨task, .canceled, none, 0⟩, ⟨registry.finish task .canceled, state⟩)
      | (false, state) =>
        let (outcome, scene) := s.scanWith settings watch p task ⟨registry, state⟩
        (.ok outcome, { scene with registry := scene.registry.finish task outcome.state })

end Snapshot
end Memsift
