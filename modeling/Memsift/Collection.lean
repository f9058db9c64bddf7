import Memsift.Pass
import Memsift.Settings
import Memsift.Snapshot

/-!
# Collections

A collection reads the memory of all read groups of a snapshot anew.  A group that could not be read keeps its
values, and the regions over it are removed.
-/

namespace Memsift

structure CollectOutcome where
  task : String
  state : TaskState
  failedGroups : Nat

namespace Snapshot

/-- Reads a group; there is nothing to read for an empty one. -/
def readGroup (g : ReadGroup) (reader : Reader) : ReadGroup.Answer :=
  if g.isEmpty then (.ok (), g) else g.reread reader

/-- The groups after a pass, as the attempts to read them left them; those that were skipped or not reached stay. -/
def replaceGroups (groups : List ReadGroup) (results : List (Option ReadGroup.Answer)) : List ReadGroup :=
  match groups, results with
  | g :: gs, result :: rs => ((result.map (·.2)).getD g) :: replaceGroups gs rs
  | gs, _ => gs

/-- The numbers of the groups that could not be read. -/
def failures (results : List (Option ReadGroup.Answer)) : List Nat :=
  results.zipIdx.filterMap fun (result, i) =>
    match result with
    | some (.error _, _) => some i
    | _ => none

/-- Collects under the name of a task; `readers` gives the memory as it is when each group is read. -/
def collectFrom {σ : Type} (s : Snapshot) (settings : ScanSettings) (watch : Watch σ) (readers : Nat → Reader)
    (task : String) (scene : Scene σ) : Except Error CollectOutcome × Snapshot × Scene σ :=
  match scene.registry.begin task with
  | .error e => (.error e, s, scene)
  | .ok registry =>
    let items := s.groups.toList.zipIdx
    let log := runPass watch (max settings.progressInterval 1) items.length
      (fun (g, i) => readGroup g (readers i)) items 0 { scene with registry }
    let s := { s with groups := (replaceGroups s.groups.toList log.results).toArray }
    let failed := failures log.results
    let (outcome, s) : CollectOutcome × Snapshot :=
      if !log.wentThrough then (⟨task, .failed, 0⟩, s)
      else
        (⟨task, if log.anySkipped then .canceled else .completed, failed.length⟩,
          s.retain fun r => !failed.contains r.readGroup)
    (.ok outcome, s, { log.scene with registry := log.scene.registry.finish task outcome.state })

/-- Collects from memory that does not change meanwhile. -/
def collect {σ : Type} (s : Snapshot) (settings : ScanSettings) (watch : Watch σ) (reader : Reader) (task : String)
    (scene : Scene σ) : Except Error CollectOutcome × Snapshot × Scene σ :=
  s.collectFrom settings watch (fun _ => reader) task scene

end Snapshot
end Memsift
