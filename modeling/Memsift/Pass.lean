import Memsift.Binary.Format
import Memsift.Word
import Memsift.Task

/-!
# Passes

A pass does a piece of work for each item of a list.  Before each item it looks at a cancellation token, and once it
is set the item is skipped; after some items it reports how far it has come, and a report may break the pass off.
-/

namespace Memsift

/-- The surroundings of a pass: the registry of tasks, and whatever else reports and tokens depend on. -/
structure Scene (σ : Type) where
  registry : TaskRegistry
  state : σ

/-- The percentage of a report. -/
abbrev Percent := Word (.float .single)

/-- How a pass is watched. -/
structure Watch (σ : Type) where
  /-- Looks at the cancellation token. -/
  cancelled : σ → Bool × σ
  /-- Takes a report; an error breaks the pass off. -/
  report : Percent → Scene σ → Except (Scene σ) (Scene σ)

/-- A token that is never set and reports that nobody reads. -/
def Watch.unattended : Watch Unit where
  cancelled _ := (false, ())
  report _ scene := .ok scene

/-- How many of a hundred parts are done, in steps that are each rounded to single precision. -/
def percent (done total : Nat) : Percent :=
  let single (n : Nat) := Binary.binary32.round (.ofInt n)
  Word.ofValue .single ((Binary.binary32.round ((single done).mul (single 100))).div (single total))

/-- The outcome for each item that was reached, absent for those that were skipped; and whether the pass went through
to the end. -/
structure PassLog (σ β : Type) where
  results : List (Option β)
  wentThrough : Bool
  scene : Scene σ

/-- Works through the items, of which `done` out of `total` are done already. -/
def runPass {σ α β : Type} (watch : Watch σ) (interval total : Nat) (work : α → β) :
    List α → Nat → Scene σ → PassLog σ β
  | [], _, scene => ⟨[], true, scene⟩
  | item :: items, done, scene =>
    match watch.cancelled scene.state with
    | (true, state) =>
      let log := runPass watch interval total work items done { scene with state }
      { log with results := none :: log.results }
    | (false, state) =>
      let scene := { scene with state }
      let result := some (work item)
      let done := done + 1
      if done % interval = 0 ∨ done = total then
        match watch.report (percent done total) scene with
        | .error scene => ⟨[result], false, scene⟩
        | .ok scene =>
          let log := runPass watch interval total work items done scene
          { log with results := result :: log.results }
      else
        let log := runPass watch interval total work items done scene
        { log with results := result :: log.results }

/-- Whether an item was skipped. -/
def PassLog.anySkipped {σ β : Type} (log : PassLog σ β) : Bool := log.results.any (·.isNone)

end Memsift
