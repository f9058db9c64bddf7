import Memsift.Error

/-!
# Tasks

Tasks are known by their names.  A name belongs to one running task at most, and the final states of the tasks that
finished last are remembered.
-/

namespace Memsift

inductive TaskState where
  | idle | running | completed | canceled | failed
deriving DecidableEq, Repr

namespace TaskState

def name : TaskState → String
  | idle => "idle"
  | running => "running"
  | completed => "completed"
  | canceled => "canceled"
  | failed => "failed"

def all : List TaskState := [idle, running, completed, canceled, failed]

def ofName? (name : String) : Option TaskState := all.find? (·.name == name)

/-- The name in messages. -/
def title : TaskState → String
  | idle => "Idle"
  | running => "Running"
  | completed => "Completed"
  | canceled => "Canceled"
  | failed => "Failed"

def isTerminal : TaskState → Bool
  | completed | canceled | failed => true
  | _ => false

end TaskState

/-- The states of the tasks that run or are remembered, and the names of those that finished, the oldest first. -/
structure TaskRegistry where
  /-- How many finished tasks are remembered. -/
  history : Nat
  states : List (String × TaskState) := []
  finished : List String := []
deriving DecidableEq, Repr

namespace TaskRegistry

/-- How many finished tasks are remembered unless something else is asked for. -/
def defaultHistory : Nat := 1024

/-- The state of a task, idle if it is unknown or forgotten. -/
def state (r : TaskRegistry) (task : String) : TaskState := (r.states.lookup task).getD .idle

/-- Records a state under a name in place of an earlier one. -/
def assign (states : List (String × TaskState)) (task : String) (state : TaskState) : List (String × TaskState) :=
  match states with
  | [] => [(task, state)]
  | (t, s) :: rest => if t = task then (task, state) :: rest else (t, s) :: assign rest task state

/-- Forgets a name. -/
def forget (states : List (String × TaskState)) (task : String) : List (String × TaskState) :=
  states.filter (·.1 != task)

/-- The number of tasks that run or are remembered. -/
def size (r : TaskRegistry) : Nat := r.states.length

/-- Marks a task as running, unless it is already; it is no longer a finished one.  The registry that is left goes with
the answer. -/
def enlist (r : TaskRegistry) (task : String) : Except Error Unit × TaskRegistry :=
  if r.state task = .running then (.error (.taskConflict task), r)
  else (.ok (), { r with
    states := assign r.states task .running
    finished := r.finished.filter (· != task) })

/-- The registry in which a task has begun to run. -/
def begin (r : TaskRegistry) (task : String) : Except Error TaskRegistry :=
  (r.enlist task).1.map fun _ => (r.enlist task).2

theorem begin_of_running {r : TaskRegistry} {task : String} (h : r.state task = .running) :
    r.begin task = .error (.taskConflict task) := by
  rw [begin, enlist, if_pos h]
  rfl

theorem begin_of_not_running {r : TaskRegistry} {task : String} (h : r.state task ≠ .running) :
    r.begin task = .ok { r with
      states := assign r.states task .running
      finished := r.finished.filter (· != task) } := by
  rw [begin, enlist, if_neg h]
  rfl

theorem exists_begin {r : TaskRegistry} {task : String} (h : r.state task ≠ .running) :
    ∃ registry, r.begin task = .ok registry := ⟨_, begin_of_not_running h⟩

/-- Records the final state of a task and forgets the oldest finished tasks beyond the history. -/
def finish (r : TaskRegistry) (task : String) (state : TaskState) : TaskRegistry :=
  let queue := r.finished ++ [task]
  let surplus := queue.length - r.history
  { r with
    states := (queue.take surplus).foldl forget (assign r.states task state)
    finished := queue.drop surplus }

/-- Records a task that ended without saying how. -/
def drop (r : TaskRegistry) (task : String) : TaskRegistry := r.finish task .failed

end TaskRegistry
end Memsift
