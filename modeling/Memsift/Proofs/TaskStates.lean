import Memsift.Task
import Mathlib.Data.List.Basic
import Mathlib.Data.List.Nodup

/-!
# States of tasks

What the operations of a registry do to the state of each task and to the names that are known.  The key facts:
beginning a task changes no other state (`state_of_begin_eq_ok`); ending it changes its own state and forgets the
oldest of the queue beyond the history (`state_finish`), and the names change in the same way (`mem_names_finish`).
-/

namespace Memsift
namespace TaskRegistry

variable {r r' : TaskRegistry} {task : String}

section States

variable (states : List (String × TaskState))

private theorem lookup_cons (t : String) (s : TaskState) (task : String) :
    List.lookup task ((t, s) :: states) = if task = t then some s else states.lookup task := by
  rw [List.lookup_cons]
  by_cases h : task = t
  · simp [h]
  · rw [if_neg h, beq_false_of_ne h]

theorem lookup_assign (task : String) (state : TaskState) (other : String) :
    (assign states task state).lookup other = if other = task then some state else states.lookup other := by
  induction states with
  | nil => rw [assign, lookup_cons]
  | cons x states ih =>
    obtain ⟨t, s⟩ := x
    rw [assign]
    by_cases ht : t = task
    · rw [if_pos ht, lookup_cons, lookup_cons, ht]
      by_cases hother : other = task <;> simp [hother]
    · rw [if_neg ht, lookup_cons, lookup_cons, ih]
      by_cases hother : other = t
      · simp [hother, ht]
      · simp [hother]

theorem lookup_forget (task other : String) :
    (forget states task).lookup other = if other = task then none else states.lookup other := by
  induction states with
  | nil => simp [forget]
  | cons x states ih =>
    obtain ⟨t, s⟩ := x
    unfold forget at ih ⊢
    rw [List.filter_cons, lookup_cons]
    by_cases ht : t = task
    · rw [if_neg (by simp [ht]), ih]
      by_cases hother : other = task <;> simp [hother, ht]
    · rw [if_pos (by simp [ht]), lookup_cons, ih]
      by_cases hother : other = t
      · simp [hother, ht]
      · simp [hother]

theorem lookup_foldl_forget (tasks : List String) (other : String) :
    (tasks.foldl forget states).lookup other = if other ∈ tasks then none else states.lookup other := by
  induction tasks generalizing states with
  | nil => simp
  | cons task tasks ih =>
    rw [List.foldl_cons, ih, lookup_forget]
    by_cases hother : other = task <;> simp [hother]

theorem map_fst_assign (task : String) (state : TaskState) :
    (assign states task state).map (·.1) =
      if task ∈ states.map (·.1) then states.map (·.1) else states.map (·.1) ++ [task] := by
  induction states with
  | nil => simp [assign]
  | cons x states ih =>
    obtain ⟨t, s⟩ := x
    rw [assign]
    by_cases ht : t = task
    · simp [ht]
    · rw [if_neg ht, List.map_cons, ih, List.map_cons]
      by_cases hmem : task ∈ states.map (·.1)
      · rw [if_pos hmem, if_pos (List.mem_cons_of_mem _ hmem)]
      · have hne : task ∉ t :: states.map (·.1) := by
          rw [List.mem_cons, not_or]
          exact ⟨fun h => ht h.symm, hmem⟩
        rw [if_neg hmem, if_neg hne, List.cons_append]

theorem map_fst_foldl_forget (tasks : List String) :
    (tasks.foldl forget states).map (·.1) = (states.map (·.1)).filter (· ∉ tasks) := by
  induction tasks generalizing states with
  | nil => simp
  | cons task tasks ih =>
    rw [List.foldl_cons, ih, forget, List.filter_map, List.filter_map, List.filter_filter]
    congr 1
    apply List.filter_congr
    intro x _
    by_cases hx : x.1 = task <;> simp [hx]

end States

/-- The names of the tasks that run or are remembered. -/
def names (r : TaskRegistry) : List String := r.states.map (·.1)

theorem length_names (r : TaskRegistry) : r.names.length = r.size := List.length_map ..

theorem state_of_not_mem_names (h : task ∉ r.names) : r.state task = .idle := by
  have hlookup : r.states.lookup task = none := by
    rw [List.lookup_eq_none_iff]
    intro x hx
    have hne : task ≠ x.1 := fun heq => h (heq ▸ List.mem_map_of_mem hx)
    simp [hne]
  rw [state, hlookup]
  rfl

/-- A task that is running is refused, and the registry is as it was. -/
theorem enlist_of_running (h : r.state task = .running) : r.enlist task = (.error (.taskConflict task), r) := if_pos h

theorem begin_eq_ok_iff :
    r.begin task = .ok r' ↔ r.state task ≠ .running ∧
      r' = { r with states := assign r.states task .running, finished := r.finished.filter (· != task) } := by
  by_cases h : r.state task = .running
  · simp [begin_of_running h, h]
  · simp [begin_of_not_running h, h, eq_comm]

theorem begin_eq_error_iff : r.begin task = .error (.taskConflict task) ↔ r.state task = .running := by
  by_cases h : r.state task = .running
  · simp [begin_of_running h, h]
  · simp [begin_of_not_running h, h]

theorem enlist_of_begin_eq_ok (h : r.begin task = .ok r') : r.enlist task = (.ok (), r') := by
  obtain ⟨hidle, rfl⟩ := begin_eq_ok_iff.1 h
  exact if_neg hidle

theorem state_of_begin_eq_ok (h : r.begin task = .ok r') (other : String) :
    r'.state other = if other = task then .running else r.state other := by
  obtain ⟨_, rfl⟩ := begin_eq_ok_iff.1 h
  rw [state, lookup_assign]
  by_cases hother : other = task
  · simp [hother]
  · rw [if_neg hother, if_neg hother]
    rfl

theorem names_of_begin_eq_ok (h : r.begin task = .ok r') :
    r'.names = if task ∈ r.names then r.names else r.names ++ [task] := by
  obtain ⟨_, rfl⟩ := begin_eq_ok_iff.1 h
  exact map_fst_assign ..

/-- The names that are forgotten when a task ends, as they are the oldest ones in too long a queue. -/
def evicted (r : TaskRegistry) (task : String) : List String :=
  (r.finished ++ [task]).take (r.finished.length + 1 - r.history)

theorem finished_finish (r : TaskRegistry) (task : String) (s : TaskState) :
    (r.finish task s).finished = (r.finished ++ [task]).drop (r.finished.length + 1 - r.history) := by
  simp [finish]

theorem evicted_append_finished (r : TaskRegistry) (task : String) (s : TaskState) :
    r.evicted task ++ (r.finish task s).finished = r.finished ++ [task] := by
  rw [finished_finish, evicted, List.take_append_drop]

theorem length_finished_finish_le (r : TaskRegistry) (task : String) (s : TaskState) :
    (r.finish task s).finished.length ≤ r.history := by
  rw [finished_finish, List.length_drop, List.length_append, List.length_singleton]
  omega

theorem state_finish (r : TaskRegistry) (task : String) (s : TaskState) (other : String) :
    (r.finish task s).state other =
      if other ∈ r.evicted task then .idle else if other = task then s else r.state other := by
  have hlookup : (r.finish task s).states.lookup other =
      if other ∈ r.evicted task then none else if other = task then some s else r.states.lookup other := by
    rw [evicted, ← lookup_assign, ← lookup_foldl_forget]
    simp [finish]
  rw [state, hlookup]
  by_cases hevicted : other ∈ r.evicted task
  · simp [hevicted]
  · rw [if_neg hevicted, if_neg hevicted]
    by_cases hother : other = task <;> simp [hother, state]

/-- The task that ends is not forgotten at once, unless nothing is remembered at all. -/
theorem not_mem_evicted_self (htask : task ∉ r.finished) (hhistory : 0 < r.history) : task ∉ r.evicted task := by
  rw [evicted, List.take_append_of_le_length (by omega)]
  exact fun hmem => htask (List.mem_of_mem_take hmem)

theorem state_finish_self (htask : task ∉ r.finished) (hhistory : 0 < r.history) (s : TaskState) :
    (r.finish task s).state task = s := by
  rw [state_finish, if_neg (not_mem_evicted_self htask hhistory), if_pos rfl]

theorem state_finish_self_eq (htask : task ∉ r.finished) (s : TaskState) :
    (r.finish task s).state task = if r.history = 0 then .idle else s := by
  split
  · rename_i hnone
    have hevicted : task ∈ r.evicted task := by
      rw [evicted, hnone, List.take_of_length_le (by simp)]
      exact List.mem_append_right _ (List.mem_singleton_self task)
    rw [state_finish, if_pos hevicted]
  · rename_i hsome
    exact state_finish_self htask (Nat.pos_of_ne_zero hsome) s

theorem mem_evicted_iff_of_ne {other : String} (h : other ≠ task) :
    other ∈ r.evicted task ↔ other ∈ r.finished.take (r.finished.length + 1 - r.history) := by
  have hself : ∀ count, other ∉ [task].take count := fun count hmem =>
    h (List.mem_singleton.1 (List.mem_of_mem_take hmem))
  rw [evicted, List.take_append, List.mem_append]
  exact or_iff_left (hself _)

theorem names_finish (h : task ∈ r.names) (s : TaskState) :
    (r.finish task s).names = r.names.filter (· ∉ r.evicted task) := by
  have hassign : (assign r.states task s).map (·.1) = r.names := by
    rw [map_fst_assign]
    exact if_pos h
  rw [← hassign, evicted, ← map_fst_foldl_forget]
  simp [finish, names]

end TaskRegistry
end Memsift
