import Memsift.Proofs.TaskStates
import Mathlib.Data.Finset.Card
import Mathlib.Data.List.Perm.Basic

/-!
# Tasks and their guards

Whoever begins a task holds a guard for it, until the guard is given up with a final state or dropped.  A table is a
registry with the guards that are held; guards are given and taken in any order.  The key facts: what an event can do
(`next_cases`) keeps a table consistent (`Consistent.next`), so the registry knows at every moment which guards are
held (`Consistent.state_eq_running_iff`).
-/

namespace Memsift

/-- A task is begun, or a guard is given up with a final state or dropped. -/
inductive TaskEvent where
  | begin (task : String)
  | complete (task : String) (state : TaskState)
  | drop (task : String)
deriving DecidableEq

/-- The task that an event ends, and its final state. -/
def TaskEvent.ended? : TaskEvent → Option (String × TaskState)
  | begin _ => none
  | complete task state => some (task, state)
  | drop task => some (task, .failed)

def TaskEvent.Ends (event : TaskEvent) (task : String) : Prop := event.ended?.map (·.1) = some task

instance (event : TaskEvent) (task : String) : Decidable (event.Ends task) :=
  inferInstanceAs (Decidable (event.ended?.map (·.1) = some task))

theorem TaskEvent.ends_of_ended?_eq {event : TaskEvent} {task : String} {state : TaskState}
    (h : event.ended? = some (task, state)) : event.Ends task := by
  rw [Ends, h]
  rfl

/-- A registry and the tasks for which guards are held. -/
structure TaskTable where
  registry : TaskRegistry
  guards : List String := []

namespace TaskTable

/-- A registry that remembers so many tasks and knows none. -/
def start (history : Nat) : TaskTable := { registry := { history } }

/-- The table after an event; only a guard that is held can be given up. -/
def next (t : TaskTable) : TaskEvent → Option TaskTable
  | .begin task =>
    match t.registry.enlist task with
    | (.ok (), registry) => some ⟨registry, task :: t.guards⟩
    | (.error _, registry) => some ⟨registry, t.guards⟩
  | .complete task state =>
    if task ∈ t.guards ∧ state.isTerminal then some ⟨t.registry.finish task state, t.guards.erase task⟩ else none
  | .drop task => if task ∈ t.guards then some ⟨t.registry.drop task, t.guards.erase task⟩ else none

def run (t : TaskTable) (events : List TaskEvent) : Option TaskTable := events.foldlM next t

variable {t t' t₀ : TaskTable} {event : TaskEvent} {events : List TaskEvent} {task other : String}

theorem run_append (t : TaskTable) (events events' : List TaskEvent) :
    t.run (events ++ events') = (t.run events).bind fun t' => t'.run events' :=
  List.foldlM_append ..

theorem run_concat_eq_some_iff :
    t.run (events ++ [event]) = some t' ↔ ∃ t₁, t.run events = some t₁ ∧ t₁.next event = some t' := by
  rw [run_append, Option.bind_eq_some_iff]
  simp [run]

/-- What an event can do: a running task is not begun again; another one is begun, and there is a guard for it; or a
task for which a guard is held ends, and the guard is gone. -/
theorem next_cases (h : t.next event = some t') :
    (∃ task, event = .begin task ∧ t.registry.state task = .running ∧ t' = t) ∨
    (∃ task registry, event = .begin task ∧ t.registry.begin task = .ok registry ∧
      t' = ⟨registry, task :: t.guards⟩) ∨
    ∃ task state, event.ended? = some (task, state) ∧ task ∈ t.guards ∧ state.isTerminal = true ∧
      t' = ⟨t.registry.finish task state, t.guards.erase task⟩ := by
  cases event with
  | begin task =>
    by_cases hrunning : t.registry.state task = .running
    · simp only [next, TaskRegistry.enlist_of_running hrunning] at h
      exact .inl ⟨task, rfl, hrunning, (Option.some.inj h).symm⟩
    · have hbegin := TaskRegistry.begin_eq_ok_iff.2 ⟨hrunning, rfl⟩
      simp only [next, TaskRegistry.enlist_of_begin_eq_ok hbegin] at h
      exact .inr (.inl ⟨task, _, rfl, hbegin, (Option.some.inj h).symm⟩)
  | complete task state =>
    simp only [next] at h
    split at h
    · rename_i hheld
      exact .inr (.inr ⟨task, state, rfl, hheld.1, hheld.2, (Option.some.inj h).symm⟩)
    · cases h
  | drop task =>
    simp only [next] at h
    split at h
    · rename_i hheld
      exact .inr (.inr ⟨task, .failed, rfl, hheld, rfl, (Option.some.inj h).symm⟩)
    · cases h

theorem history_next (h : t.next event = some t') : t'.registry.history = t.registry.history := by
  obtain ⟨_, _, _, rfl⟩ | ⟨task, registry, _, hbegin, rfl⟩ | ⟨task, state, _, _, _, rfl⟩ := next_cases h
  · rfl
  · obtain ⟨_, rfl⟩ := TaskRegistry.begin_eq_ok_iff.1 hbegin
    rfl
  · rfl

theorem history_run (h : t.run events = some t') : t'.registry.history = t.registry.history := by
  induction events using List.reverseRecOn generalizing t' with
  | nil =>
    obtain rfl := Option.some.inj h
    rfl
  | append_singleton events event ih =>
    obtain ⟨t₁, hrun, hnext⟩ := run_concat_eq_some_iff.1 h
    rw [history_next hnext, ih hrun]

/-- A guard is held until an event ends its task. -/
theorem mem_guards_next (h : t.next event = some t') (hevent : ¬ event.Ends task) (htask : task ∈ t.guards) :
    task ∈ t'.guards := by
  obtain ⟨_, _, _, rfl⟩ | ⟨other, registry, _, _, rfl⟩ | ⟨other, state, hended, _, _, rfl⟩ := next_cases h
  · exact htask
  · exact List.mem_cons_of_mem _ htask
  · have hne : task ≠ other := by
      rintro rfl
      exact hevent (TaskEvent.ends_of_ended?_eq hended)
    exact (List.mem_erase_of_ne hne).2 htask

/-- The registry knows the tasks for which guards are held as running and those in its queue as finished, and no
others; the queue is not too long. -/
structure Consistent (t : TaskTable) : Prop where
  nodup_names : t.registry.names.Nodup
  nodup_guards : t.guards.Nodup
  nodup_finished : t.registry.finished.Nodup
  mem_names : ∀ task, task ∈ t.registry.names ↔ task ∈ t.guards ∨ task ∈ t.registry.finished
  not_mem_guards : ∀ task ∈ t.registry.finished, task ∉ t.guards
  state_of_mem_guards : ∀ task ∈ t.guards, t.registry.state task = .running
  state_of_mem_finished : ∀ task ∈ t.registry.finished, t.registry.state task ≠ .running
  length_finished_le : t.registry.finished.length ≤ t.registry.history

namespace Consistent

theorem start (history : Nat) : (start history).Consistent := by
  constructor <;> simp [TaskTable.start, TaskRegistry.names]

theorem state_eq_running_iff (ht : t.Consistent) (task : String) :
    t.registry.state task = .running ↔ task ∈ t.guards := by
  constructor
  · intro hrunning
    by_contra hguard
    by_cases hname : task ∈ t.registry.names
    · obtain hheld | hfinished := (ht.mem_names task).1 hname
      · exact hguard hheld
      · exact ht.state_of_mem_finished task hfinished hrunning
    · rw [TaskRegistry.state_of_not_mem_names hname] at hrunning
      cases hrunning
  · exact ht.state_of_mem_guards task

theorem size_eq (ht : t.Consistent) : t.registry.size = t.guards.length + t.registry.finished.length := by
  have hnodup : (t.guards ++ t.registry.finished).Nodup :=
    List.Nodup.append ht.nodup_guards ht.nodup_finished fun task hheld hfinished =>
      ht.not_mem_guards task hfinished hheld
  have hperm : t.registry.names.Perm (t.guards ++ t.registry.finished) := by
    rw [List.perm_ext_iff_of_nodup ht.nodup_names hnodup]
    intro task
    rw [ht.mem_names, List.mem_append]
  rw [← TaskRegistry.length_names, hperm.length_eq, List.length_append]

theorem begin (ht : t.Consistent) {registry : TaskRegistry} (h : t.registry.begin task = .ok registry) :
    Consistent ⟨registry, task :: t.guards⟩ := by
  have hstate := TaskRegistry.state_of_begin_eq_ok h
  have hnames := TaskRegistry.names_of_begin_eq_ok h
  obtain ⟨hidle, hregistry⟩ := TaskRegistry.begin_eq_ok_iff.1 h
  have hguard : task ∉ t.guards := fun hheld => hidle (ht.state_of_mem_guards task hheld)
  have hfinished : registry.finished = t.registry.finished.filter (· != task) := by rw [hregistry]
  have hmem : ∀ other, other ∈ registry.finished ↔ other ∈ t.registry.finished ∧ other ≠ task := by
    intro other
    rw [hfinished, List.mem_filter, bne_iff_ne]
  constructor
  · rw [hnames]
    split
    · exact ht.nodup_names
    · rename_i hname
      rw [← List.concat_eq_append]
      exact ht.nodup_names.concat hname
  · exact List.nodup_cons.2 ⟨hguard, ht.nodup_guards⟩
  · rw [hfinished]
    exact ht.nodup_finished.filter _
  · intro other
    have hother := ht.mem_names other
    rw [hmem, List.mem_cons, hnames]
    by_cases heq : other = task
    · subst heq
      split <;> simp_all
    · split <;> simp [heq, hother]
  · intro other hother
    obtain ⟨hother, hne⟩ := (hmem other).1 hother
    rw [List.mem_cons, not_or]
    exact ⟨hne, ht.not_mem_guards other hother⟩
  · intro other hother
    rw [hstate]
    obtain rfl | hheld := List.mem_cons.1 hother
    · exact if_pos rfl
    · rw [ht.state_of_mem_guards other hheld, ite_self]
  · intro other hother
    obtain ⟨hother, hne⟩ := (hmem other).1 hother
    rw [hstate, if_neg hne]
    exact ht.state_of_mem_finished other hother
  · rw [hfinished]
    have hlength : registry.history = t.registry.history := by rw [hregistry]
    rw [hlength]
    exact (List.length_filter_le ..).trans ht.length_finished_le

theorem nodup_queue (ht : t.Consistent) (htask : task ∈ t.guards) : (t.registry.finished ++ [task]).Nodup := by
  rw [← List.concat_eq_append]
  exact ht.nodup_finished.concat fun hfinished => ht.not_mem_guards task hfinished htask

/-- A task of the queue is kept if it is not forgotten. -/
theorem mem_finished_finish_iff (ht : t.Consistent) (htask : task ∈ t.guards) (state : TaskState) (other : String) :
    other ∈ (t.registry.finish task state).finished ↔
      (other ∈ t.registry.finished ∨ other = task) ∧ other ∉ t.registry.evicted task := by
  have hqueue := t.registry.evicted_append_finished task state
  have hnodup : (t.registry.evicted task ++ (t.registry.finish task state).finished).Nodup := by
    rw [hqueue]
    exact ht.nodup_queue htask
  have hmem : other ∈ t.registry.evicted task ++ (t.registry.finish task state).finished ↔
      other ∈ t.registry.finished ++ [task] := by rw [hqueue]
  simp only [List.mem_append, List.mem_singleton] at hmem
  have hdisjoint := (List.nodup_append'.1 hnodup).2.2
  constructor
  · intro hother
    exact ⟨hmem.1 (.inr hother), fun hevicted => hdisjoint hevicted hother⟩
  · rintro ⟨hother, hevicted⟩
    exact (hmem.2 hother).resolve_left hevicted

theorem finish (ht : t.Consistent) (htask : task ∈ t.guards) {state : TaskState} (hstate : state.isTerminal = true) :
    Consistent ⟨t.registry.finish task state, t.guards.erase task⟩ := by
  have hmem := ht.mem_finished_finish_iff htask state
  have hname : task ∈ t.registry.names := (ht.mem_names task).2 (.inl htask)
  have hnames := TaskRegistry.names_finish hname state
  have hfinish := t.registry.state_finish task state
  have herase : ∀ other, other ∈ t.guards.erase task ↔ other ≠ task ∧ other ∈ t.guards :=
    fun other => ht.nodup_guards.mem_erase_iff
  -- only tasks of the queue are forgotten
  have hevicted : ∀ other ∈ t.registry.evicted task, other ∈ t.registry.finished ∨ other = task := by
    intro other hother
    have hqueue := List.mem_of_mem_take hother
    rwa [List.mem_append, List.mem_singleton] at hqueue
  constructor
  · rw [hnames]
    exact ht.nodup_names.filter _
  · exact ht.nodup_guards.erase _
  · rw [TaskRegistry.finished_finish]
    exact (ht.nodup_queue htask).sublist (List.drop_sublist ..)
  · intro other
    rw [hnames, List.mem_filter, decide_eq_true_eq, ht.mem_names, herase, hmem]
    have hforgotten := hevicted other
    have hfinished := ht.not_mem_guards other
    by_cases heq : other = task
    · subst heq
      tauto
    · tauto
  · intro other hother
    rw [herase]
    rintro ⟨hne, hheld⟩
    obtain hfinished | heq := ((hmem other).1 hother).1
    · exact ht.not_mem_guards other hfinished hheld
    · exact hne heq
  · intro other hother
    obtain ⟨hne, hheld⟩ := (herase other).1 hother
    have hkept : other ∉ t.registry.evicted task := by
      intro hother
      obtain hfinished | heq := hevicted other hother
      · exact ht.not_mem_guards other hfinished hheld
      · exact hne heq
    rw [hfinish, if_neg hkept, if_neg hne, ht.state_of_mem_guards other hheld]
  · intro other hother
    obtain ⟨hfinished, hkept⟩ := (hmem other).1 hother
    rw [hfinish, if_neg hkept]
    split
    · rintro rfl
      cases hstate
    · rename_i hne
      exact ht.state_of_mem_finished other (hfinished.resolve_right hne)
  · exact TaskRegistry.length_finished_finish_le ..

theorem next (ht : t.Consistent) (h : t.next event = some t') : t'.Consistent := by
  obtain ⟨_, _, _, rfl⟩ | ⟨task, registry, _, hbegin, rfl⟩ | ⟨task, state, _, htask, hstate, rfl⟩ := next_cases h
  · exact ht
  · exact ht.begin hbegin
  · exact ht.finish htask hstate

theorem run (ht : t.Consistent) (h : t.run events = some t') : t'.Consistent := by
  induction events using List.reverseRecOn generalizing t' with
  | nil =>
    obtain rfl := Option.some.inj h
    exact ht
  | append_singleton events event ih =>
    obtain ⟨t₁, hrun, hnext⟩ := run_concat_eq_some_iff.1 h
    exact (ih hrun).next hnext

end Consistent
end TaskTable
end Memsift
