import Memsift.Proofs.TaskTable

/-!
# The history of tasks

Which tasks a registry remembers after a run.  A task that ended and was not begun again stands in the queue, with
those behind it that ended later and do not run, until these are as many as are remembered (`Stand.next`).  So its
final state is known unless it was overtaken at some moment since it ended (`stand_run`).
-/

namespace Memsift
namespace TaskTable

variable {t t' t₀ : TaskTable} {history : Nat} {event : TaskEvent} {events : List TaskEvent} {task other : String}
  {state : TaskState}

/-- The tasks other than `task` that the events have ended and that do not run. -/
def endedLater (t : TaskTable) (task : String) (events : List TaskEvent) : Finset String :=
  (events.filterMap (·.ended?.map (·.1))).toFinset.filter fun other => other ≠ task ∧ other ∉ t.guards

/-- At some moment of a run, its beginning included, at least `history` other tasks have ended and do not run. -/
def Overtaken (t₀ : TaskTable) (history : Nat) (task : String) (events : List TaskEvent) : Prop :=
  ∃ earlier later t, events = earlier ++ later ∧ t₀.run earlier = some t ∧
    history ≤ (t.endedLater task earlier).card

theorem mem_endedLater :
    other ∈ t.endedLater task events ↔
      (∃ event ∈ events, event.Ends other) ∧ other ≠ task ∧ other ∉ t.guards := by
  rw [endedLater, Finset.mem_filter, List.mem_toFinset, List.mem_filterMap]
  rfl

theorem mem_endedLater_begin (t : TaskTable) (registry : TaskRegistry) (task begun : String)
    (events : List TaskEvent) (other : String) :
    other ∈ endedLater ⟨registry, begun :: t.guards⟩ task (events ++ [.begin begun]) ↔
      other ∈ t.endedLater task events ∧ other ≠ begun := by
  have hbegin : ¬ (TaskEvent.begin begun).Ends other := by simp [TaskEvent.Ends, TaskEvent.ended?]
  simp only [mem_endedLater, List.mem_append, List.mem_cons, List.not_mem_nil, or_false]
  constructor
  · rintro ⟨⟨event, hevent | rfl, hended⟩, hne, hguard⟩
    · exact ⟨⟨⟨event, hevent, hended⟩, hne, fun h => hguard (.inr h)⟩, fun h => hguard (.inl h)⟩
    · exact absurd hended hbegin
  · rintro ⟨⟨⟨event, hevent, hended⟩, hne, hguard⟩, hbegun⟩
    exact ⟨⟨event, .inl hevent, hended⟩, hne, not_or.2 ⟨hbegun, hguard⟩⟩

theorem mem_endedLater_finish (ht : t.Consistent) (registry : TaskRegistry) {ended : String} (hne : ended ≠ task)
    (hended : event.ended? = some (ended, state)) (events : List TaskEvent) (other : String) :
    other ∈ endedLater ⟨registry, t.guards.erase ended⟩ task (events ++ [event]) ↔
      other ∈ t.endedLater task events ∨ other = ended := by
  simp only [mem_endedLater, List.mem_append, List.mem_singleton, ht.nodup_guards.mem_erase_iff]
  constructor
  · rintro ⟨⟨event', hevent | rfl, hended'⟩, hother, hguard⟩
    · by_cases heq : other = ended
      · exact .inr heq
      · exact .inl ⟨⟨event', hevent, hended'⟩, hother, fun h => hguard ⟨heq, h⟩⟩
    · rw [TaskEvent.Ends, hended] at hended'
      exact .inr (Option.some.inj hended').symm
  · rintro (⟨⟨event', hevent, hended'⟩, hother, hguard⟩ | rfl)
    · exact ⟨⟨event', .inl hevent, hended'⟩, hother, fun h => hguard h.2⟩
    · exact ⟨⟨event, .inr rfl, TaskEvent.ends_of_ended?_eq hended⟩, hne, fun h => h.1 rfl⟩

theorem overtaken_nil_iff : t₀.Overtaken history task [] ↔ history = 0 := by
  have hnone : t₀.endedLater task [] = ∅ := rfl
  constructor
  · rintro ⟨earlier, later, t, hsplit, hrun, hcard⟩
    obtain ⟨rfl, rfl⟩ := List.append_eq_nil_iff.1 hsplit.symm
    obtain rfl := Option.some.inj hrun
    rw [hnone] at hcard
    exact Nat.le_zero.1 hcard
  · rintro rfl
    exact ⟨[], [], t₀, rfl, rfl, Nat.zero_le _⟩

theorem overtaken_concat_iff (h : t₀.run (events ++ [event]) = some t') :
    t₀.Overtaken history task (events ++ [event]) ↔
      t₀.Overtaken history task events ∨ history ≤ (t'.endedLater task (events ++ [event])).card := by
  constructor
  · rintro ⟨earlier, later, t, hsplit, hrun, hcard⟩
    -- the moment is the last one, or there was one before
    rcases List.eq_nil_or_concat later with rfl | ⟨later, last, rfl⟩
    · rw [List.append_nil] at hsplit
      subst hsplit
      obtain rfl := Option.some.inj (h.symm.trans hrun)
      exact .inr hcard
    · rw [List.concat_eq_append, ← List.append_assoc] at hsplit
      obtain ⟨rfl, _⟩ := List.append_inj' hsplit rfl
      exact .inl ⟨earlier, later, t, rfl, hrun, hcard⟩
  · rintro (⟨earlier, later, t, rfl, hrun, hcard⟩ | hcard)
    · exact ⟨earlier, later ++ [event], t, List.append_assoc .., hrun, hcard⟩
    · exact ⟨events ++ [event], [], t', (List.append_nil _).symm, h, hcard⟩

/-- Where a task stands that ended with a final state when the table was `t₀` and was not begun again.  If it is
remembered, those behind it in the queue ended later and do not run. -/
inductive Stand (t₀ t : TaskTable) (task : String) (state : TaskState) (events : List TaskEvent) : Prop where
  | remembered (ahead behind : List String) (hqueue : t.registry.finished = ahead ++ task :: behind)
      (hbehind : ∀ other, other ∈ behind ↔ other ∈ t.endedLater task events)
      (hstate : t.registry.state task = state) (hnot : ¬ t₀.Overtaken t.registry.history task events)
  | forgotten (hstate : t.registry.state task = .idle) (h : t₀.Overtaken t.registry.history task events)

theorem card_endedLater {behind : List String} (hnodup : behind.Nodup)
    (hbehind : ∀ other, other ∈ behind ↔ other ∈ t.endedLater task events) :
    (t.endedLater task events).card = behind.length := by
  have hset : t.endedLater task events = behind.toFinset := by
    ext other
    rw [List.mem_toFinset, hbehind]
  rw [hset, List.toFinset_card_of_nodup hnodup]

/-- A task in a queue that is not too long has not been overtaken. -/
theorem Stand.of_queue (ht' : t'.Consistent) (h : t₀.run (events ++ [event]) = some t') {ahead behind : List String}
    (hqueue : t'.registry.finished = ahead ++ task :: behind)
    (hbehind : ∀ other, other ∈ behind ↔ other ∈ t'.endedLater task (events ++ [event]))
    (hstate : t'.registry.state task = state) (hnot : ¬ t₀.Overtaken t'.registry.history task events) :
    Stand t₀ t' task state (events ++ [event]) := by
  have hnodup : behind.Nodup := by
    have hfinished := ht'.nodup_finished
    rw [hqueue] at hfinished
    exact (List.nodup_cons.1 (List.nodup_append'.1 hfinished).2.1).2
  have hlength := ht'.length_finished_le
  rw [hqueue, List.length_append, List.length_cons] at hlength
  refine .remembered ahead behind hqueue hbehind hstate ?_
  rw [overtaken_concat_iff h, card_endedLater hnodup hbehind]
  rintro (hovertaken | hle)
  · exact hnot hovertaken
  · omega

/-- A task stands in the queue as soon as it has ended, unless nothing is remembered at all. -/
theorem Stand.finish (ht : t.Consistent) (htask : task ∈ t.guards) (state : TaskState) :
    Stand ⟨t.registry.finish task state, t.guards.erase task⟩ ⟨t.registry.finish task state, t.guards.erase task⟩
      task state [] := by
  by_cases hhistory : t.registry.history = 0
  · refine .forgotten ?_ (overtaken_nil_iff.2 hhistory)
    have hevicted : task ∈ t.registry.evicted task := by
      rw [TaskRegistry.evicted, hhistory, List.take_of_length_le (by simp)]
      exact List.mem_append_right _ (List.mem_singleton_self task)
    rw [TaskRegistry.state_finish, if_pos hevicted]
  · have hpos := Nat.pos_of_ne_zero hhistory
    refine .remembered (t.registry.finished.drop (t.registry.finished.length + 1 - t.registry.history)) [] ?_ ?_ ?_
      (mt overtaken_nil_iff.1 hhistory)
    · have hlength := ht.length_finished_le
      rw [TaskRegistry.finished_finish, List.drop_append_of_le_length (by omega)]
    · intro other
      rw [mem_endedLater]
      simp
    · have hqueue : task ∉ t.registry.finished := fun hfinished => ht.not_mem_guards task hfinished htask
      exact TaskRegistry.state_finish_self hqueue hpos state

/-- What becomes of the stand of a task when another one ends. -/
theorem Stand.finish_other (ht : t.Consistent) {ended : String} {last : TaskState} (hheld : ended ∈ t.guards)
    (hne : ended ≠ task) (hended : event.ended? = some (ended, last))
    (ht' : Consistent ⟨t.registry.finish ended last, t.guards.erase ended⟩)
    (h : t₀.run (events ++ [event]) = some ⟨t.registry.finish ended last, t.guards.erase ended⟩)
    (hstand : Stand t₀ t task state events) :
    Stand t₀ ⟨t.registry.finish ended last, t.guards.erase ended⟩ task state (events ++ [event]) := by
  have hstate' := t.registry.state_finish ended last task
  rw [if_neg hne.symm] at hstate'
  cases hstand with
  | forgotten hstate hovertaken =>
    refine .forgotten ?_ ((overtaken_concat_iff h).2 (.inl hovertaken))
    rw [hstate', hstate, ite_self]
  | remembered ahead behind hqueue hbehind hstate hnot =>
    have hbehind' : ∀ other, other ∈ behind ++ [ended] ↔
        other ∈ endedLater ⟨t.registry.finish ended last, t.guards.erase ended⟩ task (events ++ [event]) := by
      intro other
      rw [mem_endedLater_finish ht _ hne hended, List.mem_append, List.mem_singleton, hbehind]
    have hlonger : t.registry.finished ++ [ended] = ahead ++ task :: (behind ++ [ended]) := by
      rw [hqueue, List.append_assoc, List.cons_append]
    have hnodup := ht.nodup_queue hheld
    rw [hlonger] at hnodup
    have hlength := ht.length_finished_le
    by_cases hsurplus : t.registry.finished.length + 1 - t.registry.history ≤ ahead.length
    · -- only tasks ahead of this one are forgotten
      have hkept : task ∉ t.registry.evicted ended := by
        rw [TaskRegistry.evicted, hlonger, List.take_append_of_le_length hsurplus]
        intro hmem
        exact (List.nodup_append'.1 hnodup).2.2 (List.mem_of_mem_take hmem) List.mem_cons_self
      have hqueue' : (t.registry.finish ended last).finished =
          ahead.drop (t.registry.finished.length + 1 - t.registry.history) ++ task :: (behind ++ [ended]) := by
        rw [TaskRegistry.finished_finish, hlonger, List.drop_append_of_le_length hsurplus]
      exact .of_queue ht' h hqueue' hbehind' (by rw [hstate', if_neg hkept, hstate]) hnot
    · -- the queue is full, and this task is the oldest one
      obtain rfl : ahead = [] := List.eq_nil_of_length_eq_zero (by omega)
      have hfull : t.registry.finished.length + 1 - t.registry.history = 1 := by omega
      have hforgotten : task ∈ t.registry.evicted ended := by
        rw [TaskRegistry.evicted, hlonger, hfull]
        exact List.mem_cons_self
      refine .forgotten (by rw [hstate', if_pos hforgotten]) ((overtaken_concat_iff h).2 (.inr ?_))
      have hbehind_nodup := (List.nodup_cons.1 hnodup).2
      rw [card_endedLater hbehind_nodup hbehind', List.length_append, List.length_singleton]
      have hqueue_length := congrArg List.length hqueue
      simp only [List.nil_append, List.length_cons] at hqueue_length
      show t.registry.history ≤ behind.length + 1
      omega

theorem Stand.next (ht : t.Consistent) (hrun : t₀.run events = some t) (hnext : t.next event = some t')
    (hevent : ¬ event.Ends task) (htask : task ∉ t'.guards) (hstand : Stand t₀ t task state events) :
    Stand t₀ t' task state (events ++ [event]) := by
  have h : t₀.run (events ++ [event]) = some t' := run_concat_eq_some_iff.2 ⟨t, hrun, hnext⟩
  have ht' := ht.next hnext
  obtain ⟨begun, rfl, hrunning, rfl⟩ | ⟨begun, registry, rfl, hbegin, rfl⟩ | ⟨ended, last, hended, hheld, _, rfl⟩ :=
    next_cases hnext
  · -- nothing changes
    have hsame : t'.endedLater task (events ++ [.begin begun]) = t'.endedLater task events := by
      simp [endedLater, TaskEvent.ended?]
    cases hstand with
    | remembered ahead behind hqueue hbehind hstate hnot =>
      exact .of_queue ht' h hqueue (by rwa [hsame]) hstate hnot
    | forgotten hstate hovertaken => exact .forgotten hstate ((overtaken_concat_iff h).2 (.inl hovertaken))
  · have hne : task ≠ begun := fun heq => htask (heq ▸ List.mem_cons_self)
    have hhistory := history_next hnext
    have hstate' := TaskRegistry.state_of_begin_eq_ok hbegin task
    rw [if_neg hne] at hstate'
    obtain ⟨_, hregistry⟩ := TaskRegistry.begin_eq_ok_iff.1 hbegin
    cases hstand with
    | remembered ahead behind hqueue hbehind hstate hnot =>
      have hqueue' : registry.finished = ahead.filter (· != begun) ++ task :: behind.filter (· != begun) := by
        rw [hregistry, hqueue]
        simp [hne]
      refine .of_queue ht' h hqueue' ?_ (hstate'.trans hstate) (by rwa [hhistory])
      intro other
      rw [mem_endedLater_begin, List.mem_filter, hbehind, bne_iff_ne]
    | forgotten hstate hovertaken =>
      rw [← hhistory] at hovertaken
      exact .forgotten (hstate'.trans hstate) ((overtaken_concat_iff h).2 (.inl hovertaken))
  · have hne : ended ≠ task := by
      rintro rfl
      exact hevent (TaskEvent.ends_of_ended?_eq hended)
    exact hstand.finish_other ht hheld hne hended ht' h

theorem stand_run (ht₀ : t₀.Consistent) (h₀ : Stand t₀ t₀ task state []) (h : t₀.run events = some t)
    (hevents : ∀ event ∈ events, ¬ event.Ends task) (htask : task ∉ t.guards) :
    Stand t₀ t task state events := by
  induction events using List.reverseRecOn generalizing t with
  | nil =>
    obtain rfl := Option.some.inj h
    exact h₀
  | append_singleton events event ih =>
    obtain ⟨t₁, hrun, hnext⟩ := run_concat_eq_some_iff.1 h
    have hevent := hevents event (by simp)
    have hfree : task ∉ t₁.guards := fun hheld => htask (mem_guards_next hnext hevent hheld)
    have hstand := ih hrun (fun event hmem => hevents event (List.mem_append_left _ hmem)) hfree
    exact hstand.next (ht₀.run hrun) hrun hnext hevent htask

/-- In every run a registry refuses to begin exactly the tasks for which guards are held, and these are the running
ones; its queue holds each finished task once, and no more than are remembered.  A task that ended and was not begun
again has its final state, unless it was overtaken at some moment since it ended: then it is idle. -/
theorem registry_of_run (h : (start history).run events = some t) :
    (∀ task, (t.registry.begin task = .error (.taskConflict task) ↔ task ∈ t.guards) ∧
      ((∃ registry, t.registry.begin task = .ok registry) ↔ task ∉ t.guards) ∧
      (task ∈ t.guards → t.next (.begin task) = some t)) ∧
    (∀ task, t.registry.state task = .running ↔ task ∈ t.guards) ∧
    (t.guards.Nodup ∧ t.registry.finished.Nodup ∧
      (∀ task ∈ t.registry.finished, task ∉ t.guards ∧ t.registry.state task ≠ .running) ∧
      t.registry.finished.length ≤ history ∧
      t.registry.size = t.guards.length + t.registry.finished.length) ∧
    ∀ before last after task state, events = before ++ last :: after → last.ended? = some (task, state) →
      (∀ event ∈ after, ¬ event.Ends task) → task ∉ t.guards →
      ∃ t₀, (start history).run (before ++ [last]) = some t₀ ∧
        (t₀.Overtaken history task after → t.registry.state task = .idle) ∧
        (¬ t₀.Overtaken history task after → t.registry.state task = state) := by
  have hstart := Consistent.start history
  have ht := hstart.run h
  have hhistory : t.registry.history = history := history_run h
  have hrunning := ht.state_eq_running_iff
  refine ⟨?_, hrunning, ⟨ht.nodup_guards, ht.nodup_finished, ?_, ?_, ht.size_eq⟩, ?_⟩
  · intro task
    refine ⟨?_, ?_, ?_⟩
    · rw [TaskRegistry.begin_eq_error_iff, hrunning]
    · rw [← hrunning]
      constructor
      · rintro ⟨registry, hbegin⟩
        exact (TaskRegistry.begin_eq_ok_iff.1 hbegin).1
      · intro hidle
        exact ⟨_, TaskRegistry.begin_eq_ok_iff.2 ⟨hidle, rfl⟩⟩
    · intro hheld
      rw [← hrunning] at hheld
      simp only [TaskTable.next, TaskRegistry.enlist_of_running hheld]
  · intro task htask
    exact ⟨ht.not_mem_guards task htask, ht.state_of_mem_finished task htask⟩
  · rw [← hhistory]
    exact ht.length_finished_le
  · rintro before last after task state rfl hlast hafter htask
    rw [← List.singleton_append, ← List.append_assoc, run_append, Option.bind_eq_some_iff] at h
    obtain ⟨t₀, hrun₀, hrun⟩ := h
    have ht₀ := hstart.run hrun₀
    obtain ⟨t₁, hrun₁, hnext⟩ := run_concat_eq_some_iff.1 hrun₀
    have ht₁ := hstart.run hrun₁
    -- the task ended just before `t₀`
    have h₀ : Stand t₀ t₀ task state [] := by
      obtain ⟨_, rfl, _⟩ | ⟨_, _, rfl, _⟩ | ⟨ended, final, hended, hheld, _, rfl⟩ := next_cases hnext
      · cases hlast
      · cases hlast
      · rw [hended] at hlast
        obtain ⟨rfl, rfl⟩ := Prod.mk.inj (Option.some.inj hlast)
        exact .finish ht₁ hheld final
    refine ⟨t₀, hrun₀, ?_⟩
    cases stand_run ht₀ h₀ hrun hafter htask with
    | remembered _ _ _ _ hstate hnot =>
      rw [hhistory] at hnot
      exact ⟨fun hovertaken => absurd hovertaken hnot, fun _ => hstate⟩
    | forgotten hstate hovertaken =>
      rw [hhistory] at hovertaken
      exact ⟨fun _ => hstate, fun hnot => absurd hovertaken hnot⟩

/-- One task runs on while others end; of two that are remembered at most, the first one is overtaken after it has
ended, although the second one runs again. -/
theorem registry_of_run_overtaken :
    let ends (task : String) : List TaskEvent := [.begin task, .complete task .completed]
    let after : List TaskEvent := ends "b" ++ .begin "b" :: ends "c" ++ [.drop "b", .begin "d"]
    let events := .begin "long" :: .begin "long" :: .begin "a" :: .complete "a" .canceled :: after
    ∃ t, (start 2).run events = some t ∧ t.registry.state "long" = .running ∧ t.registry.size = 4 ∧
      t.registry.state "a" = .idle := by
  intro ends after events
  obtain ⟨t, hrun, hguards, hfinished⟩ : ∃ t, (start 2).run events = some t ∧ t.guards = ["d", "long"] ∧
      t.registry.finished = ["c", "b"] := ⟨_, rfl, by decide, by decide⟩
  obtain ⟨_, hrunning, ⟨_, _, _, _, hsize⟩, hforgotten⟩ := registry_of_run hrun
  obtain ⟨t₀, hrun₀, hidle, _⟩ := hforgotten [.begin "long", .begin "long", .begin "a"] (.complete "a" .canceled)
    after "a" .canceled rfl rfl (by decide) (by simp [hguards])
  refine ⟨t, hrun, (hrunning "long").2 (by simp [hguards]), by rw [hsize, hguards, hfinished]; rfl, hidle ?_⟩
  obtain rfl := Option.some.inj hrun₀
  exact ⟨after.take 6, after.drop 6, _, rfl, rfl, by decide⟩

end TaskTable
end Memsift
