import Memsift.Proofs.Collected
import Memsift.Proofs.Cancellation
import Memsift.Proofs.Reports

/-!
# Scans and collections give their tasks back

Scans and collections that share a registry each run under the name of a task.  The key facts: a call that is not
refused begins its task, and ends it once with a final state (`perform_of_defect`, `perform_of_no_defect`), while
reports at most do something to other tasks (`Leads.served`); so it leaves no task running that did not run before
(`perform_mem_guards`), even if its reports make calls themselves (`balanced_of_performAll`).
-/

namespace Memsift

variable {σ : Type}

/-- A scan or a collection. -/
inductive TaskWork where
  | scan (s : Snapshot) (settings : ScanSettings) (c : Constraint) (type : DataType)
  | collect (s : Snapshot) (settings : ScanSettings) (readers : Nat → Reader)

/-- What is wrong with the constraint; a collection has none. -/
def TaskWork.defect? : TaskWork → Option Error
  | scan _ _ c type =>
    match Predicate.compile c type with
    | .error e => some e
    | .ok _ => none
  | collect _ _ _ => none

/-- A piece of work under the name of a task. -/
structure TaskCall (σ : Type) where
  task : String
  watch : Watch σ
  work : TaskWork

namespace TaskCall

/-- The state of the outcome, or what went wrong, and the surroundings afterwards. -/
def perform (call : TaskCall σ) (scene : Scene σ) : Except Error TaskState × Scene σ :=
  match call.work with
  | .scan s settings c type =>
    let (answer, after) := s.scan settings call.watch c type call.task scene
    (answer.map (·.state), after)
  | .collect s settings readers =>
    let (answer, _, after) := s.collectFrom settings call.watch readers call.task scene
    (answer.map (·.state), after)

/-- The surroundings after some calls, one after another. -/
def performAll (calls : List (TaskCall σ)) (scene : Scene σ) : Scene σ :=
  calls.foldl (fun scene call => (call.perform scene).2) scene

end TaskCall

namespace Snapshot

theorem scanWith_leads (s : Snapshot) (settings : ScanSettings) (watch : Watch σ) (p : Predicate) (task : String)
    (scene : Scene σ) :
    let scanned := s.scanWith settings watch p task scene
    scanned.1.state.isTerminal = true ∧ watch.Leads scene scanned.2 := by
  have hleads : watch.Leads scene (s.pass settings watch p scene).scene := Watch.leads_runPass _ _ _ _ _ .refl
  unfold pass at hleads
  simp only [scanWith]
  split
  · exact ⟨rfl, hleads⟩
  · split
    · exact ⟨rfl, hleads⟩
    · exact ⟨rfl, hleads⟩

end Snapshot

namespace TaskCall

variable {call : TaskCall σ} {scene : Scene σ} {r : TaskRegistry}

theorem perform_of_begin_eq_error {e : Error} (h : scene.registry.begin call.task = .error e) :
    call.perform scene = (.error e, scene) := by
  unfold perform
  cases call.work with
  | scan s settings c type =>
    simp only [Snapshot.scan, h]
    rfl
  | collect s settings readers =>
    simp only [Snapshot.collectFrom, h]
    rfl

theorem perform_of_defect (h : scene.registry.begin call.task = .ok r) {e : Error} (he : call.work.defect? = some e) :
    call.perform scene = (.error e, { scene with registry := r.finish call.task .failed }) := by
  unfold perform
  cases hwork : call.work with
  | scan s settings c type =>
    rw [hwork, TaskWork.defect?] at he
    cases hp : Predicate.compile c type with
    | error e' =>
      rw [hp] at he
      obtain rfl := Option.some.inj he
      simp only [Snapshot.scan, h, hp]
      rfl
    | ok p =>
      rw [hp] at he
      cases he
  | collect s settings readers =>
    rw [hwork] at he
    cases he

/-- A call that is not refused ends with a final state, and gives back the task last. -/
theorem perform_of_no_defect (h : scene.registry.begin call.task = .ok r) (hdefect : call.work.defect? = none) :
    ∃ (state : TaskState) (last : Scene σ), state.isTerminal = true ∧
      call.watch.Leads { scene with registry := r } last ∧
      call.perform scene = (.ok state, { last with registry := last.registry.finish call.task state }) := by
  unfold perform
  cases hwork : call.work with
  | scan s settings c type =>
    rw [hwork, TaskWork.defect?] at hdefect
    cases hp : Predicate.compile c type with
    | error e =>
      rw [hp] at hdefect
      cases hdefect
    | ok p =>
      have hlook : call.watch.Leads { scene with registry := r } _ := .look .refl
      rcases hcancelled : call.watch.cancelled scene.state with ⟨answer, state⟩
      rw [hcancelled] at hlook
      simp only [Snapshot.scan, h, hp, hcancelled]
      cases answer with
      | true => exact ⟨.canceled, _, rfl, hlook, rfl⟩
      | false =>
        obtain ⟨hterminal, hleads⟩ := s.scanWith_leads settings call.watch p call.task ⟨r, state⟩
        exact ⟨_, _, hterminal, hlook.trans hleads, rfl⟩
  | collect s settings readers =>
    have hleads : call.watch.Leads { scene with registry := r }
        (s.readPass settings call.watch readers { scene with registry := r }).scene :=
      Watch.leads_runPass _ _ _ _ _ .refl
    unfold Snapshot.readPass Snapshot.items at hleads
    simp only [Snapshot.collectFrom, h]
    split
    · exact ⟨.failed, _, rfl, hleads, rfl⟩
    · split
      · exact ⟨.canceled, _, rfl, hleads, rfl⟩
      · exact ⟨.completed, _, rfl, hleads, rfl⟩

/-- A token that is set before a scan starts. -/
theorem perform_of_cancelled (h : scene.registry.begin call.task = .ok r) {s : Snapshot}
    {settings : ScanSettings} {c : Constraint} {type : DataType} (hwork : call.work = .scan s settings c type)
    (hdefect : call.work.defect? = none) (hcancelled : (call.watch.cancelled scene.state).1 = true) :
    call.perform scene = (.ok .canceled, ⟨r.finish call.task .canceled, (call.watch.cancelled scene.state).2⟩) := by
  rw [hwork, TaskWork.defect?] at hdefect
  cases hp : Predicate.compile c type with
  | error e =>
    rw [hp] at hdefect
    cases hdefect
  | ok p =>
    rcases hlook : call.watch.cancelled scene.state with ⟨answer, state⟩
    rw [hlook] at hcancelled
    obtain rfl : answer = true := hcancelled
    simp only [perform, hwork, Snapshot.scan, h, hp, hlook]
    rfl

end TaskCall

namespace TaskTable

variable {t t₁ : TaskTable} {task : String} {others : List TaskEvent} {state : TaskState} {r after : TaskRegistry}

/-- A task for which no guard is held is begun, others do something, and the task ends with a final state.  `t₁` is the
table just before it ends, and `after` the registry left behind. -/
structure Served (t t₁ : TaskTable) (task : String) (others : List TaskEvent) (state : TaskState)
    (after : TaskRegistry) : Prop where
  isTerminal : state.isTerminal = true
  not_ends : ∀ event ∈ others, ¬ event.Ends task
  run : t.run (.begin task :: others) = some t₁
  ends : t₁.next (.complete task state) = some ⟨after, t₁.guards.erase task⟩
  /-- The guard is gone. -/
  not_mem_guards : task ∉ t₁.guards.erase task
  /-- The state is remembered, unless nothing is remembered at all. -/
  state_self : after.state task = if t.registry.history = 0 then .idle else state
  /-- The end of the task only forgets the oldest tasks beyond the history. -/
  state_other : ∀ other, other ≠ task →
    after.state other = if other ∈ t₁.registry.evicted task then .idle else t₁.registry.state other
  /-- So does all of it, if others do nothing meanwhile. -/
  state_undisturbed : others = [] → ∀ other, other ≠ task →
    let queue := t.registry.finished.filter (· != task)
    after.state other =
      if other ∈ queue.take (queue.length + 1 - t.registry.history) then .idle else t.registry.state other

theorem Served.intro (ht : t.Consistent) (hbegin : t.registry.begin task = .ok r)
    (hrun : TaskTable.run ⟨r, task :: t.guards⟩ others = some t₁) (hothers : ∀ event ∈ others, ¬ event.Ends task)
    (hstate : state.isTerminal = true) : t.Served t₁ task others state (t₁.registry.finish task state) := by
  have ht₁ := (ht.begin hbegin).run hrun
  have hguard : task ∈ t₁.guards := mem_guards_run hrun hothers List.mem_cons_self
  obtain ⟨_, hr⟩ := TaskRegistry.begin_eq_ok_iff.1 hbegin
  refine ⟨hstate, hothers, ?_, if_pos ⟨hguard, hstate⟩, ht₁.nodup_guards.not_mem_erase, ?_, ?_, ?_⟩
  · show ((t.next (.begin task)).bind fun t' => t'.run others) = some t₁
    rw [TaskTable.next, TaskRegistry.enlist_of_begin_eq_ok hbegin]
    exact hrun
  · have hhistory : t₁.registry.history = t.registry.history := by rw [history_run hrun, hr]
    rw [← hhistory]
    exact TaskRegistry.state_finish_self_eq (fun hfinished => ht₁.not_mem_guards task hfinished hguard) state
  · intro other hother
    rw [TaskRegistry.state_finish, if_neg hother]
  · rintro rfl other hother queue
    obtain rfl := Option.some.inj hrun
    have hevicted : other ∈ r.evicted task ↔ other ∈ queue.take (queue.length + 1 - t.registry.history) := by
      rw [TaskRegistry.mem_evicted_iff_of_ne hother, hr]
    rw [TaskRegistry.state_finish, if_neg hother, TaskRegistry.state_of_begin_eq_ok hbegin, if_neg hother]
    simp only [hevicted]

theorem Served.alone (ht : t.Consistent) (hbegin : t.registry.begin task = .ok r) (hstate : state.isTerminal = true) :
    t.Served ⟨r, task :: t.guards⟩ task [] state (r.finish task state) :=
  .intro ht hbegin rfl (List.forall_mem_nil _) hstate

theorem Served.state_ne_running (h : t.Served t₁ task others state after) : after.state task ≠ .running := by
  rw [h.state_self]
  split
  · exact fun hrunning => by cases hrunning
  · rintro rfl
    cases h.isTerminal

theorem Served.meanwhile {held : List String} (h : t.Served t₁ task others state after) (htask : task ∉ held)
    (hothers : ∀ event ∈ others, ∀ task ∈ held, ¬ event.Ends task) : t.Meanwhile held after := by
  refine ⟨.begin task :: others ++ [.complete task state], ⟨after, t₁.guards.erase task⟩, ?_,
    run_concat_eq_some_iff.2 ⟨t₁, h.run, h.ends⟩, rfl⟩
  intro event hevent other hother
  obtain (rfl | hevent) | rfl := (List.mem_append.1 hevent).imp List.mem_cons.1 List.mem_singleton.1
  · exact fun hends => by cases hends
  · exact hothers event hevent other hother
  · intro hends
    obtain rfl : task = other := Option.some.inj hends
    exact htask hother

end TaskTable

namespace Watch

variable {watch : Watch σ} {t : TaskTable} {task : String} {held : List String} {first last : Scene σ}

/-- A task is served whatever the reports do that are made meanwhile. -/
theorem Leads.served (h : watch.Leads first last) (hwatch : watch.Respects (task :: held)) (ht : t.Consistent)
    (hheld : ∀ task ∈ held, task ∈ t.guards) (hbegin : t.registry.begin task = .ok first.registry)
    {state : TaskState} (hstate : state.isTerminal = true) :
    ∃ t₁ others, t.Served t₁ task others state (last.registry.finish task state) ∧
      (∀ event ∈ others, ∀ task ∈ held, ¬ event.Ends task) ∧ (watch.Quiet → others = []) := by
  by_cases hquiet : watch.Quiet
  · rw [h.registry_eq hquiet]
    exact ⟨_, [], .alone ht hbegin hstate, by simp, fun _ => rfl⟩
  · have hguards : ∀ other ∈ task :: held, other ∈ task :: t.guards := by
      intro other hother
      obtain rfl | hother := List.mem_cons.1 hother
      · exact List.mem_cons_self
      · exact List.mem_cons_of_mem _ (hheld other hother)
    obtain ⟨others, t₁, hothers, hrun, hlast⟩ := h.meanwhile hwatch (ht.begin hbegin) hguards rfl
    have hself : ∀ event ∈ others, ¬ event.Ends task := fun event hevent =>
      hothers event hevent task List.mem_cons_self
    rw [← hlast]
    refine ⟨t₁, others, .intro ht hbegin hrun hself hstate, ?_, fun h => absurd h hquiet⟩
    exact fun event hevent other hother => hothers event hevent other (List.mem_cons_of_mem _ hother)

end Watch

namespace TaskCall

variable {call : TaskCall σ} {calls : List (TaskCall σ)} {scene : Scene σ} {t : TaskTable} {held : List String}
  {task : String}

/-- Once the task is begun, the surroundings change by reports and by the end of the task. -/
theorem perform_of_begin_eq_ok {r : TaskRegistry} (h : scene.registry.begin call.task = .ok r) :
    ∃ (state : TaskState) (last : Scene σ), state.isTerminal = true ∧
      call.watch.Leads { scene with registry := r } last ∧
      (call.perform scene).2 = { last with registry := last.registry.finish call.task state } := by
  cases hdefect : call.work.defect? with
  | some e => exact ⟨.failed, _, rfl, .refl, by rw [perform_of_defect h hdefect]⟩
  | none =>
    obtain ⟨state, last, hstate, hleads, hperform⟩ := perform_of_no_defect h hdefect
    exact ⟨state, last, hstate, hleads, by rw [hperform]⟩

theorem begin_cases (ht : t.Consistent) (hscene : t.registry = scene.registry) (call : TaskCall σ) :
    (call.task ∈ t.guards ∧ scene.registry.begin call.task = .error (.taskConflict call.task)) ∨
    (call.task ∉ t.guards ∧ ∃ r, scene.registry.begin call.task = .ok r) := by
  rw [← hscene, TaskRegistry.begin_eq_error_iff, ht.state_eq_running_iff]
  by_cases hheld : call.task ∈ t.guards
  · exact .inl ⟨hheld, hheld⟩
  · have hidle := mt (ht.state_eq_running_iff call.task).1 hheld
    exact .inr ⟨hheld, _, TaskRegistry.begin_eq_ok_iff.2 ⟨hidle, rfl⟩⟩

theorem perform_meanwhile (ht : t.Consistent) (hheld : ∀ task ∈ held, task ∈ t.guards)
    (hscene : t.registry = scene.registry) (hwatch : call.watch.Respects (call.task :: held)) :
    t.Meanwhile held (call.perform scene).2.registry := by
  obtain ⟨_, hconflict⟩ | ⟨htask, r, hbegin⟩ := begin_cases ht hscene call
  · rw [perform_of_begin_eq_error hconflict, ← hscene]
    exact .refl t held
  · obtain ⟨state, last, hstate, hleads, hafter⟩ := perform_of_begin_eq_ok hbegin
    rw [← hscene] at hbegin
    obtain ⟨t₁, others, hserved, hothers, _⟩ := hleads.served hwatch ht hheld hbegin hstate
    rw [hafter]
    exact hserved.meanwhile (fun hmem => htask (hheld call.task hmem)) hothers

theorem performAll_meanwhile (ht : t.Consistent) (hheld : ∀ task ∈ held, task ∈ t.guards)
    (hscene : t.registry = scene.registry) (hcalls : ∀ call ∈ calls, call.watch.Respects (call.task :: held)) :
    t.Meanwhile held (performAll calls scene).registry := by
  induction calls generalizing t scene with
  | nil =>
    rw [performAll, List.foldl_nil, ← hscene]
    exact .refl t held
  | cons call calls ih =>
    obtain ⟨hcall, hcalls⟩ := List.forall_mem_cons.1 hcalls
    refine (perform_meanwhile ht hheld hscene hcall).trans ht hheld ?_
    intro t' ht' hheld' hscene'
    exact ih ht' hheld' hscene' hcalls

/-- A call leaves no task running that did not run before. -/
theorem perform_mem_guards (ht : t.Consistent) (hscene : t.registry = scene.registry) (hwatch : call.watch.Balanced)
    (hrunning : (call.perform scene).2.registry.state task = .running) : task ∈ t.guards := by
  obtain ⟨_, hconflict⟩ | ⟨_, r, hbegin⟩ := begin_cases ht hscene call
  · rwa [perform_of_begin_eq_error hconflict, ← hscene, ht.state_eq_running_iff] at hrunning
  · obtain ⟨state, last, hstate, hleads, hafter⟩ := perform_of_begin_eq_ok hbegin
    rw [hafter, TaskRegistry.state_finish] at hrunning
    rw [← hscene] at hbegin
    split at hrunning
    · cases hrunning
    · split at hrunning
      · rw [hrunning] at hstate
        cases hstate
      · rename_i hother
        have hmem := hleads.mem_guards hwatch (ht.begin hbegin) rfl task hrunning
        exact (List.mem_cons.1 hmem).resolve_left hother

theorem performAll_mem_guards (ht : t.Consistent) (hscene : t.registry = scene.registry)
    (hcalls : ∀ call ∈ calls, call.watch.Balanced)
    (hrunning : (performAll calls scene).registry.state task = .running) : task ∈ t.guards := by
  induction calls generalizing t scene with
  | nil => rwa [performAll, List.foldl_nil, ← hscene, ht.state_eq_running_iff] at hrunning
  | cons call calls ih =>
    obtain ⟨hcall, hcalls⟩ := List.forall_mem_cons.1 hcalls
    obtain ⟨_, t', _, hrun, hscene'⟩ := perform_meanwhile ht (by simp) hscene (hcall.respects [call.task])
    have ht' := ht.run hrun
    have hmem := ih ht' hscene' hcalls hrunning
    rw [← ht'.state_eq_running_iff, hscene'] at hmem
    exact perform_mem_guards ht hscene hcall hmem

/-- Reports may make calls themselves. -/
theorem balanced_of_performAll {watch : Watch σ}
    (hwatch : ∀ percent scene, ∃ calls : List (TaskCall σ), (∀ call ∈ calls, call.watch.Balanced) ∧
      (watch.reported percent scene).registry = (performAll calls scene).registry) : watch.Balanced := by
  constructor
  · intro held percent scene t ht hheld hscene
    obtain ⟨calls, hcalls, hreported⟩ := hwatch percent scene
    rw [hreported]
    exact performAll_meanwhile ht hheld hscene fun call hcall => (hcalls call hcall).respects _
  · intro percent scene t ht hscene task hrunning
    obtain ⟨calls, hcalls, hreported⟩ := hwatch percent scene
    rw [hreported] at hrunning
    exact performAll_mem_guards ht hscene hcalls hrunning

/-- What a call does, depending on the guards that are held when it is made. -/
structure GivesBack (call : TaskCall σ) (t : TaskTable) (scene : Scene σ) : Prop where
  /-- A task that is running comes first, and nothing changes. -/
  conflict : call.task ∈ t.guards → call.perform scene = (.error (.taskConflict call.task), scene)
  /-- Then comes what is wrong with the constraint, and the task has failed; no matter how the call is watched and what
  it was to work on, as nobody looks at the token, nothing is read and nothing is reported. -/
  rejected : call.task ∉ t.guards → ∀ e, call.work.defect? = some e →
    (call.perform scene).1 = .error e ∧ (call.perform scene).2.state = scene.state ∧
    (∃ t₁, t.Served t₁ call.task [] .failed (call.perform scene).2.registry) ∧
    ∀ (watch : Watch σ) (work : TaskWork), work.defect? = some e →
      perform ⟨call.task, watch, work⟩ scene = call.perform scene
  /-- Then comes a token that is set before a scan starts. -/
  canceled : call.task ∉ t.guards → ∀ s settings c type, call.work = .scan s settings c type →
    call.work.defect? = none → (call.watch.cancelled scene.state).1 = true →
    (call.perform scene).1 = .ok .canceled ∧ ∃ t₁, t.Served t₁ call.task [] .canceled (call.perform scene).2.registry
  /-- Whatever else happens, the state of the outcome is that of the task. -/
  finished : call.task ∉ t.guards → call.work.defect? = none →
    ∃ state t₁ others, (call.perform scene).1 = .ok state ∧
      t.Served t₁ call.task others state (call.perform scene).2.registry ∧ (call.watch.Quiet → others = [])
  not_running : call.task ∉ t.guards → (call.perform scene).2.registry.state call.task ≠ .running

theorem perform_givesBack (ht : t.Consistent) (hscene : t.registry = scene.registry)
    (hwatch : call.watch.Respects [call.task]) : call.GivesBack t scene := by
  obtain ⟨htask, hconflict⟩ | ⟨htask, r, hbegin⟩ := begin_cases ht hscene call
  · exact ⟨fun _ => perform_of_begin_eq_error hconflict, absurd htask, absurd htask, absurd htask, absurd htask⟩
  · have hbegin' := hbegin
    rw [← hscene] at hbegin'
    refine ⟨fun h => absurd h htask, ?_, ?_, ?_, ?_⟩
    · intro _ e he
      rw [perform_of_defect hbegin he]
      refine ⟨rfl, rfl, ⟨_, .alone ht hbegin' rfl⟩, ?_⟩
      intro watch work hwork
      exact @perform_of_defect σ ⟨call.task, watch, work⟩ scene r hbegin e hwork
    · intro _ s settings c type hwork hdefect hcancelled
      rw [perform_of_cancelled hbegin hwork hdefect hcancelled]
      exact ⟨rfl, _, .alone ht hbegin' rfl⟩
    · intro _ hdefect
      obtain ⟨state, last, hstate, hleads, hperform⟩ := perform_of_no_defect hbegin hdefect
      rw [hperform]
      obtain ⟨t₁, others, hserved, _, hquiet⟩ := hleads.served hwatch ht (by simp) hbegin' hstate
      exact ⟨state, t₁, others, rfl, hserved, hquiet⟩
    · intro _
      obtain ⟨state, last, hstate, hleads, hafter⟩ := perform_of_begin_eq_ok hbegin
      obtain ⟨t₁, others, hserved, _⟩ := hleads.served hwatch ht (by simp) hbegin' hstate
      rw [hafter]
      exact hserved.state_ne_running

/-- Of the calls of any sequence, each one gives its task back; so if their reports begin nothing that they do not end,
in the end those tasks run for which guards were held in the beginning. -/
theorem performAll_gives_back {history : Nat} {events : List TaskEvent}
    (h : (TaskTable.start history).run events = some t) (hscene : t.registry = scene.registry)
    (hcalls : ∀ call ∈ calls, call.watch.Respects [call.task]) :
    (∀ before call after, calls = before ++ call :: after →
      ∃ earlier t₁, t.run earlier = some t₁ ∧ t₁.registry = (performAll before scene).registry ∧
        call.GivesBack t₁ (performAll before scene)) ∧
    ((∀ call ∈ calls, call.watch.Balanced) →
      ∀ task, (performAll calls scene).registry.state task = .running ↔ task ∈ t.guards) := by
  have ht := (TaskTable.Consistent.start history).run h
  constructor
  · rintro before call after rfl
    have hbefore : ∀ call ∈ before, call.watch.Respects [call.task] := fun call hmem =>
      hcalls call (List.mem_append_left _ hmem)
    obtain ⟨earlier, t₁, _, hrun, hscene₁⟩ := performAll_meanwhile ht (by simp) hscene hbefore
    exact ⟨earlier, t₁, hrun, hscene₁, perform_givesBack (ht.run hrun) hscene₁ (hcalls call (by simp))⟩
  · intro hbalanced task
    constructor
    · exact performAll_mem_guards ht hscene hbalanced
    · intro htask
      -- whoever holds a guard keeps it
      have hheld : ∀ other ∈ [task], other ∈ t.guards := by simpa
      obtain ⟨later, t', hlater, hrun, hafter⟩ :=
        performAll_meanwhile ht hheld hscene fun call hcall => (hbalanced call hcall).respects _
      have hguard := TaskTable.mem_guards_run hrun (fun event hevent => hlater event hevent task (by simp)) htask
      rwa [← hafter, (ht.run hrun).state_eq_running_iff]

/-- A running task refuses the first call, an incomplete constraint the second one, and the third one is canceled.  The
report of the last one collects under its own name, which is refused, and under another one. -/
theorem performAll_gives_back_nested :
    let s := Snapshot.ofRanges "start" [(⟨0x1000⟩, 4)]
    let collect (task : String) (watch : Watch Unit) : TaskCall Unit :=
      ⟨task, watch, .collect s {} fun _ => Memory.empty.read⟩
    let scan (task : String) (watch : Watch Unit) (c : Constraint) : TaskCall Unit :=
      ⟨task, watch, .scan s {} c ⟨.number (.unsigned .one), .little⟩⟩
    let stopped : Watch Unit := ⟨fun _ => (true, ()), fun _ scene => .ok scene⟩
    let nested : Watch Unit := ⟨fun _ => (false, ()), fun _ scene =>
      .ok (performAll [collect "last" .unattended, collect "inner" .unattended] scene)⟩
    let incomplete := scan "second" stopped (.operation .and none none)
    let canceled := scan "third" stopped (.leaf .changed none)
    let calls := [collect "long" stopped, incomplete, canceled, collect "last" nested]
    ∃ t, (TaskTable.start 2).run [.begin "long"] = some t ∧
      let scene : Scene Unit := ⟨t.registry, ()⟩
      let after (count : Nat) := performAll (calls.take count) scene
      (∀ call ∈ calls, call.watch.Respects [call.task]) ∧
      ((collect "long" stopped).perform scene).1 = .error (.taskConflict "long") ∧
      (incomplete.perform (after 1)).1 = .error (.malformedConstraint (.missingOperand .and .left)) ∧
      (canceled.perform (after 2)).1 = .ok .canceled ∧ (after 3).registry.state "third" = .canceled ∧
      (after 4).registry.finished = ["inner", "last"] ∧
      ∀ task, (after 4).registry.state task = .running ↔ task = "long" := by
  intro s collect scan stopped nested incomplete canceled calls
  have hquiet : ∀ watch ∈ [stopped, .unattended], watch.Quiet := by
    intro watch hwatch percent scene
    obtain rfl | rfl : watch = stopped ∨ watch = .unattended := by simpa using hwatch
    · rfl
    · rfl
  have hnested : nested.Balanced := by
    refine balanced_of_performAll fun _ scene => ⟨_, ?_, rfl⟩
    simpa [collect] using (hquiet .unattended (by simp)).balanced
  have hbalanced : ∀ call ∈ calls, call.watch.Balanced := by
    have hstopped := (hquiet stopped (by simp)).balanced
    simp [calls, incomplete, canceled, collect, scan, hstopped, hnested]
  have hcalls : ∀ call ∈ calls, call.watch.Respects [call.task] := fun call hcall => (hbalanced call hcall).respects _
  have hrun : (TaskTable.start 2).run [.begin "long"] = some ⟨⟨2, [("long", .running)], []⟩, ["long"]⟩ := rfl
  have ht := (TaskTable.Consistent.start 2).run hrun
  refine ⟨_, hrun, ?_⟩
  intro scene after
  have hscene : TaskRegistry.mk 2 [("long", .running)] [] = scene.registry := rfl
  obtain ⟨hgives, hrunning⟩ := performAll_gives_back hrun hscene hcalls
  obtain ⟨_, t₁, hrun₁, hscene₁, hfirst⟩ := hgives [] _ _ rfl
  obtain ⟨_, t₂, hrun₂, hscene₂, hsecond⟩ := hgives [_] _ _ rfl
  obtain ⟨_, t₃, hrun₃, hscene₃, hthird⟩ := hgives [_, _] _ _ rfl
  have hlong : "long" ∈ t₁.guards := by
    rw [← (ht.run hrun₁).state_eq_running_iff, hscene₁]
    decide
  have hsecond' : "second" ∉ t₂.guards := by
    rw [← (ht.run hrun₂).state_eq_running_iff, hscene₂]
    decide +kernel
  have hthird' : "third" ∉ t₃.guards := by
    rw [← (ht.run hrun₃).state_eq_running_iff, hscene₃]
    decide +kernel
  refine ⟨hcalls, ?_, ?_, ?_, ?_, ?_, ?_⟩
  · exact congrArg Prod.fst (hfirst.conflict hlong)
  · exact (hsecond.rejected hsecond' _ rfl).1
  · exact (hthird.canceled hthird' _ _ _ _ rfl rfl rfl).1
  · decide +kernel
  · decide +kernel
  · exact fun task => (hrunning hbalanced task).trans List.mem_singleton

end TaskCall
end Memsift
