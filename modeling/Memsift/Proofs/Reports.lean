import Memsift.Pass
import Memsift.Proofs.TaskTable

/-!
# What reports do to the tasks

A pass leaves its surroundings to its token and to its reports.  The key facts: a pass only looks at the token and
reports, any number of times (`leads_runPass`); and as a report cannot get at guards that others hold, what all reports
of a pass do to the registry are events that end no task of others (`Leads.meanwhile`).
-/

namespace Memsift

variable {σ α β : Type}

namespace TaskTable

variable {t t' : TaskTable} {held : List String} {r r' : TaskRegistry} {task : String}

/-- Some events that end none of the tasks in `held` make this registry of that of the table. -/
def Meanwhile (t : TaskTable) (held : List String) (r : TaskRegistry) : Prop :=
  ∃ events t', (∀ event ∈ events, ∀ task ∈ held, ¬ event.Ends task) ∧ t.run events = some t' ∧ t'.registry = r

theorem Meanwhile.refl (t : TaskTable) (held : List String) : t.Meanwhile held t.registry :=
  ⟨[], t, by simp, rfl, rfl⟩

theorem mem_guards_run {events : List TaskEvent} (h : t.run events = some t')
    (hevents : ∀ event ∈ events, ¬ event.Ends task) (htask : task ∈ t.guards) : task ∈ t'.guards := by
  induction events using List.reverseRecOn generalizing t' with
  | nil =>
    obtain rfl := Option.some.inj h
    exact htask
  | append_singleton events event ih =>
    obtain ⟨t₁, hrun, hnext⟩ := run_concat_eq_some_iff.1 h
    have hbefore := ih hrun fun event hmem => hevents event (List.mem_append_left _ hmem)
    exact mem_guards_next hnext (hevents event (by simp)) hbefore

/-- What goes on after something else went on goes on as well. -/
theorem Meanwhile.trans (ht : t.Consistent) (hheld : ∀ task ∈ held, task ∈ t.guards) (h : t.Meanwhile held r)
    (hnext : ∀ t' : TaskTable, t'.Consistent → (∀ task ∈ held, task ∈ t'.guards) → t'.registry = r →
      t'.Meanwhile held r') : t.Meanwhile held r' := by
  obtain ⟨events, t', hevents, hrun, hr⟩ := h
  have hheld' : ∀ task ∈ held, task ∈ t'.guards := fun task htask =>
    mem_guards_run hrun (fun event hevent => hevents event hevent task htask) (hheld task htask)
  obtain ⟨events', t'', hevents', hrun', hr'⟩ := hnext t' (ht.run hrun) hheld' hr
  refine ⟨events ++ events', t'', ?_, by rw [run_append, hrun]; exact hrun', hr'⟩
  intro event hevent
  obtain hevent | hevent := List.mem_append.1 hevent
  · exact hevents event hevent
  · exact hevents' event hevent

end TaskTable

namespace Watch

variable {watch : Watch σ} {scene scene' scene₀ : Scene σ} {t : TaskTable} {held : List String}

/-- The surroundings after a report, whether or not it breaks the pass off. -/
def reported (watch : Watch σ) (percent : Percent) (scene : Scene σ) : Scene σ :=
  match watch.report percent scene with
  | .ok after => after
  | .error after => after

/-- The surroundings to which looking at the token and reporting lead, in any order and number. -/
inductive Leads (watch : Watch σ) (scene : Scene σ) : Scene σ → Prop where
  | refl : Leads watch scene scene
  | look {scene' : Scene σ} (h : Leads watch scene scene') :
    Leads watch scene { scene' with state := (watch.cancelled scene'.state).2 }
  | report {scene' : Scene σ} (h : Leads watch scene scene') (percent : Percent) :
    Leads watch scene (watch.reported percent scene')

theorem Leads.trans (h : watch.Leads scene₀ scene) (h' : watch.Leads scene scene') : watch.Leads scene₀ scene' := by
  induction h' with
  | refl => exact h
  | look _ ih => exact ih.look
  | report _ percent ih => exact ih.report percent

theorem leads_runPass (interval total : Nat) (work : α → β) (items : List α) (done : Nat)
    (h : watch.Leads scene₀ scene) : watch.Leads scene₀ (runPass watch interval total work items done scene).scene := by
  induction items generalizing done scene with
  | nil => exact h
  | cons item items ih =>
    have hlook := h.look
    rw [runPass]
    rcases hcancelled : watch.cancelled scene.state with ⟨answer, state⟩
    rw [hcancelled] at hlook
    cases answer with
    | true => exact ih done hlook
    | false =>
      have hreport := hlook.report (percent (done + 1) total)
      unfold reported at hreport
      simp only
      split
      · -- a report is due
        cases hafter : watch.report (percent (done + 1) total) { scene with state } with
        | error after =>
          rw [hafter] at hreport
          exact hreport
        | ok after =>
          rw [hafter] at hreport
          exact ih (done + 1) hreport
      · exact ih (done + 1) hlook

/-- Reports do not get at the guards of the tasks in `held`. -/
def Respects (watch : Watch σ) (held : List String) : Prop :=
  ∀ percent (scene : Scene σ) (t : TaskTable), t.Consistent → (∀ task ∈ held, task ∈ t.guards) →
    t.registry = scene.registry → t.Meanwhile held (watch.reported percent scene).registry

/-- Reports leave the registry alone. -/
def Quiet (watch : Watch σ) : Prop := ∀ percent scene, (watch.reported percent scene).registry = scene.registry

/-- Reports end no task that runs when they are made, and leave no other one running. -/
structure Balanced (watch : Watch σ) : Prop where
  respects : ∀ held, watch.Respects held
  mem_guards : ∀ percent (scene : Scene σ) (t : TaskTable), t.Consistent → t.registry = scene.registry →
    ∀ task, (watch.reported percent scene).registry.state task = .running → task ∈ t.guards

theorem Quiet.respects (hwatch : watch.Quiet) (held : List String) : watch.Respects held := by
  intro percent scene t _ _ hscene
  rw [hwatch percent scene, ← hscene]
  exact .refl t held

theorem Quiet.balanced (hwatch : watch.Quiet) : watch.Balanced := by
  refine ⟨hwatch.respects, ?_⟩
  intro percent scene t ht hscene task hrunning
  rwa [hwatch percent scene, ← hscene, ht.state_eq_running_iff] at hrunning

theorem Leads.registry_eq (h : watch.Leads scene scene') (hwatch : watch.Quiet) :
    scene'.registry = scene.registry := by
  induction h with
  | refl => rfl
  | look _ ih => exact ih
  | report _ percent ih => exact (hwatch percent _).trans ih

theorem Leads.meanwhile (h : watch.Leads scene scene') (hwatch : watch.Respects held) (ht : t.Consistent)
    (hheld : ∀ task ∈ held, task ∈ t.guards) (hscene : t.registry = scene.registry) :
    t.Meanwhile held scene'.registry := by
  induction h with
  | refl =>
    rw [← hscene]
    exact .refl t held
  | look _ ih => exact ih
  | report _ percent ih =>
    exact ih.trans ht hheld fun t' ht' hheld' hr => hwatch percent _ t' ht' hheld' hr

theorem Leads.mem_guards (h : watch.Leads scene scene') (hwatch : watch.Balanced) (ht : t.Consistent)
    (hscene : t.registry = scene.registry) (task : String) (hrunning : scene'.registry.state task = .running) :
    task ∈ t.guards := by
  induction h with
  | refl => rwa [← hscene, ht.state_eq_running_iff] at hrunning
  | look _ ih => exact ih hrunning
  | @report scene' hleads percent ih =>
    obtain ⟨_, t', _, hrun, hr⟩ := hleads.meanwhile (hwatch.respects []) ht (by simp) hscene
    have ht' := ht.run hrun
    apply ih
    rw [← hr, ht'.state_eq_running_iff]
    exact hwatch.mem_guards percent scene' t' ht' hr task hrunning

end Watch
end Memsift
