import Memsift.Pass

/-!
# What a pass sees of its token

A watch can write down what the token answers.  That changes nothing else (`runPass_recorded`), and what a pass makes
of its items can be read off the answers: the items before which the token was set are skipped, and all others are
worked on.
-/

namespace Memsift

variable {σ α β : Type}

/-- The surroundings together with the answers of the token so far. -/
def Scene.recorded (scene : Scene σ) (answers : List Bool) : Scene (σ × List Bool) :=
  ⟨scene.registry, (scene.state, answers)⟩

/-- The same watch, but the answers of the token are written down. -/
def Watch.recorded (watch : Watch σ) : Watch (σ × List Bool) where
  cancelled record :=
    let (answer, state) := watch.cancelled record.1
    (answer, (state, record.2 ++ [answer]))
  report percent scene :=
    match watch.report percent ⟨scene.registry, scene.state.1⟩ with
    | .ok after => .ok (after.recorded scene.state.2)
    | .error after => .error (after.recorded scene.state.2)

/-- From the surroundings in `fine` on, every report is taken, and the surroundings stay in `fine`. -/
structure Watch.Steady (watch : Watch σ) (fine : Scene σ → Prop) : Prop where
  cancelled : ∀ scene, fine scene → fine { scene with state := (watch.cancelled scene.state).2 }
  report : ∀ percent scene, fine scene → ∃ scene', watch.report percent scene = .ok scene' ∧ fine scene'

/-- What comes of the items if the token answers so before each of them. -/
def attempts (work : α → β) (items : List α) (answers : List Bool) : List (Option β) :=
  items.zipWith (fun item answer => if answer then none else some (work item)) answers

section Attempts

variable {work : α → β} {items : List α} {answers : List Bool}

theorem attempts_of_not_mem (hlength : answers.length = items.length) (h : true ∉ answers) :
    attempts work items answers = items.map fun item => some (work item) := by
  induction items generalizing answers with
  | nil => rfl
  | cons item items ih =>
    obtain _ | ⟨answer, answers⟩ := answers
    · cases hlength
    · rw [List.mem_cons, not_or] at h
      have hanswer : answer = false := by simpa using h.1
      have hrest := ih (Nat.succ.inj hlength) h.2
      unfold attempts at hrest ⊢
      rw [List.zipWith_cons_cons, List.map_cons, hrest, hanswer]
      rfl

theorem any_isNone_attempts (work : α → β) (hlength : answers.length = items.length) :
    (attempts work items answers).any (·.isNone) = true ↔ true ∈ answers := by
  induction items generalizing answers with
  | nil =>
    obtain rfl := List.eq_nil_of_length_eq_zero hlength
    simp [attempts]
  | cons item items ih =>
    obtain _ | ⟨answer, answers⟩ := answers
    · cases hlength
    · have hrest := ih (Nat.succ.inj hlength)
      unfold attempts at hrest ⊢
      rw [List.zipWith_cons_cons, List.any_cons, Bool.or_eq_true, hrest, List.mem_cons]
      cases answer <;> simp

theorem getElem?_attempts {i : Nat} :
    (attempts work items answers)[i]? = items[i]?.bind fun item => answers[i]?.map fun answer =>
      if answer then none else some (work item) := by
  rw [attempts, List.getElem?_zipWith]
  cases items[i]? <;> cases answers[i]? <;> rfl

end Attempts

variable {watch : Watch σ} {fine : Scene σ → Prop}

/-- What becomes of the first item of a pass, with or without a record of the answers. -/
theorem runPass_cons_of_steady (hwatch : watch.Steady fine) (interval total : Nat) (work : α → β) (item : α)
    (items : List α) (done : Nat) {scene : Scene σ} (hscene : fine scene) (before : List Bool) :
    ∃ answer done' scene', fine scene' ∧
      let rest := runPass watch interval total work items done' scene'
      let rest' := runPass watch.recorded interval total work items done' (scene'.recorded (before ++ [answer]))
      let result := if answer then none else some (work item)
      runPass watch interval total work (item :: items) done scene = { rest with results := result :: rest.results } ∧
        runPass watch.recorded interval total work (item :: items) done (scene.recorded before) =
          { rest' with results := result :: rest'.results } := by
  have hlooked := hwatch.cancelled scene hscene
  rcases hcancelled : watch.cancelled scene.state with ⟨answer, state⟩
  have hrecorded : watch.recorded.cancelled (scene.recorded before).state =
      (answer, (state, before ++ [answer])) := by
    simp only [Watch.recorded, Scene.recorded, hcancelled]
  rw [hcancelled] at hlooked
  rw [runPass, runPass, hcancelled, hrecorded]
  cases answer with
  | true => exact ⟨true, done, { scene with state }, hlooked, rfl, rfl⟩
  | false =>
    obtain ⟨scene', hreport, hscene'⟩ := hwatch.report (percent (done + 1) total) _ hlooked
    have hreport' : watch.recorded.report (percent (done + 1) total)
        { registry := (scene.recorded before).registry, state := (state, before ++ [false]) } =
          .ok (scene'.recorded (before ++ [false])) := by
      simp only [Watch.recorded, Scene.recorded, hreport]
    simp only [hreport, hreport']
    -- a report may be due or not
    split
    · exact ⟨false, done + 1, scene', hscene', rfl, rfl⟩
    · exact ⟨false, done + 1, { scene with state }, hlooked, rfl, rfl⟩

theorem runPass_recorded (hwatch : watch.Steady fine) (interval total : Nat) (work : α → β) (items : List α)
    (done : Nat) {scene : Scene σ} (hscene : fine scene) (before : List Bool) :
    ∃ answers : List Bool, answers.length = items.length ∧
      let log := runPass watch interval total work items done scene
      log.results = attempts work items answers ∧ log.wentThrough = true ∧ fine log.scene ∧
        runPass watch.recorded interval total work items done (scene.recorded before) =
          ⟨log.results, true, log.scene.recorded (before ++ answers)⟩ := by
  induction items generalizing done scene before with
  | nil => exact ⟨[], rfl, rfl, rfl, hscene, by rw [List.append_nil]; rfl⟩
  | cons item items ih =>
    obtain ⟨answer, done', scene', hscene', hrun, hrun'⟩ :=
      runPass_cons_of_steady hwatch interval total work item items done hscene before
    obtain ⟨answers, hlength, hresults, hthrough, hfine, hrest⟩ := ih done' hscene' (before ++ [answer])
    refine ⟨answer :: answers, congrArg Nat.succ hlength, ?_⟩
    rw [hrun, hrun', hrest, ← List.append_cons]
    exact ⟨congrArg _ hresults, hthrough, hfine, rfl⟩

end Memsift
