import Memsift.Proofs.Recorded
import Memsift.Proofs.TaskStates
import Memsift.Proofs.Undisturbed

/-!
# Cancelled scans

A scan whose token is set at any moment gives all or nothing.  The key facts: a scan gives up exactly when one of the
answers of the token was that it is set, and otherwise gives what scanning all regions gives (`scanWith_recorded`);
and as nobody else can end its task (`Held.byOthers`), the registry records how it ended (`scan_all_or_nothing`).
-/

namespace Memsift

variable {σ : Type}

namespace TaskRegistry

/-- What others make of a registry, who do not hold the guard of a task. -/
inductive ByOthers (task : String) (r : TaskRegistry) : TaskRegistry → Prop where
  | refl : ByOthers task r r
  | begin {r₁ r₂ : TaskRegistry} {other : String} (h : ByOthers task r r₁) (hbegin : r₁.begin other = .ok r₂) :
    ByOthers task r r₂
  | finish {r₁ : TaskRegistry} {other : String} (h : ByOthers task r r₁) (hother : other ≠ task) (state : TaskState) :
    ByOthers task r (r₁.finish other state)

/-- A task runs and is not in the queue, in a registry that remembers so many tasks. -/
structure Held (r : TaskRegistry) (task : String) (history : Nat) : Prop where
  running : r.state task = .running
  not_mem_finished : task ∉ r.finished
  history_eq : r.history = history

variable {r r' : TaskRegistry} {task other : String} {history : Nat}

theorem held_of_begin (h : r.begin task = .ok r') : r'.Held task r.history := by
  have hstate := state_of_begin_eq_ok h task
  rw [if_pos rfl] at hstate
  obtain ⟨_, rfl⟩ := begin_eq_ok_iff.1 h
  exact ⟨hstate, by simp, rfl⟩

namespace Held

theorem begin (h : r.Held task history) (hbegin : r.begin other = .ok r') : r'.Held task history := by
  have hstate := state_of_begin_eq_ok hbegin task
  rw [h.running, ite_self] at hstate
  obtain ⟨_, rfl⟩ := begin_eq_ok_iff.1 hbegin
  exact ⟨hstate, fun hmem => h.not_mem_finished (List.mem_of_mem_filter hmem), h.history_eq⟩

theorem finish (h : r.Held task history) (hother : other ≠ task) (state : TaskState) :
    (r.finish other state).Held task history := by
  have hqueue : task ∉ r.finished ++ [other] := by
    rw [List.mem_append, List.mem_singleton]
    rintro (hmem | rfl)
    · exact h.not_mem_finished hmem
    · exact hother rfl
  refine ⟨?_, ?_, h.history_eq⟩
  · have hkept : task ∉ r.evicted other := fun hmem => hqueue (List.mem_of_mem_take hmem)
    rw [r.state_finish, if_neg hkept, if_neg hother.symm, h.running]
  · rw [finished_finish]
    exact fun hmem => hqueue (List.mem_of_mem_drop hmem)

theorem byOthers (h : r.Held task history) (hothers : r.ByOthers task r') : r'.Held task history := by
  induction hothers with
  | refl => exact h
  | begin _ hbegin ih => exact ih.begin hbegin
  | finish _ hother state ih => exact ih.finish hother state

theorem state_finish (h : r.Held task history) (hhistory : 0 < history) (state : TaskState) :
    (r.finish task state).state task = state := by
  rw [← h.history_eq] at hhistory
  exact state_finish_self h.not_mem_finished hhistory state

end Held
end TaskRegistry

/-- While a task runs, every report is taken, and does with the registry only what can be done without the guard of
that task.  What is known of the surroundings meanwhile is in `fine`. -/
structure Watch.Orderly (watch : Watch σ) (task : String) (fine : Scene σ → Prop) : Prop where
  cancelled : ∀ scene, fine scene → fine { scene with state := (watch.cancelled scene.state).2 }
  report : ∀ percent scene, fine scene → scene.registry.state task = .running → ∃ scene',
    watch.report percent scene = .ok scene' ∧ scene.registry.ByOthers task scene'.registry ∧ fine scene'

variable {watch : Watch σ} {task : String} {fine : Scene σ → Prop}

theorem Watch.Orderly.steady (hwatch : watch.Orderly task fine) (history : Nat) :
    watch.Steady fun scene => scene.registry.Held task history ∧ fine scene := by
  constructor
  · rintro scene ⟨hheld, hfine⟩
    exact ⟨hheld, hwatch.cancelled scene hfine⟩
  · rintro percent scene ⟨hheld, hfine⟩
    obtain ⟨scene', hreport, hothers, hfine'⟩ := hwatch.report percent scene hfine hheld.running
    exact ⟨scene', hreport, hheld.byOthers hothers, hfine'⟩

namespace Snapshot

variable {steady : Scene σ → Prop} {c : Constraint} {type : DataType} {p : Predicate}

theorem length_bySize (s : Snapshot) : (s.bySize.map (·.1)).length = s.regions.length := by
  rw [List.length_map, bySize, List.length_mergeSort, List.length_zipIdx]

/-- The pass over the regions of a scan, the largest first. -/
def pass (s : Snapshot) (settings : ScanSettings) (watch : Watch σ) (p : Predicate) (scene : Scene σ) :
    PassLog σ (Except Error (List Region)) :=
  let alignment := settings.alignment.resolve p.test.size
  let aligned := s.aligned alignment p.test.size
  let order := aligned.bySize.map (·.1)
  runPass watch (max settings.progressInterval 1) order.length (fun r => aligned.scanRegion r p.test alignment) order 0
    scene

theorem scanWith_eq (s : Snapshot) (settings : ScanSettings) (p : Predicate) (task : String) {scene : Scene σ}
    (h : (s.pass settings watch p scene).wentThrough = true) :
    s.scanWith settings watch p task scene =
      let log := s.pass settings watch p scene
      let found := (s.aligned (settings.alignment.resolve p.test.size) p.test.size).collectMatches
        (log.results.filterMap id)
      (if log.anySkipped then ⟨task, .canceled, none, found.2⟩ else ⟨task, .completed, some found.1, found.2⟩,
        log.scene) := by
  have hscan : s.scanWith settings watch p task scene =
      let log := s.pass settings watch p scene
      let found := (s.aligned (settings.alignment.resolve p.test.size) p.test.size).collectMatches
        (log.results.filterMap id)
      if !log.wentThrough then (⟨task, .failed, none, 0⟩, log.scene)
      else if log.anySkipped then (⟨task, .canceled, none, found.2⟩, log.scene)
      else (⟨task, .completed, some found.1, found.2⟩, log.scene) := rfl
  rw [hscan]
  simp only [h]
  cases (s.pass settings watch p scene).anySkipped <;> rfl

/-- A scan gives up if the token was set before any of its regions, and otherwise finds what is in all of them. -/
theorem scanWith_recorded (s : Snapshot) (settings : ScanSettings) (hwatch : watch.Steady steady) (p : Predicate)
    (task : String) {scene : Scene σ} (hscene : steady scene) (before : List Bool) :
    ∃ checks : List Bool,
      checks.length = (s.aligned (settings.alignment.resolve p.type.size) p.type.size).regions.length ∧
      let scanned := s.scanWith settings watch p task scene
      let found := s.scanAll p (settings.alignment.resolve p.type.size)
      steady scanned.2 ∧
        s.scanWith settings watch.recorded p task (scene.recorded before) =
          (scanned.1, scanned.2.recorded (before ++ checks)) ∧
        (true ∈ checks → scanned.1.task = task ∧ scanned.1.state = .canceled ∧ scanned.1.snapshot = none) ∧
        (true ∉ checks → scanned.1 = ⟨task, .completed, some found.1, found.2⟩) := by
  let aligned := s.aligned (settings.alignment.resolve p.test.size) p.test.size
  let order := aligned.bySize.map (·.1)
  let work := fun r => aligned.scanRegion r p.test (settings.alignment.resolve p.test.size)
  let log := s.pass settings watch p scene
  obtain ⟨checks, hlength, hresults, hthrough, hsteady, hrecorded⟩ :=
    runPass_recorded hwatch (max settings.progressInterval 1) order.length work order 0 hscene before
  have hpass : s.pass settings watch.recorded p (scene.recorded before) =
    ⟨log.results, true, log.scene.recorded (before ++ checks)⟩ := hrecorded
  have hskipped : log.anySkipped = true ↔ true ∈ checks := by
    have hany := any_isNone_attempts work hlength
    rwa [← hresults] at hany
  have hscan := s.scanWith_eq settings p task hthrough
  have hscan' := s.scanWith_eq settings p task (congrArg PassLog.wentThrough hpass)
  rw [hpass] at hscan'
  refine ⟨checks, hlength.trans (length_bySize _), ?_⟩
  simp only [hscan, hscan']
  refine ⟨hsteady, rfl, ?_, ?_⟩
  · intro hset
    rw [if_pos (hskipped.2 hset)]
    exact ⟨rfl, rfl, rfl⟩
  · intro hset
    -- every region has a result, so nothing is dropped from the log
    have hall : log.results = _ := hresults.trans (attempts_of_not_mem hlength hset)
    rw [if_neg (mt hskipped.1 hset)]
    show (⟨task, .completed, some (aligned.collectMatches (log.results.filterMap id)).1,
      (aligned.collectMatches (log.results.filterMap id)).2⟩ : ScanOutcome) = _
    rw [hall, List.filterMap_map, Function.id_comp, List.filterMap_eq_map']
    rfl

theorem scan_eq_of_set (s : Snapshot) (settings : ScanSettings) (hp : Predicate.compile c type = .ok p)
    {scene : Scene σ} {registry : TaskRegistry} {state : σ} (hbegin : scene.registry.begin task = .ok registry)
    (hset : watch.cancelled scene.state = (true, state)) :
    s.scan settings watch c type task scene =
      (.ok ⟨task, .canceled, none, 0⟩, ⟨registry.finish task .canceled, state⟩) := by
  simp only [scan, hbegin, hp, hset]

theorem scan_eq_of_unset (s : Snapshot) (settings : ScanSettings) (hp : Predicate.compile c type = .ok p)
    {scene : Scene σ} {registry : TaskRegistry} {state : σ} (hbegin : scene.registry.begin task = .ok registry)
    (hunset : watch.cancelled scene.state = (false, state)) :
    s.scan settings watch c type task scene =
      let scanned := s.scanWith settings watch p task ⟨registry, state⟩
      (.ok scanned.1, { scanned.2 with registry := scanned.2.registry.finish task scanned.1.state }) := by
  simp only [scan, hbegin, hp, hunset]

/-- A scan whose token is set at any moment is cancelled and gives nothing if an answer of the token was that it is
set, be it at the start or before some region; otherwise it gives what a scan gives whose token is never set.  The
registry records which it was. -/
theorem scan_all_or_nothing (s : Snapshot) (settings : ScanSettings) (hwatch : watch.Orderly task fine)
    (hp : Predicate.compile c type = .ok p) {scene : Scene σ} (htask : scene.registry.state task ≠ .running)
    (hfine : ∀ registry, scene.registry.begin task = .ok registry → fine { scene with registry }) :
    ∃ outcome answers,
      (s.scan settings watch c type task scene).1 = .ok outcome ∧ outcome.task = task ∧
      s.scan settings watch.recorded c type task (scene.recorded []) =
        (.ok outcome, (s.scan settings watch c type task scene).2.recorded answers) ∧
      (answers = [true] ∨ ∃ checks, answers = false :: checks ∧
        checks.length = (s.aligned (settings.alignment.resolve p.type.size) p.type.size).regions.length) ∧
      (outcome.state = .canceled ∧ outcome.snapshot = none ↔ true ∈ answers) ∧
      (true ∉ answers → outcome.state = .completed ∧
        ∀ {τ : Type} (unset : Watch τ) (calm : τ → Prop) (scene' : Scene τ), unset.Calm calm → calm scene'.state →
          scene'.registry.state task ≠ .running → (s.scan settings unset c type task scene').1 = .ok outcome) ∧
      (0 < scene.registry.history →
        (s.scan settings watch c type task scene).2.registry.state task = outcome.state) := by
  obtain ⟨registry, hbegin⟩ := TaskRegistry.exists_begin htask
  have hlooked := hwatch.cancelled _ (hfine registry hbegin)
  rcases hcancelled : watch.cancelled scene.state with ⟨answer, state⟩
  have hrecorded : watch.recorded.cancelled (scene.recorded []).state = (answer, (state, [answer])) := by
    simp only [Watch.recorded, Scene.recorded, hcancelled, List.nil_append]
  have hbegin' : (scene.recorded []).registry.begin task = .ok registry := hbegin
  have hheld := TaskRegistry.held_of_begin hbegin
  simp only [hcancelled] at hlooked
  cases answer with
  | true =>
    -- the token was set at the start
    have hscan := s.scan_eq_of_set settings hp hbegin hcancelled
    have hscan' := s.scan_eq_of_set settings hp hbegin' hrecorded
    refine ⟨⟨task, .canceled, none, 0⟩, [true], ?_⟩
    rw [hscan, hscan']
    exact ⟨rfl, rfl, rfl, .inl rfl, by simp, by simp, fun hpos => hheld.state_finish hpos .canceled⟩
  | false =>
    obtain ⟨checks, hlength, hafter, hchecks, hset, hunset⟩ :=
      s.scanWith_recorded settings (hwatch.steady scene.registry.history) p task ⟨hheld, hlooked⟩ [false]
    have hscan := s.scan_eq_of_unset settings hp hbegin hcancelled
    have hscan' : s.scan settings watch.recorded c type task (scene.recorded []) =
        let scanned := s.scanWith settings watch.recorded p task (Scene.recorded ⟨registry, state⟩ [false])
        (.ok scanned.1, { scanned.2 with registry := scanned.2.registry.finish task scanned.1.state }) :=
      s.scan_eq_of_unset settings hp hbegin' hrecorded
    rw [hchecks] at hscan'
    rcases hscanned : s.scanWith settings watch p task ⟨registry, state⟩ with ⟨outcome, after⟩
    rw [hscanned] at hscan hscan' hafter hset hunset
    have hanswers : true ∈ false :: checks ↔ true ∈ checks := by simp
    refine ⟨outcome, false :: checks, ?_⟩
    rw [hscan, hscan', hanswers]
    by_cases hmem : true ∈ checks
    · obtain ⟨htask', hcanceled, hnone⟩ := hset hmem
      exact ⟨rfl, htask', rfl, .inr ⟨checks, rfl, hlength⟩, ⟨fun _ => hmem, fun _ => ⟨hcanceled, hnone⟩⟩,
        fun hnot => absurd hmem hnot, fun hpos => hafter.1.state_finish hpos outcome.state⟩
    · obtain rfl := hunset hmem
      refine ⟨rfl, rfl, rfl, .inr ⟨checks, rfl, hlength⟩, by simp [hmem], fun _ => ⟨rfl, ?_⟩,
        fun hpos => hafter.1.state_finish hpos .completed⟩
      intro τ unset calm scene' hcalm hscene' htask'
      exact scan_of_calm s settings hcalm hp hscene' htask'

/-- The first report begins another task and sets the token, so two of three regions are skipped. -/
theorem scan_all_or_nothing_set_by_report :
    let watch : Watch Bool :=
      ⟨fun set => (set, set), fun _ scene => .ok ⟨(scene.registry.begin "other").toOption.getD scene.registry, true⟩⟩
    let s := ofRanges "start" [(⟨0x1000⟩, 8), (⟨0x2000⟩, 4), (⟨0x3000⟩, 2)]
    let settings : ScanSettings := { progressInterval := 1 }
    let scene : Scene Bool := ⟨{ history := 1 }, false⟩
    let c : Constraint := .leaf .unchanged none
    let type : DataType := ⟨.number (.unsigned .two), .little⟩
    let scanned := s.scan settings watch c type "scan" scene
    scene.registry.state "scan" ≠ .running ∧ ∃ outcome, scanned.1 = .ok outcome ∧ outcome.state = .canceled ∧
      outcome.snapshot = none ∧ scanned.2.registry.state "scan" = .canceled ∧
      scanned.2.registry.state "other" = .running := by
  intro watch s settings scene c type scanned
  let p : Predicate := ⟨.unsigned .two, .little, true, .leaf .unchanged 0#16⟩
  have hp : Predicate.compile c type = .ok p := rfl
  have htask : scene.registry.state "scan" ≠ .running := by decide
  have hwatch : watch.Orderly "scan" fun _ => True := by
    refine ⟨fun _ _ => trivial, ?_⟩
    intro percent scene _ _
    refine ⟨_, rfl, ?_, trivial⟩
    cases hbegin : scene.registry.begin "other" with
    | ok registry => exact .begin .refl hbegin
    | error e => exact .refl
  obtain ⟨outcome, answers, hscan, _, hrecorded, _, hcanceled, _, hregistry⟩ :=
    scan_all_or_nothing s settings hwatch hp htask fun _ _ => trivial
  -- the regions are as large in this order as they are given
  have horder : (s.aligned (settings.alignment.resolve p.test.size) p.test.size).bySize =
      (s.aligned (settings.alignment.resolve p.test.size) p.test.size).regions.zipIdx := by
    rw [bySize, List.mergeSort_of_pairwise]
    decide
  have hgiven : (s.scan settings watch.recorded c type "scan" (scene.recorded [])).2.state.2 =
      [false, false, true, true] := by
    simp only [scan, hp, scanWith, horder]
    decide +kernel
  have hanswers : answers = [false, false, true, true] := by
    rw [← hgiven, hrecorded]
    rfl
  obtain ⟨hstate, hnone⟩ := hcanceled.2 (by simp [hanswers])
  have hother : scanned.2.registry.state "other" = .running := by
    simp only [scanned, scan, hp, scanWith, horder]
    decide +kernel
  exact ⟨htask, outcome, hscan, hstate, hnone, (hregistry Nat.one_pos).trans hstate, hother⟩

end Snapshot
end Memsift
