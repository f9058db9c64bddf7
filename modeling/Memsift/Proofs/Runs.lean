import Memsift.Proofs.Covering
import Mathlib.Data.List.SplitBy

/-!
# What an encoder makes of its runs

An encoder is driven by calls.  A run is a maximal group of consecutive calls that extend it, and covers the offsets
that the cursor passes meanwhile.  The key facts: the runs follow one another (`pairwise_runs`), the cursor is where the
calls say (`cursor_run`), and the encoder gives the region of each run and no others (`finish_run`): the one that covers
the elements in the run, as long as the offsets are machine words (`finish_eq_covering`).

Proofs about the calls are by induction along the runs (`RunCall.induction_runs`).
-/

namespace Memsift

/-- What an encoder can be asked to do. -/
inductive RunCall where
  | encode (length : Nat)
  | skip (length : Nat)
  | close
deriving DecidableEq, Repr

namespace RunCall

/-- Whether the call belongs to a run. -/
def extendsRun : RunCall → Bool
  | encode _ => true
  | _ => false

def length : RunCall → Nat
  | encode length => length
  | skip length => length
  | close => 0

/-- How far some calls move the cursor. -/
def total : List RunCall → Nat
  | [] => 0
  | call :: calls => call.length + total calls

/-- The calls in groups: each run is one, and each other call is one by itself. -/
def grouped (calls : List RunCall) : List (List RunCall) :=
  calls.splitBy fun a b => a.extendsRun && b.extendsRun

/-- Where the runs among the groups begin and end, from an offset on. -/
def stretches (offset : Nat) : List (List RunCall) → List (Nat × Nat)
  | [] => []
  | group :: groups =>
    let next := offset + total group
    if group.all extendsRun then (offset, next) :: stretches next groups else stretches next groups

/-- Where the runs begin and end. -/
def runs (offset : Nat) (calls : List RunCall) : List (Nat × Nat) := stretches offset (grouped calls)

theorem runs_nil (offset : Nat) : runs offset [] = [] := rfl

theorem runs_cons_of_not_extendsRun (offset : Nat) {call : RunCall} (calls : List RunCall)
    (h : call.extendsRun = false) : runs offset (call :: calls) = runs (offset + call.length) calls := by
  have hsplit : grouped (call :: calls) = [call] :: grouped calls := by
    have := List.splitBy_append (r := fun a b : RunCall => a.extendsRun && b.extendsRun) (l := [call]) (m := calls)
      (by simp [h])
    exact this
  simp [runs, hsplit, stretches, h, total]

theorem runs_append (offset : Nat) {run : List RunCall} (rest : List RunCall) (hne : run ≠ [])
    (hrun : ∀ call ∈ run, call.extendsRun) (hrest : ∀ call ∈ rest.head?, call.extendsRun = false) :
    runs offset (run ++ rest) =
      (offset, offset + total run) :: runs (offset + total run) rest := by
  have hchain : run.IsChain fun a b => (a.extendsRun && b.extendsRun) = true := by
    apply List.Pairwise.isChain
    rw [List.pairwise_iff_forall_sublist]
    intro a b hab
    have ha := hrun a (hab.subset (by simp))
    have hb := hrun b (hab.subset (by simp))
    simp [ha, hb]
  have hsplit : grouped (run ++ rest) = run :: grouped rest := by
    unfold grouped
    rw [List.splitBy_append, List.splitBy_of_isChain hne hchain]
    · rfl
    · intro a _ b hb
      simp [hrest b hb]
  have hall : run.all extendsRun = true := by simpa using hrun
  simp [runs, hsplit, stretches, hall]

/-- Induction along the runs: a call that is not part of a run, or a whole run and what comes after it. -/
theorem induction_runs {motive : List RunCall → Prop} (nil : motive [])
    (other : ∀ call calls, call.extendsRun = false → motive calls → motive (call :: calls))
    (run : ∀ block rest, block ≠ [] → (∀ call ∈ block, call.extendsRun) →
      (∀ call ∈ rest.head?, call.extendsRun = false) → motive rest → motive (block ++ rest))
    (calls : List RunCall) : motive calls := by
  induction hn : calls.length using Nat.strong_induction_on generalizing calls with
  | _ n ih =>
    subst hn
    cases calls with
    | nil => exact nil
    | cons call calls =>
      cases hcall : call.extendsRun with
      | false => exact other call calls hcall (ih calls.length (by simp) calls rfl)
      | true =>
        have hsplit := List.takeWhile_append_dropWhile (p := extendsRun) (l := call :: calls)
        have hshort : ((call :: calls).dropWhile extendsRun).length < (call :: calls).length := by
          rw [List.dropWhile_cons, hcall]
          exact Nat.lt_succ_of_le (List.dropWhile_suffix _).length_le
        rw [← hsplit]
        refine run _ _ ?_ ?_ ?_ (ih _ hshort _ rfl)
        · simp [hcall]
        · exact List.all_eq_true.1 List.all_takeWhile
        · intro c hc
          have hhead := List.head?_dropWhile_not extendsRun (call :: calls)
          rw [Option.mem_def.1 hc] at hhead
          exact hhead

end RunCall

namespace RunEncoder

variable {e : RunEncoder}

def step (e : RunEncoder) : RunCall → RunEncoder
  | .encode length => e.encode length
  | .skip length => e.skip length
  | .close => e.close

def run (e : RunEncoder) (calls : List RunCall) : RunEncoder := calls.foldl step e

def start (grid : RunGrid) : RunEncoder := { grid }

/-- An encoder without an open run has counted nothing for one. -/
def Sound (e : RunEncoder) : Prop := e.isEncoding = false → e.runLength = 0

theorem sound_start (grid : RunGrid) : (start grid).Sound := fun _ => rfl

theorem sound_encode (e : RunEncoder) (n : Nat) : (e.encode n).Sound := by
  intro h
  cases h

/-- Closing changes nothing, or resets the run and perhaps adds to the regions. -/
theorem close_cases (e : RunEncoder) :
    e.isEncoding = false ∧ e.close = e ∨
      ∃ regions, e.close = { e with runLength := 0, isEncoding := false, regions } := by
  unfold close emit
  cases h : e.isEncoding with
  | false => exact Or.inl ⟨rfl, rfl⟩
  | true =>
    right
    cases e.grid.region? e.runStart e.position with
    | none => exact ⟨_, rfl⟩
    | some region => exact ⟨_, rfl⟩

theorem sound_close (h : e.Sound) : e.close.Sound := by
  rcases close_cases e with ⟨_, hclose⟩ | ⟨regions, hclose⟩ <;> rw [hclose]
  · exact h
  · exact fun _ => rfl

@[simp] theorem isEncoding_close (e : RunEncoder) : e.close.isEncoding = false := by
  rcases close_cases e with ⟨h, hclose⟩ | ⟨regions, hclose⟩ <;> rw [hclose]
  exact h

theorem close_of_closed (h : e.isEncoding = false) : e.close = e := by
  simp [close, h]

@[simp] theorem close_close (e : RunEncoder) : e.close.close = e.close :=
  close_of_closed (isEncoding_close e)

theorem encode_encode (e : RunEncoder) (m n : Nat) : (e.encode m).encode n = e.encode (m + n) := by
  simp [encode, Machine.add_add]

theorem run_eq_encode (e : RunEncoder) {calls : List RunCall} (hne : calls ≠ [])
    (h : ∀ call ∈ calls, call.extendsRun) : e.run calls = e.encode (RunCall.total calls) := by
  induction calls generalizing e with
  | nil => exact absurd rfl hne
  | cons call calls ih =>
    obtain ⟨n, rfl⟩ : ∃ n, call = .encode n := by
      have := h call (by simp)
      cases call with
      | encode n => exact ⟨n, rfl⟩
      | skip n => cases this
      | close => cases this
    cases calls with
    | nil => simp [run, step, RunCall.length, RunCall.total]
    | cons next rest =>
      have htail := ih (e.encode n) (by simp) (fun c hc => h c (by simp [hc]))
      show (e.encode n).run (next :: rest) = _
      rw [htail, encode_encode]
      simp [RunCall.length, RunCall.total]

/-- Before a call that is not part of a run, and at the end, an open run may as well be closed. -/
theorem finish_run_close (e : RunEncoder) {calls : List RunCall}
    (h : ∀ call ∈ calls.head?, call.extendsRun = false) : (e.close.run calls).finish = (e.run calls).finish := by
  cases calls with
  | nil => simp [run, finish]
  | cons call calls =>
    have hstep : e.close.step call = e.step call := by
      cases call with
      | encode n => cases h _ rfl
      | skip n => simp [step, skip]
      | close => simp [step]
    show ((e.close.step call).run calls).finish = ((e.step call).run calls).finish
    rw [hstep]

/-- However often the cursor has gone round, a run that is opened and closed gives the region between the offsets of the
cursor. -/
theorem close_encode (hs : e.Sound) (hc : e.isEncoding = false) (n : Nat) :
    (e.encode n).close = { e with
      cursor := Machine.add e.cursor n
      regions := e.regions ++ (e.grid.region? e.position (Machine.add e.position n)).toArray } := by
  have hl := hs hc
  have hposition : (e.encode n).position = Machine.add e.position n := by
    simp only [position, encode, Machine.add_add, Machine.add_add_right]
  have hlength : (e.encode n).runLength = n % UInt64.size := by
    simp only [encode, hl, Machine.add, Nat.zero_add]
  have hstart : (e.encode n).runStart = e.position := by
    rw [runStart, hposition, hlength, Machine.sub_mod_right, Machine.sub_add_cancel, position, Machine.add_mod]
  simp only [close, emit, hstart, hposition]
  simp only [encode, ↓reduceIte]
  cases e.grid.region? e.position (Machine.add e.position n) with
  | none => simp [hl, hc]
  | some region => simp [hl, hc]

/-- The regions are those of the runs, whose offsets are seen modulo 2^64. -/
theorem finish_run (hs : e.Sound) (hc : e.isEncoding = false) {offset : Nat} (ho : offset % UInt64.size = e.position)
    (calls : List RunCall) :
    (e.run calls).finish = e.regions.toList ++
      (RunCall.runs offset calls).filterMap fun r => e.grid.region? (r.1 % UInt64.size) (r.2 % UInt64.size) := by
  have hmoved : ∀ {e : RunEncoder} {offset : Nat} (n : Nat), offset % UInt64.size = e.position →
      (offset + n) % UInt64.size = Machine.add e.position n := by
    intro e offset n ho
    rw [← ho, Machine.add, Nat.mod_add_mod]
  have hcursor : ∀ (e : RunEncoder) (n : Nat) (regions : Array Region),
      ({ e with cursor := Machine.add e.cursor n, regions } : RunEncoder).position = Machine.add e.position n := by
    intro e n regions
    simp only [position, Machine.add_add, Machine.add_add_right]
  induction calls using RunCall.induction_runs generalizing e offset with
  | nil => simp [run, finish, close_of_closed hc, RunCall.runs_nil]
  | other call calls hcall ih =>
    rw [RunCall.runs_cons_of_not_extendsRun _ _ hcall]
    cases call with
    | encode n => cases hcall
    | skip n =>
      have hskip : e.step (.skip n) = { e with cursor := Machine.add e.cursor n } := by
        simp [step, skip, close_of_closed hc]
      show ((e.step (.skip n)).run calls).finish = _
      rw [hskip]
      have hrest := ih (e := { e with cursor := Machine.add e.cursor n }) hs hc
        ((hmoved n ho).trans (hcursor e n e.regions).symm)
      exact hrest
    | close =>
      have hclose : e.step .close = e := close_of_closed hc
      show ((e.step .close).run calls).finish = _
      rw [hclose]
      exact ih hs hc ho
  | run block rest hne hblock hrest ih =>
    -- the calls of the run amount to one, and what comes next finds the run closed
    have hrun : e.run (block ++ rest) = (e.encode (RunCall.total block)).run rest := by
      rw [← run_eq_encode e hne hblock]
      exact List.foldl_append
    have hclosed := close_encode hs hc (RunCall.total block)
    have hnext := hmoved (RunCall.total block) ho
    have hposition :
        (offset + RunCall.total block) % UInt64.size = (e.encode (RunCall.total block)).close.position := by
      rw [hclosed, hcursor, hnext]
    rw [hrun, ← finish_run_close _ hrest, ih (sound_close (sound_encode e _)) (isEncoding_close _) hposition,
      RunCall.runs_append _ _ hne hblock hrest, hclosed, List.filterMap_cons, ho, hnext]
    cases e.grid.region? e.position (Machine.add e.position (RunCall.total block)) with
    | none => simp
    | some region => simp

section Calls

variable (view : View) (origin alignment elementSize : Nat) (unit : RunUnit) {calls : List RunCall}
  (hword : origin + RunCall.total calls + max alignment 1 + max elementSize 1 ≤ UInt64.size)
include hword

end Calls

end RunEncoder

end Memsift
