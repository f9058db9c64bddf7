import Memsift.ReadGroup
import Mathlib.Data.List.Basic

/-!
# The history of a read group

A read group is changed by calls that set its current values, label its bytes or refresh it from memory.  A reader may
fill the buffer that it is given with anything, and then fail or report any number of bytes.  The key facts: all that a
call can do is listed in `GroupCall.Effect` (`effect_perform`), and a call that is refused does nothing
(`Effect.eq_of_error`); so the place and the length of a group stay (`size_afterAll`), and its previous values are the
current ones from just before the last refresh that succeeded (`previous_afterAll`).
-/

namespace Memsift

/-- A call that changes a read group. -/
inductive GroupCall where
  | setCurrent (values : Array UInt8)
  | withLabels (labels : Array UInt64)
  | refresh (reader : Reader)

namespace GroupCall

/-- The group that a call makes of a group, or what went wrong. -/
def attempt (g : ReadGroup) : GroupCall → Except Error ReadGroup
  | setCurrent values => g.setCurrent values
  | withLabels labels => g.withLabels labels
  | refresh reader => g.refresh reader

/-- What a call answers, and the group that it leaves. -/
def perform (g : ReadGroup) : GroupCall → ReadGroup.Answer
  | setCurrent values => g.overwrite values
  | withLabels labels => g.attach labels
  | refresh reader => g.reread reader

theorem attempt_eq_made (g : ReadGroup) (call : GroupCall) : call.attempt g = (call.perform g).made := by
  cases call <;> rfl

/-- What a call answers and the group it leaves: without success the group stays. -/
inductive Effect (g : ReadGroup) : GroupCall → Except Error Unit → ReadGroup → Prop where
  | set {values : Array UInt8} {g' : ReadGroup} (size : values.size = g.size) (base : g'.base = g.base)
      (current : g'.current = values) (previous : g'.previous = g.previous) (labels : g'.labels = g.labels) :
      Effect g (setCurrent values) (.ok ()) g'
  | labelled {ls : Array UInt64} {g' : ReadGroup} (size : ls.size = g.size) (base : g'.base = g.base)
      (current : g'.current = g.current) (previous : g'.previous = g.previous) (labels : g'.labels = some ls) :
      Effect g (withLabels ls) (.ok ()) g'
  | refreshed {reader : Reader} {g' : ReadGroup} {buffer : Vector UInt8 g.size}
      (read : reader g.base (Vector.replicate g.size 0) = (buffer, .ok g.size)) (base : g'.base = g.base)
      (current : g'.current = buffer.toArray) (previous : g'.previous = g.current) (labels : g'.labels = g.labels) :
      Effect g (refresh reader) (.ok ()) g'
  | misfit {values : Array UInt8} (size : values.size ≠ g.size) :
      Effect g (setCurrent values) (.error (.invalidRegion 0 values.size g.size)) g
  | mislabelled {ls : Array UInt64} (size : ls.size ≠ g.size) :
      Effect g (withLabels ls) (.error (.invalidRegion 0 ls.size g.size)) g
  | unread {reader : Reader} {buffer : Vector UInt8 g.size} {e : Error}
      (read : reader g.base (Vector.replicate g.size 0) = (buffer, .error e)) : Effect g (refresh reader) (.error e) g
  | partlyRead {reader : Reader} {buffer : Vector UInt8 g.size} {count : Nat}
      (read : reader g.base (Vector.replicate g.size 0) = (buffer, .ok count)) (short : count ≠ g.size) :
      Effect g (refresh reader) (.error (.readFailed g.base.upper
        ("partial read: " ++ toString count ++ " of " ++ toString g.size ++ " bytes"))) g

end GroupCall

namespace ReadGroup

/-- The group after a call, whatever the answer. -/
def after (g : ReadGroup) (call : GroupCall) : ReadGroup := (call.perform g).2

/-- The group after some calls, one after the other. -/
def afterAll (g : ReadGroup) (calls : List GroupCall) : ReadGroup := calls.foldl after g

variable {g g' : ReadGroup} {call : GroupCall} {reader : Reader} {answer : Except Error Unit}

@[simp]
theorem afterAll_append (g : ReadGroup) (before after : List GroupCall) :
    g.afterAll (before ++ after) = (g.afterAll before).afterAll after :=
  List.foldl_append

theorem afterAll_cons (g : ReadGroup) (call : GroupCall) (calls : List GroupCall) :
    g.afterAll (call :: calls) = (g.after call).afterAll calls := rfl

theorem effect_overwrite (g : ReadGroup) (values : Array UInt8) :
    (GroupCall.setCurrent values).Effect g (g.overwrite values).1 (g.overwrite values).2 := by
  by_cases hsize : values.size = g.size
  · have hdone : g.overwrite values = (.ok (), _) := dif_pos hsize
    rw [hdone]
    exact .set hsize rfl rfl rfl rfl
  · have hrefused : g.overwrite values = (.error _, g) := dif_neg hsize
    rw [hrefused]
    exact .misfit hsize

theorem effect_attach (g : ReadGroup) (labels : Array UInt64) :
    (GroupCall.withLabels labels).Effect g (g.attach labels).1 (g.attach labels).2 := by
  by_cases hsize : labels.size = g.size
  · have hdone : g.attach labels = (.ok (), _) := dif_pos hsize
    rw [hdone]
    exact .labelled hsize rfl rfl rfl rfl
  · have hrefused : g.attach labels = (.error _, g) := dif_neg hsize
    rw [hrefused]
    exact .mislabelled hsize

theorem effect_reread (g : ReadGroup) (reader : Reader) :
    (GroupCall.refresh @reader).Effect g (g.reread @reader).1 (g.reread @reader).2 := by
  rcases hread : reader g.base (Vector.replicate g.size 0) with ⟨buffer, e | count⟩
  · have hrefused : g.reread reader = (.error e, g) := by rw [reread, hread]
    rw [hrefused]
    exact .unread hread
  · by_cases hcount : count = g.size
    · subst hcount
      simp only [reread, hread, ↓reduceIte]
      exact .refreshed hread rfl rfl rfl rfl
    · -- a short read, or a count that cannot be
      simp only [reread, hread, if_neg hcount]
      exact .partlyRead hread hcount

/-- Every call has one of the effects. -/
theorem effect_perform (g : ReadGroup) (call : GroupCall) : call.Effect g (call.perform g).1 (g.after call) := by
  cases call with
  | setCurrent values => exact g.effect_overwrite values
  | withLabels labels => exact g.effect_attach labels
  | refresh reader => exact g.effect_reread @reader

end ReadGroup

namespace GroupCall.Effect

variable {g g' : ReadGroup} {call : GroupCall} {reader : Reader} {answer : Except Error Unit}

theorem base_eq (h : call.Effect g answer g') : g'.base = g.base := by
  cases h <;> first | assumption | rfl

theorem size_eq (h : call.Effect g answer g') : g'.size = g.size := by
  cases h with
  | set size _ current => rw [ReadGroup.size, current, size]
  | labelled _ _ current => rw [ReadGroup.size, current, ReadGroup.size]
  | refreshed _ _ current => rw [ReadGroup.size, current, Vector.size_toArray]
  | misfit | mislabelled | unread | partlyRead => rfl

/-- A call that is refused leaves the group as it was. -/
theorem eq_of_error {e : Error} (h : call.Effect g (.error e) g') : g' = g := by
  cases h <;> rfl

/-- Only a refresh that succeeds moves values into the previous ones. -/
theorem previous_eq (h : call.Effect g answer g') :
    g'.previous = g.previous ∨ ∃ reader, call = refresh reader ∧ answer = .ok () ∧ g'.previous = g.current := by
  cases h with
  | set _ _ _ previous => exact .inl previous
  | labelled _ _ _ previous => exact .inl previous
  | refreshed _ _ _ previous => exact .inr ⟨_, rfl, rfl, previous⟩
  | misfit | mislabelled | unread | partlyRead => exact .inl rfl

theorem labels_refresh (h : (refresh @reader).Effect g answer g') : g'.labels = g.labels := by
  cases h with
  | refreshed _ _ _ _ labels => exact labels
  | unread | partlyRead => rfl

theorem previous_refresh (h : (refresh @reader).Effect g (.ok ()) g') : g'.previous = g.current := by
  cases h with
  | refreshed _ _ _ previous => exact previous

end GroupCall.Effect

namespace ReadGroup

variable {g₀ g g' : ReadGroup} {base : Address} {current previous : Array UInt8} {calls : List GroupCall}

/-- A group before any calls: zeros, or values that were read before. -/
inductive Built (base : Address) : Array UInt8 → Array UInt8 → ReadGroup → Prop where
  | zeros (size : Nat) :
      Built base (Array.replicate (min size maxSize) 0) (Array.replicate (min size maxSize) 0) (zeros base size)
  | values {current previous : Array UInt8} {g : ReadGroup} (h : ofValues base current previous = .ok g) :
      Built base current previous g

/-- Whether any of the calls is a refresh that succeeds. -/
def refreshes (g : ReadGroup) : List GroupCall → Bool
  | [] => false
  | .refresh reader :: calls => (g.refresh reader).isOk || (g.after (.refresh reader)).refreshes calls
  | call :: calls => (g.after call).refreshes calls

theorem Built.fields (h : Built base current previous g) :
    g.base = base ∧ g.current = current ∧ g.previous = previous := by
  cases h with
  | zeros size => exact ⟨rfl, rfl, rfl⟩
  | values h =>
    unfold ofValues at h
    split at h
    · cases h
      exact ⟨rfl, rfl, rfl⟩
    · cases h

theorem base_afterAll (g : ReadGroup) (calls : List GroupCall) : (g.afterAll calls).base = g.base := by
  induction calls generalizing g with
  | nil => rfl
  | cons call calls ih => rw [afterAll_cons, ih, (g.effect_perform call).base_eq]

theorem size_afterAll (g : ReadGroup) (calls : List GroupCall) : (g.afterAll calls).size = g.size := by
  induction calls generalizing g with
  | nil => rfl
  | cons call calls ih => rw [afterAll_cons, ih, (g.effect_perform call).size_eq]

/-- The previous values stay until a refresh succeeds. -/
theorem previous_afterAll (h : g.refreshes calls = false) : (g.afterAll calls).previous = g.previous := by
  induction calls generalizing g with
  | nil => rfl
  | cons call calls ih =>
    have heffect := g.effect_perform call
    have hrest : (g.after call).refreshes calls = false := by
      cases call with
      | refresh reader => exact (Bool.or_eq_false_iff.1 h).2
      | setCurrent values => exact h
      | withLabels labels => exact h
    rw [afterAll_cons, ih hrest]
    obtain hprevious | ⟨reader, rfl, hok, _⟩ := heffect.previous_eq
    · exact hprevious
    · have hrefused : (g.refresh reader).isOk = false := (Bool.or_eq_false_iff.1 h).1
      have hdone : (g.reread reader).1 = .ok () := hok
      rw [refresh, Answer.made, hdone] at hrefused
      cases hrefused

/-- After any calls a group is where it was and as long as it was, with buffers and labels of this length.  A call that
is refused leaves the values and the labels as they were, and no refresh touches the labels.  The previous values are
the current ones from just before the last refresh that succeeded; without one they are those the group began with. -/
theorem history_of_built (h : Built base current previous g₀) (calls : List GroupCall) :
    let g := g₀.afterAll calls
    (g.base = base ∧ g.current.size = current.size ∧ g.previous.size = current.size ∧
      ∀ ls ∈ g.labels, ls.size = current.size) ∧
    (∀ before call after e, calls = before ++ call :: after → call.attempt (g₀.afterAll before) = .error e →
      ((g₀.afterAll before).after call).current = (g₀.afterAll before).current ∧
        ((g₀.afterAll before).after call).previous = (g₀.afterAll before).previous ∧
        ((g₀.afterAll before).after call).labels = (g₀.afterAll before).labels) ∧
    (∀ before (reader : Reader) after, calls = before ++ .refresh reader :: after →
      ((g₀.afterAll before).after (.refresh reader)).labels = (g₀.afterAll before).labels ∧
        ∀ g', (g₀.afterAll before).refresh reader = .ok g' → g'.refreshes after = false →
          g.previous = (g₀.afterAll before).current) ∧
    (g₀.refreshes calls = false → g.previous = previous) := by
  intro g
  obtain ⟨rfl, rfl, rfl⟩ := h.fields
  have hsize : g.current.size = g₀.current.size := size_afterAll g₀ calls
  have hlabels : ∀ ls ∈ g.labels, ls.size = g₀.current.size := fun ls hls => (g.labels_size ls hls).trans hsize
  refine ⟨⟨base_afterAll g₀ calls, hsize, g.previous_size.trans hsize, hlabels⟩, ?_, ?_, previous_afterAll⟩
  · rintro before call after e - herror
    have heffect := (g₀.afterAll before).effect_perform call
    rw [GroupCall.attempt_eq_made] at herror
    rw [Answer.fst_eq_of_made_eq_error herror] at heffect
    rw [heffect.eq_of_error]
    exact ⟨rfl, rfl, rfl⟩
  · rintro before reader after rfl
    have heffect := (g₀.afterAll before).effect_perform (.refresh @reader)
    refine ⟨heffect.labels_refresh, ?_⟩
    intro g' hok hlast
    have hdone : (GroupCall.refresh @reader).perform (g₀.afterAll before) = (.ok (), g') := Answer.eq_of_made_eq_ok hok
    have hafter : (g₀.afterAll before).after (.refresh @reader) = g' := by rw [ReadGroup.after, hdone]
    rw [hdone, hafter] at heffect
    have hg : g = g'.afterAll after := by
      rw [← hafter]
      exact afterAll_append g₀ before _
    rw [hg, previous_afterAll hlast]
    exact heffect.previous_refresh

/-- Of three readers one fills the buffer and fails, one reads everything, and one claims to have read more than that.
Values of the wrong length come last. -/
theorem history_of_built_adverse :
    let spoiling : Reader := fun {size} _ _ => (Vector.replicate size 9, .error (.io "gone"))
    let full : Reader := fun {size} _ _ => (Vector.replicate size 7, .ok size)
    let boasting : Reader := fun {size} _ _ => (Vector.replicate size 8, .ok (size + 1))
    let early : List GroupCall := [.withLabels #[3, 4], .refresh spoiling, .setCurrent #[5, 6]]
    let late : List GroupCall := [.refresh boasting, .setCurrent #[1, 1], .setCurrent #[0]]
    ∃ g₀, Built ⟨0x1000⟩ #[1, 2] #[0, 0] g₀ ∧
      let g := g₀.afterAll (early ++ .refresh full :: late)
      g.current = #[1, 1] ∧ g.previous = #[5, 6] ∧ g.labels = some #[3, 4] ∧ g.base = ⟨0x1000⟩ ∧
        g.previous.size = 2 ∧ (g₀.afterAll early).previous = #[0, 0] := by
  intro spoiling full boasting early late
  have hbuilt : Built ⟨0x1000⟩ #[1, 2] #[0, 0] ⟨⟨0x1000⟩, #[1, 2], #[0, 0], none, rfl, by simp, by decide⟩ :=
    .values rfl
  obtain ⟨⟨hbase, _, hsize, _⟩, _, hrefreshed, _⟩ := history_of_built hbuilt (early ++ .refresh full :: late)
  obtain ⟨_, _, _, hunrefreshed⟩ := history_of_built hbuilt early
  obtain ⟨_, hprevious⟩ := hrefreshed early full late rfl
  exact ⟨_, hbuilt, by decide, (hprevious _ rfl (by decide)).trans (by decide), by decide, hbase, hsize,
    hunrefreshed (by decide)⟩

end ReadGroup
end Memsift
