import Memsift.Proofs.Collected
import Memsift.Proofs.Listing

/-!
# Undisturbed collections

A collection that nothing disturbs, and that can read every group, moves the values of all groups on.  The key facts:
such a collection completes without a failure, and the new values are those of the image that the reader delivers
(`exists_collectsTo`); it keeps the windows of the regions, so the snapshot stays valid (`RefreshedTo.valid`), can be
collected again (`RefreshedTo.delivers`) and has the same aligned elements (`RefreshedTo.flatMap_alignedElements`).
-/

namespace Memsift

theorem ReadGroup.Filled.unique {g : ReadGroup} {reader : Reader} {bytes bytes' : Array UInt8} (hpos : 0 < g.size)
    (h : g.Filled reader bytes) (h' : g.Filled reader bytes') : bytes = bytes' := by
  obtain ⟨buffer, rfl, hread⟩ := h
  obtain ⟨buffer', rfl, hread'⟩ := h'
  have hsame := (hread hpos).symm.trans (hread' hpos)
  rw [(Prod.mk.inj hsame).1]

namespace Snapshot

variable {s s' : Snapshot} {reader : Reader} {image : Nat → Array UInt8} {fates : List GroupFate} {g g' : ReadGroup}
  {i : Nat}

/-- Every group that is not empty is read in full, and so these are the bytes of the groups. -/
def Delivers (s : Snapshot) (reader : Reader) (image : Nat → Array UInt8) : Prop :=
  ∀ (i : Nat) (g : ReadGroup), s.groups[i]? = some g → 0 < g.size → g.Filled reader (image i)

theorem Delivers.exists_filled (h : s.Delivers reader image) (hg : s.groups[i]? = some g) :
    ∃ bytes, g.Filled reader bytes := by
  by_cases hpos : 0 < g.size
  · exact ⟨image i, h i g hg hpos⟩
  · exact ReadGroup.exists_filled_of_isEmpty (ReadGroup.isEmpty_iff.2 (by omega)) reader

/-- Whatever the task and the watch, an undisturbed collection completes with the result, and no group fails. -/
def CollectsTo (s : Snapshot) (settings : ScanSettings) (reader : Reader) (result : Snapshot) : Prop :=
  ∀ {σ : Type} (watch : Watch σ) (calm : σ → Prop) (task : String) (scene : Scene σ), watch.Calm calm →
    calm scene.state → scene.registry.state task ≠ .running →
      ∃ scene', s.collect settings watch reader task scene = (.ok ⟨task, .completed, 0⟩, result, scene')

/-- Every group holds the bytes of an image, and before it what it held in `s`; the regions are over the same
windows. -/
structure RefreshedTo (s : Snapshot) (image : Nat → Array UInt8) (s' : Snapshot) : Prop where
  size_groups : s'.groups.size = s.groups.size
  groups : ∀ (i : Nat) (g : ReadGroup), s.groups[i]? = some g → ∃ g', s'.groups[i]? = some g' ∧
    g'.base = g.base ∧ g'.size = g.size ∧ g'.previous = g.current ∧ (0 < g.size → g'.current = image i)
  map_place : s'.regions.map Region.place = s.regions.map Region.place

theorem CollectedTo.eq_read (h : s.CollectedTo (fun _ => reader) fates s') (hread : s.Delivers reader image)
    (hskipped : .skipped ∉ fates) : ∀ fate ∈ fates, fate = .read := by
  intro fate hfate
  obtain ⟨i, hi⟩ := List.mem_iff_getElem?.1 hfate
  obtain ⟨hlt, _⟩ := List.getElem?_eq_some_iff.1 hi
  rw [h.length_fates] at hlt
  have hg : s.groups[i]? = some s.groups[i] := Array.getElem?_eq_getElem hlt
  obtain ⟨g', _, hcollected⟩ := h.groups i _ fate hg hi
  cases hcollected with
  | read => rfl
  | failed unfilled =>
    obtain ⟨bytes, hfilled⟩ := hread.exists_filled hg
    exact absurd hfilled (unfilled bytes)
  | skipped => exact absurd hfate hskipped

theorem CollectedTo.refreshedTo (h : s.CollectedTo (fun _ => reader) fates s') (hread : s.Delivers reader image)
    (hskipped : .skipped ∉ fates) : s.RefreshedTo image s' := by
  have hall := h.eq_read hread hskipped
  refine ⟨h.size_groups, ?_, ?_⟩
  · intro i g hg
    obtain ⟨hlt, _⟩ := Array.getElem?_eq_some_iff.1 hg
    rw [← h.length_fates] at hlt
    have hfate : fates[i]? = some .read := by
      rw [List.getElem?_eq_getElem hlt, hall _ (List.getElem_mem hlt)]
    obtain ⟨g', hg', hcollected⟩ := h.groups i g .read hg hfate
    cases hcollected with
    | read filled previous base size _ =>
      exact ⟨g', hg', base, size, previous, fun hpos => filled.unique hpos (hread i g hg hpos)⟩
  · have hkeep : ∀ r ∈ s.regions, (fates[r.readGroup]? != some .failed) = true := by
      intro r _
      rw [bne_iff_ne]
      intro hfailed
      cases hall _ (List.mem_of_getElem? hfailed)
    rw [h.map_place, List.filter_eq_self.2 hkeep]

theorem readPass_of_calm {σ : Type} {watch : Watch σ} {calm : σ → Prop} (hwatch : watch.Calm calm) (s : Snapshot)
    (settings : ScanSettings) (reader : Reader) {scene : Scene σ} (hscene : calm scene.state) {answers : List Bool}
    (hlength : answers.length = s.groups.size) (hunset : true ∉ answers) :
    (s.readPass settings watch (fun _ => reader) scene).results = s.reads (fun _ => reader) answers ∧
      (s.readPass settings watch (fun _ => reader) scene).wentThrough = true := by
  obtain ⟨hresults, hthrough⟩ := runPass_of_calm hwatch (max settings.progressInterval 1) s.items.length
    (fun item => readGroup item.1 reader) s.items 0 hscene
  rw [← length_items] at hlength
  exact ⟨hresults.trans (attempts_of_not_mem hlength hunset).symm, hthrough⟩

theorem exists_collectsTo (h : s.Delivers reader image) (settings : ScanSettings) :
    ∃ result, s.CollectsTo settings reader result ∧ s.RefreshedTo image result := by
  let answers := List.replicate s.groups.size false
  let reads := s.reads (fun _ => reader) answers
  have hlength : answers.length = s.groups.size := List.length_replicate
  have hunset : true ∉ answers := fun htrue => by cases List.eq_of_mem_replicate htrue
  have hskipped : .skipped ∉ reads.map fateOf := mt (skipped_mem_iff hlength).1 hunset
  have hcollected : s.CollectedTo (fun _ => reader) (reads.map fateOf) (s.afterReads reads) :=
    collectedTo_afterReads hlength
  have hfailed : (reads.map fateOf).count .failed = 0 := by
    rw [List.count_eq_zero]
    intro hmem
    cases hcollected.eq_read h hskipped _ hmem
  refine ⟨s.afterReads reads, ?_, hcollected.refreshedTo h hskipped⟩
  intro σ watch calm task scene hwatch hscene hidle
  obtain ⟨registry, hbegin⟩ := TaskRegistry.exists_begin hidle
  have hbegun : calm ({ scene with registry } : Scene σ).state := hscene
  obtain ⟨hreads, hthrough⟩ := readPass_of_calm hwatch s settings reader hbegun hlength hunset
  have houtcome : collectedOutcome task (reads.map fateOf) = ⟨task, .completed, 0⟩ := by
    rw [collectedOutcome, if_neg hskipped, hfailed]
  have hrun := s.collectFrom_eq settings (fun _ => reader) hbegin hthrough
  simp only [hreads] at hrun
  rw [houtcome] at hrun
  exact ⟨_, hrun⟩

namespace RefreshedTo

variable (h : s.RefreshedTo image s')
include h

theorem exists_of_getElem? (hg' : s'.groups[i]? = some g') :
    ∃ g, s.groups[i]? = some g ∧ g'.base = g.base ∧ g'.size = g.size ∧ g'.previous = g.current ∧
      (0 < g.size → g'.current = image i) := by
  obtain ⟨hlt, _⟩ := Array.getElem?_eq_some_iff.1 hg'
  rw [h.size_groups] at hlt
  have hg : s.groups[i]? = some s.groups[i] := Array.getElem?_eq_getElem hlt
  obtain ⟨g₁, hg₁, hfacts⟩ := h.groups i _ hg
  obtain rfl := Option.some.inj (hg₁.symm.trans hg')
  exact ⟨_, hg, hfacts⟩

theorem delivers {image' : Nat → Array UInt8} (hread : s.Delivers reader image') : s'.Delivers reader image' := by
  intro i g' hg' hpos
  obtain ⟨g, hg, hbase, hsize, _⟩ := h.exists_of_getElem? hg'
  rw [hsize] at hpos
  exact (hread i g hg hpos).congr hbase hsize

theorem valid (hs : s.Valid) : s'.Valid := by
  refine ⟨fun r' hr' => ?_⟩
  have hplace : r'.place ∈ s.regions.map Region.place := by
    rw [← h.map_place]
    exact List.mem_map_of_mem hr'
  obtain ⟨r, hr, hplace⟩ := List.mem_map.1 hplace
  obtain ⟨g, hg, hin⟩ := hs.inside r hr
  obtain ⟨g', hg', _, hsize, _⟩ := h.groups _ g hg
  exact inside_of_place_eq hplace ⟨g', hg', by rwa [hsize]⟩

theorem alignedElements_eq (alignment elementSize : Nat) :
    s'.alignedElements alignment elementSize = s.alignedElements alignment elementSize := by
  funext r
  unfold alignedElements
  cases hg : s.groups[r.readGroup]? with
  | none =>
    have hnone : s'.groups[r.readGroup]? = none := by
      rw [Array.getElem?_eq_none_iff] at hg ⊢
      rwa [h.size_groups]
    rw [hnone]
  | some g =>
    obtain ⟨g', hg', hbase, _⟩ := h.groups _ g hg
    simp only [hg', hbase]

theorem flatMap_alignedElements (alignment elementSize : Nat) :
    s'.regions.flatMap (s'.alignedElements alignment elementSize) =
      s.regions.flatMap (s.alignedElements alignment elementSize) := by
  rw [h.alignedElements_eq]
  exact flatMap_eq_of_map_place_eq (fun _ _ => rfl) h.map_place

end RefreshedTo

end Snapshot
end Memsift
