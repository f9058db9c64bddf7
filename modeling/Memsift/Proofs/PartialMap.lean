import Memsift.Proofs.MemoryRanges
import Mathlib.Logic.Function.Basic
import Mathlib.Logic.ExistsUnique

/-!
# A memory is a partial map

A memory that was built by mapping ranges apart from one another and by writing stands for a partial map from addresses
to bytes (`Memory.Image`).  The key facts: mapping a range keeps what a memory shows of its image (`Shows.insert`), and
a write maps the range that it is in once more (`Shows.write`), so every memory that was built shows its image
(`Built.shows`); ranges are apart, so the one that an address is looked up in is the only one that can hold it
(`Shows.rangeAt?_eq_some`).
-/

namespace Memsift.Memory

/-- What a memory stands for: the size of the range that starts at an address, zero if none does, and the byte at an
address, if there is one. -/
@[ext]
structure Image where
  extent : Nat → Nat
  byte : Nat → Option UInt8

namespace Image

def empty : Image := ⟨fun _ => 0, fun _ => none⟩

/-- The range that starts at `start` holds the address `x`. -/
def Holds (i : Image) (start x : Nat) : Prop := start ≤ x ∧ x < start + i.extent start

instance (i : Image) (start x : Nat) : Decidable (i.Holds start x) := inferInstanceAs (Decidable (_ ∧ _))

/-- No range that starts elsewhere holds one of the `size` addresses from `start` on. -/
def Apart (i : Image) (start size : Nat) : Prop :=
  ∀ start' x, start' ≠ start → i.Holds start' x → x < start ∨ start + size ≤ x

/-- A single range holds all of the `size` addresses from `address` on. -/
def Spans (i : Image) (address size : Nat) : Prop :=
  ∃ start, ∀ x, address ≤ x → x < address + size → i.Holds start x

/-- Maps bytes from an address on, in place of the range that starts there. -/
def insert (i : Image) (start : Nat) (bytes : Array UInt8) : Image where
  extent := Function.update i.extent start bytes.size
  byte x :=
    if start ≤ x ∧ x < start + bytes.size then bytes[x - start]?
    else if i.Holds start x then none
    else i.byte x

/-- Changes the bytes from an address on. -/
def write (i : Image) (address : Nat) (bytes : Array UInt8) : Image where
  extent := i.extent
  byte x := if address ≤ x ∧ x < address + bytes.size then bytes[x - address]? else i.byte x

end Image

/-- The memory that an attempt to write leaves. -/
def afterWrite (m : Memory) (address : Address) (bytes : Array UInt8) : Memory := (m.store address bytes).2

/-- The memory was built by mapping ranges, each with a byte at least and apart from the others, and by any writes; and
the image is what the ranges and the writes that succeeded make of the empty one. -/
inductive Built : Memory → Image → Prop
  | empty : Built .empty .empty
  | insert {m i} (address : Address) (bytes : Array UInt8) (built : Built m i) (nonempty : 0 < bytes.size)
      (apart : i.Apart address.toNat bytes.size) : Built (m.insert address bytes) (i.insert address.toNat bytes)
  | write {m i} (address : Address) (bytes : Array UInt8) (built : Built m i) :
      Built (m.afterWrite address bytes)
        (if (m.write address bytes).toOption.isSome then i.write address.toNat bytes else i)

/-- What a memory shows of its image. -/
structure Shows (m : Memory) (i : Image) : Prop where
  ascending : Ascending m.ranges
  nonempty : ∀ {start bytes}, (start, bytes) ∈ m.ranges → 0 < bytes.size
  apart : ∀ {start bytes start' bytes'}, (start, bytes) ∈ m.ranges → (start', bytes') ∈ m.ranges → start < start' →
    start + bytes.size ≤ start'
  extent : ∀ {start bytes}, (start, bytes) ∈ m.ranges → i.extent start = bytes.size
  mapped : ∀ {start}, 0 < i.extent start → ∃ bytes, (start, bytes) ∈ m.ranges
  byte : ∀ x b, i.byte x = some b ↔ ∃ start bytes, (start, bytes) ∈ m.ranges ∧ start ≤ x ∧ bytes[x - start]? = some b

variable {m m' : Memory} {i : Image} {start start' x : Nat} {bytes range : Array UInt8} {b : UInt8} {address : Address}

namespace Shows

theorem holds_of_lt (h : Shows m i) (hr : (start, bytes) ∈ m.ranges) (hle : start ≤ x) (hlt : x < start + bytes.size) :
    i.Holds start x := by
  rw [Image.Holds, h.extent hr]
  exact ⟨hle, hlt⟩

theorem holds_of_getElem? (h : Shows m i) (hr : (start, bytes) ∈ m.ranges) (hle : start ≤ x)
    (hget : bytes[x - start]? = some b) : i.Holds start x := by
  obtain ⟨hlt, _⟩ := Array.getElem?_eq_some_iff.1 hget
  exact h.holds_of_lt hr hle (by omega)

theorem exists_range (h : Shows m i) (hx : i.Holds start x) :
    ∃ bytes, (start, bytes) ∈ m.ranges ∧ start ≤ x ∧ x < start + bytes.size := by
  unfold Image.Holds at hx
  have hextent : 0 < i.extent start := by omega
  obtain ⟨bytes, hr⟩ := h.mapped hextent
  rw [h.extent hr] at hx
  exact ⟨bytes, hr, hx⟩

/-- A range that is mapped is apart from the others. -/
theorem apart_of_mem (h : Shows m i) (hr : (start, bytes) ∈ m.ranges) : i.Apart start bytes.size := by
  intro start' x hne hx
  obtain ⟨bytes', hr', hle, hlt⟩ := h.exists_range hx
  rcases Nat.lt_or_gt_of_ne hne with hbefore | hafter
  · have := h.apart hr' hr hbefore
    omega
  · have := h.apart hr hr' hafter
    omega

/-- No two ranges hold the same address. -/
theorem start_unique (h : Shows m i) (hx : i.Holds start x) (hx' : i.Holds start' x) : start = start' := by
  by_contra hne
  obtain ⟨bytes, hr', hle, hlt⟩ := h.exists_range hx'
  have := h.apart_of_mem hr' start x hne hx
  omega

/-- The byte at an address is that of the range that holds it. -/
theorem byte_eq (h : Shows m i) (hr : (start, bytes) ∈ m.ranges) (hle : start ≤ x) (hlt : x < start + bytes.size) :
    i.byte x = bytes[x - start]? := by
  have hget : bytes[x - start]? = some bytes[x - start] := Array.getElem?_eq_getElem (by omega)
  rw [hget, h.byte]
  exact ⟨start, bytes, hr, hle, hget⟩

theorem byte_ne_none_iff (h : Shows m i) : i.byte x ≠ none ↔ ∃ start, i.Holds start x := by
  constructor
  · intro hx
    obtain ⟨b, hb⟩ := Option.ne_none_iff_exists'.1 hx
    obtain ⟨start, bytes, hr, hle, hget⟩ := (h.byte x b).1 hb
    exact ⟨start, h.holds_of_getElem? hr hle hget⟩
  · rintro ⟨start, hx⟩
    obtain ⟨bytes, hr, hle, hlt⟩ := h.exists_range hx
    rw [h.byte_eq hr hle hlt, Array.getElem?_eq_getElem (by omega)]
    exact Option.some_ne_none _

/-! ### Mapping -/

theorem empty : Shows .empty .empty where
  ascending := List.Pairwise.nil
  nonempty := by simp [Memory.empty]
  apart := by simp [Memory.empty]
  extent := by simp [Memory.empty]
  mapped := by simp [Image.empty]
  byte := by simp [Memory.empty, Image.empty]

theorem byte_insert (h : Shows m i) (hapart : i.Apart start bytes.size) (x : Nat) (b : UInt8) :
    (i.insert start bytes).byte x = some b ↔
      ∃ s bs, (s, bs) ∈ insertRange start bytes m.ranges ∧ s ≤ x ∧ bs[x - s]? = some b := by
  have hmem : ∀ {s bs}, (s, bs) ∈ insertRange start bytes m.ranges ↔
      (s = start ∧ bs = bytes) ∨ (s, bs) ∈ m.ranges ∧ s ≠ start := mk_mem_insertRange h.ascending
  -- a range that is left holds the address or not as it did before
  have hleft : ∀ {s bs}, (s, bs) ∈ m.ranges → s ≤ x → bs[x - s]? = some b → i.Holds s x := h.holds_of_getElem?
  simp only [Image.insert]
  by_cases hnew : start ≤ x ∧ x < start + bytes.size
  · rw [if_pos hnew]
    constructor
    · intro hget
      exact ⟨start, bytes, hmem.2 (.inl ⟨rfl, rfl⟩), hnew.1, hget⟩
    · rintro ⟨s, bs, hr, hle, hget⟩
      rcases hmem.1 hr with ⟨rfl, rfl⟩ | ⟨hr, hs⟩
      · exact hget
      · have := hapart s x hs (hleft hr hle hget)
        omega
  · have hold : ∀ {s bs}, (s, bs) ∈ insertRange start bytes m.ranges → s ≤ x → bs[x - s]? = some b →
        (s, bs) ∈ m.ranges ∧ s ≠ start := by
      intro s bs hr hle hget
      rcases hmem.1 hr with ⟨rfl, rfl⟩ | hr
      · obtain ⟨hlt, _⟩ := Array.getElem?_eq_some_iff.1 hget
        omega
      · exact hr
    rw [if_neg hnew]
    by_cases hreplaced : i.Holds start x
    · rw [if_pos hreplaced]
      constructor
      · intro hb
        cases hb
      · rintro ⟨s, bs, hr, hle, hget⟩
        obtain ⟨hr, hs⟩ := hold hr hle hget
        exact absurd (h.start_unique (hleft hr hle hget) hreplaced) hs
    · rw [if_neg hreplaced, h.byte]
      constructor
      · rintro ⟨s, bs, hr, hle, hget⟩
        refine ⟨s, bs, hmem.2 (.inr ⟨hr, ?_⟩), hle, hget⟩
        rintro rfl
        exact hreplaced (hleft hr hle hget)
      · rintro ⟨s, bs, hr, hle, hget⟩
        exact ⟨s, bs, (hold hr hle hget).1, hle, hget⟩

/-- A range apart from the others may be mapped, also in place of one with the same start. -/
theorem insert (h : Shows m i) (hne : 0 < bytes.size) (hapart : i.Apart start bytes.size) :
    Shows ⟨insertRange start bytes m.ranges⟩ (i.insert start bytes) := by
  have hmem : ∀ {s bs}, (s, bs) ∈ insertRange start bytes m.ranges ↔
      (s = start ∧ bs = bytes) ∨ (s, bs) ∈ m.ranges ∧ s ≠ start := mk_mem_insertRange h.ascending
  refine ⟨ascending_insertRange h.ascending _ _, ?_, ?_, ?_, ?_, h.byte_insert hapart⟩
  · intro s bs hr
    rcases hmem.1 hr with ⟨rfl, rfl⟩ | ⟨hr, _⟩
    · exact hne
    · exact h.nonempty hr
  · intro s bs s' bs' hr hr' hlt
    rcases hmem.1 hr with ⟨rfl, rfl⟩ | ⟨hold, hs⟩ <;> rcases hmem.1 hr' with ⟨rfl, rfl⟩ | ⟨hold', hs'⟩
    · exact absurd hlt (Nat.lt_irrefl _)
    · have hfirst := h.holds_of_lt hold' (Nat.le_refl s') (Nat.lt_add_of_pos_right (h.nonempty hold'))
      have := hapart s' s' hs' hfirst
      omega
    · by_contra hover
      have := hapart s s' hs (h.holds_of_lt hold (Nat.le_of_lt hlt) (Nat.lt_of_not_le hover))
      omega
    · exact h.apart hold hold' hlt
  · intro s bs hr
    rcases hmem.1 hr with ⟨rfl, rfl⟩ | ⟨hr, hs⟩
    · exact Function.update_self ..
    · exact (Function.update_of_ne hs ..).trans (h.extent hr)
  · intro s hextent
    by_cases hs : s = start
    · exact ⟨bytes, hmem.2 (.inl ⟨hs, rfl⟩)⟩
    · have hold : (i.insert start bytes).extent s = i.extent s := Function.update_of_ne hs ..
      rw [hold] at hextent
      obtain ⟨bs, hr⟩ := h.mapped hextent
      exact ⟨bs, hmem.2 (.inr ⟨hr, hs⟩)⟩

/-! ### Writing -/

/-- The range that an address is looked up in is the one that holds it. -/
theorem rangeAt?_eq_some (h : Shows m i) (hx : i.Holds start address.toNat) :
    ∃ bytes, m.rangeAt? address = some (start, bytes) ∧ (start, bytes) ∈ m.ranges ∧ start ≤ address.toNat ∧
      address.toNat < start + bytes.size := by
  obtain ⟨bytes, hr, hle, hlt⟩ := h.exists_range hx
  refine ⟨bytes, ?_, hr, hle, hlt⟩
  cases hrange : m.rangeAt? address with
  | none =>
    have : address.toNat < start := rangeAt?_eq_none h.ascending hrange _ hr
    omega
  | some r =>
    obtain ⟨s, bs⟩ := r
    obtain ⟨hr', hle', hgreatest⟩ := Memory.rangeAt?_eq_some h.ascending hrange
    have hstart : start ≤ s := hgreatest _ hr hle
    rcases Nat.eq_or_lt_of_le hstart with rfl | hbelow
    · rw [h.ascending.eq_of_start_eq hr' hr rfl]
    · -- the range that holds the address ends before the next one starts
      have := h.apart hr hr' hbelow
      omega

/-- Writing maps the range once more, with other bytes. -/
theorem write (h : Shows m i) (hwrite : m.write address bytes = .ok m') : Shows m' (i.write address.toNat bytes) := by
  have hstore := store_of_write_eq_ok hwrite
  obtain ⟨start, range, hrange, hfits, hdone⟩ | ⟨hrefused, _⟩ := store_cases m address bytes
  · obtain rfl := (Prod.mk.inj (hdone.symm.trans hstore)).2
    obtain ⟨hr, hle, _⟩ := Memory.rangeAt?_eq_some h.ascending hrange
    have hsize := size_overwrite hfits
    have himage : i.insert start (overwrite range (address.toNat - start) bytes) = i.write address.toNat bytes := by
      apply Image.ext
      · rw [Image.insert, Image.write, hsize, ← h.extent hr, Function.update_eq_self]
      · funext x
        simp only [Image.insert, Image.write, hsize]
        by_cases hx : start ≤ x ∧ x < start + range.size
        · rw [if_pos hx, getElem?_overwrite hfits, h.byte_eq hr hx.1 hx.2]
          have hwindow : (address.toNat - start ≤ x - start ∧ x - start < address.toNat - start + bytes.size) ↔
              address.toNat ≤ x ∧ x < address.toNat + bytes.size := by omega
          have hoffset : x - start - (address.toNat - start) = x - address.toNat := by omega
          simp only [hwindow, hoffset]
        · rw [if_neg hx, if_neg (by rw [Image.Holds, h.extent hr]; exact hx), if_neg (by omega)]
    rw [← himage]
    have hapart := h.apart_of_mem hr
    rw [← hsize] at hapart
    refine h.insert ?_ hapart
    rw [hsize]
    exact h.nonempty hr
  · cases hrefused.symm.trans hstore

end Shows

theorem Built.shows (h : Built m i) : Shows m i := by
  induction h with
  | empty => exact .empty
  | insert address bytes _ nonempty apart ih => exact ih.insert nonempty apart
  | @write m i address bytes _ ih =>
    by_cases hwrite : ∃ m', m.write address bytes = .ok m'
    · obtain ⟨m', hwrite⟩ := hwrite
      rw [afterWrite, store_of_write_eq_ok hwrite, hwrite]
      exact ih.write hwrite
    · have hrefused := store_of_not_written hwrite
      rw [afterWrite, Memory.write, hrefused]
      exact ih

/-! ### Reading -/

namespace Shows

theorem read_of_unmapped (h : Shows m i) (hx : i.byte address.toNat = none) {size : Nat} (buffer : Vector UInt8 size) :
    m.read address buffer = (buffer, .error (.readFailed address.upper "address is not mapped")) := by
  unfold read
  split
  · rfl
  · rename_i start range hrange
    obtain ⟨hr, hle, _⟩ := Memory.rangeAt?_eq_some h.ascending hrange
    by_cases hend : range.size ≤ address.toNat - start
    · rw [if_pos hend]
    · have hholds := h.holds_of_lt hr hle (by omega)
      exact absurd hx (h.byte_ne_none_iff.2 ⟨start, hholds⟩)

theorem read_of_holds (h : Shows m i) (hx : i.Holds start address.toNat) {size : Nat} (buffer : Vector UInt8 size) :
    let count := min size (start + i.extent start - address.toNat)
    (m.read address buffer).2 = .ok count ∧
      ∀ k (hk : k < size), some (m.read address buffer).1[k] =
        if k < count then i.byte (address.toNat + k) else some buffer[k] := by
  obtain ⟨range, hrange, hr, hle, hlt⟩ := h.rangeAt?_eq_some hx
  have hcount : min size (start + i.extent start - address.toNat) =
      min (range.size - (address.toNat - start)) size := by
    rw [h.extent hr]
    omega
  have hinside : ¬ range.size ≤ address.toNat - start := by omega
  simp only [hcount, read, hrange, if_neg hinside, Vector.getElem_ofFn, Fin.getElem_fin, true_and]
  intro k hk
  by_cases hread : k < min (range.size - (address.toNat - start)) size
  · have hoffset : address.toNat + k - start = address.toNat - start + k := by omega
    have hget : i.byte (address.toNat + k) = range[address.toNat - start + k]? := by
      rw [h.byte_eq hr (by omega) (by omega), hoffset]
    rw [if_pos hread, if_pos hread, hget, Array.getD_eq_getD_getElem?, Array.getElem?_eq_getElem (by omega),
      Option.getD_some]
  · rw [if_neg hread, if_neg hread]

/-- A write succeeds if and only if one range holds all addresses that are written to. -/
theorem exists_write_eq_ok_iff (h : Shows m i) (hne : 0 < bytes.size) :
    (∃ m', m.write address bytes = .ok m') ↔ i.Spans address.toNat bytes.size := by
  constructor
  · rintro ⟨m', hwrite⟩
    obtain ⟨start, range, hrange, hfits, _⟩ | ⟨hrefused, _⟩ := store_cases m address bytes
    · obtain ⟨hr, hle, _⟩ := Memory.rangeAt?_eq_some h.ascending hrange
      refine ⟨start, ?_⟩
      intro x hx hx'
      exact h.holds_of_lt hr (by omega) (by omega)
    · cases hrefused.symm.trans (store_of_write_eq_ok hwrite)
  · rintro ⟨start, hspan⟩
    obtain ⟨range, hrange, hr, hle, _⟩ := h.rangeAt?_eq_some (hspan _ (Nat.le_refl _) (by omega))
    have hlast := hspan (address.toNat + bytes.size - 1) (by omega) (by omega)
    rw [Image.Holds, h.extent hr] at hlast
    obtain ⟨_, _, _, _, hdone⟩ | ⟨_, hmisfit⟩ := store_cases m address bytes
    · exact ⟨_, by rw [Memory.write, hdone]; rfl⟩
    · exact absurd (by omega) (hmisfit _ _ hrange)

end Shows

/-- A memory behaves as the partial map that it was built as.  Every address of the map is held by a single range.  A
read fails at the other addresses, and otherwise fills the buffer as far as that range goes.  A write of some bytes
succeeds if a single range holds all their addresses, and then changes the map at these; else it changes nothing. -/
theorem Built.partial_map (h : Built m i) (address : Address) :
    (∀ x, i.byte x ≠ none ↔ ∃! start, i.Holds start x) ∧
    (∀ {size : Nat} (buffer : Vector UInt8 size),
      ((∃ e, (m.read address buffer).2 = .error e) ↔ i.byte address.toNat = none) ∧
      ∀ start, i.Holds start address.toNat →
        let count := min size (start + i.extent start - address.toNat)
        (m.read address buffer).2 = .ok count ∧
          ∀ k (hk : k < size), some (m.read address buffer).1[k] =
            if k < count then i.byte (address.toNat + k) else some buffer[k]) ∧
    ∀ bytes : Array UInt8,
      (0 < bytes.size →
        ((∃ m', m.write address bytes = .ok m') ↔ i.Spans address.toNat bytes.size) ∧
        (i.Spans address.toNat bytes.size → ∃ i', Built (m.afterWrite address bytes) i' ∧ i'.extent = i.extent ∧
          ∀ x, i'.byte x =
            if address.toNat ≤ x ∧ x < address.toNat + bytes.size then bytes[x - address.toNat]? else i.byte x)) ∧
      ((¬ ∃ m', m.write address bytes = .ok m') →
        m.write address bytes = .error (.invalidAddress address.upper) ∧ m.afterWrite address bytes = m) := by
  have hshows := h.shows
  refine ⟨?_, ?_, ?_⟩
  · intro x
    rw [hshows.byte_ne_none_iff]
    constructor
    · rintro ⟨start, hx⟩
      exact ⟨start, hx, fun start' hx' => hshows.start_unique hx' hx⟩
    · exact ExistsUnique.exists
  · intro size buffer
    refine ⟨⟨?_, ?_⟩, fun start hx => hshows.read_of_holds hx buffer⟩
    · rintro ⟨e, herror⟩
      by_contra hmapped
      obtain ⟨start, hx⟩ := hshows.byte_ne_none_iff.1 hmapped
      rw [(hshows.read_of_holds hx buffer).1] at herror
      cases herror
    · intro hx
      rw [hshows.read_of_unmapped hx]
      exact ⟨_, rfl⟩
  · intro bytes
    refine ⟨fun hne => ⟨hshows.exists_write_eq_ok_iff hne, ?_⟩, ?_⟩
    · intro hspan
      obtain ⟨m', hok⟩ := (hshows.exists_write_eq_ok_iff hne).2 hspan
      have hbuilt := h.write address bytes
      rw [hok] at hbuilt
      exact ⟨i.write address.toNat bytes, hbuilt, rfl, fun _ => rfl⟩
    · intro hrefused
      have hstore := store_of_not_written hrefused
      rw [afterWrite, Memory.write, hstore]
      exact ⟨rfl, rfl⟩

/-- Two ranges that touch stay two ranges: a read stops between them, and a write across is refused. -/
theorem Built.partial_map_touching :
    let m := (Memory.empty.insert (.ofNat 0x1000) #[1, 2, 3, 4]).insert (.ofNat 0x1004) #[5, 6]
    (∃ i, Built m i) ∧ (m.read (.ofNat 0x1003) (Vector.replicate 8 0xEE)).2 = .ok 1 ∧
      m.write (.ofNat 0x1003) #[7, 7] = .error (.invalidAddress "0x0000000000001003") ∧
      m.afterWrite (.ofNat 0x1003) #[7, 7] = m := by
  intro m
  let first := Image.empty.insert 0x1000 #[1, 2, 3, 4]
  let i := first.insert 0x1004 #[5, 6]
  have hbuilt : Built m i := by
    refine .insert (.ofNat 0x1004) #[5, 6] (.insert (.ofNat 0x1000) #[1, 2, 3, 4] .empty (by decide) ?_) (by decide) ?_
    · intro start' x _ hx
      exact absurd hx.2 (Nat.not_lt.2 hx.1)
    · intro start' x _ hx
      have haddress : (Address.ofNat 0x1004).toNat = 0x1004 := by decide
      have hextent : first.extent start' = if start' = 0x1000 then 4 else 0 := Function.update_apply ..
      have hstart : start' ≤ x ∧ x < start' + first.extent start' := hx
      rw [hextent] at hstart
      rw [haddress]
      split at hstart <;> omega
  obtain ⟨hsingle, hread, hwrite⟩ := hbuilt.partial_map (.ofNat 0x1003)
  have hholds : i.Holds 0x1000 0x1003 := by decide
  have hrefused : ¬ ∃ m', m.write (.ofNat 0x1003) #[7, 7] = .ok m' := by
    rw [((hwrite #[7, 7]).1 (by decide)).1]
    rintro ⟨start, hspan⟩
    obtain rfl : start = 0x1000 := ((hsingle 0x1003).1 (by decide)).unique (hspan _ (by decide) (by decide)) hholds
    exact absurd (hspan 0x1004 (by decide) (by decide)) (by decide)
  have hcount : min 8 (0x1000 + i.extent 0x1000 - (Address.ofNat 0x1003).toNat) = 1 := by decide
  have hshort := ((hread (Vector.replicate 8 0xEE)).2 0x1000 hholds).1
  rw [hcount] at hshort
  exact ⟨⟨i, hbuilt⟩, hshort, (hwrite #[7, 7]).2 hrefused⟩

end Memsift.Memory
