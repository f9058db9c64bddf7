import Memsift.Word
import Memsift.Proofs.Elements
import Mathlib.Algebra.Group.Nat.Defs
import Mathlib.Data.List.Basic

/-!
# Words and their bytes

A word is the same only if all its bytes are.  The key facts: bytes of one number are read as one word in either order
(`Word.read_inj`), equal integer words are the same (`Word.close_eq_beq`), and so the integers at a place of two
buffers are the same if and only if the buffers agree there (`read_bytesAt_eq_iff`).
-/

namespace Memsift

theorem littleEndian_inj {xs ys : List UInt8} (hlength : xs.length = ys.length)
    (h : littleEndian xs = littleEndian ys) : xs = ys := by
  induction xs generalizing ys with
  | nil =>
    cases ys with
    | nil => rfl
    | cons y ys => cases hlength
  | cons x xs ih =>
    cases ys with
    | nil => cases hlength
    | cons y ys =>
      rw [littleEndian, littleEndian] at h
      have hx := x.toNat_lt
      have hy := y.toNat_lt
      have hfirst : x = y := UInt8.toNat_inj.1 (by omega)
      have hrest : littleEndian xs = littleEndian ys := by omega
      rw [hfirst, ih (Nat.succ.inj hlength) hrest]

theorem littleEndian_lt (bytes : List UInt8) : littleEndian bytes < 2 ^ (8 * bytes.length) := by
  induction bytes with
  | nil => exact Nat.one_pos
  | cons b bytes ih =>
    have hb := b.toNat_lt
    rw [littleEndian, List.length_cons, Nat.mul_succ, Nat.pow_add]
    omega

namespace ByteOrder

variable {order : ByteOrder}

theorem toNat_inj {xs ys : List UInt8} (hlength : xs.length = ys.length) (h : order.toNat xs = order.toNat ys) :
    xs = ys := by
  cases order with
  | little => exact littleEndian_inj hlength h
  | big =>
    have hreverse : xs.reverse.length = ys.reverse.length := by rw [List.length_reverse, List.length_reverse, hlength]
    exact List.reverse_injective (littleEndian_inj hreverse h)

theorem toNat_lt (order : ByteOrder) (bytes : List UInt8) : order.toNat bytes < 2 ^ (8 * bytes.length) := by
  cases order with
  | little => exact littleEndian_lt bytes
  | big =>
    have hlt := littleEndian_lt bytes.reverse
    rwa [List.length_reverse] at hlt

end ByteOrder

variable {t : NumberType} {order : ByteOrder}

namespace Word

theorem toNat_read {bytes : List UInt8} (h : bytes.length = t.size) :
    (read t order bytes).toNat = order.toNat bytes := by
  have hlt := order.toNat_lt bytes
  rw [h] at hlt
  rw [read, List.take_of_length_le h.le, BitVec.toNat_ofNat, Nat.mod_eq_of_lt hlt]

theorem read_inj {xs ys : List UInt8} (hxs : xs.length = t.size) (hys : ys.length = t.size)
    (h : read t order xs = read t order ys) : xs = ys := by
  have hnat := congrArg BitVec.toNat h
  rw [toNat_read hxs, toNat_read hys] at hnat
  exact ByteOrder.toNat_inj (hxs.trans hys.symm) hnat

theorem close_eq_beq (ht : t.isFloat = false) (a b : Word t) : close t a b = (a == b) := by
  cases t with
  | signed => rfl
  | unsigned => rfl
  | float => cases ht

end Word

theorem length_bytesAt {buffer : Array UInt8} {o size : Nat} (h : o + size ≤ buffer.size) :
    (bytesAt buffer o size).length = size := by
  rw [bytesAt, Array.length_toList, Array.size_extract]
  omega

theorem getElem?_bytesAt {buffer : Array UInt8} {o size k : Nat} (hk : k < size) :
    (bytesAt buffer o size)[k]? = buffer[o + k]? := by
  rw [bytesAt, Array.getElem?_toList, Array.getElem?_extract]
  by_cases hin : o + k < buffer.size
  · rw [if_pos (by omega)]
  · rw [if_neg (by omega), Array.getElem?_eq_none (by omega)]

theorem read_bytesAt_eq_iff {xs ys : Array UInt8} {o : Nat} (hxs : o + t.size ≤ xs.size) (hys : o + t.size ≤ ys.size) :
    Word.read t order (bytesAt xs o t.size) = Word.read t order (bytesAt ys o t.size) ↔
      ∀ k < t.size, xs[o + k]? = ys[o + k]? := by
  have hlength := length_bytesAt hxs
  have hlength' := length_bytesAt hys
  constructor
  · intro h k hk
    rw [← getElem?_bytesAt hk, ← getElem?_bytesAt hk, Word.read_inj hlength hlength' h]
  · intro h
    refine congrArg _ (List.ext_getElem? fun k => ?_)
    by_cases hk : k < t.size
    · rw [getElem?_bytesAt hk, getElem?_bytesAt hk, h k hk]
    · rw [List.getElem?_eq_none (by omega), List.getElem?_eq_none (by omega)]

end Memsift
