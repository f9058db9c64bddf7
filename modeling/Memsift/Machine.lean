/-!
# Machine arithmetic

Offsets and lengths are machine words, and so are their sums and differences: unless somebody looks, what exceeds a
word is lost.  A checked sum or difference exists only where nothing is lost.
-/

namespace Memsift.Machine

/-- The sum of two words, modulo 2^64. -/
def add (m n : Nat) : Nat := (m + n) % UInt64.size

/-- The difference of two words, modulo 2^64. -/
def sub (m n : Nat) : Nat := (m + (UInt64.size - n % UInt64.size)) % UInt64.size

theorem add_eq {m n : Nat} (h : m + n < UInt64.size) : add m n = m + n := Nat.mod_eq_of_lt h

theorem add_add (m n k : Nat) : add (add m n) k = add m (n + k) := by
  rw [add, add, add, Nat.mod_add_mod, Nat.add_assoc]

@[simp] theorem add_add_right (m n k : Nat) : add m (add n k) = add m (n + k) := by
  rw [add, add, add, Nat.add_mod_mod]

@[simp] theorem add_mod (m n : Nat) : add m n % UInt64.size = add m n := Nat.mod_mod ..

@[simp] theorem sub_mod_right (m n : Nat) : sub m (n % UInt64.size) = sub m n := by
  rw [sub, sub, Nat.mod_mod]

theorem sub_of_le {m n : Nat} (h : n ≤ m) : sub m n = (m - n) % UInt64.size := by
  unfold sub
  simp only [UInt64.size] at *
  omega

theorem sub_eq {m n : Nat} (h : n ≤ m) (hm : m < UInt64.size) : sub m n = m - n := by
  rw [sub_of_le h, Nat.mod_eq_of_lt (Nat.lt_of_le_of_lt (Nat.sub_le ..) hm)]

/-- Where the true result is a word, it does not matter that the sum on the way to it is none. -/
theorem sub_add {m n k : Nat} (h : k ≤ m + n) : sub (add m n) k = (m + n - k) % UInt64.size := by
  rw [← sub_of_le h, add, sub, Nat.mod_add_mod]
  rfl

theorem sub_add_cancel (m n : Nat) : sub (add m n) n = m % UInt64.size := by
  rw [sub_add (Nat.le_add_left ..), Nat.add_sub_cancel]

end Memsift.Machine
