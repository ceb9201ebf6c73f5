import Mathlib.Data.BitVec

/-!
# A memory of bytes with 64-bit addresses

Addresses wrap around at `2 ^ 64`: the byte `k` after `a` is at `a + k`. `store m a n b` writes the
`n` bytes `b 0`, `b 1`, … from `a` on, and `dword`, `dwordByte` go between eight bytes and a word,
low byte first.
-/

namespace RpiOs.Lib

/-- Bytes by address. -/
abbrev Memory := BitVec 64 → BitVec 8

/-- Write `n` bytes from `a` on. -/
def Memory.store (m : Memory) (a : BitVec 64) (n : Nat) (b : Nat → BitVec 8) : Memory := fun p =>
  if (p - a).toNat < n then b (p - a).toNat else m p

/-- The bytes from `a` on. -/
def Memory.load (m : Memory) (a : BitVec 64) : Nat → BitVec 8 := fun k => m (a + BitVec.ofNat 64 k)

lemma add_ofNat_sub_toNat (a : BitVec 64) {k : Nat} (hk : k < 2 ^ 64) :
    (a + BitVec.ofNat 64 k - a).toNat = k := by
  rw [BitVec.add_comm, BitVec.add_sub_cancel, BitVec.toNat_ofNat, Nat.mod_eq_of_lt hk]

lemma Memory.load_store (m : Memory) (a : BitVec 64) {n k : Nat} (b : Nat → BitVec 8) (hk : k < n)
    (hn : n ≤ 2 ^ 64) : (m.store a n b).load a k = b k := by
  have hoff := add_ofNat_sub_toNat a (hk.trans_le hn)
  rw [load, store, hoff, if_pos hk]

/-- What lies above the bytes written, up to once around the address space, is not changed. -/
lemma Memory.load_store_above (m : Memory) {a a' : BitVec 64} {d n k : Nat} (b : Nat → BitVec 8)
    (ha : a' = a + BitVec.ofNat 64 d) (hn : n ≤ d) (hk : d + k < 2 ^ 64) :
    (m.store a n b).load a' k = m.load a' k := by
  have hoff : (a' + BitVec.ofNat 64 k - a).toNat = d + k := by
    rw [ha, BitVec.add_assoc, ← BitVec.ofNat_add]
    exact add_ofNat_sub_toNat a hk
  rw [load, store, hoff, if_neg (by omega), load]

/-- Byte `k` of a word, the lowest first. -/
def dwordByte (w : BitVec 64) (k : Nat) : BitVec 8 := BitVec.ofNat 8 (w.toNat / 256 ^ k)

/-- The word that eight bytes give. -/
def dword (b : Nat → BitVec 8) : BitVec 64 :=
  BitVec.ofNat 64 ((List.range 8).foldr (fun k n => n + 256 ^ k * (b k).toNat) 0)

lemma dword_dwordByte (w : BitVec 64) : dword (dwordByte w) = w := by
  apply BitVec.eq_of_toNat_eq
  have hw := w.isLt
  simp only [dword, dwordByte, List.range, List.range.loop, List.foldr, BitVec.toNat_ofNat]
  omega

lemma dword_congr {b b' : Nat → BitVec 8} (h : ∀ k < 8, b k = b' k) : dword b = dword b' := by
  simp only [dword, List.range, List.range.loop, List.foldr, h 0 (by decide), h 1 (by decide),
    h 2 (by decide), h 3 (by decide), h 4 (by decide), h 5 (by decide), h 6 (by decide),
    h 7 (by decide)]

end RpiOs.Lib
