import Mathlib.Data.BitVec

/-!
# Byte arrays and the little-endian words in them

A byte array is a function from offsets to bytes; where an array has a size, the offsets at and
beyond it are not used. `word b i` is the `i`-th 32-bit little-endian word and `setWord` writes one.
The lemmas say what a read returns after a write, at the same place and at any other.
-/

namespace RpiOs.Lib

/-- Bytes by offset. -/
abbrev Bytes := Nat → BitVec 8

/-- All bytes zero. -/
def zeroBytes : Bytes := fun _ => 0

/-- `b` with the `n` bytes from `off` replaced by those of `src` from `soff`. -/
def splice (b : Bytes) (off : Nat) (src : Bytes) (soff n : Nat) : Bytes := fun i =>
  if off ≤ i ∧ i < off + n then src (soff + (i - off)) else b i

variable (b : Bytes)

lemma splice_zero (off : Nat) (src : Bytes) (soff : Nat) : splice b off src soff 0 = b := by
  funext i
  exact if_neg (by omega)

lemma splice_congr {src src' : Bytes} {off soff soff' n : Nat}
    (h : ∀ k < n, src (soff + k) = src' (soff' + k)) :
    splice b off src soff n = splice b off src' soff' n := by
  funext i
  unfold splice
  split
  · exact h _ (by omega)
  · rfl

/-- Two copies in a row are one. -/
lemma splice_append (src : Bytes) (off soff n n' : Nat) :
    splice (splice b off src soff n) (off + n) src (soff + n) n' = splice b off src soff
      (n + n') := by
  funext i
  unfold splice
  by_cases h : off ≤ i ∧ i < off + n
  · rw [if_neg (by omega), if_pos h, if_pos (by omega)]
  by_cases h' : off ≤ i ∧ i < off + (n + n')
  · rw [if_pos (by omega), if_pos h']
    congr 1
    omega
  · rw [if_neg (by omega), if_neg h, if_neg h']

/-- The `i`-th little-endian 32-bit word. -/
def word (b : Bytes) (i : Nat) : Nat :=
  (b (4 * i)).toNat + 256 * (b (4 * i + 1)).toNat + 65536 * (b (4 * i + 2)).toNat +
    16777216 * (b (4 * i + 3)).toNat

/-- Write `n` (modulo `2 ^ 32`) as the `i`-th word. -/
def setWord (b : Bytes) (i n : Nat) : Bytes := fun j =>
  if j / 4 = i then BitVec.ofNat 8 (n / 256 ^ (j % 4)) else b j

lemma word_lt (i : Nat) : word b i < 2 ^ 32 := by
  have h0 := (b (4 * i)).isLt
  have h1 := (b (4 * i + 1)).isLt
  have h2 := (b (4 * i + 2)).isLt
  have h3 := (b (4 * i + 3)).isLt
  rw [word]
  omega

@[simp] lemma word_zeroBytes (i : Nat) : word zeroBytes i = 0 := rfl

lemma word_setWord_self (i n : Nat) : word (setWord b i n) i = n % 2 ^ 32 := by
  have hd : ∀ r < 4, (4 * i + r) / 4 = i ∧ (4 * i + r) % 4 = r := by omega
  have h0 := hd 0 (by omega)
  have h1 := hd 1 (by omega)
  have h2 := hd 2 (by omega)
  have h3 := hd 3 (by omega)
  simp only [Nat.add_zero] at h0
  simp only [word, setWord, h0, h1, h2, h3, if_true, BitVec.toNat_ofNat]
  omega

lemma word_setWord_of_ne {i j : Nat} (n : Nat) (h : j ≠ i) :
    word (setWord b i n) j = word b j := by
  have hd : ∀ r < 4, (4 * j + r) / 4 ≠ i := by omega
  simp [word, setWord, hd, h]

lemma word_setWord (i j n : Nat) :
    word (setWord b i n) j = if j = i then n % 2 ^ 32 else word b j := by
  split
  · next h => rw [h, word_setWord_self]
  · next h => exact word_setWord_of_ne b n h

/-- The `i`-th little-endian 16-bit half-word. -/
def half (b : Bytes) (i : Nat) : Nat := (b (2 * i)).toNat + 256 * (b (2 * i + 1)).toNat

/-- Write `n` (modulo `2 ^ 16`) as the `i`-th half-word. -/
def setHalf (b : Bytes) (i n : Nat) : Bytes := fun j =>
  if j / 2 = i then BitVec.ofNat 8 (n / 256 ^ (j % 2)) else b j

lemma half_setHalf (i j n : Nat) :
    half (setHalf b i n) j = if j = i then n % 2 ^ 16 else half b j := by
  unfold half setHalf
  by_cases h : j = i
  · rw [if_pos (by omega), if_pos (by omega), if_pos h, BitVec.toNat_ofNat, BitVec.toNat_ofNat,
      show 2 * j % 2 = 0 by omega, show (2 * j + 1) % 2 = 1 by omega]
    omega
  · rw [if_neg (by omega), if_neg (by omega), if_neg h]

lemma word_setHalf_of_ne {i j : Nat} (n : Nat) (h : j ≠ i / 2) :
    word (setHalf b i n) j = word b j := by
  have hd : ∀ k, k / 4 = j → setHalf b i n k = b k := by
    intro k hk
    refine if_neg ?_
    omega
  unfold word
  rw [hd (4 * j) (by omega), hd (4 * j + 1) (by omega), hd (4 * j + 2) (by omega),
    hd (4 * j + 3) (by omega)]

/-- Write the words of a list from index `i` on. -/
def setWords (b : Bytes) (i : Nat) : List Nat → Bytes
  | [] => b
  | n :: ns => setWords (setWord b i n) (i + 1) ns

lemma word_setWords_lt (i : Nat) (ns : List Nat) {j : Nat} (hj : j < i) :
    word (setWords b i ns) j = word b j := by
  induction ns generalizing b i with
  | nil => rfl
  | cons n ns ih => rw [setWords, ih _ _ (by omega), word_setWord_of_ne _ _ (by omega)]

lemma word_setWords_ge (i : Nat) (ns : List Nat) {j : Nat} (hj : i + ns.length ≤ j) :
    word (setWords b i ns) j = word b j := by
  induction ns generalizing b i with
  | nil => rfl
  | cons n ns ih =>
    rw [List.length_cons] at hj
    rw [setWords, ih _ _ (by omega), word_setWord_of_ne _ _ (by omega)]

/-- The words that were written are read back. -/
lemma word_setWords (i : Nat) (ns : List Nat) (j : Nat) (hj : j < ns.length) :
    word (setWords b i ns) (i + j) = ns[j] % 2 ^ 32 := by
  induction ns generalizing b i j with
  | nil => simp at hj
  | cons n ns ih => ?_
  cases j with
  | zero =>
    simp only [Nat.add_zero, setWords]
    rw [word_setWords_lt _ _ _ (Nat.lt_succ_self i), word_setWord_self]
    rfl
  | succ j =>
    have := ih (setWord b i n) (i + 1) j (by simpa using hj)
    rw [show i + (j + 1) = i + 1 + j by omega, setWords, this]
    rfl

end RpiOs.Lib
