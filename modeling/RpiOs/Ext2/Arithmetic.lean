import Mathlib.Tactic.IntervalCases
import RpiOs.Ext2.AllocBlocks

/-!
# Bitmaps, block paths and sparse groups

Three calculations of `kern/find_bits.c` and `kern/ext2.c`, on all their inputs.

* `find_next_zero_bit_iff`: `__ffs` is wrong for most bits, and the search with it.
* `block_paths_exact`: the path to a block of a file.
* `group_sparse_iff`: `test_root` adds where it should multiply.
-/

namespace RpiOs.Ext2

open Lib

/-! ## Searching a bitmap -/

variable {x : Bytes} {w tmp result i j r a n size offset : Nat}

/-- The bits of a word of the bitmap, in little-endian order. -/
lemma testBit_long (x : Bytes) (i : Nat) (hj : j < 64) :
    (long x i).testBit j = bitAt x (64 * i + j) := by
  have hbyte : long x i / 2 ^ (j / 8 * 8) % 2 ^ 8 = (x (8 * i + j / 8)).toNat := by
    have hlt := fun k => (x (8 * i + k)).isLt
    have h0 := hlt 0
    have h1 := hlt 1
    have h2 := hlt 2
    have h3 := hlt 3
    have h4 := hlt 4
    have h5 := hlt 5
    have h6 := hlt 6
    have h7 := hlt 7
    have hq : j / 8 < 8 := by omega
    unfold long word
    rw [show 4 * (2 * i) = 8 * i by omega, show 4 * (2 * i + 1) = 8 * i + 4 by omega]
    simp only [Nat.add_assoc, Nat.reduceAdd]
    generalize j / 8 = q at hq
    interval_cases q <;> simp <;> omega
  rw [bitAt_eq, show (64 * i + j) / 8 = 8 * i + j / 8 by omega,
    show (64 * i + j) % 8 = j % 8 by omega, BitVec.getLsbD,
    ← hbyte, Nat.testBit_mod_two_pow, Nat.testBit_div_two_pow, show j % 8 + j / 8 * 8 = j by omega]
  simp [show j % 8 < 8 by omega]

lemma long_lt (x : Bytes) (i : Nat) : long x i < 2 ^ 64 := by
  have h0 := word_lt x (2 * i)
  have h1 := word_lt x (2 * i + 1)
  unfold long
  omega

/-- The lowest bit that is set. -/
def Lowest (w r : Nat) : Prop := w.testBit r = true ∧ ∀ j < r, w.testBit j = false

/-- The low bits are clear exactly below the lowest set one. -/
lemma Lowest.mod_eq_zero (h : Lowest w r) (bits : Nat) : w % 2 ^ bits = 0 ↔ bits ≤ r := by
  constructor
  · intro hz
    by_contra hlt
    have hbit := Nat.testBit_mod_two_pow w bits r
    rw [hz, h.1] at hbit
    simp [show r < bits by omega] at hbit
  intro hle
  refine Nat.eq_of_testBit_eq fun j => ?_
  rw [Nat.testBit_mod_two_pow, Nat.zero_testBit]
  by_cases hj : j < bits
  · rw [h.2 j (by omega), Bool.and_false]
  · simp [hj]

lemma Lowest.shift (h : Lowest w r) {n : Nat} (hn : n ≤ r) : Lowest (w / 2 ^ n) (r - n) := by
  refine ⟨?_, fun j hj => ?_⟩
  · rw [Nat.testBit_div_two_pow, Nat.sub_add_cancel hn, h.1]
  · rw [Nat.testBit_div_two_pow, h.2 _ (by omega)]

/-- Two rounds of `__ffs` that have the same number and the same lowest bit. -/
def SameRound (s t : Nat × Nat) : Prop := s.1 = t.1 ∧ ∃ r, Lowest s.2 r ∧ Lowest t.2 r

lemma SameRound.step {s t : Nat × Nat} (h : SameRound s t) {bits shift : Nat} (hle : shift ≤ bits)
    (f : Nat → Nat) :
    SameRound (ffsStep bits shift f s) (ffsStep bits shift f t) := by
  obtain ⟨hnum, r, hs, ht⟩ := h
  unfold ffsStep
  simp only [hs.mod_eq_zero, ht.mod_eq_zero]
  split
  · exact ⟨by rw [hnum], r - shift, hs.shift (by omega), ht.shift (by omega)⟩
  · exact ⟨hnum, r, hs, ht⟩

/-- **`__ffs` depends on the lowest bit only.** -/
lemma ffs_eq (h : Lowest w r) : ffs w = ffs (2 ^ r) := by
  have hpow : Lowest (2 ^ r) r := ⟨by simp, fun j hj => Nat.testBit_two_pow_of_ne (by omega)⟩
  have h0 : SameRound (0, w) (0, 2 ^ r) := ⟨rfl, r, h, hpow⟩
  exact (((((((h0.step (by decide) _).step (by decide) _).step (by decide) _).step (by decide)
    _).step (by decide) _).step (by decide) _)).1

/-- What the search makes of a clear bit. -/
def reported (i : Nat) : Nat := i / 64 * 64 + ffs (2 ^ (i % 64))

/-- A search in two parts. -/
lemma firstClear_append (x : Bytes) (i m n : Nat) :
    firstClear x i (m + n) = (firstClear x i m).or (firstClear x (i + m) n) := by
  induction m generalizing i with
  | zero => simp [firstClear]
  | succ m ih =>
    rw [show m + 1 + n = m + n + 1 by omega]
    rw [firstClear, firstClear]
    split
    · rw [ih, show i + 1 + m = i + (m + 1) by omega]
    · rfl

/-- **One word**, of which the bits below `a` are masked, and those from `size` on. -/
lemma ffz_word (d : Nat) (hlt : tmp < 2 ^ 64) (hres : result % 64 = 0) (ha : a ≤ n) (hn : n ≤ 64)
    (hbits : ∀ j < 64, tmp.testBit j = (decide (j < a) || decide (n ≤ j) || bitAt x (result + j))) :
    (if tmp = ones then d else result + ffz tmp) =
    (firstClear x (result + a) (n - a)).elim d reported := by
  cases hfind : firstClear x (result + a) (n - a) with
  | none =>
    refine if_pos (Nat.eq_of_testBit_eq fun j => ?_)
    rw [show ones = 2 ^ 64 - 1 from rfl, Nat.testBit_two_pow_sub_one]
    by_cases hj : j < 64
    · rw [hbits j hj]
      by_cases hin : a ≤ j ∧ j < n
      · simp [hj, firstClear_eq_none hfind (show result + a ≤ result + j by omega) (by omega)]
      · simp [hj]
        omega
    · rw [Nat.testBit_lt_two_pow (hlt.trans_le (Nat.pow_le_pow_right (by decide) (by omega)))]
      simp [hj]
  | some i =>
    obtain ⟨hlo, hhi, hclear, hall⟩ := firstClear_eq_some hfind
    have hcomp : ∀ j < 64, (ones - tmp).testBit j = !tmp.testBit j := fun j hj => by
      rw [show ones - tmp = 2 ^ 64 - (tmp + 1) by unfold ones; omega,
        Nat.testBit_two_pow_sub_succ hlt]
      simp [hj]
    have hi : i - result < 64 := by omega
    have hbit : tmp.testBit (i - result) = false := by
      rw [hbits _ hi, show result + (i - result) = i by omega, hclear]
      simp
      omega
    have hlow : Lowest (ones - tmp) (i - result) := by
      refine ⟨by rw [hcomp _ hi, hbit]; rfl, fun j hj => ?_⟩
      rw [hcomp j (by omega), hbits j (by omega)]
      by_cases hja : j < a
      · simp [hja]
      · simp [hall (result + j) (by omega) (by omega)]
    have hne : tmp ≠ ones := by
      rintro rfl
      rw [show ones = 2 ^ 64 - 1 from rfl, Nat.testBit_two_pow_sub_one] at hbit
      simp at hbit
      omega
    rw [if_neg hne, ffz, ffs_eq hlow]
    show _ = i / 64 * 64 + ffs (2 ^ (i % 64))
    rw [show i / 64 * 64 = result by omega, show i % 64 = i - result by omega]

/-- The last word of the search, with the bits before the offset set. -/
lemma foundFirst_eq (hlt : tmp < 2 ^ 64) (hres : result % 64 = 0) (ha : a ≤ size)
    (hsize : size < 64)
    (hbits : ∀ j < 64, tmp.testBit j = (decide (j < a) || bitAt x (result + j))) :
    foundFirst tmp result size = (firstClear x (result + a) (size - a)).elim
      (result + size) reported := by
  refine ffz_word _ (Nat.or_lt_two_pow hlt (by unfold ones; omega)) hres ha hsize.le fun j hj => ?_
  have hpow : 2 ^ size < 2 ^ 64 := Nat.pow_lt_pow_right (by decide) hsize
  rw [Nat.testBit_or, hbits j hj, show ones - (2 ^ size - 1) = 2 ^ 64 -
    (2 ^ size - 1 + 1) by unfold ones; omega,
    Nat.testBit_two_pow_sub_succ (by omega), Nat.testBit_two_pow_sub_one]
  grind

/-- The search over whole words finds the first clear bit, as `ffz` reports it. -/
lemma zeroBitFrom_eq (x : Bytes) {n : Nat} (hn : size / 64 ≤ n) (hres : result % 64 = 0) :
    zeroBitFrom x n result size = (firstClear x result size).elim (result + size) reported := by
  have hlast : ∀ {result size}, result % 64 = 0 → size < 64 →
      (if size = 0 then result else foundFirst (long x (result / 64)) result size) =
        (firstClear x result size).elim (result + size) reported := fun {result size} hres hlt => by
    by_cases h0 : size = 0
    · simp [h0, firstClear]
    rw [if_neg h0]
    refine foundFirst_eq (a := 0) (long_lt x _) hres (by omega) hlt fun j hj => ?_
    rw [testBit_long x _ hj, show 64 * (result / 64) + j = result + j by omega]
    simp
  induction n generalizing result size with
  | zero => exact hlast hres (by omega)
  | succ n ih =>
    unfold zeroBitFrom
    by_cases hlt : 64 ≤ size
    swap
    · rw [if_neg hlt]
      exact hlast hres (by omega)
    obtain ⟨m, rfl⟩ := Nat.exists_eq_add_of_le hlt
    rw [if_pos hlt, ite_not, ih (by omega) (by omega), firstClear_append, Nat.add_sub_cancel_left]
    refine (ffz_word (x := x) (a := 0) (n := 64) _ (long_lt x (result / 64)) hres (by decide)
      (by decide) fun j hj => ?_).trans ?_
    · rw [testBit_long x _ hj, show 64 * (result / 64) + j = result + j by omega]
      simp
      omega
    · rw [Nat.add_assoc]
      cases firstClear x result 64 <;> rfl

/-- **The search**, with what it makes of the bit it finds. -/
lemma findNextZeroBit_eq (x : Bytes) (size offset : Nat) :
    findNextZeroBit x size offset = (firstClear x offset (size - offset)).elim size reported := by
  unfold findNextZeroBit
  by_cases hle : size ≤ offset
  · rw [if_pos hle, Nat.sub_eq_zero_of_le hle]
    rfl
  dsimp only
  rw [if_neg hle]
  by_cases hoff : offset % 64 = 0
  · rw [if_neg (not_not.mpr hoff), zeroBitFrom_eq x (by omega) (by omega),
      show offset / 64 * 64 = offset by omega, Nat.add_sub_cancel' (by omega)]
  rw [if_pos hoff]
  have hmask : long x (offset / 64) ||| (2 ^ (offset % 64) - 1) < 2 ^ 64 := by
    refine Nat.or_lt_two_pow (long_lt x _) ?_
    have : 2 ^ (offset % 64) < 2 ^ 64 := Nat.pow_lt_pow_right (by decide) (by omega)
    omega
  have hbits : ∀ j < 64, (long x (offset / 64) ||| (2 ^ (offset % 64) - 1)).testBit j =
      (decide (j < offset % 64) || bitAt x (offset / 64 * 64 + j)) := fun j hj => by
    rw [Nat.testBit_or, testBit_long x _ hj, Nat.testBit_two_pow_sub_one, Bool.or_comm,
      Nat.mul_comm]
  by_cases hlast : size - offset / 64 * 64 < 64
  · rw [if_pos hlast, foundFirst_eq hmask (by omega) (by omega) hlast hbits,
      show offset / 64 * 64 + offset % 64 = offset by omega,
      show size - offset / 64 * 64 - offset % 64 = size - offset by omega,
        Nat.add_sub_cancel' (by omega)]
  rw [if_neg hlast, ite_not, zeroBitFrom_eq x (by omega) (by omega)]
  refine (ffz_word (x := x) (a := offset % 64) (n := 64) _ hmask (by omega) (by omega) (by decide)
    fun j hj => ?_).trans ?_
  · rw [hbits j hj, decide_eq_false (show ¬ 64 ≤ j by omega), Bool.or_false]
  · rw [show size - offset = 64 - offset % 64 + (size - offset / 64 * 64 - 64) by omega,
      firstClear_append, show offset / 64 * 64 + offset % 64 = offset by omega,
      show offset + (64 - offset % 64) = offset / 64 * 64 + 64 by omega,
      show offset / 64 * 64 + 64 + (size - offset / 64 * 64 - 64) = size by omega]
    cases firstClear x offset (64 - offset % 64) <;> rfl

/-- **When `find_next_zero_bit` is right**: there is no clear bit, or the first one is among the low
8 bits of a 32-bit word or its bit 15. -/
theorem find_next_zero_bit_iff (x : Bytes) (size offset : Nat) :
    findNextZeroBit x size offset = (firstClear x offset (size - offset)).getD size ↔
      ∀ i ∈ firstClear x offset (size - offset), i % 32 < 8 ∨ i % 32 = 15 := by
  have hbits : ∀ r < 64, (ffs (2 ^ r) = r ↔ r % 32 < 8 ∨ r % 32 = 15) := by decide +kernel
  rw [findNextZeroBit_eq]
  cases firstClear x offset (size - offset) with
  | none => simp
  | some i =>
    have hi := hbits (i % 64) (by omega)
    rw [Nat.mod_mod_of_dvd i (by decide)] at hi
    simp only [Option.elim_some, Option.getD_some, Option.mem_def, Option.some.injEq, forall_eq',
      reported, ← hi]
    omega

/-- **A free block that is missed**: bit 8 is clear, and the search returns 10. -/
theorem find_next_zero_bit_misses : firstClear (fun _ => 0) 8 16 = some 8 ∧
    findNextZeroBit (fun _ => 0) 24 8 = 10 := by
  decide

/-! ## The path to a block -/

/-- `if (!(word & (~0ul << (64 - bits)))) { num -= bits; word <<= bits; }`. -/
def flsStep (bits : Nat) (s : Nat × Nat) : Nat × Nat :=
  if s.2 < 2 ^ (64 - bits) then (s.1 - bits, s.2 * 2 ^ bits % 2 ^ 64) else s

/-- `__fls`. -/
def fls (w : Nat) : Nat :=
    (flsStep 1 (flsStep 2 (flsStep 4 (flsStep 8 (flsStep 16 (flsStep 32 (63, w))))))).1

def fls64 (w : Nat) : Nat := if w = 0 then 0 else fls w + 1

/-- `__ilog2_u64`. -/
def ilog2 (n : Nat) : Nat := fls64 n - 1

/-- The offsets of a path are in range. -/
def PathOk (p : Nat) : List Nat → Prop
  | [] => False
  | i :: rest => i < 15 ∧ rest.length ≤ 3 ∧ ∀ j ∈ rest, j < p

/-- The block at the end of a path. -/
def blockAt (p : Nat) : List Nat → Nat
  | [i] => i
  | [_, i] => 12 + i
  | [_, i, j] => 12 + p + i * p + j
  | [_, i, j, k] => 12 + p + p ^ 2 + (i * p + j) * p + k
  | _ => 0

/-- **The path of a block**, and beyond the last one none. -/
lemma blockToPath_spec {sb : SuperBlock} (hsize : sb.blocksize ∈ [1024, 2048, 4096])
    (hbits : sb.addrPerBlockBits = ilog2 sb.addrPerBlock) (n : Nat) :
    let p := sb.addrPerBlock
    blockToPath sb n = none ∧ 12 + p + p ^ 2 + p ^ 3 ≤ n ∨
      ∃ path k, blockToPath sb n = some (path, k) ∧ n < 12 + p + p ^ 2 + p ^ 3 ∧ PathOk p path ∧
        blockAt p path = n := by
  have hcases : sb.addrPerBlock = 256 ∧ sb.addrPerBlockBits = 8 ∨
      sb.addrPerBlock = 512 ∧ sb.addrPerBlockBits = 9 ∨ sb.addrPerBlock = 1024 ∧
        sb.addrPerBlockBits = 10 := by
    rw [hbits]
    unfold SuperBlock.addrPerBlock
    simp only [List.mem_cons, List.not_mem_nil, or_false] at hsize
    rcases hsize with h | h | h <;> rw [h] <;> decide
  rcases hcases with ⟨hp, hb⟩ | ⟨hp, hb⟩ | ⟨hp, hb⟩ <;>
  · fun_cases blockToPath sb n
    case case5 => exact .inl ⟨rfl, by simp +zetaDelta only [ndirBlocks, hp, hb] at *; omega⟩
    all_goals
      refine .inr ⟨_, _, rfl, ?_⟩
      simp +zetaDelta only [PathOk, blockAt, List.length_cons, List.length_nil,
        List.forall_mem_cons,
        List.not_mem_nil, false_imp_iff, implies_true, and_true, ndirBlocks, hp, hb] at *
      omega

/-- **Paths are exact**: the panic is beyond the last block, every path is in range, and no two
blocks share one. -/
theorem block_paths_exact {sb : SuperBlock} (hsize : sb.blocksize ∈ [1024, 2048, 4096])
    (hbits : sb.addrPerBlockBits = ilog2 sb.addrPerBlock) (n : Nat) :
    let p := sb.addrPerBlock
    (blockToPath sb n = none ↔ 12 + p + p ^ 2 + p ^ 3 ≤ n) ∧
      ∀ path k, blockToPath sb n = some (path, k) →
      PathOk p path ∧ blockAt p path = n ∧ ∀ m l, blockToPath sb m = some (path, l) → m = n := by
  have hback : ∀ {n path k}, blockToPath sb n = some (path, k) →
      PathOk sb.addrPerBlock path ∧ blockAt sb.addrPerBlock path = n := fun {n path k} h => by
    obtain ⟨hnone, -⟩ | ⟨path', k', hsome, -, hok⟩ := blockToPath_spec hsize hbits n
    · rw [hnone] at h
      cases h
    · rw [hsome] at h
      cases h
      exact hok
  refine ⟨?_, fun path k h => ⟨(hback h).1, (hback h).2, fun m l hm => ?_⟩⟩
  · obtain ⟨hnone, hle⟩ | ⟨path, k, hsome, hlt, -⟩ := blockToPath_spec hsize hbits n
    · exact iff_of_true hnone hle
    · exact iff_of_false (by simp [hsome]) (Nat.not_le.mpr hlt)
  · rw [← (hback hm).2, (hback h).2]

/-- Block 5000 with blocks of 4 KiB. -/
theorem block_paths_exact_tiny : let p := tinyFs.sb.addrPerBlock
    (blockToPath tinyFs.sb 5000 = none ↔ 12 + p + p ^ 2 + p ^ 3 ≤ 5000) ∧
      ∀ path k, blockToPath tinyFs.sb 5000 = some (path, k) →
        PathOk p path ∧ blockAt p path = 5000 ∧
        ∀ m l, blockToPath tinyFs.sb m = some (path, l) → m = 5000 :=
  block_paths_exact (by decide) (by decide) 5000

/-! ## Sparse groups -/

/-- The loop of `test_root`; `n` bounds its rounds. -/
def testRootFrom (a b : Nat) : Nat → Nat → Nat
  | 0, num => num
  | n + 1, num => if num < a then testRootFrom a b n (num + b) else num

def testRoot (a b : Nat) : Bool := testRootFrom a b a b = a

def groupSparse (group : Nat) : Bool :=
    group ≤ 1 || (testRoot group 3 || testRoot group 5 || testRoot group 7)

variable {a b n num g : Nat}

lemma dvd_testRootFrom (h : b ∣ num) : b ∣ testRootFrom a b n num := by
  induction n generalizing num with
  | zero => exact h
  | succ n ih =>
    unfold testRootFrom
    split
    · exact ih (Nat.dvd_add h (dvd_refl b))
    · exact h

/-- The loop adds the base until it meets a multiple. -/
lemma testRootFrom_eq (hb : 0 < b) (ha : b ∣ a) (h : b ∣ num) (hle : num ≤ a) (hn : a ≤ num + n) :
    testRootFrom a b n num = a := by
  induction n generalizing num with
  | zero => exact Nat.le_antisymm hle hn
  | succ n ih =>
    unfold testRootFrom
    split
    · next hlt =>
      have := Nat.le_of_dvd (by omega) (Nat.dvd_sub ha h)
      exact ih (Nat.dvd_add h (dvd_refl b)) (by omega) (by omega)
    · omega

/-- **`test_root` finds the multiples.** -/
lemma testRoot_iff (hb : 0 < b) (ha : 0 < a) : testRoot a b = true ↔ b ∣ a := by
  rw [testRoot, decide_eq_true_iff]
  refine ⟨fun h => h ▸ dvd_testRootFrom (dvd_refl b), fun h => ?_⟩
  exact testRootFrom_eq hb h (dvd_refl b) (Nat.le_of_dvd ha h) (by omega)

/-- The groups that have a copy of the superblock. -/
def IsSparse (g : Nat) : Prop := g ≤ 1 ∨ ∃ k, 0 < k ∧ (g = 3 ^ k ∨ g = 5 ^ k ∨ g = 7 ^ k)

lemma groupSparse_iff (g : Nat) : groupSparse g = true ↔ g ≤ 1 ∨ 3 ∣ g ∨ 5 ∣ g ∨ 7 ∣ g := by
  by_cases hg : g ≤ 1
  · simp [groupSparse, hg]
  · simp [groupSparse, testRoot_iff _ (show 0 < g by omega), or_assoc]

/-- **When `ext2_group_sparse` is right**: the group is no multiple of 3, 5 or 7, or one of their
powers. -/
theorem group_sparse_iff (g : Nat) :
    (groupSparse g = true ↔ IsSparse g) ↔ ¬ (3 ∣ g ∨ 5 ∣ g ∨ 7 ∣ g) ∨ IsSparse g := by
  have hpow : IsSparse g → g ≤ 1 ∨ 3 ∣ g ∨ 5 ∣ g ∨ 7 ∣ g := by
    refine fun h => h.imp_right ?_
    rintro ⟨k, hk, rfl | rfl | rfl⟩
    · exact .inl (dvd_pow_self 3 (by omega))
    · exact .inr (.inl (dvd_pow_self 5 (by omega)))
    · exact .inr (.inr (dvd_pow_self 7 (by omega)))
  rw [groupSparse_iff]
  constructor
  · intro h
    by_cases hdvd : 3 ∣ g ∨ 5 ∣ g ∨ 7 ∣ g
    · exact .inr (h.mp (.inr hdvd))
    · exact .inl hdvd
  · rintro (hno | hs)
    · exact ⟨fun h => .inl (h.resolve_right hno), hpow⟩
    · exact ⟨fun _ => hs, hpow⟩

/-- Group 6 counts as sparse. -/
theorem group_sparse_six : groupSparse 6 = true ∧ ¬ IsSparse 6 := by
  refine ⟨by decide, ?_⟩
  have hsmall : ∀ k < 6, ¬ (6 = 3 ^ k ∨ 6 = 5 ^ k ∨ 6 = 7 ^ k) := by decide
  rintro (h | ⟨k, -, h⟩)
  · omega
  refine hsmall k ?_ h
  rcases h with h | h | h <;> rw [h] <;> exact Nat.lt_pow_self (by decide)

end RpiOs.Ext2
