import RpiOs.Lib.Bytes

/-!
# Bitmaps in byte arrays

Bit `i` of a byte array is bit `i % 8` of byte `i / 8`. The operations are the mask operations that
C code uses; `bitAt_setBit` and `bitAt_clearBit` say what a test sees after them. `firstClear` is
the linear search of an allocator.
-/

namespace RpiOs.Lib

/-- `1 << (i % 8)`. -/
def mask (i : Nat) : BitVec 8 := 1#8 <<< (i % 8)

/-- `b[i / 8] & mask`. -/
def bitAt (b : Bytes) (i : Nat) : Bool := b (i / 8) &&& mask i ≠ 0#8

/-- `b[i / 8] |= mask`. -/
def setBit (b : Bytes) (i : Nat) : Bytes := fun j => if j = i / 8 then b j ||| mask i else b j

/-- `b[i / 8] &= ~mask`. -/
def clearBit (b : Bytes) (i : Nat) : Bytes := fun j =>
  if j = i / 8 then b j &&& ~~~ mask i else b j

lemma getLsbD_mask {i k : Nat} (hk : k < 8) : (mask i).getLsbD k = decide (k = i % 8) := by
  unfold mask
  simp only [BitVec.getLsbD_shiftLeft, BitVec.getLsbD_one]
  grind

variable (b : Bytes)

/-- The test in the C code is bit `i % 8` of byte `i / 8`. -/
lemma bitAt_eq (i : Nat) : bitAt b i = (b (i / 8)).getLsbD (i % 8) := by
  have hlt : i % 8 < 8 := Nat.mod_lt _ (by decide)
  have hand : ∀ k < 8, (b (i / 8) &&& mask i).getLsbD k =
      ((b (i / 8)).getLsbD k && decide (k = i % 8)) := by
    intro k hk
    rw [BitVec.getLsbD_and, getLsbD_mask hk]
  unfold bitAt
  cases hb : (b (i / 8)).getLsbD (i % 8) with
  | true =>
    apply decide_eq_true
    intro hz
    have := hand (i % 8) hlt
    rw [hz, hb] at this
    simp at this
  | false => ?_
  apply decide_eq_false
  rw [not_not]
  apply BitVec.eq_of_getLsbD_eq
  intro k hk
  rw [hand k hk, BitVec.getLsbD_zero]
  by_cases hki : k = i % 8
  · rw [hki, hb, Bool.false_and]
  · simp [hki]

/-- What a test sees after a bit was set. -/
lemma bitAt_setBit (i j : Nat) : bitAt (setBit b i) j = (decide (j = i) || bitAt b j) := by
  have hlt : j % 8 < 8 := Nat.mod_lt _ (by decide)
  rw [bitAt_eq, bitAt_eq, setBit]
  by_cases hd : j / 8 = i / 8
  · rw [if_pos hd, BitVec.getLsbD_or, getLsbD_mask hlt, Bool.or_comm]
    congr 1
    have : j % 8 = i % 8 ↔ j = i := by omega
    simp [this]
  · have : j ≠ i := fun h => hd (by rw [h])
    rw [if_neg hd]
    simp [this]

/-- What a test sees after a bit was cleared. -/
lemma bitAt_clearBit (i j : Nat) :
    bitAt (clearBit b i) j = (!decide (j = i) && bitAt b j) := by
  have hlt : j % 8 < 8 := Nat.mod_lt _ (by decide)
  rw [bitAt_eq, bitAt_eq, clearBit]
  by_cases hd : j / 8 = i / 8
  · rw [if_pos hd, BitVec.getLsbD_and, BitVec.getLsbD_not, getLsbD_mask hlt, Bool.and_comm]
    have : j % 8 = i % 8 ↔ j = i := by omega
    simp [this, hlt]
  have : j ≠ i := fun h => hd (by rw [h])
  rw [if_neg hd]
  simp [this]

/-- The first clear bit among `n` from `i` on. -/
def firstClear (b : Bytes) : Nat → Nat → Option Nat
  | _, 0 => none
  | i, n + 1 => if bitAt b i then firstClear b (i + 1) n else some i

/-- A search that finds nothing has seen set bits only. -/
lemma firstClear_eq_none {b : Bytes} {i n j : Nat} (h : firstClear b i n = none) (hi : i ≤ j)
    (hj : j < i + n) :
    bitAt b j = true := by
  induction n generalizing i with
  | zero => omega
  | succ n ih => ?_
  rw [firstClear] at h
  split at h
  · next hb =>
    by_cases hji : j = i
    · rwa [hji]
    · exact ih h (by omega) (by omega)
  · cases h

/-- What a search finds is the first clear bit. -/
lemma firstClear_eq_some {b : Bytes} {i n k : Nat} (h : firstClear b i n = some k) :
    i ≤ k ∧ k < i + n ∧ bitAt b k = false ∧ ∀ j, i ≤ j → j < k → bitAt b j = true := by
  induction n generalizing i with
  | zero => exact absurd h (by simp [firstClear])
  | succ n ih => ?_
  rw [firstClear] at h
  split at h
  · next hb =>
    obtain ⟨h1, h2, h3, h4⟩ := ih h
    refine ⟨by omega, by omega, h3, fun j hj hjk => ?_⟩
    by_cases hji : j = i
    · rw [hji]
      exact hb
    · exact h4 j (by omega) hjk
  · next hb =>
    have hik : i = k := Option.some.inj h
    subst hik
    exact ⟨Nat.le_refl i, by omega, by simpa using hb, fun j hj hjk => by omega⟩

end RpiOs.Lib
