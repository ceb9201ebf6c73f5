import Mathlib.Data.BitVec
import Mathlib.Logic.Function.Basic

/-!
# A circular buffer with free-running counters

`cap` cells used in a circle. The counters `nread` and `nwrite` are never reduced: they run through
all values of `w` bits and start again at zero, and a cell is found by the counter modulo `cap`.
This is sound as long as `cap` divides `2 ^ w`, so that the two ways of starting again agree.

* `Holds.put`, `Holds.take`: writing at `nwrite` appends, reading at `nread` removes the first.
-/

namespace RpiOs.Lib

open Function

/-- The cells and the two counters. -/
structure Fifo (w : Nat) (α : Type*) where
  data : Nat → α
  nread : BitVec w
  nwrite : BitVec w

namespace Fifo

variable {w : Nat} {α : Type*}

/-- Write at `nwrite`. -/
def put (cap : Nat) (b : Fifo w α) (x : α) : Fifo w α :=
  { b with data := update b.data (b.nwrite.toNat % cap) x, nwrite := b.nwrite + 1 }

/-- The cell at `nread`. -/
def front (cap : Nat) (b : Fifo w α) : α :=
  b.data (b.nread.toNat % cap)

/-- Go past the cell at `nread`. -/
def take (b : Fifo w α) : Fifo w α :=
  { b with nread := b.nread + 1 }

/-- The buffer holds `q`, oldest element first. -/
structure Holds (cap : Nat) (b : Fifo w α) (q : List α) : Prop where
  fits : q.length ≤ cap
  count : b.nwrite = b.nread + BitVec.ofNat w q.length
  cells : ∀ k (h : k < q.length), b.data ((b.nread + BitVec.ofNat w k).toNat % cap) = q[k]

variable {cap : Nat} {b : Fifo w α} {q : List α} {x : α}

lemma toNat_add_mod (hdvd : cap ∣ 2 ^ w) (c : BitVec w) (k : Nat) :
    (c + BitVec.ofNat w k).toNat % cap = (c.toNat + k) % cap := by
  rw [BitVec.toNat_add, BitVec.toNat_ofNat, Nat.add_mod_mod, Nat.mod_mod_of_dvd _ hdvd]

lemma add_one_add_ofNat (c : BitVec w) (k : Nat) :
    c + 1 + BitVec.ofNat w k = c + BitVec.ofNat w (k + 1) := by
  rw [Nat.add_comm, BitVec.ofNat_add, ← BitVec.add_assoc]
  rfl

lemma holds_nil (data : Nat → α) (c : BitVec w) : Holds cap ⟨data, c, c⟩ [] where
  fits := Nat.zero_le _
  count := by simp
  cells k h := absurd h (Nat.not_lt_zero k)

section

variable (h : Holds cap b q)
include h

lemma Holds.distance (hcap : cap < 2 ^ w) : (b.nwrite - b.nread).toNat = q.length := by
  have hlt : q.length < 2 ^ w := lt_of_le_of_lt h.fits hcap
  rw [h.count, BitVec.add_comm, BitVec.add_sub_cancel, BitVec.toNat_ofNat, Nat.mod_eq_of_lt hlt]

lemma Holds.empty_iff (hcap : cap < 2 ^ w) : b.nread = b.nwrite ↔ q = [] := by
  constructor
  · intro heq
    have hdist := h.distance hcap
    rw [heq, BitVec.sub_self] at hdist
    exact List.eq_nil_of_length_eq_zero hdist.symm
  · rintro rfl
    simp [h.count]

/-- The test for a full buffer, with counters that wrap around. -/
lemma Holds.full_iff (hcap : cap < 2 ^ w) :
    b.nwrite = b.nread + BitVec.ofNat w cap ↔ q.length = cap := by
  constructor
  · intro heq
    have hdist := h.distance hcap
    rw [heq, BitVec.add_comm, BitVec.add_sub_cancel, BitVec.toNat_ofNat,
      Nat.mod_eq_of_lt hcap] at hdist
    exact hdist.symm
  · intro hlen
    rw [h.count, hlen]

/-- The cell at `nwrite` is none of those in use as long as one is free. -/
lemma nwrite_cell_ne (hdvd : cap ∣ 2 ^ w) (hfree : q.length < cap) {k : Nat} (hk : k < q.length) :
    (b.nread + BitVec.ofNat w k).toNat % cap ≠ b.nwrite.toNat % cap := by
  rw [h.count, toNat_add_mod hdvd, toNat_add_mod hdvd]
  intro heq
  have hmod : k ≡ q.length [MOD cap] := Nat.ModEq.add_left_cancel' _ heq
  have : k = q.length := by
    rw [← Nat.mod_eq_of_lt (hk.trans hfree), hmod, Nat.mod_eq_of_lt hfree]
  omega

/-- **Writing appends.** -/
theorem Holds.put (hdvd : cap ∣ 2 ^ w) (hfree : q.length < cap) :
    Holds cap (b.put cap x) (q ++ [x]) where
  fits := by
    rw [List.length_append, List.length_singleton]
    exact hfree
  count := by
    show b.nwrite + 1 = b.nread + BitVec.ofNat w (q ++ [x]).length
    rw [h.count, List.length_append, List.length_singleton, BitVec.add_assoc, BitVec.ofNat_add]
    rfl
  cells k hk := by
    show update b.data (b.nwrite.toNat % cap) x
      ((b.nread + BitVec.ofNat w k).toNat % cap) = _
    rcases Nat.lt_or_ge k q.length with hlt | hge
    · rw [update_of_ne (nwrite_cell_ne h hdvd hfree hlt), List.getElem_append_left hlt]
      exact h.cells k hlt
    obtain rfl : k = q.length := by
      rw [List.length_append, List.length_singleton] at hk
      omega
    rw [← h.count, update_self]
    simp

end

/-- **Reading takes the oldest.** -/
theorem Holds.take (h : Holds cap b (x :: q)) : b.front cap = x ∧ Holds cap b.take q := by
  constructor
  · have := h.cells 0 (Nat.succ_pos _)
    simpa [front] using this
  refine ⟨?_, ?_, ?_⟩
  · exact (Nat.le_succ _).trans h.fits
  · show b.nwrite = b.nread + 1 + BitVec.ofNat w q.length
    rw [h.count, add_one_add_ofNat, List.length_cons]
  intro k hk
  show b.data ((b.nread + 1 + BitVec.ofNat w k).toNat % cap) = q[k]
  rw [add_one_add_ofNat]
  exact h.cells (k + 1) (Nat.succ_lt_succ hk)

end Fifo

end RpiOs.Lib
