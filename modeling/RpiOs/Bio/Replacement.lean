import RpiOs.Bio.Interleave

/-!
# Which buffer is recycled

The comments of `bio.c` call `head.next` the most recently used buffer, and `bget` looks for a
buffer to recycle from the other end. But `brelse` puts a buffer at that other end, so the list runs
from the oldest release to the latest and `bget` takes the buffer that was released last.

* `bget_oldest_iff`: `bget` recycles the buffer released longest ago only where it has no choice.
-/

namespace RpiOs.Bio.Interleave

open Lib Kernel

/-- The system and the buffers that were released so far, the latest first. -/
structure Usage where
  sys : Sys
  released : List Nat

/-- A step, with the release it makes. -/
def Usage.use (u : Usage) (a : Act) : Usage :=
  ⟨step u.sys a, match a with
    | .brelse _ i => if (u.sys.mem.buf i).busy then i :: u.released else u.released
    | _ => u.released⟩

/-- The buffer is neither busy nor dirty. -/
def Usage.Free (u : Usage) (i : Nat) : Prop :=
  i ∈ u.sys.mem.head ∧ (u.sys.mem.buf i).busy = false ∧ (u.sys.mem.buf i).dirty = false

/-- No free buffer was released longer ago; one that was never released is older than the others. -/
def Usage.Oldest (u : Usage) (i : Nat) : Prop :=
  ∀ j, u.Free j → u.released.idxOf j ≤ u.released.idxOf i

/-- The list runs from the oldest release to the latest. -/
structure Ordered (head released : List Nat) : Prop where
  nodup : head.Nodup
  order : head.Pairwise fun i j => released.idxOf j ≤ released.idxOf i

variable {u : Usage} {i : Nat}

/-- A release puts the buffer last in the list and makes it the latest. -/
lemma Ordered.release {head released : List Nat} (h : Ordered head released) (i : Nat) :
    Ordered (head.erase i ++ [i]) (i :: released) := by
  have hne : ∀ j ∈ head.erase i, j ≠ i := fun j hj => (h.nodup.mem_erase_iff.mp hj).1
  constructor
  · refine List.nodup_append.mpr ⟨h.nodup.erase i, List.nodup_singleton i, ?_⟩
    simpa using hne
  refine List.pairwise_append.mpr ⟨?_, List.pairwise_singleton _ i, ?_⟩
  · refine (h.order.sublist List.erase_sublist).imp_of_mem fun {j k} hj hk hjk => ?_
    rw [List.idxOf_cons_ne _ (hne j hj).symm, List.idxOf_cons_ne _ (hne k hk).symm]
    exact Nat.succ_le_succ hjk
  · intro j _ k hk
    rw [List.mem_singleton.mp hk, List.idxOf_cons_self]
    exact Nat.zero_le _

/-- **Every step keeps the order.** -/
lemma ordered_use (h : Ordered u.sys.mem.head u.released) (a : Act) :
    Ordered (u.use a).sys.mem.head (u.use a).released := by
  cases a with
  | brelse p i =>
    simp only [Usage.use, step]
    split
    · exact h.release i
    · exact h
  | _ =>
    simp only [Usage.use, step]
    repeat' split
    all_goals exact h

/-- `bget` takes the free buffer released last. -/
lemma Ordered.latest (h : Ordered u.sys.mem.head u.released)
    (hi : recyclable u.sys.mem = some i) {j : Nat} (hj : u.Free j)
    : u.released.idxOf i ≤ u.released.idxOf j := by
  obtain ⟨-, late, early, hsplit, hlate⟩ := List.find?_eq_some_iff_append.mp hi
  have horder := List.pairwise_reverse.mpr h.order
  rw [hsplit] at horder
  have hmem : j ∈ late ++ i :: early := hsplit ▸ List.mem_reverse.mpr hj.1
  rcases List.mem_append.mp hmem with hl | he
  · simpa [hj.2] using hlate j hl
  rcases List.mem_cons.mp he with rfl | he
  · exact le_rfl
  · exact List.rel_of_pairwise_cons (List.pairwise_append.mp horder).2.1 he

/-- The system after a run, with the releases of the run. -/
def after (s : Sys) (as : List Act) : Usage := as.foldl Usage.use ⟨s, []⟩

/-- **`bget` recycles the buffer released longest ago iff it has no choice**: there is one free
buffer, or no free buffer was ever released. -/
theorem bget_oldest_iff {s : Sys} (hs : Start s) (as : List Act) (dev blockno : Nat) {m : Mem}
    (hmiss : cached (after s as).sys.mem dev blockno = none)
    (hget : (bget dev blockno (after s as).sys.mem (after s as).sys.disk).result = .ok (i, m)) :
    (after s as).Oldest i ↔
      (∀ j, (after s as).Free j → j = i) ∨ ∀ j, (after s as).Free j →
      j ∉ (after s as).released := by
  have hall : RunAll Usage.use (fun u => Ordered u.sys.mem.head u.released) ⟨s, []⟩ as :=
    runAll_of_step (fun _ a h => ordered_use h a) ⟨hs.nodup,
      List.pairwise_of_forall fun _ _ => le_rfl⟩ as
  have hord : Ordered (after s as).sys.mem.head (after s as).released := hall.last
  generalize after s as = u at *
  have hi : recyclable u.sys.mem = some i := by
    cases hr : recyclable u.sys.mem with
    | none => simp [bget, Bind.bind, Prog.bind, Prog.get, Prog.stop, hmiss, hr] at hget
    | some j =>
      simp only [bget, Bind.bind, Prog.bind, Prog.get, Prog.modify, pure, hmiss, hr] at hget
      cases hget
      rfl
  constructor
  · intro hold
    by_cases hin : i ∈ u.released
    · refine .inl fun j hj => ?_
      have heq := le_antisymm (hord.latest hi hj) (hold j hj)
      exact ((List.idxOf_inj hin).mp heq).symm
    · refine .inr fun j hj hjin => hin ?_
      rw [← List.idxOf_lt_length_iff] at hjin ⊢
      exact (hord.latest hi hj).trans_lt hjin
  · rintro (hone | hnone) j hj
    · rw [hone j hj]
    · rw [List.idxOf_eq_length (hnone j hj), List.idxOf_eq_length (hnone i (recyclable_eq_some hi))]

/-- One process reads block 5 into buffer 125, releases it, and reads the block again. -/
def readAgain : List Act :=
  [.bget 1 1 5, .fill 1 125, .transfer, .resume 1 125, .brelse 1 125, .bget 1 1 5]

/-- The next block gets buffer 124: the one that was released is in use again. -/
theorem bget_oldest_iff_readAgain : let u := after bootSys readAgain
    u.released = [125] ∧ (u.sys.mem.buf 125).busy = true ∧ u.Oldest 124 := by
  have hreleased : (after bootSys readAgain).released = [125] := by decide +kernel
  have hbusy : ((after bootSys readAgain).sys.mem.buf 125).busy = true := by decide +kernel
  refine ⟨hreleased, hbusy, ?_⟩
  refine (bget_oldest_iff bootSys_start readAgain 1 7 (by decide +kernel) rfl).mpr
    (.inr fun j hj hin => ?_)
  rw [hreleased, List.mem_singleton] at hin
  have hfree := hj.2
  rw [hin] at hfree
  simp [hbusy] at hfree

/-- One process reads two blocks and releases the first buffer, 125, before the second, 124. -/
def twoReleases : List Act :=
  [.bget 1 1 5, .fill 1 125, .transfer, .resume 1 125, .bget 1 1 6, .fill 1 124, .transfer,
    .resume 1 124, .brelse 1 125, .brelse 1 124]

/-- The next block gets buffer 124, although 125 is free and was released before it. -/
theorem bget_takes_latest : let u := after bootSys twoReleases
    cached u.sys.mem 1 7 = none ∧ recyclable u.sys.mem = some 124 ∧ u.Free 125 ∧
      ¬ u.Oldest 124 := by
  have hfree : (after bootSys twoReleases).Free 125 := ⟨by decide +kernel, rfl, rfl⟩
  exact ⟨by decide +kernel, by decide +kernel, hfree,
    fun h => absurd (h 125 hfree) (by decide +kernel)⟩

end RpiOs.Bio.Interleave
