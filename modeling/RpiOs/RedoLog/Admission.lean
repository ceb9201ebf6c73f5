import Mathlib.Algebra.BigOperators.Ring.Finset
import Mathlib.Algebra.Order.BigOperators.Group.Finset
import RpiOs.RedoLog.Outstanding

/-!
# Room in the log

`begin_op` lets an operation in if the log has room for `MAXOPBLOCKS` blocks of every operation in
it, up to `LOGSIZE`. A log of `LOGSIZE` blocks has one less for blocks, and `log_write` panics when
they are used up, even for a block that is in the log already. So the test is good for operations
that log one block less than `MAXOPBLOCKS`, and not for `MAXOPBLOCKS`.

* `admission_suffices`: every run of such operations.
-/

namespace RpiOs.RedoLog.Interleave

open Lib Kernel

variable {n : Nat} {s : Sys n} {a : Act n}

/-- The action is outside `initlog`, and the operation logs at most `k` distinct blocks. -/
def Within (k : Nat) (s : Sys n) : Act n → Prop
  | .write p dev b => (insert (dev, b) (s.wrote p)).card ≤ k
  | .mount .. => False
  | .recover .. => False
  | _ => True

instance (k : Nat) (s : Sys n) : (a : Act n) → Decidable (Within k s a)
  | .write p dev b => inferInstanceAs (Decidable ((insert (dev, b) (s.wrote p)).card ≤ k))
  | .mount .. => isFalse id
  | .recover .. => isFalse id
  | .begin _ => isTrue trivial
  | .advance _ => isTrue trivial
  | .finish _ => isTrue trivial

lemma Within.noMount {k : Nat} (h : Within k s a) : NoMount a := by
  cases a with
  | mount p dev start size | recover p head => exact h
  | begin p | advance p | write p dev b | finish p => trivial

/-! ## The invariant -/

/-- One block less than `MAXOPBLOCKS`. -/
def oplimit : Nat := maxopblocks - 1

/-- The blocks of log `i` that the operation of a process may still add. -/
def allowance (s : Sys n) (i : Nat) (p : Fin n) : Nat :=
  if registered i (s.phase p) = true then oplimit - (blocksOf s p i).card else 0

/-- What the operations have logged so far. -/
structure WroteInv (s : Sys n) : Prop where
  fresh : ∀ p j, s.phase p = .beginning j → s.wrote p = ∅
  limit : ∀ p dev b, s.phase p = .logging dev b → (insert (dev, b) (s.wrote p)).card ≤ oplimit

/-- The header and the allowances fit into the log, with one block to spare. -/
structure RoomInv (s : Sys n) (i : Nat) : Prop where
  size : (s.log i).size = logsize
  listed : ∀ p, registered i (s.phase p) = true → ∀ x ∈ blocksOf s p i, x.2 ∈ (s.log i).lh
  room : (s.log i).lh.length + ∑ p, allowance s i p ≤ logsize - 2

section room

variable {s s' : Sys n} {p : Fin n} {i : Nat}

lemma sum_allowance_le (s : Sys n) (i : Nat) : ∑ p, allowance s i p ≤ oplimit * count s i := by
  unfold count
  rw [Finset.mul_sum]
  refine Finset.sum_le_sum fun p _ => ?_
  unfold allowance
  split
  · omega
  · simp

lemma allowance_change (hothers : Others s s' p) :
    ∑ q, allowance s' i q + allowance s i p = ∑ q, allowance s i q + allowance s' i p :=
  sum_change p fun q hq => by
    unfold allowance blocksOf
    rw [(hothers q hq).1, (hothers q hq).2]

/-- What a process has logged stays in the header while another one moves. -/
lemma RoomInv.listed_of (h : RoomInv s i) (hothers : Others s s' p)
    (hlh : ∀ b ∈ (s.log i).lh, b ∈ (s'.log i).lh)
    (hp : registered i (s'.phase p) = true → ∀ x ∈ blocksOf s' p i, x.2 ∈ (s'.log i).lh) :
    ∀ q, registered i (s'.phase q) = true → ∀ x ∈ blocksOf s' q i, x.2 ∈ (s'.log i).lh := by
  intro q hq x hx
  by_cases hqp : q = p
  · subst hqp
    exact hp hq x hx
  unfold blocksOf at hx
  rw [(hothers q hqp).1] at hq
  rw [(hothers q hqp).2] at hx
  exact hlh _ (h.listed q hq x hx)

/-- The test of `begin_op` leaves room for one more operation. -/
lemma room_of_admitted (hinv : LogInv s i) (wait : ¬ MustWait (s.log i))
    (hlh : (s'.log i).lh = (s.log i).lh)
    (hsum : ∑ q, allowance s' i q = ∑ q, allowance s i q + oplimit) :
    (s'.log i).lh.length + ∑ q, allowance s' i q ≤ logsize - 2 := by
  have hle := sum_allowance_le s i
  have hout := hinv.counts
  have hcom : (s.log i).committing = false := by
    by_contra hcom
    exact wait (.inl (by simpa using hcom))
  have hfit : ¬ ((s.log i).lh.length : Int) + ((s.log i).outstanding + 1) * maxopblocks > logsize :=
    fun hfull => wait (.inr hfull)
  have h1 : oplimit = 41 := rfl
  have h2 : maxopblocks = 42 := rfl
  have h3 : logsize = 126 := rfl
  rw [h1] at hle hsum
  rw [h2, h3, hout] at hfit
  rw [hlh, hsum, h3]
  -- the header is empty when the operation is the first one
  by_cases hzero : count s i = 0
  · rw [hinv.empty hzero hcom, List.length_nil]
    omega
  · omega

/-- Logging a block uses up the allowance by as much as the header grows, or more. -/
lemma length_absorb {lh : List Nat} {B : Finset (Nat × Nat)} (hB : ∀ x ∈ B, x.2 ∈ lh) (b : Nat) :
    (absorb lh b).length + B.card ≤ lh.length + (insert (i, b) B).card := by
  unfold absorb
  split
  · exact Nat.add_le_add_left (Finset.card_le_card (Finset.subset_insert _ _)) _
  · next hb =>
    have hnot : (i, b) ∉ B := fun hin => hb (hB _ hin)
    rw [Finset.card_insert_of_notMem hnot, List.length_append, List.length_singleton]
    omega

/-- **Every step keeps the room**. -/
theorem RoomInv.move (h : RoomInv s i) (hinv : LogInv s i) (hw : WroteInv s)
    (hothers : Others s s' p) (hm : Move s s' p i) : RoomInv s' i := by
  have hchange := allowance_change (i := i) hothers
  have hroom := h.room
  cases hm with
  | stay log pending reg com wrote =>
    have hsame : allowance s' i p = allowance s i p := by
      unfold allowance
      rw [reg]
      split
      · next hr => rw [wrote (reg.trans hr)]
      · rfl
    refine ⟨by rw [log]; exact h.size, h.listed_of hothers (by rw [log]; exact fun _ hb => hb)
      fun hr x hx => ?_, by rw [log]; omega⟩
    rw [wrote hr] at hx
    rw [log]
    exact h.listed p (reg ▸ hr) x hx
  | enter wait log pending before after wrote =>
    have hempty : blocksOf s' p i = ∅ := by
      unfold blocksOf
      rw [wrote, hw.fresh p i before]
      rfl
    have hzero : allowance s i p = 0 := by simp [allowance, before]
    have hall : allowance s' i p = oplimit := by simp [allowance, after, hempty]
    refine ⟨by rw [log]; exact h.size, h.listed_of hothers (by rw [log]; exact fun _ hb => hb)
      fun _ x hx => by rw [hempty] at hx; simp at hx, ?_⟩
    exact room_of_admitted hinv wait (by rw [log]) (by omega)
  | leave _ log _ _ after | last _ log _ _ after | done log _ _ after =>
    have hzero : allowance s' i p = 0 := by simp [allowance, after]
    refine ⟨by rw [log]; exact h.size, h.listed_of hothers (by rw [log]; exact fun _ hb => hb)
      fun hr => ?_, by rw [log]; dsimp only; omega⟩
    simp [after] at hr
  | clear log pending before after =>
    have hcom : commits i (s.phase p) = true := by simp [before, commits]
    have hnobody := hinv.quiet (hinv.flag p hcom)
    have hcount := count_same hothers (i := i) (by simp [before, after])
    have hsum := sum_allowance_le s' i
    rw [hcount, hnobody, Nat.mul_zero] at hsum
    refine ⟨by rw [log]; exact h.size, fun q hq => ?_, ?_⟩
    · have := count_pos hq
      omega
    · rw [log, List.length_nil]
      omega
  | write b log pending before after wrote =>
    have hblocks : blocksOf s' p i = insert (i, b) (blocksOf s p i) := by
      unfold blocksOf
      rw [wrote, Finset.filter_insert, if_pos rfl]
    have hreg : registered i (s.phase p) = true := by rw [before]; rfl
    have hreg' : registered i (s'.phase p) = true := by rw [after]; rfl
    have hlimit : (blocksOf s' p i).card ≤ oplimit := by
      refine (Finset.card_le_card ?_).trans (hw.limit p i b before)
      unfold blocksOf
      rw [wrote]
      exact Finset.filter_subset _ _
    refine ⟨by rw [log]; exact h.size, h.listed_of hothers
      (by rw [log]; exact fun c hc => mem_absorb.mpr (.inl hc)) fun _ x hx => ?_, ?_⟩
    · rw [log]
      rw [hblocks] at hx
      rcases Finset.mem_insert.mp hx with rfl | hx
      · exact mem_absorb.mpr (.inr rfl)
      · exact mem_absorb.mpr (.inl (h.listed p hreg x hx))
    have hall : allowance s i p = oplimit - (blocksOf s p i).card := if_pos hreg
    have hall' : allowance s' i p = oplimit - (blocksOf s' p i).card := if_pos hreg'
    have hgrow := length_absorb (i := i) (h.listed p hreg) b
    rw [← hblocks] at hgrow
    rw [log]
    dsimp only
    omega

end room

/-! ## Runs -/

/-- A process that begins has logged nothing, and one that logs stays within the limit. -/
structure WroteAt (s : Sys n) (p : Fin n) : Prop where
  fresh : ∀ j, s.phase p = .beginning j → s.wrote p = ∅
  limit : ∀ dev b, s.phase p = .logging dev b → (insert (dev, b) (s.wrote p)).card ≤ oplimit

lemma WroteAt.elsewhere {p : Fin n} (h1 : ∀ j, s.phase p ≠ .beginning j)
    (h2 : ∀ dev b, s.phase p ≠ .logging dev b) : WroteAt s p :=
  ⟨fun j hj => absurd hj (h1 j), fun dev b hb => absurd hb (h2 dev b)⟩

lemma WroteInv.at (h : WroteInv s) (p : Fin n) : WroteAt s p :=
  ⟨h.fresh p, h.limit p⟩

/-- The process that moves has logged no more than it may. -/
lemma WroteInv.act_self (h : WroteInv s) (ha : Within oplimit s a) : WroteAt (act s a) a.proc := by
  cases a with
  | begin p =>
    dsimp only [act, Act.proc]
    split
    · exact ⟨fun _ _ => by simp, fun dev b hb => by simp at hb⟩
    · exact h.at p
  | advance p =>
    dsimp only [act, Act.proc]
    split
    · next j hp =>
      have hfresh := h.fresh p j hp
      unfold beginRound
      dsimp only
      split_ifs <;> exact ⟨by simp [hfresh], by simp [hp]⟩
    · next j hp =>
      unfold endRound
      dsimp only
      split_ifs <;> exact .elsewhere (by simp [hp]) (by simp [hp])
    · exact .elsewhere (by simp [commitRound]) (by simp [commitRound])
    · exact .elsewhere (by simp [afterCommit]) (by simp [afterCommit])
    · exact .elsewhere (by simp [writeRound]) (by simp [writeRound])
    · exact h.at p
  | write p dev b =>
    dsimp only [act, Act.proc]
    split
    · next hp =>
      unfold writeTests
      dsimp only
      split_ifs
      iterate 3 exact .elsewhere (by simp [hp]) (by simp [hp])
      refine ⟨by simp, fun dev' b' hb => ?_⟩
      simp only [Sys.setPhase_phase, Function.update_self, Phase.logging.injEq] at hb
      obtain ⟨rfl, rfl⟩ := hb
      exact ha
    · exact h.at p
  | finish p =>
    dsimp only [act, Act.proc]
    split
    · exact .elsewhere (by simp) (by simp)
    · exact h.at p
  | mount p dev start size | recover p head => exact ha.elim

/-- So have all the others. -/
lemma WroteInv.act (h : WroteInv s) (ha : Within oplimit s a) : WroteInv (act s a) := by
  have hat : ∀ q, WroteAt (Interleave.act s a) q := fun q => by
    by_cases hq : q = a.proc
    · rw [hq]
      exact h.act_self ha
    obtain ⟨hphase, hwrote⟩ := (act_frame s ha.noMount).others q hq
    refine ⟨fun j hj => ?_, fun dev b hb => ?_⟩
    · rw [hwrote]
      exact h.fresh q j (hphase ▸ hj)
    · rw [hwrote]
      exact h.limit q dev b (hphase ▸ hb)
  exact ⟨fun q => (hat q).fresh, fun q => (hat q).limit⟩

/-- Everything together. -/
structure AdmissionInv (s : Sys n) : Prop where
  inv : Inv s
  wrote : WroteInv s
  room : ∀ i < nlog, (s.log i).enabled = true → RoomInv s i
  panic : s.panic = none

/-- With room for everybody no test of `log_write` fails. -/
lemma AdmissionInv.no_panic (h : AdmissionInv s) (ha : Within oplimit s a) :
    (act s a).panic = none := by
  cases a with
  | begin p | finish p =>
    dsimp only [act]
    split <;> exact h.panic
  | advance p =>
    dsimp only [act]
    split
    · unfold beginRound
      dsimp only
      split_ifs <;> exact h.panic
    · next j hp =>
      unfold endRound
      dsimp only
      split_ifs with h1 h2 h3
      · exact h.panic
      · exact h.panic
      · have hfree := (h.inv j (by omega) (by simpa using h2)).not_committing (p := p)
          (by simp [hp])
        rw [hfree] at h3
        cases h3
      all_goals exact h.panic
    all_goals exact h.panic
  | write p dev b =>
    dsimp only [act]
    split
    · next hp =>
      unfold writeTests
      dsimp only
      split_ifs with h1 h2 h3
      · exact h.panic
      · rw [not_or, Nat.not_le, Bool.not_eq_false] at h1
        have hroom := h.room dev h1.1 h1.2
        have h4 := hroom.room
        rw [hroom.size] at h2
        have h5 : logsize = 126 := rfl
        omega
      · rw [not_or, Nat.not_le, Bool.not_eq_false] at h1
        have hcount := (h.inv dev h1.1 h1.2).counts
        have hpos : 0 < count s dev := count_pos (p := p) (by rw [hp]; rfl)
        omega
      · exact h.panic
    · exact h.panic
  | mount p dev start size | recover p head => exact ha.elim

/-- Every step within the limit keeps the room. -/
lemma AdmissionInv.step (h : AdmissionInv s) (ha : Within oplimit s a) :
    AdmissionInv (step s a) := by
  have hstep : Interleave.step s a = act s a := by
    unfold Interleave.step
    rw [h.panic]
    rfl
  refine ⟨h.inv.step ha.noMount, ?_, fun i hi hen => ?_, ?_⟩
  · rw [hstep]
    exact h.wrote.act ha
  · rw [hstep] at hen ⊢
    have hframe := act_frame s ha.noMount
    rw [hframe.enabled] at hen
    refine (h.room i hi hen).move (h.inv i hi hen) h.wrote hframe.others (act_move ha.noMount hi hen
      fun j hp hj hen' => ?_)
    exact (h.inv j hj hen').not_committing (p := a.proc) (by simp [hp])
  · rw [hstep]
    exact h.no_panic ha

/-- At the start there is room. -/
lemma Start.admissionInv (h : Start s)
    (hsize : ∀ i < nlog, (s.log i).enabled = true → (s.log i).size = logsize)
    (hp : s.panic = none) :
    AdmissionInv s := by
  have hout : ∀ i p, registered i (s.phase p) = false := fun i p => by
    rw [h.idle p]
    rfl
  refine ⟨h.inv, ⟨fun p _ _ => h.wrote p, fun p dev b hb => ?_⟩, fun i hi hen => ⟨hsize i hi hen,
    fun p hr => ?_, ?_⟩, hp⟩
  · rw [h.idle p] at hb
    cases hb
  · rw [hout i p] at hr
    cases hr
  rw [(h.log i hi hen).2.2]
  have hsum : ∑ p, allowance s i p = 0 := Finset.sum_eq_zero fun p _ => by
    unfold allowance
    rw [hout i p]
    rfl
  rw [hsum]
  decide

/-- No `panic`, and the blocks of every header fit behind it in the log. -/
structure HasRoom (s : Sys n) : Prop where
  panic : s.panic = none
  slots : ∀ i < nlog, (s.log i).enabled = true → (s.log i).lh.length ≤ (s.log i).size - 1

/-- **Room for every operation**: for every number of processes and every interleaving, if each
operation logs at most `MAXOPBLOCKS - 1` distinct blocks, then `log_write` never panics and the
blocks fit into the log. -/
theorem admission_suffices {s : Sys n} (hs : Start s)
    (hsize : ∀ i < nlog, (s.log i).enabled = true → (s.log i).size = logsize) (hp : s.panic = none)
    {as : List (Act n)} (hrun : RunOk step (Within oplimit) s as) : RunAll step HasRoom s as := by
  refine (hrun.runAll (fun _ _ h ha => h.step ha) (hs.admissionInv hsize hp)).mono fun s h => ?_
  refine ⟨h.panic, fun i hi hen => ?_⟩
  have hroom := h.room i hi hen
  have := hroom.room
  rw [hroom.size]
  omega

/-! ### Three processes -/

/-- A process logs `k` blocks of device 1, from `b` on. -/
def writeBlocks (p : Fin 3) (b k : Nat) : List (Act 3) :=
  (List.range' b k).flatMap fun b => [.write p 1 b, .advance p]

/-- Three operations at the same time, of `k` blocks each. -/
def threeOperations (k : Nat) : List (Act 3) :=
  beginAll 0 ++ beginAll 1 ++ beginAll 2 ++ writeBlocks 0 100 k ++ writeBlocks 1 200 k ++
    writeBlocks 2 300 k

/-- Three operations that use up their limit. -/
theorem admission_suffices_three : RunAll step HasRoom (rootOnly 3) (threeOperations oplimit) :=
  admission_suffices (rootOnly_start 3) (fun _ _ _ => rfl) rfl (by decide +kernel)

/-- **Three operations of `MAXOPBLOCKS` blocks**: `begin_op` lets all three in, and the last block
makes `log_write` panic. -/
theorem admission_falls_short :
    Start (rootOnly 3) ∧ RunOk step (Within maxopblocks) (rootOnly 3)
      (threeOperations maxopblocks) ∧
      ((threeOperations maxopblocks).foldl step (rootOnly 3)).panic =
      some "too big a transaction" :=
  ⟨rootOnly_start 3, by decide +kernel⟩

end RpiOs.RedoLog.Interleave
