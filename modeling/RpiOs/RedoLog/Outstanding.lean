import Mathlib.Algebra.Order.BigOperators.Group.Finset
import RpiOs.RedoLog.Interleave

/-!
# What `outstanding` counts

As long as nobody mounts a file system, `outstanding` of an enabled log is the number of processes
that have passed that log in `begin_op` and not yet in `end_op`, and the header keeps every block
that was logged since the last commit. `initlog` breaks both: `mount` calls it inside an operation
that `begin_op` did not count in the new log, and `recover_from_log` clears the headers of all logs.

* `outstanding_counts`: every run; and the states in which that is the number of operations in
  progress.
-/

namespace RpiOs.RedoLog.Interleave

open Lib Kernel Function

variable {n : Nat} {s s' : Sys n} {p : Fin n} {i : Nat} {a : Act n}

/-! ## Counting processes -/

lemma sum_change {f g : Fin n → Nat} (p : Fin n) (h : ∀ q, q ≠ p → g q = f q) :
    ∑ q, g q + f p = ∑ q, f q + g p := by
  rw [← Finset.add_sum_erase Finset.univ f (Finset.mem_univ p),
    ← Finset.add_sum_erase Finset.univ g (Finset.mem_univ p)]
  have hrest : ∑ q ∈ Finset.univ.erase p, g q = ∑ q ∈ Finset.univ.erase p, f q :=
    Finset.sum_congr rfl fun q hq => h q (Finset.ne_of_mem_erase hq)
  omega

/-- How many processes are counted in log `i`. -/
def count (s : Sys n) (i : Nat) : Nat := ∑ p, if registered i (s.phase p) = true then 1 else 0

lemma count_change (hothers : Others s s' p) (i : Nat) :
    count s' i + (if registered i (s.phase p) = true then 1 else 0) =
      count s i + if registered i (s'.phase p) = true then 1 else 0 :=
  sum_change (f := fun q => if registered i (s.phase q) = true then 1 else 0) p fun q hq => by
    rw [(hothers q hq).1]

lemma count_same (hothers : Others s s' p)
    (h : registered i (s'.phase p) = registered i (s.phase p)) : count s' i = count s i := by
  have hcount := count_change hothers i
  rw [h] at hcount
  exact Nat.add_right_cancel hcount

lemma count_leave (hothers : Others s s' p)
    (h : registered i (s.phase p) = true) (h' : registered i (s'.phase p) = false) :
    count s' i + 1 = count s i := by
  have hcount := count_change hothers i
  rwa [h, h', if_neg Bool.false_ne_true, if_pos rfl, Nat.add_zero] at hcount

lemma count_pos (hp : registered i (s.phase p) = true) : 0 < count s i := by
  rw [count, ← Finset.add_sum_erase Finset.univ _ (Finset.mem_univ p), if_pos hp]
  omega

/-! ## Frame -/

/-- The other processes stay where they are, and the same logs are enabled. -/
structure Frame (s s' : Sys n) (p : Fin n) : Prop where
  others : Others s s' p
  enabled : ∀ i, (s'.log i).enabled = (s.log i).enabled

/-- An action changes the place of its own process only. -/
lemma act_frame (s : Sys n) (ha : NoMount a) : Frame s (act s a) a.proc := by
  have henabled := apply_update (fun _ : Nat => Log.enabled) s.log
  cases a with
  | mount p dev start size | recover p head => exact ha.elim
  | begin p | advance p | write p dev b | finish p =>
    dsimp only [act, Act.proc, beginRound, endRound, commitRound, afterCommit, writeTests,
      writeRound]
    -- a branch changes the entries of the process, and of a log at most other fields
    repeat' split
    all_goals exact ⟨fun q hq => by simp [hq], fun j => by simp [henabled]⟩

/-! ## The invariant of one log -/

/-- What holds of one log, whoever moves. -/
structure LogInv (s : Sys n) (i : Nat) : Prop where
  counts : (s.log i).outstanding = count s i
  /-- what has been logged and not been committed is in the header -/
  kept : ∀ b ∈ s.pending i, b ∈ (s.log i).lh
  /-- a log is committed when nobody is in it -/
  quiet : (s.log i).committing = true → count s i = 0
  flag : ∀ p, commits i (s.phase p) = true → (s.log i).committing = true
  one : ∀ p q, commits i (s.phase p) = true → commits i (s.phase q) = true → p = q
  cleared : ∀ p, s.phase p = .committed i → (s.log i).lh = []
  empty : count s i = 0 → (s.log i).committing = false → (s.log i).lh = []

lemma mem_absorb {lh : List Nat} {b c : Nat} : c ∈ absorb lh b ↔ c ∈ lh ∨ c = b := by
  unfold absorb
  split
  · next hb => exact ⟨.inl, fun h => h.elim id fun heq => heq ▸ hb⟩
  · simp

section inv

variable {s s' : Sys n} {p : Fin n} {i : Nat}

lemma LogInv.not_committing (h : LogInv s i) (hp : registered i (s.phase p) = true) :
    (s.log i).committing = false := by
  by_contra hcom
  have := count_pos hp
  have := h.quiet (by simpa using hcom)
  omega

lemma LogInv.no_committer (h : LogInv s i) (hcom : (s.log i).committing = false) (q : Fin n) :
    commits i (s.phase q) = false := by
  by_contra hq
  rw [h.flag q (by simpa using hq)] at hcom
  cases hcom

/-- A step that does not begin or end a commit leaves at most one committer, with the flag set. -/
lemma LogInv.sameCommitters (h : LogInv s i) (hothers : Others s s' p)
    (hp : commits i (s'.phase p) = commits i (s.phase p))
    (hflag : (s'.log i).committing = (s.log i).committing) :
    (∀ q, commits i (s'.phase q) = true → (s'.log i).committing = true) ∧
      ∀ q r, commits i (s'.phase q) = true → commits i (s'.phase r) = true → q = r := by
  have hcom : ∀ q, commits i (s'.phase q) = commits i (s.phase q) := fun q => by
    by_cases hq : q = p
    · rw [hq, hp]
    · rw [(hothers q hq).1]
  refine ⟨fun q hq => ?_, fun q r hq hr => ?_⟩
  · rw [hflag]
    exact h.flag q (by rw [← hcom, hq])
  · exact h.one q r (by rw [← hcom, hq]) (by rw [← hcom, hr])

/-- Nobody commits the log. -/
lemma LogInv.of_idle (hcom : (s.log i).committing = false)
    (hnone : ∀ q, commits i (s.phase q) = false) (hcounts : (s.log i).outstanding = count s i)
    (hkept : ∀ b ∈ s.pending i, b ∈ (s.log i).lh) (hempty : count s i = 0 → (s.log i).lh = [])
    : LogInv s i :=
  ⟨hcounts, hkept, by simp [hcom], by simp [hnone], by simp [hnone],
    fun q hq => by simpa [hq, commits] using hnone q, fun hz _ => hempty hz⟩

/-- A step of a process that does not commit. -/
lemma LogInv.not_commits (h : LogInv s i) (hothers : Others s s' p)
    (hcom : (s.log i).committing = false) (hp : commits i (s'.phase p) = false) (q : Fin n)
    : commits i (s'.phase q) = false := by
  by_cases hq : q = p
  · rw [hq, hp]
  · rw [(hothers q hq).1, h.no_committer hcom q]

/-- **Every step keeps the invariant of a log**. -/
theorem LogInv.move (h : LogInv s i) (hothers : Others s s' p) (hm : Move s s' p i) :
    LogInv s' i := by
  cases hm with
  | stay log pending reg com wrote =>
    have hcount := count_same hothers reg
    have hp : commits i (s'.phase p) = commits i (s.phase p) :=
      com.elim (fun heq => by rw [heq]) fun hno => hno.1.trans hno.2.symm
    obtain ⟨hflag, hone⟩ := h.sameCommitters hothers hp (by rw [log])
    refine ⟨by rw [log, hcount]; exact h.counts, by rw [log, pending]; exact h.kept,
      by rw [log, hcount]; exact h.quiet, hflag, hone, fun q hq => ?_,
      by rw [log, hcount]; exact h.empty⟩
    rw [log]
    by_cases hqp : q = p
    · subst hqp
      rcases com with heq | ⟨hno, -⟩
      · exact h.cleared q (by rw [← heq, hq])
      · rw [hq] at hno
        simp [commits] at hno
    · exact h.cleared q (by rw [← (hothers q hqp).1, hq])
  | enter wait log pending before after wrote =>
    have hcom : (s.log i).committing = false := by
      by_contra hcom
      exact wait (.inl (by simpa using hcom))
    have hcount : count s' i = count s i + 1 := by
      simpa [before, after] using count_change hothers i
    refine .of_idle (by rw [log, hcom]) (h.not_commits hothers hcom (by rw [after]; rfl)) ?_
      (by rw [log, pending]; exact h.kept) fun hz => by omega
    rw [log, hcount, h.counts]
    push_cast
    rfl
  | leave more log pending before after =>
    have hreg : registered i (s.phase p) = true := by simp [before]
    have hcom := h.not_committing hreg
    have hcount := count_leave hothers hreg (by simp [after])
    have hout := h.counts
    refine .of_idle (by rw [log, hcom]) (h.not_commits hothers hcom (by rw [after]; rfl)) ?_
      (by rw [log, pending]; exact h.kept) fun hz => by omega
    rw [log]
    dsimp only
    omega
  | last none log pending before after =>
    have hreg : registered i (s.phase p) = true := by simp [before]
    have hcom := h.not_committing hreg
    have hcount := count_leave hothers hreg (by simp [after])
    have hout := h.counts
    -- nobody else commits
    have honly : ∀ q, commits i (s'.phase q) = true → q = p := fun q hq => by
      by_contra hqp
      rw [(hothers q hqp).1, h.no_committer hcom q] at hq
      cases hq
    refine ⟨?_, by rw [log, pending]; exact h.kept, fun _ => by omega, fun _ _ => by rw [log],
      fun q r hq hr => by rw [honly q hq, honly r hr], fun q hq => ?_, fun _ hc => ?_⟩
    · rw [log]
      dsimp only
      omega
    · cases honly q (by simp [hq, commits])
      cases after.symm.trans hq
    · rw [log] at hc
      cases hc
  | clear log pending before after =>
    have hcount := count_same hothers (i := i) (by simp [before, after])
    obtain ⟨hflag, hone⟩ := h.sameCommitters hothers (by rw [before, after]; rfl) (by rw [log])
    refine ⟨by rw [log, hcount]; exact h.counts, by rw [pending]; simp,
      by rw [log, hcount]; exact h.quiet, hflag, hone, fun _ _ => by rw [log],
        fun _ _ => by rw [log]⟩
  | done log pending before after =>
    have hp : commits i (s.phase p) = true := by rw [before]; simp [commits]
    have hcount := count_same hothers (i := i) (by simp [before, after])
    -- nobody is left
    have hnone : ∀ q, commits i (s'.phase q) = false := fun q => by
      by_cases hqp : q = p
      · rw [hqp, after]
        rfl
      rw [(hothers q hqp).1]
      by_contra hq
      exact hqp (h.one q p (by simpa using hq) hp)
    have hlh : (s'.log i).lh = [] := by
      rw [log]
      exact h.cleared p before
    exact .of_idle (by rw [log]) hnone (by rw [log, hcount]; exact h.counts)
      (by rw [log, pending]; exact h.kept) fun _ => hlh
  | write b log pending before after wrote =>
    have hreg : registered i (s.phase p) = true := by rw [before]; rfl
    have hcom := h.not_committing hreg
    have hpos := count_pos hreg
    have hcount := count_same hothers (i := i) (by rw [before, after]; rfl)
    refine .of_idle (by rw [log, hcom]) (h.not_commits hothers hcom (by rw [after]; rfl))
      (by rw [log, hcount]; exact h.counts) (fun c hc => ?_) fun hz => by omega
    rw [log]
    rw [pending] at hc
    exact mem_absorb.mpr ((Finset.mem_insert.mp hc).symm.imp_left (h.kept c))

end inv

/-! ## Runs -/

/-- The invariant of all logs. -/
def Inv (s : Sys n) : Prop := ∀ i < nlog, (s.log i).enabled = true → LogInv s i

lemma Inv.step (h : Inv s) (ha : NoMount a) : Inv (step s a) := by
  unfold Interleave.step
  split
  · exact h
  intro i hi hen
  have hframe := act_frame s ha
  rw [hframe.enabled] at hen
  refine (h i hi hen).move hframe.others (act_move ha hi hen fun j hp hj hen' => ?_)
  exact (h j hj hen').not_committing (p := a.proc) (by simp [hp])

/-- Nobody is in the log, and nothing is in the logs. -/
structure Start (s : Sys n) : Prop where
  idle : ∀ p, s.phase p = .idle
  log : ∀ i < nlog, (s.log i).enabled = true →
    (s.log i).outstanding = 0 ∧ (s.log i).committing = false ∧ (s.log i).lh = []
  wrote : ∀ p, s.wrote p = ∅
  pending : ∀ i, s.pending i = ∅

/-- The invariant holds at the start. -/
lemma Start.inv (h : Start s) : Inv s := by
  intro i hi hen
  obtain ⟨hout, hcom, hlh⟩ := h.log i hi hen
  have hcount : count s i = 0 := by
    refine Finset.sum_eq_zero fun p _ => ?_
    rw [h.idle p]
    rfl
  exact .of_idle hcom (fun p => by rw [h.idle p]; rfl) (by rw [hout, hcount]; rfl)
    (by simp [h.pending])
    fun _ => hlh

/-- The process has returned from `begin_op` and not entered `end_op`. -/
def inOperation : Phase → Bool
  | .running => true
  | .logging _ _ => true
  | .recovering _ _ => true
  | _ => false

/-- The number of operations in progress. -/
def operations (s : Sys n) : Nat := ∑ p, if inOperation (s.phase p) = true then 1 else 0

/-- **`outstanding` counts operations**: those that have returned from `begin_op` and not entered
`end_op`. -/
def CountsOperations (s : Sys n) : Prop :=
  ∀ i < nlog, (s.log i).enabled = true → (s.log i).outstanding = operations s

instance (s : Sys n) : Decidable (CountsOperations s) :=
  inferInstanceAs (Decidable (∀ i < nlog, _ → _))

/-- The header has what was logged since the last commit. -/
def KeepsBlocks (s : Sys n) : Prop :=
  ∀ i < nlog, (s.log i).enabled = true → ∀ b ∈ s.pending i, b ∈ (s.log i).lh

/-- Nobody is between: whoever has passed a log in `begin_op` has returned from it, and whoever has
entered `end_op` has passed the log there. -/
def NobodyBetween (s : Sys n) : Prop := ∀ i < nlog, (s.log i).enabled = true → ∀ p,
  registered i (s.phase p) = true → inOperation (s.phase p) = true

instance (s : Sys n) : Decidable (NobodyBetween s) :=
  inferInstanceAs (Decidable (∀ i < nlog, _ → ∀ _, _ → _))

lemma registered_of_inOperation {ph : Phase} (h : inOperation ph = true) (i : Nat) :
    registered i ph = true := by
  cases ph with
  | running | logging dev b | recovering j read => rfl
  | idle | beginning j | ending j | committing j | committed j => cases h

/-- The processes that are counted are the operations exactly if none of them is between. -/
lemma count_eq_operations_iff (s : Sys n) (i : Nat) : count s i = operations s ↔
    ∀ p, registered i (s.phase p) = true → inOperation (s.phase p) = true := by
  have hle : ∀ p ∈ Finset.univ, (if inOperation (s.phase p) = true then 1 else 0) ≤
      if registered i (s.phase p) = true then 1 else 0 := by
    intro p _
    split
    · next hop => rw [registered_of_inOperation hop, if_pos rfl]
    · exact Nat.zero_le _
  rw [eq_comm, operations, count, Finset.sum_eq_sum_iff_of_le hle]
  simp only [Finset.mem_univ, true_implies]
  refine forall_congr' fun p => ?_
  constructor
  · intro heq hreg
    rw [hreg, if_pos rfl] at heq
    by_contra hno
    rw [if_neg hno] at heq
    cases heq
  · intro h
    by_cases hreg : registered i (s.phase p) = true
    · rw [h hreg, hreg]
    · rw [if_neg hreg, if_neg fun hop => hreg (registered_of_inOperation hop i)]

lemma Inv.countsOperations_iff (h : Inv s) : CountsOperations s ↔ NobodyBetween s := by
  refine forall₃_congr fun i hi hen => ?_
  rw [(h i hi hen).counts, Nat.cast_inj, count_eq_operations_iff]

/-- **`outstanding` over a run** without a mount, for every number of processes and every
interleaving: no logged block is lost, and the count is right in exactly those states in which
nobody is between. -/
theorem outstanding_counts {s : Sys n} (hs : Start s) {as : List (Act n)}
    (hrun : RunOk step (fun _ => NoMount) s as) :
    RunAll step (fun s => KeepsBlocks s ∧ (CountsOperations s ↔ NobodyBetween s)) s as :=
  (hrun.runAll (fun _ _ h ha => h.step ha) hs.inv).mono fun _ h =>
    ⟨fun i hi hen => (h i hi hen).kept, h.countsOperations_iff⟩

/-! ### Two processes -/

/-- The log of device 1 is set up as `mkfs` makes it, the others are not. -/
def rootOnly (n : Nat) : Sys n where
  log i := ⟨2, logsize, 0, false, i, decide (i = 1), []⟩
  phase _ := .idle
  wrote _ := ∅
  pending _ := ∅
  panic := none

lemma rootOnly_start (n : Nat) : Start (rootOnly n) :=
  ⟨fun _ => rfl, fun _ _ _ => ⟨rfl, rfl, rfl⟩, fun _ => rfl, fun _ => rfl⟩

/-- A whole call of `begin_op`. -/
def beginAll (p : Fin n) : List (Act n) :=
  [.begin p, .advance p, .advance p, .advance p, .advance p]

/-- Both are in an operation, and the second one has logged block 50 of device 1. -/
def twoOperations : List (Act 2) := beginAll 0 ++ beginAll 1 ++ [.write 1 1 50, .advance 1]

/-- In the last state two operations are counted. -/
theorem outstanding_counts_two : let s := twoOperations.foldl step (rootOnly 2)
    operations s = 2 ∧ 50 ∈ s.pending 1 ∧ KeepsBlocks s ∧ CountsOperations s := by
  have hrun : RunOk step (fun _ => NoMount) (rootOnly 2) twoOperations := by
    simp [twoOperations, beginAll, RunOk, NoMount]
  have hall := (outstanding_counts (rootOnly_start 2) hrun).last
  exact ⟨by decide +kernel, by decide +kernel, hall.1, hall.2.mpr (by decide +kernel)⟩

/-- A process that commits a log is the only one that does, and nobody is in an operation on that
log. -/
def CommitsAlone (s : Sys n) : Prop := ∀ i < nlog, (s.log i).enabled = true → ∀ p q,
  commits i (s.phase p) = true → registered i (s.phase q) = false ∧
    (commits i (s.phase q) = true → q = p)

/-- **`commit` runs alone** in every interleaving without a mount. -/
theorem commit_alone {s : Sys n} (hs : Start s) {as : List (Act n)}
    (hrun : RunOk step (fun _ => NoMount) s as) : RunAll step CommitsAlone s as := by
  refine (hrun.runAll (fun _ _ h ha => h.step ha) hs.inv).mono fun s h i hi hen p q hp => ?_
  have hinv := h i hi hen
  refine ⟨?_, fun hq => hinv.one q p hq hp⟩
  by_contra hreg
  have hfree := hinv.not_committing (by simpa using hreg)
  rw [hinv.flag p hp] at hfree
  cases hfree

/-- The first process logs a block and ends its operation, and the second one waits in
`begin_op`. -/
def endAndCommit : List (Act 2) :=
  beginAll 0 ++ [.write 0 1 50, .advance 0, .finish 0, .advance 0, .advance 0, .begin 1, .advance 1,
    .advance 1]

/-- In the last state the first process commits log 1. -/
theorem commit_alone_endAndCommit : let s := endAndCommit.foldl step (rootOnly 2)
    commits 1 (s.phase 0) = true ∧ s.phase 1 = .beginning 1 ∧ registered 1 (s.phase 1) = false ∧
      RunAll step CommitsAlone (rootOnly 2) endAndCommit := by
  have hall : RunAll step CommitsAlone (rootOnly 2) endAndCommit :=
    commit_alone (rootOnly_start 2) (by simp [endAndCommit, beginAll, RunOk, NoMount])
  have hcommits : commits 1 ((endAndCommit.foldl step (rootOnly 2)).phase 0) =
    true := by decide +kernel
  exact ⟨hcommits, by decide +kernel, (hall.last 1 (by decide) (by decide +kernel) 0 1 hcommits).1,
    hall⟩

/-- The first process mounts device 2 and ends its operation. -/
def mountSecond : List (Act 2) :=
  .mount 0 2 2 logsize :: List.replicate 7 (.recover 0 []) ++ [.finish 0] ++
    List.replicate 3 (.advance 0)

/-- The logs of devices 1 and 2 are set up. -/
def twoLogs : Sys 2 :=
  { rootOnly 2 with log := fun i => ⟨2, logsize, 0, false, i, decide (i = 1 ∨ i = 2), []⟩ }

/-- **A mount inside an operation**: the log of device 2 is left with `outstanding = -1`, though
nobody has entered it, and the block that the other operation has logged on device 1 is gone from
the header before any commit. And with two logs a process between their rounds in `begin_op`, where
it may sleep, is counted in the first one, though no operation has begun. -/
theorem mount_loses_count_and_blocks : Start (rootOnly 2) ∧
      (let s := (twoOperations ++ mountSecond).foldl step (rootOnly 2)
       (s.log 2).enabled = true ∧ (s.log 2).outstanding = -1 ∧ s.phase 1 = .running ∧
        50 ∈ s.pending 1 ∧ (s.log 1).lh = [] ∧ s.panic = none) ∧
      (let s := [Act.begin 0, .advance 0, .advance 0].foldl step twoLogs
       s.phase 0 = .beginning 2 ∧ (s.log 1).outstanding = 1 ∧ operations s = 0) :=
  ⟨rootOnly_start 2, by decide +kernel, by decide +kernel⟩

end RpiOs.RedoLog.Interleave
