import Mathlib.Tactic.Simps.Basic
import Mathlib.Algebra.BigOperators.Group.Finset.Basic
import Mathlib.Data.Fintype.Basic
import RpiOs.Lib.Run
import RpiOs.RedoLog.Model

/-!
# Many processes in the log

`begin_op`, `end_op`, `log_write` and `initlog` as many processes run them at the same time. A step
is what one process does without giving way to others: one round of the loop of `begin_op` or
`end_op` under the lock of that log, the tests of `log_write` (made before it takes the lock), its
second half, the clearing of the header in `commit`. The blocks themselves are left out.

`wrote` and `pending` are not in the source: they remember which blocks the current operation of a
process has logged, and which blocks have been logged since a log was last committed.
-/

namespace RpiOs.RedoLog.Interleave

open Lib Kernel Function

/-- Where a process is. -/
inductive Phase where
  | idle
  /-- in `begin_op`, before the round for a log -/
  | beginning (i : Nat)
  | running
  /-- in `log_write`, after its tests -/
  | logging (dev b : Nat)
  /-- in `end_op`, before the round for a log -/
  | ending (i : Nat)
  /-- in `commit`, before the header is cleared -/
  | committing (i : Nat)
  /-- after `commit` -/
  | committed (i : Nat)
  /-- in `recover_from_log`, before the round for a log or, in that round, after `read_head` -/
  | recovering (i : Nat) (read : Bool)
  deriving DecidableEq

/-- The logs and the processes. -/
structure Sys (n : Nat) where
  log : Nat → Log
  phase : Fin n → Phase
  /-- the blocks that the operation of a process has logged -/
  wrote : Fin n → Finset (Nat × Nat)
  /-- the blocks logged since the last commit of a log -/
  pending : Nat → Finset Nat
  panic : Option String

/-- What happens next. -/
inductive Act (n : Nat) where
  /-- a process calls `begin_op` -/
  | begin (p : Fin n)
  /-- a process goes on inside `begin_op`, `log_write` or `end_op` -/
  | advance (p : Fin n)
  /-- a process calls `log_write` for a buffer -/
  | write (p : Fin n) (dev b : Nat)
  /-- a process calls `end_op` -/
  | finish (p : Fin n)
  /-- a process calls `initlog`, from `mount`; the superblock gives start and size -/
  | mount (p : Fin n) (dev start size : Nat)
  /-- a process goes on inside `recover_from_log`; `head` is what a header on the card lists -/
  | recover (p : Fin n) (head : List Nat)

namespace Sys

variable {n : Nat} (s : Sys n)

@[simps -fullyApplied]
def setLog (i : Nat) (l : Log) : Sys n := { s with log := update s.log i l }

@[simps -fullyApplied]
def setPhase (p : Fin n) (ph : Phase) : Sys n := { s with phase := update s.phase p ph }

end Sys

section step

variable {n : Nat}

/-- `begin_op` has to wait. -/
def MustWait (l : Log) : Prop :=
  l.committing = true ∨ (l.lh.length : Int) + (l.outstanding + 1) * maxopblocks > logsize

instance (l : Log) : Decidable (MustWait l) := inferInstanceAs (Decidable (_ ∨ _))

/-- `begin_op`, the round for log `i`. -/
def beginRound (s : Sys n) (p : Fin n) (i : Nat) : Sys n :=
  let l := s.log i
  if nlog ≤ i then s.setPhase p .running
  else if l.enabled = false then s.setPhase p (.beginning (i + 1))
  else if MustWait l then s
  else (s.setLog i { l with outstanding := l.outstanding + 1 }).setPhase p (.beginning (i + 1))

/-- `end_op`, the round for log `i` up to `commit`. -/
def endRound (s : Sys n) (p : Fin n) (i : Nat) : Sys n :=
  let l := s.log i
  if nlog ≤ i then s.setPhase p .idle
  else if l.enabled = false then s.setPhase p (.ending (i + 1))
  else if l.committing then
    { s.setLog i { l with outstanding := l.outstanding - 1 } with panic := some "log committing" }
  else if l.outstanding - 1 = 0 then
    (s.setLog i { l with outstanding := l.outstanding - 1, committing := true }).setPhase p
      (.committing i)
  else (s.setLog i { l with outstanding := l.outstanding - 1 }).setPhase p (.ending (i + 1))

/-- `commit`, `lh.n = 0`. -/
def commitRound (s : Sys n) (p : Fin n) (i : Nat) : Sys n :=
  { (s.setLog i { s.log i with lh := [] }).setPhase p (.committed i) with
    pending := update s.pending i ∅ }

/-- `end_op`, after `commit`. -/
def afterCommit (s : Sys n) (p : Fin n) (i : Nat) : Sys n :=
  (s.setLog i { s.log i with committing := false }).setPhase p (.ending (i + 1))

/-- `log_write`, the tests. -/
def writeTests (s : Sys n) (p : Fin n) (dev b : Nat) : Sys n :=
  let l := s.log dev
  if nlog ≤ dev ∨ l.enabled = false then s
  else if logsize ≤ l.lh.length ∨ l.size ≤ l.lh.length + 1 then
    { s with panic := some "too big a transaction" }
  else if l.outstanding < 1 then { s with panic := some "log_write outside of trans" }
  else s.setPhase p (.logging dev b)

/-- `log_write`, under the lock. -/
def writeRound (s : Sys n) (p : Fin n) (dev b : Nat) : Sys n :=
  { (s.setLog dev { s.log dev with lh := absorb (s.log dev).lh b }).setPhase p .running with
    wrote := update s.wrote p (insert (dev, b) (s.wrote p))
    pending := update s.pending dev (insert b (s.pending dev)) }

/-- `initlog`, up to `recover_from_log`. -/
def mountLog (s : Sys n) (p : Fin n) (dev start size : Nat) : Sys n :=
  (s.setLog dev { s.log dev with start := start, size := size, dev := dev, enabled :=
    true }).setPhase
    p (.recovering 0 false)

/-- `recover_from_log`, the round for log `i`. -/
def recoverRound (s : Sys n) (p : Fin n) (i : Nat) (head : List Nat) : Bool → Sys n
  | false =>
    if nlog ≤ i then s.setPhase p .running
    else if (s.log i).enabled then
      (s.setLog i { s.log i with lh := head }).setPhase p (.recovering i true)
    else s.setPhase p (.recovering i true)
  | true => (s.setLog i { s.log i with lh := [] }).setPhase p (.recovering (i + 1) false)

/-- One step; a process that is somewhere else does nothing. -/
def act (s : Sys n) : Act n → Sys n
  | .begin p =>
    if s.phase p = .idle then
      { s.setPhase p (.beginning 0) with wrote := update s.wrote p ∅ }
    else s
  | .advance p =>
    match s.phase p with
    | .beginning i => beginRound s p i
    | .ending i => endRound s p i
    | .committing i => commitRound s p i
    | .committed i => afterCommit s p i
    | .logging dev b => writeRound s p dev b
    | _ => s
  | .write p dev b => if s.phase p = .running then writeTests s p dev b else s
  | .finish p => if s.phase p = .running then s.setPhase p (.ending 0) else s
  | .mount p dev start size =>
    if s.phase p = .running ∧ dev < nlog then mountLog s p dev start size else s
  | .recover p head =>
    match s.phase p with
    | .recovering i read => recoverRound s p i head read
    | _ => s

/-- Nothing happens after a `panic`. -/
def step (s : Sys n) (a : Act n) : Sys n := if s.panic.isSome then s else act s a

end step

/-! ## The code of one process -/

section code

variable {n : Nat} {s : Sys n} {m : Mem} (p : Fin n) (d : Disk)

lemma setLog_eq_update (m : Mem) (i : Nat) (l : Log) : (m.setLog i l).log = update m.log i l := by
  funext j
  simp [Mem.setLog, update_apply]

/-- A round of `begin_op` is a step; where the code of one process sleeps, the step does nothing. -/
theorem beginRound_code (hlog : s.log = m.log) {i : Nat} (hi : i < nlog) : Wp (beginOpLog i) m d
      (fun _ m' _ => (beginRound s p i).log = m'.log ∧
        (beginRound s p i).phase p = .beginning (i + 1)) (fun _ => True)
      fun e => e = .sleep ∧ beginRound s p i = s := by
  unfold beginOpLog beginRound MustWait
  rw [hlog]
  simp only [wp_bind, wp_get, if_neg (Nat.not_le.mpr hi)]
  by_cases hen : (m.log i).enabled = false
  · simp [hen, hlog]
  by_cases hcom : (m.log i).committing = true
  · simp [hen, hcom]
  by_cases hfull : ((m.log i).lh.length : Int) + ((m.log i).outstanding + 1) * maxopblocks > logsize
  · simp [hen, hcom, hfull]
  · simp [hen, hcom, hfull, hlog, setLog_eq_update]

/-- `log_write` is two steps, and the first one panics if it does. -/
theorem writeRound_code (hlog : s.log = m.log) (i : Nat) : Wp (logWrite i) m d
      (fun _ m' _ => writeTests s p (m.buf i).dev (m.buf i).blockno = s ∧ m' = m ∨
        (writeTests s p (m.buf i).dev (m.buf i).blockno).phase p =
          .logging (m.buf i).dev (m.buf i).blockno ∧
        (writeRound s p (m.buf i).dev (m.buf i).blockno).log = m'.log) (fun _ => True)
      fun _ => (writeTests s p (m.buf i).dev (m.buf i).blockno).panic.isSome := by
  unfold logWrite writeTests writeRound Active
  rw [hlog]
  generalize hb : m.buf i = b
  simp only [wp_bind, wp_get, hb]
  have hiff : nlog ≤ b.dev ∨ (m.log b.dev).enabled = false ↔
      ¬ (b.dev < nlog ∧ (m.log b.dev).enabled = true) := by
    rw [not_and_or, Nat.not_lt, Bool.not_eq_true]
  by_cases hact : b.dev < nlog ∧ (m.log b.dev).enabled = true
  · rw [if_neg (not_not.mpr hact), if_neg (mt hiff.mp (not_not.mpr hact))]
    by_cases hbig : logsize ≤ (m.log b.dev).lh.length ∨
      (m.log b.dev).size ≤ (m.log b.dev).lh.length + 1
    · simp [if_pos hbig]
    by_cases hout : (m.log b.dev).outstanding < 1
    · simp [if_neg hbig, hout]
    · simp [if_neg hbig, hout, hlog, ← setLog_eq_update, Mem.setBuf]
  · rw [if_pos hact, if_pos (hiff.mpr hact)]
    simp

end code

/-! ## What one step does to one log -/

section move

variable {n : Nat} (i j : Nat)

/-- The process is counted in `outstanding` of log `i`. -/
def registered (i : Nat) : Phase → Bool
  | .idle => false
  | .beginning j => decide (i < j)
  | .running => true
  | .logging _ _ => true
  | .recovering _ _ => true
  | .ending j => decide (j ≤ i)
  | .committing j => decide (j < i)
  | .committed j => decide (j < i)

attribute [simp] registered

/-- The process commits log `i`. -/
def commits (i : Nat) : Phase → Bool
  | .committing j => decide (j = i)
  | .committed j => decide (j = i)
  | _ => false

/-- The blocks of log `i` that the operation has logged. -/
def blocksOf (s : Sys n) (p : Fin n) (i : Nat) : Finset (Nat × Nat) := (s.wrote p).filter (·.1 = i)

/-- What a step of process `p` does to log `i` and to the place of `p` in it. -/
inductive Move (s s' : Sys n) (p : Fin n) (i : Nat) : Prop where
  /-- nothing -/
  | stay (log : s'.log i = s.log i) (pending : s'.pending i = s.pending i)
      (reg : registered i (s'.phase p) = registered i (s.phase p))
      (com : s'.phase p = s.phase p ∨ commits i (s'.phase p) = false ∧
        commits i (s.phase p) = false)
      (wrote : registered i (s'.phase p) = true → blocksOf s' p i = blocksOf s p i)
  | enter (wait : ¬ MustWait (s.log i))
      (log : s'.log i = { s.log i with outstanding := (s.log i).outstanding + 1 })
      (pending : s'.pending i = s.pending i) (before : s.phase p = .beginning i)
      (after : s'.phase p = .beginning (i + 1)) (wrote : s'.wrote p = s.wrote p)
  | leave (more : (s.log i).outstanding - 1 ≠ 0)
      (log : s'.log i = { s.log i with outstanding := (s.log i).outstanding - 1 })
      (pending : s'.pending i = s.pending i) (before : s.phase p = .ending i)
      (after : s'.phase p = .ending (i + 1))
  | last (none : (s.log i).outstanding - 1 = 0)
      (log : s'.log i = { s.log i with outstanding := (s.log i).outstanding - 1, committing :=
        true })
      (pending : s'.pending i = s.pending i) (before : s.phase p = .ending i)
      (after : s'.phase p = .committing i)
  | clear (log : s'.log i = { s.log i with lh := [] }) (pending : s'.pending i = ∅)
      (before : s.phase p = .committing i) (after : s'.phase p = .committed i)
  | done (log : s'.log i = { s.log i with committing := false })
      (pending : s'.pending i = s.pending i) (before : s.phase p = .committed i)
      (after : s'.phase p = .ending (i + 1))
  | write (b : Nat) (log : s'.log i = { s.log i with lh := absorb (s.log i).lh b })
      (pending : s'.pending i = insert b (s.pending i)) (before : s.phase p = .logging i b)
      (after : s'.phase p = .running) (wrote : s'.wrote p = insert (i, b) (s.wrote p))

/-- The other processes stay where they are. -/
def Others (s s' : Sys n) (p : Fin n) : Prop :=
  ∀ q, q ≠ p → s'.phase q = s.phase q ∧ s'.wrote q = s.wrote q

/-- The process of an action. -/
def Act.proc : Act n → Fin n
  | .begin p => p
  | .advance p => p
  | .write p _ _ => p
  | .finish p => p
  | .mount p _ _ _ => p
  | .recover p _ => p

/-- Not a part of `initlog`. -/
def NoMount : Act n → Prop
  | .mount .. => False
  | .recover .. => False
  | _ => True

lemma Move.refl (s : Sys n) (p : Fin n) (i : Nat) : Move s s p i :=
  .stay rfl rfl rfl (.inl rfl) fun _ => rfl

section rounds

variable {s : Sys n} {p : Fin n} {i j : Nat}

section

variable {l : Log} {ph₀ ph : Phase} (hp : s.phase p = ph₀)
  (hreg : registered i ph = registered i ph₀)
  (hcom : commits i ph = false ∧ commits i ph₀ = false)
include hp hreg hcom

lemma Move.phase : Move s (s.setPhase p ph) p i := by
  subst hp
  exact .stay rfl rfl (by simpa using hreg) (.inr (by simpa using hcom)) fun _ => rfl

lemma Move.other (hne : i ≠ j) : Move s ((s.setLog j l).setPhase p ph) p i := by
  subst hp
  exact .stay (by simp [hne]) rfl (by simpa using hreg) (.inr (by simpa using hcom)) fun _ => rfl

end

lemma ne_of_disabled (hen : (s.log i).enabled = true) (hdis : (s.log j).enabled = false) :
    i ≠ j := by
  rintro rfl
  rw [hdis] at hen
  cases hen

/-- A round of `begin_op`. -/
lemma beginRound_move (hp : s.phase p = .beginning j) (hi : i < nlog)
    (hen : (s.log i).enabled = true) : Move s (beginRound s p j) p i := by
  unfold beginRound
  dsimp only
  split
  · exact .phase hp (decide_eq_true (by omega)).symm ⟨rfl, rfl⟩
  split
  · next hdis =>
    have hne := ne_of_disabled hen hdis
    exact .phase hp (decide_eq_decide.mpr (by omega)) ⟨rfl, rfl⟩
  split
  · exact .refl s p i
  · next hwait =>
    by_cases hne : i = j
    · subst hne
      exact .enter hwait (by simp) rfl hp (by simp) rfl
    exact .other hp (decide_eq_decide.mpr (by omega)) ⟨rfl, rfl⟩ hne

/-- A round of `end_op`. -/
lemma endRound_move (hp : s.phase p = .ending j) (hi : i < nlog) (hen : (s.log i).enabled = true)
    (hcom : j < nlog → (s.log j).enabled = true → (s.log j).committing = false) :
    Move s (endRound s p j) p i := by
  unfold endRound
  dsimp only
  split
  · exact .phase hp (decide_eq_false (by omega)).symm ⟨rfl, rfl⟩
  split
  · next hdis =>
    have hne := ne_of_disabled hen hdis
    exact .phase hp (decide_eq_decide.mpr (by omega)) ⟨rfl, rfl⟩
  split
  · next hj hen' hbusy => rw [hcom (by omega) (by simpa using hen')] at hbusy; cases hbusy
  split
  · next hlast =>
    by_cases hne : i = j
    · subst hne
      exact .last hlast (by simp) rfl hp (by simp)
    exact .other hp (decide_eq_decide.mpr (by omega)) ⟨decide_eq_false (Ne.symm hne), rfl⟩ hne
  · next hmore =>
    by_cases hne : i = j
    · subst hne
      exact .leave hmore (by simp) rfl hp (by simp)
    exact .other hp (decide_eq_decide.mpr (by omega)) ⟨rfl, rfl⟩ hne

lemma commitRound_move (hp : s.phase p = .committing j) : Move s (commitRound s p j) p i := by
  unfold commitRound
  by_cases hne : i = j
  · subst hne
    exact .clear (by simp) (by simp) hp (by simp)
  refine .stay (by simp [hne]) (by simp [hne]) ?_ ?_ fun _ => rfl
  · simp [hp, registered]
  · exact .inr (by simp [hp, commits, Ne.symm hne])

lemma afterCommit_move (hp : s.phase p = .committed j) : Move s (afterCommit s p j) p i := by
  unfold afterCommit
  by_cases hne : i = j
  · subst hne
    exact .done (by simp) rfl hp (by simp)
  exact .other hp (decide_eq_decide.mpr (by omega)) ⟨rfl, decide_eq_false (Ne.symm hne)⟩ hne

lemma writeRound_move {b : Nat} (hp : s.phase p = .logging j b) :
    Move s (writeRound s p j b) p i := by
  unfold writeRound
  by_cases hne : i = j
  · subst hne
    exact .write b (by simp) (by simp) hp (by simp) (by simp)
  refine .stay (by simp [hne]) (by simp [hne]) (by simp [hp, registered])
    (.inr (by simp [hp, commits])) fun _ => ?_
  simp [blocksOf, Finset.filter_insert, Ne.symm hne]

/-- The tests of `log_write`. -/
lemma writeTests_move {b : Nat} (hp : s.phase p = .running) : Move s (writeTests s p j b) p i := by
  unfold writeTests
  dsimp only
  split
  · exact .refl s p i
  split
  · exact .stay rfl rfl rfl (.inl rfl) fun _ => rfl
  split
  · exact .stay rfl rfl rfl (.inl rfl) fun _ => rfl
  · exact .phase hp rfl ⟨rfl, rfl⟩

/-- **What a step does to an enabled log**. -/
theorem act_move {a : Act n} (ha : NoMount a) (hi : i < nlog) (hen : (s.log i).enabled = true)
    (hcom : ∀ j, s.phase a.proc = .ending j → j < nlog → (s.log j).enabled = true →
      (s.log j).committing = false) : Move s (act s a) a.proc i := by
  cases a with
  | begin p =>
    dsimp only [act, Act.proc]
    split
    · next hp =>
      refine .stay rfl rfl ?_ ?_ fun hreg => ?_
      · simp [hp, registered]
      · exact .inr (by simp [hp, commits])
      · simp [registered] at hreg
    · exact .refl s _ i
  | advance p =>
    dsimp only [act, Act.proc]
    split
    · next j hp => exact beginRound_move hp hi hen
    · next j hp => exact endRound_move hp hi hen (hcom j hp)
    · next j hp => exact commitRound_move hp
    · next j hp => exact afterCommit_move hp
    · next j b hp => exact writeRound_move hp
    · exact .refl s _ i
  | write p dev b =>
    dsimp only [act, Act.proc]
    split
    · next hp => exact writeTests_move hp
    · exact .refl s _ i
  | finish p =>
    dsimp only [act, Act.proc]
    split
    · next hp => exact .phase hp (decide_eq_true (Nat.zero_le i)) ⟨rfl, rfl⟩
    · exact .refl s _ i
  | mount p dev start size | recover p head => exact ha.elim

end rounds

end move

end RpiOs.RedoLog.Interleave
