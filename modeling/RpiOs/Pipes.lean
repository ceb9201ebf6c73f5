import RpiOs.Lib.Fifo
import RpiOs.Lib.Run

/-!
# Pipes

Model of `kern/pipe.c`: any number of processes in `pipewrite` and `piperead` on one pipe. The unit
of interleaving is what the code does between taking `pi->lock` and giving it up, which it does when
it returns and when it sleeps. A process that sleeps may go on at any time, so that the runs here
include those of the code, in which it waits for a `wakeup` of its channel. `killed` is read at most
once in such a stretch and is given with the action. A pipe whose two ends are closed is freed, and
nobody has a file for it any more: nothing happens to it after that.

* `Sys`, `step`: the processes on the pipe. `stored` and `returned` are not in the source: they
  record what the processes have put into the pipe and got from it, in the order of the lock.
* **`pipe_fifo`**: in every run nothing is lost, doubled or put in another order.
-/

namespace RpiOs.Pipes

open Lib

/-- `PIPESIZE` of inc/pipe.h. -/
def pipesize : Nat := 512

/-- `struct pipe`. -/
structure Pipe extends Fifo 32 UInt8 where
  readopen : Bool
  writeopen : Bool

/-- A new pipe, in a page with whatever was there. -/
def pipealloc (data : Nat → UInt8) : Pipe := ⟨⟨data, 0, 0⟩, true, true⟩

/-- The `for` loop of `pipewrite` from round `i` on, with `left` rounds to go: it ends before a byte
for which there is no room. With the pipe, the round in which it stopped. -/
def writeBytes (addr : Nat → UInt8) : Nat → Nat → Pipe → Pipe × Nat
  | 0, i, pi => (pi, i)
  | left + 1, i, pi =>
    if pi.nwrite = pi.nread + BitVec.ofNat 32 pipesize then (pi, i)
    else writeBytes addr left (i + 1) { pi with toFifo := pi.put pipesize (addr i) }

/-- The `for` loop of `piperead`, with the bytes it copies to the user. -/
def readBytes : Nat → Pipe → Pipe × List UInt8
  | 0, pi => (pi, [])
  | left + 1, pi =>
    if pi.nread = pi.nwrite then (pi, [])
    else
      let r := readBytes left { pi with toFifo := pi.take }
      (r.1, pi.front pipesize :: r.2)

/-- A call that is under way: the arguments, and for `pipewrite` the round it is in. -/
inductive Call where
  | write (addr : Nat → UInt8) (n : Int) (i : Nat)
  | read (n : Int)

/-- The pipe and the processes asleep in `pipewrite` and `piperead`. -/
structure Sys where
  pipe : Pipe
  freed : Bool
  asleep : Nat → Option Call
  stored : List UInt8
  returned : List UInt8

/-- What a process does with `pi->lock` held: it returns, with an answer, or goes to sleep. -/
structure Stretch where
  pipe : Pipe
  call : Call
  stored : List UInt8
  returned : List UInt8
  answer : Option Int

/-- `pipewrite`, from `acquire` or from the end of `sleep`. -/
def pipewrite (killed : Bool) (addr : Nat → UInt8) (n : Int) (i : Nat) (pi : Pipe) : Stretch :=
  let r := writeBytes addr (n - i).toNat i pi
  { pipe := r.1
    call := .write addr n r.2
    stored := (List.range' i (r.2 - i)).map addr
    returned := []
    answer :=
      if (r.2 : Int) < n then
        -- the pipe is full
        if r.1.readopen = false ∨ killed then some (-1) else none
      else some r.2 }

/-- `piperead`, from `acquire` or from the end of `sleep`. -/
def piperead (killed : Bool) (n : Int) (pi : Pipe) : Stretch :=
  if pi.nread = pi.nwrite ∧ pi.writeopen = true then
    ⟨pi, .read n, [], [], if killed then some (-1) else none⟩
  else
    let r := readBytes n.toNat pi
    ⟨r.1, .read n, [], r.2, some r.2.length⟩

def Call.run (killed : Bool) (pi : Pipe) : Call → Stretch
  | .write addr n i => pipewrite killed addr n i pi
  | .read n => piperead killed n pi

/-- `pipeclose`; the freeing is in `step`. -/
def pipeclose (writable : Bool) (pi : Pipe) : Pipe :=
  if writable then { pi with writeopen := false } else { pi with readopen := false }

/-- What can happen next. -/
inductive Act where
  /-- process `p` calls `pipewrite` -/
  | write (p : Nat) (killed : Bool) (addr : Nat → UInt8) (n : Int)
  /-- process `p` calls `piperead` -/
  | read (p : Nat) (killed : Bool) (n : Int)
  /-- process `p` returns from `sleep` -/
  | resume (p : Nat) (killed : Bool)
  /-- the last file of an end is closed -/
  | close (writable : Bool)

/-- The call that runs in an action, with its process and whether that was killed. -/
def running (s : Sys) : Act → Option (Nat × Bool × Call)
  | .write p killed addr n => if (s.asleep p).isNone then some
    (p, killed, .write addr n 0) else none
  | .read p killed n => if (s.asleep p).isNone then some (p, killed, .read n) else none
  | .resume p killed => (s.asleep p).map fun c => (p, killed, c)
  | .close _ => none

/-- Process `p` runs a call until it returns or sleeps. -/
def Sys.enter (s : Sys) (p : Nat) (killed : Bool) (c : Call) : Sys :=
  let r := c.run killed s.pipe
  { s with
    pipe := r.pipe
    asleep := Function.update s.asleep p (if r.answer.isNone then some r.call else none)
    stored := s.stored ++ r.stored
    returned := s.returned ++ r.returned }

/-- One action. -/
def step (s : Sys) (a : Act) : Sys :=
  if s.freed then s
  else
    match a with
    | .close writable =>
      let pi := pipeclose writable s.pipe
      { s with pipe := pi, freed := !pi.readopen && !pi.writeopen }
    | a =>
      match running s a with
      | none => s
      | some (p, killed, c) => s.enter p killed c

/-- The call that returns in an action, with its answer. -/
def answer (s : Sys) (a : Act) : Option (Call × Int) :=
  if s.freed then none
  else (running s a).bind fun (_, killed, c) => (c.run killed s.pipe).answer.map fun r => (c, r)

/-- A new pipe that nobody has used. -/
def start (data : Nat → UInt8) : Sys := ⟨pipealloc data, false, fun _ => none, [], []⟩

/-! ## What a stretch does -/

lemma pipesize_dvd : pipesize ∣ 2 ^ 32 := ⟨2 ^ 23, rfl⟩

lemma pipesize_lt : pipesize < 2 ^ 32 := by decide

variable {pi : Pipe} {q : List UInt8} {s : Sys}

/-- The loop of `pipewrite` appends to the queue what it has copied. -/
lemma writeBytes_spec (addr : Nat → UInt8) (left i : Nat) (h : pi.Holds pipesize q) :
    i ≤ (writeBytes addr left i pi).2 ∧
      (writeBytes addr left i pi).1.Holds pipesize
        (q ++ (List.range' i ((writeBytes addr left i pi).2 - i)).map addr) := by
  induction left generalizing i pi q with
  | zero =>
    refine ⟨le_rfl, ?_⟩
    simpa [writeBytes] using h
  | succ left ih => ?_
  unfold writeBytes
  split
  · refine ⟨le_rfl, ?_⟩
    simpa using h
  · next hroom =>
    have hfree : q.length < pipesize :=
      lt_of_le_of_ne h.fits fun hlen => hroom ((h.full_iff pipesize_lt).mpr hlen)
    have hput : ({ pi with toFifo := pi.put pipesize (addr i) } : Pipe).Holds pipesize
        (q ++ [addr i]) := h.put pipesize_dvd hfree
    obtain ⟨hle, hholds⟩ := ih (i + 1) hput
    refine ⟨by omega, ?_⟩
    set j := (writeBytes addr left (i + 1) { pi with toFifo := pi.put pipesize (addr i) }).2
    have hcount : j - i = (j - (i + 1)) + 1 := by omega
    rw [hcount, List.range'_succ, List.map_cons]
    simpa [List.append_assoc] using hholds

/-- The loop of `piperead` takes from the front of the queue. -/
lemma readBytes_spec (left : Nat) (h : pi.Holds pipesize q) :
    ∃ q', q = (readBytes left pi).2 ++ q' ∧ (readBytes left pi).1.Holds pipesize q' := by
  induction left generalizing pi q with
  | zero => exact ⟨q, rfl, h⟩
  | succ left ih => ?_
  unfold readBytes
  split
  · exact ⟨q, rfl, h⟩
  · next hne =>
    rcases q with - | ⟨x, q⟩
    · exact absurd ((h.empty_iff pipesize_lt).mpr rfl) hne
    obtain ⟨hfront, hrest⟩ := h.take
    have htake : ({ pi with toFifo := pi.take } : Pipe).Holds pipesize q := hrest
    obtain ⟨q', rfl, hholds⟩ := ih htake
    refine ⟨q', ?_, hholds⟩
    rw [hfront]
    rfl

/-- What was in the pipe and what a stretch has stored is what it returned and what is in the pipe
now. -/
lemma run_spec (killed : Bool) (c : Call) (h : pi.Holds pipesize q) :
    ∃ q', q ++ (c.run killed pi).stored = (c.run killed pi).returned ++ q' ∧
      (c.run killed pi).pipe.Holds pipesize q' := by
  cases c with
  | write addr n i =>
    have hspec := (writeBytes_spec addr (n - i).toNat i h).2
    exact ⟨_, rfl, hspec⟩
  | read n =>
    dsimp only [Call.run, piperead]
    split
    · exact ⟨q, List.append_nil q, h⟩
    · obtain ⟨q', hq, hholds⟩ := readBytes_spec n.toNat h
      exact ⟨q', (List.append_nil q).trans hq, hholds⟩

/-- A read of something returns 0 only from an empty pipe without a writer. -/
lemma piperead_zero {killed : Bool} {n : Int} (hn : 0 < n)
    (h : (piperead killed n pi).answer = some 0) :
    (piperead killed n pi).pipe.nread = (piperead killed n pi).pipe.nwrite ∧
      (piperead killed n pi).pipe.writeopen = false := by
  unfold piperead at h ⊢
  split at h
  · next hwait =>
    exfalso
    revert h
    cases killed <;> simp
  · next hgo =>
    rw [if_neg hgo]
    obtain ⟨left, hleft⟩ : ∃ left, n.toNat = left + 1 := ⟨n.toNat - 1, by omega⟩
    rw [hleft] at h ⊢
    by_cases hempty : pi.nread = pi.nwrite
    · have hstop : readBytes (left + 1) pi = (pi, []) := if_pos hempty
      rw [hstop]
      refine ⟨hempty, ?_⟩
      simpa [hempty] using hgo
    -- a byte was there, so at least one is returned
    exfalso
    simp [readBytes, hempty] at h
    omega

/-! ## Runs -/

/-- What is in the pipe is what has been stored and not yet returned. -/
def Queued (s : Sys) : Prop :=
  ∃ q, s.pipe.Holds pipesize q ∧ s.stored = s.returned ++ q

lemma Queued.enter (h : Queued s) (p : Nat) (killed : Bool) (c : Call) :
    Queued (s.enter p killed c) := by
  obtain ⟨q, hholds, hstored⟩ := h
  obtain ⟨q', hq, hholds'⟩ := run_spec killed c hholds
  refine ⟨q', hholds', ?_⟩
  show s.stored ++ (c.run killed s.pipe).stored = s.returned ++ (c.run killed s.pipe).returned ++ q'
  rw [hstored, List.append_assoc, hq, List.append_assoc]

/-- Every step keeps the queue in the ring. -/
lemma Queued.step (h : Queued s) (a : Act) : Queued (step s a) := by
  unfold Pipes.step
  split
  · exact h
  split
  · next writable =>
    obtain ⟨q, hholds, hstored⟩ := h
    refine ⟨q, ?_, hstored⟩
    dsimp only [pipeclose]
    split
    · exact hholds
    · exact hholds
  · split
    · exact h
    · exact h.enter _ _ _

lemma queued_start (data : Nat → UInt8) : Queued (start data) :=
  ⟨[], Fifo.holds_nil data 0, rfl⟩

/-- A pipe as its users expect it. -/
structure PipeOk (s : Sys) : Prop where
  bounded : (s.pipe.nwrite - s.pipe.nread).toNat ≤ pipesize
  queued : Queued s
  fifo : s.returned <+: s.stored
  zero : ∀ a n, answer s a = some (.read n, 0) → 0 < n →
    (step s a).pipe.nread = (step s a).pipe.nwrite ∧ (step s a).pipe.writeopen = false

/-- An action in which a call returns is that call, run by its process. -/
lemma step_of_answer {a : Act} {c : Call} {r : Int} (h : answer s a = some (c, r)) :
    ∃ p killed, (c.run killed s.pipe).answer = some r ∧ step s a = s.enter p killed c := by
  unfold answer at h
  split at h
  · cases h
  · next hlive =>
    obtain ⟨⟨p, killed, c'⟩, hrun, hr⟩ := Option.bind_eq_some_iff.mp h
    obtain ⟨r', hanswer, heq⟩ := Option.map_eq_some_iff.mp hr
    cases heq
    refine ⟨p, killed, hanswer, ?_⟩
    unfold Pipes.step
    rw [if_neg hlive]
    split
    · cases hrun
    · rw [hrun]

/-- The queue implies what is said of a pipe. -/
lemma Queued.pipeOk (h : Queued s) : PipeOk s where
  bounded := by
    obtain ⟨q, hholds, -⟩ := h
    rw [hholds.distance pipesize_lt]
    exact hholds.fits
  queued := h
  fifo := by
    obtain ⟨q, -, hstored⟩ := h
    exact ⟨q, hstored.symm⟩
  zero := by
    intro a n hanswer hn
    obtain ⟨p, killed, hzero, hstep⟩ := step_of_answer hanswer
    rw [hstep]
    exact piperead_zero hn hzero

/-- **Pipes are first in, first out and lose nothing.** In every state of every run: the counters
are at most `PIPESIZE` apart, the bytes returned by `piperead` are a prefix of those stored by
`pipewrite` and the rest is in the pipe, and a `piperead` of at least one byte returns 0 only from
an empty pipe without writers. -/
theorem pipe_fifo (data : Nat → UInt8) (as : List Act) : RunAll step PipeOk (start data) as := by
  have hrun : RunAll step Queued (start data) as :=
    runAll_of_step (fun _ a h => h.step a) (queued_start data) as
  exact hrun.mono fun _ h => h.pipeOk

end RpiOs.Pipes
