import RpiOs.Kernel.Shared
import RpiOs.Lib.Fallible
import RpiOs.Sched.Table
import RpiOs.Signal.Frame

/-!
# Signals

Model of kern/signal.c and of the signal part of kern/proc.c: the signal sets, `send_signal`,
`kill`, `handle_signal` with the four kinds of handlers, `check_pending_signal`, `sigprocmask`,
`sigaction` and `sigsuspend`.

`held` are the spinlocks of the CPU at work. `acquire` of a lock that is among them spins for ever
(`Stuck.selfLock`); a lock that another CPU holds is waited for. `acted` is not in the source: it
records, for a system call, which signals had an effect on which processes.

`user_handler` runs in the address space of the process at work, also when it sets up a handler of
another process. A store that faults there is made again for ever (`Stuck.fault`): `trap` compares
the result of `pf_handler`, an unsigned number, with zero, and goes back to the store.
-/

namespace RpiOs.Signal

open Lib Sched

/-! ## Signal numbers and sets -/

/-- `NSIG` of inc/linux/signal.h. -/
def nsig : Nat := 32

def sigint : Nat := 2
def sigkill : Nat := 9
def sigterm : Nat := 15
def sigcont : Nat := 18
def sigstop : Nat := 19

def sigDfl : BitVec 64 := 0
def sigIgn : BitVec 64 := 1

/-- `sigaddset` of kern/signal.c. -/
def sigaddset (set : BitVec 64) (signum : Nat) : BitVec 64 :=
  if signum < 1 ∨ nsig ≤ signum then set else set ||| 1#64 <<< (signum - 1)

def sigdelset (set : BitVec 64) (signum : Nat) : BitVec 64 :=
  if signum < 1 ∨ nsig ≤ signum then set else set &&& ~~~(1#64 <<< (signum - 1))

/-- `sigismember(set, signum) == 1`. -/
def sigismember (set : BitVec 64) (signum : Nat) : Bool :=
  if signum < 1 ∨ nsig ≤ signum then false else set &&& 1#64 <<< (signum - 1) ≠ 0

/-- What `handle_signal` does with a signal that has the handler `SIG_DFL`. -/
inductive Default where
  | stop | cont | term | ignore
  deriving DecidableEq

/-- The `switch` of `handle_signal`. -/
def defaultOf : Nat → Default
  -- SIGSTOP, SIGTSTP, SIGTTIN, SIGTTOU
  | 19 | 20 | 21 | 22 => .stop
  | 18 => .cont
  -- those with a core dump
  | 6 | 7 | 8 | 4 | 3 | 11 | 31 | 5 | 24 | 25 => .term
  | 14 | 1 | 2 | 29 | 9 | 13 | 27 | 30 | 15 | 16 | 10 | 12 | 26 => .term
  -- SIGCHLD, SIGURG, SIGWINCH
  | _ => .ignore

/-- `struct sigaction`. -/
structure Sigaction where
  saHandler : BitVec 64
  saMask : BitVec 64
  saFlags : BitVec 32
  saRestorer : BitVec 64

/-- The part of `struct proc` that the signal functions use and the scheduler does not. -/
structure Sig where
  mask : BitVec 64
  pending : BitVec 64
  actions : Nat → Sigaction
  killed : Bool
  paused : Bool
  tf : Trapframe
  oldtf : BitVec 64
  mem : Memory
  /-- where a store of the kernel goes through with the page table of the process: the page is
  mapped for writing, or `pf_handler` makes it so -/
  writable : BitVec 64 → Bool

/-! ## The system -/

/-- The spinlocks of `kern/proc.c`: `ptable.lock`, `q.lock` and `q.siglock`. -/
inductive Lock where
  | ptable | q | siglock
  deriving DecidableEq

/-- Why a computation of the kernel does not go on. -/
inductive Stuck where
  /-- it spins on a lock that its own CPU holds -/
  | selfLock (lk : Lock)
  /-- the process sleeps -/
  | asleep
  /-- a list of processes does not end -/
  | broken
  /-- it makes the same store to user memory again and again -/
  | fault
  deriving DecidableEq

/-- The process table, the signals of the processes and the locks that are held. -/
structure Sys where
  table : Sched.Sys
  sig : Nat → Sig
  held : List Lock
  acted : List (Nat × Nat)

/-- A computation of the kernel. -/
abbrev Ker := EStateM Stuck Sys PUnit

namespace Sys

@[simps] def setSig (s : Sys) (p : Nat) (g : Sig) : Sys :=
  { s with sig := Function.update s.sig p g }

@[simps] def setTable (s : Sys) (t : Sched.Sys) : Sys := { s with table := t }

@[simps] def setHeld (s : Sys) (l : List Lock) : Sys := { s with held := l }

@[simps] def act (s : Sys) (p sig : Nat) : Sys := { s with acted := (p, sig) :: s.acted }

@[simps!] def setPending (s : Sys) (p : Nat) (set : BitVec 64) : Sys :=
  s.setSig p { s.sig p with pending := set }

end Sys

/-! ## The functions of the source -/

/-- `acquire` of kern/spinlock.c. -/
def acquire (lk : Lock) : Ker := do
  let s ← get
  if lk ∈ s.held then throw (.selfLock lk) else set (s.setHeld (lk :: s.held))

def release (lk : Lock) : Ker := modify fun s => s.setHeld (s.held.erase lk)

section handlers

-- where the entries of `ptable.proc` are in memory: a process is also a channel; the process at
-- work
variable (procAddr : Nat → Nat) (cur : Nat)

/-- Up to the scheduler. Source: `sleep`, called with `q.lock`. -/
def sleep (chan : Nat) : Ker := do
  acquire .ptable
  release .q
  modify fun s => s.setTable (enqueue s.table cur chan (.sleep 0))
  release .ptable
  throw .asleep

/-- `wakeup1`. -/
def wakeup1 (chan : Nat) : Ker := do
  let s ← get
  match Sched.wakeup1 s.table chan with
  | some t => set (s.setTable t)
  | none => throw .broken

/-- `term_handler`. -/
def termHandler (p : Nat) : Ker := do
  acquire .ptable
  modify fun s => s.setSig p { s.sig p with killed := true }
  modify fun s => if (s.table.proc p).state = .sleeping
    then s.setTable (s.table.setState p .runnable) else s
  release .ptable

def contHandler (p : Nat) : Ker := wakeup1 (procAddr p)

def stopHandler (p : Nat) : Ker := do
  acquire .q
  sleep cur (procAddr p)
  release .q

/-- All that `user_handler` stores below this stack pointer can be stored: the frame, the code that
calls `sigreturn` and its address. -/
def Sig.takesFrame (g : Sig) (sp : BitVec 64) : Bool :=
  (List.range (Trapframe.size + 16)).all fun k => g.writable (sp - BitVec.ofNat 64 (k + 1))

/-- The state after `user_handler`, when its stores go through. -/
def entered (s : Sys) (p sig : Nat) : Sys :=
  let g := s.sig p
  let u := userHandler (g.actions sig).saHandler sig ⟨g.tf, g.oldtf, (s.sig cur).mem⟩
  let s := s.setSig cur { s.sig cur with mem := u.mem }
  s.setSig p { s.sig p with tf := u.tf, oldtf := u.oldtf }

/-- The frame goes to the stack of `p` as an address, in the memory of the process at work. What is
stored before a fault is not kept. Source: `user_handler`. -/
def enterHandler (p sig : Nat) : Ker := do
  let s ← get
  if (s.sig cur).takesFrame (s.sig p).tf.sp then set (entered cur s p sig) else throw .fault

/-- The part of `handle_signal` that depends on the handler. -/
def runHandler (p sig : Nat) : Ker := do
  let s ← get
  let handler := ((s.sig p).actions sig).saHandler
  if handler = sigIgn then pure ⟨⟩
  else if handler = sigDfl then
    match defaultOf sig with
    | .stop => stopHandler procAddr cur p
    | .cont => contHandler procAddr p
    | .term => termHandler p
    | .ignore => pure ⟨⟩
  else enterHandler cur p sig

/-- Clear the pending signal flag. Source: the end of `handle_signal`. -/
def clearPending (p sig : Nat) : Ker := do
  acquire .siglock
  modify fun s => s.setPending p (sigdelset (s.sig p).pending sig)
  release .siglock

/-- `handle_signal`. -/
def handleSignal (p sig : Nat) : Ker :=
  if sig = 0 then pure ⟨⟩
  else do
    modify fun s => s.act p sig
    runHandler procAddr cur p sig
    clearPending p sig

/-- What `send_signal` does before it looks at the state of the target. -/
def marked (s : Sys) (p sig : Nat) : Sys :=
  if sig = sigkill then (s.setSig p { s.sig p with killed := true }).act p sig
  else if sigismember (s.sig p).pending sig then s
  else s.setPending p (sigaddset (s.sig p).pending sig)

/-- The signals that end a pause. -/
def endsPause (sig : Nat) : Bool := sig = sigterm || sig = sigint || sig = sigkill

/-- The second part of `send_signal`. -/
def notify (p sig : Nat) : Ker := do
  let s ← get
  if (s.table.proc p).state = .sleeping then
    if (s.sig p).paused && endsPause sig then do
      modify fun s => (s.setSig p { s.sig p with paused := false }).act p sig
      handleSignal procAddr cur p sigcont
    else if !(s.sig p).paused && !(s.sig p).killed then handleSignal procAddr cur p sig
    else pure ⟨⟩
  else pure ⟨⟩

def sendSignal (p sig : Nat) : Ker := do
  modify fun s => marked s p sig
  notify procAddr cur p sig

/-- Does `kill(pid, …)` send to this entry? Source: the loops of `kill`. -/
def isTarget (t : Sched.Sys) (pid : Int) (p : Nat) : Bool :=
  if pid = 0 ∨ pid < -1 then
    let pgid := if pid = 0 then (t.proc cur).pgid else -pid
    0 < pgid && (t.proc p).pgid = pgid
  else if pid = -1 then 1 < (t.proc p).pid && p ≠ cur
  else (t.proc p).pid = pid

/-- The entries that a signal is sent to, in order. -/
def targets (t : Sched.Sys) (pid : Int) : List Nat := (List.range nproc).filter (isTarget cur t pid)

/-- `kill`, with `ptable.lock` held while it sends. -/
def kill (pid : Int) (sig : Nat) : EStateM Stuck Sys Int := do
  let s ← get
  if pid = 0 ∧ (s.table.proc cur).pgid ≤ 0 then pure (-esrch)
  else do
    acquire .ptable
    (targets cur s.table pid).forM (sendSignal procAddr cur · sig)
    release .ptable
    pure (if targets cur s.table pid = [] then -esrch else 0)

/-- `sys_kill` of kern/sysproc.c. -/
def sysKill (pid : Int) (sig : Nat) : EStateM Stuck Sys Int :=
  if sig < 1 ∨ nsig ≤ sig then pure (-einval) else kill procAddr cur pid sig

/-- The signal that is looked at first. Source: the loop of `check_pending_signal`. -/
def firstPending (set : BitVec 64) : Option Nat := (List.range nsig).find? (sigismember set)

/-- `check_pending_signal`. -/
def checkPendingSignal : Ker := do
  let s ← get
  match firstPending (s.sig cur).pending with
  | some sig => handleSignal procAddr cur cur sig
  | none => pure ⟨⟩

end handlers

/-! ## The calls that a process makes about its own signals -/

/-- The new mask and the result; `set` is null or the set. -/
def sigprocmask (how : Int) (set : Option (BitVec 64)) (mask : BitVec 64) : BitVec 64 × Int :=
  match set with
  | none => (mask, 0)
  | some set =>
    if how = 0 then (mask ||| set, 0)
    else if how = 1 then (mask &&& ~~~set, 0)
    else if how = 2 then (set, 0)
    else (mask, -einval)

/-- The signals of a mask that the kernel does not let be blocked are taken out. -/
def blockable (mask : BitVec 64) : BitVec 64 := sigdelset (sigdelset mask sigkill) sigstop

/-- `act` is null or the new action. The mask of the action becomes the mask of the process at once.
Source: `sys_rt_sigaction` and `sigaction`. -/
def sigaction (sig : Nat) (act : Option Sigaction) (g : Sig) : Sig × Int :=
  if sig < 1 ∨ nsig ≤ sig ∨ sig = sigstop ∨ sig = sigkill then (g, -einval)
  else match act with
    | none => (g, 0)
    | some act =>
      ({ g with actions := Function.update g.actions sig act, mask := blockable act.saMask }, 0)

/-- Up to the call of `sleep`. -/
def sigsuspend (mask : BitVec 64) (g : Sig) : Sig :=
  { g with paused := true, mask := blockable mask }

end RpiOs.Signal
