import RpiOs.Lib.Ring

/-!
# The process table

Model of `kern/proc.c` with the lists of `inc/list.h`: process creation, the scheduler, `yield`,
`sleep`, `wakeup`, `wait4` and `exit`, on any number of CPUs.

The unit of interleaving is what the code does between taking `ptable.lock` and giving it up. Two
functions keep the lock over a point that others can see, and are cut there: `sleep` gives up the
lock it was called with after it has taken `ptable.lock`, and `wait4` sleeps on `ptable.lock`
itself, so that it comes back with the lock held. An action that finds its lock taken is not
possible; the CPU spins.

Not modelled: signals, and the fields of `struct proc` that none of these functions reads.
-/

namespace RpiOs.Sched

open Lib Function

/-- `NPROC` of inc/proc.h. -/
def nproc : Nat := 128

def sqsize : Nat := 0x100

def hash (chan : Nat) : Nat := (chan >>> 5) % sqsize

/-- Inc/linux/wait.h. -/
def wnohang : BitVec 32 := 1

/-- Inc/linux/wait.h. -/
def wuntraced : BitVec 32 := 2

/-- `enum procstate`. -/
inductive ProcState
  | unused | embryo | sleeping | runnable | running | zombie
  deriving DecidableEq, Repr

/-- The `struct list_head`s: the heads `ptable.sched_que`, `ptable.slpque[i]` and `p->child`, the
members `p->link` and `p->clink`, and the null pointer. -/
inductive Node
  | null | schedQue | slpque (i : Nat) | link (p : Nat) | child (p : Nat) | clink (p : Nat)
  deriving DecidableEq, Repr

/-- Where `swtch` comes back to when the process is chosen again. -/
inductive Context
  | forkret
  | yield
  | sleep (lk : Nat)
  | wait4 (pid : Int) (options : BitVec 32)
  deriving DecidableEq

/-- An entry of `ptable.proc`. Processes are named by their index; `parent` is null for a process
that was not forked. -/
structure Proc where
  state : ProcState
  pid : Int
  pgid : Int
  parent : Option Nat
  chan : Nat
  xstate : Int
  kstack : Nat
  pgdir : Nat
  context : Context

/-- An entry after `memset(p, 0, sizeof(*p))`. -/
def Proc.zero : Proc := ⟨.unused, 0, 0, none, 0, 0, 0, 0, .forkret⟩

/-- What a CPU is doing. -/
inductive Cpu
  /-- Not started. -/
  | off
  /-- In `scheduler`, between two rounds of its loop. -/
  | scheduler
  /-- Executing `p`. -/
  | running (p : Nat)
  /-- In `fork`, with the new entry `np` filled in but not yet in any list. -/
  | forking (p np : Nat)
  /-- In `sleep(chan, lk)`: `ptable.lock` taken, `lk` given up. -/
  | handingOver (p chan lk : Nat)
  /-- In `sleep`, back from the scheduler, about to take `lk`. -/
  | relocking (p lk : Nat)
  /-- In `wait4`, with `ptable.lock` taken. -/
  | waiting (p : Nat) (pid : Int) (options : BitVec 32)
  /-- Stopped inside `exit` by a panic or a null pointer, `ptable.lock` taken. -/
  | halted (p : Nat)
  deriving DecidableEq

/-- The process a CPU executes. -/
@[simp] def Cpu.proc : Cpu → Option Nat
  | .off | .scheduler => none
  | .running p | .forking p _ | .handingOver p _ _ | .relocking p _ | .waiting p _ _
  | .halted p => some p

/-- The CPU holds `ptable.lock`. -/
@[simp] def Cpu.locks : Cpu → Bool
  | .handingOver _ _ _ | .waiting _ _ _ | .halted _ => true
  | _ => false

/-- The system. `locked lk` is the field `locked` of any other spinlock. `freed` records the
kernel stacks and page tables given back. `live` is a ghost: the processes that were made
schedulable and have not exited; no function reads it. -/
structure Sys where
  proc : Nat → Proc
  links : Links Node
  lastPid : Int
  cpu : Nat → Cpu
  idle : Nat → Nat
  lock : Bool
  locked : Nat → Bool
  initproc : Option Nat
  freed : List Nat
  live : Nat → Bool

namespace Sys

@[simps] def setProc (s : Sys) (p : Nat) (f : Proc → Proc) : Sys :=
  { s with proc := update s.proc p (f (s.proc p)) }

@[simps!] def setState (s : Sys) (p : Nat) (st : ProcState) : Sys :=
  s.setProc p ({ · with state := st })

@[simps] def setLinks (s : Sys) (l : Links Node) : Sys := { s with links := l }

@[simps] def setCpu (s : Sys) (c : Nat) (k : Cpu) : Sys := { s with cpu := update s.cpu c k }

@[simps] def setLock (s : Sys) (b : Bool) : Sys := { s with lock := b }

@[simps] def setLocked (s : Sys) (lk : Nat) (b : Bool) : Sys :=
  { s with locked := update s.locked lk b }

@[simps] def setLive (s : Sys) (p : Nat) (b : Bool) : Sys := { s with live := update s.live p b }

@[simps] def free (s : Sys) (a : Nat) : Sys := { s with freed := a :: s.freed }

/-- The processes on the list of `h`, in order. -/
def queue (s : Sys) (h : Node) : List Nat :=
  (s.links.collect h nproc (s.links.next h)).filterMap fun
    | .link p => some p
    | .clink p => some p
    | _ => none

end Sys

/-! ## The functions of the source -/

/-- One round of the loop of `wakeup1`. -/
def wakeupBody (chan : Nat) : Node → Sys → Sys ⊕ Unit
  | .link p, s =>
    if (s.proc p).chan = chan then
      .inl ((s.setLinks ((s.links.drop (.link p)).pushBack .schedQue (.link p))).setState p
        .runnable)
    else .inl s
  | _, _ => .inr ()

def wakeup1 (s : Sys) (chan : Nat) : Option Sys :=
  match forEach Sys.links (.slpque (hash chan)) (wakeupBody chan) (nproc + 1) s with
  | some (.inl s') => some s'
  | _ => none

/-- `memset(p, 0, sizeof(*p))`, the list pointers of the entry included. -/
def clear (s : Sys) (p : Nat) : Sys :=
  let l := s.links
  let l := (l.setNext (.link p) .null).setPrev (.link p) .null
  let l := (l.setNext (.clink p) .null).setPrev (.clink p) .null
  let l := (l.setNext (.child p) .null).setPrev (.child p) .null
  (s.setProc p fun _ => Proc.zero).setLinks l

/-- The first unused entry. -/
def findUnused (s : Sys) : Option Nat :=
  (List.range nproc).find? fun p => (s.proc p).state = .unused

/-- `kstack` is what `kalloc` returns. -/
def procAlloc (s : Sys) (kstack : Option Nat) : Option Nat × Sys :=
  match findUnused s, kstack with
  | none, _ => (none, s)
  | some p, none => (none, clear s p)
  | some p, some k =>
    let s := clear s p
    let s := { s with lastPid := s.lastPid + 1 }
    let s := s.setProc p fun r =>
      { r with kstack := k, pid := s.lastPid, state := .embryo, context := .forkret }
    (some p, s.setLinks (s.links.init (.child p)))

/-- Does `wait4(pid, …)` look at this child? Source: `wait4`. -/
def selects (cp p : Proc) (pid : Int) : Bool :=
  if 0 < pid then p.pid = pid
  else if pid = 0 then p.pgid = cp.pgid
  else if pid ≠ -1 then p.pgid = -pid
  else true

/-- The test for reaping of `wait4`. -/
def reapable (options : BitVec 32) (st : ProcState) : Bool :=
  st = .zombie || (options &&& wuntraced ≠ 0 && st = .sleeping) || options &&& wnohang ≠ 0

/-- One round of the loop of `wait4`: the child to reap, if it is this one. -/
def wait4Body (cp : Nat) (pid : Int) (options : BitVec 32) : Node → Sys → Sys ⊕ Option Nat
  | .clink p, s =>
    if (s.proc p).parent = some cp && selects (s.proc cp) (s.proc p) pid
        && reapable options (s.proc p).state then .inr (some p)
    else .inl s
  | _, _ => .inr none

/-- What a round of the outer loop of `wait4` ends with. -/
inductive Wait
  | echild
  | sleep
  | reaped (p : Nat) (pid status : Int)
  deriving DecidableEq

/-- Unlink a child, free its kernel stack and page table, and give up its entry. -/
def reap (s : Sys) (p : Nat) : Sys :=
  ((((s.setLinks (s.links.drop (.clink p))).free (s.proc p).kstack).free
    (s.proc p).pgdir).setState p .unused)

/-- `wait4`, from a test of `list_empty(que)` to the return or to `sleep`. -/
def wait4Pass (s : Sys) (cp : Nat) (pid : Int) (options : BitVec 32) : Option (Wait × Sys) :=
  if s.links.next (.child cp) = .child cp then some (.echild, s)
  else match forEach Sys.links (.child cp) (wait4Body cp pid options) (nproc + 1) s with
    | some (.inl s') => some (.sleep, s')
    | some (.inr (some p)) => some (.reaped p (s.proc p).pid ((s.proc p).xstate * 2 ^ 8), reap s p)
    | _ => none

/-- Put the process on the queue of `chan` and leave it to the scheduler. Source: `sleep`. -/
def enqueue (s : Sys) (p chan : Nat) (k : Context) : Sys :=
  (s.setProc p fun r => { r with chan := chan, state := .sleeping, context := k }).setLinks
    (s.links.pushBack (.slpque (hash chan)) (.link p))

section step

-- where the entries of `ptable.proc` are in memory: a process is also a channel
variable (procAddr : Nat → Nat)

/-- A pointer to a process as a channel. -/
def chanOf : Option Nat → Nat
  | none => 0
  | some p => procAddr p

/-- Take a child from its list and point it to another parent. -/
def detach (s : Sys) (p : Nat) (parent : Option Nat) : Sys :=
  (s.setProc p ({ · with parent := parent })).setLinks (s.links.drop (.clink p))

/-- Put a process at the end of a list of children. -/
def attach (s : Sys) (q p : Nat) : Sys := s.setLinks (s.links.pushBack (.child q) (.clink p))

/-- One round of the loop of `exit` that passes the children to `initproc`. `.inr` is a failed
assertion or a null `initproc`. -/
def reparentBody (cp : Nat) : Node → Sys → Sys ⊕ Sys
  | .clink p, s =>
    if (s.proc p).parent = some cp then
      match s.initproc with
      | none => .inr (detach s p none)
      | some ip =>
        let s := attach (detach s p (some ip)) ip p
        if (s.proc p).state = .zombie then
          match wakeup1 s (procAddr ip) with
          | some s' => .inl s'
          | none => .inr s
        else .inl s
    else .inr s
  | _, s => .inr s

/-- `exit`, from where `ptable.lock` is taken. -/
def exit (s : Sys) (c cp : Nat) (err : Int) : Option Sys := do
  let s ← wakeup1 s (chanOf procAddr (s.proc cp).parent)
  match ← forEach Sys.links (.child cp) (reparentBody procAddr cp) (nproc + 1) s with
  | .inl s =>
    some (((s.setProc cp fun r => { r with xstate := err % 2 ^ 7, state := .zombie }).setCpu c
      .scheduler).setLive cp false)
  | .inr s => some ((s.setLock true).setCpu c (.halted cp))

/-- The actions of a CPU. -/
inductive Action
  /-- Start the CPU: `idle_init`, with what `kalloc` returns for the kernel stack. -/
  | start (kstack : Nat)
  /-- A round of the loop of `scheduler`. -/
  | schedule
  | yield
  | acquire (lk : Nat)
  | release (lk : Nat)
  /-- `sleep(chan, lk)`, up to `release(lk)`. -/
  | sleep (chan lk : Nat)
  /-- The rest of `sleep`, up to the scheduler. -/
  | doze
  /-- The end of `sleep`: `acquire(lk)`. -/
  | relock
  | wakeup (chan : Nat)
  /-- `fork`, up to the end of `proc_alloc`. -/
  | fork (kstack : Option Nat)
  /-- The rest of `fork`, with the result of `uvm_copy` and `copy_mmap_list`. -/
  | forkEnd (pgdir : Option Nat)
  /-- `wait4(pid, …, options, …)`: take `ptable.lock`. -/
  | wait4 (pid : Int) (options : BitVec 32)
  /-- A round of the outer loop of `wait4`. -/
  | pass
  | exit (err : Int)

/-- `swtch` to the process `p`. Source: `scheduler`, `forkret` and the ends of `yield` and
`sleep`. -/
def resume (s : Sys) (c p : Nat) : Sys :=
  match (s.proc p).context with
  | .forkret => s.setCpu c (.running p)
  | .yield => (s.setState p .running).setCpu c (.running p)
  | .sleep lk => (s.setState p .running).setCpu c (.relocking p lk)
  | .wait4 pid options =>
    ((s.setState p .running).setCpu c (.waiting p pid options)).setLock true

/-- The body of the loop of `scheduler`. -/
def schedule (s : Sys) (c : Nat) : Option Sys :=
  match s.links.next .schedQue with
  | .schedQue => some (resume s c (s.idle c))
  | .link p => some (resume (s.setLinks (s.links.drop (.link p))) c p)
  | _ => none

def yield (s : Sys) (c p : Nat) : Sys :=
  let s := if p ≠ s.idle c then s.setLinks (s.links.pushBack .schedQue (.link p)) else s
  (s.setProc p fun r => { r with state := .runnable, context := .yield }).setCpu c .scheduler

/-- The end of `fork`, for a new process `np` of `cp`. -/
def forkEnd (s : Sys) (c cp np : Nat) : Option Nat → Sys
  | none => (((s.free (s.proc np).kstack).setState np .unused)).setCpu c (.running cp)
  | some pgdir =>
    let s := s.setProc np fun r => { r with
      pgdir := pgdir, parent := some cp, pgid := (s.proc cp).pgid, state := .runnable }
    let l := (s.links.pushBack (.child cp) (.clink np)).pushBack .schedQue (.link np)
    ((s.setLinks l).setLive np true).setCpu c (.running cp)

/-- One action of CPU `c`; `none` when it is not possible in this state. The idle process only
spins in user mode: it makes no system call, and `sleep` asserts that it is not called by it. -/
def step (s : Sys) (c : Nat) (a : Action) : Option Sys :=
  match a, s.cpu c with
  | .start kstack, .off =>
    if s.lock then none
    else match procAlloc s (some kstack) with
      | (some p, s) =>
        let s := s.setProc p fun r => { r with pgid := r.pid }
        some ({ s with idle := update s.idle c p }.setCpu c .scheduler)
      | (none, _) => none
  | .schedule, .scheduler => if s.lock then none else schedule s c
  | .yield, .running p => if s.lock then none else some (yield s c p)
  | .acquire lk, .running _ => if s.locked lk then none else some (s.setLocked lk true)
  | .release lk, .running _ => if s.locked lk then some (s.setLocked lk false) else none
  | .sleep chan lk, .running p =>
    if p = s.idle c || s.lock || !s.locked lk then none
    else some (((s.setLock true).setLocked lk false).setCpu c (.handingOver p chan lk))
  | .doze, .handingOver p chan lk =>
    some (((enqueue s p chan (.sleep lk)).setCpu c .scheduler).setLock false)
  | .relock, .relocking p lk =>
    if s.locked lk then none else some ((s.setLocked lk true).setCpu c (.running p))
  | .wakeup chan, .running _ => if s.lock then none else wakeup1 s chan
  | .fork kstack, .running p =>
    if p = s.idle c || s.lock then none
    else match procAlloc s kstack with
      | (some np, s) => some (s.setCpu c (.forking p np))
      | (none, s) => some s
  | .forkEnd pgdir, .forking p np => if s.lock then none else some (forkEnd s c p np pgdir)
  | .wait4 pid options, .running p =>
    if p = s.idle c || s.lock then none
    else some ((s.setLock true).setCpu c (.waiting p pid options))
  | .pass, .waiting p pid options =>
    match wait4Pass s p pid options with
    | some (.sleep, s) =>
      some (((enqueue s p (procAddr p) (.wait4 pid options)).setCpu c .scheduler).setLock false)
    | some (_, s) => some ((s.setCpu c (.running p)).setLock false)
    | none => none
  | .exit err, .running p =>
    if p = s.idle c || s.lock || s.initproc = some p then none else exit procAddr s c p err
  | _, _ => none

/-- A run: actions of the CPUs, one after the other. -/
def run : Sys → List (Nat × Action) → Option Sys
  | s, [] => some s
  | s, (c, a) :: as => (step procAddr s c a).bind fun s' => run s' as

end step

/-! ## Boot -/

/-- The empty lists of `proc_init`. -/
def emptyLinks : Links Node where
  next n := match n with
    | .schedQue => .schedQue
    | .slpque i => .slpque i
    | _ => .null
  prev n := match n with
    | .schedQue => .schedQue
    | .slpque i => .slpque i
    | _ => .null

/-- All entries unused, all lists empty, no CPU started. -/
def procInit (initproc : Option Nat) : Sys where
  proc _ := Proc.zero
  links := emptyLinks
  lastPid := 0
  cpu _ := .off
  idle _ := 0
  lock := false
  locked _ := false
  initproc := initproc
  freed := []
  live _ := false

/-- The first user process is made and put on the run queue, before any CPU schedules. The source
never assigns `initproc`, so it is null; `initproc` is a parameter here so that the results do not
rest on that. Source: `user_init`. -/
def boot (initproc : Option Nat) (kstack : Nat) : Sys :=
  match procAlloc (procInit initproc) (some kstack) with
  | (some p, s) =>
    let s := s.setProc p fun r => { r with pgid := r.pid }
    (s.setLinks (s.links.pushBack .schedQue (.link p))).setLive p true
  | (none, s) => s

end RpiOs.Sched
