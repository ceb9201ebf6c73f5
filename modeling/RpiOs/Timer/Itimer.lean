import RpiOs.Sched.Table
import RpiOs.Timer.Refinement

/-!
# Interval timers and process slots

`setitimer(ITIMER_REAL)` of kern/itimer.c. The node of a process's timer lies in its slot of
`ptable`, and the timer is named by the number of the slot. `exit` and `wait4` leave it on its list
of the wheel; the next `fork` that takes the slot clears the slot, the node included, so that the
node is on a list and its own pointers are null.

Process ids count up and do not wrap around. Of a process only what the timer needs is kept, and of
`wait4` that it frees a slot: of a zombie, or with `WNOHANG` and `WUNTRACED` of a process that still
runs. A slot makes calls of `setitimer` whatever its state is, since such a process goes on running.
`armedBy` and `alarms` are not in the source: who armed the timer of a slot, and for each `SIGALRM`
the process it went to and the one that armed the timer.

* **`alarms_owned_iff`**: it holds along a run exactly if no `fork` takes a slot whose timer is on a
  list.
* `converted_iff`: when an interval is converted to jiffies that last as long.
-/

namespace RpiOs.Timer

open Lib TimerSet Function

/-! ## Slots -/

def hz : BitVec 64 := 100

/-- `LONG_MAX` and `LLONG_MAX`. -/
def longMax : BitVec 64 := 0x7fffffffffffffff

/-- `struct proc`. -/
structure Slot where
  /-- a process that lives is taken to be `running` -/
  state : Sched.ProcState
  pid : Nat
  itRealIncr : BitVec 64
  /-- `real_timer.function` is `it_real_fn` and `real_timer.data` is the slot; else both are null -/
  hasFn : Bool

/-- `memset(p, 0, sizeof(*p))`. -/
def Slot.zero : Slot := ⟨.unused, 0, 0, false⟩

/-- The process table with the timers of its entries. -/
structure Procs where
  wheel : Wheel
  proc : Nat → Slot
  /-- the last process id that was given out -/
  pid : Nat
  armedBy : Nat → Nat
  alarms : List (Nat × Nat)

namespace Procs

@[simps] def setSlot (s : Procs) (i : Nat) (p : Slot) : Procs :=
  { s with proc := update s.proc i p }

@[simps] def setWheel (s : Procs) (w : Wheel) : Procs := { s with wheel := w }

/-- The loop of `proc_alloc`. -/
def freeSlot (s : Procs) : Option Nat :=
  (List.range Sched.nproc).find? fun i => (s.proc i).state = .unused

/-- The slot with the node of its timer. Source: `memset(p, 0, sizeof(*p))` in `proc_alloc`. -/
def clear (s : Procs) (i : Nat) : Procs :=
  (s.setWheel ((s.wheel.setPending i false).setExpires i 0)).setSlot i .zero

/-- `kstack` says that there is a frame for the stack. -/
def procAlloc (s : Procs) (kstack : Bool) : Procs × Option Nat :=
  match s.freeSlot with
  | none => (s, none)
  | some i =>
    let s := s.clear i
    if kstack then
      ({ s.setSlot i { Slot.zero with state := .running, pid := s.pid + 1 } with pid := s.pid + 1 },
        some i)
    else (s, none)

/-- `copied` says that the address space was copied. -/
def fork (s : Procs) (kstack copied : Bool) : Procs :=
  match s.procAlloc kstack with
  | (s, none) => s
  | (s, some i) =>
    if copied then
      (s.setWheel (s.wheel.setPending i false)).setSlot i
        { s.proc i with itRealIncr := 0, hasFn := true }
    else s.setSlot i { s.proc i with state := .unused }

end Procs

/-! ## Timers of processes -/

/-- `struct timeval`. -/
structure Timeval where
  tvSec : BitVec 64
  tvUsec : BitVec 64

def tvtojiffies (value : Timeval) : BitVec 64 :=
  if BitVec.allOnes 64 / hz < value.tvSec then BitVec.allOnes 64
  else hz * value.tvSec + (value.tvUsec + (1000000 / hz - 1)) / (1000000 / hz)

/-- `if (j > (uint64_t) LONG_MAX) j = LONG_MAX`. -/
def clamp (j : BitVec 64) : BitVec 64 := if longMax < j then longMax else j

namespace Procs

/-- The call of the process in slot `i`. Source: `setitimer` for `ITIMER_REAL`. -/
def setitimer (s : Procs) (i : Nat) (value interval : Timeval) : Procs :=
  let j := tvtojiffies value
  let s := (s.setWheel (delTimer s.wheel i)).setSlot i
    { s.proc i with itRealIncr := tvtojiffies interval }
  if j = 0 then s
  else
    { s.setWheel (addTimer s.wheel i (clamp j + s.wheel.jiffies)) with
      armedBy := update s.armedBy i (s.proc i).pid }

/-- `it_real_fn`: the signal, and the timer again if it has an interval. -/
def itRealFn (s : Procs) (i : Nat) : Procs :=
  let p := s.proc i
  let s := { s with alarms := s.alarms ++ [(p.pid, s.armedBy i)] }
  if p.itRealIncr = 0 then s
  else s.setWheel (addTimer s.wheel i (s.wheel.jiffies + clamp p.itRealIncr))

/-- `run_timer_list` up to the next call of a function or up to its return, and that call; a null
function, in a slot that was not set up by `fork`, sends nothing. -/
def runTimers (s : Procs) : Procs :=
  let s := s.setWheel (runTimerList s.wheel)
  if s.wheel.inFn then
    match s.wheel.fired.getLast? with
    | some (t, _) => if (s.proc t).hasFn then s.itRealFn t else s
    | none => s
  else s

end Procs

/-- What can happen next. -/
inductive ProcAct where
  | fork (kstack copied : Bool)
  | setitimer (i : Nat) (value interval : Timeval)
  /-- `++jiffies` in `clock_intr` -/
  | tick
  | run
  | exit (i : Nat)
  /-- the slot of a child is freed; `options` asks for one that still runs too -/
  | wait4 (i : Nat) (options : Bool)

/-- One action. -/
def procStep (s : Procs) : ProcAct → Procs
  | .fork kstack copied => s.fork kstack copied
  | .setitimer i value interval => s.setitimer i value interval
  | .tick => s.setWheel { s.wheel with jiffies := s.wheel.jiffies + 1 }
  | .run => s.runTimers
  | .exit i =>
    if (s.proc i).state = .running then s.setSlot i { s.proc i with state := .zombie } else s
  | .wait4 i options =>
    if (s.proc i).state = .zombie ∨ options = true ∧ (s.proc i).state = .running then
      s.setSlot i { s.proc i with state := .unused }
    else s

/-- The start: no timer was added yet. -/
def Procs.boot (proc : Nat → Slot) (pid : Nat) : Procs := ⟨initTimervecs, proc, pid, fun _ => 0, []⟩

/-! ## Owners -/

/-- The timer is on a list. -/
def Linked (w : Wheel) (t : Nat) : Prop := ∃ l i, t ∈ w.vec l i

/-- **The lists are well formed and every alarm went to the process that armed the timer.** -/
structure Owned (s : Procs) : Prop where
  nodup : ∀ l i, (s.wheel.vec l i).Nodup
  once : ∀ t l i l' i', t ∈ s.wheel.vec l i → t ∈ s.wheel.vec l' i' → l = l' ∧ i = i'
  /-- the pointers of a node that is on a list are not null -/
  linked : ∀ t, Linked s.wheel t → s.wheel.pending t = true
  alarms : ∀ a ∈ s.alarms, a.1 = a.2

/-- The condition on an action: a slot that `fork` takes has no timer on a list. -/
def SlotClean (s : Procs) : ProcAct → Prop
  | .fork _ _ => ∀ i, s.freeSlot = some i → ¬ Linked s.wheel i
  | _ => True

/-- What the actions keep. -/
structure Kept (s : Procs) : Prop where
  sim : ∃ S, Sim s.wheel S
  owner : ∀ t, s.wheel.pending t = true → s.armedBy t = (s.proc t).pid
  alarms : ∀ a ∈ s.alarms, a.1 = a.2

section lists

variable {w : Wheel} {k T : Nat} {loc : Nat → Option (Nat × Nat)} {S : TimerSet} {t : Nat}
  {now : BitVec 64}

lemma Inv.linked_iff (h : Inv w k T loc) (t : Nat) : Linked w t ↔ loc t ≠ none := by
  constructor
  · rintro ⟨l, i, ht⟩ hnone
    obtain ⟨D, hloc, -⟩ := (h.slots l i t).mp ht
    rw [hnone] at hloc
    cases hloc
  · intro hne
    obtain ⟨⟨l, D⟩, hloc⟩ := Option.ne_none_iff_exists'.mp hne
    exact ⟨l, _, (h.slots l _ t).mpr ⟨D, hloc, rfl⟩⟩

/-- Resetting a timer that is on no list leaves a wheel that shows a set. -/
lemma sim_forget (h : Sim w S) (ht : ¬ Linked w t) (e : BitVec 64) :
    ∃ S', Sim ((w.setPending t false).setExpires t e) S' := by
  obtain ⟨T, loc, hinv, rfl⟩ := h
  have hnone : loc t = none := by
    by_contra hne
    exact ht ((hinv.linked_iff t).mpr hne)
  -- taking the timer off its list changes nothing
  have hdrop : w.drop t = w := by
    have hvec : (fun l i => (w.vec l i).erase t) = w.vec :=
      funext fun l => funext fun i => List.erase_of_not_mem fun hin => ht ⟨l, i, hin⟩
    rw [Wheel.drop, hvec]
  have hdetach : detachTimer w t = w := by
    unfold detachTimer
    rw [hdrop, ite_self]
  have hclear := (clear_sim hinv t).1
  rw [hdetach, ← hnone, update_eq_self] at hclear
  exact ⟨_, T, loc, hclear.setExpires hnone e, rfl⟩

lemma Sim.pending_of_step (h : Sim w S) {a : Act} (hoff : ¬ a.On t)
    (ht : (step w a).pending t = true) : w.pending t = true := by
  obtain ⟨S', hstep, hsim'⟩ := step_sim h a
  rw [hsim'.pending_iff] at ht
  rw [h.pending_iff]
  obtain ⟨-, -, ⟨hsame, -⟩ | ⟨d, hdue, -⟩⟩ := step_left hstep hoff
  · rwa [hsame] at ht
  · rw [hdue]
    rfl

/-- Passes that end in a call of a function end in a call of a timer that was there. -/
lemma runs_last {S' : TimerSet} (h : Runs S S') (hin : S'.inFn = true)
    (hlast : S'.fired.getLast? = some (t, now)) : ∃ d, S.timer t = some (.at d) := by
  rcases h with ⟨hout, -, rfl⟩ | ⟨hserves, -⟩
  · rw [hout] at hin
    cases hin
  obtain ⟨S1, hbefore, hserve⟩ := Relation.TransGen.tail'_iff.mp hserves
  cases hserve with
  | next => cases hin
  | @fire u _ hdue => ?_
  simp only [List.getLast?_append, List.getLast?_singleton, Option.some_or, Option.some.injEq,
    Prod.mk.injEq] at hlast
  obtain ⟨rfl, -⟩ := hlast
  -- passes only take timers away
  obtain ⟨-, -, ⟨hsame, -⟩ | ⟨d, hd, -⟩⟩ := serves_left hbefore u
  · exact ⟨_, hsame ▸ hdue⟩
  · exact ⟨d, hd⟩

lemma Sim.pending_of_call (h : Sim w S) (hin : (runTimerList w).inFn = true)
    (hlast : (runTimerList w).fired.getLast? = some (t, now)) :
    w.pending t = true := by
  obtain ⟨S', hruns, hsim'⟩ := runTimerList_sim h
  rw [h.pending_iff]
  obtain ⟨d, hd⟩ := runs_last hruns (hsim'.inFn_eq ▸ hin) (hsim'.fired_eq ▸ hlast)
  rw [hd]
  rfl

end lists

namespace Kept

variable {s : Procs}

section

variable (h : Kept s) {i : Nat}
include h

lemma owned : Owned s := by
  obtain ⟨S, T, loc, hinv, -⟩ := h.sim
  refine ⟨hinv.nodup, fun t l i l' i' ht ht' => ?_, fun t ht => ?_, h.alarms⟩
  · obtain ⟨D, hloc, rfl⟩ := (hinv.slots l i t).mp ht
    obtain ⟨D', hloc', rfl⟩ := (hinv.slots l' i' t).mp ht'
    obtain ⟨rfl, rfl⟩ := Prod.mk.inj (Option.some.inj (hloc.symm.trans hloc'))
    exact ⟨rfl, rfl⟩
  · exact hinv.pending t ((hinv.linked_iff t).mp ht)

lemma setSlot {p : Slot} (hpid : p.pid = (s.proc i).pid) : Kept (s.setSlot i p) := by
  refine ⟨h.sim, fun t ht => ?_, h.alarms⟩
  rw [Procs.setSlot_armedBy, h.owner t ht, Procs.setSlot_proc]
  by_cases heq : t = i
  · subst heq
    rw [update_self, hpid]
  · rw [update_of_ne heq]

lemma clear (hi : ¬ Linked s.wheel i) : Kept (s.clear i) := by
  obtain ⟨S, hsim⟩ := h.sim
  refine ⟨sim_forget hsim hi 0, fun t ht => ?_, h.alarms⟩
  have hne : t ≠ i := by
    rintro rfl
    simp [Procs.clear] at ht
  have hpending : s.wheel.pending t = true := by simpa [Procs.clear, hne] using ht
  simpa [Procs.clear, hne] using h.owner t hpending

lemma setProcess (hi : s.wheel.pending i = false) (p : Slot) (n : Nat) :
    Kept { s.setSlot i p with pid := n } := by
  refine ⟨h.sim, fun t ht => ?_, h.alarms⟩
  have hne : t ≠ i := by
    rintro rfl
    exact absurd (hi.symm.trans ht) (by decide)
  show s.armedBy t = (update s.proc i p t).pid
  rw [update_of_ne hne]
  exact h.owner t ht

/-- A fork into a slot whose timer is off keeps the timers owned. -/
lemma fork (hclean : ∀ i, s.freeSlot = some i → ¬ Linked s.wheel i) (kstack copied : Bool) :
    Kept (s.fork kstack copied) := by
  unfold Procs.fork Procs.procAlloc
  rcases hfree : s.freeSlot with - | i
  · exact h
  have hclear := h.clear (hclean i hfree)
  have hidle : (s.clear i).wheel.pending i = false := by simp [Procs.clear]
  rcases kstack with - | -
  · exact hclear
  have hnew := hclear.setProcess hidle
    { Slot.zero with state := .running, pid := (s.clear i).pid + 1 } ((s.clear i).pid + 1)
  rcases copied with - | -
  · exact hnew.setSlot rfl
  -- `init_timer` finds the pointers null already
  have hinit : (s.clear i).wheel.setPending i false = (s.clear i).wheel := by
    rw [Wheel.setPending, ← hidle, update_eq_self]
  simp only [if_true, Procs.setSlot_wheel]
  rw [hinit]
  exact hnew.setSlot rfl

lemma act (a : Act)
    (howner : ∀ t, a.On t → (step s.wheel a).pending t = true → s.armedBy t = (s.proc t).pid) :
    Kept (s.setWheel (step s.wheel a)) := by
  obtain ⟨S, hsim⟩ := h.sim
  obtain ⟨S', -, hsim'⟩ := step_sim hsim a
  refine ⟨⟨S', hsim'⟩, fun t ht => ?_, h.alarms⟩
  by_cases hon : a.On t
  · exact howner t hon ht
  · exact h.owner t (hsim.pending_of_step hon ht)

lemma delTimer (i : Nat) : Kept (s.setWheel (Timer.delTimer s.wheel i)) := by
  refine h.act (.del i) fun t hon ht => ?_
  obtain rfl : i = t := hon
  simp [step, Timer.delTimer] at ht

lemma addTimer (howner : s.armedBy i = (s.proc i).pid) (e : BitVec 64) :
    Kept (s.setWheel (Timer.addTimer s.wheel i e)) := by
  refine h.act (.add i e) fun t hon _ => ?_
  obtain rfl : i = t := hon
  exact howner

lemma setOwner (hi : s.wheel.pending i = false) (n : Nat) :
    Kept { s with armedBy := update s.armedBy i n } := by
  refine ⟨h.sim, fun t ht => ?_, h.alarms⟩
  have hne : t ≠ i := by
    rintro rfl
    exact absurd (hi.symm.trans ht) (by decide)
  show update s.armedBy i n t = _
  rw [update_of_ne hne]
  exact h.owner t ht

lemma setitimer (i : Nat) (value interval : Timeval) : Kept (s.setitimer i value interval) := by
  simp only [Procs.setitimer]
  have hdel : Kept ((s.setWheel (Timer.delTimer s.wheel i)).setSlot i
      { s.proc i with itRealIncr := tvtojiffies interval }) := (h.delTimer i).setSlot rfl
  split
  · exact hdel
  · have hidle : (Timer.delTimer s.wheel i).pending i = false := by simp [Timer.delTimer]
    exact (hdel.setOwner hidle _).addTimer (update_self ..) _

/-- The call of a timer's function; the timer was pending until it was called. -/
lemma itRealFn (howner : s.armedBy i = (s.proc i).pid) : Kept (s.itRealFn i) := by
  simp only [Procs.itRealFn]
  have hsent : Kept { s with alarms := s.alarms ++ [((s.proc i).pid, s.armedBy i)] } := by
    refine ⟨h.sim, h.owner, fun a ha => ?_⟩
    rcases List.mem_append.mp ha with ha | ha
    · exact h.alarms a ha
    · rw [List.mem_singleton.mp ha]
      exact howner.symm
  split
  · exact hsent
  · exact hsent.addTimer howner _

/-- So does a pass over the timers that are due. -/
lemma runTimers : Kept s.runTimers := by
  have hrun : Kept (s.setWheel (runTimerList s.wheel)) := h.act .run fun t hon => hon.elim
  simp only [Procs.runTimers]
  split
  · next hin =>
    split
    · next t now hlast =>
      split
      · obtain ⟨S, hsim⟩ := h.sim
        exact hrun.itRealFn (h.owner t (hsim.pending_of_call hin hlast))
      · exact hrun
    · exact hrun
  · exact hrun

/-- So does every step that meets the condition. -/
lemma procStep {e : ProcAct} (hclean : SlotClean s e) : Kept (procStep s e) := by
  cases e with
  | fork kstack copied => exact h.fork hclean kstack copied
  | setitimer i value interval => exact h.setitimer i value interval
  | tick => exact h.act .tick fun t hon => hon.elim
  | run => exact h.runTimers
  | exit i | wait4 i options =>
    simp only [Timer.procStep]
    split
    · exact h.setSlot rfl
    · exact h

end

end Kept

/-- A fork into a slot whose timer is on a list breaks it. -/
lemma fork_dirty {s : Procs} {i : Nat} (hfree : s.freeSlot = some i) (hi : Linked s.wheel i)
    (kstack copied : Bool) : ¬ Owned (s.fork kstack copied) := by
  intro h
  have hvec : (s.fork kstack copied).wheel.vec = s.wheel.vec := by
    simp only [Procs.fork, Procs.procAlloc, hfree]
    cases kstack <;> cases copied <;> rfl
  have hpending : (s.fork kstack copied).wheel.pending i = false := by
    simp only [Procs.fork, Procs.procAlloc, hfree]
    cases kstack <;> cases copied <;> simp [Procs.clear]
  obtain ⟨l, j, hin⟩ := hi
  have htrue := h.linked i ⟨l, j, by rw [hvec]; exact hin⟩
  rw [hpending] at htrue
  cases htrue

/-- **Alarms and owners.** Along a run from the start the lists of the wheel are well formed and
every `SIGALRM` of an interval timer goes to the process that armed it, exactly if no `fork` takes a
slot whose timer is still on a list. -/
theorem alarms_owned_iff (proc : Nat → Slot) (pid : Nat) (es : List ProcAct) :
    RunAll procStep Owned (.boot proc pid) es ↔ RunOk procStep SlotClean (.boot proc pid) es := by
  have hboot : Kept (.boot proc pid) := ⟨⟨_, initTimervecs_sim⟩, nofun, nofun⟩
  refine runAll_iff_runOk (I := Kept) (fun s hs => hs.owned)
    (fun s e hs hclean => hs.procStep hclean) (fun s e hs hdirty => ?_)
    hboot
  cases e with
  | fork kstack copied =>
    obtain ⟨i, hi⟩ := not_forall.mp hdirty
    obtain ⟨hfree, hlinked⟩ := Classical.not_imp.mp hi
    exact fork_dirty hfree (not_not.mp hlinked) kstack copied
  | _ => exact absurd trivial hdirty

/-- The first process is in slot 0. -/
def onlyInit : Procs := .boot (fun i => if i = 0 then ⟨.running, 1, 0, false⟩ else .zero) 1

/-- A child arms its timer for the next tick and exits; its parent waits for it and forks again
before the tick. -/
def armAndExit : List ProcAct :=
  [.fork true true, .setitimer 1 ⟨0, 10000⟩ ⟨0, 0⟩, .exit 1, .wait4 1 false, .fork true true,
    .tick, .run]

/-- **The alarm of another process**: process 3 gets the alarm that process 2 asked for, and the
node in its slot was cleared on its list. -/
theorem alarm_of_another : (armAndExit.foldl procStep onlyInit).alarms = [(3, 2)] ∧
    ¬ RunAll procStep Owned onlyInit armAndExit := by
  have halarms : (armAndExit.foldl procStep onlyInit).alarms = [(3, 2)] := by decide +kernel
  refine ⟨halarms, fun h => ?_⟩
  have howned := h.last.alarms (3, 2) (by rw [halarms]; exact List.mem_singleton_self _)
  cases howned

/-! ## Conversion of intervals -/

def jiffiestotv (jiffies : BitVec 64) : Timeval := ⟨jiffies / hz, jiffies % hz * (1000000 / hz)⟩

/-- `tv_sec` is not negative, and `tv_usec` is less than a second. -/
structure Timeval.Valid (v : Timeval) : Prop where
  sec : v.tvSec.toNat < 2 ^ 63
  usec : v.tvUsec.toNat < 1000000

/-- The interval in microseconds, which orders intervals as their two fields do. -/
def Timeval.micros (v : Timeval) : Nat := v.tvSec.toNat * 1000000 + v.tvUsec.toNat

/-- The jiffies last as long as the interval, or are the most there are, and a shorter interval has
no more. -/
structure Converted (v : Timeval) : Prop where
  lasts : v.micros ≤ (tvtojiffies v).toNat * 10000 ∨ tvtojiffies v = BitVec.allOnes 64
  monotone : ∀ w : Timeval, w.Valid → w.micros ≤ v.micros → tvtojiffies w ≤ tvtojiffies v

section convert

variable {v : Timeval}

/-- The conversion, with its limit and its 64 bits. -/
lemma tvtojiffies_toNat (hv : v.Valid) : (tvtojiffies v).toNat =
    if 184467440737095516 < v.tvSec.toNat then 2 ^ 64 - 1
    else (100 * v.tvSec.toNat + (v.tvUsec.toNat + 9999) / 10000) % 2 ^ 64 := by
  have husec := hv.usec
  have hguard : BitVec.allOnes 64 / hz < v.tvSec ↔ 184467440737095516 < v.tvSec.toNat := Iff.rfl
  have hstep : (1000000 / hz - 1 : BitVec 64).toNat = 9999 ∧
    (1000000 / hz : BitVec 64).toNat = 10000 := by decide
  unfold tvtojiffies
  simp only [hguard]
  split
  · rfl
  rw [BitVec.toNat_add, BitVec.toNat_mul, BitVec.toNat_udiv, BitVec.toNat_add, hstep.1, hstep.2,
    show hz.toNat = 100 from rfl]
  omega

/-- **When an interval is converted**, and that a number of jiffies always is: the guard compares
the seconds alone, so that the sum wraps around in the last second it lets pass. -/
theorem converted_iff (hv : v.Valid) :
    (Converted v ↔ ¬(v.tvSec.toNat = 184467440737095516 ∧ 150000 < v.tvUsec.toNat)) ∧
      ∀ j, tvtojiffies (jiffiestotv j) = j := by
  have hval := tvtojiffies_toNat hv
  have husec := hv.usec
  refine ⟨⟨fun h => ?_, fun h => ⟨?_, fun w hw hle => ?_⟩⟩, fun j => ?_⟩
  · rintro ⟨hsec, hlate⟩
    rw [if_neg (by omega)] at hval
    rcases h.lasts with hlasts | hmax
    · unfold Timeval.micros at hlasts
      omega
    · rw [hmax, BitVec.toNat_allOnes] at hval
      omega
  · unfold Timeval.micros
    split at hval
    · exact .inr (BitVec.eq_of_toNat_eq hval)
    · omega
  · have hwval := tvtojiffies_toNat hw
    have hwusec := hw.usec
    unfold Timeval.micros at hle
    rw [BitVec.le_def, hval, hwval]
    split_ifs <;> omega
  · have hsec : (jiffiestotv j).tvSec.toNat = j.toNat / 100 := BitVec.toNat_udiv
    have husec : (jiffiestotv j).tvUsec.toNat = j.toNat % 100 * 10000 := by
      show (j % hz * (1000000 / hz)).toNat = _
      rw [BitVec.toNat_mul, BitVec.toNat_umod, show hz.toNat = 100 from rfl,
        show (1000000 / hz : BitVec 64).toNat = 10000 by decide]
      omega
    have hj := j.isLt
    refine BitVec.eq_of_toNat_eq ?_
    rw [tvtojiffies_toNat ⟨by omega, by omega⟩, hsec, husec, if_neg (by omega)]
    omega

end convert

/-- One second and a half. -/
theorem converted_iff_short : Converted ⟨1, 500000⟩ ∧ ∀ j, tvtojiffies (jiffiestotv j) = j := by
  have h := converted_iff (v := ⟨1, 500000⟩) ⟨by decide, by decide⟩
  exact ⟨h.1.mpr (by decide), h.2⟩

/-- **The longest interval that the guard lets pass is none at all**, and one just shorter is. -/
theorem last_second_wraps : tvtojiffies ⟨184467440737095516, 150001⟩ = 0 ∧
    tvtojiffies ⟨184467440737095516, 150000⟩ = BitVec.allOnes 64 := by
  decide

end RpiOs.Timer
