import RpiOs.Lib.Run

/-!
# The timer wheel

Model of the event timers of kern/timer.c. The vectors `tv1` … `tv5` are the levels 0 … 4 of `vec`,
a slot is the list of its timers. A timer is named by a number; of its fields, `expires` is kept,
and `pending` says that its list pointer is not null. What a timer's function does is not fixed:
between two steps of `run_timer_list` anything may happen, since the lock is given up for the call.

`list_push_back(vec->prev, …)` puts a timer before the last one of a slot. `fired` is not in the
source: it records the timers whose function was called, with `timer_jiffies`.

* `step`: one action; `run` is `run_timer_list` up to the next call of a timer's function or up to
  its return.
-/

namespace RpiOs.Timer

open Function

/-- `1 << TVR_BITS` and `1 << TVN_BITS`. -/
def size (l : Nat) : Nat := if l = 0 then 256 else 64

/-- The lowest bit of `expires` that a level looks at. -/
def shift (l : Nat) : Nat := if l = 0 then 0 else 8 + 6 * (l - 1)

/-- The slot of a level: `(expires >> shift) & mask`. -/
def slotOf (l : Nat) (expires : BitVec 64) : Nat :=
  (expires >>> shift l &&& BitVec.ofNat 64 (size l - 1)).toNat

/-- The timer vectors, the timers and the calls that were made. -/
structure Wheel where
  vec : Nat → Nat → List Nat
  index : Nat → Nat
  expires : Nat → BitVec 64
  pending : Nat → Bool
  timerJiffies : BitVec 64
  jiffies : BitVec 64
  /-- a timer's function is being called -/
  inFn : Bool
  fired : List (Nat × BitVec 64)

/-- Put `t` before the last one. Source: `list_push_back(vec->prev, &timer->list)`. -/
def pushBack (ts : List Nat) (t : Nat) : List Nat :=
  match ts.getLast? with
  | none => [t]
  | some last => ts.dropLast ++ [t, last]

namespace Wheel

@[simps] def setSlot (w : Wheel) (l i : Nat) (ts : List Nat) : Wheel :=
  { w with vec := update w.vec l (update (w.vec l) i ts) }

@[simps] def setIndex (w : Wheel) (l i : Nat) : Wheel :=
  { w with index := update w.index l i }

@[simps] def setPending (w : Wheel) (t : Nat) (b : Bool) : Wheel :=
  { w with pending := update w.pending t b }

@[simps] def setExpires (w : Wheel) (t : Nat) (expires : BitVec 64) : Wheel :=
  { w with expires := update w.expires t expires }

@[simps!] def push (w : Wheel) (l i t : Nat) : Wheel :=
  (w.setSlot l i (pushBack (w.vec l i) t)).setPending t true

/-- `list_drop(&timer->list)`. -/
@[simps] def drop (w : Wheel) (t : Nat) : Wheel := { w with vec := fun l i => (w.vec l i).erase t }

end Wheel

/-- `internal_add_timer`: the level is chosen by the distance. -/
def internalAddTimer (w : Wheel) (t : Nat) : Wheel :=
  let expires := w.expires t
  let idx := expires - w.timerJiffies
  if idx.toNat < 2 ^ 8 then w.push 0 (slotOf 0 expires) t
  else if idx.toNat < 2 ^ 14 then w.push 1 (slotOf 1 expires) t
  else if idx.toNat < 2 ^ 20 then w.push 2 (slotOf 2 expires) t
  else if idx.toNat < 2 ^ 26 then w.push 3 (slotOf 3 expires) t
  -- in the past
  else if idx.slt 0 then w.push 0 (w.index 0) t
  else if idx.toNat ≤ 0xffffffff then w.push 4 (slotOf 4 expires) t
  -- `list_init(&timer->list)`
  else w.setPending t true

/-- `expires` is what the caller has put into the timer, if it is not pending. -/
def addTimer (w : Wheel) (t : Nat) (expires : BitVec 64) : Wheel :=
  if w.pending t then w else internalAddTimer (w.setExpires t expires) t

def detachTimer (w : Wheel) (t : Nat) : Wheel := if w.pending t then w.drop t else w

def modTimer (w : Wheel) (t : Nat) (expires : BitVec 64) : Wheel :=
  internalAddTimer (detachTimer (w.setExpires t expires) t) t

def delTimer (w : Wheel) (t : Nat) : Wheel := (detachTimer w t).setPending t false

def cascadeTimers (w : Wheel) (l : Nat) : Wheel :=
  let i := w.index l
  let w := (w.vec l i).foldl (fun w t => internalAddTimer (w.drop t) t) w
  (w.setSlot l i []).setIndex l ((i + 1) % size l)

/-- The `do … while` loop of `run_timer_list`, for `n` levels from `l` on. -/
def cascades : Nat → Nat → Wheel → Wheel
  | 0, _, w => w
  | n + 1, l, w =>
    let w := cascadeTimers w l
    if w.index l = 1 then cascades n (l + 1) w else w

/-- The start of a pass. -/
def enterPass (w : Wheel) : Wheel := if w.index 0 = 0 then cascades 4 1 w else w

/-- The call of a timer's function. -/
def fire (w : Wheel) (t : Nat) : Wheel :=
  { (detachTimer w t).setPending t false with
    inFn := true, fired := w.fired ++ [(t, w.timerJiffies)] }

/-- The end of a pass. -/
def advance (w : Wheel) : Wheel :=
  { w.setIndex 0 ((w.index 0 + 1) % size 0) with timerJiffies := w.timerJiffies + 1, inFn := false }

/-- The test of the outer loop fails. -/
def caughtUp (w : Wheel) : Bool := (w.jiffies - w.timerJiffies).slt 0

/-- The outer loop of `run_timer_list`, up to a call of a function or to the end. -/
def passes : Nat → Wheel → Wheel
  | 0, w => w
  | n + 1, w =>
    if caughtUp w then w
    else
      let w := enterPass w
      match w.vec 0 (w.index 0) with
      | t :: _ => fire w t
      | [] => passes n (advance w)

/-- As many passes as `jiffies` is ahead. -/
def due (w : Wheel) : Nat := (w.jiffies - w.timerJiffies).toNat + 2

/-- `run_timer_list`, from its start or from the return of a function. -/
def runTimerList (w : Wheel) : Wheel :=
  if w.inFn then
    match w.vec 0 (w.index 0) with
    | t :: _ => fire w t
    | [] => passes (due (advance w)) (advance w)
  else passes (due w) w

/-- What can happen next. -/
inductive Act where
  | add (t : Nat) (expires : BitVec 64)
  | mod (t : Nat) (expires : BitVec 64)
  | del (t : Nat)
  /-- `++jiffies` in `clock_intr` -/
  | tick
  | run

/-- One action. -/
def step (w : Wheel) : Act → Wheel
  | .add t expires => addTimer w t expires
  | .mod t expires => modTimer w t expires
  | .del t => delTimer w t
  | .tick => { w with jiffies := w.jiffies + 1 }
  | .run => runTimerList w

/-- `init_timervecs`, with `INITIAL_JIFFIES`. -/
def initTimervecs : Wheel where
  vec _ _ := []
  index _ := 0
  expires _ := 0
  pending _ := false
  timerJiffies := 0
  jiffies := 0
  inFn := false
  fired := []

end RpiOs.Timer
