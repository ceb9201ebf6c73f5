import RpiOs.Creds.State
import RpiOs.Lib.Run

/-!
# The wall clock

`xtime` of kern/clock.c under clock interrupts and `clock_settime`. An interrupt folds the ticks
since the last one into a single update, which carries one second per tick at most: it relies on
`tv_nsec` being in range before. `clock_settime` stores what it is given.

* `wall_clock_exact_iff`: the runs in which `tv_nsec` stays in range and every tick adds 10 ms are
  those in which no accepted setting is out of range and no tick carries `tv_sec` past its last
  value.
-/

namespace RpiOs

/-- The body of the loop. Source: `update_wall_time`. -/
def Timespec.tick (x : Timespec) : Timespec :=
  if 1000000000 ≤ (x.tvNsec + 10000000).toInt then ⟨x.tvSec + 1, x.tvNsec + 10000000 - 1000000000⟩
  else ⟨x.tvSec, x.tvNsec + 10000000⟩

/-- `0 <= tv_nsec < 10^9`. -/
def Timespec.InRange (x : Timespec) : Prop := 0 ≤ x.tvNsec.toInt ∧ x.tvNsec.toInt < 1000000000

instance (x : Timespec) : Decidable x.InRange := inferInstanceAs (Decidable (_ ∧ _))

/-- In nanoseconds. -/
def Timespec.time (x : Timespec) : Int := x.tvSec.toInt * 1000000000 + x.tvNsec.toInt

namespace Timer

open Lib

/-- The jiffies and the time of day. -/
structure Clock where
  jiffies : BitVec 64
  wallJiffies : BitVec 64
  xtime : Timespec

/-- The body runs once, and once more for each tick that is left then. -/
def updateWallTime (ticks : BitVec 64) : Timespec → Timespec :=
    Timespec.tick^[(ticks - 1).toNat + 1]

/-- `update_times`. -/
def updateTimes (c : Clock) : Clock :=
  let ticks := c.jiffies - c.wallJiffies
  if ticks ≠ 0 then
    { c with wallJiffies := c.wallJiffies + ticks, xtime := updateWallTime ticks c.xtime }
  else c

/-- Without the timers and the times of the process. -/
def clockIntr (c : Clock) : Clock := updateTimes { c with jiffies := c.jiffies + 1 }

/-- `CLOCK_REALTIME` is 0, `CAP_SYS_TIME` 25. -/
def clockSettime (p : Creds.Cred) (clkId : Int) (tp : Timespec) (c : Clock) : Int × Clock :=
  if clkId = 0 then
    if p.capable 25 then (0, { c with xtime := tp }) else (-eperm, c)
  else (-einval, c)

/-- `tp` is what the pointer leads to, if it passes `argptr`. -/
def sysClockSettime (p : Creds.Cred) (clkId : Int) (tp : Option Timespec) (c : Clock) :
    Int × Clock :=
  match tp with
  | none => (-einval, c)
  | some tp => clockSettime p clkId tp c

/-- A timer interrupt or a call of `clock_settime`. -/
inductive ClockEvent where
  | intr
  | settime (p : Creds.Cred) (clkId : Int) (tp : Option Timespec)

def ClockEvent.step (c : Clock) : ClockEvent → Clock
  | .intr => clockIntr c
  | .settime p clkId tp => (sysClockSettime p clkId tp c).2

/-! ## Exactness -/

/-- The ticks that the next interrupt accounts for: one, if the last one has left nothing. -/
def Clock.ticks (c : Clock) : Nat := (c.jiffies + 1 - c.wallJiffies).toNat

/-- After the event the clock is in range; each tick added 10 ms, and a call that was refused
nothing. -/
def Exact (c : Clock) (e : ClockEvent) : Prop :=
  (e.step c).xtime.InRange ∧ match e with
    | .intr => (e.step c).xtime.time = c.xtime.time + 10000000 * c.ticks
    | .settime p clkId tp => (sysClockSettime p clkId tp c).1 ≠ 0 → (e.step c).xtime = c.xtime

/-- A setting of the clock 0 by a process that may set it is in range, and a tick does not carry
`tv_sec` past its last value. -/
def KeepsExact (c : Clock) : ClockEvent → Prop
  | .intr => c.xtime.tvSec.toInt + (c.xtime.tvNsec.toInt + 10000000 * c.ticks) / 1000000000 < 2 ^ 63
  | .settime p clkId tp => clkId = 0 → p.capable 25 = true → ∀ x ∈ tp, x.InRange

instance (c : Clock) : ∀ e, Decidable (KeepsExact c e)
  | .intr => inferInstanceAs (Decidable (_ < _))
  | .settime .. => inferInstanceAs (Decidable (_ → _ → ∀ x ∈ _, _))

variable {x : Timespec} {c : Clock}

/-- One tick carries `k` seconds, 0 or 1. -/
lemma inRange_tick (h : x.InRange) : x.tick.InRange ∧ ∃ k : Nat,
    x.tick.tvSec = x.tvSec + BitVec.ofNat 64 k ∧
    x.tick.tvNsec.toInt + 1000000000 * k = x.tvNsec.toInt + 10000000 := by
  obtain ⟨h0, h1⟩ := h
  have hadd : (x.tvNsec + 10000000).toInt = x.tvNsec.toInt + 10000000 := by
    rw [BitVec.toInt_add]
    exact Int.bmod_eq_of_le (by simp; omega) (by simp; omega)
  unfold Timespec.InRange Timespec.tick
  split
  · next hge =>
    have hsub : (x.tvNsec + 10000000 - 1000000000).toInt = x.tvNsec.toInt + 10000000 -
        1000000000 := by
      rw [BitVec.toInt_sub, hadd]
      exact Int.bmod_eq_of_le (by simp; omega) (by simp; omega)
    exact ⟨by simp only; omega, 1, rfl, by simp only; omega⟩
  · exact ⟨by simp only; omega, 0, (BitVec.add_zero _).symm, by simp only; omega⟩

/-- Some ticks from a time in range. -/
lemma inRange_ticks (h : x.InRange) (n : Nat) : (Timespec.tick^[n] x).InRange ∧ ∃ k : Nat,
    (Timespec.tick^[n] x).tvSec = x.tvSec + BitVec.ofNat 64 k ∧
    (Timespec.tick^[n] x).tvNsec.toInt + 1000000000 * k = x.tvNsec.toInt + 10000000 * n := by
  induction n with
  | zero => exact ⟨h, 0, (BitVec.add_zero _).symm, by simp⟩
  | succ n ih =>
    obtain ⟨hn, k, hsec, hnsec⟩ := ih
    obtain ⟨hs, k', hsec', hnsec'⟩ := inRange_tick hn
    rw [Function.iterate_succ_apply']
    refine ⟨hs, k + k', ?_, by push_cast; omega⟩
    rw [hsec', hsec, BitVec.add_assoc, BitVec.ofNat_add]

lemma clockIntr_xtime (c : Clock) : (clockIntr c).xtime = Timespec.tick^[c.ticks] c.xtime := by
  unfold clockIntr updateTimes Clock.ticks
  dsimp only
  generalize c.jiffies + 1 - c.wallJiffies = ticks
  split
  · next h =>
    have hticks : (ticks - 1).toNat + 1 = ticks.toNat := by bv_omega
    simp only [updateWallTime, hticks]
  · next h => simp [not_not.mp h]

/-- One event. -/
lemma exact_iff (h : c.xtime.InRange) (e : ClockEvent) : Exact c e ↔ KeepsExact c e := by
  cases e with
  | intr =>
    obtain ⟨hin, k, hsec, hnsec⟩ := inRange_ticks h c.ticks
    simp only [Exact, KeepsExact, ClockEvent.step, clockIntr_xtime, Timespec.time, hsec,
      hin, true_and]
    -- the carry is the quotient, and the sum of seconds is right unless it wraps
    have hk : (c.xtime.tvNsec.toInt + 10000000 * c.ticks) / 1000000000 = k := by
      have := hin.1
      have := hin.2
      omega
    rw [hk]
    have hadd : (c.xtime.tvSec + BitVec.ofNat 64 k).toInt = c.xtime.tvSec.toInt + k ↔
        c.xtime.tvSec.toInt + k < 2 ^ 63 := by
      rw [← BitVec.ofInt_natCast, BitVec.toInt_add, BitVec.toInt_ofInt, Int.add_bmod_bmod]
      have hlow := c.xtime.tvSec.le_toInt
      refine ⟨fun heq => ?_, fun hlt => Int.bmod_eq_of_le (by simp at hlow ⊢; omega)
        (by simp; omega)⟩
      have hup := Int.bmod_lt (x := c.xtime.tvSec.toInt + k) (m := 2 ^ 64) (by simp)
      rw [heq] at hup
      simpa using hup
    omega
  | settime p clkId tp =>
    cases tp with
    | none => exact iff_of_true ⟨h, fun _ => rfl⟩ fun _ _ => nofun
    | some tp =>
      simp only [Exact, KeepsExact, ClockEvent.step, sysClockSettime, clockSettime]
      by_cases hid : clkId = 0
      · by_cases hcap : p.capable 25 = true
        · simp [hid, hcap]
        · simp [hid, hcap, h]
      · simp [hid, h]

/-- **The wall clock is exact in the runs whose events keep it so.** -/
theorem wall_clock_exact_iff (h : c.xtime.InRange) (es : List ClockEvent) :
    RunOk ClockEvent.step Exact c es ↔ RunOk ClockEvent.step KeepsExact c es := by
  constructor
  · exact RunOk.imp (P := fun c => c.xtime.InRange) (fun _ _ _ hok => hok.1)
      (fun _ e hc => (exact_iff hc e).mp) h
  · exact RunOk.imp (P := fun c => c.xtime.InRange) (fun _ e hc hok => ((exact_iff hc e).mpr hok).1)
      (fun _ e hc => (exact_iff hc e).mpr) h

/-- The superuser. -/
def superuser : Creds.Cred := ⟨0, 0, 0, 0, 0, 0, 0, 0, BitVec.allOnes 32, 0, BitVec.allOnes 32⟩

/-- The last tick of a second, and a setting. -/
theorem wall_clock_exact_iff_second : RunOk ClockEvent.step Exact ⟨7, 7, 1655644975, 990000000⟩
    [.intr, .settime superuser 0 (some ⟨0, 5⟩), .intr] :=
  (wall_clock_exact_iff (by decide) _).mpr (by decide +kernel)

/-- **A setting is not checked.** `clock_settime` accepts a `tv_nsec` of 10 s, and after the next
tick it is still out of range; a `tv_sec` that is the last value turns negative. -/
theorem wall_clock_inexact : ¬ Exact ⟨7, 7, 0, 0⟩ (.settime superuser 0 (some ⟨0, 10000000000⟩)) ∧
    ¬ ((ClockEvent.intr).step ⟨7, 7, 0, 10000000000⟩).xtime.InRange ∧
    ¬ Exact ⟨7, 7, 0x7fffffffffffffff, 999999999⟩ .intr := by
  refine ⟨fun h => absurd h.1 (by decide +kernel), by decide +kernel,
    fun h => absurd h.2 (by decide +kernel)⟩

end Timer

end RpiOs
