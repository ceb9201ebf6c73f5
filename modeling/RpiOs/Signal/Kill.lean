import RpiOs.Sched.Runs
import RpiOs.Signal.Model

/-!
# Sending a signal

`kill` holds `ptable.lock` while it sends. To a process that sleeps, `send_signal` also handles the
signal (`handsOn`), and three ways of handling it do not come back (`Hangs`). Two of the default
actions take `ptable.lock` again: `term_handler` directly, and `stop_handler` through `sleep`, which
would put the sender to sleep and not the target. And `user_handler` stores a frame below the stack
pointer of the target, but with the page table of the sender: where that has no writable page, the
sender faults for ever with the lock in its hands.

* **`kill_harmless_iff`**: a call of `kill` does no harm exactly when none of its sends does this.
-/

namespace RpiOs.Signal

open Lib Sched

/-- The signal that `send_signal` hands to `handle_signal`, if it calls it: `SIGCONT` for a process
whose pause ends, and the signal itself for one that sleeps outside of a pause and has not been
killed. -/
def handsOn (sig : Nat) (s : Sys) (p : Nat) : Option Nat :=
  if (s.table.proc p).state = .sleeping then
    if (s.sig p).paused then if endsPause sig then some sigcont else none
    else if (s.sig p).killed ∨ sig = sigkill then none
    else some sig
  else none

/-- `handle_signal` for the signal `n` of `p` does not come back when `cur` calls it with
`ptable.lock`. -/
def Hangs (cur : Nat) (s : Sys) (p n : Nat) : Prop :=
  ((s.sig p).actions n).saHandler = sigDfl ∧ (defaultOf n = .stop ∨ defaultOf n = .term) ∨
    n ≠ 0 ∧ ((s.sig p).actions n).saHandler ≠ sigDfl ∧ ((s.sig p).actions n).saHandler ≠ sigIgn ∧
      (s.sig cur).takesFrame (s.sig p).tf.sp = false

instance (cur : Nat) (s : Sys) (p n : Nat) : Decidable (Hangs cur s p n) :=
  inferInstanceAs (Decidable (_ ∨ _))

/-- A send to `p` does not come back. -/
def Blocks (cur sig : Nat) (s : Sys) (p : Nat) : Prop := ∃ n ∈ handsOn sig s p, Hangs cur s p n

instance (cur sig : Nat) (s : Sys) (p : Nat) : Decidable (Blocks cur sig s p) :=
  inferInstanceAs (Decidable (∃ n ∈ handsOn sig s p, _))

/-- The locks are as before, no CPU has changed what it does, and every process has one place. -/
structure Kept (s s' : Sys) : Prop where
  held : s'.held = s.held
  frame : Frame s.table s'.table
  inv : ∃ V ρ, Inv s'.table V ρ

lemma Kept.trans {s1 s2 s3 : Sys} (h : Kept s1 s2) (h' : Kept s2 s3) : Kept s1 s3 :=
  ⟨h'.held.trans h.held, h.frame.trans h'.frame, h'.inv⟩

lemma Kept.of_table {s s' : Sys} (hinv : ∃ V ρ, Inv s.table V ρ) (hheld : s'.held = s.held)
    (htable : s'.table = s.table) : Kept s s' :=
  ⟨hheld, htable ▸ .refl _, htable ▸ hinv⟩

section handlers

variable {procAddr : Nat → Nat} {cur p sig : Nat} {s : Sys} {V : View} {ρ : Nat → Role}
  {Q : PUnit → Sys → Prop} {R : Stuck → Sys → Prop}

lemma acquire_ends {lk : Lock} (hfree : lk ∉ s.held) :
    Ends (acquire lk) s Q R ↔ Q ⟨⟩ (s.setHeld (lk :: s.held)) := by
  simp [acquire, hfree]

lemma acquire_held {lk : Lock} (hheld : lk ∈ s.held) : Ends (acquire lk) s Q R ↔
    R (.selfLock lk) s := by
  simp [acquire, hheld]

section

variable (hinv : ∃ V ρ, Inv s.table V ρ)
include hinv

lemma wakeup1_kept (chan : Nat) : Ends (wakeup1 chan) s (fun _ => Kept s) := by
  obtain ⟨V, ρ, h⟩ := hinv
  obtain ⟨t, V', ht, hI, hframe, -⟩ := wakeup1_spec h chan
  unfold wakeup1
  simp only [ends_bind, ends_get, ht, ends_set]
  exact ⟨rfl, hframe, V', _, hI⟩

lemma enterHandler_kept (htakes : (s.sig cur).takesFrame (s.sig p).tf.sp = true) (sig : Nat) :
    Ends (enterHandler cur p sig) s (fun _ => Kept s) := by
  unfold enterHandler
  rw [ends_bind, ends_get, if_pos htakes, ends_set]
  exact .of_table hinv rfl rfl

lemma clearPending_kept (hfree : .siglock ∉ s.held) (p sig : Nat) :
    Ends (clearPending p sig) s (fun _ => Kept s) := by
  unfold clearPending release
  rw [ends_bind, acquire_ends hfree, ends_bind, ends_modify, ends_modify]
  have hheld : (Lock.siglock :: s.held).erase .siglock = s.held := List.erase_cons_head ..
  exact .of_table hinv hheld rfl

/-- A handler that does not hang keeps the process table in order. -/
lemma runHandler_kept (hzero : sig ≠ 0) (hno : ¬ Hangs cur s p sig) :
    Ends (runHandler procAddr cur p sig) s (fun _ => Kept s) := by
  unfold runHandler
  rw [ends_bind, ends_get]
  dsimp only
  split
  · exact .of_table hinv rfl rfl
  next hign =>
  split
  · next hdfl =>
    split
    · next hstop => exact absurd (.inl ⟨hdfl, .inl hstop⟩) hno
    · exact wakeup1_kept hinv _
    · next hterm => exact absurd (.inl ⟨hdfl, .inr hterm⟩) hno
    · exact .of_table hinv rfl rfl
  · next hdfl =>
    refine enterHandler_kept hinv ?_ sig
    by_contra htakes
    exact hno (.inr ⟨hzero, hdfl, hign, Bool.not_eq_true _ ▸ htakes⟩)

/-- So does `handle_signal`, if nobody holds its lock. -/
lemma handleSignal_kept (hfree : .siglock ∉ s.held) (hno : ¬ Hangs cur s p sig) :
    Ends (handleSignal procAddr cur p sig) s (fun _ => Kept s) := by
  unfold handleSignal
  split
  · exact .of_table hinv rfl rfl
  next hzero =>
  rw [ends_bind, ends_modify, ends_bind]
  refine (runHandler_kept (s := s.act p sig) hinv hzero hno).imp (fun _ t ht => ?_)
  refine (clearPending_kept ht.inv (by rw [ht.held]; exact hfree) p sig).imp (fun _ t' ht' => ?_)
  have hact : Kept s (s.act p sig) := .of_table hinv rfl rfl
  exact (hact.trans ht).trans ht'

end

/-- `term_handler` and `stop_handler` spin when `ptable.lock` is held. -/
lemma handleSignal_locked (hheld : s.held = [.ptable])
    (hdfl : ((s.sig p).actions sig).saHandler = sigDfl)
    (hdefault : defaultOf sig = .stop ∨ defaultOf sig = .term) :
    Ends (handleSignal procAddr cur p sig) s ⊥ fun e _ => e = .selfLock .ptable := by
  have hzero : sig ≠ 0 := by
    rintro rfl
    simp [defaultOf] at hdefault
  have hign : sigDfl ≠ sigIgn := by decide
  unfold handleSignal runHandler
  rw [if_neg hzero]
  simp only [ends_bind, ends_modify, ends_get, Sys.act_sig, hdfl, if_neg hign, if_true]
  rcases hdefault with hstop | hterm
  · -- `sleep` takes the lock after `q.lock` has been taken
    rw [hstop]
    have hq : .q ∉ (s.act p sig).held := by simp [hheld]
    simp only [stopHandler, sleep, ends_bind, acquire_ends hq]
    rw [acquire_held (by simp [hheld])]
  · rw [hterm]
    simp only [termHandler, ends_bind]
    rw [acquire_held (by simp [hheld])]

/-- A handler whose frame cannot be stored makes the sender fault. -/
lemma handleSignal_faults (hzero : sig ≠ 0) (hdfl : ((s.sig p).actions sig).saHandler ≠ sigDfl)
    (hign : ((s.sig p).actions sig).saHandler ≠ sigIgn)
    (htakes : (s.sig cur).takesFrame (s.sig p).tf.sp = false) :
    Ends (handleSignal procAddr cur p sig) s ⊥ fun e _ => e = .fault := by
  unfold handleSignal runHandler enterHandler
  rw [if_neg hzero]
  simp only [ends_bind, ends_modify, ends_get, Sys.act_sig, if_neg hdfl, if_neg hign, htakes,
    Bool.false_eq_true, if_false, ends_throw]

lemma handleSignal_stuck (hheld : s.held = [.ptable]) (hhangs : Hangs cur s p sig) :
    Ends (handleSignal procAddr cur p sig) s ⊥ ⊤ := by
  rcases hhangs with ⟨hdfl, hdefault⟩ | ⟨hzero, hdfl, hign, htakes⟩
  · exact (handleSignal_locked hheld hdfl hdefault).mono (fun _ _ h => h) fun _ _ _ => trivial
  · exact (handleSignal_faults hzero hdfl hign htakes).mono (fun _ _ h => h) fun _ _ _ => trivial

@[simp] lemma marked_table : (marked s p sig).table = s.table := by
  unfold marked
  split
  · rfl
  · split <;> rfl

@[simp] lemma marked_held : (marked s p sig).held = s.held := by
  unfold marked
  split
  · rfl
  · split <;> rfl

lemma marked_self (s : Sys) (p sig : Nat) : ((marked s p sig).sig p).paused = (s.sig p).paused ∧
    ((marked s p sig).sig p).actions = (s.sig p).actions ∧
    ((marked s p sig).sig p).killed = ((s.sig p).killed || decide (sig = sigkill)) := by
  unfold marked
  split
  · next hkill => simp [hkill]
  · next hkill => split <;> simp [hkill]

/-- The state in which `send_signal` calls `handle_signal`. -/
def readied (s : Sys) (p sig : Nat) : Sys :=
  if (s.sig p).paused then
    ((marked s p sig).setSig p { (marked s p sig).sig p with paused := false }).act p sig
  else marked s p sig

@[simp] lemma readied_table : (readied s p sig).table = s.table := by
  unfold readied
  split
  · exact marked_table
  · exact marked_table

@[simp] lemma readied_held : (readied s p sig).held = s.held := by
  unfold readied
  split
  · exact marked_held
  · exact marked_held

/-- Marking a signal as pending changes no disposition and no frame. -/
lemma marked_keeps (q : Nat) : ((marked s p sig).sig q).actions = (s.sig q).actions ∧
    ((marked s p sig).sig q).tf = (s.sig q).tf ∧
    ((marked s p sig).sig q).writable = (s.sig q).writable := by
  unfold marked
  by_cases hq : q = p
  · subst hq
    split
    · simp
    · split <;> simp
  · split
    · simp [Function.update_of_ne hq]
    · split <;> simp [Function.update_of_ne hq]

/-- What decides whether a handler comes back is as it was before the send. -/
lemma readied_keeps (q : Nat) : ((readied s p sig).sig q).actions = (s.sig q).actions ∧
    ((readied s p sig).sig q).tf = (s.sig q).tf ∧
    ((readied s p sig).sig q).writable = (s.sig q).writable := by
  unfold readied
  split
  · by_cases hq : q = p
    · subst hq
      simpa using marked_keeps q
    · simpa [Function.update_of_ne hq] using marked_keeps q
  · exact marked_keeps q

lemma readied_hangs (n : Nat) : Hangs cur (readied s p sig) p n ↔ Hangs cur s p n := by
  obtain ⟨hactions, htf, -⟩ := @readied_keeps p sig s p
  unfold Hangs Sig.takesFrame
  rw [hactions, htf, (readied_keeps cur).2.2]

/-- **`send_signal`**: a mark, and `handle_signal` for a process that sleeps. -/
lemma sendSignal_ends : Ends (sendSignal procAddr cur p sig) s Q R ↔
    match handsOn sig s p with
    | some n => Ends (handleSignal procAddr cur p n) (readied s p sig) Q R
    | none => Q ⟨⟩ (marked s p sig) := by
  obtain ⟨hpaused, -, hkilled⟩ := marked_self s p sig
  unfold sendSignal notify handsOn readied
  rw [ends_bind, ends_modify, ends_bind, ends_get, marked_table, hpaused, hkilled]
  by_cases hsleeping : (s.table.proc p).state = .sleeping
  · rw [if_pos hsleeping, if_pos hsleeping]
    cases (s.sig p).paused with
    | true =>
      cases endsPause sig <;> simp
    | false =>
      by_cases hout : (s.sig p).killed = true ∨ sig = sigkill
      · rcases hout with hdead | hkill
        · simp [hdead]
        · simp [hkill]
      · have hawake : ((s.sig p).killed || decide (sig = sigkill)) = false := by simpa using hout
        simp [hawake, hout]
  · rw [if_neg hsleeping, if_neg hsleeping, ends_pure]

/-- One send that does not block. -/
lemma sendSignal_kept (hinv : ∃ V ρ, Inv s.table V ρ) (hheld : s.held = [.ptable])
    (hno : ¬ Blocks cur sig s p) :
    Ends (sendSignal procAddr cur p sig) s (fun _ => Kept s) := by
  rw [sendSignal_ends]
  cases hhandled : handsOn sig s p with
  | none => exact .of_table hinv marked_held marked_table
  | some n =>
    have hready : Kept s (readied s p sig) := .of_table hinv readied_held readied_table
    have hfree : .siglock ∉ (readied s p sig).held := by simp [hheld]
    have hreturns : ¬ Hangs cur (readied s p sig) p n :=
      fun hhangs => hno ⟨n, hhandled, (readied_hangs n).mp hhangs⟩
    exact (handleSignal_kept hready.inv hfree hreturns).imp (fun _ t ht => hready.trans ht)

lemma sendSignal_stuck (hheld : s.held = [.ptable]) (hblocks : Blocks cur sig s p) :
    Ends (sendSignal procAddr cur p sig) s ⊥ ⊤ := by
  obtain ⟨n, hhandled, hhangs⟩ := hblocks
  have hhandled : handsOn sig s p = some n := hhandled
  rw [sendSignal_ends, hhandled]
  exact handleSignal_stuck (readied_held.trans hheld) ((readied_hangs n).mpr hhangs)

end handlers

/-! ## The loop of `kill` -/

section kill

variable (procAddr : Nat → Nat) (cur sig : Nat)

/-- The state after a send. -/
def sent (s : Sys) (p : Nat) : Sys := stateOf (sendSignal procAddr cur p sig) s

variable {procAddr cur sig} {s : Sys} {ps : List Nat} {R : Stuck → Sys → Prop}

lemma sends_cons {p : Nat} {Q : PUnit → Sys → Prop} :
    Ends ((p :: ps).forM (sendSignal procAddr cur · sig)) s Q R ↔
      Ends (sendSignal procAddr cur p sig) s
        (fun _ t => Ends (ps.forM (sendSignal procAddr cur · sig)) t Q R) R :=
  ends_bind (sendSignal procAddr cur p sig) fun _ => ps.forM (sendSignal procAddr cur · sig)

/-- All of them, by induction on the targets. -/
lemma sends_kept (hinv : ∃ V ρ, Inv s.table V ρ) (hheld : s.held = [.ptable])
    (hno : RunOk (sent procAddr cur sig) (fun t p => ¬ Blocks cur sig t p) s ps) :
    Ends (ps.forM (sendSignal procAddr cur · sig)) s (fun _ => Kept s) := by
  induction ps generalizing s with
  | nil => exact Kept.of_table hinv rfl rfl
  | cons p ps ih =>
    have hsend : Ends (sendSignal procAddr cur p sig) s (fun _ => Kept s) :=
      sendSignal_kept hinv hheld hno.1
    obtain ⟨_, hok, hkept⟩ := hsend.returns_stateOf
    rw [sends_cons, ends_of_ok hok]
    exact (ih hkept.inv (hkept.held.trans hheld) hno.2).imp (fun _ _ ht => hkept.trans ht)

/-- One send that blocks, and the call does not come back. -/
lemma sends_stuck (hinv : ∃ V ρ, Inv s.table V ρ) (hheld : s.held = [.ptable])
    (hsome : ¬ RunOk (sent procAddr cur sig) (fun t p => ¬ Blocks cur sig t p) s ps) :
    Ends (ps.forM (sendSignal procAddr cur · sig)) s ⊥ ⊤ := by
  induction ps generalizing s with
  | nil => exact absurd trivial hsome
  | cons p ps ih => ?_
  rw [sends_cons]
  by_cases hblocks : Blocks cur sig s p
  · exact (sendSignal_stuck hheld hblocks).imp (fun _ _ h => h.elim)
  have hsend : Ends (sendSignal procAddr cur p sig) s (fun _ => Kept s) :=
    sendSignal_kept hinv hheld hblocks
  obtain ⟨_, hok, hkept⟩ := hsend.returns_stateOf
  rw [ends_of_ok hok]
  exact ih hkept.inv (hkept.held.trans hheld) fun hrest => hsome ⟨hblocks, hrest⟩

/-- A call of `kill` that does no harm: it returns, no CPU has changed what it does, in particular
the caller is not put to sleep, the locks are given back, and every live process is in one place
that fits its state. -/
def Harmless (procAddr : Nat → Nat) (cur : Nat) (pid : Int) (sig : Nat) (s : Sys) : Prop :=
  ∃ r s', kill procAddr cur pid sig s = .ok r s' ∧ Kept s s' ∧
    ∀ p, s.table.live p = true → OnePlace s'.table p

lemma Kept.onePlace {s' : Sys} (h : Kept s s') {p : Nat} (hp : s.table.live p = true) :
    OnePlace s'.table p := by
  obtain ⟨V, ρ, hI⟩ := h.inv
  exact hI.onePlace (by rw [h.frame.live]; exact hp)

lemma targets_eq_nil {t : Sched.Sys} (h : (t.proc cur).pgid ≤ 0) : targets cur t 0 = [] := by
  refine List.filter_eq_nil_iff.mpr fun p _ => ?_
  simp [isTarget, h]

/-- `kill` is the sends to its targets with `ptable.lock` held. -/
lemma kill_ends {pid : Int} (hheld : s.held = []) {Q : Int → Sys → Prop} :
    Ends (kill procAddr cur pid sig) s Q R ↔
      Ends ((targets cur s.table pid).forM (sendSignal procAddr cur · sig)) (s.setHeld [.ptable])
        (fun _ t => Q (if targets cur s.table pid = [] then -esrch else 0)
          (t.setHeld (t.held.erase .ptable))) R := by
  unfold kill
  rw [ends_bind, ends_get]
  split
  · next hnone =>
    -- no process is in a group without a number
    have hs : s.setHeld [] = s := by rw [← hheld]; rfl
    rw [hnone.1, targets_eq_nil hnone.2]
    show Q _ s ↔ Q _ (s.setHeld [])
    rw [hs, if_pos rfl]
  · rw [ends_bind, acquire_ends (by simp [hheld]), ends_bind, hheld]
    rfl

/-- **When `kill` does no harm**, from a state in which every process has one place: exactly when
for no target, at its turn, a signal is handled whose default action stops or terminates, or whose
handler is one of the program and needs a frame that the page table of the sender has no writable
pages for. -/
theorem kill_harmless_iff {V : View} {ρ : Nat → Role} (hinv : Inv s.table V ρ) (hheld : s.held = [])
    (pid : Int) :
    Harmless procAddr cur pid sig s ↔
      RunOk (sent procAddr cur sig) (fun t p => ¬ Blocks cur sig t p) (s.setHeld [.ptable])
        (targets cur s.table pid) := by
  have hinv' : ∃ V ρ, Inv (s.setHeld [.ptable]).table V ρ := ⟨V, ρ, hinv⟩
  constructor
  · rintro ⟨r, s', hrun, -⟩
    by_contra hsome
    exact ((kill_ends (Q := fun _ _ => False) (R := ⊤) hheld).mpr (sends_stuck hinv' rfl hsome)).ok
      hrun
  intro hno
  refine Ends.returns ((kill_ends hheld).mpr ((sends_kept hinv' rfl hno).imp (fun _ t ht => ?_)))
  have herase : t.held.erase .ptable = s.held := by rw [ht.held, hheld]; rfl
  have hkept : Kept s (t.setHeld (t.held.erase .ptable)) := ⟨herase, ht.frame, ht.inv⟩
  exact ⟨hkept, fun p hp => hkept.onePlace hp⟩

/-! ## A sleeping process -/

/-- A process that has not touched its signals. -/
def freshSig : Sig where
  mask := 0
  pending := 0
  actions _ := ⟨sigDfl, 0, 0, 0⟩
  killed := false
  paused := false
  tf := ⟨0, 0, 0, 0, fun _ => 0, 0, 0⟩
  oldtf := 0
  mem _ := 0
  writable _ := true

/-- Process 0, with the number 1, sleeps on channel 64; process 2 runs on CPU 1. -/
def dozing : Sys := ⟨dozeSys, fun _ => freshSig, [], []⟩

lemma dozing_run : run id (boot none 1) (sleepRun ++ wakeRun) = some dozeSys := by
  have h1 : run id (boot none 1) sleepRun = some sleepSys :=
    eq_some_getD (by decide +kernel) _
  have h2 : run id sleepSys wakeRun = some dozeSys := eq_some_getD (by decide +kernel) _
  rw [run_append, h1, Option.bind_some, h2]

/-- The theorem for the child that continues its sleeping parent. -/
theorem kill_sigcont_harmless : Harmless id 2 1 sigcont dozing := by
  obtain ⟨V, ρ, hinv, -⟩ := run_inv id (boot_inv 1 (.inl rfl)) (boot_plain 1 none)
    (by simp [sleepRun, wakeRun, forkedRun, Action.plain]) dozing_run
  exact (kill_harmless_iff hinv rfl 1).mpr (by decide +kernel)

/-- **`kill` spins for ever.** From a state that the system reaches, `kill(1, SIGTERM)` and
`kill(1, SIGSTOP)` by the child of the sleeping process 1 take `ptable.lock` a second time. -/
theorem kill_takes_lock_twice : run id (boot none 1) (sleepRun ++ wakeRun) = some dozing.table ∧
      dozing.table.cpu 1 = .running 2 ∧ (dozing.table.proc 0).state = .sleeping ∧
      (∀ sig ∈ [sigterm, sigstop], Ends (kill id 2 1 sig) dozing (fun _ _ => False)
        fun e _ => e = .selfLock .ptable) := by
  refine ⟨dozing_run, by decide +kernel, by decide +kernel, ?_⟩
  have htargets : targets 2 dozing.table 1 = [0] := by decide +kernel
  intro sig hsig
  rw [kill_ends rfl, htargets, sends_cons]
  have hhandled : handsOn sig (dozing.setHeld [.ptable]) 0 = some sig := by
    rcases List.mem_pair.mp hsig with rfl | rfl <;> simp [handsOn, dozing, freshSig]
      <;> decide
  have hdefault : defaultOf sig = .stop ∨ defaultOf sig = .term := by
    rcases List.mem_pair.mp hsig with rfl | rfl
    · exact .inr rfl
    · exact .inl rfl
  rw [sendSignal_ends, hhandled]
  exact (handleSignal_locked readied_held (by rw [(readied_keeps 0).1]; rfl) hdefault).imp
    (fun _ _ h => h.elim)

end kill

end RpiOs.Signal
