import RpiOs.Signal.Blocked

/-!
# The way back to user mode

`kern/trap.c` `trap`, for every cause of a trap, with what can happen to a process while it is in
the kernel: signals arrive, it exits, it sleeps in `stop_handler`. `trap` looks at pending signals
before it returns, but nowhere at `p->killed`.

* **`killed_obeyed_iff`**: in a run, no process returns to user mode with `killed` set exactly if at
  each return it has not been set before, and no terminating signal is handled then.
-/

namespace RpiOs.Signal.Trap

open Lib Sched Signal Function

/-! ## Causes -/

/-- What a trap is, by the syndrome register. -/
inductive Cause where
  /-- an interrupt, or an illegal state -/
  | unknown (il : Bool)
  | svc (expected : Bool)
  | abort (dfs : Nat)
  | other
  deriving DecidableEq

/-- The `switch` of `trap`. -/
def causeOf (esr : BitVec 64) : Cause :=
  let ec := (esr >>> 26).toNat
  let iss := (esr &&& 0xFFFFFF).toNat
  if ec = 0x00 then .unknown (esr &&& 1#64 <<< 25 ≠ 0)
  else if ec = 0x15 then .svc (iss = 0)
  else if ec = 0x20 ∨ ec = 0x21 ∨ ec = 0x24 ∨ ec = 0x25 then .abort (iss % 64)
  else .other

/-- How `trap` goes on when the work for its cause is done. -/
inductive End where
  /-- `check_pending_signal`, then back -/
  | check
  | return
  | exit
  | panic
  deriving DecidableEq

/-- A page fault never ends in `exit`: what `pf_handler` returns is stored in `tf->x[0]` and
compared with zero there, as an unsigned number. Source: `trap`. -/
def endOf : Cause → End
  | .unknown _ => .check
  | .svc true => .check
  | .svc false => .return
  | .abort dfs => if 4 ≤ dfs ∧ dfs ≤ 15 then .check else .panic
  | .other => .exit

/-! ## Runs -/

/-- Where a process is. -/
inductive Mode where
  | user
  | kernel (cause : Cause)
  /-- in `stop_handler`, called for the signal by `check_pending_signal` -/
  | stopped (sig : Nat)
  | exited
  /-- `panic`, a lock that is never released, or a store that faults for ever -/
  | halted
  deriving DecidableEq

/-- The system, and the mode of each process. -/
structure World where
  sys : Sys
  mode : Nat → Mode

/-- What happens to the processes. -/
inductive Event where
  /-- an interrupt, a system call or a fault of a program -/
  | enter (p : Nat) (esr : BitVec 64)
  /-- `kill` by the process, or by a timer that runs out while it is interrupted -/
  | kill (p : Nat) (pid : Int) (sig : Nat)
  /-- the system call is `exit`, or one that ends in it -/
  | exit (p : Nat)
  /-- the work for the cause of the trap is done -/
  | leave (p : Nat)
  /-- the rest of `handle_signal`, after `sleep` in `stop_handler` -/
  | stopEnd (p : Nat)
  /-- everything else that programs, system calls and the scheduler do; none of it changes
  `killed` -/
  | other (table : Sched.Sys) (sig : Nat → Sig)

namespace World

/-- A CPU starts without locks, and nothing has acted yet. -/
def fresh (w : World) : Sys := { w.sys with held := [], acted := [] }

def setMode (w : World) (s : Sys) (p : Nat) (m : Mode) : World := ⟨s, update w.mode p m⟩

end World

section runs

variable (procAddr : Nat → Nat)

/-- `check_pending_signal` and the return to user mode. -/
def checkAndReturn (w : World) (p : Nat) : World :=
  match checkPendingSignal procAddr p w.fresh with
  | .ok _ t => w.setMode t p .user
  | .error .asleep t => w.setMode t p (.stopped ((firstPending (w.sys.sig p).pending).getD 0))
  | .error _ t => w.setMode t p .halted

/-- One event. -/
def happen (w : World) : Event → World
  | .enter p esr => if w.mode p = .user then w.setMode w.fresh p (.kernel (causeOf esr)) else w
  | .kill p pid sig =>
    match w.mode p with
    | .kernel _ =>
      match sysKill procAddr p pid sig w.fresh with
      | .ok _ t => { w with sys := t }
      | .error _ t => w.setMode t p .halted
    | _ => w
  | .exit p =>
    match w.mode p with
    | .kernel _ => w.setMode w.fresh p .exited
    | _ => w
  | .leave p =>
    match w.mode p with
    | .kernel cause =>
      match endOf cause with
      | .check => checkAndReturn procAddr w p
      | .return => w.setMode w.fresh p .user
      | .exit => w.setMode w.fresh p .exited
      | .panic => w.setMode w.fresh p .halted
    | _ => w
  | .stopEnd p =>
    match w.mode p with
    | .stopped sig => w.setMode (stateOf (clearPending p sig) w.fresh) p .user
    | _ => w
  | .other table sig =>
    { w with sys := { w.fresh with
      table := table, sig := fun p => { sig p with killed := (w.sys.sig p).killed } } }

/-- **A killed process does not return**: whoever comes back to user mode has not been killed. -/
def Obeys (w : World) (e : Event) : Prop :=
  ∀ p, w.mode p ≠ .user → (happen procAddr w e).mode p = .user →
    ((happen procAddr w e).sys.sig p).killed = false

/-- A pending signal is about to terminate the process. -/
def Terminates (g : Sig) : Prop :=
  ∃ sig ∈ firstPending g.pending, (g.actions sig).saHandler = sigDfl ∧ defaultOf sig = .term

instance (g : Sig) : Decidable (Terminates g) :=
  inferInstanceAs (Decidable (∃ sig ∈ firstPending g.pending, _ ∧ _))

/-- The computation comes to its end. -/
def Returns (x : Ker) (s : Sys) : Bool :=
  match x s with
  | .ok .. => true
  | .error .. => false

/-- The process has not been killed, and is not killed by the signal it handles on its way out, if
it comes back from that. -/
def Spares (w : World) : Event → Prop
  | .leave p =>
    match w.mode p with
    | .kernel cause =>
      match endOf cause with
      | .check => Returns (checkPendingSignal procAddr p) w.fresh = true →
          (w.sys.sig p).killed = false ∧ ¬Terminates (w.sys.sig p)
      | .return => (w.sys.sig p).killed = false
      | _ => True
    | _ => True
  | .stopEnd p =>
    match w.mode p with
    | .stopped _ => (w.sys.sig p).killed = false
    | _ => True
  | _ => True

end runs

/-! ## What handling a signal does to `killed` -/

variable {procAddr : Nat → Nat} {cur sig : Nat} {s : Sys} {Q : PUnit → Sys → Prop}

lemma post_acquire {lk : Lock} (h : Q ⟨⟩ (s.setHeld (lk :: s.held))) : Post (acquire lk) s Q := by
  unfold acquire
  refine .get ?_
  split
  · exact post_throw _
  · exact (post_set _).mpr h

lemma post_release {lk : Lock} (h : Q ⟨⟩ (s.setHeld (s.held.erase lk))) :
    Post (release lk) s Q := (post_modify _).mpr h

lemma post_stopHandler {p : Nat} : Post (stopHandler procAddr cur p) s Q := by
  refine .bind (post_acquire ?_)
  refine .bind (.bind (post_acquire ?_))
  refine .bind (post_release ?_)
  refine .modify ?_
  refine .bind (post_release ?_)
  exact post_throw _

lemma post_termHandler : Post (termHandler cur) s fun _ t => (t.sig cur).killed = true := by
  refine .bind (post_acquire ?_)
  refine .modify ?_
  refine .modify ?_
  refine post_release ?_
  split <;> simp

lemma post_contHandler {p : Nat} : Post (contHandler procAddr p) s fun _ t => t.sig = s.sig := by
  unfold contHandler wakeup1
  refine .get ?_
  split
  · exact (post_set _).mpr rfl
  · exact post_throw _

/-- Entering a handler kills nobody. -/
lemma post_enterHandler {p : Nat} : Post (enterHandler cur p sig) s fun _ t =>
    (t.sig p).killed = (s.sig p).killed := by
  refine .get ?_
  split
  · refine (post_set _).mpr ?_
    by_cases hp : p = cur
    · subst hp
      simp [entered]
    · simp [entered, update_of_ne hp]
  · exact post_throw _

/-- A handler kills exactly if the default action terminates. -/
lemma runHandler_killed (sig : Nat) : Post (runHandler procAddr cur cur sig) s fun _ t =>
    ((t.sig cur).killed = true ↔ (s.sig cur).killed = true ∨
      ((s.sig cur).actions sig).saHandler = sigDfl ∧ defaultOf sig = .term) := by
  have hne : sigDfl ≠ sigIgn := by decide
  refine .get ?_
  dsimp only
  split
  · next hign =>
    refine .pure ?_
    rw [hign]
    simp [hne.symm]
  split
  · next hdfl =>
    cases hdefault : defaultOf sig with
    | stop => exact post_stopHandler
    | cont =>
      refine post_contHandler.mono fun _ t ht => ?_
      rw [ht]
      simp
    | term =>
      refine post_termHandler.mono fun _ t ht => ?_
      simp [ht, hdfl]
    | ignore =>
      refine .pure ?_
      simp
  · next hdfl =>
    refine post_enterHandler.mono fun _ t ht => ?_
    rw [ht]
    simp [hdfl]

lemma clearPending_killed (p sig : Nat) : Post (clearPending p sig) s fun _ t =>
    ∀ q, (t.sig q).killed = (s.sig q).killed := by
  refine .bind (post_acquire ?_)
  refine .modify ?_
  refine post_release fun q => ?_
  by_cases hq : q = p
  · subst hq
    simp
  · simp [update_of_ne hq]

/-- **A pending signal kills if it terminates by default.** -/
lemma checkPendingSignal_killed : Post (checkPendingSignal procAddr cur) s fun _ t =>
    ((t.sig cur).killed = true ↔ (s.sig cur).killed = true ∨ Terminates (s.sig cur)) := by
  refine .get ?_
  unfold Terminates
  rcases hfirst : firstPending (s.sig cur).pending with - | sig
  · exact .pure (by simp)
  have hsig : sig ≠ 0 := by
    rintro rfl
    have := (sigismember_lt (List.find?_some hfirst)).1
    omega
  show Post (handleSignal procAddr cur cur sig) s _
  unfold handleSignal
  rw [if_neg hsig]
  refine .modify ?_
  refine (runHandler_killed sig).step fun _ t ht => ?_
  refine (clearPending_killed cur sig).mono fun _ u hu => ?_
  rw [hu cur, ht]
  simp

/-! ## Returning -/

variable {w : World} {e : Event}

lemma obeys_of_mode (h : ∀ p, (happen procAddr w e).mode p = .user → w.mode p = .user) :
    Obeys procAddr w e := fun p hp hp' => absurd (h p hp') hp

lemma setMode_user {p q : Nat} {m : Mode} (hm : m ≠ .user) (h : (w.setMode s p m).mode q = .user) :
    w.mode q = .user := by
  by_cases hq : q = p
  · subst hq
    exact absurd (by simpa [World.setMode] using h) hm
  · simpa [World.setMode, update_of_ne hq] using h

/-- A plain return obeys exactly if the process was not killed. -/
lemma obeys_return {p : Nat} (hp : w.mode p ≠ .user)
    (h : happen procAddr w e = w.setMode s p .user) :
    Obeys procAddr w e ↔ (s.sig p).killed = false := by
  unfold Obeys
  rw [h]
  constructor
  · intro hobeys
    exact hobeys p hp (by simp [World.setMode])
  intro hkilled q hq hq'
  by_cases hqp : q = p
  · subst hqp
    exact hkilled
  · simp only [World.setMode, update_of_ne hqp] at hq'
    exact absurd hq' hq

lemma clearPending_stateOf (hheld : s.held = []) (p sig q : Nat) :
    ((stateOf (clearPending p sig) s).sig q).killed = (s.sig q).killed := by
  have hends : Ends (clearPending p sig) s ⊤ := by
    unfold clearPending release
    rw [ends_bind, acquire_ends (by simp [hheld]), ends_bind, ends_modify, ends_modify]
    trivial
  obtain ⟨_, hok, -⟩ := hends.returns_stateOf
  exact clearPending_killed p sig _ _ hok q

/-- A return through `check_pending_signal`. -/
lemma obeys_check_iff {p : Nat} (hp : w.mode p ≠ .user)
    (h : happen procAddr w e = checkAndReturn procAddr w p) :
    Obeys procAddr w e ↔ (Returns (checkPendingSignal procAddr p) w.fresh = true →
      (w.sys.sig p).killed = false ∧ ¬Terminates (w.sys.sig p)) := by
  unfold checkAndReturn at h
  unfold Returns
  cases hcheck : checkPendingSignal procAddr p w.fresh with
  | ok a t =>
    rw [hcheck] at h
    have hkilled : (t.sig p).killed = true ↔
        (w.sys.sig p).killed = true ∨ Terminates (w.sys.sig p) :=
      checkPendingSignal_killed (s := w.fresh) a t hcheck
    rw [obeys_return hp h, ← Bool.not_eq_true, hkilled, not_or, Bool.not_eq_true]
    exact ⟨fun h _ => h, fun h => h rfl⟩
  | error err t => ?_
  rw [hcheck] at h
  refine iff_of_true (obeys_of_mode fun q hq => ?_) nofun
  rw [h] at hq
  cases err with
  | asleep | selfLock _ | broken | fault => exact setMode_user (by simp) hq

/-- **One event.** -/
lemma obeys_iff (w : World) (e : Event) : Obeys procAddr w e ↔ Spares procAddr w e := by
  cases e with
  | enter | exit =>
    refine iff_of_true (obeys_of_mode fun q hq => ?_) trivial
    rw [happen] at hq
    split at hq
    · exact setMode_user (by simp) hq
    · exact hq
  | kill p pid sig =>
    refine iff_of_true (obeys_of_mode fun q hq => ?_) trivial
    rw [happen] at hq
    split at hq
    · split at hq
      · exact hq
      · exact setMode_user (by simp) hq
    · exact hq
  | leave p =>
    cases hmode : w.mode p with
    | kernel cause =>
      have hp : w.mode p ≠ .user := by simp [hmode]
      cases hend : endOf cause with
      | check =>
        simp only [Spares, hmode, hend]
        exact obeys_check_iff hp (by simp only [happen, hmode, hend])
      | «return» =>
        simp only [Spares, hmode, hend]
        exact obeys_return hp (s := w.fresh) (by simp only [happen, hmode, hend])
      | exit | panic =>
        simp only [Spares, hmode, hend, iff_true]
        refine obeys_of_mode fun q hq => ?_
        simp only [happen, hmode, hend] at hq
        exact setMode_user (by simp) hq
    | _ =>
      simp only [Spares, hmode, iff_true]
      refine obeys_of_mode fun q hq => ?_
      simpa only [happen, hmode] using hq
  | stopEnd p =>
    cases hmode : w.mode p with
    | stopped sig =>
      have hp : w.mode p ≠ .user := by simp [hmode]
      simp only [Spares, hmode]
      rw [obeys_return hp (s := stateOf (clearPending p sig) w.fresh)
        (by simp only [happen, hmode]), clearPending_stateOf rfl]
      exact Iff.rfl
    | _ =>
      simp only [Spares, hmode, iff_true]
      refine obeys_of_mode fun q hq => ?_
      simpa only [happen, hmode] using hq
  | other table sig => exact iff_of_true (obeys_of_mode fun q hq => hq) trivial

/-- **When killed processes stay out of user mode**, in every run of interrupts, system calls,
faults and signals. -/
theorem killed_obeyed_iff (w : World) (es : List Event) :
    RunOk (happen procAddr) (Obeys procAddr) w es ↔
      RunOk (happen procAddr) (Spares procAddr) w es := by
  induction es generalizing w with
  | nil => exact Iff.rfl
  | cons e es ih => exact and_congr (obeys_iff w e) (ih (happen procAddr w e))

/-! ## `SIGKILL` -/

/-- Process 0, with the number 1, and its child 2 run on two CPUs. -/
def parentAndChild : World := ⟨⟨forkedSys, fun _ => freshSig, [], []⟩, fun _ => .user⟩

/-- The child kills its parent, which is then interrupted. -/
def killRun : List Event :=
  [.enter 2 (0x15#64 <<< 26), .kill 2 1 sigkill, .leave 2, .enter 0 0, .leave 0]

/-- **A killed process goes on in user mode**, after an interrupt, after each system call and after
a page fault that cannot be resolved. -/
theorem killed_process_returns : let w := killRun.foldl (happen id) parentAndChild
    let called := [Event.enter 0 (0x15#64 <<< 26), .leave 0].foldl (happen id) w
    let faulted := [Event.enter 0 (0x24#64 <<< 26 ||| 4), .leave 0].foldl (happen id) w
    (w.sys.sig 0).killed = true ∧ w.mode 0 = .user ∧
      (called.sys.sig 0).killed = true ∧ called.mode 0 = .user ∧
      (faulted.sys.sig 0).killed = true ∧ faulted.mode 0 = .user := by
  decide +kernel

end RpiOs.Signal.Trap
