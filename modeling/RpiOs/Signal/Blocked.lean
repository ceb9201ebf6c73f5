import RpiOs.Signal.Kill

/-!
# Blocked signals

`signal.mask` is set by `sigprocmask`, `sigaction` and `sigsuspend`, and no function of the kernel
reads it to decide about a delivery. The runs here are of any number of processes that change their
masks and actions, suspend themselves, send signals and return from traps, while the rest of the
kernel and the programs do what they like to the process table, the registers and the memory.

* `Works`: what a piece of the signal code leaves as it was. `acted` records all signals that had an
  effect, so that what is not recorded there did nothing but become pending.
* **`blocked_signals_wait`**: blocked signals stay pending and no others are lost.
-/

namespace RpiOs.Signal

open Lib Sched Function

/-! ## Members of signal sets -/

section sets

variable {set : BitVec 64} {n m : Nat}

/-- The test is that of a bit, for a signal number in range. -/
lemma sigismember_eq (hpos : 1 ≤ n) (hlt : n < nsig) : sigismember set n = set.getLsbD (n - 1) := by
  have hbit : n - 1 < 64 := by
    unfold nsig at hlt
    omega
  have hrange : ¬ (n < 1 ∨ nsig ≤ n) := by omega
  rw [sigismember, if_neg hrange]
  show decide (set &&& BitVec.twoPow 64 (n - 1) ≠ 0) = _
  rw [BitVec.and_twoPow]
  rcases set.getLsbD (n - 1) with - | -
  · simp
  have hne : BitVec.twoPow 64 (n - 1) ≠ 0 := fun h => by
    have := congrArg (BitVec.getLsbD · (n - 1)) h
    simp [hbit] at this
  simpa using hne

lemma sigismember_lt (h : sigismember set n = true) : 1 ≤ n ∧ n < nsig := by
  by_contra hno
  rw [sigismember, if_pos (by omega)] at h
  cases h

lemma sigismember_sigaddset (h : sigismember set n = true) :
    sigismember (sigaddset set m) n = true := by
  obtain ⟨hpos, hlt⟩ := sigismember_lt h
  rw [sigismember_eq hpos hlt] at h ⊢
  unfold sigaddset
  split
  · exact h
  · rw [BitVec.getLsbD_or, h, Bool.true_or]

/-- Deleting a signal leaves the others in the set. -/
lemma sigismember_sigdelset (h : sigismember set n = true) (hne : n ≠ m) :
    sigismember (sigdelset set m) n = true := by
  obtain ⟨hpos, hlt⟩ := sigismember_lt h
  rw [sigismember_eq hpos hlt] at h ⊢
  unfold sigdelset
  split
  · exact h
  · next hrange =>
    have hother : (1#64 <<< (m - 1)).getLsbD (n - 1) = false := by
      show (BitVec.twoPow 64 (m - 1)).getLsbD (n - 1) = false
      rw [BitVec.getLsbD_twoPow]
      simp only [Bool.and_eq_false_iff, decide_eq_false_iff_not]
      right
      omega
    have hbit : n - 1 < 64 := by
      unfold nsig at hlt
      omega
    rw [BitVec.getLsbD_and, h, BitVec.getLsbD_not, hother]
    simpa using hbit

end sets

/-! ## What the signal code does to the processes -/

/-- The mask lets the signal act; `SIGKILL` and `SIGSTOP` cannot be blocked. -/
def Allowed (s : Sys) (p sig : Nat) : Prop :=
  sigismember (s.sig p).mask sig = true → sig = sigkill ∨ sig = sigstop

instance (s : Sys) (p sig : Nat) : Decidable (Allowed s p sig) :=
  inferInstanceAs (Decidable (_ → _))

lemma Allowed.of_mask {s s' : Sys} {p sig : Nat} (h : Allowed s p sig)
    (hmask : (s'.sig p).mask = (s.sig p).mask) : Allowed s' p sig := by
  unfold Allowed
  rwa [hmask]

/-- Two states of a process that differ in the mask, the pending signals and the memory at most. -/
structure SameSig (g g' : Sig) : Prop where
  actions : g'.actions = g.actions
  killed : g'.killed = g.killed
  paused : g'.paused = g.paused
  tf : g'.tf = g.tf
  oldtf : g'.oldtf = g.oldtf

lemma SameSig.refl (g : Sig) : SameSig g g := ⟨rfl, rfl, rfl, rfl, rfl⟩

lemma SameSig.trans {g1 g2 g3 : Sig} (h : SameSig g1 g2) (h' : SameSig g2 g3) : SameSig g1 g3 :=
  ⟨h'.actions.trans h.actions, h'.killed.trans h.killed, h'.paused.trans h.paused,
    h'.tf.trans h.tf, h'.oldtf.trans h.oldtf⟩

/-- The masks stay, only signals that are allowed act, a pending signal stays unless it acts, and
what does not act on a process does not change it. -/
structure Works (s s' : Sys) : Prop where
  mask : ∀ q, (s'.sig q).mask = (s.sig q).mask
  grows : ∀ e ∈ s.acted, e ∈ s'.acted
  allowed : ∀ q sig, (q, sig) ∈ s'.acted → (q, sig) ∈ s.acted ∨ Allowed s q sig
  pending : ∀ q sig, sigismember (s.sig q).pending sig = true →
    sigismember (s'.sig q).pending sig = true ∨ (q, sig) ∈ s'.acted
  quiet : ∀ q, (∀ sig, (q, sig) ∉ s'.acted) → SameSig (s.sig q) (s'.sig q)

/-- Two parts of a call. -/
lemma Works.trans {s1 s2 s3 : Sys} (h : Works s1 s2) (h' : Works s2 s3) : Works s1 s3 where
  mask q := (h'.mask q).trans (h.mask q)
  grows e he := h'.grows e (h.grows e he)
  allowed q sig hacted := by
    rcases h'.allowed q sig hacted with hold | hallowed
    · exact h.allowed q sig hold
    · exact .inr (hallowed.of_mask (h.mask q).symm)
  pending q sig hp := by
    rcases h.pending q sig hp with hstill | hacted
    · exact h'.pending q sig hstill
    · exact .inr (h'.grows _ hacted)
  quiet q hquiet := by
    have hearlier : ∀ sig, (q, sig) ∉ s2.acted := fun sig hsig => hquiet sig (h'.grows _ hsig)
    exact (h.quiet q hearlier).trans (h'.quiet q hquiet)

lemma Works.of_sig {s s' : Sys} (hsig : s'.sig = s.sig) (hacted : s'.acted = s.acted) :
    Works s s' where
  mask q := by rw [hsig]
  grows e he := hacted ▸ he
  allowed q sig h := .inl (hacted ▸ h)
  pending q sig h := .inl (hsig ▸ h)
  quiet q _ := hsig ▸ .refl _

/-- One entry is changed. -/
lemma Works.of_entry {s : Sys} {p : Nat} {g : Sig} (hmask : g.mask = (s.sig p).mask)
    (hpending : ∀ n, sigismember (s.sig p).pending n = true →
      sigismember g.pending n = true ∨ (p, n) ∈ s.acted)
    (hsame : (∀ sig, (p, sig) ∉ s.acted) → SameSig (s.sig p) g) : Works s (s.setSig p g) where
  mask := (forall_update_iff s.sig fun q g => g.mask = (s.sig q).mask).mpr ⟨hmask, fun _ _ => rfl⟩
  grows _ he := he
  allowed _ _ h := .inl h
  pending := (forall_update_iff s.sig fun q g => ∀ n, sigismember (s.sig q).pending n = true →
    sigismember g.pending n = true ∨ (q, n) ∈ s.acted).mpr ⟨hpending, fun _ _ _ h => .inl h⟩
  quiet := (forall_update_iff s.sig fun q g => (∀ sig, (q, sig) ∉ s.acted) →
    SameSig (s.sig q) g).mpr
    ⟨hsame, fun _ _ _ => .refl _⟩

variable {s : Sys}

/-- A signal that is allowed to may act. -/
lemma Works.of_act {p sig : Nat} (h : Allowed s p sig) : Works s (s.act p sig) where
  mask q := rfl
  grows e he := List.mem_cons_of_mem _ he
  allowed q n hmem := by
    rcases List.mem_cons.mp hmem with heq | hold
    · cases heq
      exact .inr h
    · exact .inl hold
  pending q n h := .inl h
  quiet q _ := .refl _

/-- The computation works, also if it gets stuck. -/
def Does (x : Ker) (s : Sys) : Prop := Ends x s (fun _ => Works s) fun _ => Works s

lemma Does.bind {x y : Ker} (hx : Does x s) (hy : ∀ t, Works s t → Does y t) :
    Does (x >>= fun _ => y) s := by
  unfold Does
  rw [ends_bind]
  refine hx.mono (fun _ t ht => ?_) fun _ t ht => ht
  exact (hy t ht).mono (fun _ _ h => ht.trans h) fun _ _ h => ht.trans h

lemma Does.modify {y : Ker} {f : Sys → Sys} (hf : Works s (f s)) (hy : Does y (f s)) :
    Does (modify f >>= fun _ => y) s := by
  unfold Does
  rw [ends_bind, ends_modify]
  exact hy.mono (fun _ _ h => hf.trans h) fun _ _ h => hf.trans h

lemma Does.stateOf {x : Ker} (h : Does x s) : Works s (stateOf x s) := by
  unfold Does Ends at h
  unfold Lib.stateOf
  split
  all_goals
    next hx =>
      rw [hx] at h
      exact h

section handlers

variable {procAddr : Nat → Nat} {cur p sig : Nat} {s : Sys}

lemma does_pure : Does (pure ⟨⟩) s := Works.of_sig rfl rfl

lemma does_acquire (lk : Lock) : Does (acquire lk) s := by
  by_cases hheld : lk ∈ s.held
  · exact (acquire_held hheld).mpr (Works.of_sig rfl rfl)
  · exact (acquire_ends hheld).mpr (Works.of_sig rfl rfl)

lemma does_release (lk : Lock) : Does (release lk) s := Works.of_sig rfl rfl

lemma does_wakeup1 (chan : Nat) : Does (wakeup1 chan) s := by
  unfold Does wakeup1
  rw [ends_bind, ends_get]
  split
  · exact Works.of_sig rfl rfl
  · exact Works.of_sig rfl rfl

lemma does_sleep (chan : Nat) : Does (sleep cur chan) s := by
  refine (does_acquire .ptable).bind fun t _ => ?_
  refine (does_release .q).bind fun t _ => ?_
  refine Does.bind (Works.of_sig rfl rfl) fun t _ => ?_
  exact (does_release .ptable).bind fun t _ => Works.of_sig rfl rfl

lemma does_stopHandler : Does (stopHandler procAddr cur p) s := by
  refine (does_acquire .q).bind fun t _ => ?_
  exact (does_sleep _).bind fun t _ => does_release .q

section

variable (hacts : (p, sig) ∈ s.acted)
include hacts

lemma works_setSig {g : Sig} (hmask : g.mask = (s.sig p).mask)
    (hpending : ∀ n, n ≠ sig → sigismember (s.sig p).pending n = true →
      sigismember g.pending n = true) : Works s (s.setSig p g) := by
  refine .of_entry hmask (fun n h => ?_) fun hquiet => absurd hacts (hquiet sig)
  by_cases hn : n = sig
  · exact .inr (hn ▸ hacts)
  · exact .inl (hpending n hn h)

lemma does_termHandler : Does (termHandler p) s := by
  refine (does_acquire .ptable).bind fun t ht => ?_
  refine Does.bind (works_setSig (ht.grows _ hacts) rfl fun _ _ h => h) fun t _ => ?_
  refine Does.bind ?_ fun t _ => does_release .ptable
  unfold Does
  rw [ends_modify]
  split
  · exact Works.of_sig rfl rfl
  · exact Works.of_sig rfl rfl

lemma works_entered : Works s (entered cur s p sig) := by
  unfold entered
  set u := userHandler ((s.sig p).actions sig).saHandler sig
    ⟨(s.sig p).tf, (s.sig p).oldtf, (s.sig cur).mem⟩
  have hfirst : Works s (s.setSig cur { s.sig cur with mem := u.mem }) :=
    .of_entry rfl (fun _ => .inl) fun _ => ⟨rfl, rfl, rfl, rfl, rfl⟩
  exact hfirst.trans (works_setSig (hfirst.grows _ hacts) rfl fun _ _ h => h)

lemma does_enterHandler : Does (enterHandler cur p sig) s := by
  unfold Does enterHandler
  rw [ends_bind, ends_get]
  split
  · exact works_entered hacts
  · exact Works.of_sig rfl rfl

/-- A handler acts for the one signal that it is run for. -/
lemma does_runHandler : Does (runHandler procAddr cur p sig) s := by
  unfold Does runHandler
  rw [ends_bind, ends_get]
  dsimp only
  split
  · exact does_pure
  split
  · split
    · exact does_stopHandler
    · exact does_wakeup1 _
    · exact does_termHandler hacts
    · exact does_pure
  · exact does_enterHandler hacts

lemma does_clearPending : Does (clearPending p sig) s := by
  refine (does_acquire .siglock).bind fun t ht => ?_
  refine Does.bind ?_ fun t _ => does_release .siglock
  exact works_setSig (ht.grows _ hacts) rfl fun n hne h => sigismember_sigdelset h hne

end

lemma does_handleSignal (h : Allowed s p sig) : Does (handleSignal procAddr cur p sig) s := by
  unfold handleSignal
  split
  · exact does_pure
  have hacts : (p, sig) ∈ (s.act p sig).acted := List.mem_cons_self
  refine Does.modify (Works.of_act h) ?_
  exact (does_runHandler hacts).bind fun t ht => does_clearPending (ht.grows _ hacts)

/-- A send to `p` does not act on it against its mask. -/
def SendClear (sig : Nat) (s : Sys) (p : Nat) : Prop :=
  (s.table.proc p).state = .sleeping →
    if (s.sig p).paused then endsPause sig = true → Allowed s p sig ∧ Allowed s p sigcont
    else (s.sig p).killed = false → Allowed s p sig

instance (sig : Nat) (s : Sys) (p : Nat) : Decidable (SendClear sig s p) :=
  inferInstanceAs (Decidable (_ → _))

lemma works_marked : Works s (marked s p sig) := by
  unfold marked
  split
  · next hkill =>
    have hacts : (p, sig) ∈ (s.act p sig).acted := List.mem_cons_self
    exact (Works.of_act fun _ => .inl hkill).trans (works_setSig hacts rfl fun _ _ h => h)
  split
  · exact Works.of_sig rfl rfl
  exact .of_entry rfl (fun _ h => .inl (sigismember_sigaddset h)) fun _ => ⟨rfl, rfl, rfl, rfl, rfl⟩

/-- A send that is clear acts as the masks allow. -/
lemma does_sendSignal (hclear : SendClear sig s p) : Does (sendSignal procAddr cur p sig) s := by
  obtain ⟨hpaused, -, hkilled⟩ := marked_self s p sig
  have hmark : Works s (marked s p sig) := works_marked
  have hallowed : ∀ n, Allowed s p n → Allowed (marked s p sig) p n :=
    fun n hn => hn.of_mask (hmark.mask p)
  refine Does.modify hmark ?_
  unfold Does notify
  rw [ends_bind, ends_get, marked_table, hpaused]
  split
  · next hsleeping =>
    have hclear := hclear hsleeping
    split
    · next hends =>
      rw [Bool.and_eq_true] at hends
      rw [if_pos hends.1] at hclear
      obtain ⟨hsig, hcont⟩ := hclear hends.2
      set s1 := marked s p sig
      -- the pause ends: recorded, then done
      have hend : Works s1 ((s1.setSig p { s1.sig p with paused := false }).act p sig) :=
        (Works.of_act (hallowed _ hsig)).trans
          (works_setSig (s := s1.act p sig) List.mem_cons_self rfl fun _ _ h => h)
      exact Does.modify hend (does_handleSignal ((hallowed _ hcont).of_mask (hend.mask p)))
    · split
      · next hawake =>
        rw [hkilled] at hawake
        simp only [Bool.and_eq_true, Bool.not_eq_true', Bool.or_eq_false_iff] at hawake
        rw [if_neg (by simp [hawake.1])] at hclear
        exact does_handleSignal (hallowed _ (hclear hawake.2.1))
      · exact does_pure
  · exact does_pure

/-- Sends to several processes, each judged in the state before it. -/
lemma does_sends {ps : List Nat} (hclear : RunOk (sent procAddr cur sig) (SendClear sig) s ps) :
    Does (ps.forM (sendSignal procAddr cur · sig)) s := by
  induction ps generalizing s with
  | nil => exact does_pure
  | cons p ps ih => ?_
  have hsend : Does (sendSignal procAddr cur p sig) s := does_sendSignal hclear.1
  have hrest := ih hclear.2
  unfold Does
  rw [sends_cons]
  cases hrun : sendSignal procAddr cur p sig s with
  | ok _ t =>
    rw [ends_of_ok hrun]
    have hstate : sent procAddr cur sig s p = t := by
      unfold sent Lib.stateOf
      rw [hrun]
    rw [hstate] at hrest
    have hworks : Works s t := (ends_of_ok hrun).mp hsend
    exact hrest.mono (fun _ _ h => hworks.trans h) fun _ _ h => hworks.trans h
  | error e t =>
    rw [ends_of_error hrun]
    exact (ends_of_error hrun).mp hsend

/-- The whole system call. -/
lemma does_sysKill {pid : Int} (hheld : s.held = [])
    (hclear : RunOk (sent procAddr cur sig) (SendClear sig) (s.setHeld [.ptable])
      (targets cur s.table pid)) :
    Ends (sysKill procAddr cur pid sig) s (fun _ => Works s) fun _ => Works s := by
  unfold sysKill
  split
  · exact Works.of_sig rfl rfl
  rw [kill_ends hheld]
  have hlock : Works s (s.setHeld [.ptable]) := .of_sig rfl rfl
  refine (does_sends hclear).mono (fun _ t ht => ?_) fun _ t ht => hlock.trans ht
  exact (hlock.trans ht).trans (.of_sig rfl rfl)

lemma does_checkPendingSignal (h : ∀ sig ∈ firstPending (s.sig cur).pending, Allowed s cur sig) :
    Does (checkPendingSignal procAddr cur) s := by
  unfold Does checkPendingSignal
  rw [ends_bind, ends_get]
  split
  · next hfirst => exact does_handleSignal (h _ hfirst)
  · exact does_pure

end handlers

/-! ## Runs -/

/-- What a process is in the middle of. -/
inductive Place where
  /-- in its program, or at the start of a system call -/
  | user
  /-- in `sigsuspend`, with the mask to go back to -/
  | suspended (oldmask : BitVec 64)
  /-- in `stop_handler`, called for the signal by `check_pending_signal` -/
  | stopped (sig : Nat)
  /-- it will never go on -/
  | spinning
  deriving DecidableEq

/-- The system, and where each process is. -/
structure World where
  sys : Sys
  place : Nat → Place

/-- What can happen next. -/
inductive Event where
  | sigprocmask (p : Nat) (how : Int) (set : Option (BitVec 64))
  | sigaction (p sig : Nat) (act : Option Sigaction)
  /-- `sigsuspend`, up to `sleep` -/
  | sigsuspend (p : Nat) (mask : BitVec 64)
  /-- the rest of `sigsuspend` -/
  | suspendEnd (p : Nat)
  | kill (p : Nat) (pid : Int) (sig : Nat)
  /-- `check_pending_signal` at the end of a trap -/
  | trapReturn (p : Nat)
  /-- the rest of `handle_signal`, after `sleep` in `stop_handler` -/
  | stopEnd (p : Nat)
  /-- the scheduler, other system calls and the programs -/
  | other (table : Sched.Sys) (tf : Nat → Trapframe) (mem : Nat → Memory)
      (writable : Nat → BitVec 64 → Bool)

/-- An event in which signals are sent or delivered. -/
def Event.delivers : Event → Bool
  | .kill _ _ _ | .trapReturn _ | .stopEnd _ => true
  | _ => false

namespace World

/-- A CPU starts without locks, and nothing has acted yet. -/
def fresh (w : World) : Sys := { w.sys with held := [], acted := [] }

def setPlace (w : World) (s : Sys) (p : Nat) (l : Place) : World :=
  ⟨s, update w.place p l⟩

/-- A process that is in its program changes its own entry. -/
def own (w : World) (p : Nat) (f : Sig → Sig) : World :=
  if w.place p = .user then { w with sys := w.fresh.setSig p (f (w.sys.sig p)) }
  else { w with sys := w.fresh }

end World

section runs

variable (procAddr : Nat → Nat)

/-- One event. -/
def happen (w : World) : Event → World
  | .sigprocmask p how set => w.own p fun g => { g with mask := (sigprocmask how set g.mask).1 }
  | .sigaction p sig act => w.own p fun g => (sigaction sig act g).1
  | .sigsuspend p mask =>
    if w.place p = .user then
      w.setPlace (w.fresh.setSig p (sigsuspend mask (w.sys.sig p))) p
        (.suspended (w.sys.sig p).mask)
    else { w with sys := w.fresh }
  | .suspendEnd p =>
    match w.place p with
    | .suspended oldmask =>
      w.setPlace (w.fresh.setSig p { w.sys.sig p with mask := oldmask }) p .user
    | _ => { w with sys := w.fresh }
  | .kill p pid sig =>
    if w.place p = .user then
      match sysKill procAddr p pid sig w.fresh with
      | .ok _ t => { w with sys := t }
      | .error _ t => w.setPlace t p .spinning
    else { w with sys := w.fresh }
  | .trapReturn p =>
    if w.place p = .user then
      match checkPendingSignal procAddr p w.fresh with
      | .ok _ t => { w with sys := t }
      | .error .asleep t =>
        w.setPlace t p (.stopped ((firstPending (w.sys.sig p).pending).getD 0))
      | .error _ t => w.setPlace t p .spinning
    else { w with sys := w.fresh }
  | .stopEnd p =>
    match w.place p with
    | .stopped sig => w.setPlace (stateOf (clearPending p sig) (w.fresh.act p sig)) p .user
    | _ => { w with sys := w.fresh }
  | .other table tf mem writable =>
    { w with sys := { w.fresh with
      table := table
      sig := fun p => { w.sys.sig p with tf := tf p, mem := mem p, writable := writable p } } }

/-- **An event honours the masks**: a blocked signal does not act and stays pending, a pending
signal goes away only when it acts, and a process on which none acts is as it was, but for what is
pending. -/
structure Respects (w : World) (e : Event) : Prop where
  blocked : ∀ p sig, sigismember (w.sys.sig p).mask sig = true → sig ≠ sigkill → sig ≠ sigstop →
    (p, sig) ∉ (happen procAddr w e).sys.acted
  waits : ∀ p sig, sigismember (w.sys.sig p).mask sig = true → sig ≠ sigkill → sig ≠ sigstop →
    sigismember (w.sys.sig p).pending sig = true →
    sigismember ((happen procAddr w e).sys.sig p).pending sig = true
  kept : ∀ p sig, sigismember (w.sys.sig p).pending sig = true →
    sigismember ((happen procAddr w e).sys.sig p).pending sig = true ∨
      (p, sig) ∈ (happen procAddr w e).sys.acted
  quiet : e.delivers = true → ∀ p, (∀ sig, (p, sig) ∉ (happen procAddr w e).sys.acted) →
    SameSig (w.sys.sig p) ((happen procAddr w e).sys.sig p)

/-- The signals that an event acts on are not blocked. -/
def Clear (w : World) : Event → Prop
  | .kill p pid sig => w.place p = .user →
      RunOk (sent procAddr p sig) (SendClear sig) (w.fresh.setHeld [.ptable])
        (targets p w.sys.table pid)
  | .trapReturn p => w.place p = .user →
      ∀ sig ∈ firstPending (w.sys.sig p).pending, Allowed w.sys p sig
  | _ => True

instance (w : World) : (e : Event) → Decidable (Clear procAddr w e)
  | .kill .. | .trapReturn _ => inferInstanceAs (Decidable (_ → _))
  | .sigprocmask _ _ _ | .sigaction _ _ _ | .sigsuspend _ _ | .suspendEnd _ | .stopEnd _
  | .other .. => isTrue trivial

/-- Processes were stopped by signals that were not blocked. -/
def StoppedWell (w : World) : Prop := ∀ p sig, w.place p = .stopped sig → Allowed w.sys p sig

variable {procAddr} {w : World} {e : Event} {p : Nat}

/-- Calls that work honour the masks. -/
lemma respects_of_works (hw : Works w.fresh (happen procAddr w e).sys ∧
    StoppedWell (happen procAddr w e)) :
    Respects procAddr w e ∧ StoppedWell (happen procAddr w e) := by
  obtain ⟨h, hstopped⟩ := hw
  have hacted : ∀ p sig, (p, sig) ∈ (happen procAddr w e).sys.acted → Allowed w.sys p sig := by
    intro p sig hmem
    rcases h.allowed p sig hmem with hold | hallowed
    · cases hold
    · exact hallowed
  have hblocked : ∀ p sig, sigismember (w.sys.sig p).mask sig = true → sig ≠ sigkill →
      sig ≠ sigstop → (p, sig) ∉ (happen procAddr w e).sys.acted := by
    intro p sig hmask hkill hstop hmem
    rcases hacted p sig hmem hmask with heq | heq
    · exact hkill heq
    · exact hstop heq
  refine ⟨⟨hblocked, fun p sig hmask hkill hstop hpending => ?_, h.pending, fun _ => h.quiet⟩,
    hstopped⟩
  exact (h.pending p sig hpending).resolve_right (hblocked p sig hmask hkill hstop)

/-- A process that only changes its own mask and actions honours them. -/
lemma respects_of_own (he : e.delivers = false) (h : (happen procAddr w e).sys.acted = [] ∧
    (∀ p, ((happen procAddr w e).sys.sig p).pending = (w.sys.sig p).pending) ∧
      StoppedWell (happen procAddr w e)) : Respects procAddr w e ∧
        StoppedWell (happen procAddr w e) := by
  obtain ⟨hacted, hpending, hstopped⟩ := h
  refine ⟨⟨fun p sig _ _ _ => ?_, fun p sig _ _ _ h => ?_, fun p sig h => .inl ?_, fun h => ?_⟩,
    hstopped⟩
  · rw [hacted]
    exact List.not_mem_nil
  · rwa [hpending]
  · rwa [hpending]
  · rw [he] at h
    cases h

lemma StoppedWell.setPlace (h : StoppedWell w) {l : Place}
    (hmask : ∀ q, q ≠ p → (s.sig q).mask = (w.sys.sig q).mask)
    (hl : ∀ sig, l = .stopped sig → Allowed s p sig) : StoppedWell (w.setPlace s p l) := by
  intro q sig hq
  by_cases hqp : q = p
  · subst hqp
    exact hl sig (by simpa [World.setPlace] using hq)
  have hold : w.place q = .stopped sig := by simpa [World.setPlace, hqp] using hq
  exact (h q sig hold).of_mask (hmask q hqp)

lemma StoppedWell.of_mask (h : StoppedWell w)
    (hmask : ∀ q, (s.sig q).mask = (w.sys.sig q).mask) : StoppedWell { w with sys := s } :=
  fun q sig hq => (h q sig hq).of_mask (hmask q)

lemma setPlace_spec {g : Sig} {l : Place} (hg : g.pending = (w.sys.sig p).pending)
    (hl : ∀ sig, l ≠ .stopped sig) (hstopped : StoppedWell w) :
    (w.setPlace (w.fresh.setSig p g) p l).sys.acted = [] ∧
      (∀ q, ((w.setPlace (w.fresh.setSig p g) p l).sys.sig q).pending = (w.sys.sig q).pending) ∧
      StoppedWell (w.setPlace (w.fresh.setSig p g) p l) := by
  refine ⟨rfl, (forall_update_iff w.sys.sig fun q g => g.pending = (w.sys.sig q).pending).mpr
    ⟨hg, fun _ _ => rfl⟩, hstopped.setPlace (fun q hq => ?_) fun sig h => absurd h (hl sig)⟩
  rw [Sys.setSig_sig, update_of_ne hq]
  rfl

/-- A call about the process's own signals that leaves the pending ones. -/
lemma own_spec {f : Sig → Sig} (hf : ∀ g, (f g).pending = g.pending) (hstopped : StoppedWell w) :
    (w.own p f).sys.acted = [] ∧
      (∀ q, ((w.own p f).sys.sig q).pending = (w.sys.sig q).pending) ∧ StoppedWell (w.own p f) := by
  unfold World.own
  split
  · next huser =>
    have hplace : ({ w with sys := w.fresh.setSig p (f (w.sys.sig p)) } : World) =
        w.setPlace (w.fresh.setSig p (f (w.sys.sig p))) p .user := by
      rw [World.setPlace, ← huser, update_eq_self]
    rw [hplace]
    exact setPlace_spec (hf _) (by simp) hstopped
  · exact ⟨rfl, fun q => rfl, hstopped.of_mask fun _ => rfl⟩

lemma works_fresh : Works w.fresh w.fresh := .of_sig rfl rfl

section

variable (hstopped : StoppedWell w) {p : Nat}
include hstopped

/-- The event of a `kill`. -/
lemma kill_spec {pid : Int} {sig : Nat} (hclear : Clear procAddr w (.kill p pid sig)) :
    Respects procAddr w (.kill p pid sig) ∧ StoppedWell (happen procAddr w (.kill p pid sig)) := by
  refine respects_of_works ?_
  simp only [happen]
  split
  · next huser =>
    have hkill := does_sysKill (s := w.fresh) rfl (hclear huser)
    split
    · next hrun =>
      have hworks := (ends_of_ok hrun).mp hkill
      exact ⟨hworks, hstopped.of_mask hworks.mask⟩
    · next hrun =>
      have hworks := (ends_of_error hrun).mp hkill
      exact ⟨hworks, hstopped.setPlace (fun q _ => hworks.mask q) nofun⟩
  · exact ⟨works_fresh, hstopped.of_mask fun _ => rfl⟩

/-- The return from a trap, with the first pending signal. -/
lemma trapReturn_spec (hclear : Clear procAddr w (.trapReturn p)) :
    Respects procAddr w (.trapReturn p) ∧ StoppedWell (happen procAddr w (.trapReturn p)) := by
  refine respects_of_works ?_
  simp only [happen]
  split
  · next huser =>
    have hfirst := hclear huser
    have hcheck : Does (checkPendingSignal procAddr p) w.fresh := does_checkPendingSignal hfirst
    split
    · next hrun =>
      have hworks := (ends_of_ok hrun).mp hcheck
      exact ⟨hworks, hstopped.of_mask hworks.mask⟩
    · next t hrun =>
      -- it sleeps in `stop_handler`: for a signal that was pending and not blocked
      have hworks := (ends_of_error hrun).mp hcheck
      refine ⟨hworks, hstopped.setPlace (fun q _ => hworks.mask q) fun sig h => ?_⟩
      cases h
      unfold Allowed
      rw [hworks.mask p]
      cases hpending : firstPending (w.sys.sig p).pending with
      | none =>
        intro hmember
        exact absurd (sigismember_lt hmember).1 (by simp)
      | some sig => exact hfirst sig hpending
    · next hrun =>
      have hworks := (ends_of_error hrun).mp hcheck
      exact ⟨hworks, hstopped.setPlace (fun q _ => hworks.mask q) nofun⟩
  · exact ⟨works_fresh, hstopped.of_mask fun _ => rfl⟩

/-- The end of `stop_handler`. -/
lemma stopEnd_spec :
    Respects procAddr w (.stopEnd p) ∧ StoppedWell (happen procAddr w (.stopEnd p)) := by
  refine respects_of_works ?_
  simp only [happen]
  split
  · next sig hplace =>
    have hact : Works w.fresh (w.fresh.act p sig) := .of_act (hstopped p sig hplace)
    have hclear : Does (clearPending p sig) (w.fresh.act p sig) :=
      does_clearPending List.mem_cons_self
    have hworks := hact.trans hclear.stateOf
    exact ⟨hworks, hstopped.setPlace (fun q _ => hworks.mask q) nofun⟩
  · exact ⟨works_fresh, hstopped.of_mask fun _ => rfl⟩

/-- Every event that is clear honours the masks, case by case. -/
lemma happen_spec (hclear : Clear procAddr w e) :
    Respects procAddr w e ∧ StoppedWell (happen procAddr w e) := by
  cases e with
  | sigprocmask p how set => exact respects_of_own rfl (own_spec (fun _ => rfl) hstopped)
  | sigaction p sig act =>
    refine respects_of_own rfl (own_spec (fun g => ?_) hstopped)
    unfold sigaction
    split
    · rfl
    · cases act <;> rfl
  | sigsuspend | suspendEnd =>
    refine respects_of_own rfl ?_
    simp only [happen]
    split
    · exact setPlace_spec rfl (fun _ => by simp) hstopped
    · exact ⟨rfl, fun _ => rfl, hstopped.of_mask fun _ => rfl⟩
  | kill p pid sig => exact kill_spec hstopped hclear
  | trapReturn p => exact trapReturn_spec hstopped hclear
  | stopEnd p => exact stopEnd_spec hstopped
  | other table tf mem writable =>
    exact respects_of_own rfl ⟨rfl, fun _ => rfl, hstopped.of_mask fun _ => rfl⟩

end

/-- **Blocked signals wait.** From a state in which no process is stopped, along every run in which
`send_signal` and `check_pending_signal` act on no signal that its process blocks, every event
honours the masks: a blocked signal does nothing but become pending and stays pending, and no
pending signal is discarded without having acted. -/
theorem blocked_signals_wait (hstart : ∀ p sig, w.place p ≠ .stopped sig) {es : List Event}
    (hclear : RunOk (happen procAddr) (Clear procAddr) w es) :
    RunOk (happen procAddr) (Respects procAddr) w es := by
  have hstopped : StoppedWell w := fun p sig h => absurd h (hstart p sig)
  exact hclear.imp (fun _ _ h hc => (happen_spec h hc).2) (fun _ _ h hc => (happen_spec h hc).1)
    hstopped

/-! ## A signal that is sent to a process that blocks it -/

/-- Process 0, with the number 1, and its child 2 run on two CPUs. -/
def twoProcesses : World := ⟨⟨forkedSys, fun _ => freshSig, [], []⟩, fun _ => .user⟩

/-- `SIGUSR1`, the signal 10, as a set. -/
def usr1 : BitVec 64 := sigaddset 0 10

/-- Process 0 blocks `SIGUSR1`, its child sends it. -/
def sendBlocked : List Event := [.sigprocmask 0 0 (some usr1), .kill 2 1 10]

/-- The theorem for a signal that is unblocked and given a handler before it is looked at. -/
theorem blocked_signals_wait_usr1 : RunOk (happen id) (Respects id) twoProcesses
      (sendBlocked ++ [.sigprocmask 0 1 (some usr1), .sigaction 0 10 (some ⟨0x400080, 0, 0, 0⟩),
        .trapReturn 0]) :=
  blocked_signals_wait (fun _ _ => by simp [twoProcesses]) (by decide +kernel)

/-- **A blocked signal terminates a process.** `SIGUSR1` is in the mask of process 0 when it returns
from a trap; it is taken from the pending signals and the process is killed. -/
theorem blocked_signal_terminates : let w := sendBlocked.foldl (happen id) twoProcesses
    let w' := happen id w (.trapReturn 0)
    sigismember (w.sys.sig 0).mask 10 = true ∧ sigismember (w.sys.sig 0).pending 10 = true ∧
      (w.sys.sig 0).killed = false ∧ sigismember (w'.sys.sig 0).mask 10 = true ∧
      sigismember (w'.sys.sig 0).pending 10 = false ∧ (w'.sys.sig 0).killed = true := by
  decide +kernel

end runs

end RpiOs.Signal
