import RpiOs.Sched.Steps

/-!
# Runs of the scheduler

From boot, with any number of CPUs and any interleaving, every process has one place and no wakeup
is lost (`sched_que_and_wakeups`).
-/

namespace RpiOs.Sched

open Lib

/-! ## The first state -/

section boot

variable (k : Nat)

/-- The invariant holds for the empty table. -/
lemma procInit_inv : Inv (procInit none) ⟨[], fun _ => [], fun _ => []⟩ fun _ => .unused := by
  refine ⟨⟨fun n hn => ?_, fun n _ => ?_, fun n n' _ _ => ?_, fun n n' x _ _ hx => ?_⟩, fun p => ?_,
    by simp, by simp, by simp [procInit], ⟨by simp [procInit], by simp [procInit]⟩⟩
  · cases n with
    | schedQue => exact ⟨rfl, rfl⟩
    | slpque i => exact ⟨rfl, rfl⟩
    | child p => exact absurd rfl hn
    | _ => exact hn.elim
  · cases n <;> simp [View.nodes]
  · cases n <;> simp [View.nodes]
  · cases n <;> simp [View.nodes] at hx
  · refine ⟨by simp, by simp, rfl, rfl, fun c => ?_, fun c => ?_, fun c => ?_⟩ <;>
      simp [procInit]

/-- The roles at boot: process 0 is ready. -/
def bootRole : Nat → Role := Function.update (fun _ => .unused) 0 .ready

/-- The lists at boot. -/
def bootView : View := ⟨[0], fun _ => [], fun _ => []⟩

/-- The table after `user_init`: one process. -/
lemma boot_proc (ip : Option Nat) : (boot ip k).proc = Function.update (fun _ => Proc.zero) 0
    ⟨.embryo, 1, 1, none, 0, 0, k, 0, .forkret⟩ := by
  have hfind : findUnused (procInit ip) = some 0 := rfl
  unfold boot procAlloc
  rw [hfind]
  funext p
  by_cases hp : p = 0
  · subst hp
    rfl
  · simp [hp, clear, procInit]

lemma boot_live (ip : Option Nat) (p : Nat) : (boot ip k).live p = (bootRole p).live := by
  have hupd : (boot ip k).live p = Function.update (fun _ => false) 0 true p := rfl
  rw [hupd, bootRole]
  by_cases hp : p = 0
  · subst hp
    simp [Role.live]
  · simp [hp, Role.live]

lemma boot_rings (ip : Option Nat) : Rings (boot ip k).links (Head bootRole) bootView.nodes := by
  have hrings := (procInit_inv.alloc_rings (p := 0) (r := .ready) rfl).pushBack .schedQue (.link 0)
    trivial not_false fun n _ => by cases n <;> simp [View.nodes]
  refine hrings.congr (fun _ _ _ _ => ⟨rfl, rfl⟩) fun n _ => ?_
  cases n with
  | child p => by_cases hp : p = 0 <;> simp [View.nodes, bootView, hp]
  | _ => simp [View.nodes, bootView]

/-- The invariant holds at boot, with a null `initproc` or with the first process in its place. -/
lemma boot_inv {ip : Option Nat} (hip : ip = none ∨ ip = some 0) :
    Inv (boot ip k) bootView bootRole := by
  have hcpu : ∀ c, (boot ip k).cpu c = .off := fun _ => rfl
  refine ⟨boot_rings k ip, fun p => ?_, fun p hp => ?_, fun q p _ hp => ?_, fun x hx => ?_,
    ⟨fun c hc => ?_, fun c c' hc => ?_⟩⟩
  · by_cases hp : p = 0
    · subst hp
      refine ⟨by simp [bootRole, bootView], by simp [bootRole, bootView], ?_, rfl, fun c => ?_,
        fun c => ?_, fun c => ?_⟩
      · rw [boot_proc, Function.update_self]
        exact ⟨by simp, by simp, by simp⟩
      all_goals simp [hcpu, bootRole]
    have hr : bootRole p = .unused := by simp [bootRole, hp]
    rw [hr]
    refine ⟨by simp [bootView, hp], by simp [bootView], ?_, ?_, fun c => ?_, fun c => ?_,
      fun c => ?_⟩
    · rw [boot_proc, Function.update_of_ne hp]
      rfl
    · rw [boot_live, hr]
    all_goals simp [hcpu]
  · have : p = 0 := by
      by_contra hne
      simp [bootRole, hne] at hp
    rw [this]
    decide
  · simp [bootView] at hp
  · have hinit : (boot ip k).initproc = ip := rfl
    rw [hinit] at hx
    rcases hip with rfl | rfl
    · cases hx
    · cases hx
      rfl
  · simp [hcpu] at hc
  · simp [hcpu] at hc

lemma boot_plain (ip : Option Nat) : Plain (boot ip k) := by
  have hcpu : ∀ c, (boot ip k).cpu c = .off := fun _ => rfl
  refine ⟨by simp [hcpu], fun p => ?_, by simp [hcpu]⟩
  rw [boot_proc]
  by_cases hp : p = 0
  · rw [hp, Function.update_self]
    exact ⟨by simp, by simp⟩
  · rw [Function.update_of_ne hp]
    exact ⟨by simp [Proc.zero], by simp [Proc.zero]⟩

end boot

/-! ## One place -/

/-- **A process is in one place**: on one CPU, or once on the run queue, or once in the bucket of
its channel and sleeping. -/
inductive OnePlace (s : Sys) (p : Nat) : Prop
  | current (c : Nat) (on : (s.cpu c).proc = some p)
      (only : ∀ c', (s.cpu c').proc = some p → c' = c)
      (run : (s.queue .schedQue).count p = 0)
      (slp : ∀ i < sqsize, (s.queue (.slpque i)).count p = 0)
  | ready (off : ∀ c, (s.cpu c).proc ≠ some p) (run : (s.queue .schedQue).count p = 1)
      (slp : ∀ i < sqsize, (s.queue (.slpque i)).count p = 0)
  | asleep (off : ∀ c, (s.cpu c).proc ≠ some p) (run : (s.queue .schedQue).count p = 0)
      (state : (s.proc p).state = .sleeping)
      (bucket : (s.queue (.slpque (hash (s.proc p).chan))).count p = 1)
      (slp : ∀ i < sqsize, i ≠ hash (s.proc p).chan → (s.queue (.slpque i)).count p = 0)

section place

variable {s : Sys} {V : View} {ρ : Nat → Role} {p i : Nat}

lemma Inv.queue_eq (h : Inv s V ρ) {n : Node} (hn : Head ρ n) {xs : List Nat}
    (hxs : V.nodes n = xs.map .link) (hd : xs.Nodup) (hused : ∀ p ∈ xs, ρ p ≠ .unused)
    : s.queue n = xs := by
  have hlen : (V.nodes n).length ≤ nproc := by
    rw [hxs, List.length_map]
    exact length_le_nproc hd fun p hp => h.bound p (hused p hp)
  rw [Sys.queue, h.rings.collect n hn hlen, hxs, List.filterMap_map]
  exact List.filterMap_some

lemma Inv.queue_run (h : Inv s V ρ) : s.queue .schedQue = V.run :=
  h.queue_eq (n := .schedQue) trivial rfl h.nodup_run fun p hp => by simp [(h.entry p).run.mp hp]

lemma Inv.queue_slp (h : Inv s V ρ) (hi : i < sqsize) : s.queue (.slpque i) = V.slp i :=
  h.queue_eq (n := .slpque i) hi rfl (h.nodup_slp hi)
    fun p hp => by simp [((h.entry p).slp i hi).mp hp]

/-- The invariant gives every live process its one place. -/
lemma Inv.onePlace (h : Inv s V ρ) (hp : s.live p = true) : OnePlace s p := by
  have he := h.entry p
  have hrun : (s.queue .schedQue).count p = if ρ p = .ready then 1 else 0 := by
    rw [h.queue_run, h.nodup_run.count]
    simp only [he.run]
  have hslp : ∀ i < sqsize, (s.queue (.slpque i)).count p = if ρ p = .asleep i then 1 else 0 := by
    intro i hi
    rw [h.queue_slp hi, (h.nodup_slp hi).count]
    simp only [he.slp i hi]
  have hcpu : ∀ c, (s.cpu c).proc = some p → ρ p = .current c ∨ ρ p = .idle c := fun c hc =>
    (h.cpu_role hc).imp id And.right
  rw [he.live] at hp
  have hshows := he.shows
  cases hr : ρ p with
  | ready =>
    refine .ready (fun c hc => ?_) (by simp [hrun, hr]) fun i hi => by simp [hslp i hi, hr]
    simpa [hr] using hcpu c hc
  | asleep i =>
    rw [hr] at hshows
    obtain ⟨hst, rfl⟩ := hshows
    refine .asleep (fun c hc => ?_) (by simp [hrun, hr]) hst (by simp [hslp _ (hash_lt _), hr])
      fun i hi hne => ?_
    · simpa [hr] using hcpu c hc
    · simp [hslp i hi, hr, Ne.symm hne]
  | current c =>
    refine .current c (((he.current c).mpr hr).1) (fun c' hc => ?_) (by simp [hrun, hr])
      fun i hi => by simp [hslp i hi, hr]
    simpa [hr, eq_comm] using hcpu c' hc
  | _ => simp [hr, Role.live] at hp

end place

/-! ## Sleepers -/

/-- In `sleep(chan, …)`: the process has given up its lock and has not been woken up since. It may
still be on its CPU, with `ptable.lock` taken, or already in its bucket. -/
def Asleep (s : Sys) (p chan : Nat) : Prop :=
  (∃ c lk, s.cpu c = .handingOver p chan lk) ∨
    (p ∈ s.queue (.slpque (hash chan)) ∧ (s.proc p).chan = chan)

section runs

variable (procAddr : Nat → Nat) {s s' : Sys} {V : View} {ρ : Nat → Role} {p chan : Nat}
  {as : List (Nat × Action)}

/-- Some action of the run has moved the process from its bucket to the run queue. -/
def Moved (s : Sys) (as : List (Nat × Action)) (p chan : Nat) : Prop :=
  ∃ as₁ c a as₂ t t', as = as₁ ++ (c, a) :: as₂ ∧ run procAddr s as₁ = some t ∧
    step procAddr t c a = some t' ∧ p ∈ t.queue (.slpque (hash chan)) ∧ p ∈ t'.queue .schedQue

lemma Inv.asleep_iff (h : Inv s V ρ) : Asleep s p chan ↔ Sleeps s ρ p chan := by
  rw [Asleep, h.queue_slp (hash_lt chan), (h.entry p).slp _ (hash_lt chan)]
  rfl

lemma run_append (bs : List (Nat × Action)) :
    run procAddr s (as ++ bs) = (run procAddr s as).bind (run procAddr · bs) := by
  induction as generalizing s with
  | nil => rfl
  | cons x as ih => simp [run, ih, Option.bind_assoc]

section

variable (h : Inv s V ρ) (hpl : Plain s) (has : ∀ x ∈ as, x.2.plain)
  (hrun : run procAddr s as = some s')
include h hpl has hrun

/-- **The invariant along runs**. -/
theorem run_inv : ∃ V' ρ', Inv s' V' ρ' ∧ Plain s' := by
  induction as generalizing s V ρ with
  | nil =>
    cases hrun
    exact ⟨V, ρ, h, hpl⟩
  | cons x as ih =>
    obtain ⟨s1, hs1, hrest⟩ := Option.bind_eq_some_iff.mp hrun
    obtain ⟨V1, ρ1, hI, hpl1, -⟩ := step_spec procAddr h hpl (has x (by simp)) hs1
    exact ih hI hpl1 (fun y hy => has y (by simp [hy])) hrest

/-- **No sleeper is lost**: along a run it stays asleep, or is moved to the run queue. -/
theorem run_sleeps (hp : Asleep s p chan) :
    (∃ V' ρ', Inv s' V' ρ' ∧ Plain s' ∧ Asleep s' p chan) ∨ Moved procAddr s as p chan := by
  induction as generalizing s V ρ with
  | nil =>
    cases hrun
    exact .inl ⟨V, ρ, h, hpl, hp⟩
  | cons x as ih => ?_
  obtain ⟨s1, hs1, hrest⟩ := Option.bind_eq_some_iff.mp hrun
  obtain ⟨V1, ρ1, hI, hpl1, hkeep⟩ := step_spec procAddr h hpl (has x (by simp)) hs1
  rcases hkeep p chan (h.asleep_iff.mp hp) with hp1 | ⟨hold, hnew⟩
  · rcases ih hI hpl1 (fun y hy => has y (by simp [hy])) hrest (hI.asleep_iff.mpr hp1) with
      hgood | ⟨as₁, c, a, as₂, t, t', rfl, ht, hstep, hmem, hmem'⟩
    · exact .inl hgood
    · refine .inr ⟨x :: as₁, c, a, as₂, t, t', rfl, ?_, hstep, hmem, hmem'⟩
      exact Option.bind_eq_some_iff.mpr ⟨s1, hs1, ht⟩
  refine .inr ⟨[], x.1, x.2, as, s, s1, rfl, rfl, hs1, ?_, ?_⟩
  · rw [h.queue_slp (hash_lt chan), (h.entry p).slp _ (hash_lt chan)]
    exact hold
  · rw [hI.queue_run, (hI.entry p).run]
    exact hnew

end

/-- `wakeup` is made with `ptable.lock` free, so every sleeper of the channel is in its bucket, and
all of them go to the run queue. -/
lemma Inv.wakeup (h : Inv s V ρ) {c : Nat} (hs : step procAddr s c (.wakeup chan) = some s')
    (hp : Asleep s p chan) : p ∈ s.queue (.slpque (hash chan)) ∧ p ∈ s'.queue .schedQue := by
  cases hk : s.cpu c with
  | running q =>
    simp only [step, hk, Option.ite_none_left_eq_some] at hs
    obtain ⟨s1, V1, hs1, hI, -⟩ := wakeup1_spec h chan
    rw [hs1] at hs
    cases hs.2
    rcases hp with ⟨x, lk, hx⟩ | ⟨hmem, hchan⟩
    · exact absurd (h.holder.lock x (by rw [hx]; rfl)) hs.1
    refine ⟨hmem, ?_⟩
    rw [h.queue_slp (hash_lt chan), (h.entry p).slp _ (hash_lt chan)] at hmem
    rw [hI.queue_run, (hI.entry p).run, wokenRole, if_pos ⟨hmem, hchan⟩]
  | _ => simp [step, hk] at hs

/-- **Scheduling queues and wakeups**, for every interleaving from boot, with `wait4` of options 0.
Every live process is in exactly one place. And when `sleep(chan, lk)` has given up `lk` (`as₁`),
every later `wakeup(chan)` moves the sleeper to the run queue, unless an action in between has done
so. -/
theorem sched_que_and_wakeups {ip : Option Nat} (hip : ip = none ∨ ip = some 0) (kstack : Nat)
    (as : List (Nat × Action)) (has : ∀ x ∈ as, x.2.plain) :
    (∀ s, run procAddr (boot ip kstack) as = some s → ∀ p, s.live p = true → OnePlace s p) ∧
      ∀ as₁ as₂ c p chan s₁ s₂ s₃, as = as₁ ++ as₂ ++ [(c, .wakeup chan)] →
        run procAddr (boot ip kstack) as₁ = some s₁ → Asleep s₁ p chan →
        run procAddr s₁ as₂ = some s₂ → step procAddr s₂ c (.wakeup chan) = some s₃ →
        (p ∈ s₂.queue (.slpque (hash chan)) ∧ p ∈ s₃.queue .schedQue) ∨
          Moved procAddr s₁ as₂ p chan := by
  refine ⟨fun s hrun p hp => ?_, fun as₁ as₂ c p chan s₁ s₂ s₃ he h₁ hp h₂ h₃ => ?_⟩
  · obtain ⟨V, ρ, hI, -⟩ := run_inv procAddr (boot_inv kstack hip) (boot_plain kstack ip) has hrun
    exact hI.onePlace hp
  subst he
  obtain ⟨V, ρ, hI, hpl⟩ := run_inv procAddr (boot_inv kstack hip) (boot_plain kstack ip)
    (fun x hx => has x (by simp [hx])) h₁
  rcases run_sleeps procAddr hI hpl (fun x hx => has x (by simp [hx])) h₂ hp with
    ⟨V', ρ', hI', -, hp'⟩ | hmoved
  · exact .inl (hI'.wakeup procAddr h₃ hp')
  · exact .inr hmoved

lemma eq_some_getD {α : Type*} {o : Option α} (h : o.isSome) (d : α) : o = some (o.getD d) := by
  cases o with
  | none => simp at h
  | some x => rfl

/-- Process 0 gives up lock 7 in `sleep(64, 7)`; the child takes the lock and wakes it up. -/
def sleepRun : List (Nat × Action) :=
  forkedRun ++ [(0, .acquire 7), (0, .sleep 64 7)]

/-- The rest of it. -/
def wakeRun : List (Nat × Action) := [(0, .doze), (1, .acquire 7)]

/-- The state in which process 0 has given up the lock. -/
def sleepSys : Sys := (run id (boot none 1) sleepRun).getD (boot none 1)

/-- The state before the wakeup. -/
def dozeSys : Sys := (run id sleepSys wakeRun).getD sleepSys

/-- The state after it. -/
def wokenSys : Sys := (step id dozeSys 1 (.wakeup 64)).getD dozeSys

/-- The theorem at this run: the sleeper goes from bucket 64 to the run queue. -/
theorem sched_que_and_wakeups_sleep : OnePlace wokenSys 0 ∧ OnePlace wokenSys 2 ∧
      ((0 ∈ dozeSys.queue (.slpque (hash 64)) ∧ 0 ∈ wokenSys.queue .schedQue) ∨
        Moved id sleepSys wakeRun 0 64) := by
  have h₁ : run id (boot none 1) sleepRun = some sleepSys :=
    eq_some_getD (by decide +kernel) _
  have h₂ : run id sleepSys wakeRun = some dozeSys := eq_some_getD (by decide +kernel) _
  have h₃ : step id dozeSys 1 (.wakeup 64) = some wokenSys :=
    eq_some_getD (by decide +kernel) _
  have hall := sched_que_and_wakeups id (.inl rfl) 1 (sleepRun ++ wakeRun ++ [(1, .wakeup 64)])
    (by simp [sleepRun, wakeRun, forkedRun, Action.plain])
  have hrun : run id (boot none 1) (sleepRun ++ wakeRun ++ [(1, .wakeup 64)]) = some wokenSys := by
    rw [run_append, run_append, h₁, Option.bind_some, h₂, Option.bind_some]
    exact Option.bind_eq_some_iff.mpr ⟨wokenSys, h₃, rfl⟩
  refine ⟨hall.1 _ hrun 0 (by decide +kernel), hall.1 _ hrun 2 (by decide +kernel), ?_⟩
  exact hall.2 sleepRun wakeRun 1 0 64 sleepSys dozeSys wokenSys rfl h₁
    (.inl ⟨0, 7, by decide +kernel⟩) h₂ h₃

/-- One CPU at most holds `ptable.lock`, and what is on the lists and on the CPUs is alive. -/
structure Lively (s : Sys) : Prop where
  holder : OneHolder s
  run : ∀ p ∈ s.queue .schedQue, s.live p = true ∧ (s.proc p).state ≠ .sleeping
  slp : ∀ i < sqsize, ∀ p ∈ s.queue (.slpque i), s.live p = true ∧ (s.proc p).state = .sleeping
  cpu : ∀ c p, (s.cpu c).proc = some p → p ≠ s.idle c → s.live p = true ∧ (s.proc p).state ≠ .zombie

/-- **The scheduler runs no dead process**, for every interleaving from boot. -/
theorem scheduled_alive {ip : Option Nat} (hip : ip = none ∨ ip = some 0) (kstack : Nat)
    (has : ∀ x ∈ as, x.2.plain) (hrun : run procAddr (boot ip kstack) as = some s) : Lively s := by
  obtain ⟨V, ρ, h, -⟩ := run_inv procAddr (boot_inv kstack hip) (boot_plain kstack ip) has hrun
  -- an entry shows the state of its role
  have hrole : ∀ p r, ρ p = r → r.Shows (s.proc p) ∧ s.live p = r.live := fun p r hr =>
    hr ▸ ⟨(h.entry p).shows, (h.entry p).live⟩
  refine ⟨h.holder, fun p hp => ?_, fun i hi p hp => ?_, fun c p hp hne => ?_⟩
  · rw [h.queue_run, (h.entry p).run] at hp
    obtain ⟨hs, hl⟩ := hrole p _ hp
    exact ⟨hl, hs.2.2⟩
  · rw [h.queue_slp hi, (h.entry p).slp i hi] at hp
    obtain ⟨hs, hl⟩ := hrole p _ hp
    exact ⟨hl, hs.1⟩
  · obtain ⟨hs, hl⟩ := hrole p _ (((h.entry p).current c).mp ⟨hp, hne⟩)
    exact ⟨hl, hs.2⟩

/-- A system with a process that sleeps. -/
theorem scheduled_alive_sleep : Lively sleepSys :=
  scheduled_alive id (.inl rfl) 1 (by simp [sleepRun, forkedRun, Action.plain])
    (eq_some_getD (by decide +kernel : (run id (boot none 1) sleepRun).isSome) _)

end runs

end RpiOs.Sched
