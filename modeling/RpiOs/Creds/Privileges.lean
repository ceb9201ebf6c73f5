import RpiOs.Creds.Setuid

/-!
# Are privileges really dropped?

The states of a process are those reached from `userInit` by forks, execs of files with any mode
and owner, and user-id calls. A process has *dropped* its privileges if its effective set is empty
whenever none of its four user ids is 0 (`Dropped`).

`execve` gives a set-uid program the owner's id as `fsuid` only and fills the effective set when
that id is 0, while `capEmulateSetxuid` empties the set only on a change that leaves the last zero
among real, effective and saved id, and `sysSetfsuid` takes away the `capFsMask` bits only. So
the one kind of state from which a call loses the property is `OnlyFsuidRoot`: `fsuid` is the only
zero id and the effective set is not empty. `dropped_along_run_iff` says exactly which runs keep it.
-/

namespace RpiOs.Creds

open Lib

/-! ## The system -/

/-- A step of a process's credentials. Source: `kern/syscall.c`. -/
inductive CredEvent where
  | fork
  | execve (checked : Bool) (f : ExecFile)
  | setxuid (c : SetxuidCall)
  deriving DecidableEq, Repr

/-- The credentials after a step (after `fork`, those of the child). -/
def credStep (p : Cred) : CredEvent → Cred
  | .fork => fork p
  | .execve checked f => execve checked f p
  | .setxuid c => setxuidStep p c

/-- No zero id, no effective capability. -/
def Dropped (p : Cred) : Prop :=
  p.uid ≠ 0 → p.euid ≠ 0 → p.suid ≠ 0 → p.fsuid ≠ 0 → p.capEffective = 0

/-- `fsuid` is the only zero id, and there are effective capabilities. -/
def Cred.OnlyFsuidRoot (p : Cred) : Prop :=
  p.uid ≠ 0 ∧ p.euid ≠ 0 ∧ p.suid ≠ 0 ∧ p.fsuid = 0 ∧ p.capEffective ≠ 0

/-- The arguments leave a zero id behind when `fsuid` is the only one before the call. -/
def SetxuidCall.LeavesZeroId : SetxuidCall → Prop
  | .setuid uid => uid = 0
  | .setreuid ruid euid => ruid = 0 ∨ euid = 0
  | .setresuid ruid euid suid => euid = noId ∨ euid = 0 ∨ ruid = 0 ∨ suid = 0
  | .setfsuid fsuid => fsuid = 0

/-- The condition on a step: a call made while `fsuid` is the only zero id leaves one. -/
def CredEvent.Safe (p : Cred) : CredEvent → Prop
  | .setxuid c => p.OnlyFsuidRoot → c.LeavesZeroId
  | _ => True

/-! ## The invariant -/

/-- With real, effective and saved id non-zero, effective capabilities only come from a set-uid-root
exec: `fsuid` is 0 and the set is full. -/
def CapsFromExec (p : Cred) : Prop :=
  p.uid ≠ 0 → p.euid ≠ 0 → p.suid ≠ 0 → p.capEffective ≠ 0 →
    p.fsuid = 0 ∧ p.capEffective = BitVec.allOnes 32

variable {p : Cred}

lemma CapsFromExec.dropped (h : CapsFromExec p) : Dropped p := by
  intro hu he hs hf
  by_contra hc
  exact hf (h hu he hs hc).1

lemma CapsFromExec.capable (h : CapsFromExec p) (hp : p.OnlyFsuidRoot) :
    p.capEffective = BitVec.allOnes 32 ∧ p.capable capSetuid = true := by
  obtain ⟨hu, he, hs, -, hc⟩ := hp
  have hall := (h hu he hs hc).2
  refine ⟨hall, ?_⟩
  rw [Cred.capable, hall]
  decide

/-- What the adjustment leaves when no id of the three is zero after the call: the effective set
survives only if none was zero before. -/
lemma capEmulateSetxuid_capEffective {r e s : Id} {q : Cred} (hu : q.uid ≠ 0) (he : q.euid ≠ 0)
    (hs : q.suid ≠ 0) :
    (capEmulateSetxuid r e s q).capEffective =
      if r ≠ 0 ∧ e ≠ 0 ∧ s ≠ 0 then q.capEffective else 0 := by
  simp only [capEmulateSetxuid]
  split_ifs <;> grind

/-- Writing the ids keeps the invariant as long as `fsuid` is not moved away from 0 in a state where
it is the only zero id. -/
lemma capsFromExec_setIds (hp : CapsFromExec p) {u e s f : Id}
    (hsafe : p.OnlyFsuidRoot → u ≠ 0 → e ≠ 0 → s ≠ 0 → f = 0) :
    CapsFromExec (setIds p u e s f) := by
  intro hu he hs hc
  simp only [setIds, capEmulateSetxuid_ids]
    at hu he hs
  rw [setIds, capEmulateSetxuid_capEffective hu he hs] at hc ⊢
  rw [(capEmulateSetxuid_ids ..).2.2.2]
  split_ifs at hc ⊢ with hold
  · obtain ⟨hu', he', hs'⟩ := hold
    obtain ⟨hf, hall⟩ := hp hu' he' hs' hc
    exact ⟨hsafe ⟨hu', he', hs', hf, hc⟩ hu he hs, hall⟩
  · exact absurd rfl hc

/-- From `OnlyFsuidRoot`, writing four non-zero ids loses the property: none of the adjustments
applies, so the effective set stays. -/
lemma not_dropped_setIds (hp : p.OnlyFsuidRoot) {u e s f : Id} (hu : u ≠ 0)
    (he : e ≠ 0) (hs : s ≠ 0) (hf : f ≠ 0) : ¬ Dropped (setIds p u e s f) := by
  obtain ⟨hu', he', hs', -, hc⟩ := hp
  intro h
  have hcap : (setIds p u e s f).capEffective = p.capEffective := by
    rw [setIds, capEmulateSetxuid_capEffective hu he hs, if_pos ⟨hu', he', hs'⟩]
  refine hc (hcap ▸ h ?_ ?_ ?_ ?_) <;> simpa [setIds]

/-! ## The four calls -/

section calls

variable {p : Cred} (hp : CapsFromExec p)

include hp

lemma capsFromExec_setuid (uid : Id) (hsafe : p.OnlyFsuidRoot → uid = 0) :
    CapsFromExec (sysSetuid p uid).2 := by
  cases hcap : p.capable capSetuid with
  | true =>
    rw [sysSetuid_of_capable hcap]
    exact capsFromExec_setIds hp fun h _ he _ => absurd (hsafe h) he
  | false =>
    rw [sysSetuid_of_not_capable hcap]
    exact capsFromExec_setIds hp fun h _ he _ => absurd (hsafe h) he

lemma capsFromExec_setreuid (ruid euid : Id) (hsafe : p.OnlyFsuidRoot → ruid = 0 ∨ euid = 0) :
    CapsFromExec (sysSetreuid p ruid euid).2 := by
  refine sysSetreuid_either hp fun _ => capsFromExec_setIds hp fun h hu0 he0 _ => ?_
  -- a zero argument is taken over, so one of the new ids is zero
  rcases hsafe h with h0 | h0
  · exact absurd (by simp [h0, noId]) hu0
  · exact absurd (by simp [h0, noId]) he0

lemma capsFromExec_setresuid (ruid euid suid : Id)
    (hsafe : p.OnlyFsuidRoot → euid = noId ∨ euid = 0 ∨ ruid = 0 ∨ suid = 0) :
    CapsFromExec (sysSetresuid p ruid euid suid).2 := by
  refine sysSetresuid_either hp (capsFromExec_setIds hp fun h hu0 he0 hs0 => ?_)
  rcases hsafe h with h0 | h0 | h0 | h0
  · simp [h0, h.2.2.2.1]
  · exact absurd (by simp [h0, noId]) he0
  · exact absurd (by simp [h0, noId]) hu0
  · exact absurd (by simp [h0, noId]) hs0

/-- `setfsuid` keeps the rule, unless it takes away the only zero id. -/
lemma capsFromExec_setfsuid (fsuid : Id) (hsafe : p.OnlyFsuidRoot → fsuid = 0) :
    CapsFromExec (sysSetfsuid p fsuid).2 := by
  intro hu he hs hc
  have hids : (sysSetfsuid p fsuid).2.uid = p.uid ∧ (sysSetfsuid p fsuid).2.euid = p.euid ∧
      (sysSetfsuid p fsuid).2.suid = p.suid := by
    simp only [sysSetfsuid]
    split_ifs <;> simp
  rw [hids.1] at hu
  rw [hids.2.1] at he
  rw [hids.2.2] at hs
  by_cases hce : p.capEffective = 0
  · -- without a capability and without a zero id the call cannot reach `fsuid = 0`
    have hcap : p.capable capSetuid = false := by simp [Cred.capable, hce]
    simp only [sysSetfsuid, hcap, hce] at hc ⊢
    grind
  obtain ⟨hf, hall⟩ := hp hu he hs hce
  have h0 := hsafe ⟨hu, he, hs, hf, hce⟩
  subst h0
  simp [sysSetfsuid, hf, hall]

/-- From the invariant, a call that fails the condition loses the property. -/
lemma not_dropped_of_not_safe (c : SetxuidCall) (honly : p.OnlyFsuidRoot)
    (hc : ¬ c.LeavesZeroId) : ¬ Dropped (setxuidStep p c) := by
  obtain ⟨hall, hcap⟩ := hp.capable honly
  obtain ⟨hu, he, hs, hf, -⟩ := id honly
  cases c with
  | setuid uid =>
    simp only [SetxuidCall.LeavesZeroId] at hc
    rw [setxuidStep, SetxuidCall.exec, sysSetuid_of_capable hcap]
    refine not_dropped_setIds honly hc hc ?_ hc
    split_ifs <;> assumption
  | setreuid ruid euid =>
    simp only [SetxuidCall.LeavesZeroId, not_or] at hc
    rw [setxuidStep, SetxuidCall.exec, sysSetreuid_accepted (by simp [hcap]) (by simp [hcap])]
    apply not_dropped_setIds honly <;> split_ifs <;> first | assumption | exact hc.1 | exact hc.2
  | setresuid ruid euid suid =>
    simp only [SetxuidCall.LeavesZeroId, not_or] at hc
    obtain ⟨he1, he0, hr0, hs0⟩ := hc
    rw [setxuidStep, SetxuidCall.exec, sysSetresuid_accepted (by simp [hcap])]
    apply not_dropped_setIds honly <;> split_ifs <;> assumption
  | setfsuid fsuid =>
    simp only [SetxuidCall.LeavesZeroId] at hc
    have hres : setxuidStep p (.setfsuid fsuid) =
        { p with fsuid := fsuid, capEffective := p.capEffective &&& ~~~ capFsMask } := by
      simp only [setxuidStep, SetxuidCall.exec, sysSetfsuid]
      grind
    rw [hres, hall]
    -- all but the `capFsMask` bits of the full set are still there
    have hne : BitVec.allOnes 32 &&& ~~~ capFsMask ≠ 0 := by decide
    exact fun h => hne (h hu he hs hc)

end calls

/-! ## Runs -/

lemma capsFromExec_execve (hp : CapsFromExec p) (checked : Bool) (f : ExecFile) :
    CapsFromExec (execve checked f p) := by
  cases checked with
  | false => exact hp
  | true =>
    intro hu he hs hc
    simp only [execve, flushOldExec] at hu he hs hc ⊢
    grind

/-- One call keeps the rule if it is safe. -/
lemma capsFromExec_step {ev : CredEvent} (hp : CapsFromExec p) (hsafe : ev.Safe p) :
    CapsFromExec (credStep p ev) := by
  cases ev with
  | fork => exact hp
  | execve checked f => exact capsFromExec_execve hp checked f
  | setxuid c =>
    cases c with
    | setuid uid => exact capsFromExec_setuid hp uid hsafe
    | setreuid ruid euid => exact capsFromExec_setreuid hp ruid euid hsafe
    | setresuid ruid euid suid => exact capsFromExec_setresuid hp ruid euid suid hsafe
    | setfsuid fsuid => exact capsFromExec_setfsuid hp fsuid hsafe

/-- **Which runs keep privileges dropped.** Along a run of forks, execs and user-id calls from the
first process, no state without a zero id has effective capabilities iff no user-id call moves the
last zero id away from `fsuid` while there are effective capabilities. -/
theorem dropped_along_run_iff (evs : List CredEvent) :
    RunAll credStep Dropped userInit evs ↔ RunOk credStep (fun p ev => ev.Safe p) userInit evs := by
  refine runAll_iff_runOk (I := CapsFromExec) (fun _ h => h.dropped)
    (fun _ _ h hs => capsFromExec_step h hs) ?_ ?_
  · intro p ev hp hns
    cases ev with
    | fork => exact absurd trivial hns
    | execve checked f => exact absurd trivial hns
    | setxuid c =>
      simp only [CredEvent.Safe, Classical.not_imp] at hns
      exact not_dropped_of_not_safe hp c hns.1 hns.2
  · intro hu
    exact absurd rfl hu

/-- The events of a login followed by a set-uid-root program that gives its id back. -/
def suidRootThenDrop : List CredEvent :=
  [.fork, .setxuid (.setresuid 1000 1000 1000), .execve true ⟨0o104755, 0, 0⟩,
    .setxuid (.setuid 1000)]

/-- **A set-uid-root program that drops its id keeps every capability**: after the run no id is 0
and the effective set is full. -/
theorem suidRootThenDrop_keeps_caps : (let p := suidRootThenDrop.foldl credStep userInit
     p.uid = 1000 ∧ p.euid = 1000 ∧ p.suid = 1000 ∧ p.fsuid = 1000 ∧
       p.capEffective = BitVec.allOnes 32) ∧
      ¬ (∀ evs : List CredEvent, RunAll credStep Dropped userInit evs) := by
  refine ⟨by decide, fun h => ?_⟩
  have hlast : Dropped (suidRootThenDrop.foldl credStep userInit) := (h suidRootThenDrop).last
  exact absurd (hlast (by decide) (by decide) (by decide) (by decide)) (by decide)

end RpiOs.Creds
