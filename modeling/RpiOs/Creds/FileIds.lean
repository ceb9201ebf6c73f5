import RpiOs.Creds.Setgid
import RpiOs.Creds.Setuid

/-!
# Do the file-system ids follow the effective ids?

Permission checks read `fsuid` and `fsgid`. The six calls that set other ids move them along with
the effective ids, except `setgid`, which writes `egid` and not `fsgid`.

* `fsIds_follow_iff`: the runs of the calls that keep the two pairs equal.
-/

namespace RpiOs.Creds

open Lib

/-- `CAP_DAC_OVERRIDE`. -/
def capDacOverride : Nat := 1

/-- What `generic_permission` returns for the inode. -/
def genericPermission (p : Cred) (ip : ExecFile) (mask : BitVec 32) : Int :=
  let mode := if p.fsuid = ip.uid then ip.mode >>> 6
    else if p.fsgid = ip.gid then ip.mode >>> 3 else ip.mode
  if p.fsuid = 0 then 0
  else if mode &&& mask &&& 7 = mask then 0
  else if (mask &&& 6 ≠ 0 ∨ ip.mode &&& 0o111 ≠ 0) ∧ p.capable capDacOverride then 0
  else -13

/-- A call that sets ids, other than `setfsuid` and `setfsgid`. -/
inductive SetidCall where
  | setuid (uid : Id)
  | setreuid (ruid euid : Id)
  | setresuid (ruid euid suid : Id)
  | setgid (gid : Id)
  | setregid (rgid egid : Id)
  | setresgid (rgid egid sgid : Id)

/-- The credentials after a call. -/
def setidStep (p : Cred) : SetidCall → Cred
  | .setuid uid => (sysSetuid p uid).2
  | .setreuid ruid euid => (sysSetreuid p ruid euid).2
  | .setresuid ruid euid suid => (sysSetresuid p ruid euid suid).2
  | .setgid gid => (sysSetgid p gid).2
  | .setregid rgid egid => (sysSetregid p rgid egid).2
  | .setresgid rgid egid sgid => (sysSetresgid p rgid egid sgid).2

/-- The file-system ids are the effective ids. -/
def Cred.FsIdsFollow (p : Cred) : Prop := p.fsuid = p.euid ∧ p.fsgid = p.egid

/-- The process, checked with its effective ids. -/
def Cred.asEffective (p : Cred) : Cred := { p with fsuid := p.euid, fsgid := p.egid }

/-- A `setgid` that is accepted names the effective id. -/
def SetidCall.KeepsGroup (p : Cred) : SetidCall → Prop
  | .setgid gid => p.capable capSetgid = true ∨ gid = p.gid ∨ gid = p.sgid → gid = p.egid
  | _ => True

variable {p : Cred}

lemma Cred.FsIdsFollow.asEffective (h : p.FsIdsFollow) : p.asEffective = p := by
  obtain ⟨hu, hg⟩ := h
  cases p
  dsimp only at hu hg
  subst hu hg
  rfl

lemma setIds_follow (h : p.FsIdsFollow) (u e s : Id) : (setIds p u e s e).FsIdsFollow := by
  have hg := h.2
  unfold setIds capEmulateSetxuid Cred.FsIdsFollow
  dsimp only
  split_ifs <;> exact ⟨rfl, hg⟩

/-- `setgid` writes the effective id without the other. -/
lemma sysSetgid_follow_iff (h : p.FsIdsFollow) (gid : Id) :
    (sysSetgid p gid).2.FsIdsFollow ↔ (SetidCall.setgid gid).KeepsGroup p := by
  have hacc : ∀ q : Cred, q.fsuid = q.euid → q.fsgid = p.egid → q.egid = gid →
      (q.FsIdsFollow ↔ gid = p.egid) := by
    rintro q hu hf rfl
    exact ⟨fun hq => hq.2.symm.trans hf, fun heq => ⟨hu, hf.trans heq.symm⟩⟩
  unfold sysSetgid SetidCall.KeepsGroup
  split_ifs with hcap hheld
  · simpa [hcap] using hacc { p with gid := gid, egid := gid, sgid := gid } h.1 h.2 rfl
  · simpa [hcap, hheld] using hacc { p with egid := gid } h.1 h.2 rfl
  · simpa [hcap, hheld] using h

/-- One call. -/
lemma setidStep_follow_iff (h : p.FsIdsFollow) (c : SetidCall) :
    (setidStep p c).FsIdsFollow ↔ c.KeepsGroup p := by
  cases c with
  | setuid uid =>
    refine iff_of_true ?_ trivial
    show (sysSetuid p uid).2.FsIdsFollow
    cases hcap : p.capable capSetuid with
    | false =>
      rw [sysSetuid_of_not_capable hcap]
      exact setIds_follow h ..
    | true =>
      rw [sysSetuid_of_capable hcap]
      exact setIds_follow h ..
  | setreuid ruid euid =>
    exact iff_of_true (sysSetreuid_either h fun _ => setIds_follow h ..) trivial
  | setresuid ruid euid suid =>
    refine iff_of_true (sysSetresuid_either h ?_) trivial
    rw [h.1]
    exact setIds_follow h ..
  | setgid gid => exact sysSetgid_follow_iff h gid
  | setregid rgid egid =>
    refine iff_of_true ?_ trivial
    unfold setidStep sysSetregid
    dsimp only
    split_ifs <;> first | exact h | exact ⟨h.1, rfl⟩
  | setresgid rgid egid sgid =>
    refine iff_of_true ?_ trivial
    unfold setidStep sysSetresgid
    dsimp only
    split_ifs <;> first | exact h | exact ⟨h.1, rfl⟩

/-- **When the file-system ids follow.** From credentials in which they do, they do in every state
of a run exactly if each `setgid` is refused or names the effective id; and where they do, files are
checked against the effective ids. -/
theorem fsIds_follow_iff (p : Cred) (h : p.FsIdsFollow) (cs : List SetidCall) :
    (RunAll setidStep Cred.FsIdsFollow p cs ↔ RunOk setidStep (fun q c => c.KeepsGroup q) p cs) ∧
    (RunAll setidStep Cred.FsIdsFollow p cs → RunAll setidStep
      (fun q => ∀ ip mask, genericPermission q ip mask = genericPermission q.asEffective ip mask)
      p cs) := by
  refine ⟨runAll_iff_runOk (I := Cred.FsIdsFollow) (fun _ hq => hq) ?_ ?_ h,
    fun hrun => hrun.mono ?_⟩
  · exact fun q c hq => (setidStep_follow_iff hq c).mpr
  · exact fun q c hq hno hnext => hno ((setidStep_follow_iff hq c).mp hnext)
  · intro q hq ip mask
    rw [hq.asEffective]

/-- Root names its own group and becomes a user. -/
theorem fsIds_follow_user :
    RunAll setidStep Cred.FsIdsFollow userInit [.setgid 0, .setresuid 5 5 5] :=
  (fsIds_follow_iff userInit ⟨rfl, rfl⟩ _).1.mpr ⟨fun _ => rfl, trivial, trivial⟩

/-- **Root gives up both ids, and keeps group 0 for files**: a file that only group 0 may read is
readable after the run, and would not be with the effective ids. -/
theorem setgid_keeps_fsgid : userInit.FsIdsFollow ∧
    (let p := [SetidCall.setgid 5, .setuid 5].foldl setidStep userInit
     p.gid = 5 ∧ p.egid = 5 ∧ p.fsgid = 0 ∧ p.capEffective = 0 ∧
      genericPermission p ⟨0o640, 0, 0⟩ 4 = 0 ∧
        genericPermission p.asEffective ⟨0o640, 0, 0⟩ 4 = -13) :=
  ⟨⟨rfl, rfl⟩, by decide⟩

end RpiOs.Creds
