import RpiOs.Creds.State
import RpiOs.Lib.Run

/-!
# Which ids an unprivileged process can reach

A process without `CAP_SETUID` in its effective set should only shuffle the ids it already holds.

* `unprivileged_setxuid_keeps_ids_iff`: of the four calls, `setreuid`, `setresuid` and `setfsuid` do
  so for every argument; `setuid(u)` does so exactly when `u` is an id already held, because the
  refusal for foreign ids is only reachable in the branch of a capable caller.
-/

namespace RpiOs.Creds

open Lib

/-! ## What an accepted call does

Each of the three calls that go through `capEmulateSetxuid` either refuses and leaves `p`, or writes
the four ids and adjusts the capability sets: `setIds`. -/

@[simp] lemma capEmulateSetxuid_ids (r e s : Id) (p : Cred) :
    (capEmulateSetxuid r e s p).uid = p.uid ∧ (capEmulateSetxuid r e s p).euid = p.euid ∧
      (capEmulateSetxuid r e s p).suid = p.suid ∧ (capEmulateSetxuid r e s p).fsuid = p.fsuid := by
  unfold capEmulateSetxuid
  dsimp only
  split_ifs <;> exact ⟨rfl, rfl, rfl, rfl⟩

/-- Write the four ids, then adjust the capability sets. -/
def setIds (p : Cred) (uid euid suid fsuid : Id) : Cred :=
  capEmulateSetxuid p.uid p.euid p.suid
    { p with uid := uid, euid := euid, suid := suid, fsuid := fsuid }

section accepted

variable {p : Cred} {ruid euid suid : Id}

lemma sysSetuid_of_not_capable (hp : p.capable capSetuid = false) (uid : Id) :
    sysSetuid p uid = (0, setIds p p.uid uid p.suid uid) := by
  simp [sysSetuid, setuidTail, setIds, hp]

lemma sysSetuid_of_capable (hp : p.capable capSetuid = true) (uid : Id) :
    sysSetuid p uid = (0, setIds p uid uid (if uid = p.uid then p.suid else uid) uid) := by
  by_cases h : uid = p.uid
  · simp [sysSetuid, setuidTail, setIds, hp, h]
  · simp [sysSetuid, setuidTail, setIds, hp, h]

/-- The ids after a `setreuid` that passes both tests. -/
lemma sysSetreuid_accepted
    (hr : ¬ (ruid ≠ noId ∧ p.uid ≠ ruid ∧ p.euid ≠ ruid ∧ ¬ p.capable capSetuid))
    (he : ¬ (euid ≠ noId ∧ p.euid ≠ euid ∧ p.suid ≠ euid ∧ ¬ p.capable capSetuid)) :
    sysSetreuid p ruid euid = (0, setIds p (if ruid = noId then p.uid else ruid)
      (if euid = noId then p.euid else euid)
      (if ruid ≠ noId ∨ (euid ≠ noId ∧ euid ≠ p.uid) then
        (if euid = noId then p.euid else euid) else p.suid)
      (if euid = noId then p.euid else euid)) := by
  rw [sysSetreuid, if_neg hr, if_neg he, setIds]
  simp only [ne_eq, ite_not]
  congr 2
  -- both sides are `p` with the four ids replaced; compare them branch by branch
  split_ifs <;> simp_all

lemma sysSetresuid_accepted
    (h : ¬ (¬ p.capable capSetuid ∧ (p.foreign ruid ∨ p.foreign euid ∨ p.foreign suid))) :
    sysSetresuid p ruid euid suid = (0, setIds p (if ruid = noId then p.uid else ruid)
      (if euid = noId then p.euid else euid) (if suid = noId then p.suid else suid)
      (if euid = noId then p.fsuid else euid)) := by
  rw [sysSetresuid, if_neg h, setIds]
  simp only [ne_eq, ite_not]
  congr 2
  split_ifs <;> rfl

/-- A call that is refused changes nothing, and one that is not writes the ids. -/
lemma sysSetreuid_either {P : Cred → Prop} (hp : P p) (hset : ∀ s, P (setIds p
      (if ruid = noId then p.uid else ruid) (if euid = noId then p.euid else euid) s
      (if euid = noId then p.euid else euid))) : P (sysSetreuid p ruid euid).2 := by
  by_cases hr : ruid ≠ noId ∧ p.uid ≠ ruid ∧ p.euid ≠ ruid ∧ ¬ p.capable capSetuid
  · rwa [sysSetreuid, if_pos hr]
  by_cases he : euid ≠ noId ∧ p.euid ≠ euid ∧ p.suid ≠ euid ∧ ¬ p.capable capSetuid
  · rwa [sysSetreuid, if_neg hr, if_pos he]
  rw [sysSetreuid_accepted hr he]
  exact hset _

lemma sysSetresuid_either {P : Cred → Prop} (hp : P p) (hset : P (setIds p
      (if ruid = noId then p.uid else ruid) (if euid = noId then p.euid else euid)
      (if suid = noId then p.suid else suid) (if euid = noId then p.fsuid else euid))) :
    P (sysSetresuid p ruid euid suid).2 := by
  by_cases h : ¬ p.capable capSetuid ∧ (p.foreign ruid ∨ p.foreign euid ∨ p.foreign suid)
  · rwa [sysSetresuid, if_pos h]
  rwa [sysSetresuid_accepted h]

end accepted

/-! ## Held ids -/

/-- The four user ids a process holds. -/
def Cred.ids (p : Cred) : List Id := [p.uid, p.euid, p.suid, p.fsuid]

/-- Every id after is one of the ids before. -/
def IdsKept (p q : Cred) : Prop := ∀ id ∈ q.ids, id ∈ p.ids

lemma IdsKept.refl (p : Cred) : IdsKept p p := fun _ h => h

lemma IdsKept.trans {p q r : Cred} (hpq : IdsKept p q) (hqr : IdsKept q r) : IdsKept p r :=
  fun id hid => hpq id (hqr id hid)

lemma idsKept_iff (p q : Cred) :
    IdsKept p q ↔ q.uid ∈ p.ids ∧ q.euid ∈ p.ids ∧ q.suid ∈ p.ids ∧ q.fsuid ∈ p.ids := by
  simp [IdsKept, Cred.ids]

lemma Cred.mem_ids (p : Cred) (id : Id) :
    id ∈ p.ids ↔ id = p.uid ∨ id = p.euid ∨ id = p.suid ∨ id = p.fsuid := by
  simp [Cred.ids]

lemma setIds_idsKept_iff (p : Cred) (u e s f : Id) :
    IdsKept p (setIds p u e s f) ↔ u ∈ p.ids ∧ e ∈ p.ids ∧ s ∈ p.ids ∧ f ∈ p.ids := by
  simp [idsKept_iff, setIds]

/-- A `setuid` argument is an id already held; the other calls are unrestricted. -/
def SetxuidCall.NamesHeldId (p : Cred) : SetxuidCall → Prop
  | .setuid uid => uid ∈ p.ids
  | .setreuid _ _ => True
  | .setresuid _ _ _ => True
  | .setfsuid _ => True

/-! ## One call -/

section one

variable {p : Cred} (hp : p.capable capSetuid = false)

include hp

/-- An unprivileged `setuid(u)` makes `u` the effective and file-system id, whatever `u` is. -/
lemma sysSetuid_idsKept_iff (uid : Id) : IdsKept p (sysSetuid p uid).2 ↔ uid ∈ p.ids := by
  rw [sysSetuid_of_not_capable hp, setIds_idsKept_iff]
  constructor
  · rintro ⟨-, h, -⟩
    exact h
  · intro h
    exact ⟨by simp [Cred.ids], h, by simp [Cred.ids], h⟩

/-- Without the capability `setreuid` takes the ids from those there are. -/
lemma sysSetreuid_idsKept (ruid euid : Id) : IdsKept p (sysSetreuid p ruid euid).2 := by
  by_cases hr : ruid ≠ noId ∧ p.uid ≠ ruid ∧ p.euid ≠ ruid
  · rw [sysSetreuid, if_pos (by simpa [hp] using hr)]
    exact IdsKept.refl p
  by_cases he : euid ≠ noId ∧ p.euid ≠ euid ∧ p.suid ≠ euid
  · rw [sysSetreuid, if_neg (by simpa [hp] using hr), if_pos (by simpa [hp] using he)]
    exact IdsKept.refl p
  -- past the refusals each given id is one of the two its test names
  rw [sysSetreuid_accepted (by simpa [hp] using hr) (by simpa [hp] using he), setIds_idsKept_iff]
  simp only [Cred.mem_ids]
  grind

lemma sysSetresuid_idsKept (ruid euid suid : Id) : IdsKept p (sysSetresuid p ruid euid suid).2 := by
  by_cases hf : p.foreign ruid ∨ p.foreign euid ∨ p.foreign suid
  · rw [sysSetresuid, if_pos ⟨by simp [hp], hf⟩]
    exact IdsKept.refl p
  rw [sysSetresuid_accepted (fun h => hf h.2), setIds_idsKept_iff]
  simp only [Cred.foreign] at hf
  simp only [Cred.mem_ids]
  grind

lemma sysSetfsuid_idsKept (fsuid : Id) : IdsKept p (sysSetfsuid p fsuid).2 := by
  rw [idsKept_iff]
  simp only [sysSetfsuid, hp, Cred.mem_ids]
  grind

/-- The condition for one call, exactly. -/
theorem exec_idsKept_iff (c : SetxuidCall) : IdsKept p (c.exec p).2 ↔ c.NamesHeldId p := by
  cases c with
  | setuid uid => exact sysSetuid_idsKept_iff hp uid
  | setreuid ruid euid => exact iff_of_true (sysSetreuid_idsKept hp ruid euid) trivial
  | setresuid ruid euid suid => exact iff_of_true (sysSetresuid_idsKept hp ruid euid suid) trivial
  | setfsuid fsuid => exact iff_of_true (sysSetfsuid_idsKept hp fsuid) trivial

end one

/-! ## Runs of calls -/

/-- The credentials after one call. -/
def setxuidStep (p : Cred) (c : SetxuidCall) : Cred := (c.exec p).2

/-- The effective and the permitted set both lack `CAP_SETUID`. -/
def Cred.LacksSetuid (p : Cred) : Prop :=
  p.capable capSetuid = false ∧ p.capPermitted &&& capToMask capSetuid = 0

lemma capable_eq_false_iff (p : Cred) (cap : Nat) :
    p.capable cap = false ↔ p.capEffective &&& capToMask cap = 0 := by
  simp [Cred.capable]

lemma lacksSetuid_of_sets {p q : Cred} (hp : p.LacksSetuid)
    (he : q.capEffective = p.capEffective ∨ q.capEffective = p.capPermitted ∨ q.capEffective = 0)
    (hq : q.capPermitted = p.capPermitted ∨ q.capPermitted = 0) : q.LacksSetuid := by
  obtain ⟨h1, h2⟩ := hp
  rw [capable_eq_false_iff] at h1
  refine ⟨?_, ?_⟩
  · rw [capable_eq_false_iff]
    rcases he with h | h | h <;> simp [h, h1, h2]
  · rcases hq with h | h <;> simp [h, h2]

variable {p : Cred}

lemma lacksSetuid_setIds (hp : p.LacksSetuid) (u e s f : Id) : (setIds p u e s f).LacksSetuid := by
  -- the adjustment takes the new sets from the old ones and the empty set
  refine lacksSetuid_of_sets hp ?_ ?_ <;> unfold setIds capEmulateSetxuid <;> dsimp only <;>
    split_ifs <;> simp

/-- `setfsuid` gives no `CAP_SETUID`. -/
lemma lacksSetuid_setfsuid (hp : p.LacksSetuid) (fsuid : Id) :
    (sysSetfsuid p fsuid).2.LacksSetuid := by
  obtain ⟨h1, h2⟩ := hp
  rw [capable_eq_false_iff] at h1
  -- `CAP_SETUID` is none of the bits that follow the file-system id
  have hdrop : p.capEffective &&& ~~~ capFsMask &&& capToMask capSetuid = 0 := by
    rw [BitVec.and_assoc, BitVec.and_comm (~~~ capFsMask), ← BitVec.and_assoc, h1]
    exact BitVec.zero_and
  have hgain : (p.capEffective ||| (p.capPermitted &&& capFsMask)) &&& capToMask capSetuid = 0 := by
    have hmask : capFsMask &&& capToMask capSetuid = 0 := by decide
    rw [BitVec.and_or_distrib_right, h1, BitVec.and_assoc, hmask]
    simp
  refine ⟨?_, ?_⟩
  · rw [capable_eq_false_iff]
    simp only [sysSetfsuid]
    split_ifs <;> simp_all
  · simp only [sysSetfsuid]
    split_ifs <;> exact h2

/-- A process without the capability in either set never gains it by these calls. -/
lemma lacksSetuid_exec (hp : p.LacksSetuid) (c : SetxuidCall) : (setxuidStep p c).LacksSetuid := by
  simp only [setxuidStep]
  cases c with
  | setuid uid =>
    rw [SetxuidCall.exec, sysSetuid_of_not_capable hp.1]
    exact lacksSetuid_setIds hp _ _ _ _
  | setreuid ruid euid =>
    exact sysSetreuid_either hp fun _ => lacksSetuid_setIds hp _ _ _ _
  | setresuid ruid euid suid =>
    exact sysSetresuid_either hp (lacksSetuid_setIds hp _ _ _ _)
  | setfsuid fsuid => exact lacksSetuid_setfsuid hp fsuid

/-- **Along a run of calls made without the capability, each naming only held ids, every id is one
of those held at the start.** -/
theorem idsKept_of_heldRun (p : Cred) (cs : List SetxuidCall)
    (h : RunOk setxuidStep (fun q c => q.capable capSetuid = false ∧ c.NamesHeldId q) p cs) :
    RunAll setxuidStep (IdsKept p) p cs := by
  refine RunOk.runAll ?_ (IdsKept.refl p) h
  rintro q c hq ⟨hcap, hc⟩
  exact hq.trans ((exec_idsKept_iff hcap c).mpr hc)

lemma idsKept_of_lacksRun (hp : p.LacksSetuid) (cs : List SetxuidCall)
    (h : RunOk setxuidStep (fun q c => c.NamesHeldId q) p cs) :
    RunAll setxuidStep (fun q => IdsKept p q ∧ q.LacksSetuid) p cs := by
  refine RunOk.runAll ?_ ⟨IdsKept.refl p, hp⟩ h
  rintro q c ⟨hq, hl⟩ hc
  exact ⟨hq.trans ((exec_idsKept_iff hl.1 c).mpr hc), lacksSetuid_exec hl c⟩

/-- **Unprivileged user-id calls.** One call without `CAP_SETUID` keeps the ids among those held iff
a `setuid` argument is one of them; so do runs of such calls; and a process that lacks the
capability in its permitted set as well stays without it, so that there the condition on the
arguments is enough. -/
theorem unprivileged_setxuid_keeps_ids_iff (p : Cred) :
    (p.capable capSetuid = false → ∀ c : SetxuidCall,
      (IdsKept p (c.exec p).2 ↔ c.NamesHeldId p)) ∧
    (∀ cs : List SetxuidCall,
      RunOk setxuidStep (fun q c => q.capable capSetuid = false ∧ c.NamesHeldId q) p cs →
        RunAll setxuidStep (IdsKept p) p cs) ∧
    (p.LacksSetuid → ∀ cs : List SetxuidCall, RunOk setxuidStep (fun q c => c.NamesHeldId q) p cs →
      RunAll setxuidStep (fun q => IdsKept p q ∧ q.LacksSetuid) p cs) :=
  ⟨fun hp c => exec_idsKept_iff hp c, idsKept_of_heldRun p,
    fun hp cs h => idsKept_of_lacksRun hp cs h⟩

/-- An ordinary user: every id 1000, no capability. -/
def ordinaryUser : Cred :=
  { userInit with
    uid := 1000, euid := 1000, suid := 1000, fsuid := 1000
    capEffective := 0, capInheritable := 0, capPermitted := 0 }

/-- The condition is met and the conclusion holds at an ordinary user that calls `setuid` with its
own id. -/
theorem ordinaryUser_setuid_own :
    ordinaryUser.capable capSetuid = false ∧ ordinaryUser.LacksSetuid ∧
      IdsKept ordinaryUser ((SetxuidCall.setuid 1000).exec ordinaryUser).2 ∧
      RunAll setxuidStep (IdsKept ordinaryUser) ordinaryUser [.setuid 1000, .setreuid 1000 5] := by
  refine ⟨by decide, ⟨by decide, by decide⟩, ?_, ?_⟩
  · exact ((unprivileged_setxuid_keeps_ids_iff ordinaryUser).1 (by decide) (.setuid 1000)).mpr
      (by simp [SetxuidCall.NamesHeldId, Cred.ids, ordinaryUser])
  · refine (unprivileged_setxuid_keeps_ids_iff ordinaryUser).2.1 _
      ⟨⟨by decide, ?_⟩, ⟨by decide, trivial⟩, trivial⟩
    simp [SetxuidCall.NamesHeldId, Cred.ids, ordinaryUser]

/-- **`setuid(0)` by an ordinary user succeeds**: it becomes the effective and file-system id. -/
theorem unprivileged_setuid_reaches_root : ordinaryUser.capable capSetuid = false ∧
      (SetxuidCall.setuid 0).exec ordinaryUser = (0, { ordinaryUser with euid := 0, fsuid := 0 }) ∧
      ¬ (∀ (p : Cred) (c : SetxuidCall), p.capable capSetuid = false →
        IdsKept p (c.exec p).2) := by
  refine ⟨by decide, by decide, fun h => ?_⟩
  have hroot := h ordinaryUser (.setuid 0) (by decide)
  rw [exec_idsKept_iff (by decide)] at hroot
  simp [SetxuidCall.NamesHeldId, Cred.ids, ordinaryUser] at hroot

end RpiOs.Creds
