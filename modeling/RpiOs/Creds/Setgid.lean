import RpiOs.Creds.State
import RpiOs.Lib.Run

/-!
# Which group ids an unprivileged process can reach

The four group-id calls. Unlike the user-id calls they leave the capability sets alone, so a process
without `CAP_SETGID` stays without it and the statement needs no condition on the arguments.

* `unprivileged_setxgid_keeps_gids`: no run of such calls reaches a group id that was not held.
-/

namespace RpiOs.Creds

open Lib

/-! ## The group-id calls -/

/-- Bit number of the capability that allows arbitrary group ids. -/
def capSetgid : Nat := 6

/-- `setgid(gid)`. -/
def sysSetgid (p : Cred) (gid : Id) : Int × Cred :=
  if p.capable capSetgid then
    (0, { p with gid := gid, egid := gid, sgid := gid })
  else if gid = p.gid ∨ gid = p.sgid then
    (0, { p with egid := gid })
  else
    (-eperm, p)

/-- `setregid(rgid, egid)`. The file-system id follows the effective one even if neither is given.
-/
def sysSetregid (p : Cred) (rgid egid : Id) : Int × Cred :=
  if rgid ≠ noId ∧ ¬ (p.gid = rgid ∨ p.egid = rgid ∨ p.capable capSetgid) then
    (-eperm, p)
  else if egid ≠ noId ∧ ¬ (p.gid = egid ∨ p.egid = egid ∨ p.sgid = egid
      ∨ p.capable capSetgid) then
    (-eperm, p)
  else
    let newRgid := if rgid ≠ noId then rgid else p.gid
    let newEgid := if egid ≠ noId then egid else p.egid
    let q := if rgid ≠ noId ∨ (egid ≠ noId ∧ egid ≠ p.gid) then { p with sgid := newEgid } else p
    (0, { q with fsgid := newEgid, egid := newEgid, gid := newRgid })

/-- A group id argument that is neither absent nor one of real, effective and saved id.
Source: `sys_setresgid`, the three refusals -/
def Cred.foreignGid (p : Cred) (id : Id) : Prop :=
  id ≠ noId ∧ id ≠ p.gid ∧ id ≠ p.egid ∧ id ≠ p.sgid

instance (p : Cred) (id : Id) : Decidable (p.foreignGid id) := by
  unfold Cred.foreignGid; infer_instance

/-- `setresgid(rgid, egid, sgid)`. The file-system id moves only when `egid` is given. -/
def sysSetresgid (p : Cred) (rgid egid sgid : Id) : Int × Cred :=
  if ¬ p.capable capSetgid ∧ (p.foreignGid rgid ∨ p.foreignGid egid ∨ p.foreignGid sgid) then
    (-eperm, p)
  else
    let q := if egid ≠ noId then { p with egid := egid, fsgid := egid } else p
    let q := if rgid ≠ noId then { q with gid := rgid } else q
    let q := if sgid ≠ noId then { q with sgid := sgid } else q
    (0, q)

/-- `setfsgid(fsgid)`: returns the old id whether or not the new one was taken. -/
def sysSetfsgid (p : Cred) (fsgid : Id) : Int × Cred :=
  if fsgid = p.gid ∨ fsgid = p.egid ∨ fsgid = p.sgid ∨ fsgid = p.fsgid
      ∨ p.capable capSetgid then
    (p.fsgid.toNat, { p with fsgid := fsgid })
  else
    (p.fsgid.toNat, p)

/-- One of the four group-id calls with its arguments. Source: `kern/syscall.c`. -/
inductive SetxgidCall where
  | setgid (gid : Id)
  | setregid (rgid egid : Id)
  | setresgid (rgid egid sgid : Id)
  | setfsgid (fsgid : Id)
  deriving DecidableEq, Repr

/-- The return value and the credentials after the call. Source: `kern/syscall.c`. -/
def SetxgidCall.exec (p : Cred) : SetxgidCall → Int × Cred
  | .setgid gid => sysSetgid p gid
  | .setregid rgid egid => sysSetregid p rgid egid
  | .setresgid rgid egid sgid => sysSetresgid p rgid egid sgid
  | .setfsgid fsgid => sysSetfsgid p fsgid

/-- The credentials after one call. -/
def setxgidStep (p : Cred) (c : SetxgidCall) : Cred := (c.exec p).2

/-! ## What a call can do

Every call writes group ids and nothing else. `withGids` names such a write, and `GidsKept` says
that the ids written were held before. -/

/-- The four group ids replaced. -/
def Cred.withGids (p : Cred) (gid egid sgid fsgid : Id) : Cred :=
  { p with gid := gid, egid := egid, sgid := sgid, fsgid := fsgid }

/-- The four group ids a process holds. -/
def Cred.gids (p : Cred) : List Id := [p.gid, p.egid, p.sgid, p.fsgid]

@[simp] lemma Cred.mem_gids (p : Cred) (id : Id) :
    id ∈ p.gids ↔ id = p.gid ∨ id = p.egid ∨ id = p.sgid ∨ id = p.fsgid := by
  simp [Cred.gids]

/-- Nothing but group ids changed, and each is one held before. -/
def GidsKept (p q : Cred) : Prop :=
  ∃ g ∈ p.gids, ∃ e ∈ p.gids, ∃ s ∈ p.gids, ∃ f ∈ p.gids, q = p.withGids g e s f

lemma GidsKept.refl (p : Cred) : GidsKept p p :=
  ⟨p.gid, by simp, p.egid, by simp, p.sgid, by simp,
    p.fsgid, by simp, rfl⟩

lemma GidsKept.gids_subset {p q : Cred} (h : GidsKept p q) : ∀ id ∈ q.gids, id ∈ p.gids := by
  obtain ⟨g, hg, e, he, s, hs, f, hf, rfl⟩ := h
  intro id hid
  rcases (Cred.mem_gids _ id).mp hid with rfl | rfl | rfl | rfl
  · exact hg
  · exact he
  · exact hs
  · exact hf

lemma GidsKept.trans {p q r : Cred} (hpq : GidsKept p q) (hqr : GidsKept q r) : GidsKept p r := by
  have hsub := hpq.gids_subset
  obtain ⟨g, hg, e, he, s, hs, f, hf, rfl⟩ := hqr
  obtain ⟨_, _, _, _, _, _, _, _, rfl⟩ := hpq
  exact ⟨g, hsub g hg, e, hsub e he, s, hsub s hs, f, hsub f hf, rfl⟩

lemma GidsKept.capable {p q : Cred} (h : GidsKept p q) (cap : Nat) :
    q.capable cap = p.capable cap := by
  obtain ⟨-, -, -, -, -, -, -, -, rfl⟩ := h
  rfl

/-! ## One call -/

/-- An argument that stands for "leave it", or one of the held ids, puts a held id in the field. -/
lemma given_mem {ids : List Id} {id old : Id} (hold : old ∈ ids) (hid : id ≠ noId → id ∈ ids) :
    (if id ≠ noId then id else old) ∈ ids := by
  split_ifs with h
  · exact hid h
  · exact hold

section one

variable {p : Cred} (hp : p.capable capSetgid = false)

include hp

/-- Without the capability `setgid` takes one of the ids there are. -/
lemma sysSetgid_gidsKept (gid : Id) : GidsKept p (sysSetgid p gid).2 := by
  unfold sysSetgid
  rw [if_neg (by simp [hp])]
  split_ifs with h
  · have hgid : gid ∈ p.gids := by
      rw [Cred.mem_gids]
      exact h.imp_right fun hs => .inr (.inl hs)
    exact ⟨p.gid, by simp, gid, hgid, p.sgid, by simp,
      p.fsgid, by simp, rfl⟩
  · exact GidsKept.refl p

/-- So does `setregid`, for both ids. -/
lemma sysSetregid_gidsKept (rgid egid : Id) : GidsKept p (sysSetregid p rgid egid).2 := by
  by_cases hr : rgid ≠ noId ∧ ¬ (p.gid = rgid ∨ p.egid = rgid ∨ p.capable capSetgid)
  · rw [sysSetregid, if_pos hr]
    exact GidsKept.refl p
  by_cases he : egid ≠ noId ∧ ¬ (p.gid = egid ∨ p.egid = egid ∨ p.sgid = egid
      ∨ p.capable capSetgid)
  · rw [sysSetregid, if_neg hr, if_pos he]
    exact GidsKept.refl p
  -- past the refusals each given id is one of those its test names
  have hrgid : (if rgid ≠ noId then rgid else p.gid) ∈ p.gids := by
    refine given_mem (by simp) fun hne => (p.mem_gids rgid).mpr ?_
    grind
  have hegid : (if egid ≠ noId then egid else p.egid) ∈ p.gids := by
    refine given_mem (by simp) fun hne => (p.mem_gids egid).mpr ?_
    grind
  rw [sysSetregid, if_neg hr, if_neg he]
  by_cases hs : rgid ≠ noId ∨ (egid ≠ noId ∧ egid ≠ p.gid)
  · simp only [if_pos hs]
    exact ⟨_, hrgid, _, hegid, _, hegid, _, hegid, rfl⟩
  · simp only [if_neg hs]
    exact ⟨_, hrgid, _, hegid, p.sgid, by simp, _, hegid, rfl⟩

/-- So does `setresgid`, for all three. -/
lemma sysSetresgid_gidsKept (rgid egid sgid : Id) :
    GidsKept p (sysSetresgid p rgid egid sgid).2 := by
  by_cases hf : p.foreignGid rgid ∨ p.foreignGid egid ∨ p.foreignGid sgid
  · rw [sysSetresgid, if_pos ⟨by simp [hp], hf⟩]
    exact GidsKept.refl p
  have hmem : ∀ {id : Id}, ¬ p.foreignGid id → id ≠ noId → id ∈ p.gids := by
    intro id hid hne
    rw [Cred.mem_gids]
    unfold Cred.foreignGid at hid
    grind
  push Not at hf
  obtain ⟨hr, he, hs⟩ := hf
  rw [sysSetresgid, if_neg fun h => by simp [hr, he, hs] at h]
  have hgiven : ∀ {id old : Id}, ¬ p.foreignGid id → old ∈ p.gids →
      (if id ≠ noId then id else old) ∈ p.gids := fun hid hold => given_mem hold (hmem hid)
  refine ⟨if rgid ≠ noId then rgid else p.gid, hgiven hr (by simp),
    if egid ≠ noId then egid else p.egid, hgiven he (by simp),
    if sgid ≠ noId then sgid else p.sgid, hgiven hs (by simp),
    if egid ≠ noId then egid else p.fsgid, hgiven he (by simp), ?_⟩
  dsimp only
  split_ifs <;> rfl

lemma sysSetfsgid_gidsKept (fsgid : Id) : GidsKept p (sysSetfsgid p fsgid).2 := by
  unfold sysSetfsgid
  split_ifs with h
  · have hmem : fsgid ∈ p.gids := by
      rw [Cred.mem_gids]
      simpa [hp] using h
    exact ⟨p.gid, by simp, p.egid, by simp, p.sgid, by simp,
      fsgid, hmem, rfl⟩
  · exact GidsKept.refl p

/-- One call without the capability. -/
theorem exec_gidsKept (c : SetxgidCall) : GidsKept p (c.exec p).2 := by
  cases c with
  | setgid gid => exact sysSetgid_gidsKept hp gid
  | setregid rgid egid => exact sysSetregid_gidsKept hp rgid egid
  | setresgid rgid egid sgid => exact sysSetresgid_gidsKept hp rgid egid sgid
  | setfsgid fsgid => exact sysSetfsgid_gidsKept hp fsgid

end one

/-- A refused call has not written anything: no test stands behind an assignment. -/
lemma exec_refused {p : Cred} {c : SetxgidCall} (h : (c.exec p).1 = -eperm) : (c.exec p).2 = p := by
  cases c with
  | setgid gid =>
    simp only [SetxgidCall.exec, sysSetgid] at h ⊢
    split_ifs at h ⊢ <;> first | rfl | cases h
  | setregid rgid egid =>
    simp only [SetxgidCall.exec, sysSetregid] at h ⊢
    split_ifs at h ⊢ <;> first | rfl | cases h
  | setresgid rgid egid sgid =>
    simp only [SetxgidCall.exec, sysSetresgid] at h ⊢
    split_ifs at h ⊢ <;> first | rfl | cases h
  | setfsgid fsgid =>
    -- this call never returns a negative value
    simp only [SetxgidCall.exec, sysSetfsgid, eperm] at h
    split_ifs at h <;> omega

/-! ## Runs of calls -/

/-- **No run of group-id calls by a process without `CAP_SETGID` reaches a group id it did not
hold.** Each call leaves every one of the four ids among those before it, a call that is refused
leaves them all, and along the whole run the ids stay among those of the start, with the capability
still missing. -/
theorem unprivileged_setxgid_keeps_gids (p : Cred) (hp : p.capable capSetgid = false) :
    (∀ c : SetxgidCall, (∀ id ∈ (c.exec p).2.gids, id ∈ p.gids) ∧
      ((c.exec p).1 = -eperm → (c.exec p).2 = p)) ∧
    ∀ cs : List SetxgidCall, RunAll setxgidStep
      (fun q => (∀ id ∈ q.gids, id ∈ p.gids) ∧ q.capable capSetgid = false) p cs := by
  constructor
  · intro c
    exact ⟨(exec_gidsKept hp c).gids_subset, exec_refused⟩
  intro cs
  have hrun : RunAll setxgidStep (GidsKept p) p cs := by
    refine runAll_of_step ?_ (GidsKept.refl p) cs
    intro q c hq
    exact hq.trans (exec_gidsKept ((hq.capable capSetgid).trans hp) c)
  refine hrun.mono fun q hq => ?_
  exact ⟨hq.gids_subset, (hq.capable capSetgid).trans hp⟩

/-- A member of group 100 with a saved group 50, and no capability. -/
def groupMember : Cred :=
  { userInit with
    gid := 100, egid := 100, sgid := 50, fsgid := 100
    capEffective := 0, capInheritable := 0, capPermitted := 0 }

/-- The hypothesis holds for such a member, whose first two calls are accepted and change ids, while
the third is refused. -/
theorem groupMember_setxgid : groupMember.capable capSetgid = false ∧
      ((SetxgidCall.setgid 50).exec groupMember).1 = 0 ∧
      ((SetxgidCall.setgid 7).exec groupMember).1 = -eperm ∧
      RunAll setxgidStep
        (fun q => (∀ id ∈ q.gids, id ∈ groupMember.gids) ∧ q.capable capSetgid = false)
        groupMember [.setgid 50, .setregid 50 noId, .setgid 7] :=
  ⟨by decide, by decide, by decide,
    (unprivileged_setxgid_keeps_gids groupMember (by decide)).2 _⟩

end RpiOs.Creds
