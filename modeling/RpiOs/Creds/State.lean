import Mathlib
import RpiOs.Kernel.Shared

/-!
# Credentials: the ids and capability sets of a process, and the calls that change them

The part of `struct proc` that decides what a process may do, with every call that writes it.

`disb()` is a barrier without effect on these fields and is left out. An argument is what `argint`
stores: the register cut to 32 bits; `argint` fails only for an argument index above 5, which none
of the calls uses. An id argument of `(uid_t)-1` is `noId`.

Sources: `kern/sysproc.c`, `kern/exec.c`, `kern/proc.c`, `inc/proc.h`, `inc/linux/capability.h`.
-/

namespace RpiOs.Creds

/-! ## Ids and capability sets -/

/-- `uid_t` and `gid_t`. -/
abbrev Id := BitVec 32

/-- `kernel_cap_t`, one bit a capability. -/
abbrev KernelCap := BitVec 32

/-- `(uid_t)-1`, the argument that leaves an id alone. Source: `kern/sysproc.c`. -/
def noId : Id := BitVec.allOnes 32

/-- The bits `setfsuid` takes away and gives back. -/
def capFsMask : KernelCap := 0x1f

/-- Bit number of the capability that allows arbitrary user ids. -/
def capSetuid : Nat := 7

/-- Bit number of the capability left out of the first process's sets. -/
def capSetpcap : Nat := 8

/-- `CAP_TO_MASK`. -/
def capToMask (cap : Nat) : KernelCap := 1 <<< cap

/-- `CAP_INIT_EFF_SET`. -/
def capInitEffSet : KernelCap := BitVec.allOnes 32 &&& ~~~ capToMask capSetpcap

/-- The credentials of a process.
Source: `inc/proc.h` `struct proc` -/
structure Cred where
  /-- Real user id. -/
  uid : Id
  /-- Effective user id. -/
  euid : Id
  /-- Saved user id. -/
  suid : Id
  /-- The user id that file permission checks read. -/
  fsuid : Id
  /-- Real group id. -/
  gid : Id
  /-- Effective group id. -/
  egid : Id
  /-- Saved group id. -/
  sgid : Id
  /-- The group id that file permission checks read. -/
  fsgid : Id
  /-- The capabilities `capable` looks at. -/
  capEffective : KernelCap
  /-- The capabilities kept across exec (never read). -/
  capInheritable : KernelCap
  /-- The capabilities an effective id of 0 brings back. -/
  capPermitted : KernelCap
  deriving DecidableEq, Repr

/-- Does the effective set hold the capability? -/
def Cred.capable (p : Cred) (cap : Nat) : Bool :=
  p.capEffective &&& capToMask cap != 0

/-! ## The user-id calls -/

/-- Adjust the capability sets after the ids changed: dropping the last zero id among real,
effective and saved clears permitted and effective, leaving effective id 0 clears effective,
reaching it copies permitted back. `fsuid` is not looked at. -/
def capEmulateSetxuid (oldRuid oldEuid oldSuid : Id) (p : Cred) : Cred :=
  let p := if (oldRuid = 0 ∨ oldEuid = 0 ∨ oldSuid = 0) ∧ (p.uid ≠ 0 ∧ p.euid ≠ 0 ∧ p.suid ≠ 0)
    then { p with capPermitted := 0, capEffective := 0 } else p
  let p := if oldEuid = 0 ∧ p.euid ≠ 0 then { p with capEffective := 0 } else p
  if oldEuid ≠ 0 ∧ p.euid = 0 then { p with capEffective := p.capPermitted } else p

/-- The common end of `sys_setuid`: effective and file-system id become `uid`. -/
def setuidTail (old p : Cred) (uid newSuid : Id) : Int × Cred :=
  (0, capEmulateSetxuid old.uid old.euid old.suid
    { p with fsuid := uid, euid := uid, suid := newSuid })

/-- `setuid(uid)`. The refusal stands in the branch of the capable caller, where `uid` already
equals the real id; a caller without the capability goes straight on. -/
def sysSetuid (p : Cred) (uid : Id) : Int × Cred :=
  if p.capable capSetuid then
    if uid ≠ p.uid then
      setuidTail p { p with uid := uid } uid uid
    else if uid ≠ p.uid ∧ uid ≠ p.suid then
      (-eperm, p)
    else
      setuidTail p p uid p.suid
  else
    setuidTail p p uid p.suid

/-- `setreuid(ruid, euid)`. -/
def sysSetreuid (p : Cred) (ruid euid : Id) : Int × Cred :=
  if ruid ≠ noId ∧ p.uid ≠ ruid ∧ p.euid ≠ ruid ∧ ¬ p.capable capSetuid then
    (-eperm, p)
  else if euid ≠ noId ∧ p.euid ≠ euid ∧ p.suid ≠ euid ∧ ¬ p.capable capSetuid then
    (-eperm, p)
  else
    let newRuid := if ruid ≠ noId then ruid else p.uid
    let newEuid := if euid ≠ noId then euid else p.euid
    let q := if newRuid ≠ p.uid then { p with uid := ruid } else p
    let q := { q with fsuid := newEuid, euid := newEuid }
    let q := if ruid ≠ noId ∨ (euid ≠ noId ∧ euid ≠ p.uid) then { q with suid := q.euid } else q
    let q := { q with fsuid := q.euid }
    (0, capEmulateSetxuid p.uid p.euid p.suid q)

/-- An id argument that is neither absent nor one of real, effective and saved id.
Source: `sys_setresuid`, the three refusals -/
def Cred.foreign (p : Cred) (id : Id) : Prop :=
  id ≠ noId ∧ id ≠ p.uid ∧ id ≠ p.euid ∧ id ≠ p.suid

instance (p : Cred) (id : Id) : Decidable (p.foreign id) := by
  unfold Cred.foreign; infer_instance

/-- `setresuid(ruid, euid, suid)`. The file-system id moves only when `euid` is given. -/
def sysSetresuid (p : Cred) (ruid euid suid : Id) : Int × Cred :=
  if ¬ p.capable capSetuid ∧ (p.foreign ruid ∨ p.foreign euid ∨ p.foreign suid) then
    (-eperm, p)
  else
    let q := if ruid ≠ noId then { p with uid := ruid } else p
    let q := if euid ≠ noId then { q with euid := euid, fsuid := euid } else q
    let q := if suid ≠ noId then { q with suid := suid } else q
    (0, capEmulateSetxuid p.uid p.euid p.suid q)

/-- `setfsuid(fsuid)`: returns the old id whether or not the new one was taken. Only the `capFsMask`
bits of the effective set follow the id. -/
def sysSetfsuid (p : Cred) (fsuid : Id) : Int × Cred :=
  let q := if fsuid = p.uid ∨ fsuid = p.euid ∨ fsuid = p.suid ∨ fsuid = p.fsuid
      ∨ p.capable capSetuid then { p with fsuid := fsuid } else p
  let q := if p.fsuid = 0 ∧ q.fsuid ≠ 0 then
    { q with capEffective := q.capEffective &&& ~~~ capFsMask } else q
  let q := if p.fsuid ≠ 0 ∧ q.fsuid = 0 then
    { q with capEffective := q.capEffective ||| (q.capPermitted &&& capFsMask) } else q
  (p.fsuid.toNat, q)

/-- One of the four user-id calls with its arguments. Source: `kern/syscall.c`. -/
inductive SetxuidCall where
  | setuid (uid : Id)
  | setreuid (ruid euid : Id)
  | setresuid (ruid euid suid : Id)
  | setfsuid (fsuid : Id)
  deriving DecidableEq, Repr

/-- The return value and the credentials after the call. Source: `kern/syscall.c`. -/
def SetxuidCall.exec (p : Cred) : SetxuidCall → Int × Cred
  | .setuid uid => sysSetuid p uid
  | .setreuid ruid euid => sysSetreuid p ruid euid
  | .setresuid ruid euid suid => sysSetresuid p ruid euid suid
  | .setfsuid fsuid => sysSetfsuid p fsuid

/-! ## The other writers: the first process, fork and exec -/

/-- The first user process.
Source: `proc_initx`, `user_init` -/
def userInit : Cred where
  uid := 0
  euid := 0
  suid := 0
  fsuid := 0
  gid := 0
  egid := 0
  sgid := 0
  fsgid := 0
  capEffective := capInitEffSet
  capInheritable := capInitEffSet
  capPermitted := capInitEffSet

/-- The credentials a child starts with: every field copied. -/
def fork (cp : Cred) : Cred where
  uid := cp.uid
  euid := cp.euid
  suid := cp.suid
  fsuid := cp.fsuid
  gid := cp.gid
  egid := cp.egid
  sgid := cp.sgid
  fsgid := cp.fsgid
  capEffective := cp.capEffective
  capInheritable := cp.capInheritable
  capPermitted := cp.capPermitted

/-- The capability part of `flush_old_exec`. -/
def flushOldExec (p : Cred) : Cred :=
  let p := { p with capInheritable := 0, capPermitted := 0, capEffective := 0 }
  let p := if p.uid = 0 ∨ p.euid = 0 then
    { p with capInheritable := BitVec.allOnes 32, capPermitted := BitVec.allOnes 32 } else p
  if p.euid = 0 ∨ p.fsuid = 0 then { p with capEffective := BitVec.allOnes 32 } else p

/-- What `execve` reads of the inode it loads. -/
structure ExecFile where
  /-- `ip->mode`. -/
  mode : BitVec 32
  /-- `ip->uid`. -/
  uid : Id
  /-- `ip->gid`. -/
  gid : Id
  deriving DecidableEq, Repr

/-- `S_ISUID`. -/
def sIsuid : BitVec 32 := 0o4000

/-- `S_ISGID | S_IXGRP`. -/
def sIsgidIxgrp : BitVec 32 := 0o2010

/-- The credentials after `execve`. `checked` says whether the ELF header checks let the call
reach the set-id code: before it a failing call has written nothing, after it a call that still
fails keeps the new credentials.
Source: `execve` (Set-uid, Set-gid), `flush_old_exec` -/
def execve (checked : Bool) (f : ExecFile) (p : Cred) : Cred :=
  if checked then
    let p := if f.mode &&& sIsuid ≠ 0 ∧ p.uid ≠ 0 then { p with fsuid := f.uid }
      else { p with fsuid := p.uid }
    let p := if f.mode &&& sIsgidIxgrp = sIsgidIxgrp ∧ p.gid ≠ 0 then { p with fsgid := f.gid }
      else { p with fsgid := p.gid }
    flushOldExec p
  else
    p

end RpiOs.Creds
