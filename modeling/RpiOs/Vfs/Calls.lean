import RpiOs.Vfs.Inode

/-!
# The calls on files

`kern/file.c`, `create` of `kern/vfs.c` and the calls of `kern/sysfile.c` that take a path. Each
call stands with all its ways to return, in the order of the source: what is released, and what is
not, is the subject of the modules that follow.

* What `create` returns is negative as a `long`, an inode as well as an error; a caller that looks
  for 0 goes on with an error and faults, and one that looks for a negative value takes an inode for
  an error.
-/

namespace RpiOs.Vfs

open Lib Function

/-! ## Constants -/

/-- `MAY_EXEC`. -/
def mayExec : Nat := 1

/-- `MAY_WRITE`. -/
def mayWrite : Nat := 2

/-- `MAY_READ`. -/
def mayRead : Nat := 4

/-- `S_IFMT`. -/
def sIfmt : Nat := 0o170000

/-- `S_IFREG`. -/
def sIfreg : Nat := 0o100000

/-- `S_IFDIR`. -/
def sIfdir : Nat := 0o040000

/-- `S_IXUGO`. -/
def sIxugo : Nat := 0o111

/-- `NFILE`. -/
def nfile : Nat := 512

/-- `NOFILE`. -/
def nofile : Nat := 16

/-- `FATMINOR`. -/
def fatminor : Nat := 0

/-- `nlink` is a `uint16_t`. -/
def incLink (a : Attrs) : Attrs := { a with nlink := (a.nlink + 1) % 65536 }

def decLink (a : Attrs) : Attrs := { a with nlink := (a.nlink + 65535) % 65536 }

/-- The bits of `m` that are not in `mask`. -/
def clearBits (m mask : Nat) : Nat := m ^^^ (m &&& mask)

def dot : Name := ['.']

def dotdot : Name := ['.', '.']

/-- `*p` for a pointer that may be null. -/
def deref {α : Type} : Option α → V α
  | some a => pure a
  | none => throw .fault

/-! ## Creating -/

/-- What `generic_permission` makes of the fields of an inode. -/
def Proc.allows (me : Proc) (a : Attrs) (mask : Nat) : Bool :=
  let mode :=
    if me.fsuid = a.uid then a.mode >>> 6 else if me.fsgid = a.gid then a.mode >>> 3 else a.mode
  me.fsuid = 0 ∨ mode &&& mask &&& (mayRead ||| mayWrite ||| mayExec) = mask ∨
    (mask &&& (mayRead ||| mayWrite) ≠ 0 ∨ a.mode &&& sIxugo ≠ 0) ∧ me.dacOverride = true

/-- `generic_permission`. -/
def permission (p : Ino) (mask : Nat) : V Bool := do
  let s ← get
  pure (s.me.allows (s.icache p).attrs mask)

/-- Change fields, in memory and on the card. -/
def writeAttrs (p : Ino) (f : Attrs → Attrs) : V Unit := do
  modifyAttrs p f
  iupdate p

/-- A directory counts its children, and a new one has `.` and `..`. Source: `create`. -/
def makeDots (dp ip : Ino) : V Unit := do
  writeAttrs dp incLink
  match ← dirlink ip dot ip.inum .dir with
  | .error _ => throw (.panic "create: cant dots")
  | .ok () => do
    let i ← inode dp
    match ← dirlink ip dotdot dp.inum i.attrs.type with
    | .error _ => throw (.panic "create: cant dots")
    | .ok () => pure ()

/-- The file is not there: make it. `dp` is locked, and so is the inode returned.
Source: `create`. -/
def createNew (dp : Ino) (name : Name) (type : FType) (major minor mode : Nat) : V Ino := do
  let ip ← ialloc dp.dev type
  ilock ip
  let s ← get
  writeAttrs ip fun _ => ⟨type, major, minor, 1, clearBits mode s.me.umask, s.me.uid, s.me.gid⟩
  onlyIf (type = .dir) (makeDots dp ip)
  match ← dirlink dp name ip.inum type with
  | .error _ => throw (.panic "create: dirlink")
  | .ok () => do
    iunlockput dp
    pure ip

/-- The inode is returned locked. -/
def create (path : List Char) (type : FType) (major minor mode : Nat) : V (Except Errno Ino) := do
  match ← nameiparent path with
  | none => pure (.error .ENOENT)
  | some (dp, name) => do
    ilock dp
    let allowed ← permission dp mayExec
    if allowed = false then do
      iunlockput dp
      pure (.error .EACCES)
    else do
      match ← dirlookup dp name with
      | some (ip, _) => do
        iunlockput dp
        ilock ip
        let i ← inode ip
        if type = .file ∧ i.attrs.type = .file then
          pure (.ok ip)
        else do
          iunlockput ip
          pure (.error .EEXIST)
      | none => do
        let ip ← createNew dp name type major minor mode
        pure (.ok ip)

/-- `(long)ip` for what `create` returned. -/
def Sys.long (s : Sys) : Except Errno Ino → Int
  | .ok ip => (s.inodeAddr ip).val.toInt
  | .error e => -e.code

/-- Kernel addresses and errors alike. -/
lemma Sys.long_neg (s : Sys) (r : Except Errno Ino) : s.long r < 0 := by
  cases r with
  | ok ip =>
    have hle : kernbase.toNat ≤ (s.inodeAddr ip).val.toNat := (s.inodeAddr ip).property
    have hbase : kernbase.toNat = 0xFFFF000000000000 := rfl
    refine BitVec.toInt_neg_iff.mpr ?_
    omega
  | error e => cases e <;> exact Int.neg_neg_of_pos (by decide)

/-! ## Open files -/

def modifyFile (f : Nat) (g : File → File) : V Unit :=
  modify fun s => { s with file := update s.file f (g (s.file f)) }

def modifyProc (g : Proc → Proc) : V Unit :=
  modify fun s => { s with proc := update s.proc s.thisproc (g s.me) }

/-- `filealloc`. -/
def filealloc : V (Option Nat) := do
  let s ← get
  match (List.range nfile).find? fun f => (s.file f).ref = 0 with
  | none => pure none
  | some f => do
    modifyFile f fun file => { file with ref := 1 }
    pure (some f)

/-- `fdalloc`. -/
def fdalloc (f : Nat) (start : Nat) : V (Option Nat) := do
  let s ← get
  match (List.range nofile).find? fun fd => start ≤ fd ∧ s.me.ofile fd = none with
  | none => pure none
  | some fd => do
    modifyProc fun p => { p with ofile := update p.ofile fd (some f) }
    pure (some fd)

/-- The other end of a pipe is not part of this model. -/
def fileclose (f : Nat) : V Unit := do
  let s ← get
  stopIf ((s.file f).ref < 1) (.panic "fileclose")
  if 1 < (s.file f).ref then
    modifyFile f fun file => { file with ref := file.ref - 1 }
  else do
    modifyFile f fun file => { file with ref := 0, type := .none }
    onlyIf ((s.file f).type = .inode) do
      beginOp
      iput (s.file f).ip
      endOp

/-- The flags of `open`. -/
structure OFlags where
  /-- `flags & O_ACCMODE` -/
  acc : Nat
  creat : Bool
  excl : Bool

/-- `FILE_READABLE`. -/
def OFlags.readable (flags : OFlags) : Bool := flags.acc = 2 ∨ flags.acc = 0

/-- `FILE_WRITABLE`. -/
def OFlags.writable (flags : OFlags) : Bool := flags.acc = 2 ∨ flags.acc = 1

/-- Without `O_CREAT`: follow symbolic links, as many as there are. An error is returned after
`end_op`.
Source: `fileopen`. -/
def openLoop (flags : OFlags) : Nat → List Char → V (Except Errno Ino)
  | 0, _ => throw .hang
  | n + 1, path => do
    match ← namei path with
    | none => do
      endOp
      pure (.error .ENOENT)
    | some ip => do
      ilock ip
      let s ← get
      if (s.icache ip).attrs.type = .dir ∧ flags.acc ≠ 0 then do
        iunlockput ip
        endOp
        pure (.error .EINVAL)
      else if (s.icache ip).attrs.type = .symlink then do
        if (s.card ip).target = [] then do
          iunlockput ip
          endOp
          pure (.error .ENOENT)
        else do
          iunlockput ip
          openLoop flags n ((s.card ip).target.take 511)
      else
        pure (.ok ip)

/-- The test of what `create` returned; an error is not 0, so it is used as an inode.
Source: `fileopen`. -/
def openCreated (r : Except Errno Ino) : V (Except Errno Ino) := do
  let s ← get
  if s.long r = 0 then do
    endOp
    pure (.error .EDQUOT)
  else do
    let ip ← deref r.toOption
    pure (.ok ip)

/-- With `O_CREAT`. Source: `fileopen`. -/
def openCreate (path : List Char) (flags : OFlags) (mode : Nat) : V (Except Errno Ino) := do
  match ← namei path with
  | some ip =>
    if flags.excl then do
      iput ip
      endOp
      pure (.error .EEXIST)
    else do
      ilock ip
      pure (.ok ip)
  | none => do
    let r ← create path .file 0 0 (mode ||| sIfreg)
    openCreated r

/-- The inode to open, locked. Source: `fileopen`. -/
def openInode (hops : Nat) (path : List Char) (flags : OFlags) (mode : Nat) :
    V (Except Errno Ino) :=
  if flags.creat then openCreate path flags mode else openLoop flags (hops + 1) path

/-- `hops` bounds the symbolic links that are followed. -/
def fileopen (hops : Nat) (path : List Char) (flags : OFlags) (mode : Nat) :
    V (Except Errno Nat) := do
  beginOp
  match ← openInode hops path flags mode with
  | .error e => pure (.error e)
  | .ok ip => do
    let r ← permission ip mayRead
    let w ← permission ip mayWrite
    if (flags.readable = true ∧ r = false) ∨ (flags.writable = true ∧ w = false) then do
      iunlockput ip
      endOp
      pure (.error .EACCES)
    else do
      match ← filealloc with
      | none => do
        iunlock ip
        endOp
        pure (.error .ENOSPC)
      | some f => do
        match ← fdalloc f 0 with
        | none => do
          iunlock ip
          endOp
          fileclose f
          pure (.error .ENOSPC)
        | some fd => do
          iunlock ip
          endOp
          modifyFile f fun file =>
            { file with
              type := .inode, ip := ip, readable := flags.readable, writable := flags.writable }
          pure (.ok fd)

/-! ## Names -/

/-- `nlink--` and `iupdate`. -/
def dropLink (p : Ino) : V Unit := writeAttrs p decLink

/-- Undo the count of `filelink`. -/
def linkBad (ip : Ino) (error : Errno) : V (Except Errno Unit) := do
  ilock ip
  dropLink ip
  iunlockput ip
  endOp
  pure (.error error)

/-- `filelink`: the hard link `new` to `old`. -/
def filelink (old new : List Char) : V (Except Errno Unit) := do
  beginOp
  match ← namei old with
  | none => do
    endOp
    pure (.error .ENOENT)
  | some ip => do
    ilock ip
    let i ← inode ip
    if i.attrs.type = .dir then do
      iunlockput ip
      endOp
      pure (.error .EPERM)
    else do
      writeAttrs ip incLink
      iunlock ip
      match ← nameiparent new with
      | none => linkBad ip .ENOENT
      | some (dp, name) => do
        ilock dp
        if dp.dev ≠ ip.dev then do
          iunlockput dp
          linkBad ip .EXDEV
        else do
          let i ← inode ip
          match ← dirlink dp name ip.inum i.attrs.type with
          | .error e => do
            iunlockput dp
            linkBad ip e
          | .ok () => do
            iunlockput dp
            iput ip
            endOp
            pure (.ok ())

/-- Why the inode may not be removed. Source: `fileunlink`. -/
def removeError (ip : Ino) (removedir : Bool) : V (Option Errno) := do
  let i ← inode ip
  let empty ← isdirempty ip
  pure (if removedir then
      if i.attrs.type ≠ .dir then some .ENOTDIR else if empty then none else some .EPERM
    else
      if i.attrs.type = .dir then some .EISDIR else none)

/-- `baddp`. Source: `fileunlink`. -/
def unlinkBad (dp : Ino) : V Unit := do
  iunlockput dp
  endOp

/-- The first half: the directory and the inode, both locked, and the place of the entry.
Source: `fileunlink`. -/
def unlinkFind (path : List Char) : V (Except Errno (Ino × Ino × Nat)) := do
  beginOp
  match ← nameiparent path with
  | none => do
    endOp
    pure (.error .ENOENT)
  | some (dp, name) => do
    ilock dp
    if name = dot ∨ name = dotdot then do
      unlinkBad dp
      pure (.error .EPERM)
    else do
      match ← dirlookup dp name with
      | none => do
        unlinkBad dp
        pure (.error .ENOENT)
      | some (ip, off) => do
        ilock ip
        pure (.ok (dp, ip, off))

/-- The second half. Source: `fileunlink`. -/
def unlinkFound (dp ip : Ino) (off : Nat) : V Unit := do
  let i ← inode ip
  unlink dp off
  onlyIf (i.attrs.type = .dir) (dropLink dp)
  iunlockput dp
  dropLink ip
  iunlockput ip
  endOp

/-- `removedir` is `flags & AT_REMOVEDIR`. -/
def fileunlink (path : List Char) (removedir : Bool) : V (Except Errno Unit) := do
  match ← unlinkFind path with
  | .error e => pure (.error e)
  | .ok (dp, ip, off) => do
    let i ← inode ip
    if i.attrs.nlink < 1 then
      pure (.error .EPERM)
    else do
      match ← removeError ip removedir with
      | some e => do
        iunlockput ip
        unlinkBad dp
        pure (.error e)
      | none => do
        unlinkFound dp ip off
        pure (.ok ())

/-- `name1` becomes `name2`. -/
def rename (dp : Ino) (name1 name2 : Name) : V (Except Errno Unit) := do
  ilock dp
  match ← dirlookup dp name1 with
  | none => pure (.error .ENOENT)
  | some (ip, off) => do
    ilock ip
    let i ← inode ip
    writeEntry dp off ⟨ip.inum, i.attrs.type, name2⟩
    iupdate dp
    iupdate ip
    iunlockput ip
    iunlockput dp
    pure (.ok ())

/-- The entry for `oldIp` is made to name `newIp`. -/
def reinode (dp oldIp newIp : Ino) : V (Except Errno Unit) := do
  ilock dp
  ilock oldIp
  ilock newIp
  match ← direntlookup dp oldIp.inum with
  | none => pure (.error .ENOENT)
  | some (de, off) => do
    writeEntry dp off { de with inum := newIp.inum }
    iupdate dp
    iupdate oldIp
    iupdate newIp
    iunlockput oldIp
    iunlockput newIp
    iunlockput dp
    pure (.ok ())

/-- The type of a cached inode as `AT_REMOVEDIR` or 0. -/
def removedirFor (p : Ino) : V Bool := do
  let i ← inode p
  pure (i.attrs.type = .dir)

/-- What `filerename` finds first. -/
structure RenameArgs where
  ip1 : Ino
  dn1 : Option (Ino × Name)
  ip2 : Option Ino
  dn2 : Option (Ino × Name)

/-- `dp1 == dp2`. -/
def RenameArgs.sameDir (a : RenameArgs) : Bool := a.dn1.map Prod.fst = a.dn2.map Prod.fst

/-- `filerename`. -/
def renameFind (path1 path2 : List Char) : V (Option RenameArgs) := do
  beginOp
  match ← namei path1 with
  | none => do
    endOp
    pure none
  | some ip1 => do
    let dn1 ← nameiparent path1
    let ip2 ← namei path2
    let dn2 ← nameiparent path2
    pure (some ⟨ip1, dn1, ip2, dn2⟩)

/-- Same directory, no target. Source: `filerename`. -/
def renameHere (a : RenameArgs) : V (Except Errno Unit) := do
  let (dp1, name1) ← deref a.dn1
  let (_, name2) ← deref a.dn2
  let r ← rename dp1 name1 name2
  endOp
  pure r

/-- Another directory, no target; then `path1` is unlinked. Source: `filerename`. -/
def renameLink (a : RenameArgs) : V (Except Errno Bool) := do
  let (dp2, name2) ← deref a.dn2
  let i ← inode a.ip1
  let r ← dirlink dp2 name2 a.ip1.inum i.attrs.type
  endOp
  let removedir ← removedirFor a.ip1
  pure (r.map fun _ => removedir)

/-- There is a target; then `path2` is unlinked. In the same directory `end_op` is missing.
Source: `filerename`. -/
def renameReplace (a : RenameArgs) (ip2 : Ino) : V (Except Errno Bool) := do
  let (dp2, _) ← deref a.dn2
  let r ← reinode dp2 ip2 a.ip1
  onlyIf (a.sameDir = false ∨ r.toBool = false) endOp
  let removedir ← removedirFor ip2
  pure (r.map fun _ => removedir)

/-- Go on with `fileunlink`. -/
def thenUnlink (x : V (Except Errno Bool)) (path : List Char) : V (Except Errno Unit) := do
  match ← x with
  | .error e => pure (.error e)
  | .ok removedir => fileunlink path removedir

/-- `filerename`, on what `renameFind` has looked up. -/
def filerename (path1 path2 : List Char) : V (Except Errno Unit) := do
  match ← renameFind path1 path2 with
  | none => pure (.error .ENOENT)
  | some a =>
    if a.ip2 = some a.ip1 then
      pure (.ok ())
    else
      match a.ip2 with
      | none =>
        if a.sameDir = true then renameHere a else thenUnlink (renameLink a) path1
      | some ip2 => thenUnlink (renameReplace a ip2) path2

/-! ## Mounting -/

def initlog (dev : Nat) : V Unit := do
  stopIf (nlog ≤ dev) .fault
  modify fun s => { s with logEnabled := update s.logEnabled dev true }

def setMpoint (i : Nat) (e : Mntentry) : V Unit :=
  modify fun s => { s with mpoint := update s.mpoint i e }

/-- `v6fs` and `ext2fs`. -/
inductive FsType where
  | v6
  | ext2
  deriving DecidableEq, Repr

/-- `V6_ROOTINO`, `EXT2_ROOTINO`. -/
def FsType.rootino : FsType → Nat
  | .v6 => RpiOs.rootino
  | .ext2 => 2

/-- The slot for a mount, from `i` on. Source: `v6_mount`, `ext2_mount`. -/
def mountSlot (T : Nat → Mntentry) (minor : Nat) (ip : Ino) : Nat → Nat → Option Nat
  | 0, _ => none
  | n + 1, i =>
    if (T i).used = false then some i
    else if (T i).dev = some minor then none
    else if (T i).mInode = some ip then some i
    else mountSlot T minor ip n (i + 1)

/-- `fs_t->ops->mount`: `v6_mount` and `ext2_mount`, which differ in the number of the root inode
and in the log. -/
def fsMount (fs : FsType) (minor : Nat) (ip : Ino) : V Bool := do
  let devrtip ← iget ⟨minor, fs.rootino⟩ .dir
  let s ← get
  match mountSlot s.mpoint minor ip mountsize 0 with
  | none => pure false
  | some i => do
    setMpoint i ⟨some ip, some devrtip, some minor, true⟩
    onlyIf (fs = .v6) (initlog minor)
    pure true

/-- `bad`. Source: `mount`. -/
def mountBad (ip devi : Ino) (error : Errno) : V (Except Errno Unit) := do
  iunlockput devi
  iunlockput ip
  endOp
  pure (.error error)

/-- Mount point and device. Source: `mount`. -/
def mountFind (source target : List Char) : V (Option (Ino × Ino)) := do
  beginOp
  match ← namei target with
  | none => do
    endOp
    pure none
  | some ip => do
    match ← namei source with
    | none => do
      endOp
      pure none
    | some devi => pure (some (ip, devi))

/-- From the locks on. Source: `mount`. -/
def mountAt (fs : FsType) (ip devi : Ino) (mem : Bool) : V (Except Errno Unit) := do
  ilock ip
  ilock devi
  let i ← inode ip
  let d ← inode devi
  if i.attrs.type ≠ .dir ∧ 1 < i.ref then
    mountBad ip devi .ENOTDIR
  else if d.attrs.type ≠ .dev ∨ d.attrs.minor = fatminor ∨ d.attrs.minor = rootdev ∨
    mem = false then
    mountBad ip devi .ENOTBLK
  else do
    modify fun s => { s with vfsmlist := s.vfsmlist ++ [(d.attrs.major, d.attrs.minor)] }
    let done ← fsMount fs d.attrs.minor ip
    if done = true then do
      modifyAttrs ip fun a => { a with type := .mount }
      iunlock devi
      iunlock ip
      endOp
      pure (.ok ())
    else
      mountBad ip devi .ENOTBLK

/-- `fs` is what `getfs` finds, and `mem` says that `putvfsonlist` has memory. -/
def mount (source target : List Char) (fs : Option FsType) (mem : Bool) :
    V (Except Errno Unit) := do
  match ← mountFind source target with
  | none => pure (.error .ENOENT)
  | some (ip, devi) =>
    match fs with
    | none => pure (.error .ENODEV)
    | some fs => mountAt fs ip devi mem

/-- `v6_unmount`, `ext2_unmount`. -/
def fsUnmount (dev : Nat) : V Bool := do
  let s ← get
  match (List.range mountsize).find? fun i => (s.mpoint i).dev = some dev with
  | none => pure false
  | some i => do
    setMpoint i { s.mpoint i with dev := none, used := false }
    pure true

/-- With the mount point and the mounted root locked. Source: `umount`. -/
def umountLocked (ip devi : Ino) : V (Except Errno Unit) := do
  let s ← get
  if s.getvfsentry sdmajor devi.dev = false then
    pure (.error .ENOENT)
  else do
    let done ← fsUnmount devi.dev
    if done = false then
      pure (.error .EINVAL)
    else do
      modify fun s => { s with vfsmlist := s.vfsmlist.erase (sdmajor, devi.dev) }
      modifyInode devi fun i => { i with ref := i.ref - 1 }
      modifyAttrs ip fun a => { a with type := .dir }
      pure (.ok ())

/-- `umount`. -/
def umount (target : List Char) : V (Except Errno Unit) := do
  beginOp
  match ← namei target with
  | none => do
    endOp
    pure (.error .ENOENT)
  | some devi => do
    ilock devi
    let s ← get
    match s.mtablemntinode devi with
    | none => do
      iunlockput devi
      endOp
      pure (.error .EINVAL)
    | some ip => do
      ilock ip
      let r ← umountLocked ip devi
      iunlockput ip
      iunlockput devi
      endOp
      pure r

/-! ## Calls of `sysfile.c` -/

/-- The end of `sys_mkdirat` and `sys_mknodat`, with their test of what `create` returned. -/
def created (isError : Int → Bool) (r : Except Errno Ino) : V Int := do
  let s ← get
  if isError (s.long r) then do
    endOp
    pure (s.long r)
  else do
    let ip ← deref r.toOption
    iunlockput ip
    endOp
    pure 0

def sysMkdirat (path : List Char) (mode : Nat) : V Int := do
  beginOp
  let r ← create path .dir 0 0 (mode ||| sIfdir)
  created (· = 0) r

/-- `sys_mknodat`. -/
def nodeType (mode : Nat) : Option FType :=
  if mode &&& sIfmt = sIfdir then some .dir
  else if mode &&& sIfmt = sIfreg then some .file
  else if mode &&& sIfmt = 0o020000 ∨ mode &&& sIfmt = 0o060000 then some .dev
  else if mode &&& sIfmt = 0o120000 then some .symlink
  else none

/-- `sys_mknodat`. -/
def mknodCreate (path : List Char) (type : FType) (mode major minor : Nat) : V (Except Errno Ino) :=
  create path type (if type = .dev then major else 0) (if type = .dev then minor else 0) mode

/-- `sys_mknodat`, whose first return misses `end_op`. -/
def sysMknodat (path : List Char) (mode major minor : Nat) : V Int := do
  beginOp
  match nodeType mode with
  | none => pure (-Errno.EINVAL.code)
  | some type => do
    let r ← mknodCreate path type mode major minor
    created (· < 0) r

/-- `bad`. Source: `sys_getcwd`. -/
def getcwdBad (cwd dp : Ino) : V (Option (List Char)) := do
  iput cwd
  iunlockput dp
  endOp
  pure none

/-- The way up to the root; `buf` holds the path backwards. Source: `sys_getcwd`. -/
def getcwdLoop (size : Nat) : Nat → Ino → List Char → V (Option (List Char))
  | 0, _, _ => throw .hang
  | n + 1, cwd, buf => do
    let (dp, _) ← deref (← dirlookup cwd dotdot)
    ilock dp
    match ← direntlookup dp cwd.inum with
    | none => getcwdBad cwd dp
    | some (de, _) =>
      if size < de.name.length + buf.length + 2 then
        getcwdBad cwd dp
      else do
        iput cwd
        iunlock dp
        if dp.inum = rootino then do
          iput dp
          endOp
          pure (some (buf ++ de.name.reverse ++ ['/']).reverse)
        else do
          let cwd ← idup dp
          iput dp
          getcwdLoop size n cwd (buf ++ de.name.reverse ++ ['/'])

/-- `NULL` is `none`; `depth` bounds the way up. -/
def sysGetcwd (depth size : Nat) : V (Option (List Char)) := do
  beginOp
  let s ← get
  let cwd ← idup s.me.cwd
  if cwd.inum = rootino then
    pure (some ['/'])
  else
    getcwdLoop size (depth + 1) cwd []

end RpiOs.Vfs
