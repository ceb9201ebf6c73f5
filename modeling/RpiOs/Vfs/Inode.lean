import Mathlib.Logic.Function.Basic
import RpiOs.Kernel.Shared
import RpiOs.Lib.Fallible

/-!
# Inodes, directories and paths

`kern/vfs.c`, `kern/vfsmount.c` and the directory functions of `kern/v6.c`: the inode cache with its
reference counts and locks, the entries of directories, and the walk along a path. The calls that
are made of them are in `RpiOs.Vfs.Calls`.

The card is seen as the table of its inodes: a directory has a list of entries, of which those with
number 0 are free, and a symbolic link its target. Blocks, times and the contents of files are left
out; all file systems are v6. A directory is read from the card, through the cached inode in the
source: it is only read when the inode has been loaded, and written through.

A cached inode is known by the device and the number it caches (`Ino`), which is what `iget` looks
for: two pointers are the same exactly if these are. The slots of the array are only counted. `iput`
leaves the fields of a slot as they are; `iget` sets them anew.

A computation stops where the kernel does: at a `panic`, at a pointer that points to nothing, when
it waits for a lock that it holds itself, or when it goes round in a loop for ever.
-/

namespace RpiOs.Vfs

open Lib

/-! ## Data -/

/-- `T_DIR`, `T_FILE`, `T_DEV`, `T_MOUNT`, `T_SYMLINK`; 0 is a free inode. -/
inductive FType where
  | free
  | dir
  | file
  | dev
  | mount
  | symlink
  deriving DecidableEq, Repr

/-- Device and inode number. -/
structure Ino where
  dev : Nat
  inum : Nat
  deriving DecidableEq, Repr

abbrev Name := List Char

/-- A directory entry. -/
structure Dirent where
  inum : Nat
  type : FType
  name : Name
  deriving DecidableEq, Repr

/-- A free entry. -/
def Dirent.empty : Dirent := ⟨0, .free, []⟩

/-- What an inode on the card and its copy in memory have in common. -/
structure Attrs where
  type : FType
  major : Nat
  minor : Nat
  nlink : Nat
  mode : Nat
  uid : Nat
  gid : Nat
  deriving DecidableEq, Repr

/-- All fields zero, but for the type. -/
def Attrs.zero (type : FType) : Attrs := ⟨type, 0, 0, 0, 0, 0, 0⟩

/-- An inode on the card. -/
structure Dinode where
  attrs : Attrs
  entries : List Dirent
  target : List Char

/-- The inodes on the cards. -/
abbrev Card := Ino → Dinode

/-- An inode in memory. -/
structure Inode where
  attrs : Attrs
  ref : Int
  locked : Bool
  valid : Bool

/-- An entry of the mount table. -/
structure Mntentry where
  mInode : Option Ino
  mRtinode : Option Ino
  dev : Option Nat
  used : Bool

/-- `inc/file.h` `struct file`. -/
inductive FdType where
  | none
  | pipe
  | inode
  deriving DecidableEq, Repr

/-- `struct file`. -/
structure File where
  type : FdType
  ref : Int
  ip : Ino
  readable : Bool
  writable : Bool

/-- The fields of the current process that the calls read. -/
structure Proc where
  cwd : Ino
  ofile : Nat → Option Nat
  uid : Nat
  gid : Nat
  euid : Nat
  fsuid : Nat
  fsgid : Nat
  groups : List Nat
  umask : Nat
  /-- `capable(CAP_DAC_OVERRIDE)` -/
  dacOverride : Bool
  /-- `capable(CAP_CHOWN)` -/
  chown : Bool

/-- `KERNBASE`. -/
def kernbase : BitVec 64 := 0xFFFF000000000000

/-- An address of the kernel's memory. -/
abbrev KernAddr := { a : BitVec 64 // kernbase ≤ a }

def firstAddr : KernAddr := ⟨kernbase, BitVec.le_refl _⟩

/-- The kernel as far as files are concerned, with the process that calls. -/
structure Sys where
  card : Card
  /-- `ninodes` of the super blocks, by device -/
  ninodes : Nat → Nat
  icache : Ino → Inode
  /-- where an inode of the cache stands -/
  inodeAddr : Ino → KernAddr := fun _ => firstAddr
  /-- slots of `icache` with `ref` other than 0 -/
  inUse : Nat
  mpoint : Nat → Mntentry
  /-- major and minor numbers -/
  vfsmlist : List (Nat × Nat)
  /-- `log[i].flag & LOGENABLED` -/
  logEnabled : Nat → Bool
  /-- `log[i].outstanding` -/
  outstanding : Nat → Int
  /-- calls of `begin_op` less calls of `end_op` -/
  ops : Int
  file : Nat → File
  proc : Nat → Proc
  thisproc : Nat

/-- Why a computation does not return. -/
inductive Stop where
  | panic (message : String)
  | fault
  | deadlock
  | hang
  deriving DecidableEq, Repr

/-- What works on the inodes; it may stop. -/
abbrev V := EStateM Stop Sys

/-- The error numbers that the calls return. -/
inductive Errno where
  | EPERM
  | ENOENT
  | EIO
  | EBADF
  | EACCES
  | ENOTBLK
  | EEXIST
  | EXDEV
  | ENODEV
  | ENOTDIR
  | EISDIR
  | EINVAL
  | EMFILE
  | ENOSPC
  | EDQUOT
  deriving DecidableEq, Repr

/-- Their values. -/
def Errno.code : Errno → Nat
  | EPERM => 1
  | ENOENT => 2
  | EIO => 5
  | EBADF => 9
  | EACCES => 13
  | ENOTBLK => 15
  | EEXIST => 17
  | EXDEV => 18
  | ENODEV => 19
  | ENOTDIR => 20
  | EISDIR => 21
  | EINVAL => 22
  | EMFILE => 24
  | ENOSPC => 28
  | EDQUOT => 122

/-- `NINODE`. -/
def ninode : Nat := 1024

/-- `DIRSIZ`. -/
def dirsiz : Nat := 58

/-- `MOUNTSIZE`. -/
def mountsize : Nat := 2

/-- `NLOG`. -/
def nlog : Nat := 3

/-- `SDMAJOR`. -/
def sdmajor : Nat := 0

/-- `ROOTDEV`. -/
def rootdev : Nat := 1

/-- How many entries fit into `MAXFILE` blocks. -/
def maxEntries : Nat := (11 + 1024 + 1024 * 1024) * 64

/-! ## The state -/

section state

/-- `if (c) panic(...)`. -/
def stopIf (c : Prop) [Decidable c] (e : Stop) : V Unit := if c then throw e else pure ()

/-- `if (c) x`. -/
def onlyIf (c : Prop) [Decidable c] (x : V Unit) : V Unit := if c then x else pure ()

section guards

variable {c : Prop} [Decidable c] {s : Sys} {Q : Unit → Sys → Prop}

lemma post_stopIf {e : Stop} (h : ¬c → Q () s) : Post (stopIf c e) s Q := by
  unfold stopIf
  split
  · exact post_throw e
  · next hc => exact (post_pure ()).mpr (h hc)

lemma post_onlyIf {x : V Unit} (hx : c → Post x s Q) (h : ¬c → Q () s) : Post (onlyIf c x) s Q := by
  unfold onlyIf
  split
  · next hc => exact hx hc
  · next hc => exact (post_pure ()).mpr (h hc)

end guards

def Sys.setInode (s : Sys) (p : Ino) (ip : Inode) : Sys :=
  { s with icache := Function.update s.icache p ip }

def Sys.setCard (s : Sys) (p : Ino) (din : Dinode) : Sys :=
  { s with card := Function.update s.card p din }

def inode (p : Ino) : V Inode := do
  let s ← get
  pure (s.icache p)

def modifyInode (p : Ino) (f : Inode → Inode) : V Unit :=
    modify fun s => s.setInode p (f (s.icache p))

/-- Change fields that are also on the card. -/
def modifyAttrs (p : Ino) (f : Attrs → Attrs) : V Unit :=
  modifyInode p fun ip => { ip with attrs := f ip.attrs }

/-- The contents of a directory. -/
def entriesOf (p : Ino) : V (List Dirent) := do
  let s ← get
  pure (s.card p).entries

def setEntries (p : Ino) (es : List Dirent) : V Unit :=
  modify fun s => s.setCard p { s.card p with entries := es }

/-- Add to the counters of the logs in use. -/
def Sys.addOps (s : Sys) (n : Int) : Sys :=
  { s with
    ops := s.ops + n
    outstanding := fun i =>
      if i < nlog ∧ s.logEnabled i = true then s.outstanding i + n else s.outstanding i }

def beginOp : V Unit := modify fun s => s.addOps 1

def endOp : V Unit := modify fun s => s.addOps (-1)

/-- `thisproc`. -/
def Sys.me (s : Sys) : Proc := s.proc s.thisproc

end state

/-! ## Locks and references -/

def acquiresleep (p : Ino) : V Unit := do
  let ip ← inode p
  stopIf (ip.locked = true) .deadlock
  modifyInode p fun ip => { ip with locked := true }

def releasesleep (p : Ino) : V Unit := modifyInode p fun ip => { ip with locked := false }

/-- Read the inode from the card. Source: `v6_ilock`. -/
def load (p : Ino) : V Unit := do
  let s ← get
  modifyInode p fun ip => { ip with attrs := (s.card p).attrs, valid := true }
  stopIf ((s.card p).attrs.type = .free) (.panic "ilock: no type")

/-- `v6_ilock`. -/
def ilock (p : Ino) : V Unit := do
  let ip ← inode p
  stopIf (ip.ref < 1) (.panic "ilock")
  acquiresleep p
  onlyIf (ip.valid = false) (load p)

/-- `generic_iunlock`. -/
def iunlock (p : Ino) : V Unit := do
  let ip ← inode p
  stopIf (ip.locked = false ∨ ip.ref < 1) (.panic "invalid ip")
  releasesleep p

/-- `v6_iupdate`. -/
def iupdate (p : Ino) : V Unit := do
  let ip ← inode p
  modify fun s => s.setCard p { s.card p with attrs := ip.attrs }

/-- `v6_itrunc`. -/
def itrunc (p : Ino) : V Unit := do
  modify fun s => s.setCard p { s.card p with entries := [], target := [] }
  iupdate p

def idup (p : Ino) : V Ino := do
  modifyInode p fun ip => { ip with ref := ip.ref + 1 }
  pure p

/-- Truncate and free. Source: `iput`. -/
def freeInode (p : Ino) : V Unit := do
  itrunc p
  modifyAttrs p fun a => { a with type := .free }
  iupdate p
  modifyInode p fun ip => { ip with valid := false }

/-- `ref--`. -/
def dropRef (p : Ino) : V Unit := do
  let ip ← inode p
  modifyInode p fun ip => { ip with ref := ip.ref - 1 }
  modify fun s => { s with inUse := if ip.ref = 1 then s.inUse - 1 else s.inUse }

/-- `iput`. -/
def iput (p : Ino) : V Unit := do
  acquiresleep p
  let ip ← inode p
  onlyIf (ip.valid = true ∧ ip.attrs.nlink = 0 ∧ ip.ref = 1) (freeInode p)
  releasesleep p
  dropRef p

def iunlockput (p : Ino) : V Unit := do
  iunlock p
  iput p

/-! ## The mount table -/

def Sys.mtablertinode (s : Sys) (p : Ino) : Option Ino :=
  ((List.range mountsize).find? fun i => (s.mpoint i).mInode = some p).bind fun i =>
    (s.mpoint i).mRtinode

def Sys.mtablemntinode (s : Sys) (p : Ino) : Option Ino :=
  ((List.range mountsize).find? fun i => (s.mpoint i).mRtinode = some p).bind fun i =>
    (s.mpoint i).mInode

def Sys.isinoderoot (s : Sys) (p : Ino) : Bool :=
  (List.range mountsize).any fun i => (s.mpoint i).mRtinode = some p

def Sys.getvfsentry (s : Sys) (major minor : Nat) : Bool := (major, minor) ∈ s.vfsmlist

/-! ## Getting inodes -/

/-- `iget`: one reference more on the inode, which may be a mount point. -/
def iget (p : Ino) (type : FType) : V Ino := do
  let s ← get
  if 0 < (s.icache p).ref then
    if (s.icache p).attrs.type = .mount then
      match s.mtablertinode p with
      | none => throw (.panic "Invalid inode on mount table")
      | some r => idup r
    else
      idup p
  else if ninode ≤ s.inUse then
    throw (.panic "iget: no inodes")
  else if s.getvfsentry sdmajor p.dev then
    modifyInode p fun ip =>
      { ip with attrs := { ip.attrs with type := type }, ref := 1, valid := false }
    modify fun s => { s with inUse := s.inUse + 1 }
    pure p
  else
    throw .fault

/-- `v6_getroot`. -/
def getroot (minor : Nat) : V Ino := iget ⟨minor, rootino⟩ .dir

/-- `v6_ialloc`. -/
def ialloc (dev : Nat) (type : FType) : V Ino := do
  let s ← get
  match (List.range (s.ninodes dev)).find? fun i => 1 ≤ i ∧
    (s.card ⟨dev, i⟩).attrs.type = .free with
  | none => throw (.panic "ialloc: no inodes")
  | some i =>
    -- `memset(dip, 0, sizeof(*dip))` also clears the addresses, so the contents are gone
    modify fun s => s.setCard ⟨dev, i⟩ ⟨.zero type, [], []⟩
    iget ⟨dev, i⟩ type

/-! ## Directories -/

/-- The first entry with the name, and its place. -/
def findEntry (es : List Dirent) (name : Name) : Option (Dirent × Nat) :=
  (es.findIdx? fun e => e.inum ≠ 0 ∧ e.name = name).bind fun i => es[i]?.map (·, i)

/-- The inode of an entry, and the place of the entry. On a mount point the place is not set. -/
def dirlookup (dp : Ino) (name : Name) : V (Option (Ino × Nat)) := do
  let s ← get
  if (s.icache dp).attrs.type = .mount then
    match s.mtablertinode dp with
    | none => throw (.panic "v6_dirlookup: Invalid inode on mount table")
    | some r => do
      let r ← idup r
      pure (some (r, 0))
  else if (s.icache dp).attrs.type = .dir then
    match findEntry (s.card dp).entries name with
    | none => pure none
    | some (e, off) => do
      let ip ← iget ⟨dp.dev, e.inum⟩ e.type
      pure (some (ip, off))
  else
    throw (.panic "dirlookup not DIR")

/-- Write an entry, or append one. -/
def putEntry (es : List Dirent) (off : Nat) (e : Dirent) : List Dirent :=
  if off < es.length then es.set off e else es ++ [e]

/-- Write an entry of a directory; the inode is written too if the directory grows.
Source: `v6_writei`. -/
def writeEntry (dp : Ino) (off : Nat) (e : Dirent) : V Unit := do
  let es ← entriesOf dp
  setEntries dp (putEntry es off e)
  onlyIf (es.length ≤ off) (iupdate dp)

/-- Where a new entry goes. Source: `generic_dirlink`. -/
def freeEntry (es : List Dirent) : Nat := (es.findIdx? fun e => e.inum = 0).getD es.length

/-- `generic_dirlink`. -/
def dirlink (dp : Ino) (name : Name) (inum : Nat) (type : FType) : V (Except Errno Unit) := do
  match ← dirlookup dp name with
  | some (ip, _) => do
    iput ip
    pure (.error .EEXIST)
  | none => do
    let es ← entriesOf dp
    stopIf (maxEntries ≤ freeEntry es) (.panic "write error")
    writeEntry dp (freeEntry es) ⟨inum, type, name⟩
    pure (.ok ())

/-- The first entry with the number, and its place. -/
def direntlookup (dp : Ino) (inum : Nat) : V (Option (Dirent × Nat)) := do
  let s ← get
  if (s.icache dp).attrs.type = .dir then
    pure (((s.card dp).entries.findIdx? fun e => e.inum = inum).bind fun i =>
      (s.card dp).entries[i]?.map (·, i))
  else
    throw (.panic "dp is not DIR")

/-- `v6_unlink`. -/
def unlink (dp : Ino) (off : Nat) : V Unit := writeEntry dp off .empty

/-- `v6_isdirempty`. -/
def isdirempty (dp : Ino) : V Bool := do
  let es ← entriesOf dp
  pure ((es.drop 2).all fun e => e.inum = 0)

/-! ## Paths -/

/-- The next element and the rest of the path. A name keeps its first `DIRSIZ` characters. -/
def skipelem (path : List Char) : Option (Name × List Char) :=
  match path.dropWhile (· = '/') with
  | [] => none
  | path => some ((path.takeWhile (· ≠ '/')).take dirsiz,
      (path.dropWhile (· ≠ '/')).dropWhile (· = '/'))

/-- Look an element up, from `component_search` on. At the root of a mounted file system `..` goes
on from the mount point, at most `MOUNTSIZE` times. Source: `namex`. -/
def componentSearch (name : Name) : Nat → Ino → V (Option (Ino × Ino))
  | 0, _ => throw .hang
  | n + 1, ip => do
    match ← dirlookup ip name with
    | none => do
      iunlockput ip
      pure none
    | some (next, _) => do
      let ir ← getroot next.dev
      let s ← get
      if next.inum = ir.inum ∧ s.isinoderoot ip ∧ name.take 2 = ['.', '.'] then
        match s.mtablemntinode ip with
        | none => throw .fault
        | some mntinode => do
          iunlockput ip
          ilock mntinode
          modifyInode mntinode fun ip => { ip with ref := ip.ref + 1 }
          componentSearch name n mntinode
      else
        pure (some (ip, next))

/-- The loop of `namex`; each round takes an element off the path, so its length is enough. -/
def namexLoop (nameiparent : Bool) : Nat → Ino → List Char → Name → V (Option (Ino × Name))
  | 0, _, _, _ => throw .hang
  | n + 1, ip, path, name => do
    match skipelem path with
    | none =>
      if nameiparent then do
        iput ip
        pure none
      else
        pure (some (ip, name))
    | some (name, path) => do
      ilock ip
      let i ← inode ip
      if i.attrs.type ≠ .dir then do
        iunlockput ip
        pure none
      else if nameiparent = true ∧ path = [] then do
        iunlock ip
        pure (some (ip, name))
      else do
        match ← componentSearch name (mountsize + 1) ip with
        | none => pure none
        | some (ip, next) => do
          iunlockput ip
          namexLoop nameiparent n next path name

def namex (path : List Char) (nameiparent : Bool) : V (Option (Ino × Name)) := do
  let s ← get
  let ip ← if path.head? = some '/' then getroot rootdev else idup s.me.cwd
  namexLoop nameiparent (path.length + 1) ip path []

def namei (path : List Char) : V (Option Ino) := do
  let r ← namex path false
  pure (r.map Prod.fst)

def nameiparent (path : List Char) : V (Option (Ino × Name)) := namex path true

end RpiOs.Vfs
