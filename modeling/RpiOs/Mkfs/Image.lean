import RpiOs.Lib.Fallible
import RpiOs.V6.Model

/-!
# Building a file system image

`usr/src/mkfs/main.c`: the host program that writes the v6 image which the kernel mounts. It shares
the structures of the card with the kernel (`usr/inc/fs.h`, `inc/v6.h`) and nothing else: `iappend`
has its own walk through the block tree, allocates by counting `freeblock` up, and `balloc` writes
the bitmap at the end.

An `Img` is the image file with the two counters. A computation ends early where the program exits:
`rsect` past the end of the image, or a failed `assert`. `wsect` is only called for sectors that
were read before, so it never makes the image longer. `xint` and `xshort` are the byte order of
`word` and `setWord`. A name is its bytes without the final zero.
-/

namespace RpiOs.Mkfs

open Lib Kernel V6 Function

/-! ## The layout -/

/-- `FSSIZE`. Source: `usr/inc/param.h`. -/
def fssize : Nat := 100000

/-- `NINODE`. Source: `usr/inc/param.h`. -/
def ninode : Nat := 1024

/-- `LOGSIZE`. Source: `usr/inc/param.h`. -/
def nlog : Nat := 126

def nbitmap : Nat := fssize / bpb + 1

def ninodeblocks : Nat := ninode / ipb + 1

def nmeta : Nat := 2 + nlog + ninodeblocks + nbitmap

/-- `main`. -/
def sb : SuperBlock where
  size := fssize
  ninodes := ninode
  nlog := nlog
  logstart := 2
  inodestart := 2 + nlog
  bmapstart := 2 + nlog + ninodeblocks

/-- The super block as it is on the card. Source: `usr/inc/fs.h` `struct superblock`. -/
def sbBlock : Block :=
  setWords zeroBytes 0
    [sb.size, fssize - nmeta, sb.ninodes, sb.nlog, sb.logstart, sb.inodestart, sb.bmapstart]

/-! ## The image -/

/-- The image file, and the counters of `mkfs`. -/
structure Img where
  sect : Nat → Block
  freeinode : Nat
  freeblock : Nat

/-- Why the program exits. -/
inductive Exit where
  /-- `perror("read"); exit(1)` -/
  | read
  /-- a failed `assert` -/
  | assert
  deriving DecidableEq, Repr

/-- What `mkfs` is made of. -/
abbrev Mk := EStateM Exit Img

def rsect (sec : Nat) : Mk Block := do
  let s ← get
  if sec < fssize then pure (s.sect sec) else throw .read

def Img.put (s : Img) (sec : Nat) (buf : Block) : Img :=
  { s with sect := update s.sect sec buf }

lemma Img.put_sect (s : Img) (sec : Nat) (buf : Block) :
    (s.put sec buf).sect = update s.sect sec buf := rfl

def wsect (sec : Nat) (buf : Block) : Mk Unit := modify fun s => s.put sec buf

/-- `freeblock++`. -/
def nextBlock : Mk Nat := do
  let s ← get
  set { s with freeblock := s.freeblock + 1 }
  pure s.freeblock

/-- A `struct dinode`, by words. Source: `usr/inc/fs.h`. -/
abbrev Dinode := Nat → Nat

namespace Dinode

def size (din : Dinode) : Nat := din 2

/-- `addrs[0 .. NDIRECT+1]`. -/
def addrs (din : Dinode) (i : Nat) : Nat := if i < ndirect + 2 then din (18 + i) else 0

def setSize (din : Dinode) (n : Nat) : Dinode := update din 2 n

def setAddr (din : Dinode) (i a : Nat) : Dinode := update din (18 + i) a

end Dinode

def rinode (inum : Nat) : Mk Dinode := do
  let buf ← rsect (sb.iblock inum)
  pure fun j => word buf (dinodeWords * (inum % ipb) + j)

def winode (inum : Nat) (din : Dinode) : Mk Unit := do
  let buf ← rsect (sb.iblock inum)
  wsect (sb.iblock inum) (setWords buf (dinodeWords * (inum % ipb))
    ((List.range dinodeWords).map din))

/-- The types of the inodes that the program makes. Source: `usr/inc/fs.h`. -/
inductive FileType where
  | dir
  | file
  | dev
  deriving DecidableEq, Repr

/-- `T_DIR`, `T_FILE`, `T_DEV`. -/
def FileType.code : FileType → Nat
  | dir => 1
  | file => 2
  | dev => 3

/-- Who owns a new file, and when it was made. -/
structure Owner where
  uid : Nat
  gid : Nat
  mode : Nat
  time : Timespec

/-- A new `struct dinode`: one link, no blocks. Source: `ialloc`. -/
def newDinode (type : FileType) (o : Owner) : Dinode := fun j =>
  ([type.code, 2 ^ 16, 0, o.mode, o.uid, o.gid] ++ timeWords o.time ++ timeWords o.time ++
    timeWords o.time).getD j 0

/-- `ialloc` of `mkfs`. -/
def ialloc (type : FileType) (o : Owner) : Mk Nat := do
  let s ← get
  set { s with freeinode := s.freeinode + 1 }
  winode s.freeinode (newDinode type o)
  pure s.freeinode

/-! ## Appending to a file -/

/-- `if (din.addrs[i] == 0) din.addrs[i] = freeblock++`. Source: `iappend`. -/
def topAddr (din : Dinode) (i : Nat) : Mk (Nat × Dinode) := do
  if din.addrs i = 0 then
    let b ← nextBlock
    pure (b, din.setAddr i b)
  else
    pure (din.addrs i, din)

/-- Entry `k` of the pointer block `p`, filled if it is empty. Source: `iappend`. -/
def entryAddr (p k : Nat) : Mk Nat := do
  let indirect ← rsect p
  if word indirect k = 0 then
    let b ← nextBlock
    wsect p (setWord indirect k b)
    pure b
  else
    pure (word indirect k)

/-- The block `x` for block `fbn` of the file. Source: `iappend`. -/
def blockFor (din : Dinode) (fbn : Nat) : Mk (Nat × Dinode) :=
  if fbn < ndirect then
    topAddr din fbn
  else if fbn < ndirect + nindirect then do
    let (p, din) ← topAddr din ndirect
    let x ← entryAddr p (fbn - ndirect)
    pure (x, din)
  else do
    let (p, din) ← topAddr din (ndirect + 1)
    let q ← entryAddr p ((fbn - ndirect - nindirect) / nindirect)
    let x ← entryAddr q ((fbn - ndirect - nindirect) % nindirect)
    pure (x, din)

/-- The loop of `iappend`: `n` bytes of `p` from `soff` on go to `off`. Each round takes at least
one byte, so `n` rounds are enough. -/
def appendLoop (p : Bytes) : Nat → Dinode → Nat → Nat → Nat → Mk (Nat × Dinode)
  | 0, din, off, _, _ => pure (off, din)
  | fuel + 1, din, off, n, soff =>
    if n = 0 then
      pure (off, din)
    else do
      let fbn := off / bsize
      if maxfile ≤ fbn then throw .assert
      let (x, din) ← blockFor din fbn
      let n1 := min n ((fbn + 1) * bsize - off)
      let buf ← rsect x
      wsect x (splice buf (off - fbn * bsize) p soff n1)
      appendLoop p fuel din ((off + n1) % 2 ^ 32) (n - n1) (soff + n1)

def iappend (inum : Nat) (p : Bytes) (n : Nat) : Mk Unit := do
  let din ← rinode inum
  let (off, din) ← appendLoop p n din din.size n 0
  winode inum (din.setSize off)

/-! ## The bitmap -/

/-- A block with the first `k` bits set. Source: `balloc`. -/
def ones : Nat → Block
  | 0 => zeroBytes
  | k + 1 => setBit (ones k) k

/-- `balloc` of `mkfs`: the bitmap of the first `used` blocks. -/
def balloc (used : Nat) : Mk Unit :=
  if used < nbitmap * bpb then
    (List.range ((used - 1) / bpb + 1)).forM fun j =>
      wsect (sb.bmapstart + j) (ones (min bpb (used - j * bpb)))
  else
    throw .assert

/-! ## The program -/

/-- The image after `main` has written zeros and the super block. -/
def start : Img where
  sect := update (fun _ => zeroBytes) 1 sbBlock
  freeinode := 1
  freeblock := nmeta

end RpiOs.Mkfs
