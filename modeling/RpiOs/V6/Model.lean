import RpiOs.Kernel.Shared
import RpiOs.Lib.Bitmap
import RpiOs.Lib.Silent
import RpiOs.RedoLog.Model

/-!
# The v6 file system

The code of `kern/v6.c` below the directories: the block allocator, the inode on the card, the
block tree of a file (`bmap`) and reading and writing (`readi`, `writei`).

A pointer into a buffer (`a = (uint32_t *) bp->data`) is the index of the buffer: what it points at
is read from the buffer when the code reads it, whichever block the buffer carries by then. The
in-memory inode is passed along and returned. `v6_readsb`, which returns at once on a mounted
device, is left out.
-/

namespace RpiOs.V6

open Lib Kernel Bio RedoLog

/-! ## Constants and data -/

/-- `NDIRECT`. -/
def ndirect : Nat := 11

/-- `NINDIRECT`. -/
def nindirect : Nat := 1024

/-- `MAXFILE`. -/
def maxfile : Nat := ndirect + nindirect + nindirect * nindirect

/-- `IPB`. -/
def ipb : Nat := 32

/-- `BPB`. -/
def bpb : Nat := 32768

/-- `T_DEV`. -/
def tDev : Nat := 3

/-- `NMAJOR`. -/
def nmajor : Nat := 4

/-- `inc/v6.h` `struct v6_superblock`. -/
structure SuperBlock where
  size : Nat
  ninodes : Nat
  nlog : Nat
  logstart : Nat
  inodestart : Nat
  bmapstart : Nat

/-- `IBLOCK(i, sb)`. -/
def SuperBlock.iblock (sb : SuperBlock) (i : Nat) : Nat := i / ipb + sb.inodestart

/-- `BBLOCK(b, sb)`. -/
def SuperBlock.bblock (sb : SuperBlock) (b : Nat) : Nat := b / bpb + sb.bmapstart

/-- The in-memory inode, with the block addresses of its `v6_inode`.
Source: `inc/vfs.h` `struct inode`; `inc/v6.h` `struct v6_inode` -/
structure Inode where
  dev : Nat
  inum : Nat
  type : Nat
  major : Nat
  minor : Nat
  nlink : Nat
  size : Nat
  mode : Nat
  uid : Nat
  gid : Nat
  atime : Timespec
  mtime : Timespec
  ctime : Timespec
  /-- `addrs[0 .. NDIRECT+1]`. -/
  addrs : Nat → Nat

/-- `addrs[i] = a`. -/
def Inode.setAddr (ip : Inode) (i a : Nat) : Inode :=
  { ip with addrs := fun j => if j = i then a else ip.addrs j }

/-! ## Blocks -/

/-- `v6_bzero`. -/
def bzero (dev bno : Nat) : K Unit := do
  let bp ← bread dev bno
  modifyData bp fun _ => zeroBytes
  logWrite bp
  brelse bp

/-- The rounds of `v6_balloc`'s outer loop from group `k` on, `n` of them. -/
def ballocFrom (sb : SuperBlock) (dev : Nat) : Nat → Nat → K Nat
  | _, 0 => Prog.stop (.panic "balloc: out of blocks")
  | k, n + 1 => do
    let b := k * bpb
    let bp ← bread dev (sb.bblock b)
    let x ← getData bp
    match firstClear x 0 (min bpb (sb.size - b)) with
    | some bi => do
      modifyData bp (setBit · bi)
      logWrite bp
      brelse bp
      bzero dev (b + bi)
      pure (b + bi)
    | none => do
      brelse bp
      ballocFrom sb dev (k + 1) n

/-- The number of rounds: `for (b = 0; b < ninodes; b += BPB)`. -/
def SuperBlock.groups (sb : SuperBlock) : Nat := (sb.ninodes + (bpb - 1)) / bpb

/-- Allocate a zeroed block. -/
def balloc (sb : SuperBlock) (dev : Nat) : K Nat := ballocFrom sb dev 0 sb.groups

/-! ## Inodes on the card -/

/-- A `struct timespec` as words. -/
def timeWords (t : Timespec) : List Nat :=
  [t.tvSec.toNat, t.tvSec.toNat / 2 ^ 32, t.tvNsec.toNat, t.tvNsec.toNat / 2 ^ 32]

/-- The first 31 words of a `struct dinode`; the last one, `_dummy`, is never written.
Source: `inc/v6.h` `struct dinode` -/
def Inode.words (ip : Inode) : List Nat :=
  [ip.type % 2 ^ 16 + 2 ^ 16 * (ip.major % 2 ^ 16),
    ip.minor % 2 ^ 16 + 2 ^ 16 * (ip.nlink % 2 ^ 16),
    ip.size, ip.mode, ip.uid, ip.gid] ++ timeWords ip.atime ++ timeWords ip.mtime ++
      timeWords ip.ctime ++
    (List.range (ndirect + 2)).map ip.addrs

/-- The number of words in a `struct dinode`. -/
def dinodeWords : Nat := 32

/-- Word `j` of the `struct dinode` of inode `inum`. -/
def dinodeWord (sb : SuperBlock) (V : Nat → Block) (inum j : Nat) : Nat :=
  word (V (sb.iblock inum)) (dinodeWords * (inum % ipb) + j)

/-- A `struct timespec` from word `j` on. -/
def loadTime (w : Nat → Nat) (j : Nat) : Timespec :=
  ⟨BitVec.ofNat 64 (w j + 2 ^ 32 * w (j + 1)), BitVec.ofNat 64 (w (j + 2) + 2 ^ 32 * w (j + 3))⟩

/-- The inode in memory from the words of its `struct dinode`. Source: `v6_ilock`. -/
def loadInode (dev inum : Nat) (w : Nat → Nat) : Inode where
  dev := dev
  inum := inum
  type := w 0 % 2 ^ 16
  major := w 0 / 2 ^ 16
  minor := w 1 % 2 ^ 16
  nlink := w 1 / 2 ^ 16
  size := w 2
  mode := w 3
  uid := w 4
  gid := w 5
  atime := loadTime w 6
  mtime := loadTime w 10
  ctime := loadTime w 14
  addrs i := if i < ndirect + 2 then w (18 + i) else 0

/-- An inode that is not valid in memory yet. -/
def ilock (sb : SuperBlock) (dev inum : Nat) : K Inode := do
  let bp ← bread dev (sb.iblock inum)
  let x ← getData bp
  brelse bp
  let ip := loadInode dev inum fun j => word x (dinodeWords * (inum % ipb) + j)
  if ip.type = 0 then
    Prog.stop (.panic "ilock: no type")
  else
    pure ip

/-- `v6_iupdate`. -/
def iupdate (sb : SuperBlock) (ip : Inode) : K Unit := do
  let bp ← bread ip.dev (sb.iblock ip.inum)
  modifyData bp fun x => setWords x (dinodeWords * (ip.inum % ipb)) ip.words
  logWrite bp
  brelse bp

/-! ## The blocks of a file -/

/-- `if ((addr = addrs[i]) == 0) addrs[i] = addr = balloc(dev)`.
Source: `v6_bmap` -/
def topAddr (sb : SuperBlock) (ip : Inode) (i : Nat) : K (Nat × Inode) :=
  if ip.addrs i = 0 then do
    let addr ← balloc sb ip.dev
    pure (addr, ip.setAddr i addr)
  else
    pure (ip.addrs i, ip)

/-- Entry `k` of the indirect block `addr`, allocated if necessary.
Source: `v6_bmap` -/
def indirectEntry (sb : SuperBlock) (dev addr k : Nat) : K Nat := do
  let bp ← bread dev addr
  let a ← getData bp
  if word a k = 0 then do
    let addr ← balloc sb dev
    modifyData bp (setWord · k addr)
    logWrite bp
    brelse bp
    pure addr
  else do
    brelse bp
    pure (word a k)

/-- The address of block `bn` of the file, allocated if necessary. -/
def bmap (sb : SuperBlock) (ip : Inode) (bn : Nat) : K (Nat × Inode) :=
  if bn < ndirect then
    topAddr sb ip bn
  else if bn - ndirect < nindirect then do
    let (addr, ip) ← topAddr sb ip ndirect
    let addr ← indirectEntry sb ip.dev addr (bn - ndirect)
    pure (addr, ip)
  else if bn - ndirect - nindirect < nindirect * nindirect then do
    let (addr, ip) ← topAddr sb ip (ndirect + 1)
    let addr ← indirectEntry sb ip.dev addr ((bn - ndirect - nindirect) / nindirect)
    let addr ← indirectEntry sb ip.dev addr ((bn - ndirect - nindirect) % nindirect)
    pure (addr, ip)
  else
    Prog.stop (.panic "bmap: out of range")

/-! ## Reading and writing -/

/-- The read and write functions of the device drivers, by major number. -/
structure Devsw where
  read : Nat → Option (Inode → Bytes → Nat → K (Int × Bytes))
  write : Nat → Option (Inode → Bytes → Nat → K Int)

/-- The loop of `v6_readi`: `n` bytes from `off` on, stored from `doff` on in `dst`. Each round
takes at least one byte, so `n` rounds are enough. -/
def readLoop (sb : SuperBlock) : Nat → Inode → Nat → Nat → Bytes → Nat → K (Bytes × Inode)
  | 0, ip, _, _, dst, _ => pure (dst, ip)
  | fuel + 1, ip, off, n, dst, doff =>
    if n = 0 then
      pure (dst, ip)
    else do
      let (addr, ip) ← bmap sb ip (off / bsize)
      let bp ← bread ip.dev addr
      let k := min n (bsize - off % bsize)
      let x ← getData bp
      brelse bp
      readLoop sb fuel ip (off + k) (n - k) (splice dst doff x (off % bsize) k) (doff + k)

/-- The number of bytes read, or -1; and what `dst` holds afterwards. -/
def readi (sb : SuperBlock) (sw : Devsw) (ip : Inode) (dst : Bytes) (off n : Nat) :
    K (Int × Bytes × Inode) :=
  if ip.type = tDev then
    match if ip.major < nmajor then sw.read ip.major else none with
    | none => pure (-1, dst, ip)
    | some read => do
      let (r, dst) ← read ip dst n
      pure (r, dst, ip)
  else if ip.size < off ∨ (off + n) % 2 ^ 64 < off then
    pure (-1, dst, ip)
  else do
    let n := if ip.size < off + n then ip.size - off else n
    let (dst, ip) ← readLoop sb n ip off n dst 0
    pure (n, dst, ip)

/-- The loop of `v6_writei`: `n` bytes of `src` from `soff` on, stored from `off` on. -/
def writeLoop (sb : SuperBlock) : Nat → Inode → Bytes → Nat → Nat → Nat → K Inode
  | 0, ip, _, _, _, _ => pure ip
  | fuel + 1, ip, src, soff, off, n =>
    if n = 0 then
      pure ip
    else do
      let (addr, ip) ← bmap sb ip (off / bsize)
      let bp ← bread ip.dev addr
      let k := min n (bsize - off % bsize)
      modifyData bp fun x => splice x (off % bsize) src soff k
      logWrite bp
      brelse bp
      writeLoop sb fuel ip src (soff + k) (off + k) (n - k)

/-- The number of bytes written, or -1. -/
def writei (sb : SuperBlock) (sw : Devsw) (ip : Inode) (src : Bytes) (off n : Nat) :
    K (Int × Inode) :=
  if ip.type = tDev then
    match if ip.major < nmajor then sw.write ip.major else none with
    | none => pure (-1, ip)
    | some write => do
      let r ← write ip src n
      pure (r, ip)
  else if ip.size < off ∨ (off + n) % 2 ^ 64 < off then
    pure (-1, ip)
  else if maxfile * bsize < off + n then
    pure (-1, ip)
  else do
    let ip ← writeLoop sb n ip src 0 off n
    if 0 < n ∧ ip.size < off + n then do
      let ip := { ip with size := (off + n) % 2 ^ 32 }
      iupdate sb ip
      pure (n, ip)
    else
      pure (n, ip)

end RpiOs.V6
