import RpiOs.Ext2.Model

/-!
# Freeing the blocks of an ext2 file

The functions of `kern/ext2.c` from `ext2_free_blocks` to `ext2_itrunc`. They give blocks back to
the bitmaps, run by run, walk down the pointer blocks of a file and free its inode.

The pointers of a file are in the inode or in the buffers of its pointer blocks; `ext2_free_data`
and `ext2_free_branches` put zeros there before they free a block, and do not write the buffers to
the card.
-/

namespace RpiOs.Ext2

open Lib Kernel Bio

/-! ## Blocks -/

/-- Clear `n` bits from `bit` on; `none` if one of them is clear already. Source: `kern/ext2.c`
`ext2_free_blocks`. -/
def clearRun (x : Bytes) (bit : Nat) : Nat → Option Bytes
  | 0 => some x
  | n + 1 => if bitAt x bit then clearRun (clearBit x bit) (bit + 1) n else none

/-- `if (bitmap_bh) brelse(bitmap_bh)`. -/
def brelseIf : Option Nat → K Unit
  | none => pure ()
  | some bh => brelse bh

/-- Free `count` blocks of a group, with its bitmap in buffer `bh`. Source: `ext2_free_blocks`. -/
def freeInGroup (sb : SuperBlock) (group bit block count bh : Nat) : K Unit := do
  let desc ← getGroupDesc sb group
  let x ← getData desc.1
  if InSystemZone sb x desc.2 block count then
    Prog.stop (.panic "ext2_free_blocks: freeing blocks on system zone")
  else do
    let y ← getData bh
    match clearRun y bit count with
    | none => Prog.stop (.panic "ext2_free_blocks: bit already cleared for block")
    | some y => do
      modifyData bh fun _ => y
      bwrite bh
      groupAdjustBlocks desc count

/-- `ext2_free_blocks` from `do_more` on; `rounds` bounds how often it gets there. -/
def doMore (sb : SuperBlock) : Nat → Nat → Nat → Option Nat → K Unit
  | 0, _, _, _ => Prog.stop .sleep
  | rounds + 1, block, count, bitmapBh => do
    let group := (block - sb.firstDataBlock) / sb.blocksPerGroup
    let bit := (block - sb.firstDataBlock) % sb.blocksPerGroup
    -- the part of the run beyond the end of the group
    let overflow := bit + count - sb.blocksPerGroup
    let count := count - overflow
    brelseIf bitmapBh
    let bh ← readBlockBitmap sb group
    freeInGroup sb group bit block count bh
    if overflow ≠ 0 then doMore sb rounds (block + count) overflow (some bh)
    else brelse bh

/-- `ext2_free_blocks`. -/
def freeBlocks (sb : SuperBlock) (block count : Nat) : K Unit :=
  if block < sb.firstDataBlock ∨ sb.blocksCount < block + count then
    Prog.stop (.panic "ext2_free_blocks: free blocks in not datazone")
  else
    doMore sb (sb.groupsCount + 1) block count none

/-! ## The blocks of a file -/

/-- `*p = v`. -/
def store (ip : Inode) (v : Nat) : Place → K Inode
  | .inode i => pure { ip with block := fun j => if j = i then v else ip.block j }
  | .buf bh i => do
    modifyData bh fun x => setWord x i v
    pure ip

/-- The pointers in `n` places from `p` on, with a run of `count` blocks from `blockToFree` on at
hand. -/
def freeData (sb : SuperBlock) : Nat → Place → Nat → Nat → Inode → K Inode
  | 0, _, blockToFree, count, ip => do
    if 0 < count then freeBlocks sb blockToFree count else pure ()
    pure ip
  | n + 1, p, blockToFree, count, ip => do
    let nr ← load ip p
    if nr = 0 then freeData sb n (p.add 1) blockToFree count ip
    else do
      let ip ← store ip 0 p
      if count = 0 then freeData sb n (p.add 1) nr 1 ip
      else if blockToFree + count = nr then freeData sb n (p.add 1) blockToFree (count + 1) ip
      else do
        freeBlocks sb blockToFree count
        freeData sb n (p.add 1) nr 1 ip

/-- The pointer block `nr`, after what is below it. Source: `ext2_free_branches`. -/
def freeBranch (sb : SuperBlock) (below : Place → Inode → K Inode) (nr : Nat) (ip : Inode) :
    K Inode := do
  let bh ← bread ip.dev nr
  let ip ← below (.buf bh 0) ip
  brelse bh
  freeBlocks sb nr 1
  pure ip

/-- The `for` loop over `n` places from `p` on. Source: `ext2_free_branches`. -/
def forEntries (f : Nat → Inode → K Inode) : Nat → Place → Inode → K Inode
  | 0, _, ip => pure ip
  | n + 1, p, ip => do
    let nr ← load ip p
    if nr = 0 then forEntries f n (p.add 1) ip
    else do
      let ip ← store ip 0 p
      let ip ← f nr ip
      forEntries f n (p.add 1) ip

/-- `ext2_free_branches`. -/
def freeBranches (sb : SuperBlock) : Nat → Nat → Place → Inode → K Inode
  | 0, n, p, ip => freeData sb n p 0 0 ip
  | depth + 1, n, p, ip =>
    forEntries (freeBranch sb (freeBranches sb depth sb.addrPerBlock)) n p ip

/-- A whole subtree: `nr = i_data[slot]; i_data[slot] = 0; ext2_free_branches(ip, &nr, &nr + 1,
depth + 1)`.
Source: `ext2_itrunc` -/
def freeTree (sb : SuperBlock) (slot depth : Nat) (ip : Inode) : K Inode := do
  let nr := ip.block slot
  let ip ← store ip 0 (.inode slot)
  if nr = 0 then pure ip else freeBranch sb (freeBranches sb depth sb.addrPerBlock) nr ip

/-! ## The inode -/

/-- What the functions for inodes know of the superblock. -/
structure InodeTable where
  firstIno : Nat
  inodesCount : Nat
  inodeSize : Nat

/-- The other fields of the inode that go to the card. Source: `inc/file.h`, `inc/ext2.h`. -/
structure Meta where
  mode : Nat
  blocks : Nat
  nlink : Nat
  size : Nat
  atime : Nat
  ctime : Nat
  mtime : Nat
  uid : Nat
  gid : Nat

def rootIno : Nat := 2

def readInodeBitmap (sb : SuperBlock) (group : Nat) : K Nat := do
  let desc ← getGroupDesc sb group
  let x ← getData desc.1
  bread sb.minor (bgInodeBitmap x desc.2)

/-- `bg_free_inodes_count += 1`, and `bg_used_dirs_count -= 1` for a directory, in the `o`-th
descriptor of a block.
Source: `ext2_release_inode`. -/
def bgRelease (dir : Bool) (o : Nat) (x : Block) : Block :=
  let x := setHalf x (16 * o + 7) (half x (16 * o + 7) + 1)
  if dir then setHalf x (16 * o + 8) (half x (16 * o + 8) + (2 ^ 16 - 1)) else x

/-- `ext2_release_inode`. -/
def releaseInode (sb : SuperBlock) (group : Nat) (dir : Bool) : K Unit := do
  let desc ← getGroupDesc sb group
  modifyData desc.1 (bgRelease dir desc.2)
  bwrite desc.1

/-- `S_ISDIR`. -/
def isDir (mode : Nat) : Bool := mode / 2 ^ 12 % 16 = 4

/-- `ext2_free_inode`. -/
def freeInode (sb : SuperBlock) (it : InodeTable) (ino mode : Nat) : K Unit :=
  if ino < it.firstIno ∨ it.inodesCount < ino then
    Prog.stop (.panic "ext2_free_inode: reserved or non existent inode")
  else do
    let group := (ino - 1) / sb.inodesPerGroup
    let bit := (ino - 1) % sb.inodesPerGroup
    let bh ← readInodeBitmap sb group
    let x ← getData bh
    if bitAt x bit = false then
      Prog.stop (.panic "ext2_free_inode: bit already cleared")
    else do
      modifyData bh fun x => clearBit x bit
      releaseInode sb group (isDir mode)
      bwrite bh
      brelse bh

/-- The raw inode at 32-bit word `w` of a block. Source: `ext2_iupdate`; `inc/ext2.h`
`struct ext2_inode`. -/
def putInode (ip : Inode) (i : Meta) (w : Nat) (x : Block) : Block :=
  let x := setHalf x (2 * w) i.mode
  let x := setWord x (w + 7) i.blocks
  let x := setHalf x (2 * w + 13) i.nlink
  let x := (List.range 15).foldl (fun x k => setWord x (w + 10 + k) (ip.block k)) x
  let x := setWord x (w + 1) i.size
  let x := setWord x (w + 2) i.atime
  let x := setWord x (w + 3) i.ctime
  let x := setWord x (w + 4) i.mtime
  let x := setHalf x (2 * w + 1) i.uid
  let x := setHalf x (2 * w + 12) i.gid
  let x := setHalf x (2 * w + 60) (i.uid / 2 ^ 16)
  setHalf x (2 * w + 61) (i.gid / 2 ^ 16)

/-- The buffer with an inode of the table, and the byte where it starts. Source: `kern/ext2.c`
`ext2_get_inode`. -/
def getInode (sb : SuperBlock) (it : InodeTable) (ino : Nat) : K (Nat × Nat) :=
  if ino ≠ rootIno ∧ ino < it.firstIno ∨ it.inodesCount < ino then
    Prog.stop (.panic "ext2_get_inode: invalid inode number")
  else do
    let desc ← getGroupDesc sb ((ino - 1) / sb.inodesPerGroup)
    let x ← getData desc.1
    let offset := (ino - 1) % sb.inodesPerGroup * it.inodeSize
    let bh ← bread sb.minor (bgInodeTable x desc.2 + offset / 2 ^ sb.blocksizeBits)
    pure (bh, offset % sb.blocksize)

/-- `ext2_iupdate`. -/
def iupdate (sb : SuperBlock) (it : InodeTable) (ip : Inode) (i : Meta) : K Unit := do
  let (bh, offset) ← getInode sb it ip.inum
  modifyData bh (putInode ip i (offset / 4))
  bwrite bh
  brelse bh

/-- The first block is that of byte `blocksize - 1`, so that `offsets[0]` is a direct block, and the
cases of the `switch` follow each other. -/
def itrunc (sb : SuperBlock) (it : InodeTable) (ip : Inode) (i : Meta) : K Inode :=
  match blockToPath sb ((sb.blocksize - 1) / 2 ^ sb.blocksizeBits) with
  | none => Prog.stop (.panic "This block is out of bounds from this ext2 fs")
  | some ([], _) => pure ip
  | some (first :: offsets, _) => do
    let ip ←
      if offsets = [] then freeData sb (ndirBlocks - first) (.inode first) 0 0 ip else pure ip
    let ip ← if first < 12 ∨ 14 < first then freeTree sb 12 0 ip else pure ip
    let ip ← if first < 13 ∨ 14 < first then freeTree sb 13 1 ip else pure ip
    let ip ← if first < 14 ∨ 14 < first then freeTree sb 14 2 ip else pure ip
    freeInode sb it ip.inum i.mode
    iupdate sb it ip i
    pure ip

end RpiOs.Ext2
