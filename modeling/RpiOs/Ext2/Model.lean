import RpiOs.Bio.Buffer
import RpiOs.Lib.Bitmap

/-!
# The block allocator and the block map of ext2

The functions of `kern/ext2.c` between a block index of a file and a block of the card:
`ext2_new_blocks` and what it uses to search the bitmaps, `ext2_alloc_blocks` and
`ext2_block_to_path`. A `struct buf *` is the index of the buffer, and `0` among such pointers is
`none`.

The group descriptors are in a buffer that stays busy from the mount on. A pointer to a descriptor
is the buffer and the number of the descriptor in it.
-/

namespace RpiOs.Ext2

open Lib Kernel Bio

/-! ## Searching a bitmap -/

/-- The `i`-th 64-bit word of a bitmap. -/
def long (x : Bytes) (i : Nat) : Nat := word x (2 * i) + 2 ^ 32 * word x (2 * i + 1)

/-- `if ((word & (2 ^ bits - 1)) == 0) { num = f num; word >>= shift; }`. -/
def ffsStep (bits shift : Nat) (f : Nat → Nat) (s : Nat × Nat) : Nat × Nat :=
  if s.2 % 2 ^ bits = 0 then (f s.1, s.2 / 2 ^ shift) else s

/-- The second step multiplies and the third shifts by 6, as in the source. -/
def ffs (w : Nat) : Nat :=
  (ffsStep 1 0 (· + 1) (ffsStep 2 2 (· + 2) (ffsStep 4 4 (· + 4) (ffsStep 8 6 (· + 8)
    (ffsStep 16 16 (· * 16) (ffsStep 32 32 (· + 32) (0, w))))))).1

/-- `~0UL`. -/
def ones : Nat := 2 ^ 64 - 1

def ffz (w : Nat) : Nat := ffs (ones - w)

/-- From `found_first` on, with `size` bits of `tmp` left. Source: `kern/find_bits.c`. -/
def foundFirst (tmp result size : Nat) : Nat :=
  let tmp := tmp ||| (ones - (2 ^ size - 1))
  if tmp = ones then result + size else result + ffz tmp

/-- The `while` loop over whole words; `n` bounds its rounds. Source: `kern/find_bits.c`. -/
def zeroBitFrom (x : Bytes) : Nat → Nat → Nat → Nat
  | 0, result, size => if size = 0 then result else foundFirst (long x (result / 64)) result size
  | n + 1, result, size =>
    if 64 ≤ size then
      if long x (result / 64) ≠ ones then result + ffz (long x (result / 64))
      else zeroBitFrom x n (result + 64) (size - 64)
    else if size = 0 then result
    else foundFirst (long x (result / 64)) result size

/-- `find_next_zero_bit`, word by word. -/
def findNextZeroBit (x : Bytes) (size offset : Nat) : Nat :=
  let result := offset / 64 * 64
  if size ≤ offset then size
  else if offset % 64 ≠ 0 then
    let tmp := long x (offset / 64) ||| (2 ^ (offset % 64) - 1)
    if size - result < 64 then foundFirst tmp result (size - result)
    else if tmp ≠ ones then result + ffz tmp
    else zeroBitFrom x ((size - result) / 64) (result + 64) (size - result - 64)
  else zeroBitFrom x ((size - result) / 64 + 1) result (size - result)

/-- The number of bytes before the first zero byte among `n`. -/
def memscan (x : Bytes) : Nat → Nat → Nat
  | p, 0 => p
  | p, n + 1 => if x p = 0 then p else memscan x (p + 1) n

def bitmapSearchNextUsableBlock (start : Nat) (x : Bytes) (maxblocks : Nat) : Option Nat :=
  let next := findNextZeroBit x maxblocks start
  if maxblocks ≤ next then none else some next

/-- `find_next_usable_block`. -/
def findNextUsableBlock (start : Nat) (x : Bytes) (maxblocks : Nat) : Option Nat :=
  let endGoal := min ((start + 63) / 64 * 64) maxblocks
  let here := findNextZeroBit x endGoal start
  if 0 < start ∧ here < endGoal then some here
  else
    let next := 8 * memscan x (start / 8) ((maxblocks + 7) / 8 - start / 8)
    if next < maxblocks ∧ start ≤ next then some next
    else bitmapSearchNextUsableBlock start x maxblocks

/-- `for (i = 0; i < n && goal > start && !test_bit(goal - 1); i++, goal--)`.
Source: `ext2_try_to_allocate` -/
def backUp (x : Bytes) (start : Nat) : Nat → Nat → Nat
  | 0, goal => goal
  | n + 1, goal =>
    if start < goal ∧ bitAt x (goal - 1) = false then backUp x start n (goal - 1) else goal

/-- Set up to `n` clear bits from `goal` on and stop at a set one; the bitmap and how many there
were. Source: `ext2_try_to_allocate`. -/
def claim (x : Bytes) (goal : Nat) : Nat → Bytes × Nat
  | 0 => (x, 0)
  | n + 1 =>
    if bitAt x goal then (x, 0)
    else
      let r := claim (setBit x goal) (goal + 1) n
      (r.1, r.2 + 1)

/-- What `ext2_try_to_allocate` returns: the bitmap, `*count`, and the first bit it took. -/
structure Taken where
  bitmap : Block
  count : Nat
  bit : Option Nat

/-- Take a run of free blocks of a group, from `grpGoal` on or, if that is `none`, from anywhere.
The first bit of the run is searched with `test_and_set`; after it at most `count - 1` more are
taken. -/
def tryToAllocate (blocksPerGroup : Nat) (x : Block) (grpGoal : Option Nat) (count : Nat) : Taken :=
  let goal := match grpGoal with
    | some g => some g
    | none => (findNextUsableBlock 0 x blocksPerGroup).map (backUp x 0 7)
  match goal.bind fun g => firstClear x g (blocksPerGroup - g) with
  | none => ⟨x, 0, none⟩
  | some g =>
    let r := claim (setBit x g) (g + 1) (min (count - 1) (blocksPerGroup - (g + 1)))
    ⟨r.1, r.2 + 1, some g⟩

/-! ## The superblock and the group descriptors -/

/-- What `ext2_readsb` leaves in memory. Source: `inc/vfs.h`, `inc/ext2.h`. -/
structure SuperBlock where
  minor : Nat
  blocksize : Nat
  blocksizeBits : Nat
  firstDataBlock : Nat
  blocksCount : Nat
  blocksPerGroup : Nat
  inodesPerGroup : Nat
  itbPerGroup : Nat
  descPerBlock : Nat
  descPerBlockBits : Nat
  groupsCount : Nat
  addrPerBlockBits : Nat
  /-- `s_group_desc`. -/
  groupDesc : Nat → Option Nat

/-- `inc/ext2.h` `ext2_group_first_block_no`. -/
def SuperBlock.groupFirstBlockNo (sb : SuperBlock) (group : Nat) : Nat :=
  group * sb.blocksPerGroup + sb.firstDataBlock

/-- `desc->bg_block_bitmap` of the `o`-th descriptor in a block. -/
def bgBlockBitmap (x : Block) (o : Nat) : Nat := word x (8 * o)

/-- `desc->bg_inode_bitmap`. -/
def bgInodeBitmap (x : Block) (o : Nat) : Nat := word x (8 * o + 1)

/-- `desc->bg_inode_table`. -/
def bgInodeTable (x : Block) (o : Nat) : Nat := word x (8 * o + 2)

/-- `desc->bg_free_blocks_count`. -/
def bgFreeBlocksCount (x : Block) (o : Nat) : Nat := half x (16 * o + 6)

/-- The buffer of a group's descriptor and the descriptor's number in it. -/
def getGroupDesc (sb : SuperBlock) (group : Nat) : K (Nat × Nat) :=
  if sb.groupsCount ≤ group then
    Prog.stop (.panic "Block group # is too large\n")
  else
    match sb.groupDesc (group / 2 ^ sb.descPerBlockBits) with
    | none => Prog.stop (.panic "Accessing a group descriptor not loaded\n")
    | some bh => pure (bh, group % (sb.descPerBlock - 1))

def readBlockBitmap (sb : SuperBlock) (group : Nat) : K Nat := do
  let desc ← getGroupDesc sb group
  let x ← getData desc.1
  bread sb.minor (bgBlockBitmap x desc.2)

/-- The free blocks of a group are `count` more, or fewer if it is negative. The field has 16
bits. -/
def groupAdjustBlocks (desc : Nat × Nat) (count : Int) : K Unit :=
  if count ≠ 0 then do
    modifyData desc.1 fun x =>
      setHalf x (16 * desc.2 + 6) ((bgFreeBlocksCount x desc.2 + count) % 2 ^ 16).toNat
    bwrite desc.1
  else
    pure ()

/-- `brelse` of a pointer that may be null. -/
def brelsePtr : Option Nat → K Unit
  | none => Prog.stop .fault
  | some bh => brelse bh

/-! ## Allocating blocks -/

/-- The run of blocks that the search has taken: `num` of them from bit `bit` of the bitmap in
buffer `bh` on. -/
structure Found where
  group : Nat
  desc : Nat × Nat
  bh : Nat
  num : Nat
  bit : Nat

/-- `ext2_try_to_allocate` on the bitmap in buffer `bh`; the run, or `*count`. -/
def tryGroup (sb : SuperBlock) (group : Nat) (desc : Nat × Nat) (bh : Nat) (grpGoal : Option Nat)
    (num : Nat) : K (Nat ⊕ Found) := do
  let x ← getData bh
  let t := tryToAllocate sb.blocksPerGroup x grpGoal num
  modifyData bh fun _ => t.bitmap
  match t.bit with
  | none => pure (.inl t.count)
  | some bit => pure (.inr ⟨group, desc, bh, t.count, bit⟩)

/-- The loop over the other groups, `n` of them after `group`; without a run, the bitmap buffer that
is still held. Source: `ext2_new_blocks`. -/
def searchGroups (sb : SuperBlock) : Nat → Nat → Option Nat → Nat → K (Option Nat ⊕ Found)
  | 0, _, bitmapBh, _ => pure (.inl bitmapBh)
  | n + 1, group, bitmapBh, num => do
    let group := if sb.groupsCount ≤ group + 1 then 0 else group + 1
    let desc ← getGroupDesc sb group
    let x ← getData desc.1
    if bgFreeBlocksCount x desc.2 = 0 then
      searchGroups sb n group bitmapBh num
    else do
      brelsePtr bitmapBh
      let bh ← readBlockBitmap sb group
      match ← tryGroup sb group desc bh none num with
      | .inr f => pure (.inr f)
      | .inl num => searchGroups sb n group (some bh) num

/-- From `retry_alloc` to `allocated` or `out`. Source: `ext2_new_blocks`. -/
def search (sb : SuperBlock) (goal group : Nat) (bitmapBh : Option Nat) (num : Nat) :
    K (Option Nat ⊕ Found) := do
  let desc ← getGroupDesc sb group
  let x ← getData desc.1
  if 0 < bgFreeBlocksCount x desc.2 then do
    let bh ← readBlockBitmap sb group
    match ← tryGroup sb group desc bh (some ((goal - sb.firstDataBlock) % sb.blocksPerGroup))
      num with
    | .inr f => pure (.inr f)
    | .inl num => searchGroups sb sb.groupsCount group (some bh) num
  else
    searchGroups sb sb.groupsCount group bitmapBh num

/-- `in_range(b, first, len)`, in 64 bits. Source: `kern/ext2.c`. -/
def InRange (b first len : Nat) : Prop := first ≤ b ∧ b ≤ (first + len + (2 ^ 64 - 1)) % 2 ^ 64

instance (b first len : Nat) : Decidable (InRange b first len) :=
  inferInstanceAs (Decidable (_ ∧ _))

/-- The run meets the bitmaps or the inode table of its group. Source: `kern/ext2.c`
`ext2_new_blocks`. -/
def InSystemZone (sb : SuperBlock) (x : Block) (o ret num : Nat) : Prop :=
  InRange (bgBlockBitmap x o) ret num ∨ InRange (bgInodeBitmap x o) ret num ∨
    InRange ret (bgInodeTable x o) sb.itbPerGroup ∨
    InRange (ret + num - 1) (bgInodeTable x o) sb.itbPerGroup

instance (sb : SuperBlock) (x : Block) (o ret num : Nat) :
    Decidable (InSystemZone sb x o ret num) :=
  inferInstanceAs (Decidable (_ ∨ _ ∨ _ ∨ _))

/-- What `ext2_new_blocks` returns: the block, `*errp` and `*count`. -/
structure NewBlocks where
  block : Nat
  err : Int
  count : Nat

/-- `ext2_new_blocks` from `retry_alloc` on; `tries` bounds how often it gets there. The assignment
`*count = num` is commented out in the source. -/
def retryAlloc (sb : SuperBlock) (goal count : Nat) : Nat → Nat → Option Nat → Nat → K NewBlocks
  | 0, _, _, _ => Prog.stop .sleep
  | tries + 1, group, bitmapBh, num => do
    match ← search sb goal group bitmapBh num with
    | .inl bitmapBh => do
      brelsePtr bitmapBh
      pure ⟨0, -1, count⟩
    | .inr f => do
      let x ← getData f.desc.1
      let ret := f.bit + sb.groupFirstBlockNo f.group
      if InSystemZone sb x f.desc.2 ret f.num then
        retryAlloc sb goal count tries f.group (some f.bh) f.num
      else if sb.blocksCount ≤ ret + f.num - 1 then
        Prog.stop (.panic "Error on ext2 block alloc")
      else do
        groupAdjustBlocks f.desc (-f.num)
        bwrite f.bh
        brelse f.bh
        pure ⟨ret, 0, count⟩

/-- `ext2_new_blocks`. -/
def newBlocks (sb : SuperBlock) (goal count : Nat) : K NewBlocks :=
  let goal := if goal < sb.firstDataBlock ∨ sb.blocksCount ≤ goal then sb.firstDataBlock else goal
  retryAlloc sb goal count 2 ((goal - sb.firstDataBlock) / sb.blocksPerGroup) none count

/-- What `ext2_alloc_blocks` returns: `new_blocks[0 .. indirect_blks - 1]`,
`new_blocks[indirect_blks]` and the number of direct blocks. -/
structure AllocBlocks where
  indirect : List Nat
  direct : Nat
  count : Nat

/-- The `while (1)` loop; `rounds` bounds its rounds. Source: `ext2_alloc_blocks`. -/
def allocBlocksLoop (sb : SuperBlock) (goal indirectBlks : Nat) :
    Nat → Nat → List Nat → K AllocBlocks
  | 0, _, _ => Prog.stop .sleep
  | rounds + 1, target, news => do
    let r ← newBlocks sb goal target
    if r.err ≠ 0 then
      Prog.stop (.panic "ext2 error on ext2_alloc_blocks")
    else
      let target := target - r.count
      let n := min (indirectBlks - news.length) r.count
      let news := news ++ List.range' r.block n
      if 0 < r.count - n then
        pure ⟨news, r.block + n, r.count - n⟩
      else
        allocBlocksLoop sb goal indirectBlks rounds target news

/-- `ext2_alloc_blocks`. -/
def allocBlocks (sb : SuperBlock) (goal indirectBlks blks : Nat) : K AllocBlocks :=
  allocBlocksLoop sb goal indirectBlks (sb.blocksCount + 1) (blks + indirectBlks) []

/-! ## The block map of a file -/

/-- The fields of the inode that the block map uses. Source: `inc/file.h`, `inc/ext2.h`. -/
structure Inode where
  dev : Nat
  inum : Nat
  /-- `i_block[0 .. 14]`. -/
  block : Nat → Nat

/-- Where a block number is stored: in the inode or in a buffer. -/
inductive Place where
  | inode (i : Nat)
  | buf (bh i : Nat)
  deriving DecidableEq

def ndirBlocks : Nat := 12

/-- `inc/ext2.h` `EXT2_ADDR_PER_BLOCK`. -/
def SuperBlock.addrPerBlock (sb : SuperBlock) : Nat := sb.blocksize / 4

/-- The offsets on the way to block `n` of a file and the number of blocks after it in its pointer
block; `none` beyond the largest file. -/
def blockToPath (sb : SuperBlock) (n : Nat) : Option (List Nat × Nat) :=
  let ptrs := sb.addrPerBlock
  let bits := sb.addrPerBlockBits
  let double := 2 ^ (bits * 2)
  if n < ndirBlocks then some ([n], ndirBlocks - 1 - n % ptrs)
  else if n - ndirBlocks < ptrs then
    some ([ndirBlocks, n - ndirBlocks], ptrs - 1 - (n - ndirBlocks) % ptrs)
  else if n - ndirBlocks - ptrs < double then
    let k := n - ndirBlocks - ptrs
    some ([ndirBlocks + 1, k / 2 ^ bits, k % ptrs], ptrs - 1 - k % ptrs)
  else if (n - ndirBlocks - ptrs - double) / 2 ^ (bits * 2) < ptrs then
    let k := n - ndirBlocks - ptrs - double
    some ([ndirBlocks + 2, k / 2 ^ (bits * 2), k / 2 ^ bits % ptrs, k % ptrs], ptrs - 1 - k % ptrs)
  else none

/-- `*p`. -/
def load (ip : Inode) : Place → K Nat
  | .inode i => pure (ip.block i)
  | .buf bh i => do
    let x ← getData bh
    pure (word x i)

/-- The place `n` numbers further. -/
def Place.add : Place → Nat → Place
  | .inode i, n => .inode (i + n)
  | .buf bh i, n => .buf bh (i + n)

end RpiOs.Ext2
