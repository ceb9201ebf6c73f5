import RpiOs.Kernel.Machine

/-!
# From block numbers to bytes of the card

`dev_start` turns the block number of a buffer into a byte offset, and the card driver turns that
into the argument of a command. This module follows a request down to the bytes that the card
transfers and compares them with the bytes that the file system means by its block.

* `serve_eq`: a request that passes the assertion transfers `BSIZE` bytes from
  `(lba * 512 + blockno * 4096) % 2 ^ 32`, whatever the block size of the file system is.
* `bread_addressing_iff`: for a block inside the file system these are the bytes of the block
  exactly if the block size is 4096, the block starts below 4 GiB, and the reader of the superblock
  has taken the partition of the device. `v6_readsb` takes the second partition for every device.
* `devStart_refines`: under that condition the card is the `Disk` by which the block layer is
  modelled.

What `emmc_issue_command` does on the bus is left out: it succeeds after some number of failed
attempts, and then the card moves the bytes.

Sources: `kern/dev.c`, `kern/emmc.c`, `kern/ext2.c`, `kern/v6.c`, `inc/emmc.h`, `inc/vfs.h`.
-/

namespace RpiOs.Dev

open Lib Kernel

/-! ## The superblock readers -/

/-- What is read of an entry of the partition table. -/
structure Ptable where
  lba : BitVec 32
  nsecs : BitVec 32
  deriving DecidableEq, Repr

/-- What the device layer and the readers keep of a file system. -/
structure Superblock where
  blocksize : BitVec 32
  lba : BitVec 32
  nsecs : BitVec 32
  deriving DecidableEq, Repr

/-- `V6MINOR`. -/
def v6minor : Nat := 1

/-- The block size is `BSIZE`; the partition is the second one whatever the device is. -/
def v6Readsb (mbr : Nat → Ptable) : Superblock :=
  ⟨BitVec.ofNat 32 bsize, (mbr v6minor).lba, (mbr v6minor).nsecs⟩

/-- `EXT2_MIN_BLKSIZE`. -/
def ext2MinBlksize : BitVec 32 := 1024

/-- `EXT2_SUPER_MAGIC`. -/
def ext2SuperMagic : Nat := 0xEF53

/-- `EXT2_MAX_BGC`. -/
def ext2MaxBgc : Nat := 40

/-- The superblock made from the contents of block 0, if none of the checks panics. The second read,
made when the block size is not 1024, finds the same buffer again. -/
def ext2Readsb (mbr : Nat → Ptable) (dev : Nat) (data : Bytes) : Option Superblock :=
  -- the fields of `struct ext2_superblock`, which starts at byte 1024
  let field := fun i => word data (256 + i)
  let blocksize := ext2MinBlksize <<< field 6
  let groups := ((field 1 + 2 ^ 33 - field 5 - 1) % 2 ^ 32) / field 8 + 1
  let perBlock := blocksize.toNat / 32
  if field 14 % 2 ^ 16 ≠ ext2SuperMagic then none
  else if field 8 > blocksize.toNat * 8 then none
  else if field 10 > blocksize.toNat * 8 then none
  else if (groups + perBlock - 1) / perBlock > ext2MaxBgc then none
  else some ⟨blocksize, (mbr dev).lba, (mbr dev).nsecs⟩

/-- The reader that has filled `sb[dev]`, with what it finds in block 0. -/
inductive Reader where
  | v6
  | ext2 (data : Bytes)

def Reader.readsb (mbr : Nat → Ptable) (dev : Nat) : Reader → Option Superblock
  | .v6 => some (v6Readsb mbr)
  | .ext2 data => ext2Readsb mbr dev data

/-! ## The card -/

/-- `SD_BLOCK_SIZE`. -/
def sdBlockSize : Nat := 512

/-- Bytes that a command moved. -/
structure Transfer where
  start : Nat
  length : Nat
  isWrite : Bool
  deriving DecidableEq, Repr

/-- The driver's record of the card, with the bytes on it and what has been transferred. -/
structure Emmc where
  ullOffset : BitVec 64
  cardSupportsSdhc : Bool
  blockSize : Nat
  /-- `emmc_ensure_data_mode` returns 0. -/
  dataMode : Bool
  /-- The attempts at a command that fail before one succeeds. -/
  failures : Nat
  bytes : Bytes
  trace : List Transfer

/-- The driver is initialised and the card answers. -/
structure Emmc.Works (c : Emmc) : Prop where
  blockSize : c.blockSize = sdBlockSize
  dataMode : c.dataMode = true
  failures : c.failures < 3

/-- The card moves `n` bytes from or to `start`. -/
def Emmc.move (c : Emmc) (isWrite : Bool) (buf : Bytes) (start n : Nat) : Bytes × Emmc :=
  let trace := c.trace ++ [⟨start, n, isWrite⟩]
  if isWrite then
    (buf, { c with bytes := splice c.bytes start buf 0 n, trace := trace })
  else
    (splice buf 0 c.bytes start n, { c with trace := trace })

/-- The card executes a command: an SDHC card takes the argument as a sector, an older one as a
byte address. Source: `emmc_do_data_command`, the comment on SDSC cards. -/
def Emmc.command (c : Emmc) (isWrite : Bool) (buf : Bytes) (blocks : Nat) (arg : BitVec 32) :
    Bytes × Emmc :=
  c.move isWrite buf (if c.cardSupportsSdhc then arg.toNat * sdBlockSize else arg.toNat)
    (blocks * c.blockSize)

/-- `none` is the return value `-1`. -/
def emmcDoDataCommand (c : Emmc) (isWrite : Bool) (buf : Bytes) (bufSize : Nat)
    (blockNo : BitVec 32) : Option (Bytes × Emmc) :=
  let blockNo := if c.cardSupportsSdhc then blockNo else blockNo * BitVec.ofNat 32 sdBlockSize
  if bufSize < c.blockSize then none
  else if bufSize % c.blockSize ≠ 0 then none
  else if 3 ≤ c.failures then none
  else some (c.command isWrite buf (bufSize / c.blockSize) blockNo)

/-- The common text of `emmc_do_read` and `emmc_do_write`. -/
def emmcDo (isWrite : Bool) (c : Emmc) (buf : Bytes) (bufSize : Nat) (blockNo : BitVec 32) :
    Option (Bytes × Emmc) :=
  if c.dataMode then emmcDoDataCommand c isWrite buf bufSize blockNo else none

def emmcDoRead := emmcDo false

def emmcDoWrite := emmcDo true

/-- The common text of `emmc_read` and `emmc_write`: the sector at the offset last sought. -/
def emmcAt (doIt : Emmc → Bytes → Nat → BitVec 32 → Option (Bytes × Emmc)) (c : Emmc) (buf : Bytes)
    (cnt : Nat) : Option (Bytes × Emmc) :=
  if c.ullOffset.toNat % sdBlockSize ≠ 0 then none
  else doIt c buf cnt (BitVec.ofNat 32 (c.ullOffset.toNat / sdBlockSize))

def emmcRead := emmcAt emmcDoRead

def emmcWrite := emmcAt emmcDoWrite

def emmcSeek (c : Emmc) (off : BitVec 64) : Emmc := { c with ullOffset := off }

/-! ## Requests -/

section requests

variable (sb : Nat → Superblock)

/-- The sector a request starts at, in the arithmetic of `uint32_t`; `none` is the failed assertion.
The boot record is asked for as block `(uint32_t)-1`.
Source: `dev_start` -/
def sector (b : Buf) : Option (BitVec 32) :=
  let blockno := BitVec.ofNat 32 b.blockno
  if blockno = BitVec.allOnes 32 then some 0
  else if blockno < (sb b.dev).nsecs then some (blockno * 8 + (sb b.dev).lba)
  else none

/-- One round of the loop. The product with the sector size is made in 32 bits, then widened.
Source: `dev_start` -/
def serve (b : Buf) (c : Emmc) : Option (Buf × Emmc) := do
  let bno ← sector sb b
  let c := emmcSeek c ((bno * BitVec.ofNat 32 sdBlockSize).setWidth 64)
  let r ← if b.dirty then emmcWrite c b.data bsize else emmcRead c b.data bsize
  some ({ b with data := r.1, valid := true, dirty := false }, r.2)

/-- The whole queue. -/
def devStart : List Buf → Emmc → Option (List Buf × Emmc)
  | [], c => some ([], c)
  | b :: queue, c => do
    let r ← serve sb b c
    let rest ← devStart queue r.2
    some (r.1 :: rest.1, rest.2)

/-- A request on an idle device: the process that queued it serves it. -/
def devrw (b : Buf) (c : Emmc) : Option (Buf × Emmc) := do
  let r ← devStart sb [b] c
  match r.1 with
  | [b'] => some (b', r.2)
  | _ => none

/-- `bread` after `bget` returned the buffer `b`. -/
def bread (b : Buf) (c : Emmc) : Option (Buf × Emmc) :=
  if b.valid then some (b, c) else devrw sb b c

end requests

/-! ## Where a request ends up -/

@[simp] lemma move_trace (c : Emmc) (isWrite : Bool) (buf : Bytes) (start n : Nat) :
    (c.move isWrite buf start n).2.trace = c.trace ++ [⟨start, n, isWrite⟩] := by
  unfold Emmc.move
  split <;> rfl

variable {sb : Nat → Superblock} {b : Buf} {c : Emmc}

/-- Both kinds of card move the bytes at the offset sought, if it is a multiple of the sector size
below 4 GiB. -/
lemma emmcAt_eq (h : c.Works) (isWrite : Bool) (buf : Bytes)
    (hmod : c.ullOffset.toNat % sdBlockSize = 0) (hlt : c.ullOffset.toNat < 2 ^ 32) :
    emmcAt (emmcDo isWrite) c buf bsize = some (c.move isWrite buf c.ullOffset.toNat bsize) := by
  have hsector : (BitVec.ofNat 32 (c.ullOffset.toNat / sdBlockSize)).toNat * sdBlockSize =
      c.ullOffset.toNat := by
    rw [BitVec.toNat_ofNat]
    unfold sdBlockSize at hmod ⊢
    omega
  have hbyte : (BitVec.ofNat 32 (c.ullOffset.toNat / sdBlockSize) *
      BitVec.ofNat 32 sdBlockSize).toNat = c.ullOffset.toNat := by
    rw [BitVec.toNat_mul, BitVec.toNat_ofNat, BitVec.toNat_ofNat]
    unfold sdBlockSize at hmod ⊢
    omega
  have hfail : ¬ 3 ≤ c.failures := Nat.not_le.mpr h.failures
  have hcommand : c.command isWrite buf (bsize / c.blockSize)
      (if c.cardSupportsSdhc then BitVec.ofNat 32 (c.ullOffset.toNat / sdBlockSize)
        else BitVec.ofNat 32 (c.ullOffset.toNat / sdBlockSize) * BitVec.ofNat 32 sdBlockSize) =
      c.move isWrite buf c.ullOffset.toNat bsize := by
    have hsize : bsize / c.blockSize * c.blockSize = bsize := by rw [h.blockSize]; rfl
    rw [Emmc.command, hsize]
    cases c.cardSupportsSdhc with
    | true => rw [if_pos rfl, if_pos rfl, hsector]
    | false => rw [if_neg Bool.false_ne_true, if_neg Bool.false_ne_true, hbyte]
  have hdiv : ¬ bsize % c.blockSize ≠ 0 := by rw [h.blockSize]; decide
  have hle : ¬ bsize < c.blockSize := by rw [h.blockSize]; decide
  rw [emmcAt, if_neg (not_not.mpr hmod), emmcDo, if_pos h.dataMode, emmcDoDataCommand, if_neg hle,
    if_neg hdiv, if_neg hfail, hcommand]

/-- The byte that a request starts at, as computed. -/
def place (p : Superblock) (blockno : Nat) : Nat :=
  (p.lba.toNat * sdBlockSize + blockno * bsize) % 2 ^ 32

/-- A block number below 2^32 - 1 is kept in 32 bits, and is not that of the boot record. -/
lemma blockno_ok {n : Nat} (h : n < 2 ^ 32 - 1) : (BitVec.ofNat 32 n).toNat = n ∧
    BitVec.ofNat 32 n ≠ BitVec.allOnes 32 := by
  have hn : (BitVec.ofNat 32 n).toNat = n := by
    rw [BitVec.toNat_ofNat]
    omega
  refine ⟨hn, fun heq => ?_⟩
  have := congrArg BitVec.toNat heq
  rw [hn, BitVec.toNat_allOnes] at this
  omega

/-- A request for a block below the number of sectors of the partition starts at its `place`. The
assertion compares a block number with a number of sectors, so it lets through eight times as many
blocks as there are. -/
lemma sector_eq (hlt : b.blockno < (sb b.dev).nsecs.toNat) : ∃ bno, sector sb b = some bno ∧
      ((bno * BitVec.ofNat 32 sdBlockSize).setWidth 64).toNat = place (sb b.dev) b.blockno := by
  obtain ⟨hb, hne⟩ := blockno_ok (n := b.blockno) (by omega)
  have hcmp : BitVec.ofNat 32 b.blockno < (sb b.dev).nsecs := by
    rw [BitVec.lt_def, hb]
    exact hlt
  have hsector : sector sb b = some (BitVec.ofNat 32 b.blockno * 8 + (sb b.dev).lba) := by
    simp only [sector, if_neg hne, if_pos hcmp]
  refine ⟨_, hsector, ?_⟩
  rw [BitVec.toNat_setWidth, BitVec.toNat_mul, BitVec.toNat_add, BitVec.toNat_mul, hb, place,
    BitVec.toNat_ofNat]
  rw [show (8 : BitVec 32).toNat = 8 from rfl]
  simp only [sdBlockSize, bsize]
  omega

/-- **What one request does**: `BSIZE` bytes move at its `place`. -/
theorem serve_eq (h : c.Works) (hlt : b.blockno < (sb b.dev).nsecs.toNat) :
    ∃ off, let r := (emmcSeek c off).move b.dirty b.data (place (sb b.dev) b.blockno) bsize
      serve sb b c = some ({ b with data := r.1, valid := true, dirty := false }, r.2) := by
  obtain ⟨bno, hbno, hplace⟩ := sector_eq hlt
  refine ⟨(bno * BitVec.ofNat 32 sdBlockSize).setWidth 64, ?_⟩
  have hoff : (emmcSeek c ((bno * BitVec.ofNat 32 sdBlockSize).setWidth 64)).ullOffset.toNat =
      place (sb b.dev) b.blockno := hplace
  have hbound : place (sb b.dev) b.blockno < 2 ^ 32 := Nat.mod_lt _ (by decide)
  have hmod : place (sb b.dev) b.blockno % sdBlockSize = 0 := by
    simp only [place, sdBlockSize, bsize]
    omega
  have hat := emmcAt_eq (c := emmcSeek c ((bno * BitVec.ofNat 32 sdBlockSize).setWidth 64))
    ⟨h.blockSize, h.dataMode, h.failures⟩ b.dirty b.data (by rw [hoff]; exact hmod)
      (by rw [hoff]; exact hbound)
  rw [hoff] at hat
  simp only [serve, hbno, emmcWrite, emmcRead, emmcDoWrite, emmcDoRead, Option.bind_eq_bind,
    Option.bind_some]
  cases hd : b.dirty <;> rw [hd] at hat <;> simp [hat]

/-- The transfer of a request. -/
def transferOf (sb : Nat → Superblock) (b : Buf) : Transfer :=
  ⟨place (sb b.dev) b.blockno, bsize, b.dirty⟩

lemma serve_trace (h : c.Works) (hlt : b.blockno < (sb b.dev).nsecs.toNat) :
    ∃ b' c', serve sb b c = some (b', c') ∧ c'.trace = c.trace ++ [transferOf sb b] := by
  obtain ⟨off, hserve⟩ := serve_eq h hlt
  exact ⟨_, _, hserve, move_trace ..⟩

lemma devrw_eq (b : Buf) (c : Emmc) : devrw sb b c = serve sb b c := by
  unfold devrw devStart devStart
  cases serve sb b c with
  | none => rfl
  | some r => rfl

/-- A block number beyond the number of sectors fails the assertion. -/
lemma bread_none (hge : (sb b.dev).nsecs.toNat ≤ b.blockno) (hlt : b.blockno < 2 ^ 31)
    (hmiss : b.valid = false) : bread sb b c = none := by
  obtain ⟨hb, hne⟩ := blockno_ok (n := b.blockno) (by omega)
  have hcmp : ¬ BitVec.ofNat 32 b.blockno < (sb b.dev).nsecs := by
    rw [BitVec.lt_def, hb]
    omega
  have hsector : sector sb b = none := by simp only [sector, if_neg hne, if_neg hcmp]
  rw [bread, hmiss, if_neg Bool.false_ne_true, devrw_eq, serve, hsector]
  rfl

/-! ## The bytes that the file system means -/

/-- The partition has a block `b` of this size: it ends inside. -/
def Ptable.Has (p : Ptable) (blocksize b : Nat) : Prop :=
  (b + 1) * blocksize ≤ p.nsecs.toNat * sdBlockSize

/-- The bytes of block `b`, all of them and no others, in the partition. -/
structure Ptable.IsBlock (p : Ptable) (blocksize b : Nat) (t : Transfer) : Prop where
  start : t.start = p.lba.toNat * sdBlockSize + b * blocksize
  length : t.length = blocksize
  inside : p.lba.toNat * sdBlockSize ≤ t.start ∧
    t.start + t.length ≤ (p.lba.toNat + p.nsecs.toNat) * sdBlockSize

/-- The condition under which the bytes are the right ones. For `v6_readsb` the second partition
must start where that of the device does, up to multiples of 4 GiB, and pass the assertion. -/
structure Reader.Reaches (r : Reader) (mbr : Nat → Ptable) (dev blocksize b : Nat) : Prop where
  size : blocksize = bsize
  below : (mbr dev).lba.toNat * sdBlockSize + b * bsize < 2 ^ 32
  partition : r = .v6 →
    (mbr v6minor).lba.toNat % 2 ^ 23 = (mbr dev).lba.toNat ∧ b < (mbr v6minor).nsecs.toNat

/-- The entry of the partition table that a reader takes for a device. -/
def Reader.entry (dev : Nat) : Reader → Nat
  | .v6 => v6minor
  | .ext2 _ => dev

/-- The place and the length that a reader stores are those of the partition it takes. -/
lemma Reader.readsb_eq {r : Reader} {mbr : Nat → Ptable} {dev : Nat} {p : Superblock}
    (h : r.readsb mbr dev = some p) :
    p.lba = (mbr (r.entry dev)).lba ∧ p.nsecs = (mbr (r.entry dev)).nsecs := by
  cases r with
  | v6 =>
    cases h
    exact ⟨rfl, rfl⟩
  | ext2 data =>
    simp only [Reader.readsb, ext2Readsb] at h
    split_ifs at h
    cases h
    exact ⟨rfl, rfl⟩

/-- A block of the file system passes the assertion on its own partition, if blocks are not smaller
than sectors. -/
lemma Ptable.Has.lt_nsecs {p : Ptable} {blocksize b : Nat} (hb : p.Has blocksize b)
    (hsize : 1024 ≤ blocksize) : b < p.nsecs.toNat ∧ b < 2 ^ 31 := by
  have hle : (b + 1) * 1024 ≤ (b + 1) * blocksize := Nat.mul_le_mul_left _ hsize
  have hlt := p.nsecs.isLt
  unfold Ptable.Has sdBlockSize at hb
  omega

/-- The transfer of a block is that block of the partition exactly under this condition on the
sector that the reader has taken as the first. -/
lemma isBlock_place_iff {part : Ptable} {p : Superblock} {b : Nat}
    (hb : part.Has p.blocksize.toNat b) (w : Bool)
    : part.IsBlock p.blocksize.toNat b ⟨place p b, bsize, w⟩ ↔
      p.blocksize.toNat = bsize ∧ part.lba.toNat * sdBlockSize + b * bsize < 2 ^ 32 ∧
        p.lba.toNat % 2 ^ 23 = part.lba.toNat := by
  constructor
  · rintro ⟨hstart, hlength, -⟩
    dsimp only at hstart hlength
    rw [← hlength] at hstart
    refine ⟨hlength.symm, ?_, ?_⟩
    · rw [← hstart]
      exact Nat.mod_lt _ (by decide)
    · simp only [place, sdBlockSize, bsize] at hstart
      omega
  rintro ⟨hsize, hlt, hlba⟩
  have hplace : place p b = part.lba.toNat * sdBlockSize + b * bsize := by
    simp only [place, sdBlockSize, bsize] at hlt ⊢
    omega
  unfold Ptable.Has at hb
  refine ⟨by rw [hsize]; exact hplace, hsize.symm, ?_⟩
  dsimp only
  rw [hplace]
  rw [hsize] at hb
  simp only [sdBlockSize, bsize] at hb ⊢
  omega

/-- **`bread` of a block that is not cached transfers exactly that block of the file system, and
nothing outside its partition, iff the block size is 4096, the block starts below 4 GiB and the
reader of the superblock has taken the right partition**: for every partition table, both readers,
every block size from 1 KiB to 4 KiB, every block of the file system, and both kinds of card. -/
theorem bread_addressing_iff (mbr : Nat → Ptable) (r : Reader) (sb : Nat → Superblock) (b : Buf)
    (c : Emmc) (h : c.Works) (hread : r.readsb mbr b.dev = some (sb b.dev))
    (hsize : 1024 ≤ (sb b.dev).blocksize.toNat ∧ (sb b.dev).blocksize.toNat ≤ 4096)
    (hb : (mbr b.dev).Has (sb b.dev).blocksize.toNat b.blockno) (hmiss : b.valid = false) :
    (∃ b' c' t, bread sb b c = some (b', c') ∧ c'.trace = c.trace ++ [t] ∧
      (mbr b.dev).IsBlock (sb b.dev).blocksize.toNat b.blockno t) ↔
      r.Reaches mbr b.dev (sb b.dev).blocksize.toNat b.blockno := by
  obtain ⟨hown, hsmall⟩ := hb.lt_nsecs hsize.1
  obtain ⟨hlba, hnsecs⟩ := Reader.readsb_eq hread
  have hreaches : r.Reaches mbr b.dev (sb b.dev).blocksize.toNat b.blockno ↔
      b.blockno < (sb b.dev).nsecs.toNat ∧ (sb b.dev).blocksize.toNat = bsize ∧
        (mbr b.dev).lba.toNat * sdBlockSize + b.blockno * bsize < 2 ^ 32 ∧
        (sb b.dev).lba.toNat % 2 ^ 23 = (mbr b.dev).lba.toNat := by
    rw [hlba, hnsecs]
    cases r with
    | v6 =>
      constructor
      · rintro ⟨hs, hlow, hpart⟩
        exact ⟨(hpart rfl).2, hs, hlow, (hpart rfl).1⟩
      · rintro ⟨hin, hs, hlow, hpart⟩
        exact ⟨hs, hlow, fun _ => ⟨hpart, hin⟩⟩
    | ext2 data =>
      constructor
      · rintro ⟨hs, hlow, -⟩
        have hfits : (mbr b.dev).lba.toNat < 2 ^ 23 := by
          simp only [sdBlockSize] at hlow
          omega
        exact ⟨hown, hs, hlow, Nat.mod_eq_of_lt hfits⟩
      · rintro ⟨-, hs, hlow, -⟩
        exact ⟨hs, hlow, fun heq => by cases heq⟩
  rw [hreaches]
  by_cases hin : b.blockno < (sb b.dev).nsecs.toNat
  swap
  · rw [bread_none (not_lt.mp hin) hsmall hmiss]
    exact iff_of_false (by simp) fun hand => hin hand.1
  obtain ⟨b', c', hserve, htrace⟩ := serve_trace h hin
  have hread : bread sb b c = some (b', c') := by
    rw [bread, hmiss, if_neg Bool.false_ne_true, devrw_eq, hserve]
  rw [← isBlock_place_iff hb b.dirty]
  constructor
  · rintro ⟨b₁, c₁, t, hread₁, htrace₁, ht⟩
    rw [hread, Option.some_inj, Prod.mk.injEq] at hread₁
    rw [← hread₁.2, htrace, List.append_cancel_left_eq, List.singleton_inj] at htrace₁
    rw [← htrace₁] at ht
    exact ⟨hin, ht⟩
  · rintro ⟨-, ht⟩
    exact ⟨b', c', _, hread, htrace, ht⟩

/-! ### Examples of partitions -/

/-- An SDHC card that answers at once. -/
def sdhcCard : Emmc := ⟨0, true, sdBlockSize, true, 0, zeroBytes, []⟩

lemma sdhcCard_works : sdhcCard.Works := ⟨rfl, rfl, by decide⟩

/-- A buffer that `bget` recycled for a block of device 1. -/
def recycled (blockno : Nat) : Buf := ⟨true, false, false, 1, blockno, zeroBytes⟩

/-- A partition table with 100 MB from sector 2048 in its second entry and 200 MB behind that in its
third. -/
def twoPartitions (v : Nat) : Ptable :=
  if v = 1 then ⟨2048, 204800⟩ else if v = 2 then ⟨206848, 409600⟩ else ⟨0, 0⟩

/-- Block 5 of the v6 file system on the second partition is transferred. -/
theorem bread_addressing_v6 :
    ∃ b' c' t, bread (fun _ => v6Readsb twoPartitions) (recycled 5) sdhcCard = some (b', c') ∧
      c'.trace = sdhcCard.trace ++ [t] ∧ (twoPartitions 1).IsBlock 4096 5 t :=
  (bread_addressing_iff twoPartitions .v6 (fun _ => v6Readsb twoPartitions) (recycled 5) sdhcCard
    sdhcCard_works rfl (by decide) (by unfold Ptable.Has; decide) rfl).mpr
    ⟨by decide, by decide, fun _ => ⟨by decide, by decide⟩⟩

/-- Block 0 of an ext2 file system with blocks of 1 KiB. -/
def smallBlocks : Bytes :=
  setWord (setWord (setWord (setWord (setWord zeroBytes (256 + 14) ext2SuperMagic)
    (256 + 1) 10240) (256 + 5) 1) (256 + 8) 8192) (256 + 10) 1280

/-- The partition of such a file system, 10 MiB from sector 2048. -/
def smallPartition : Superblock := ⟨1024, 2048, 20480⟩

/-- **Three ways to miss the block.** `ext2_readsb` accepts 1 KiB blocks; block 5000 of that file
system is then looked for at 4096 bytes a block, which is outside the partition. Block 1048576 of a
file system with 4 KiB blocks, 4 GiB into it, is read at its block 0. And block 5 of a v6 file
system on the third partition is read from the second. -/
theorem bread_misses_block :
    ext2Readsb (fun _ => ⟨2048, 20480⟩) 1 smallBlocks = some smallPartition ∧
    Ptable.Has ⟨2048, 20480⟩ 1024 5000 ∧
    (bread (fun _ => smallPartition) (recycled 5000) sdhcCard).map (fun r => r.2.trace) =
      some [⟨(2048 + 40000) * 512, 4096, false⟩] ∧
    (2048 + 20480) * 512 ≤ (2048 + 40000) * 512 ∧
    Ptable.Has ⟨2048, 16777216⟩ 4096 1048576 ∧
    (bread (fun _ => ⟨4096, 2048, 16777216⟩) (recycled 1048576) sdhcCard).map
      (fun r => r.2.trace) = some [⟨2048 * 512, 4096, false⟩] ∧
    (bread (fun _ => v6Readsb twoPartitions) { recycled 5 with dev := 2 } sdhcCard).map
      (fun r => r.2.trace) = some [⟨2048 * 512 + 5 * 4096, 4096, false⟩] := by
  refine ⟨by decide +kernel, ?_, by decide +kernel, by decide,
    ?_, by decide +kernel, by decide +kernel⟩ <;>
    unfold Ptable.Has <;> decide

/-! ## The card as a disk of blocks -/

/-- The block is one of the file system: it ends inside the partition that the superblock names. -/
def Superblock.Has (p : Superblock) (b : Nat) : Prop :=
  (b + 1) * p.blocksize.toNat ≤ p.nsecs.toNat * sdBlockSize

/-- The block size is `BSIZE`, and the block starts below 4 GiB. -/
def Superblock.Reaches (p : Superblock) (b : Nat) : Prop :=
  p.blocksize.toNat = bsize ∧ p.lba.toNat * sdBlockSize + b * bsize < 2 ^ 32

/-- No two partitions share a sector. -/
def Apart (sb : Nat → Superblock) : Prop := ∀ v w, v ≠ w →
  (sb v).lba.toNat + (sb v).nsecs.toNat ≤ (sb w).lba.toNat ∨
    (sb w).lba.toNat + (sb w).nsecs.toNat ≤ (sb v).lba.toNat

/-- The card works, and the blocks inside its partitions are those of the disk. -/
def Shows (sb : Nat → Superblock) (c : Emmc) (d : Disk) : Prop :=
  c.Works ∧ ∀ v k i, i < bsize → (k + 1) * bsize ≤ (sb v).nsecs.toNat * sdBlockSize →
    c.bytes ((sb v).lba.toNat * sdBlockSize + k * bsize + i) = d.block v k i

/-- The disk after a request. -/
def after (d : Disk) (b : Buf) : Disk := if b.dirty then d.set b.dev b.blockno b.data else d

/-- The queue on the disk: the blocks that the buffers come back with, and the disk afterwards. -/
def diskStart : List Buf → Disk → List Block × Disk
  | [], d => ([], d)
  | b :: queue, d =>
    let rest := diskStart queue (after d b)
    ((after d b).block b.dev b.blockno :: rest.1, rest.2)

/-- The buffer is valid, clean and has the block. -/
def Filled (b : Buf) (x : Block) : Prop := b.valid = true ∧ b.dirty = false ∧
    ∀ i < bsize, b.data i = x i

/-- One request on the card is one request on the disk. -/
lemma serve_shows (hapart : Apart sb) {d : Disk} (h : Shows sb c d) (hb : (sb b.dev).Has b.blockno)
    (hr : (sb b.dev).Reaches b.blockno) : ∃ b' c', serve sb b c = some (b', c') ∧
      Filled b' ((after d b).block b.dev b.blockno) ∧ Shows sb c' (after d b) := by
  have hin : b.blockno < (sb b.dev).nsecs.toNat := by
    have hb := hb
    simp only [Superblock.Has, hr.1, sdBlockSize, bsize] at hb
    omega
  obtain ⟨off, hserve⟩ := serve_eq h.1 hin
  rw [place, Nat.mod_eq_of_lt hr.2] at hserve
  rw [Superblock.Has, hr.1] at hb
  refine ⟨_, _, hserve, ?_⟩
  unfold Filled Emmc.move after
  cases b.dirty with
  | true =>
    refine ⟨by simp, ⟨h.1.1, h.1.2, h.1.3⟩, fun v k i hi hk => ?_⟩
    show splice c.bytes _ b.data 0 bsize _ = _
    rw [if_pos rfl, Disk.set_block]
    by_cases hsame : v = b.dev ∧ k = b.blockno
    · obtain ⟨rfl, rfl⟩ := hsame
      rw [splice, if_pos (by omega), if_pos ⟨rfl, rfl⟩]
      congr 1
      omega
    rw [if_neg hsame, splice, if_neg]
    · exact h.2 v k i hi hk
    -- another block of the partition starts a whole block away, another partition is elsewhere
    simp only [bsize, sdBlockSize] at *
    by_cases hv : v = b.dev
    · rw [hv] at hk ⊢
      omega
    · rcases hapart v b.dev hv with hle | hle <;> omega
  | false =>
    refine ⟨⟨rfl, rfl, fun i hi => ?_⟩, ⟨h.1.1, h.1.2, h.1.3⟩, h.2⟩
    show splice b.data 0 c.bytes _ bsize i = _
    rw [splice, if_pos (by omega), Nat.sub_zero]
    exact h.2 _ _ i hi hb

/-- **The card refines the disk**: `dev_start` serves every queue of requests for blocks that it can
reach, with the buffers and the card as the same requests leave them on the disk. -/
theorem devStart_refines (hapart : Apart sb) {d : Disk} {queue : List Buf} (h : Shows sb c d)
    (hq : ∀ b ∈ queue, (sb b.dev).Has b.blockno ∧ (sb b.dev).Reaches b.blockno) :
    ∃ bs c', devStart sb queue c = some (bs, c') ∧ bs.Forall₂ Filled (diskStart queue d).1 ∧
      Shows sb c' (diskStart queue d).2 := by
  induction queue generalizing c d with
  | nil => exact ⟨[], c, rfl, .nil, h⟩
  | cons b queue ih =>
    obtain ⟨hb, hrest⟩ := List.forall_mem_cons.mp hq
    obtain ⟨b', c₁, hserve, hfilled, h₁⟩ := serve_shows hapart h hb.1 hb.2
    obtain ⟨bs, c', hdev, hall, h'⟩ := ih h₁ hrest
    exact ⟨b' :: bs, c', by simp [devStart, hserve, hdev], .cons hfilled hall, h'⟩

/-- One partition, on device 1. -/
def onePartition (v : Nat) : Superblock := if v = 1 then ⟨4096, 2048, 204800⟩ else ⟨4096, 0, 0⟩

/-- A disk of zeros, as the card is. -/
def blank : Disk := ⟨fun _ => 0, fun _ _ => zeroBytes⟩

/-- Block 5 is written and then read into another buffer, which gets what was written. -/
theorem devStart_refines_writeRead : let sevens : Block := fun _ => 7
    ∃ bs c', devStart onePartition [{ recycled 5 with dirty := true, data := sevens }, recycled 5]
        sdhcCard = some (bs, c') ∧
      bs.Forall₂ Filled [sevens, sevens] ∧ Shows onePartition c' (blank.set 1 5 sevens) := by
  intro sevens
  have hshows : Shows onePartition sdhcCard blank := ⟨sdhcCard_works, fun _ _ _ _ _ => rfl⟩
  have hreach : ∀ b ∈ [{ recycled 5 with dirty := true, data := sevens }, recycled 5],
      (onePartition b.dev).Has b.blockno ∧ (onePartition b.dev).Reaches b.blockno := ?_
  have hrefines := devStart_refines (fun v w hne => ?_) hshows hreach
  · simpa [diskStart, after, recycled, Disk.set_block] using hrefines
  · unfold onePartition
    split <;> split <;> simp_all
  · simp [Superblock.Has, Superblock.Reaches, recycled]
    decide

end RpiOs.Dev
