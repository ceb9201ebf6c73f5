import RpiOs.Lib.Bytes
import RpiOs.Lib.Durable

/-!
# The machine

What the block layer of the kernel reads and writes: the memory (buffer cache and logs) and the
SD card. Kernel code is a `Prog`: it changes the memory as it likes, the card only one block at a
time, and it can stop for good in a `panic`, a failed `assert` or a `sleep` that nothing ends. The
code of one process is modelled from one scheduling point to the next, so a `sleep` on something
the same process holds is such an end.

The card is addressed by device (partition) and block number: partitions do not overlap. Block
`(uint32_t)-1`, by which `dev_init` reads the boot record, is left out.
-/

namespace RpiOs.Kernel

open Lib

/-- The contents of a block, `BSIZE` bytes. -/
abbrev Block := Bytes

/-- `BSIZE`. -/
def bsize : Nat := 4096

/-- `MAXOPBLOCKS`. -/
def maxopblocks : Nat := 42

/-- `NBUF`. -/
def nbuf : Nat := maxopblocks * 3

/-- `LOGSIZE`. -/
def logsize : Nat := maxopblocks * 3

/-- `NLOG`. -/
def nlog : Nat := 3

/-- A buffer. Source: `inc/buf.h` `struct buf` (without the list links). -/
structure Buf where
  /-- `B_BUSY`. -/
  busy : Bool
  /-- `B_VALID`. -/
  valid : Bool
  /-- `B_DIRTY`. -/
  dirty : Bool
  dev : Nat
  blockno : Nat
  data : Block

/-- The block a buffer carries. -/
def Buf.key (b : Buf) : Nat × Nat := (b.dev, b.blockno)

/-- One log. `lh` is the in-memory header: its `n` block numbers.
Source: `struct log`, `struct logheader` -/
structure Log where
  start : Nat
  size : Nat
  outstanding : Int
  committing : Bool
  dev : Nat
  /-- `flag & LOGENABLED`. -/
  enabled : Bool
  lh : List Nat

/-- The memory: the buffers by their index in `bcache.buf`, the list `bcache.head` from front to
back, and the logs.
Source: `bcache`; `kern/log.c` `log` -/
structure Mem where
  buf : Nat → Buf
  head : List Nat
  log : Nat → Log

/-- The card: the size of each partition and the contents of its blocks.
Source: `kern/dev.c`; `inc/dev.h` `struct mbr` -/
structure Disk where
  /-- `sb[dev].nsecs`, from the partition table. -/
  nsecs : Nat → Nat
  block : Nat → Nat → Block

/-- A block write. -/
structure DevWrite where
  dev : Nat
  blockno : Nat
  data : Block

/-- The block is replaced, nothing else changes. -/
def Disk.set (d : Disk) (dev blockno : Nat) (data : Block) : Disk :=
  { d with block := fun v b => if v = dev ∧ b = blockno then data else d.block v b }

variable (d : Disk) (m : Mem)

@[simp] lemma Disk.set_nsecs (dev blockno : Nat) (data : Block) :
    (d.set dev blockno data).nsecs = d.nsecs := rfl

lemma Disk.set_block (dev blockno : Nat) (data : Block) (v b : Nat) :
    (d.set dev blockno data).block v b =
      if v = dev ∧ b = blockno then data else d.block v b := rfl

@[simp] lemma Disk.set_block_self (dev blockno : Nat) (data : Block) :
    (d.set dev blockno data).block dev blockno = data := by
  simp [Disk.set_block]

lemma Disk.set_block_of_ne {dev blockno v b : Nat} (data : Block)
    (h : ¬ (v = dev ∧ b = blockno)) : (d.set dev blockno data).block v b = d.block v b := by
  simp [Disk.set_block, h]

instance : Durable Disk DevWrite where
  apply d w := d.set w.dev w.blockno w.data

/-- Why the machine stops. -/
inductive Stop where
  | panic (msg : String)
  | assert
  /-- It sleeps, and nobody else is there to wake it. -/
  | sleep
  /-- It uses a null pointer. -/
  | fault
  deriving DecidableEq, Repr

/-- Kernel code. -/
abbrev K (α : Type) := Prog Stop Mem Disk DevWrite α

/-! ## Memory updates -/

/-- Replace a buffer. -/
def Mem.setBuf (m : Mem) (i : Nat) (b : Buf) : Mem :=
  { m with buf := fun j => if j = i then b else m.buf j }

lemma Mem.setBuf_buf (i : Nat) (b : Buf) : (m.setBuf i b).buf = Function.update m.buf i b :=
  funext fun j => (Function.update_apply m.buf i b j).symm

@[simp] lemma Mem.setBuf_self (i : Nat) (b : Buf) : (m.setBuf i b).buf i = b := by
  simp [Mem.setBuf]

lemma Mem.setBuf_of_ne {m : Mem} {i j : Nat} {b : Buf} (h : j ≠ i) :
    (m.setBuf i b).buf j = m.buf j := by
  simp [Mem.setBuf, h]

@[simp] lemma Mem.setBuf_setBuf (i : Nat) (b c : Buf) :
    (m.setBuf i b).setBuf i c = m.setBuf i c := by
  simp only [Mem.setBuf, Mem.mk.injEq, and_true]
  funext j
  by_cases h : j = i <;> simp [h]

@[simp] lemma Mem.setBuf_head (i : Nat) (b : Buf) : (m.setBuf i b).head = m.head := rfl

/-- Replace a log. -/
def Mem.setLog (m : Mem) (i : Nat) (l : Log) : Mem :=
  { m with log := fun j => if j = i then l else m.log j }

@[simp] lemma Mem.setLog_self (i : Nat) (l : Log) : (m.setLog i l).log i = l := by
  simp [Mem.setLog]

lemma Mem.setLog_of_ne {m : Mem} {i j : Nat} {l : Log} (h : j ≠ i) :
    (m.setLog i l).log j = m.log j := by
  simp [Mem.setLog, h]

@[simp] lemma Mem.setLog_head (i : Nat) (l : Log) : (m.setLog i l).head = m.head := rfl

@[simp] lemma Mem.setLog_buf (i : Nat) (l : Log) : (m.setLog i l).buf = m.buf := rfl

/-- Memory after `binit` and before any log is set up: every buffer and log is zero.
Source: `binit`; `kern/log.c` -/
def Mem.boot : Mem where
  buf := fun _ => ⟨false, false, false, 0, 0, zeroBytes⟩
  head := List.range nbuf
  log := fun _ => ⟨0, 0, 0, false, 0, false, []⟩

end RpiOs.Kernel
