import RpiOs.Kernel.Machine

/-!
# The buffer cache

`bget`, `bread`, `bwrite` and `brelse` over the buffers of `Mem`, and `devrw` below them. A buffer
is named by its index in `bcache.buf`, so that a pointer kept after `brelse` still names the same
buffer, whatever block it holds by then.

`brelse` moves a buffer to the back of the list and `bget` recycles from the back, so the buffer
released last is the first to be given away.
-/

namespace RpiOs.Bio

open Lib Kernel

/-- Transfer a buffer: to the card if it is dirty, from the card otherwise.
Source: `devrw`, `dev_start` -/
def devrw (i : Nat) : K Unit := do
  let m ← Prog.get
  let d ← Prog.durable
  let b := m.buf i
  if b.blockno < d.nsecs b.dev then
    if b.dirty then do
      Prog.write ⟨b.dev, b.blockno, b.data⟩
      Prog.modify (·.setBuf i { b with valid := true, dirty := false })
    else
      Prog.modify (·.setBuf i
        { b with data := d.block b.dev b.blockno, valid := true, dirty := false })
  else
    Prog.stop .assert

/-- The first buffer from the front that carries the block.
Source: `bget`, first loop -/
def cached (m : Mem) (dev blockno : Nat) : Option Nat :=
  m.head.find? fun i => (m.buf i).dev = dev ∧ (m.buf i).blockno = blockno

/-- The first buffer from the back that is neither busy nor dirty.
Source: `bget`, second loop -/
def recyclable (m : Mem) : Option Nat :=
  m.head.reverse.find? fun i => (m.buf i).busy = false ∧ (m.buf i).dirty = false

/-- The buffer of a block, made busy. A recycled buffer keeps the old data until it is read. -/
def bget (dev blockno : Nat) : K Nat := do
  let m ← Prog.get
  match cached m dev blockno with
  | some i =>
    if (m.buf i).busy then
      Prog.stop .sleep
    else do
      Prog.modify (·.setBuf i { m.buf i with busy := true })
      pure i
  | none =>
    match recyclable m with
    | some i => do
      Prog.modify (·.setBuf i ⟨true, false, false, dev, blockno, (m.buf i).data⟩)
      pure i
    | none => Prog.stop (.panic "bget: no buffers")

/-- A busy buffer with the contents of the block. -/
def bread (dev blockno : Nat) : K Nat := do
  let i ← bget dev blockno
  let m ← Prog.get
  if (m.buf i).valid then
    pure i
  else do
    devrw i
    pure i

/-- Write a busy buffer to the card. -/
def bwrite (i : Nat) : K Unit := do
  let m ← Prog.get
  if (m.buf i).busy then do
    Prog.modify (·.setBuf i { m.buf i with dirty := true })
    devrw i
  else
    Prog.stop (.panic "bwrite: not locked")

/-- Release a busy buffer. -/
def brelse (i : Nat) : K Unit := do
  let m ← Prog.get
  if (m.buf i).busy then
    Prog.modify fun m =>
      { m.setBuf i { m.buf i with busy := false } with head := m.head.erase i ++ [i] }
  else
    Prog.stop (.panic "brelse")

/-- Read `b->data`. -/
def getData (i : Nat) : K Block := do
  let m ← Prog.get
  pure (m.buf i).data

/-- Change `b->data` in memory. -/
def modifyData (i : Nat) (f : Block → Block) : K Unit :=
  Prog.modify fun m => m.setBuf i { m.buf i with data := f (m.buf i).data }

end RpiOs.Bio
