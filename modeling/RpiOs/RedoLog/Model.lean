import RpiOs.Bio.Buffer

/-!
# The redo log

The code of `kern/log.c`. A log occupies `size` blocks from `start` of its device: the header, then
one block per logged block. Between commits the in-memory header `lh` lists the home blocks changed
by the running transaction; their new contents are in dirty buffers, which the cache does not
recycle. `commit` copies them to the log (`writeLog`), writes the header, copies them home
(`installTrans`) and writes an empty header.

`LogOp` and `perform` are the system around it: file-system operations begin and end, change blocks
under the log's protection and read blocks, in any order.
-/

namespace RpiOs.RedoLog

open Lib Kernel Bio

/-! ## The header block -/

/-- A word read as `int`. -/
def int32 (w : Nat) : Int := if w < 2 ^ 31 then w else (w : Int) - 2 ^ 32

/-- The header block with `n` and `block[0 .. n-1]` stored; the entries from `n` on stay as they
were. Source: `write_head`. -/
def encodeHead (b : Block) (lh : List Nat) : Block := setWords (setWord b 0 lh.length) 1 lh

/-- The block numbers a header block lists. Source: `read_head`. -/
def decodeHead (b : Block) : List Nat :=
  (List.range (int32 (word b 0)).toNat).map fun i => word b (i + 1)

/-! ## `log.c` -/

/-- The test every function of the log starts with. -/
def Active (m : Mem) (dev : Nat) : Prop := dev < nlog ∧ (m.log dev).enabled = true

instance (m : Mem) (dev : Nat) : Decidable (Active m dev) := inferInstanceAs (Decidable (_ ∧ _))

/-- The common end of a round of `write_log` and of `install_trans`: copy one held buffer to
another, write that one to the card and release both. Source: `kern/log.c`. -/
def copyOut (src dst : Nat) : K Unit := do
  let x ← getData src
  modifyData dst fun _ => x
  bwrite dst
  brelse src
  brelse dst

/-- One round of `install_trans`: copy log block `tail` to its home. -/
def installBlock (dev tail : Nat) : K Unit := do
  let m ← Prog.get
  let l := m.log dev
  let lbuf ← bread l.dev (l.start + tail + 1)
  let dbuf ← bread l.dev (l.lh.getD tail 0)
  copyOut lbuf dbuf

/-- `install_trans`. -/
def installTrans (dev : Nat) : K Unit := do
  let m ← Prog.get
  if Active m dev then
    Prog.loop (installBlock dev) 0 (m.log dev).lh.length
  else
    pure ()

/-- `read_head`. -/
def readHead (dev : Nat) : K Unit := do
  let m ← Prog.get
  if Active m dev then do
    let buf ← bread (m.log dev).dev (m.log dev).start
    let x ← getData buf
    Prog.modify fun m => m.setLog dev { m.log dev with lh := decodeHead x }
    brelse buf
  else
    pure ()

/-- `write_head`. -/
def writeHead (dev : Nat) : K Unit := do
  let m ← Prog.get
  if Active m dev then do
    let buf ← bread (m.log dev).dev (m.log dev).start
    modifyData buf fun b => encodeHead b (m.log dev).lh
    bwrite buf
    brelse buf
  else
    pure ()

/-- `log[i].lh.n = 0`. -/
def clearHead (i : Nat) : K Unit :=
  Prog.modify fun m => m.setLog i { m.log i with lh := [] }

/-- One round of `recover_from_log`. -/
def recoverLog (i : Nat) : K Unit := do
  readHead i
  installTrans i
  clearHead i
  writeHead i

def recoverFromLog : K Unit := Prog.loop recoverLog 0 nlog

/-- Set up the log of a device, whose superblock gives `logstart` and `nlog`, and recover. (The
header, 508 bytes, always fits in a block.) -/
def initlog (dev start size : Nat) : K Unit := do
  Prog.modify fun m => m.setLog dev
    { m.log dev with start := start, size := size, dev := dev, enabled := true }
  recoverFromLog

/-- One round of `begin_op`; a log that is committing or may run out of space makes it sleep. -/
def beginOpLog (i : Nat) : K Unit := do
  let m ← Prog.get
  let l := m.log i
  if l.enabled = false then
    pure ()
  else if l.committing then
    Prog.stop .sleep
  else if (l.lh.length : Int) + (l.outstanding + 1) * maxopblocks > logsize then
    Prog.stop .sleep
  else
    Prog.modify fun m => m.setLog i { m.log i with outstanding := l.outstanding + 1 }

def beginOp : K Unit := Prog.loop beginOpLog 0 nlog

/-- One round of `write_log`: copy a changed block from the cache to log block `tail`. -/
def writeLogBlock (dev tail : Nat) : K Unit := do
  let m ← Prog.get
  let l := m.log dev
  let toBuf ← bread l.dev (l.start + tail + 1)
  let fromBuf ← bread l.dev (l.lh.getD tail 0)
  copyOut fromBuf toBuf

/-- `write_log`. -/
def writeLog (dev : Nat) : K Unit := do
  let m ← Prog.get
  if Active m dev then
    Prog.loop (writeLogBlock dev) 0 (m.log dev).lh.length
  else
    pure ()

/-- `commit`. -/
def commit (dev : Nat) : K Unit := do
  let m ← Prog.get
  if Active m dev ∧ 0 < (m.log dev).lh.length then do
    writeLog dev
    writeHead dev
    installTrans dev
    clearHead dev
    writeHead dev
  else
    pure ()

/-- One round of `end_op`; the operation that leaves none outstanding commits. -/
def endOpLog (i : Nat) : K Unit := do
  let m ← Prog.get
  let l := m.log i
  if l.enabled = false then
    pure ()
  else do
    Prog.modify fun m => m.setLog i { m.log i with outstanding := l.outstanding - 1 }
    if l.committing then
      Prog.stop (.panic "log committing")
    else if l.outstanding - 1 = 0 then do
      Prog.modify fun m => m.setLog i { m.log i with committing := true }
      commit i
      Prog.modify fun m => m.setLog i { m.log i with committing := false }
    else
      pure ()

def endOp : K Unit := Prog.loop endOpLog 0 nlog

/-- The header after a block was logged: a block already listed keeps its place. -/
def absorb (lh : List Nat) (b : Nat) : List Nat := if b ∈ lh then lh else lh ++ [b]

/-- Put a changed buffer under the log's protection. -/
def logWrite (i : Nat) : K Unit := do
  let m ← Prog.get
  let b := m.buf i
  let l := m.log b.dev
  if ¬ Active m b.dev then
    pure ()
  else if logsize ≤ l.lh.length ∨ l.size ≤ l.lh.length + 1 then
    Prog.stop (.panic "too big a transaction")
  else if l.outstanding < 1 then
    Prog.stop (.panic "log_write outside of trans")
  else
    Prog.modify fun m =>
      (m.setLog b.dev { l with lh := absorb l.lh b.blockno }).setBuf i { b with dirty := true }

/-! ## The system -/

/-- A step of some file-system operation. -/
inductive LogOp where
  | beginOp
  /-- `bp = bread(dev, b)`, change the data, `log_write(bp)`, `brelse(bp)`. -/
  | write (b : Nat) (f : Block → Block)
  /-- `bp = bread(dev, b)`, `brelse(bp)`, on any device. -/
  | read (dev b : Nat)
  | endOp

/-- The code of a step; `dev` is the device whose blocks are written. -/
def perform (dev : Nat) : LogOp → K Unit
  | .beginOp => beginOp
  | .write b f => do
    let bp ← bread dev b
    modifyData bp f
    logWrite bp
    brelse bp
  | .read dev' b => do
    let bp ← bread dev' b
    brelse bp
  | .endOp => endOp

/-- A run. -/
def performAll (dev : Nat) : List LogOp → K Unit
  | [] => pure ()
  | op :: ops => do
    perform dev op
    performAll dev ops

end RpiOs.RedoLog
