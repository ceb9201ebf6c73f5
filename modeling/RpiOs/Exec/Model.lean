import RpiOs.Creds.State
import RpiOs.Mmap.Protect
import RpiOs.Signal.Model
import RpiOs.Vfs.Calls
import RpiOs.Vm.Alloc

/-!
# Replacing the image of a process

`kern/exec.c`: `execve` with `get_file`, `flush_old_exec`, `load_interpreter`, `set_brk` and
`padzero`. Every exit stands where the source has it, with the label that it jumps to, and what the
labels release.

* The locals that the labels read are part of the state (`Loc`). `f` and `interp` start with what is
  on the stack: `vm_init` may fail before `f` is set.
* `error` keeps the result of the last `copy_page`, so that the call returns 0 when it fails later
  on.
* `len` and the results of `fetchstr` are `size_t`: the tests for a negative one never hold, and a
  bad string is copied with length 0.

The rest of the kernel enters as `Env`: what is read from the files (`copy_page` and `copy_pages`
fail with `-ENOMEM`), what `kmalloc` finds, and the strings of the caller. A block of `kmalloc` is a
number; the nodes of the regions are counted with the regions. A store to a user address goes
through the new page table, which is in use while the program is loaded.

Left out: `tf` and `name`, which are set when nothing can fail any more, the contents of the
auxiliary vector and of the pointers below the strings (`ustack`), and the caches.
-/

namespace RpiOs.Exec

open Lib Vm

/-! ## Data -/

/-- `inc/linux/elf.h` `Elf64_Ehdr`. -/
structure Ehdr where
  eIdent : Nat → BitVec 8
  eType : Nat
  eMachine : Nat
  ePhentsize : Nat
  ePhnum : Nat
  eEntry : Nat

/-- `inc/linux/elf.h` `Elf64_Phdr`. -/
structure Phdr where
  pType : Nat
  pFlags : BitVec 32
  pOffset : Nat
  pVaddr : Nat
  pFilesz : Nat
  pMemsz : Nat

/-- A call of `kmalloc`: whether it finds memory, and the frames that it takes. -/
structure Alloc where
  ok : Bool
  frames : Nat

/-- The program and what reading it gives. -/
structure Program where
  /-- the header, if it is read -/
  ehdr : Option Ehdr
  phmem : Alloc
  /-- whether the program headers are read -/
  phread : Bool
  phdr : Nat → Phdr
  interpMem : Nat → Alloc
  /-- the name of the interpreter -/
  interp : Nat → Option (List Char)
  /-- the bytes of a segment -/
  segment : Nat → Option (Nat → BitVec 8)

/-- The interpreter, and what `mmap` gets for each of its headers and for `set_brk`. -/
structure Interp where
  ehdr : Option Ehdr
  phmem : Alloc
  phread : Bool
  phdr : Nat → Phdr
  load : Nat → Mmap.Env
  brk : Mmap.Env

/-- What a call gets from the rest of the kernel and from the caller. -/
structure Env where
  /-- the path, if `fetchstr` finds one -/
  path : Option (List Char)
  /-- how many symbolic links are followed -/
  hops : Nat
  /-- what the variable `f` holds before it is set -/
  junkFile : Option Nat
  program : Program
  ld : Interp
  /-- the bytes of each argument, with the 0 at the end -/
  argv : List (List (BitVec 8))
  envp : List (List (BitVec 8))
  ustack : Nat → BitVec 8

/-- The calling process and the parts of the kernel that the call changes. -/
structure Sys where
  mem : Mmap.Sys
  vfs : Vfs.Sys
  cred : Creds.Cred
  fdflag : Nat → Bool
  actions : Nat → Signal.Sigaction
  paused : Bool
  base : Nat
  sz : Nat
  stksz : Nat
  /-- the blocks that `kmalloc` gave and that have not been freed -/
  blocks : List Nat
  nextBlock : Nat
  /-- the frames that `kmalloc` has -/
  heapFrames : Nat

/-- The locals of `execve` that are read after a jump. -/
structure Loc where
  pgdir : Option Nat
  f : Option Nat
  phdata : Option Nat
  interp : Option Nat
  hasInterp : Bool
  interpName : List Char
  error : Int
  sz : Nat
  base : Nat
  first : Bool

/-- Why the call does not return. -/
inductive Stop where
  | mem (e : Fault)
  | vfs (e : Vfs.Stop)

/-- The labels of `execve`. -/
inductive Label where
  | freeInterp
  | freePhdata
  | bad
  deriving DecidableEq

/-- How the text of `execve` is left before its end. -/
inductive Exit where
  | stop (e : Stop)
  | jump (l : Label)
  | ret (r : Int)

/-- The system, and the local variables of `execve`. -/
structure State where
  sys : Sys
  loc : Loc

/-- What `execve` is made of. -/
abbrev E := EStateM Exit State

/-- What the call comes to: the new image, or the value returned without it. -/
inductive Result where
  | done
  | failed (r : Int)
  deriving DecidableEq

/-! ## Constants -/

def errnoOf (e : Vfs.Errno) : Int := -e.code

/-- `-ENOMEM`. -/
def noMemory : Int := -12

/-- `-EACCES`. -/
def noAccess : Int := -13

/-- `-ENOEXEC`. -/
def noExec : Int := -8

def ptLoad : Nat := 1

def ptInterp : Nat := 3

def etExec : Nat := 2

def etDyn : Nat := 3

def emAarch64 : Nat := 183

def elfEtDynBase : Nat := 3 * usertop / 4

def mapDenywrite : BitVec 32 := 0x800#32

def isErr (r : Int) : Bool := 2 ^ 64 - 4095 ≤ r % 2 ^ 64

/-- The difference of two addresses. -/
def sub64 (a b : Nat) : Nat := (a + 2 ^ 64 - b % 2 ^ 64) % 2 ^ 64

/-! ## Steps -/

section steps

variable {α : Type}

def State.setVfs (st : State) (v : Vfs.Sys) : State := { st with sys := { st.sys with vfs := v } }

def State.setMem (st : State) (m : Mmap.Sys) : State := { st with sys := { st.sys with mem := m } }

/-- A function of the file system. -/
def onVfs (x : Vfs.V α) : E α := fun st =>
  match x st.sys.vfs with
  | .ok a v => .ok a (st.setVfs v)
  | .error e v => .error (.stop (.vfs e)) (st.setVfs v)

/-- A function of the address space. -/
def onMem (x : Mmap.M α) : E α := fun st =>
  match x st.sys.mem with
  | .ok a m => .ok a (st.setMem m)
  | .error e m => .error (.stop (.mem e)) (st.setMem m)

/-- A function of the frames. -/
def onPhys (x : V α) : E α := onMem (Mmap.onFrames x)

def setSys (g : Sys → Sys) : E Unit := modify fun st => { st with sys := g st.sys }

def setLoc (g : Loc → Loc) : E Unit := modify fun st => { st with loc := g st.loc }

def goto (l : Label) : E α := throw (.jump l)

/-- `error = r`. -/
def setError (r : Int) : E Unit := setLoc fun l => { l with error := r }

/-- A pointer that is dereferenced. -/
def deref : Option α → E α
  | some a => pure a
  | none => throw (.stop (.vfs .fault))

end steps

/-- The frames that go to `kmalloc`. -/
def Sys.takeFrames (s : Sys) (n : Nat) : Sys :=
  { s with
    mem := s.mem.setPhys (s.mem.phys.setFree (s.mem.phys.freelist.drop n))
    heapFrames := s.heapFrames + min n s.mem.phys.freelist.length }

/-- `kmalloc`, with the outcome from the environment. -/
def kmalloc (a : Alloc) : E (Option Nat) := do
  setSys fun s => s.takeFrames a.frames
  if a.ok then do
    let b := (← get).sys.nextBlock
    setSys fun s => { s with blocks := b :: s.blocks, nextBlock := b + 1 }
    return some b
  else return none

/-- `if (b) kmfree(b)`. -/
def kmfree : Option Nat → E Unit
  | none => return ()
  | some b => setSys fun s => { s with blocks := s.blocks.erase b }

/-! ## The file -/

/-- The exit `bad` of `get_file`. -/
def getFileBad (ip : Vfs.Ino) (e : Vfs.Errno) : Vfs.V (Except Vfs.Errno Nat) := do
  Vfs.iunlockput ip
  Vfs.endOp
  return .error e

/-- `get_file`, from the label `loop` on. An entry of the file table that was allocated stays so if
the permission is missing. -/
def getFileLoop : Nat → List Char → Vfs.V (Except Vfs.Errno Nat)
  | 0, _ => throw .hang
  | n + 1, path => do
    match ← Vfs.namei path with
    | none => do
      Vfs.endOp
      return .error .ENOENT
    | some ip => do
      Vfs.ilock ip
      let s ← get
      if (s.icache ip).attrs.type = .symlink then
        if (s.card ip).target = [] then getFileBad ip .ENOENT
        else do
          Vfs.iunlockput ip
          getFileLoop n ((s.card ip).target.take 511)
      else if (s.icache ip).attrs.type ≠ .file then getFileBad ip .EINVAL
      else
        match ← Vfs.filealloc with
        | none => getFileBad ip .ENOSPC
        | some f => do
          let allowed ← Vfs.permission ip Vfs.mayRead
          if allowed = false then getFileBad ip .EACCES
          else do
            Vfs.modifyFile f fun _ => ⟨.inode, 1, ip, true, false⟩
            Vfs.iunlock ip
            Vfs.endOp
            return .ok f

def getFile (hops : Nat) (path : List Char) : Vfs.V (Except Vfs.Errno Nat) := do
  Vfs.beginOp
  getFileLoop (hops + 1) path

def filedup (f : Nat) : Vfs.V Unit := do
  let s ← get
  Vfs.stopIf ((s.file f).ref < 1) (.panic "filedup")
  Vfs.modifyFile f fun file => { file with ref := file.ref + 1 }

/-! ## What the old image leaves behind -/

/-- The loop of `flush_signal_handlers`. -/
def flushAction (a : Signal.Sigaction) : Signal.Sigaction :=
  { a with
    saHandler := if a.saHandler ≠ Signal.sigIgn then Signal.sigDfl else a.saHandler
    saFlags := 0
    saMask := 0 }

def flushSignalHandlers : E Unit := setSys fun s =>
  { s with
    actions := fun i => if i < Signal.nsig then flushAction (s.actions i) else s.actions i
    paused := false }

/-- `flush_old_exec` (2), for one descriptor. -/
def closeOnExec (i : Nat) : E Unit := do
  let s := (← get).sys
  match s.vfs.me.ofile i with
  | none => return ()
  | some f =>
    if s.fdflag i then do
      onVfs (Vfs.fileclose f)
      onVfs (Vfs.modifyProc fun p => { p with ofile := Function.update p.ofile i none })
      setSys fun s => { s with fdflag := Function.update s.fdflag i false }
    else return ()

/-- What `execve` reads of the inode. -/
def execFile (a : Vfs.Attrs) : Creds.ExecFile :=
  ⟨BitVec.ofNat 32 a.mode, BitVec.ofNat 32 a.uid, BitVec.ofNat 32 a.gid⟩

/-- The ids and capabilities that the file system looks at. -/
def procIds (c : Creds.Cred) (p : Vfs.Proc) : Vfs.Proc :=
  { p with
    fsuid := c.fsuid.toNat
    fsgid := c.fsgid.toNat
    dacOverride := c.capable 1
    chown := c.capable 0 }

/-- `execve`, the set-user-id part, and `flush_old_exec`. The ids and the capabilities are set at
once; between the two parts nothing reads them. -/
def flushOldExec (file : Creds.ExecFile) : E Unit := do
  flushSignalHandlers
  (List.range Vfs.nofile).forM closeOnExec
  setSys fun s => { s with cred := Creds.execve true file s.cred }
  let s := (← get).sys
  onVfs (Vfs.modifyProc (procIds s.cred))

/-! ## The interpreter -/

section interp

variable (kend : Nat)

/-- `mmap` comes to the allocation of a node. -/
def takesNode (mm : Mm) (a : Mmap.MmapArgs) : Bool :=
  match Mmap.chooseAddr mm a with
  | .addr addr => Mmap.add64 addr (Mmap.roundUp a.length) ≤ usertop
  | _ => false

/-- The references that `mmap` takes if there is a node: two, and one is given back if loading
fails. -/
def takeFile (node : Bool) (r : Int) : Option Nat → E Unit
  | none => return ()
  | some f =>
    if node then do
      onVfs (filedup f)
      onVfs (filedup f)
      if r < 0 then onVfs (Vfs.fileclose f) else return ()
    else return ()

/-- `mmap` with what it does to the heap and to the file. -/
def mmapFile (env : Mmap.Env) (a : Mmap.MmapArgs) : E Int := do
  let s := (← get).sys
  let r ← onMem (Mmap.mmap kend env a)
  if takesNode s.mem.mm a then do
    setSys fun t =>
      { t with heapFrames := t.heapFrames + min env.nodeFrames s.mem.phys.freelist.length }
    takeFile env.node r a.f
    return r
  else return r

/-- The locals of `load_interpreter` that its loop changes. -/
structure Loading where
  loadAddr : Nat
  lastBss : Nat
  elfBss : Nat
  set : Bool

/-- `PF_R`, `PF_W` and `PF_X`. -/
def protOf (flags : BitVec 32) : BitVec 32 :=
  (if flags &&& 4 ≠ 0 then Mmap.protRead else 0) |||
    (if flags &&& 2 ≠ 0 then Mmap.protWrite else 0) |||
    (if flags &&& 1 ≠ 0 then Mmap.protExec else 0)

/-- The address at which a segment is loaded, less its own. Source: `load_interpreter`. -/
def segmentBase (elf : Ehdr) (ph : Phdr) (l : Loading) : Nat :=
  if elf.eType = etExec ∨ l.set then l.loadAddr
  else Mmap.roundDown (sub64 elfEtDynBase ph.pVaddr)

/-- The arguments of `mmap` for a segment. Source: `load_interpreter`. -/
def segmentArgs (f : Nat) (elf : Ehdr) (ph : Phdr) (l : Loading) : Mmap.MmapArgs :=
  let prot := protOf ph.pFlags
  let flags := if Mmap.has prot Mmap.protWrite then Mmap.mapPrivate else mapShared ||| mapDenywrite
  { addr := Mmap.roundDown (Mmap.add64 (segmentBase elf ph l) ph.pVaddr)
    length := Mmap.add64 ph.pFilesz (ph.pVaddr % 4096)
    prot := prot
    flags := if elf.eType = etExec ∨ l.set then flags ||| Mmap.mapFixed else flags
    f := some f
    offset := sub64 ph.pOffset (ph.pVaddr % 4096) }

/-- The end of the loop of `load_interpreter`. -/
def Loading.next (l : Loading) (elf : Ehdr) (ph : Phdr) (mapped : Int) : Loading :=
  let first := !l.set && elf.eType = etDyn
  let loadAddr := if first then sub64 (mapped % 2 ^ 64).toNat (Mmap.roundDown ph.pVaddr)
    else segmentBase elf ph l
  { loadAddr := loadAddr
    elfBss := max l.elfBss (Mmap.add64 (Mmap.add64 loadAddr ph.pVaddr) ph.pFilesz)
    lastBss := max l.lastBss (Mmap.add64 (Mmap.add64 loadAddr ph.pVaddr) ph.pMemsz)
    set := l.set || first }

/-- The loop of `load_interpreter`; an error goes to `free_phdata`. -/
def loadSegments (ld : Interp) (f : Nat) (elf : Ehdr) : List Nat → Loading → E (Except Int Loading)
  | [], l => return .ok l
  | i :: is, l =>
    if (ld.phdr i).pType ≠ ptLoad then loadSegments ld f elf is l
    else do
      let mapped ← mmapFile kend (ld.load i) (segmentArgs f elf (ld.phdr i) l)
      if isErr mapped then return .error mapped
      else loadSegments ld f elf is (l.next elf (ld.phdr i) mapped)

def padzero (elfBss : Nat) : E Unit := do
  let pgdir ← deref (← get).loc.pgdir
  if elfBss % 4096 = 0 then return ()
  else onPhys (storeUser pgdir elfBss (4096 - elfBss % 4096) fun _ => 0)

/-- The arguments of `mmap` for the pages without a file. Source: `set_brk`. -/
def brkArgs (first last : Nat) : Mmap.MmapArgs :=
  { addr := Mmap.roundUp first
    length := Mmap.roundUp last - Mmap.roundUp first
    prot := Mmap.protRead ||| Mmap.protWrite
    flags := Mmap.mapFixed ||| Mmap.mapAnonymous ||| Mmap.mapPrivate
    f := none
    offset := 0 }

/-- `set_brk`. -/
def setBrk (env : Mmap.Env) (first last : Nat) : E Int := do
  if Mmap.roundUp last ≤ Mmap.roundUp first then do
    padzero first
    return first
  else mmapFile kend env (brkArgs first last)

/-- The segments and what follows them. Source: `load_interpreter`. -/
def mapInterpreter (ld : Interp) (f : Nat) (elf : Ehdr) : E (Except Int Nat) := do
  match ← loadSegments kend ld f elf (List.range elf.ePhnum) ⟨0, 0, 0, false⟩ with
  | .error e => return .error e
  | .ok l => do
    padzero l.elfBss
    let elfBss := Mmap.roundUp l.elfBss
    if elfBss < l.lastBss then do
      let mapped ← setBrk kend ld.brk elfBss l.lastBss
      if isErr mapped then return .error mapped else return .ok l.loadAddr
    else return .ok l.loadAddr

/-- The tests of the header in `load_interpreter`. -/
def checkInterp (elf : Ehdr) : Bool :=
  (elf.eType = etDyn ∨ elf.eType = etExec) ∧ elf.eMachine = emAarch64 ∧ elf.ePhentsize = 56 ∧
    elf.ePhnum ≤ 73

/-- `load_interpreter` after `get_file`, without the last `fileclose`. -/
def readInterpreter (ld : Interp) (f : Nat) : E (Int × Nat) := do
  match ld.ehdr with
  | none => return (noMemory, 0)
  | some elf =>
    if !checkInterp elf then return (noExec, 0)
    else
      match ← kmalloc ld.phmem with
      | none => return (noExec, 0)
      | some phdata =>
        if !ld.phread then do
          kmfree (some phdata)
          return (noMemory, 0)
        else do
          let r ← mapInterpreter kend ld f elf
          kmfree (some phdata)
          match r with
          | .error e => return (e, 0)
          | .ok loadAddr => return (Mmap.add64 elf.eEntry loadAddr, loadAddr)

/-- `load_interpreter`: the entry or an error, and the base. -/
def loadInterpreter (ld : Interp) (hops : Nat) (path : List Char) : E (Int × Nat) := do
  match ← onVfs (getFile hops path) with
  | .error e => return (errnoOf e, 0)
  | .ok f => do
    let r ← readInterpreter kend ld f
    onVfs (Vfs.fileclose f)
    return r

end interp

/-! ## The program -/

section program

variable (kend : Nat)

/-- The tests of the header in `execve`. -/
def checkElf (elf : Ehdr) : Bool :=
  elf.eIdent 0 = 0x7f ∧ elf.eIdent 1 = 0x45 ∧ elf.eIdent 2 = 0x4c ∧ elf.eIdent 3 = 0x46 ∧
    elf.eIdent 4 = 2 ∧ (elf.eType = etExec ∨ elf.eType = etDyn)

/-- `execve`, up to the program headers. -/
def readHeaders (p : Program) : E Ehdr := do
  match p.ehdr with
  | none => do
    setError noMemory
    goto .bad
  | some elf => do
    setError noAccess
    if !checkElf elf then goto .bad
    else if 4096 < elf.ePhentsize * elf.ePhnum then goto .bad
    else
      match ← kmalloc p.phmem with
      | none => goto .bad
      | some b => do
        setLoc fun l => { l with phdata := some b }
        if !p.phread then do
          setError noMemory
          goto .freePhdata
        else do
          setError 0
          return elf

/-- The loop of `execve`, for `PT_INTERP`. -/
def loadInterp (p : Program) (i : Nat) : E Unit := do
  if 4096 < (p.phdr i).pFilesz then goto .bad
  else do
    let b ← kmalloc (p.interpMem i)
    setLoc fun l => { l with interp := b }
    match b with
    | none => goto .bad
    | some _ =>
      match p.interp i with
      | none => do
        setError noMemory
        goto .freeInterp
      | some name => do
        setError 0
        setLoc fun l => { l with hasInterp := true, interpName := name }

/-- The loop of `execve`: where the memory of the program starts. -/
def firstSegment (ph : Phdr) : E Unit := do
  if (← get).loc.first then do
    setLoc fun l => { l with first := false, sz := ph.pVaddr, base := ph.pVaddr }
    if ph.pVaddr % 4096 ≠ 0 then goto .bad else return ()
  else return ()

/-- The loop of `execve`, for `PT_LOAD`. -/
def loadProgram (p : Program) (i : Nat) : E Unit := do
  let ph := p.phdr i
  setError noAccess
  if ph.pMemsz < ph.pFilesz then goto .bad
  else if Mmap.add64 ph.pVaddr ph.pMemsz < ph.pVaddr then goto .bad
  else do
    firstSegment ph
    let l := (← get).loc
    let pgdir ← deref l.pgdir
    let sz ← onPhys (uvmAlloc kend pgdir l.base 0 l.sz (ph.pVaddr + ph.pMemsz))
    setLoc fun l => { l with sz := sz }
    if sz = 0 then goto .bad
    else
      match p.segment i with
      | none => do
        setError noMemory
        goto .bad
      | some bytes => do
        setError 0
        onPhys (storeUser pgdir ph.pVaddr ph.pFilesz bytes)
        onPhys (storeUser pgdir (ph.pVaddr + ph.pFilesz) (ph.pMemsz - ph.pFilesz) fun _ => 0)

/-- The loop of `execve`. -/
def loadHeader (p : Program) (i : Nat) : E Unit :=
  if (p.phdr i).pType = ptInterp then loadInterp p i
  else if (p.phdr i).pType ≠ ptLoad then return ()
  else loadProgram kend p i

/-! ## The stack -/

/-- `copyout`, and what `execve` does if it fails. -/
def copyArgs (va : Nat) (p : Option (Nat → BitVec 8)) (len : Nat) : E Unit := do
  let pgdir ← deref (← get).loc.pgdir
  if ← onPhys (copyout pgdir va p len) then return () else goto .freeInterp

/-- The loops of `execve` over `argv` and `envp`. -/
def pushStrings : List (List (BitVec 8)) → Nat → E Nat
  | [], sp => return sp
  | str :: rest, sp => do
    let sp := sub64 sp str.length
    copyArgs sp (some fun k => str.getD k 0) str.length
    pushStrings rest sp

/-- `ELF_PLATFORM`, with the 0 at the end. -/
def elfPlatform : List (BitVec 8) := [0x61, 0x61, 0x72, 0x63, 0x68, 0x36, 0x34, 0]

/-- The place of `argc`. Source: `newsp` of `execve`. -/
def newStack (env : Env) (hasInterp : Bool) (sp : Nat) : Nat :=
  sub64 sp ((if hasInterp then 240 else 16) + (env.envp.length + env.argv.length + 4) * 8) / 16 * 16

/-- `stksz` of `execve`. -/
def stackSize (newsp : Nat) : Nat := (sub64 usertop newsp + 40959) / 40960 * 40960

/-- `execve`, from the strings to the assertion on the stack. -/
def buildStack (env : Env) : E Nat := do
  let hasInterp := (← get).loc.hasInterp
  let strings := (if hasInterp then [elfPlatform] else []) ++ env.argv ++ env.envp
  let sp ← pushStrings strings usertop
  let newsp := newStack env hasInterp sp
  copyArgs newsp none (sub64 sp newsp)
  let pgdir ← deref (← get).loc.pgdir
  onPhys (storeUser pgdir newsp (sub64 sp newsp) env.ustack)
  copyArgs (sub64 usertop (stackSize newsp)) none (sub64 (stackSize newsp) (sub64 usertop newsp))
  if newsp ≤ sub64 usertop (stackSize newsp) then throw (.stop (.mem .panic))
  else return stackSize newsp

/-! ## The call -/

def setPgdir (pgdir : Nat) : E Unit := setSys fun s =>
  { s with mem := { s.mem with mm := { s.mem.mm with pgdir := pgdir } } }

/-- `if (pgdir) vm_free(pgdir)`, with the regions of the process. -/
def freeSpace : Option Nat → E Unit
  | none => return ()
  | some pgdir => do
    let s := (← get).sys
    onPhys (vmFree kend s.mem.mm.regions pgdir)

/-- `if (f) fileclose(f)`. -/
def closeFile : Option Nat → E Unit
  | none => return ()
  | some f => onVfs (Vfs.fileclose f)

/-- `execve`, once the file is open. -/
def loadImage (env : Env) (f pgdir : Nat) : E Unit := do
  let elf ← readHeaders env.program
  setPgdir pgdir
  let v := (← get).sys.vfs
  flushOldExec (execFile (v.icache (v.file f).ip).attrs)
  setError noAccess
  (List.range elf.ePhnum).forM (loadHeader kend env.program)
  onVfs (Vfs.fileclose f)

/-- `execve`, the call of `load_interpreter`. -/
def startInterpreter (env : Env) : E Unit := do
  let l := (← get).loc
  if l.hasInterp then do
    let r ← loadInterpreter kend env.ld env.hops l.interpName
    if isErr r.1 then goto .freeInterp else return ()
  else return ()

/-- `execve`, from the commit to the end. -/
def commit (oldpgdir pgdir stksz : Nat) : E Result := do
  let l := (← get).loc
  setPgdir pgdir
  setSys fun s => { s with base := l.base, sz := l.sz, stksz := stksz }
  freeSpace kend (some oldpgdir)
  kmfree (if l.hasInterp then l.interp else none)
  return .done

/-- The text of `execve` after the path is read. -/
def body (env : Env) (path : List Char) : E Result := do
  let oldpgdir := (← get).sys.mem.mm.pgdir
  let pgdir ← onPhys (tryCatch (some <$> vmInit) fun
    | .null => pure none
    | err => throw err)
  setLoc fun l => { l with pgdir := pgdir }
  match pgdir with
  | none => goto .bad
  | some pgdir => do
    match ← onVfs (getFile env.hops path) with
    | .error e => throw (.ret (errnoOf e))
    | .ok f => do
      setLoc fun l => { l with f := some f }
      loadImage kend env f pgdir
      startInterpreter kend env
      let stksz ← buildStack env
      commit kend oldpgdir pgdir stksz

/-- The labels of `execve`. -/
def release (oldpgdir : Nat) (l : Label) : E Result := do
  let loc := (← get).loc
  kmfree (if l = .freeInterp ∧ loc.hasInterp then loc.interp else none)
  kmfree (if l ≠ .bad then loc.phdata else none)
  freeSpace kend loc.pgdir
  closeFile loc.f
  setPgdir oldpgdir
  return .failed loc.error

/-- What follows when the text of `execve` is left. -/
def leave (oldpgdir : Nat) : Exit → E Result
  | .stop e => throw (.stop e)
  | .ret r => return .failed r
  | .jump l => release kend oldpgdir l

/-- The locals at the start. -/
def Env.loc (env : Env) : Loc := ⟨none, env.junkFile, none, none, false, [], noAccess, 0, 0, true⟩

/-- `execve`. -/
def execve (env : Env) : E Result := do
  match env.path with
  | none => return .failed noAccess
  | some path => do
    setLoc fun _ => env.loc
    let oldpgdir := (← get).sys.mem.mm.pgdir
    tryCatch (body kend env path) (leave kend oldpgdir)

end program

end RpiOs.Exec
