import RpiOs.Vm.Space

/-!
# Memory mappings

`kern/mmap.c`: `mmap`, `munmap`, `msync` with what they call, and the checks of `sys_mmap`.
Addresses and lengths are 64-bit numbers, sums are taken modulo 2^64. `p->regions` is a list; a node
that `mmap` frees while it is still linked stays in the list.

What the calls get from other parts of the kernel is given with each call (`Env`): whether `kmalloc`
finds memory for the node, and how many frames it takes for that; what `copy_page` reads; what
`writei` returns. The writes to files are recorded in order. Reference counts of open files are left
out, and so are the permission bits that `mmap_load_pages` computes and nobody uses.
-/

namespace RpiOs.Mmap

open Lib Lib.Radix Vm

/-! ## Constants -/

def mapPrivate : BitVec 32 := 0x02#32

def mapFixed : BitVec 32 := 0x10#32

def mapAnonymous : BitVec 32 := 0x20#32

def protNone : BitVec 32 := 0x0#32

def protWrite : BitVec 32 := 0x2#32

def msAsync : BitVec 32 := 1#32

def msSync : BitVec 32 := 4#32

def mmapbase : Nat := 0x600000000000

/-- A flag is set. -/
def has (flags flag : BitVec 32) : Bool := flags &&& flag ≠ 0

/-- The sum of two addresses. -/
def add64 (a b : Nat) : Nat := (a + b) % 2 ^ 64

/-- `ROUNDUP(a, PGSIZE)`. -/
def roundUp (a : Nat) : Nat := add64 a 4095 / 4096 * 4096

/-- `ROUNDDOWN(a, PGSIZE)`. -/
def roundDown (a : Nat) : Nat := a / 4096 * 4096

/-! ## State -/

/-- A call of `writei(f->ip, addr, offset, n)`. -/
structure WriteBack where
  f : Nat
  addr : Nat
  offset : Nat
  length : Nat
  deriving DecidableEq, Repr

/-- The frames, the address space of the current process, and the writes made to files. -/
structure Sys where
  phys : Phys
  mm : Mm
  writes : List WriteBack

/-- What a call gets from the rest of the kernel. -/
structure Env where
  /-- `kmalloc` finds memory -/
  node : Bool
  /-- the frames it takes -/
  nodeFrames : Nat
  /-- the page that the loop of `copy_page` calls reads at an offset, or its error -/
  content : Nat → Nat → Except Nat (Nat → Word)
  /-- the result of `writei` -/
  written : Int

/-- What works on the regions and the page table of a process. -/
abbrev M := EStateM Fault Sys

namespace Sys

variable (s : Sys)

@[simps -fullyApplied]
def setPhys (p : Phys) : Sys := { s with phys := p }

@[simps -fullyApplied]
def setRegions (rs : List Region) (n : Nat) : Sys :=
  { s with mm := { s.mm with regions := rs, nregions := n } }

@[simps -fullyApplied]
def addWrite (w : WriteBack) : Sys := { s with writes := s.writes ++ [w] }

end Sys

/-- A function of the frames. -/
def onFrames {α : Type} (x : V α) : M α := fun s =>
  match x s.phys with
  | .ok a p => .ok a (s.setPhys p)
  | .error e p => .error e (s.setPhys p)

/-! ## Loading pages -/

section load

variable (kend : Nat)

/-- `map_anon_page` and `map_file_page`, when `uvm_map` fails. -/
def undoPage (page : Nat) : Fault → V Unit
  | .errno e => do
    kfree kend page
    throw (.errno e)
  | err => throw err

/-- `map_anon_page` and `map_file_page`: a frame with the content, mapped at the address. -/
def mapFresh (pgdir va : Nat) (content : Except Nat (Nat → Word)) : V Unit := do
  match ← kalloc with
  | none => throw (.errno enomem)
  | some page =>
    match content with
    | .error e =>
      kfree kend page
      throw (.errno e)
    | .ok words =>
      modify fun s => s.setMem fun g => if g = page then words else s.mem g
      tryCatch (uvmMap pgdir va 4096 page) (undoPage kend page)

/-- `map_anon_pages` and `map_file_pages`, when page `i` fails. -/
def undoPages (pgdir addr i : Nat) : Fault → V Unit
  | .errno e =>
    if i = 0 then throw (.errno e)
    else do
      uvmUnmap kend pgdir addr i
      throw (.errno e)
  | err => throw err

/-- The loop of `map_anon_pages` and `map_file_pages`, from page `i` on. -/
def mapPages (pgdir addr : Nat) (content : Nat → Except Nat (Nat → Word)) : Nat → Nat → V Unit
  | _, 0 => return ()
  | i, n + 1 => do
    tryCatch (mapFresh kend pgdir (add64 addr (i * 4096)) (content i)) (undoPages kend pgdir addr i)
    mapPages pgdir addr content (i + 1) n

/-- `mmap_load_pages`. A page of a file is read at `offset + cur`; the last one may be shorter. -/
def mmapLoadPages (env : Env) (pgdir addr length : Nat) (flags : BitVec 32) (f : Option Nat)
    (offset : Nat) : V Unit :=
  let n := (length + 4095) / 4096
  if has flags mapAnonymous then mapPages kend pgdir addr (fun _ => .ok fun _ => 0) 0 n
  else match f with
    | none => throw .panic
    | some _ => mapPages kend pgdir addr
        (fun i => env.content (offset + i * 4096) (min 4096 (length - i * 4096))) 0 n

end load

/-! ## The list of regions -/

/-- The loop of `is_usable`. -/
def usableFrom (addr length : Nat) : List Region → Bool
  | [] => false
  | cursor :: rest =>
    if add64 addr length ≤ cursor.addr then true
    else if add64 cursor.addr cursor.length ≤ addr ∧
        rest.head?.all (fun next => add64 addr length ≤ next.addr) then true
    else usableFrom addr length rest

def isUsable (mm : Mm) (addr length : Nat) : Bool :=
  mm.nregions = 0 || usableFrom addr length mm.regions

/-- The loop at `select_addr`, with the length rounded up. -/
def selectAddr (length : Nat) : List Region → Nat → Nat
  | [], addr => addr
  | node :: rest, addr =>
    if add64 addr length ≤ node.addr then addr
    else if add64 node.addr node.length ≤ addr ∧
        rest.head?.all (fun next => add64 addr length ≤ next.addr) then addr
    else
      let right := add64 node.addr node.length
      selectAddr length rest (if addr ≤ right then right else addr)

/-- The loop of `mmap` that links the region; `seen` are the nodes before. If the region goes
before a node, it becomes the head of the list. -/
def linkFrom (region : Region) : List Region → List Region → List Region
  | seen, [] => seen
  | seen, node :: rest =>
    if region.addr < node.addr then region :: node :: rest
    else if node.addr < region.addr ∧ rest.head?.any (fun next => region.addr < next.addr) then
      seen ++ node :: region :: rest
    else if rest = [] then seen ++ [node, region]
    else linkFrom region (seen ++ [node]) rest

/-- Step 3 of `mmap`. -/
def linkRegion (mm : Mm) (region : Region) : List Region :=
  if mm.nregions = 0 then [region] else linkFrom region [] mm.regions

/-- Change the first region that has the property. -/
def updateFirst (p : Region → Bool) (g : Region → Region) : List Region → List Region
  | [] => []
  | r :: rest => if p r then g r :: rest else r :: updateFirst p g rest

/-- The region after its front is unmapped, in `munmap`. -/
def cutFront (n : Nat) (q : Region) : Region :=
  { q with addr := add64 q.addr n, length := q.length - n }

/-! ## The calls -/

/-- The arguments of `mmap`. -/
structure MmapArgs where
  addr : Nat
  length : Nat
  prot : BitVec 32
  flags : BitVec 32
  f : Option Nat
  offset : Nat

section calls

variable (kend : Nat)

/-- The branch of `mmap` for `MAP_FIXED` with `PROT_NONE`, page `i` and on: the number of mapped
pages; a missing table is a null pointer. -/
def protectPages (pgdir addr : Nat) : Nat → Nat → V Nat
  | _, 0 => return 0
  | i, n + 1 => do
    match ← pgdirWalk pgdir (add64 addr (i * 4096) / 4096) false with
    | none => throw .panic
    | some (pgt, idx) =>
      let s ← get
      if s.mem pgt idx &&& pteValid ≠ 0 then
        set (s.setMem (s.mem.write pgt idx (s.mem pgt idx &&& ~~~ pteUser)))
        return (← protectPages pgdir addr (i + 1) n) + 1
      else protectPages pgdir addr (i + 1) n

/-- What step 1 of `mmap` comes to. -/
inductive Choice where
  | result (r : Int)
  | protect
  | addr (a : Nat)
  deriving DecidableEq

/-- Step 1 of `mmap`. -/
def chooseAddr (mm : Mm) (a : MmapArgs) : Choice :=
  if a.addr ≠ 0 then
    if usertop < roundUp (add64 (roundUp a.addr) a.length) then .result einval
    else if has a.flags mapFixed then
      if a.addr % 4096 ≠ 0 then .result (-einval)
      else if a.prot = protNone then .protect
      else if (findMmapRegion mm.regions a.addr).any (fun r => a.addr = r.addr) then
        .result (-einval)
      else if !isUsable mm a.addr a.length then .result (-einval)
      else .addr a.addr
    else .addr (selectAddr (roundUp a.length) mm.regions (roundDown a.addr))
  else .addr (selectAddr (roundUp a.length) mm.regions
    ((mm.regions.head?.map Region.addr).getD mmapbase))

/-- `kmalloc` of the node. -/
def allocNode (env : Env) : V Bool := do
  modify fun s => s.setFree (s.freelist.drop env.nodeFrames)
  return env.node

/-- Steps 2 to 4 of `mmap`. -/
def mapAt (env : Env) (a : MmapArgs) (addr : Nat) : M Int := do
  if !(← onFrames (allocNode env)) then return -enomem
  else
    let s ← get
    let region : Region := ⟨addr, a.length, a.offset, a.f, a.prot, a.flags⟩
    set (s.setRegions (linkRegion s.mm region) s.mm.nregions)
    tryCatch (do
      onFrames (mmapLoadPages kend env s.mm.pgdir addr a.length a.flags a.f a.offset)
      modify fun t => t.setRegions
        (linkRegion s.mm { region with length := roundUp a.length }) (s.mm.nregions + 1)
      return (addr : Int)) fun
      -- the node is freed, and stays in the list
      | .errno e => return -e
      | err => throw err

/-- `mmap`: the choice of an address and the mapping there. -/
def mmap (env : Env) (a : MmapArgs) : M Int := do
  let s ← get
  match chooseAddr s.mm a with
  | .result r => return r
  | .protect => do
    let mapped ← onFrames (protectPages s.mm.pgdir a.addr 0 (a.length / 4096))
    if mapped = a.length / 4096 then return a.addr else return -einval
  | .addr addr =>
    if usertop < add64 addr (roundUp a.length) then return -enomem
    else mapAt kend env a addr

/-- An open file, as far as `sys_mmap` looks at it. -/
structure OpenFile where
  f : Nat
  readable : Bool
  writable : Bool

/-- The checks of `sys_mmap`; `fd` is the descriptor and `file` what `ofile` holds for it. -/
def mmapArgs (addr length : Nat) (prot flags : BitVec 32) (fd : Int) (file : Option OpenFile)
    (offset : Nat) : Except Nat MmapArgs :=
  if has flags mapAnonymous then
    if fd ≠ -1 then .error einval
    else if !has flags (mapPrivate ||| mapShared) then .error einval
    else if length = 0 ∨ 2 ^ 63 ≤ length ∨ 2 ^ 63 ≤ offset then .error einval
    else if has flags mapFixed ∧ addr = 0 then .error einval
    else .ok ⟨addr, length, prot, flags, none, offset⟩
  else match file with
    | none => .error ebadf
    | some file =>
      if !has flags (mapPrivate ||| mapShared) then .error einval
      else if length = 0 ∨ 2 ^ 63 ≤ length ∨ 2 ^ 63 ≤ offset then .error einval
      else if has flags mapFixed ∧ addr = 0 then .error einval
      else if !file.readable then .error eacces
      else if has flags mapShared ∧ has prot protWrite ∧ !file.writable then .error eacces
      else .ok ⟨addr, length, prot, flags, some file.f, offset⟩

def sysMmap (env : Env) (args : Except Nat MmapArgs) : M Int :=
  match args with
  | .error e => return -e
  | .ok a => mmap kend env a

/-- A region that is written back. -/
def writesBack (r : Region) : Option Nat :=
  if has r.flags mapShared ∧ has r.prot protWrite then r.f else none

/-- The write-back of `munmap` and `msync`: whether to go on. -/
def writeBack (env : Env) (r : Region) (length : Nat) : M Bool :=
  match writesBack r with
  | none => return true
  | some f => do
    modify fun s => s.addWrite ⟨f, r.addr, r.offset, length⟩
    return decide (0 ≤ env.written)

/-- The last part of `munmap`. -/
def unmapRegion (r : Region) (addr length : Nat) : M Int := do
  let s ← get
  if r.length ≤ length then
    -- `delete_mmap_node`
    let rs := s.mm.regions.eraseP fun q => q.addr = r.addr
    set (s.setRegions rs s.mm.nregions)
    onFrames (uvmUnmap kend s.mm.pgdir r.addr ((r.length + 4095) / 4096))
    modify fun t => t.setRegions rs (s.mm.nregions - 1)
    return 0
  else
    onFrames (uvmUnmap kend s.mm.pgdir addr (length / 4096))
    modify fun t => t.setRegions (updateFirst (fun q => q = r) (cutFront length) s.mm.regions)
      s.mm.nregions
    return 0

/-- `munmap`. -/
def munmap (env : Env) (addr length : Nat) : M Int := do
  if addr % 4096 ≠ 0 then return -einval
  else
    match findMmapRegion (← get).mm.regions addr with
    | none => return 0
    | some r =>
      if ← writeBack env r r.length then unmapRegion kend r addr (roundUp length)
      else return env.written

/-- The loop of `msync`. -/
def msyncFrom (env : Env) : List Region → Nat → Nat → M Int
  | [], _, _ => return 0
  | r :: rest, addr, length =>
    if r.addr = addr ∧ (writesBack r).isSome then do
      let len := min r.length length
      if ← writeBack env r len then
        if length - len = 0 then return 0
        else msyncFrom env rest (add64 addr len) (length - len)
      else return env.written
    else msyncFrom env rest addr length

def msync (env : Env) (addr length : Nat) (flags : BitVec 32) : M Int := do
  if has flags msAsync ∨ !has flags msSync then return 0
  else if addr % 4096 ≠ 0 then return -einval
  else msyncFrom env (← get).mm.regions addr length

end calls

end RpiOs.Mmap
