import Mathlib.Tactic.Simps.Basic
import RpiOs.Kernel.Shared
import RpiOs.Lib.Radix

/-!
# Physical frames and user page tables

`kern/mm.c` and `kern/vm.c`. A frame is named by `pa >> PGSHIFT`, so that `V2P` and `P2V` are the
identity. The memory of a frame is an array of 64-bit words; page tables live in it as they do in
the source. The free list is the list of the frames that `kmem.freelist` links.

Left out: `fpages` and `totalram`, which only statistics read; the two spinlocks, which make each of
the small functions atomic. Reference counts are integers: 2^31 entries for one frame do not fit
into the tables that 1 GiB can hold.
-/

namespace RpiOs.Vm

open Lib Lib.Radix

/-! ## Entries -/

/-- A page-table entry, or any other word. -/
abbrev Word := BitVec 64

def pteValid : Word := 0x1#64

def pteTable : Word := 0x3#64

def ptePage : Word := 0x3#64

def pteUser : Word := 0x40#64

/-- `PTE_NORMAL`, that is `(MT_NORMAL << 2) | AF_USED | SH_INNER`. -/
def pteNormal : Word := 0x704#64

def pteUdata : Word := pteUser ||| pteNormal ||| ptePage

/-- The mask of `PTE_ADDR`. -/
def addrMask : Word := ~~~ 0xFFFF000000000FFF#64

/-- `PTE_ADDR(pte) >> PGSHIFT`. -/
def frameOf (e : Word) : Nat := (e &&& addrMask).toNat / 4096

/-- The frame that a valid entry points to. -/
def target (e : Word) : Option Nat := if e &&& pteValid ≠ 0 then some (frameOf e) else none

/-- `pa | flags`. -/
def mkPte (f : Nat) (flags : Word) : Word := BitVec.ofNat 64 (f * 4096) ||| flags

/-! ## Frames -/

/-- `NFRAMES`, `PHYSTOP / PGSIZE`. -/
def nframes : Nat := 0x3b400

/-- The number of entries of a table. -/
abbrev entries : Nat := 512

/-- `union header` of `kmalloc.c`, with addresses in units of its size. -/
structure Header where
  ptr : Nat
  size : Nat
  deriving DecidableEq, Repr, Inhabited

/-- `kmem`, `kmem_reftable`, the memory of the frames, and `freep` with the headers of
`kmalloc.c`. -/
@[ext]
structure Phys where
  freelist : List Nat
  ref : Nat → Int
  mem : Store Word
  freep : Option Nat
  header : Nat → Header

/-- How a function ends when it does not return a result: a panic, a null pointer, a loop without
end, or a negative error number. -/
inductive Fault where
  | panic
  | null
  | hang
  | errno (e : Nat)
  deriving DecidableEq, Repr

/-- What works on the frames. -/
abbrev V := EStateM Fault Phys

namespace Phys

variable (s : Phys)

/-- `set_kmem_ref`. -/
@[simps -fullyApplied]
def setRef (f : Nat) (count : Int) : Phys := { s with ref := Function.update s.ref f count }

@[simps -fullyApplied]
def setMem (m : Store Word) : Phys := { s with mem := m }

@[simps -fullyApplied]
def setFree (fs : List Nat) : Phys := { s with freelist := fs }

@[simps -fullyApplied]
def setHeap (p : Option Nat) (hd : Nat → Header) : Phys := { s with freep := p, header := hd }

end Phys

def incKmemRef (f : Nat) : V Unit := modify fun s => s.setRef f (s.ref f + 1)

def decKmemRef (f : Nat) : V Unit := modify fun s => s.setRef f (s.ref f - 1)

def getKmemRef (f : Nat) : V Int := return (← get).ref f

/-- `kalloc`. -/
def kalloc : V (Option Nat) := do
  let s ← get
  match s.freelist with
  | [] => return none
  | r :: fs =>
    set ((s.setFree fs).setRef r 1)
    return some r

/-- The kernel address of a frame, and 0 for none. -/
def kaddr : Option Nat → Word
  | none => 0
  | some f => BitVec.ofNat 64 (0xFFFF000000000000 + f * 4096)

variable (kend : Nat)

/-- `kfree`; `kend` is the first frame after the kernel image. -/
def kfree (f : Nat) : V Unit :=
  if f < kend ∨ nframes ≤ f then throw .panic
  else modify fun s =>
    -- `r->next` is stored in the frame itself
    ((s.setMem (s.mem.write f 0 (kaddr s.freelist.head?))).setFree (f :: s.freelist)).setRef f 0

/-- `if (get_kmem_ref(pa) == 0) kfree(P2V(pa))`. -/
def freeIfUnused (f : Nat) : V Unit := do
  if (← getKmemRef f) = 0 then kfree kend f

/-- `memset(p, 0, PGSIZE)`. -/
def zeroFrame (f : Nat) : V Unit := modify fun s => s.setMem (s.mem.fill f 0)

/-- `memmove(np, P2V(pa), PGSIZE)`. -/
def copyFrame (dst src : Nat) : V Unit :=
  modify fun s => s.setMem fun g => if g = dst then s.mem src else s.mem g

/-! ## Page tables -/

/-- `vm_init`. -/
def vmInit : V Nat := do
  match ← kalloc with
  | none => throw .null
  | some pgdir =>
    zeroFrame pgdir
    return pgdir

/-- `pgdir_walk`, from the table `pgt` on with `h` levels still to go; the place of the entry
is a frame and an index. -/
def walk (alloc : Bool) : Nat → Nat → Nat → V (Option (Nat × Nat))
  | 0, pgt, vpn => return some (pgt, digit entries 0 vpn)
  | h + 1, pgt, vpn => do
    let idx := digit entries (h + 1) vpn
    match target ((← get).mem pgt idx) with
    | some g => walk alloc h g vpn
    | none =>
      if alloc then
        match ← kalloc with
        | some p =>
          zeroFrame p
          modify fun s => s.setMem (s.mem.write pgt idx (mkPte p pteTable))
          walk alloc h (frameOf (mkPte p pteTable)) vpn
        | none => return none
      else return none

def pgdirWalk (pgdir vpn : Nat) (alloc : Bool) : V (Option (Nat × Nat)) := walk alloc 3 pgdir vpn

/-- The body of the loop of `uvm_map`. -/
def mapPage (pgdir vpn f : Nat) : V Unit := do
  match ← pgdirWalk pgdir vpn true with
  | none => throw (.errno einval)
  | some (pgt, idx) =>
    let s ← get
    if s.mem pgt idx &&& pteValid ≠ 0 then throw (.errno einval)
    else set (s.setMem (s.mem.write pgt idx (mkPte f pteUdata)))

/-- `uvm_map`; `va` and `sz` in bytes. -/
def uvmMap (pgdir va sz f : Nat) : V Unit :=
  if usertop ≤ f * 4096 then throw .panic
  else (List.range (((va + sz) % 2 ^ 64 + 4095) / 4096 - va / 4096)).forM fun i =>
    mapPage pgdir (va / 4096 + i) (f + i)

/-- The body of the loop of `uvm_unmap`. -/
def unmapPage (pgdir vpn : Nat) : V Unit := do
  match ← pgdirWalk pgdir vpn false with
  | none => throw .panic
  | some (pgt, idx) =>
    let e := (← get).mem pgt idx
    if e &&& pteValid = 0 ∨ e &&& ptePage = pteValid then throw .panic
    else do
      decKmemRef (frameOf e)
      freeIfUnused kend (frameOf e)
      modify fun s => s.setMem (s.mem.write pgt idx 0)

def uvmUnmap (pgdir va npages : Nat) : V Unit :=
  if va % 4096 ≠ 0 then throw .panic
  else (List.range ((va + npages * 4096) % 2 ^ 64 / 4096 - va / 4096)).forM fun i =>
    unmapPage kend pgdir (va / 4096 + i)

/-! ## Regions -/

/-- `struct mmap_region`, without `next`: `p->regions` is a list. -/
structure Region where
  addr : Nat
  length : Nat
  offset : Nat
  f : Option Nat
  prot : BitVec 32
  flags : BitVec 32
  deriving DecidableEq, Repr

/-- The fields of `struct proc` for the address space. -/
structure Mm where
  pgdir : Nat
  regions : List Region
  nregions : Nat

def mapShared : BitVec 32 := 0x01#32

/-- `find_mmap_region`, in the list of the current process. -/
def findMmapRegion (regions : List Region) (start : Nat) : Option Region :=
  regions.find? fun r => decide (r.addr ≤ start ∧ start < (r.addr + r.length) % 2 ^ 64)

/-- `region && region->flags & MAP_SHARED` for the page. -/
def isShared (regions : List Region) (vpn : Nat) : Bool :=
  (findMmapRegion regions (vpn * 4096)).any fun r => r.flags &&& mapShared ≠ 0

/-! ## Copying and freeing an address space -/

/-- The test of `vm_free` for a shared page. -/
def dropShared (regions : List Region) (vpn : Nat) (e : Word) : V Unit :=
  if isShared regions vpn then decKmemRef (frameOf e) else return ()

/-- The innermost body of `vm_free`. -/
def freePage (regions : List Region) (vpn : Nat) (e : Word) : V Unit := do
  dropShared regions vpn e
  freeIfUnused kend (frameOf e)

/-- `vm_free`; `regions` is the list of the current process. -/
@[irreducible] def vmFree (regions : List Region) (pgdir : Nat) : V Unit :=
  traverse entries target Phys.mem (freePage kend regions) (kfree kend) 3 pgdir 0

/-- The choice of `np` in `uvm_copy`. -/
def childFrame (regions : List Region) (newpgdir vpn : Nat) (e : Word) : V Nat :=
  if isShared regions vpn then do
    incKmemRef (frameOf e)
    return frameOf e
  else do
    match ← kalloc with
    | none =>
      vmFree kend regions newpgdir
      throw .null
    | some np =>
      copyFrame np (frameOf e)
      return np

/-- What `uvm_copy` does when `uvm_map` fails. -/
def undoCopy (regions : List Region) (newpgdir np : Nat) : Fault → V Unit
  | .panic => throw .panic
  | _ => do
    vmFree kend regions newpgdir
    kfree kend np
    throw .null

/-- The innermost body of `uvm_copy`. -/
def copyPage (regions : List Region) (newpgdir vpn : Nat) (e : Word) : V Unit :=
  if e &&& pteNormal = 0 then throw .panic
  else do
    let np ← childFrame kend regions newpgdir vpn e
    tryCatch (uvmMap newpgdir (vpn * 4096) 4096 np) (undoCopy kend regions newpgdir np)

def uvmCopy (regions : List Region) (pgdir : Nat) : V Nat := do
  let newpgdir ← vmInit
  traverse entries target Phys.mem (copyPage kend regions newpgdir) (fun _ => pure ()) 3 pgdir 0
  return newpgdir

end RpiOs.Vm
