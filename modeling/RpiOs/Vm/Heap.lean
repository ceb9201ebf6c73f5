import RpiOs.Vm.Copy

/-!
# The kernel heap

`kern/kmalloc.c`: first fit on a circular list of free blocks. Addresses are in units of a header
(16 bytes), so that frame `f` is the units from `256 * f` on; `base` is below every frame.

* `kmalloc_spec`: a call is served from the list (`serve`), and then touches the heap only, or it
  takes a page from the free list.
-/

namespace RpiOs.Vm

open Lib Lib.Radix

/-! ## The model -/

/-- The address of `base`. -/
def heapBase : Nat := 0

/-- `freep` and the headers. -/
structure Heap where
  freep : Nat
  header : Nat → Header

def setHeader (header : Nat → Header) (a : Nat) (h : Header) : Nat → Header :=
  Function.update header a h

/-- The loop of `kmfree` that finds the place of the block `bp`. -/
def findPlace (header : Nat → Header) (bp : Nat) : Nat → Nat → Option Nat
  | 0, _ => none
  | fuel + 1, p =>
    let q := (header p).ptr
    if p < bp ∧ bp < q then some p
    else if q ≤ p ∧ (p < bp ∨ bp < q) then some p
    else findPlace header bp fuel q

/-- More headers than memory can hold. -/
def heapFuel : Nat := 256 * nframes + 2

/-- `kmfree`, the two joins. -/
def joinBlock (header : Nat → Header) (bp p : Nat) : Nat → Header :=
  let next := (header p).ptr
  let size := (header bp).size
  let header :=
    if bp + size = next then
      setHeader header bp ⟨(header next).ptr, size + (header next).size⟩
    else setHeader header bp ⟨next, size⟩
  if p + (header p).size = bp then
    setHeader header p ⟨(header bp).ptr, (header p).size + (header bp).size⟩
  else setHeader header p ⟨bp, (header p).size⟩

/-- `kmfree`. -/
def kmfree (ap : Nat) : V Unit := do
  let s ← get
  match s.freep.bind (findPlace s.header (ap - 1) heapFuel) with
  | none => throw .hang
  | some p => set (s.setHeap (some p) (joinBlock s.header (ap - 1) p))

/-- `morecore`; the result is `freep`. -/
def morecore : V (Option Nat) := do
  match ← kalloc with
  | none => return none
  | some f =>
    zeroFrame f
    modify fun s => s.setHeap s.freep fun a =>
      if a = 256 * f then ⟨0, 256⟩ else if a / 256 = f then ⟨0, 0⟩ else s.header a
    kmfree (256 * f + 1)
    return (← get).freep

/-- The loop of `kmalloc`, up to the block that is large enough or to `freep`: the block
before and the block, or nothing. -/
def firstFit (h : Heap) (nunits : Nat) : Nat → Nat → Nat → Option (Option (Nat × Nat))
  | 0, _, _ => none
  | fuel + 1, prevp, p =>
    if nunits ≤ (h.header p).size then some (some (prevp, p))
    else if p = h.freep then some none
    else firstFit h nunits fuel p (h.header p).ptr

/-- `kmalloc`, cutting the block: the result and the heap. -/
def cutBlock (h : Heap) (nunits prevp p : Nat) : Nat × Heap :=
  let size := (h.header p).size
  if size = nunits then
    (p + 1, ⟨prevp, setHeader h.header prevp ⟨(h.header p).ptr, (h.header prevp).size⟩⟩)
  else
    let q := p + (size - nunits)
    let header := setHeader h.header p ⟨(h.header p).ptr, size - nunits⟩
    (q + 1, ⟨prevp, setHeader header q ⟨(header q).ptr, nunits⟩⟩)

/-- The loop of `kmalloc` from `prevp` on; one round for each page obtained. -/
def kmallocFrom (nunits : Nat) : Nat → Nat → V (Option Nat)
  | 0, _ => throw .hang
  | pages + 1, prevp => do
    let s ← get
    match s.freep with
    | none => throw .hang
    | some freep =>
      match firstFit ⟨freep, s.header⟩ nunits heapFuel prevp (s.header prevp).ptr with
      | none => throw .hang
      | some (some (prevp, p)) =>
        let (ap, h) := cutBlock ⟨freep, s.header⟩ nunits prevp p
        set (s.setHeap (some h.freep) h.header)
        return some ap
      | some none =>
        match ← morecore with
        | none => return none
        | some p => kmallocFrom nunits pages p

/-- The heap at the first use. -/
def heapOf (s : Phys) : Heap :=
  match s.freep with
  | some freep => ⟨freep, s.header⟩
  | none => ⟨heapBase, setHeader s.header heapBase ⟨heapBase, 0⟩⟩

/-- `kmalloc`. -/
def kmalloc (nbytes : Nat) : V (Option Nat) :=
  if 4096 < nbytes then throw .panic
  else do
    modify fun s => s.setHeap (some (heapOf s).freep) (heapOf s).header
    kmallocFrom ((nbytes + 15) / 16 + 1) (nframes + 1) (heapOf (← get)).freep

/-- The calls of `kmalloc` in `copy_mmap_list`; `sizeof(struct mmap_region)` is 48. -/
def kmallocs (nbytes : Nat) : Nat → V Unit
  | 0 => return ()
  | n + 1 => do
    match ← kmalloc nbytes with
    | none => throw (.errno enomem)
    | some _ => kmallocs nbytes n

/-! ## What a call takes -/

/-- `s'` is `s` after the frames `fs` have been taken; their memory and the heap may differ. -/
structure HeapTook (s s' : Phys) (fs : List Nat) : Prop where
  free : s.freelist = fs ++ s'.freelist
  one : ∀ f ∈ fs, s'.ref f = 1
  ref : ∀ f, f ∉ fs → s'.ref f = s.ref f
  mem : ∀ f, f ∉ fs → s'.mem f = s.mem f

variable (s : Phys)

lemma HeapTook.of_heap (p : Option Nat) (hd : Nat → Header) :
    HeapTook s (s.setHeap p hd) [] :=
  ⟨rfl, by simp, fun _ _ => rfl, fun _ _ => rfl⟩

/-- Two parts of a call that took frames. -/
lemma HeapTook.trans {s s1 s2 : Phys} {fs gs : List Nat} (h : HeapTook s s1 fs)
    (h' : HeapTook s1 s2 gs) (hnd : s.freelist.Nodup) : HeapTook s s2 (fs ++ gs) := by
  have happart := apart_of_nodup h.free h'.free hnd
  refine ⟨by rw [h.free, h'.free, List.append_assoc], fun f hf => ?_, fun f hf => ?_,
    fun f hf => ?_⟩
  · rcases List.mem_append.mp hf with hf | hf
    · rw [h'.ref f (happart f hf)]
      exact h.one f hf
    · exact h'.one f hf
  · rw [List.mem_append, not_or] at hf
    rw [h'.ref f hf.2, h.ref f hf.1]
  · rw [List.mem_append, not_or] at hf
    rw [h'.mem f hf.2, h.mem f hf.1]

lemma HeapTook.nodup {s s' : Phys} {fs : List Nat} (h : HeapTook s s' fs)
    (hnd : s.freelist.Nodup) : s'.freelist.Nodup := by
  rw [h.free] at hnd
  exact hnd.of_append_right

lemma kmfree_spec (ap : Nat) (s : Phys) : Ends (kmfree ap) s
    (fun _ s' => HeapTook s s' []) ⊤ := by
  unfold kmfree
  simp only [ends_bind, ends_get]
  split
  · trivial
  · exact HeapTook.of_heap s _ _

/-- `morecore` takes a frame or fails. -/
lemma morecore_spec (hnd : s.freelist.Nodup) : Ends morecore s
    (fun r s' => ∃ fs, HeapTook s s' fs ∧ (r = none ∨ fs ≠ [])) ⊤ := by
  unfold morecore
  refine (kalloc_spec s).bind ?_
  rintro r s1 ⟨hmem, ⟨rfl, _, rfl⟩ | ⟨f, rfl, htook⟩⟩
  · exact ⟨[], HeapTook.of_heap s1 s1.freep s1.header, .inl rfl⟩
  simp only [zeroFrame, ends_bind, ends_modify]
  refine (kmfree_spec _ _).imp (fun _ s' h => ?_)
  refine ⟨[f], HeapTook.trans (?_ : HeapTook s _ [f]) h hnd, .inr (by simp)⟩
  refine ⟨htook.free, htook.one, htook.ref, fun g hg => ?_⟩
  rw [← hmem]
  exact Store.fill_of_ne _ (by simpa using hg) _

/-- The loop of `kmalloc` takes frames from the free list only. -/
lemma kmallocFrom_spec (nunits pages prevp : Nat) (s : Phys) (hnd : s.freelist.Nodup) :
    Ends (kmallocFrom nunits pages prevp) s (fun _ s' => ∃ fs, HeapTook s s' fs)
      ⊤ := by
  induction pages generalizing prevp s with
  | zero => trivial
  | succ pages ih => ?_
  unfold kmallocFrom
  simp only [ends_bind, ends_get]
  split
  · trivial
  split
  · trivial
  · exact ⟨[], HeapTook.of_heap s _ _⟩
  refine (morecore_spec s hnd).step ?_
  rintro r s1 ⟨fs, htook, -⟩
  cases r with
  | none => exact ⟨fs, htook⟩
  | some p =>
    refine (ih p s1 (htook.nodup hnd)).imp ?_
    rintro - s' ⟨gs, htook'⟩
    exact ⟨fs ++ gs, htook.trans htook' hnd⟩

/-! ## Service from the list -/

/-- The heap after a call that a block of the list serves. -/
def serve (h : Heap) (nunits : Nat) : Option Heap :=
  match firstFit h nunits heapFuel h.freep (h.header h.freep).ptr with
  | some (some (prevp, p)) => some (cutBlock h nunits prevp p).2
  | _ => none

/-- The list serves `n` calls. -/
def serves (nunits : Nat) : Nat → Heap → Bool
  | 0, _ => true
  | n + 1, h => (serve h nunits).elim false (serves nunits n)

/-- Units of a block with its header. -/
def unitsOf (nbytes : Nat) : Nat := (nbytes + 15) / 16 + 1

lemma heapOf_setHeap (h : Heap) : heapOf (s.setHeap (some h.freep) h.header) = h := rfl

/-- **`kmalloc`**: served from the list, or a page is taken, or there is none. -/
theorem kmalloc_spec (nbytes : Nat) (s : Phys) (hnd : s.freelist.Nodup) : Ends (kmalloc nbytes) s
    (fun r s' => (∃ h, serve (heapOf s) (unitsOf nbytes) = some h ∧
        s' = s.setHeap (some h.freep) h.header) ∨
      (serve (heapOf s) (unitsOf nbytes) = none ∧ (r = none ∨ ∃ fs, fs ≠ [] ∧ HeapTook s s' fs)))
      ⊤ := by
  unfold kmalloc
  split
  · trivial
  simp only [ends_bind, ends_modify, ends_get, heapOf_setHeap]
  unfold kmallocFrom serve
  simp only [ends_bind, ends_get, Phys.setHeap_freep, Phys.setHeap_header, unitsOf]
  cases hfit : firstFit (heapOf s) ((nbytes + 15) / 16 + 1) heapFuel (heapOf s).freep
      ((heapOf s).header (heapOf s).freep).ptr with
  | none => trivial
  | some r =>
    cases r with
    | some x => exact .inl ⟨_, rfl, rfl⟩
    | none => ?_
    simp only [ends_bind]
    refine (morecore_spec _ (by exact hnd)).imp ?_
    rintro r s1 ⟨fs, htook, hfs⟩
    have htook0 := (HeapTook.of_heap s _ _).trans htook hnd
    rcases r with - | p
    · exact .inr ⟨trivial, .inl rfl⟩
    refine (kmallocFrom_spec _ _ p s1 (htook.nodup hnd)).imp ?_
    rintro - s' ⟨gs, htook'⟩
    have hne : fs ≠ [] := hfs.resolve_left (by simp)
    exact .inr ⟨trivial, .inr ⟨fs ++ gs, by simp [hne], htook0.trans htook' hnd⟩⟩

/-- A number of calls. -/
theorem kmallocs_spec (nbytes n : Nat) (s : Phys) (hnd : s.freelist.Nodup) :
    Ends (kmallocs nbytes n) s (fun _ s' => ∃ fs, HeapTook s s' fs ∧
      (fs = [] ↔ serves (unitsOf nbytes) n (heapOf s) = true)) ⊤ := by
  induction n generalizing s with
  | zero => exact ⟨[], HeapTook.of_heap s s.freep s.header, by simp [serves]⟩
  | succ n ih => ?_
  unfold kmallocs
  refine (kmalloc_spec nbytes s hnd).step ?_
  rintro r s1 hr
  rcases r with - | ap
  · trivial
  rcases hr with ⟨h, hserve, rfl⟩ | ⟨hserve, hr⟩
  · refine (ih _ (by exact hnd)).imp ?_
    rintro - s' ⟨fs, htook, hfs⟩
    refine ⟨fs, (HeapTook.of_heap s _ _).trans htook hnd, ?_⟩
    rwa [serves, hserve, Option.elim_some, ← heapOf_setHeap s h]
  obtain ⟨fs, hne, htook⟩ := hr.resolve_left (by simp)
  have hnd1 := htook.nodup hnd
  refine (ih _ hnd1).imp ?_
  rintro - s' ⟨gs, htook', -⟩
  exact ⟨fs ++ gs, htook.trans htook' hnd, by simp [serves, hserve, hne]⟩

end RpiOs.Vm
