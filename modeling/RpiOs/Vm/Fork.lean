import RpiOs.Vm.Heap
import Mathlib.Algebra.Order.BigOperators.Group.List

/-!
# Fork, exit and wait, for the frames

`fork` takes a frame for the kernel stack, copies the address space and, if there are regions,
allocates their nodes; `exit` touches no frame; `wait4` frees the kernel stack and the address
space.

* `fork_wait4_conserves_iff`: when the frames are conserved.
-/

namespace RpiOs.Vm

open Lib Lib.Radix Function

/-! ## Freeing an address space -/

variable {regions : List Region} {s s₁ t : Phys} {root : Nat} {roots : List Nat}

section free

variable (kend : Nat)

lemma freeIfUnused_ends {f : Nat} (hf : s.ref f ≠ 0) {Q : Unit → Phys → Prop}
    {R : Fault → Phys → Prop} : Ends (freeIfUnused kend f) s Q R ↔ Q () s := by
  unfold freeIfUnused getKmemRef
  simp only [ends_bind, ends_get, ends_pure, if_neg hf]

/-- The visits before `vs` have been made: the tables in `freed` are on the free list, and each
shared page among `done` has given up its reference. -/
structure Freed (regions : List Region) (s t : Phys) (root : Nat) (vs : List (Nat × Word ⊕ Nat))
    (done : List (Nat × Word)) (freed : List Nat) : Prop where
  pages : pages s.mem root = done ++ vs.filterMap Sum.getLeft?
  tables : (freed ++ vs.filterMap Sum.getRight?).Perm (pageTables s.mem root)
  free : t.freelist = freed.reverse ++ s.freelist
  ref : ∀ f, t.ref f = if f ∈ freed then 0 else s.ref f - sharedCount regions done f
  mem : ∀ f, f ∉ freed → t.mem f = s.mem f

variable {vs : List (Nat × Word ⊕ Nat)} {done : List (Nat × Word)} {freed : List Nat}

/-- A visit of `vm_free` to a page: the count of a shared one goes down. -/
lemma Freed.leaf {k : Nat} {e : Word} (h : Freed regions s t root (.inl (k, e) :: vs) done freed)
    (htab : frameOf e ∉ pageTables s.mem root)
    (hkeep : sharedCount regions (Vm.pages s.mem root) (frameOf e) < s.ref (frameOf e)) :
    Ends (freePage kend regions k e) t
      (fun _ t' => Freed regions s t' root vs (done ++ [(k, e)]) freed) := by
  have hpages : Vm.pages s.mem root = done ++ [(k, e)] ++ vs.filterMap Sum.getLeft? := by
    rw [h.pages]
    simp
  have hfreed : frameOf e ∉ freed := fun hmem =>
    htab (h.tables.mem_iff.mp (List.mem_append_left _ hmem))
  have hle : sharedCount regions (done ++ [(k, e)]) (frameOf e) ≤
      sharedCount regions (Vm.pages s.mem root) (frameOf e) := by
    rw [hpages]
    exact (List.sublist_append_left ..).countP_le
  have href := h.ref (frameOf e)
  rw [if_neg hfreed] at href
  unfold freePage dropShared
  rw [ends_bind]
  cases hs : isShared regions k with
  | true =>
    have hcount : sharedCount regions (done ++ [(k, e)]) (frameOf e) =
        sharedCount regions done (frameOf e) + 1 := by
      rw [sharedCount_append hs, if_pos rfl]
    rw [if_pos rfl, decKmemRef, ends_modify, freeIfUnused_ends]
    · refine ⟨hpages, h.tables, h.free, fun f => ?_, h.mem⟩
      rw [Phys.setRef_ref, sharedCount_append hs]
      by_cases hf : f = frameOf e
      · rw [hf, update_self, href, if_neg hfreed, if_pos rfl]
        push_cast
        omega
      · rw [update_of_ne hf, h.ref f, if_neg (Ne.symm hf)]
        rfl
    · rw [Phys.setRef_ref, update_self]
      omega
  | false =>
    rw [sharedCount_append_private hs] at hle
    rw [if_neg (by simp), ends_pure, freeIfUnused_ends kend (by omega)]
    refine ⟨hpages, h.tables, h.free, fun f => ?_, h.mem⟩
    rw [sharedCount_append_private hs]
    exact h.ref f

/-- A visit to a table: its frame is free. -/
lemma Freed.table {f : Nat} (h : Freed regions s t root (.inr f :: vs) done freed)
    (hf : kend ≤ f ∧ f < nframes) : Ends (kfree kend f) t
      (fun _ t' => Freed regions s t' root vs done (freed ++ [f])) := by
  refine (kfree_ends kend hf).imp ?_
  rintro - t' ⟨hfree, href, hmem⟩
  refine ⟨h.pages, by simpa using h.tables, by simp [hfree, h.free], fun g => ?_, fun g hg => ?_⟩
  · rw [href]
    by_cases hg : g = f
    · simp [hg]
    · rw [update_of_ne hg, h.ref g]
      simp [hg]
  · simp only [List.mem_append, List.mem_singleton, not_or] at hg
    rw [hmem g hg.2, h.mem g hg.1]

/-- **`vm_free`** of an address space whose pages all keep a reference: its tables are freed, and
nothing else. -/
theorem vmFree_spec (regions : List Region) (hn : (pageTables s.mem root).Nodup)
    (hrange : ∀ f ∈ pageTables s.mem root, kend ≤ f ∧ f < nframes)
    (htab : ∀ x ∈ pages s.mem root, frameOf x.2 ∉ pageTables s.mem root)
    (hkeep : ∀ x ∈ pages s.mem root,
      sharedCount regions (pages s.mem root) (frameOf x.2) < s.ref (frameOf x.2)) :
    Ends (vmFree kend regions root) s (fun _ s' => ∃ freed : List Nat,
      freed.Perm (pageTables s.mem root) ∧
      s'.freelist = freed.reverse ++ s.freelist ∧
      (∀ f, s'.ref f = if f ∈ freed then 0 else
        s.ref f - sharedCount regions (pages s.mem root) f) ∧
      ∀ f, f ∉ freed → s'.mem f = s.mem f) := by
  unfold vmFree
  let I : List (Nat × Word ⊕ Nat) → Phys → Prop := fun vs t => ∃ done freed,
    Freed regions s t root vs done freed
  refine Ends.mono (ends_traverse s.mem I ?_ ?_ ?_ 3 root 0 [] ?_) ?_ fun _ _ he => he
  · rintro f vs t ⟨done, freed, h⟩ hf
    refine h.mem f fun hmem => ?_
    have hnd := h.tables.nodup_iff.mpr hn
    exact (List.nodup_append.mp hnd).2.2 f hmem f (List.mem_filterMap.mpr ⟨.inr f, hf, rfl⟩) rfl
  · rintro k e vs t ⟨done, freed, h⟩
    have hx : (k, e) ∈ pages s.mem root := by simp [h.pages]
    have hleaf := h.leaf kend (htab (k, e) hx) (hkeep (k, e) hx)
    exact hleaf.imp (fun _ t' h' => ⟨_, _, h'⟩)
  · rintro f vs t ⟨done, freed, h⟩
    have hf : f ∈ pageTables s.mem root := h.tables.mem_iff.mp (by simp)
    refine (h.table kend (hrange f hf)).imp ?_
    exact fun _ t' h' => ⟨_, _, h'⟩
  · refine ⟨[], [], ?_, ?_, rfl, fun f => by simp [sharedCount], fun _ _ => rfl⟩
    · rw [List.append_nil, visits_leaves, List.nil_append, pages]
    · rw [List.append_nil, List.nil_append]
      exact visits_tables
  rintro - t ⟨done, freed, h⟩
  have hpages := h.pages
  have htables := h.tables
  rw [List.filterMap_nil, List.append_nil] at hpages htables
  exact ⟨freed, htables, h.free, by rw [hpages]; exact h.ref, h.mem⟩

end free

/-! ## Fork and wait -/

section model

variable (kend : Nat)

/-- `fork`, when `uvm_copy` returns null. -/
def noCopy (kstack : Nat) : Fault → V Nat
  | .null => do
    kfree kend kstack
    throw (.errno enomem)
  | err => throw err

/-- `fork`, when `copy_mmap_list` fails. -/
def noRegions (regions : List Region) (kstack pgdir : Nat) : Fault → V Unit
  | .errno e => do
    vmFree kend regions pgdir
    kfree kend kstack
    throw (.errno e)
  | err => throw err

/-- `fork`, the copy of the region list; the nodes are `sizeof(struct mmap_region)`, 48 bytes. -/
def copyRegions (mm : Mm) (kstack pgdir : Nat) : V Unit :=
  if mm.nregions = 0 then return ()
  else tryCatch (kmallocs 48 mm.regions.length) (noRegions kend mm.regions kstack pgdir)

/-- What `proc_alloc` and `fork` do to the frames, by the process with `mm`: the kernel stack
and the page table of the child. -/
def forkMemory (mm : Mm) : V (Nat × Nat) := do
  match ← kalloc with
  | none => throw (.errno enomem)
  | some kstack =>
    let pgdir ← tryCatch (uvmCopy kend mm.regions mm.pgdir) (noCopy kend kstack)
    copyRegions kend mm kstack pgdir
    return (kstack, pgdir)

/-- What `wait4` does to the frames when it reaps, in a process with the regions. -/
def reapMemory (regions : List Region) (kstack pgdir : Nat) : V Unit := do
  kfree kend kstack
  vmFree kend regions pgdir

end model

/-- How many entries of the page tables map the frame. -/
def mapCount (m : Store Word) (roots : List Nat) (f : Nat) : Nat :=
  (roots.map fun r => (pages m r).countP fun x => frameOf x.2 == f).sum

/-- The count of every mapped frame is the number of entries that map it. -/
def RefsCount (s : Phys) (roots : List Nat) : Prop :=
  ∀ f, 0 < mapCount s.mem roots f → s.ref f = mapCount s.mem roots f

/-- The frames are in order: `roots` are the page tables of all live processes. -/
structure MemOk (kend : Nat) (s : Phys) (roots : List Nat) : Prop where
  free : FreeOk s
  kend_le : ∀ f ∈ s.freelist, kend ≤ f
  free_ref : ∀ f ∈ s.freelist, s.ref f = 0
  tables : ∀ r ∈ roots, TreeOk s 3 r
  refs : RefsCount s roots

/-- What `forkMemory` did, for the parent's pages `ps`: `fs` became tables and copies of the child,
`gs` went to the kernel heap. -/
structure Forked (regions : List Region) (s s₁ : Phys) (ps : List (Nat × Word)) (kstack child : Nat)
    (fs gs : List Nat) (fr : Nat → Nat) : Prop where
  free : s.freelist = kstack :: (fs ++ gs) ++ s₁.freelist
  frames : fs.Perm (pageTables s₁.mem child ++ copies regions fr ps)
  maps : ∀ k < npages, pte s₁.mem child k =
    if k ∈ ps.map Prod.fst then some (mkPte (fr k) pteUdata) else none
  shared : ∀ x ∈ ps, isShared regions x.1 → fr x.1 = frameOf x.2
  one : ∀ f ∈ kstack :: (fs ++ gs), s₁.ref f = 1
  ref : ∀ f, f ∉ kstack :: (fs ++ gs) → s₁.ref f = s.ref f + sharedCount regions ps f
  mem : ∀ f, f ∉ kstack :: (fs ++ gs) → s₁.mem f = s.mem f

variable {mm : Mm} {kend : Nat} {f : Nat} {ps : List (Nat × Word)}

lemma pages_congr {m m' : Store Word} (h : ∀ f ∈ pageTables m root, m' f = m f) :
    pages m' root = pages m root := leaves_congr h

lemma MemOk.mapped_not_free (h : MemOk kend s roots) (hf : 0 < mapCount s.mem roots f) :
    f ∉ s.freelist := fun hfree => by
  have href := h.refs f hf
  rw [h.free_ref f hfree] at href
  omega

lemma mapCount_pos {m : Store Word} {r : Nat} (hr : r ∈ roots) {x : Nat × Word}
    (hx : x ∈ pages m r) : 0 < mapCount m roots (frameOf x.2) := by
  have hcount : 0 < (pages m r).countP fun y => frameOf y.2 == frameOf x.2 :=
    List.countP_pos_iff.mpr ⟨x, hx, by simp⟩
  exact lt_of_lt_of_le hcount (List.single_le_sum (by simp) _ (List.mem_map_of_mem hr))

lemma sharedCount_eq_zero (h : ∀ x ∈ ps, frameOf x.2 ≠ f)
    (regions : List Region) : sharedCount regions ps f = 0 := by
  refine List.countP_eq_zero.mpr fun x hx hand => ?_
  rw [Bool.and_eq_true, beq_iff_eq] at hand
  exact h x hx hand.2

lemma MemOk.sharedCount_free (h : MemOk kend s roots) {r : Nat} (hr : r ∈ roots)
    (regions : List Region) (hf : f ∈ s.freelist) :
    sharedCount regions (pages s.mem r) f = 0 :=
  sharedCount_eq_zero (fun _ hx heq => h.mapped_not_free (mapCount_pos hr hx) (heq ▸ hf)) regions

/-- The state after `fork`, from that of `uvm_copy`. -/
lemma Copied.forked {sa sb : Phys}
    {kstack child : Nat} {keys fs gs : List Nat} {fr : Nat → Nat} (hnd : s.freelist.Nodup)
    (hshared : ∀ f ∈ s.freelist, sharedCount regions ps f = 0) (htook : Took s sa [kstack])
    (hmem : sa.mem = s.mem) (hc : Copied regions sa sb child keys ps fs fr)
    (hkeys : ∀ k, k ∈ keys ↔ k ∈ ps.map Prod.fst) (hheap : HeapTook sb s₁ gs) :
    Forked regions s s₁ ps kstack child fs gs fr := by
  have hfree : s.freelist = kstack :: (fs ++ gs) ++ s₁.freelist := by
    rw [htook.free, hc.free, hheap.free]
    simp
  have hnd' := hnd
  rw [hfree] at hnd'
  obtain ⟨hk, hfg⟩ := List.nodup_cons.mp hnd'.of_append_left
  have hfsgs : ∀ f ∈ fs, f ∉ gs := fun f hf hg => (List.nodup_append.mp hfg).2.2 f hf f hg rfl
  rw [List.mem_append, not_or] at hk
  have htab : ∀ f ∈ pageTables sb.mem child, s₁.mem f = sb.mem f := fun f hf =>
    hheap.mem f (hfsgs f (hc.tables_subset hf))
  have hpt : pageTables s₁.mem child = pageTables sb.mem child := tables_congr htab
  refine ⟨hfree, by rw [hpt]; exact hc.frames, fun k hk => ?_, hc.shared, fun f hf => ?_,
    fun f hf => ?_, fun f hf => ?_⟩
  · have hpte : pte s₁.mem child k = pte sb.mem child k := entry_congr (by decide) htab
    rw [hpte, hc.maps k hk]
    simp only [hkeys]
  · rw [List.mem_cons, List.mem_append] at hf
    rcases hf with rfl | hf | hf
    · rw [hheap.ref f hk.2, hc.ref f hk.1, htook.one f (by simp),
        hshared f (htook.mem (by simp))]
      rfl
    · rw [hheap.ref f (hfsgs f hf)]
      exact hc.one f hf
    · exact hheap.one f hf
  · simp only [List.mem_cons, List.mem_append, not_or] at hf
    rw [hheap.ref f hf.2.2, hc.ref f hf.2.1, htook.ref f (by simpa using hf.1)]
  · simp only [List.mem_cons, List.mem_append, not_or] at hf
    rw [hheap.mem f hf.2.2, hc.mem f hf.2.1, hmem]

/-- **`fork`**, for the frames, when no page of the parent maps a free one. -/
theorem forkMemory_forked (h : FreeOk s) (htree : TreeOk s 3 mm.pgdir)
    (hmap : ∀ x ∈ pages s.mem mm.pgdir, frameOf x.2 ∉ s.freelist) :
    Ends (forkMemory kend mm) s (fun r s₁ => ∃ fs gs fr,
      Forked mm.regions s s₁ (pages s.mem mm.pgdir) r.1 r.2 fs gs fr ∧
      (gs = [] ↔ mm.nregions = 0 ∨ serves (unitsOf 48) mm.regions.length (heapOf s) = true))
      fun _ _ => True := by
  unfold forkMemory
  refine (kalloc_spec s).bind ?_
  rintro r sa ⟨hmem, ⟨rfl, _, _⟩ | ⟨kstack, rfl, htook⟩⟩
  · trivial
  have hfa := htook.freeOk h
  have hta : TreeOk sa 3 mm.pgdir :=
    ⟨hmem ▸ htree.nodup, fun f hf hfree => htree.free f (hmem ▸ hf) (htook.subset hfree)⟩
  have hma : ∀ x ∈ pages sa.mem mm.pgdir, frameOf x.2 ∉ sa.freelist := fun x hx hfree =>
    hmap x (hmem ▸ hx) (htook.subset hfree)
  rw [ends_bind, ends_tryCatch]
  refine (uvmCopy_spec kend hfa hta hma).mono ?_ fun err _ _ => ?_
  · rintro child sb ⟨fs, fr, hc⟩
    rw [hmem] at hc
    have hforked : ∀ {s₁ gs}, HeapTook sb s₁ gs →
        Forked mm.regions s s₁ (pages s.mem mm.pgdir) kstack child fs gs fr := fun hheap =>
      hc.forked h.nodup (fun f hf => sharedCount_eq_zero (fun x hx heq => hmap x hx (heq ▸ hf)) _)
        htook hmem (by simp) hheap
    have hheap : heapOf sb = heapOf s := by
      unfold heapOf
      rw [hc.freep, hc.header, htook.freep, htook.header]
    rw [ends_bind]
    unfold copyRegions
    split
    · next hzero =>
      exact ⟨fs, [], fr, hforked (HeapTook.of_heap sb sb.freep sb.header), by simp [hzero]⟩
    · next hpos =>
      rw [ends_tryCatch]
      refine (kmallocs_spec 48 _ sb (hc.freeOk hfa).nodup).mono ?_ fun err _ _ => ?_
      · rintro - s₁ ⟨gs, htook', hgs⟩
        rw [hheap] at hgs
        exact ⟨fs, gs, fr, hforked htook', by simp [hgs, hpos]⟩
      · cases err <;> simp only [noRegions, ends_bind, ends_throw]
        exact (ends_trivial _).imp (fun _ _ _ => ends_trivial _)
  · cases err <;> simp only [noCopy, ends_bind, ends_throw]
    exact ends_trivial _

/-! ## While the child lives -/

section child

variable {pgdir kstack child : Nat} {fs gs : List Nat} {fr : Nat → Nat}

lemma frameOf_udata (hf : f < 2 ^ 36) : frameOf (mkPte f pteUdata) = f :=
  frameOf_of_target (target_udata hf)

lemma mem_copies {x : Nat × Word} (hx : x ∈ ps)
    (hs : isShared regions x.1 = false) : fr x.1 ∈ copies regions fr ps :=
  List.mem_map_of_mem (List.mem_filter.mpr ⟨hx, by simp [hs]⟩)

section frames

variable (hf : Forked regions s s₁ (pages s.mem pgdir) kstack child fs gs fr)
include hf

lemma Forked.mem_free (hmem : f ∈ kstack :: (fs ++ gs)) : f ∈ s.freelist :=
    hf.free ▸ List.mem_append_left _ hmem

lemma Forked.copy_mem (hmem : f ∈ copies regions fr (pages s.mem pgdir)) : f ∈ fs :=
  hf.frames.mem_iff.mpr (List.mem_append_right _ hmem)

lemma Forked.table_mem (hmem : f ∈ pageTables s₁.mem child) : f ∈ fs :=
  hf.frames.mem_iff.mpr (List.mem_append_left _ hmem)

/-- The pages of the child are those of the parent, with their new frames. -/
lemma Forked.pages_perm : (pages s₁.mem child).Perm
    ((pages s.mem pgdir).map fun x => (x.1, mkPte (fr x.1) pteUdata)) := by
  have hnd : ((pages s.mem pgdir).map fun x => (x.1, mkPte (fr x.1) pteUdata)).Nodup := by
    refine List.Nodup.of_map Prod.fst ?_
    rw [List.map_map]
    exact nodup_keys s.mem pgdir
  refine (List.perm_ext_iff_of_nodup (nodup_leaves (by decide)) hnd).mpr ?_
  rintro ⟨k, e⟩
  have hmem : (k, e) ∈ pages s₁.mem child ↔ k < npages ∧ pte s₁.mem child k = some e := mem_pages
  refine hmem.trans ?_
  rw [List.mem_map]
  constructor
  · rintro ⟨hk, he⟩
    rw [hf.maps k hk] at he
    split at he
    · next hkey =>
      obtain ⟨x, hx, rfl⟩ := List.mem_map.mp hkey
      exact ⟨x, hx, by rw [Option.some.inj he]⟩
    · cases he
  · rintro ⟨x, hx, heq⟩
    obtain ⟨rfl, rfl⟩ := Prod.mk.inj heq
    have hk := (mem_pages.mp hx).1
    exact ⟨hk, by rw [hf.maps _ hk, if_pos (List.mem_map_of_mem hx)]⟩

lemma Forked.child_sharedCount (f : Nat) : sharedCount regions (pages s₁.mem child) f =
    sharedCount regions (pages s.mem pgdir) f := by
  unfold sharedCount
  rw [hf.pages_perm.countP_eq, List.countP_map]
  refine List.countP_congr fun x hx => ?_
  cases hs : isShared regions x.1 with
  | true => simp [hs, hf.shared x hx hs, frameOf_udata (frameOf_lt x.2)]
  | false => simp [hs]

variable (h : FreeOk s)
include h

lemma Forked.nodup : (kstack :: (fs ++ gs)).Nodup := List.Nodup.of_append_left (hf.free ▸ h.nodup)

lemma Forked.nodup_frames :
    (pageTables s₁.mem child ++ copies regions fr (pages s.mem pgdir)).Nodup :=
  hf.frames.nodup_iff.mp (List.nodup_cons.mp (hf.nodup h)).2.of_append_left

lemma Forked.frame_lt {x : Nat × Word} (hx : x ∈ pages s.mem pgdir) : fr x.1 < 2 ^ 36 := by
  cases hs : isShared regions x.1 with
  | true =>
    rw [hf.shared x hx hs]
    exact frameOf_lt _
  | false =>
    have hmem := hf.copy_mem (mem_copies hx hs)
    exact h.frame_lt (hf.mem_free (by simp [hmem]))

/-- How often the child maps a frame. -/
lemma Forked.child_count (f : Nat) : ((pages s₁.mem child).countP fun x => frameOf x.2 == f) =
    sharedCount regions (pages s.mem pgdir) f +
      (copies regions fr (pages s.mem pgdir)).count f := by
  have hall : ((pages s₁.mem child).countP fun x => frameOf x.2 == f) =
      (pages s.mem pgdir).countP fun x => fr x.1 == f := by
    rw [hf.pages_perm.countP_eq, List.countP_map]
    refine List.countP_congr fun x hx => ?_
    simp [frameOf_udata (hf.frame_lt h hx)]
  have hshared : (((pages s.mem pgdir).filter fun x => isShared regions x.1).countP
      fun x => fr x.1 == f) = sharedCount regions (pages s.mem pgdir) f := by
    rw [List.countP_filter, sharedCount]
    refine List.countP_congr fun x hx => ?_
    cases hs : isShared regions x.1 with
    | true => simp [hf.shared x hx hs]
    | false => simp
  rw [hall, List.countP_eq_countP_filter_add _ _ fun x => isShared regions x.1, hshared, copies,
    List.count, List.countP_map]
  rfl

end frames

section counts

variable (h : MemOk kend s roots) (hp : pgdir ∈ roots)
  (hf : Forked regions s s₁ (pages s.mem pgdir) kstack child fs gs fr) {freed : List Nat}
include h hf

lemma Forked.pages_root {r : Nat} (hr : r ∈ roots) : pages s₁.mem r = pages s.mem r :=
  pages_congr fun f hmem => hf.mem f fun htook => (h.tables r hr).free f hmem (hf.mem_free htook)

lemma Forked.mapCount_eq (f : Nat) : mapCount s₁.mem (child :: roots) f =
    sharedCount regions (pages s.mem pgdir) f + (copies regions fr (pages s.mem pgdir)).count f +
      mapCount s.mem roots f := by
  have hroots : (roots.map fun r => (pages s₁.mem r).countP fun x => frameOf x.2 == f) =
      roots.map fun r => (pages s.mem r).countP fun x => frameOf x.2 == f :=
    List.map_congr_left fun r hr => by rw [hf.pages_root h hr]
  rw [mapCount, List.map_cons, List.sum_cons, hroots, hf.child_count h.free, mapCount]

include hp

/-- **The reference counts while the child lives**. -/
theorem Forked.refsCount : RefsCount s₁ (child :: roots) := by
  intro f hpos
  rw [hf.mapCount_eq h] at hpos ⊢
  by_cases htook : f ∈ kstack :: (fs ++ gs)
  · -- a taken frame is mapped as a copy, once
    have hfree := hf.mem_free htook
    have hroots : mapCount s.mem roots f = 0 := by
      by_contra hne
      exact h.mapped_not_free (Nat.pos_of_ne_zero hne) hfree
    have hshared := h.sharedCount_free hp regions hfree
    have hle : (copies regions fr (pages s.mem pgdir)).count f ≤ 1 :=
      List.nodup_iff_count_le_one.mp (hf.nodup_frames h.free).of_append_right f
    rw [hf.one f htook]
    omega
  · have hcopies : (copies regions fr (pages s.mem pgdir)).count f = 0 :=
      List.count_eq_zero.mpr fun hmem => htook (by simp [hf.copy_mem hmem])
    -- a shared page of the child is a page of the parent
    have hroots : 0 < mapCount s.mem roots f := by
      by_contra hzero
      have hshared := sharedCount_eq_zero (f := f)
        (fun x hx heq => hzero (heq ▸ mapCount_pos hp hx)) regions
      omega
    rw [hf.ref f htook, h.refs f hroots, hcopies]
    push_cast
    omega

/-- What `reapMemory` gives back. -/
structure Reaped (regions : List Region) (s₁ s₂ : Phys) (kstack child : Nat) (freed : List Nat)
    (ps : List (Nat × Word)) : Prop where
  perm : freed.Perm (pageTables s₁.mem child)
  free : s₂.freelist = freed.reverse ++ kstack :: s₁.freelist
  ref : ∀ f, s₂.ref f = if f ∈ kstack :: freed then 0 else s₁.ref f - sharedCount regions ps f
  mem : ∀ f, f ∉ kstack :: freed → s₂.mem f = s₁.mem f

/-- **`wait4`**, for the frames of a child that only exited. -/
theorem Forked.reaped : Ends (reapMemory kend regions kstack child) s₁
    (fun _ s₂ => ∃ freed, Reaped regions s₁ s₂ kstack child freed (pages s.mem pgdir)) := by
  have hrange : ∀ f ∈ kstack :: (fs ++ gs), kend ≤ f ∧ f < nframes := fun f hmem =>
    ⟨h.kend_le f (hf.mem_free hmem), h.free.range f (hf.mem_free hmem)⟩
  have hkstack : ∀ f ∈ fs, f ≠ kstack := fun f hmem heq =>
    (List.nodup_cons.mp (hf.nodup h.free)).1 (heq ▸ List.mem_append_left _ hmem)
  unfold reapMemory
  refine (kfree_ends kend (hrange kstack (by simp))).step ?_
  rintro - t ⟨hfree, href, hmem⟩
  have htables : ∀ f ∈ pageTables s₁.mem child, t.mem f = s₁.mem f := fun f hf' =>
    hmem f (hkstack f (hf.table_mem hf'))
  have hpt : pageTables t.mem child = pageTables s₁.mem child := tables_congr htables
  have hpages : pages t.mem child = pages s₁.mem child := pages_congr htables
  -- the frames of the child's pages are no tables and keep a reference
  have hpage : ∀ x ∈ pages s₁.mem child, frameOf x.2 ∉ pageTables s₁.mem child ∧
      sharedCount regions (pages s.mem pgdir) (frameOf x.2) < t.ref (frameOf x.2) := by
    intro x hx
    obtain ⟨y, hy, rfl⟩ := List.mem_map.mp (hf.pages_perm.mem_iff.mp hx)
    rw [frameOf_udata (hf.frame_lt h.free hy)]
    cases hs : isShared regions y.1 with
    | true =>
      have hpos := mapCount_pos hp hy
      have hnot := h.mapped_not_free hpos
      have htook : frameOf y.2 ∉ kstack :: (fs ++ gs) := fun hin => hnot (hf.mem_free hin)
      rw [hf.shared y hy hs, href, update_of_ne (fun heq => htook (by simp [heq])),
        hf.ref _ htook, h.refs _ hpos]
      exact ⟨fun hin => htook (by simp [hf.table_mem hin]), by omega⟩
    | false =>
      have hcopy : fr y.1 ∈ copies regions fr (pages s.mem pgdir) := mem_copies hy hs
      have hin := hf.copy_mem hcopy
      have hzero := h.sharedCount_free hp regions (hf.mem_free (List.mem_cons_of_mem kstack
        (List.mem_append_left gs hin)))
      rw [href, update_of_ne (hkstack _ hin), hf.one _ (by simp [hin]), hzero]
      exact ⟨fun htab => (List.nodup_append.mp (hf.nodup_frames h.free)).2.2 _ htab _ hcopy rfl,
        by decide⟩
  refine (vmFree_spec kend regions ?_ ?_ ?_ ?_).imp ?_
  · rw [hpt]
    exact (hf.nodup_frames h.free).of_append_left
  · rw [hpt]
    exact fun f hin => hrange f (by simp [hf.table_mem hin])
  · rw [hpt, hpages]
    exact fun x hx => (hpage x hx).1
  · rw [hpages]
    intro x hx
    rw [hf.child_sharedCount]
    exact (hpage x hx).2
  rintro - s₂ ⟨freed, hperm, hfree2, href2, hmem2⟩
  rw [hpt] at hperm
  rw [hpages] at href2
  refine ⟨freed, hperm, by rw [hfree2, hfree], fun f => ?_, fun f hnot => ?_⟩
  · rw [href2 f, hf.child_sharedCount, href]
    by_cases hk : f = kstack
    · have hzero := h.sharedCount_free hp regions (hf.mem_free (f := kstack) (by simp))
      rw [hk, update_self, hzero, if_pos List.mem_cons_self, Nat.cast_zero, sub_zero,
        ite_self]
    · rw [update_of_ne hk]
      simp only [List.mem_cons, hk, false_or]
  · rw [List.mem_cons, not_or] at hnot
    rw [hmem2 f hnot.2, hmem f hnot.1]

omit hp in
/-- **Conservation** fails exactly by the copies of private pages and the pages of the kernel
heap. -/
theorem Forked.conserved_iff {s₂ : Phys}
    (hr : Reaped regions s₁ s₂ kstack child freed (pages s.mem pgdir)) :
    (s₂.freelist.Perm s.freelist ∧ ∀ f, s₂.ref f = s.ref f) ↔
      copies regions fr (pages s.mem pgdir) = [] ∧ gs = [] := by
  constructor
  · rintro ⟨hperm, -⟩
    have hlen := hperm.length_eq
    have hfs := hf.frames.length_eq
    have hfreed := hr.perm.length_eq
    rw [hr.free, hf.free] at hlen
    simp only [List.length_append, List.length_cons, List.length_reverse] at hlen hfs
    exact ⟨List.length_eq_zero_iff.mp (by omega), List.length_eq_zero_iff.mp (by omega)⟩
  · rintro ⟨hcopies, rfl⟩
    have hframes := hf.frames
    rw [hcopies, List.append_nil] at hframes
    refine ⟨List.perm_iff_count.mpr fun f => ?_, fun f => ?_⟩
    · have hfs := hframes.count_eq f
      have hfreed := hr.perm.count_eq f
      rw [hr.free, hf.free]
      simp only [List.count_append, List.count_cons, List.count_reverse, List.append_nil]
      omega
    have hiff : f ∈ kstack :: freed ↔ f ∈ kstack :: (fs ++ []) := by
      rw [List.append_nil, List.mem_cons, List.mem_cons, hr.perm.mem_iff, hframes.mem_iff]
    rw [hr.ref f]
    by_cases htook : f ∈ kstack :: (fs ++ [])
    · rw [if_pos (hiff.mpr htook), h.free_ref f (hf.mem_free htook)]
    · rw [if_neg fun hin => htook (hiff.mp hin), hf.ref f htook]
      omega

omit hp in
/-- After the child was reaped the counts are those of the mappings again. -/
lemma Forked.refsCount_reaped {s₂ : Phys}
    (hr : Reaped regions s₁ s₂ kstack child freed (pages s.mem pgdir)) : RefsCount s₂ roots := by
  have hsub : ∀ f ∈ kstack :: freed, f ∈ kstack :: (fs ++ gs) := fun f hin => by
    rcases List.mem_cons.mp hin with rfl | hin
    · simp
    · simp [hf.table_mem (hr.perm.mem_iff.mp hin)]
  have hroots : ∀ r ∈ roots, pages s₂.mem r = pages s.mem r := fun r hroot =>
    pages_congr fun f hin => by
      have htook : f ∉ kstack :: (fs ++ gs) := fun htook =>
        (h.tables r hroot).free f hin (hf.mem_free htook)
      rw [hr.mem f fun hin' => htook (hsub f hin'), hf.mem f htook]
  have hcount : ∀ f, mapCount s₂.mem roots f = mapCount s.mem roots f := fun f =>
    congrArg List.sum (List.map_congr_left fun r hroot => by rw [hroots r hroot])
  intro f hpos
  rw [hcount] at hpos ⊢
  have htook : f ∉ kstack :: (fs ++ gs) := fun htook =>
    h.mapped_not_free hpos (hf.mem_free htook)
  rw [hr.ref f, if_neg fun hin => htook (hsub f hin), hf.ref f htook, h.refs f hpos]
  omega

end counts

end child

/-- **Conservation of frames**: the counts are the numbers of entries, before and after the child is
reaped; but the free list and the counts are back where they were exactly when every page of the
parent is in a shared region (`vm_free` gives up no private frame) and the nodes of the child's
regions, which nobody frees, came from the kernel heap. -/
theorem fork_wait4_conserves_iff {kend kstack child : Nat} {s s₁ : Phys}
    {roots : List Nat} {mm : Mm} (h : MemOk kend s roots) (hp : mm.pgdir ∈ roots)
    (hfork : forkMemory kend mm s = .ok (kstack, child) s₁) :
    RefsCount s₁ (child :: roots) ∧
      ∃ s₂, reapMemory kend mm.regions kstack child s₁ = .ok () s₂ ∧ RefsCount s₂ roots ∧
        ((s₂.freelist.Perm s.freelist ∧ ∀ f, s₂.ref f = s.ref f) ↔
          (∀ x ∈ pages s.mem mm.pgdir, isShared mm.regions x.1 = true) ∧
            (mm.nregions = 0 ∨ serves (unitsOf 48) mm.regions.length (heapOf s) = true)) := by
  obtain ⟨fs, gs, fr, hf, hgs⟩ := (forkMemory_forked h.free (h.tables _ hp) fun _ hx =>
    h.mapped_not_free (mapCount_pos hp hx)).ok hfork
  obtain ⟨_, s₂, hreap, freed, hr⟩ := (hf.reaped h hp).returns
  refine ⟨hf.refsCount h hp, s₂, hreap, hf.refsCount_reaped h hr, ?_⟩
  rw [hf.conserved_iff h hr, hgs]
  simp [copies]

/-! ## Two parents -/

/-- An address space at frame 20 that maps the first page of the mmap area to frame 24. -/
def onePageMem : Store Word :=
  (((Store.write (fun _ _ => 0) 20 192 (mkPte 21 pteTable)).write 21 0
    (mkPte 22 pteTable)).write 22 0 (mkPte 23 pteTable)).write 23 0 (mkPte 24 pteUdata)

/-- Frames 30 to 45 are free, and the kernel heap has one block of a page. -/
def onePagePhys : Phys where
  freelist := List.range' 30 16
  ref f := if 20 ≤ f ∧ f ≤ 24 then 1 else 0
  mem := onePageMem
  freep := some heapBase
  header a := if a = heapBase then ⟨256 * 50, 0⟩ else if a = 256 *
    50 then ⟨heapBase, 256⟩ else ⟨0, 0⟩

/-- The page is an anonymous shared mapping. -/
def sharedMm : Mm := ⟨20, [⟨0x600000000000, 4096, 0, none, 3, 0x21⟩], 1⟩

/-- The page is a page of the program. -/
def privateMm : Mm := ⟨20, [], 0⟩

lemma onePage_pages : pages onePageMem 20 = [(0x600000000, mkPte 24 pteUdata)] := by decide +kernel

/-- The memory of the example is in order. -/
lemma onePage_memOk : MemOk 16 onePagePhys [20] := by
  have hcount : ∀ f, mapCount onePagePhys.mem [20] f = if f = 24 then 1 else 0 := fun f => by
    have hframe : frameOf (mkPte 24 pteUdata) = 24 := by decide
    simp only [mapCount, onePagePhys, List.map_cons, List.map_nil, onePage_pages, List.countP_cons,
      List.countP_nil, hframe, List.sum_cons, List.sum_nil, beq_iff_eq, eq_comm (a := 24),
        Nat.zero_add, Nat.add_zero]
  refine ⟨⟨by decide +kernel, by decide +kernel⟩, by decide +kernel, by decide +kernel, ?_, ?_⟩
  · intro r hr
    rw [List.mem_singleton.mp hr]
    have htables : tables entries target onePagePhys.mem 3 20 =
      [20, 21, 22, 23] := by decide +kernel
    exact ⟨by rw [htables]; decide, by rw [htables]; decide +kernel⟩
  intro f hf
  rw [hcount] at hf ⊢
  split at hf
  · next heq => simp [onePagePhys, heq]
  · omega

/-- The theorem at a parent whose only page is shared: the frames are conserved. -/
theorem fork_wait4_conserves_shared :
    ∃ s₂, reapMemory 16 sharedMm.regions 30 31 (stateOf (forkMemory 16 sharedMm) onePagePhys) =
        .ok () s₂ ∧ s₂.freelist.Perm onePagePhys.freelist ∧ ∀ f, s₂.ref f = onePagePhys.ref f := by
  have hfork := eq_ok_of_valueOf (x := forkMemory 16 sharedMm) (s := onePagePhys) (a := (30, 31))
    (by decide +kernel)
  obtain ⟨-, s₂, hreap, -, hiff⟩ := fork_wait4_conserves_iff onePage_memOk (by decide) hfork
  refine ⟨s₂, hreap, hiff.mpr ⟨?_, .inr (by decide +kernel)⟩⟩
  intro x hx
  have hpages : pages onePagePhys.mem sharedMm.pgdir = [(0x600000000, mkPte 24 pteUdata)] :=
    onePage_pages
  rw [hpages, List.mem_singleton] at hx
  rw [hx]
  decide

/-- **A private page is lost**: the parent's only page is private. After the child has exited and
been reaped, the frame of its copy (32) is on no free list and mapped nowhere, and its count is
1. -/
theorem fork_wait4_loses_private_copy : MemOk 16 onePagePhys [20] ∧
      valueOf (forkMemory 16 privateMm) onePagePhys = some (30, 31) ∧
      (let s₂ := stateOf (do
          let (kstack, child) ← forkMemory 16 privateMm
          reapMemory 16 privateMm.regions kstack child) onePagePhys
       32 ∈ onePagePhys.freelist ∧ 32 ∉ s₂.freelist ∧ s₂.ref 32 = 1 ∧
        s₂.freelist.length + 1 = onePagePhys.freelist.length) :=
  ⟨onePage_memOk, by decide +kernel⟩

/-! ## The child's pages -/

/-- The frame that a page is mapped to. -/
def frameAt (m : Store Word) (root k : Nat) : Option Nat := (pte m root k).map frameOf

/-- **The memory of the child.** If `uvm_copy` succeeds, it has the pages of the parent: a shared
page to the parent's frame, whose count grows by one for each such page, a private one to a frame of
its own, which was free, with the same contents. Frames in use, the parent's tables and pages among
them, keep their contents. -/
theorem uvmCopy_duplicates {kend pgdir new : Nat} {regions : List Region} {s s' : Phys}
    (h : FreeOk s) (hn : TreeOk s 3 pgdir)
    (hmapped : ∀ x ∈ pages s.mem pgdir, frameOf x.2 ∉ s.freelist)
    (hcopy : uvmCopy kend regions pgdir s = .ok new s') : ∃ fr : Nat → Nat,
      (∀ k < npages, frameAt s'.mem new k =
        (frameAt s.mem pgdir k).map fun f => if isShared regions k then f else fr k) ∧
      (∀ f ∉ s.freelist, s'.mem f = s.mem f ∧
        s'.ref f = s.ref f + sharedCount regions (pages s.mem pgdir) f) ∧
      (∀ x ∈ pages s.mem pgdir, isShared regions x.1 = false →
        fr x.1 ∈ s.freelist ∧ s'.ref (fr x.1) = 1 ∧ s'.mem (fr x.1) = s.mem (frameOf x.2)) ∧
      (∀ x ∈ pages s.mem pgdir, ∀ y ∈ pages s.mem pgdir, isShared regions x.1 = false →
        isShared regions y.1 = false → fr x.1 = fr y.1 → x = y) ∧
      pages s'.mem pgdir = pages s.mem pgdir := by
  obtain ⟨fs, fr, hc⟩ := (uvmCopy_spec kend h hn hmapped).ok hcopy
  have hout : ∀ f ∉ s.freelist, f ∉ fs := fun f hf hin => hf (hc.subset hin)
  refine ⟨fr, fun k hk => ?_, fun f hf => ⟨hc.mem f (hout f hf), hc.ref f (hout f hf)⟩,
    fun x hx hs => ?_, fun x hx y hy hsx hsy heq => ?_, ?_⟩
  · unfold frameAt
    rw [hc.maps k hk]
    rcases he : pte s.mem pgdir k with - | e
    · rw [if_neg fun hin => ?_]
      · rfl
      obtain ⟨x, hx, rfl⟩ := List.mem_map.mp (List.mem_reverse.mp hin)
      cases he.symm.trans (mem_pages.mp hx).2
    have hx : (k, e) ∈ pages s.mem pgdir := mem_pages.mpr ⟨hk, he⟩
    rw [if_pos (List.mem_reverse.mpr (List.mem_map_of_mem hx))]
    cases hs : isShared regions k with
    | true => simp [hc.shared _ hx hs, frameOf_udata (frameOf_lt e)]
    | false => simp [frameOf_udata (h.frame_lt (hc.subset (hc.copy_mem h hx hs).1))]
  · have hfs := (hc.copy_mem h hx hs).1
    exact ⟨hc.subset hfs, hc.one _ hfs, hc.content x hx hs⟩
  · exact List.inj_on_of_nodup_map (hc.frames_nodup h).of_append_right (by simp [hx, hsx])
      (by simp [hy, hsy]) heq
  · exact pages_congr fun f hf => hc.mem f (hout f (hn.free f hf))

/-- The page after the first is mapped to the same frame. -/
def twicePhys : Phys :=
  { onePagePhys with
    mem := onePageMem.write 23 1 (mkPte 24 pteUdata)
    ref := update onePagePhys.ref 24 2 }

/-- Of the two pages the first is shared, and the other one gets a frame of its own. -/
theorem uvmCopy_duplicates_twoPages : let s' := stateOf (uvmCopy 16 sharedMm.regions 20) twicePhys
    frameAt s'.mem 30 0x600000000 = some 24 ∧ s'.ref 24 = 3 ∧ ∃ f ∈ twicePhys.freelist,
      frameAt s'.mem 30 0x600000001 = some f ∧ s'.ref f = 1 ∧ s'.mem f = twicePhys.mem 24 := by
  have hcopy := eq_ok_of_valueOf (x := uvmCopy 16 sharedMm.regions 20) (s := twicePhys) (a := 30)
    (by decide +kernel)
  have htables : tables entries target twicePhys.mem 3 20 = [20, 21, 22, 23] := by decide +kernel
  have hpages : pages twicePhys.mem 20 =
      [(0x600000000, mkPte 24 pteUdata), (0x600000001, mkPte 24 pteUdata)] := by decide +kernel
  have hframe : frameOf (mkPte 24 pteUdata) = 24 := by decide
  obtain ⟨fr, hmap, hused, hprivate, -⟩ := uvmCopy_duplicates (s := twicePhys)
    ⟨onePage_memOk.free.nodup, onePage_memOk.free.range⟩
    ⟨by rw [htables]; decide, by rw [htables]; decide +kernel⟩
      (by rw [hpages]; decide +kernel) hcopy
  obtain ⟨hfree, hone, hbytes⟩ := hprivate (0x600000001, mkPte 24 pteUdata) (by simp [hpages])
    (by decide)
  refine ⟨?_, ?_, fr 0x600000001, hfree, ?_, hone, by rw [hbytes, hframe]⟩
  · rw [hmap _ (by decide), show frameAt twicePhys.mem 20 0x600000000 = some 24 by decide +kernel]
    exact congrArg some (if_pos (by decide))
  · rw [(hused 24 (by decide)).2, hpages]
    decide +kernel
  · rw [hmap _ (by decide), show frameAt twicePhys.mem 20 0x600000001 = some 24 by decide +kernel]
    exact congrArg some (if_neg (by decide))

/-- **A frame that is shared twice**: its count grows by two. -/
theorem uvmCopy_counts_twice : let regions : List Region :=
    [⟨0x600000000000, 8192, 0, none, 3, 0x21⟩]
    let s' := stateOf (uvmCopy 16 regions 20) twicePhys
    valueOf (uvmCopy 16 regions 20) twicePhys = some 30 ∧
      frameAt s'.mem 30 0x600000000 = some 24 ∧ frameAt s'.mem 30 0x600000001 = some 24 ∧
      twicePhys.ref 24 = 2 ∧ s'.ref 24 = 4 := by
  decide +kernel

end RpiOs.Vm
