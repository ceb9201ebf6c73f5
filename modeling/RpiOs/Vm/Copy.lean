import RpiOs.Vm.Walk

/-!
# Copying an address space

`uvm_copy` goes through the leaves of the parent's tables. `Copied` accounts for every frame it has
taken: it is a table of the child or the copy of a private page. A page of a shared region maps the
parent's frame and counts one more reference. `uvmCopy_spec` is the result for all leaves.
-/

namespace RpiOs.Vm

open Lib Lib.Radix Function

/-- The mapped pages of an address space with their entries. -/
def pages (m : Store Word) (root : Nat) : List (Nat × Word) := leaves entries target m 3 root 0

lemma mem_pages {m : Store Word} {root vpn : Nat} {e : Word} :
    (vpn, e) ∈ pages m root ↔ vpn < npages ∧ pte m root vpn = some e := by
  rw [pages, mem_leaves (by decide)]
  exact and_congr_left' (Nat.div_eq_zero_iff_lt (by decide))

lemma nodup_keys (m : Store Word) (root : Nat) : ((pages m root).map Prod.fst).Nodup := by
  refine List.Nodup.map_on ?_ (nodup_leaves (by decide))
  rintro ⟨k, e⟩ hx ⟨k', e'⟩ hy rfl
  rw [Option.some.inj ((mem_pages.mp hx).2.symm.trans (mem_pages.mp hy).2)]

lemma frameOf_lt (e : Word) : frameOf e < 2 ^ 36 := by
  have hle : (e &&& addrMask).toNat ≤ addrMask.toNat := by
    rw [BitVec.toNat_and]
    exact Nat.and_le_right
  have hmask : addrMask.toNat = 2 ^ 48 - 4096 := by decide
  unfold frameOf
  omega

section copy

variable (regions : List Region)

/-- The frames of the copies of private pages; `fr` is the frame of a page of the child. -/
def copies (fr : Nat → Nat) (done : List (Nat × Word)) : List Nat :=
  (done.filter fun x => !isShared regions x.1).map fun x => fr x.1

/-- How many of the pages are shared pages of the frame. -/
def sharedCount (done : List (Nat × Word)) (f : Nat) : Nat :=
  done.countP fun x => isShared regions x.1 && (frameOf x.2 == f)

/-- The pages `done` of the parent have their frames in the child, and the pages `keys` are mapped;
`fs` are the frames taken since `s₀`. -/
structure Copied (s₀ s : Phys) (new : Nat) (keys : List Nat) (done : List (Nat × Word))
    (fs : List Nat) (fr : Nat → Nat) : Prop where
  free : s₀.freelist = fs ++ s.freelist
  frames : fs.Perm (pageTables s.mem new ++ copies regions fr done)
  maps : ∀ k < npages, pte s.mem new k = if k ∈ keys then some (mkPte (fr k) pteUdata) else none
  shared : ∀ x ∈ done, isShared regions x.1 → fr x.1 = frameOf x.2
  content : ∀ x ∈ done, isShared regions x.1 = false → s.mem (fr x.1) = s₀.mem (frameOf x.2)
  one : ∀ f ∈ fs, s.ref f = 1
  ref : ∀ f, f ∉ fs → s.ref f = s₀.ref f + sharedCount regions done f
  mem : ∀ f, f ∉ fs → s.mem f = s₀.mem f
  freep : s.freep = s₀.freep
  header : s.header = s₀.header

variable {regions} {s₀ s s' : Phys} {new k : Nat} {e : Word} {keys fs gs : List Nat}
  {done : List (Nat × Word)} {fr : Nat → Nat}

section

variable (h : Copied regions s₀ s new keys done fs fr)
include h

lemma Copied.nodup (h0 : FreeOk s₀) : (fs ++ s.freelist).Nodup := h.free ▸ h0.nodup

lemma Copied.freeOk (h0 : FreeOk s₀) : FreeOk s :=
  ⟨(h.nodup h0).of_append_right, fun f hf => h0.range f (h.free ▸ List.mem_append_right _ hf)⟩

lemma Copied.apart (h0 : FreeOk s₀) : ∀ f ∈ fs, f ∉ s.freelist := fun f hf hfree =>
  (List.nodup_append.mp (h.nodup h0)).2.2 f hf f hfree rfl

lemma Copied.tables_subset {f : Nat} (hf : f ∈ pageTables s.mem new) : f ∈ fs :=
  h.frames.mem_iff.mpr (List.mem_append_left _ hf)

lemma Copied.frames_nodup (h0 : FreeOk s₀) :
    (pageTables s.mem new ++ copies regions fr done).Nodup :=
  h.frames.nodup_iff.mp (h.nodup h0).of_append_left

lemma Copied.treeOk (h0 : FreeOk s₀) : TreeOk s 3 new :=
  ⟨(h.frames_nodup h0).of_append_left, fun f hf => h.apart h0 f (h.tables_subset hf)⟩

lemma Copied.subset {f : Nat} (hf : f ∈ fs) : f ∈ s₀.freelist := h.free ▸ List.mem_append_left _ hf

lemma Copied.copy_mem (h0 : FreeOk s₀) {x : Nat × Word} (hx : x ∈ done)
    (hs : isShared regions x.1 = false) :
    fr x.1 ∈ fs ∧ fr x.1 ∉ pageTables s.mem new := by
  have hcopy : fr x.1 ∈ copies regions fr done := List.mem_map.mpr ⟨x, by simp [hx, hs], rfl⟩
  exact ⟨h.frames.mem_iff.mpr (List.mem_append_right _ hcopy),
    fun htab => (List.nodup_append.mp (h.frames_nodup h0)).2.2 _ htab _ hcopy rfl⟩

/-- The next page of the copy gets its entry. -/
lemma Copied.map (h0 : FreeOk s₀)
    (htook : Took s s' gs) (hm : Mapped s.mem s'.mem new k (mkPte (fr k) pteUdata) gs) :
    Copied regions s₀ s' new (k :: keys) done (fs ++ gs) fr := by
  have happart : ∀ f ∈ fs, f ∉ gs := fun f hf hg => h.apart h0 f hf (htook.mem hg)
  refine ⟨by rw [h.free, htook.free, List.append_assoc], ?_, fun j hj => ?_, h.shared,
    fun x hx hs => ?_, fun f hf => ?_, fun f hf => ?_, fun f hf => ?_, htook.freep.trans h.freep,
    htook.header.trans h.header⟩
  · refine List.perm_iff_count.mpr fun f => ?_
    have hfs := h.frames.count_eq f
    have htab := hm.tables.count_eq f
    simp only [List.count_append] at hfs htab ⊢
    omega
  · rw [hm.maps j hj, h.maps j hj]
    by_cases hjk : j = k
    · simp [hjk]
    · simp [hjk]
  · obtain ⟨hfs, htab⟩ := h.copy_mem h0 hx hs
    rw [hm.frame _ (happart _ hfs) htab]
    exact h.content x hx hs
  · rcases List.mem_append.mp hf with hf | hf
    · rw [htook.ref f (happart f hf)]
      exact h.one f hf
    · exact htook.one f hf
  · rw [List.mem_append, not_or] at hf
    rw [htook.ref f hf.2, h.ref f hf.1]
  · rw [List.mem_append, not_or] at hf
    rw [hm.frame f hf.2 fun htab => hf.1 (h.tables_subset htab), h.mem f hf.1]

end

lemma copies_congr {fr' : Nat → Nat} (h : ∀ x ∈ done, fr' x.1 = fr x.1) :
    copies regions fr' done = copies regions fr done :=
  List.map_congr_left fun x hx => h x (List.mem_filter.mp hx).1

lemma sharedCount_append (hk : isShared regions k = true) (f : Nat) :
    sharedCount regions (done ++ [(k, e)]) f =
      sharedCount regions done f + if frameOf e = f then 1 else 0 := by
  simp [sharedCount, List.countP_append, List.countP_cons, hk]

lemma sharedCount_append_private (hk : isShared regions k = false) (f : Nat) :
    sharedCount regions (done ++ [(k, e)]) f = sharedCount regions done f := by
  simp [sharedCount, List.countP_append, hk]

lemma update_of_not_done (hdone : k ∉ done.map Prod.fst) (f : Nat) :
    ∀ x ∈ done, update fr k f x.1 = fr x.1 := by
  intro x hx
  have hne : x.1 ≠ k := fun heq => hdone (heq ▸ List.mem_map_of_mem hx)
  exact update_of_ne hne _ _

/-- The entries made so far do not depend on the frame of the next page. -/
lemma Copied.update_maps (h : Copied regions s₀ s new keys done fs fr) (hk : k ∉ keys) (f : Nat) :
    ∀ j < npages, pte s.mem new j =
      if j ∈ keys then some (mkPte (update fr k f j) pteUdata) else none := by
  intro j hj
  rw [h.maps j hj]
  split
  · next hmem =>
    have hne : j ≠ k := fun heq => hk (heq ▸ hmem)
    rw [update_of_ne hne]
  · rfl

section leaf

variable (h : Copied regions s₀ s new keys done fs fr) (hk : k ∉ keys)
  (hdone : k ∉ done.map Prod.fst)
include h hk hdone

/-- A page of a shared region: one more reference to the parent's frame. -/
lemma Copied.share (hs : isShared regions k = true) (he : frameOf e ∉ s₀.freelist) :
    Copied regions s₀ (s.setRef (frameOf e) (s.ref (frameOf e) + 1)) new keys (done ++ [(k, e)]) fs
      (update fr k (frameOf e)) := by
  have hfs : frameOf e ∉ fs := fun hmem => he (h.subset hmem)
  refine ⟨h.free, ?_, h.update_maps hk _, fun x hx hsh => ?_, fun x hx hsh => ?_, fun f hf => ?_,
    fun f hf => ?_, h.mem, h.freep, h.header⟩
  · have hcopies : copies regions (update fr k (frameOf e)) (done ++ [(k, e)]) =
        copies regions fr done := by
      rw [← copies_congr (update_of_not_done hdone (frameOf e))]
      simp [copies, List.filter_append, hs]
    rw [hcopies]
    exact h.frames
  · rcases List.mem_append.mp hx with hx | hx
    · rw [update_of_not_done hdone _ x hx]
      exact h.shared x hx hsh
    · rw [List.mem_singleton.mp hx, update_self]
  · rcases List.mem_append.mp hx with hx | hx
    · rw [update_of_not_done hdone _ x hx]
      exact h.content x hx hsh
    · rw [List.mem_singleton.mp hx, hs] at hsh
      cases hsh
  · have hne : f ≠ frameOf e := fun heq => hfs (heq ▸ hf)
    rw [Phys.setRef_ref, update_of_ne hne]
    exact h.one f hf
  rw [Phys.setRef_ref, sharedCount_append hs]
  by_cases heq : f = frameOf e
  · rw [heq, update_self, h.ref _ hfs, if_pos rfl]
    push_cast
    omega
  · rw [update_of_ne heq, h.ref f hf, if_neg (Ne.symm heq)]
    rfl

/-- A private page gets a frame with a copy of the bytes. -/
lemma Copied.fresh {np : Nat} (h0 : FreeOk s₀) (hs : isShared regions k = false)
    (htook : Took s s' [np]) (hmem : ∀ f, f ≠ np → s'.mem f = s.mem f)
    (hcopy : s'.mem np = s₀.mem (frameOf e)) :
    Copied regions s₀ s' new keys (done ++ [(k, e)]) (fs ++ [np]) (update fr k np) := by
  have hnp : np ∈ s.freelist := htook.mem (by simp)
  have hfs : np ∉ fs := fun hin => h.apart h0 np hin hnp
  have htab : ∀ f ∈ pageTables s.mem new, s'.mem f = s.mem f := fun f hf =>
    hmem f fun heq => hfs (heq ▸ h.tables_subset hf)
  refine ⟨by rw [h.free, htook.free, List.append_assoc], ?_, fun j hj => ?_, fun x hx hsh => ?_,
    fun x hx hsh => ?_, fun f hf => ?_, fun f hf => ?_, fun f hf => ?_, htook.freep.trans h.freep,
    htook.header.trans h.header⟩
  · have hcopies : copies regions (update fr k np) (done ++ [(k, e)]) =
        copies regions fr done ++ [np] := by
      rw [← copies_congr (update_of_not_done hdone np)]
      simp [copies, List.filter_append, hs]
    have hpt : pageTables s'.mem new = pageTables s.mem new := tables_congr htab
    rw [hcopies, hpt, ← List.append_assoc]
    exact h.frames.append_right _
  · rw [← h.update_maps hk np j hj]
    exact entry_congr (by decide) htab
  · rcases List.mem_append.mp hx with hx | hx
    · rw [update_of_not_done hdone _ x hx]
      exact h.shared x hx hsh
    · rw [List.mem_singleton.mp hx, hs] at hsh
      cases hsh
  · rcases List.mem_append.mp hx with hx | hx
    · rw [update_of_not_done hdone _ x hx, hmem _ fun heq => hfs (heq ▸ (h.copy_mem h0 hx hsh).1)]
      exact h.content x hx hsh
    · rw [List.mem_singleton.mp hx, update_self]
      exact hcopy
  · rcases List.mem_append.mp hf with hf | hf
    · rw [htook.ref f (by simpa using fun heq : f = np => hfs (heq ▸ hf))]
      exact h.one f hf
    · exact htook.one f hf
  · rw [List.mem_append, not_or] at hf
    rw [htook.ref f hf.2, h.ref f hf.1, sharedCount_append_private hs]
  · rw [List.mem_append, not_or] at hf
    rw [hmem f (by simpa using hf.2), h.mem f hf.1]

variable (kend : Nat)

/-- One page of the parent. -/
lemma copyPage_spec (h0 : FreeOk s₀) (hvpn : k < npages) (he : frameOf e ∉ s₀.freelist) :
    Ends (copyPage kend regions new k e) s
      (fun _ s' => ∃ fs' fr', Copied regions s₀ s' new (k :: keys) (done ++ [(k, e)]) fs' fr')
      ⊤ := by
  -- what is left once the frame is there
  have hmap : ∀ {s1 : Phys} {fs1 : List Nat} {np : Nat}, np < 2 ^ 36 →
      Copied regions s₀ s1 new keys (done ++ [(k, e)]) fs1 (update fr k np) →
      Ends (tryCatch (uvmMap new (k * 4096) 4096 np) (undoCopy kend regions new np)) s1
        (fun _ s' => ∃ fs' fr', Copied regions s₀ s' new (k :: keys) (done ++ [(k, e)]) fs' fr')
        ⊤ := by
    intro s1 fs1 np hnp hc
    rw [uvmMap_page hvpn hnp, ends_tryCatch]
    refine (mapPage_spec (hc.freeOk h0) (hc.treeOk h0) hvpn hnp).mono ?_ ?_
    · rintro - s' ⟨gs, htook, hm⟩
      refine ⟨fs1 ++ gs, _, hc.map h0 htook ?_⟩
      rwa [update_self]
    rintro err t ⟨herr, _⟩
    subst herr
    simp only [undoCopy, ends_bind, ends_throw]
    exact (ends_trivial _).imp (fun _ _ _ => ends_trivial _)
  unfold copyPage childFrame
  split
  · trivial
  rw [ends_bind]
  cases hs : isShared regions k with
  | true =>
    simp only [if_true, incKmemRef, ends_bind, ends_modify, ends_pure]
    exact hmap (frameOf_lt e) (h.share hk hdone hs he)
  | false => ?_
  simp only [Bool.false_eq_true, if_false, ends_bind]
  refine (kalloc_spec s).mono ?_ fun _ _ he => he.elim
  rintro r s1 ⟨hmem, ⟨rfl, _, _⟩ | ⟨np, rfl, htook⟩⟩
  · simp only [ends_bind, ends_throw]
    exact ends_trivial _
  simp only [copyFrame, ends_bind, ends_modify, ends_pure]
  have htook' := htook.trans (Took.of_mem s1 fun g => if g = np then s1.mem (frameOf e) else
    s1.mem g) (h.freeOk h0).nodup
  refine hmap ((h.freeOk h0).frame_lt (htook.mem (by simp))) (h.fresh hk hdone h0 hs htook' ?_ ?_)
  · intro f hf
    rw [Phys.setMem_mem, if_neg hf, hmem]
  · rw [Phys.setMem_mem, if_pos rfl, hmem, h.mem _ fun hin => he (h.subset hin)]

end leaf

/-- A new page table, with nothing copied yet. -/
lemma vmInit_spec (regions : List Region) (s₀ : Phys) : Ends vmInit s₀
    (fun new s => Copied regions s₀ s new [] [] [new] fun _ => 0) ⊤ := by
  unfold vmInit
  refine (kalloc_spec s₀).bind ?_
  rintro r s1 ⟨hmem, ⟨rfl, _, _⟩ | ⟨np, rfl, htook⟩⟩
  · trivial
  simp only [zeroFrame, ends_bind, ends_modify, ends_pure]
  have hempty : ∀ i < entries, target ((s1.mem.fill np 0) np i) = none := fun i _ => by
    rw [Store.fill_self, target_zero]
  refine ⟨htook.free, ?_, fun k _ => ?_, by simp, by simp, htook.one, fun f hf => ?_,
    fun f hf => ?_, htook.freep, htook.header⟩
  · rw [Phys.setMem_mem, pageTables, tables_empty hempty]
    exact List.Perm.refl _
  · rw [Phys.setMem_mem, pte, entry_empty hempty (by decide)]
    rfl
  · rw [Phys.setMem_ref, htook.ref f hf]
    simp [sharedCount]
  · rw [Phys.setMem_mem, Store.fill_of_ne _ (by simpa using hf), hmem]

/-- **`uvm_copy`**: if it succeeds, every page of the parent is accounted for. -/
theorem uvmCopy_spec (kend : Nat) {pgdir : Nat} (h0 : FreeOk s₀) (hn : TreeOk s₀ 3 pgdir)
    (hmapped : ∀ x ∈ pages s₀.mem pgdir, frameOf x.2 ∉ s₀.freelist) :
    Ends (uvmCopy kend regions pgdir) s₀
      (fun new s => ∃ fs fr, Copied regions s₀ s new ((pages s₀.mem pgdir).map Prod.fst).reverse
        (pages s₀.mem pgdir) fs fr) ⊤ := by
  unfold uvmCopy
  refine (vmInit_spec regions s₀).step (fun new s hinit => ?_)
  rw [ends_bind]
  -- the leaves before the ones still to come have been copied
  let I : List (Nat × Word ⊕ Nat) → Phys → Prop := fun vs s => ∃ done fs fr,
    pages s₀.mem pgdir = done ++ vs.filterMap Sum.getLeft? ∧
    (∀ f, .inr f ∈ vs → f ∈ pageTables s₀.mem pgdir) ∧
    Copied regions s₀ s new (done.map Prod.fst).reverse done fs fr
  have hkeys := nodup_keys s₀.mem pgdir
  refine Ends.mono (ends_traverse s₀.mem I ?_ ?_ ?_ 3 pgdir 0 [] ?_) ?_ fun _ _ he => he
  · rintro f vs t ⟨done, fs, fr, -, htab, hc⟩ hf
    exact hc.mem f fun hmem => hn.free f (htab f hf) (hc.subset hmem)
  · rintro k e vs t ⟨done, fs, fr, hpages, htab, hc⟩
    have hpages' : pages s₀.mem pgdir = done ++ (k, e) :: vs.filterMap Sum.getLeft? := hpages
    have hx : (k, e) ∈ pages s₀.mem pgdir := by simp [hpages']
    have hdone : k ∉ done.map Prod.fst := fun hmem => by
      rw [hpages', List.map_append, List.map_cons] at hkeys
      exact (List.nodup_append.mp hkeys).2.2 k hmem k List.mem_cons_self rfl
    have hstep := copyPage_spec hc (by simpa using hdone) hdone kend h0 (mem_pages.mp hx).1
      (hmapped _ hx)
    refine hstep.imp ?_
    rintro - t' ⟨fs', fr', hc'⟩
    refine ⟨done ++ [(k, e)], fs', fr', by rw [hpages']; simp,
      fun f hf => htab f (List.mem_cons_of_mem _ hf), ?_⟩
    rwa [List.map_append, List.map_singleton, List.reverse_concat]
  · rintro f vs t ⟨done, fs, fr, hpages, htab, hc⟩
    exact ⟨done, fs, fr, hpages, fun g hg => htab g (List.mem_cons_of_mem _ hg), hc⟩
  · refine ⟨[], [new], fun _ => 0, ?_, fun f hf => ?_, hinit⟩
    · rw [List.append_nil, visits_leaves, List.nil_append, pages]
    · rw [List.append_nil] at hf
      exact visits_tables.mem_iff.mp (List.mem_filterMap.mpr ⟨.inr f, hf, rfl⟩)
  · rintro - t ⟨done, fs, fr, hpages, -, hc⟩
    rw [List.filterMap_nil, List.append_nil] at hpages
    rw [hpages, ends_pure]
    exact ⟨fs, fr, hc⟩

end copy

end RpiOs.Vm
