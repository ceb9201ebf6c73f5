import RpiOs.Vm.Copy

/-!
# An address space while pages come and go

`SpaceOk` is what mapping and unmapping keep: the tables of the address space are sound and not
free, and every mapped frame is a frame of the machine, is neither free nor a table, and has at
least as many references as the address space has entries for it.

* `Pending.mapPage`: a frame that was taken is mapped at a page, or nothing changes.
-/

namespace RpiOs.Vm

open Lib Lib.Radix Function

/-- How many pages of the address space map the frame. -/
def frameCount (m : Store Word) (root f : Nat) : Nat :=
    (pages m root).countP fun x => frameOf x.2 == f

/-- What is asked of a mapped entry. -/
structure EntryOk (kend : Nat) (s : Phys) (root : Nat) (e : Word) : Prop where
  not_free : frameOf e ∉ s.freelist
  not_table : frameOf e ∉ pageTables s.mem root
  range : kend ≤ frameOf e ∧ frameOf e < nframes
  count : (frameCount s.mem root (frameOf e) : Int) ≤ s.ref (frameOf e)
  page : e &&& ptePage ≠ pteValid

/-- The invariant of an address space. -/
structure SpaceOk (kend : Nat) (s : Phys) (root : Nat) : Prop where
  free : FreeOk s
  kend_le : ∀ f ∈ s.freelist, kend ≤ f
  tree : TreeOk s 3 root
  entry : ∀ vpn < npages, ∀ e, pte s.mem root vpn = some e → EntryOk kend s root e

variable {m m' : Store Word} {root vpn : Nat} {e : Word}

section

variable (hvpn : vpn < npages)
  (hnone : pte m root vpn = none)
  (hpte : ∀ k < npages, pte m' root k = if k = vpn then some e else pte m root k)
include hvpn hnone hpte

/-- A new entry is one more page. -/
lemma pages_insert : (pages m' root).Perm ((vpn, e) :: pages m root) := by
  have hnd : ((vpn, e) :: pages m root).Nodup := by
    refine List.nodup_cons.mpr ⟨fun hmem => ?_, nodup_leaves (by decide)⟩
    rw [(mem_pages.mp hmem).2] at hnone
    cases hnone
  refine (List.perm_ext_iff_of_nodup (nodup_leaves (by decide)) hnd).mpr ?_
  rintro ⟨k, e'⟩
  have hmem : (k, e') ∈ pages m' root ↔ k < npages ∧ pte m' root k = some e' := mem_pages
  refine hmem.trans ?_
  rw [List.mem_cons, mem_pages]
  constructor
  · rintro ⟨hk, he⟩
    rw [hpte k hk] at he
    split at he
    · next heq => exact .inl (by rw [heq, Option.some.inj he])
    · exact .inr ⟨hk, he⟩
  rintro (heq | ⟨hk, he⟩)
  · obtain ⟨rfl, rfl⟩ := Prod.mk.inj heq
    exact ⟨hvpn, by rw [hpte k hvpn, if_pos rfl]⟩
  refine ⟨hk, ?_⟩
  rw [hpte k hk, if_neg, he]
  rintro rfl
  rw [he] at hnone
  cases hnone

lemma frameCount_insert (f : Nat) :
    frameCount m' root f = frameCount m root f + if frameOf e = f then 1 else 0 := by
  unfold frameCount
  rw [(pages_insert hvpn hnone hpte).countP_eq, List.countP_cons]
  simp

end

lemma frameCount_congr (hpte : ∀ k < npages, pte m' root k = pte m root k) (f : Nat) :
    frameCount m' root f = frameCount m root f := by
  refine ((List.perm_ext_iff_of_nodup (nodup_leaves (by decide)) (nodup_leaves (by decide))).mpr
    ?_).countP_eq _
  rintro ⟨k, e⟩
  have h : (k, e) ∈ pages m root ↔ k < npages ∧ pte m root k = some e := mem_pages
  have h' : (k, e) ∈ pages m' root ↔ k < npages ∧ pte m' root k = some e := mem_pages
  refine h'.trans (Iff.trans ?_ h.symm)
  exact and_congr_right fun hk => by rw [hpte k hk]

lemma frameCount_eq_zero {f : Nat} (h : ∀ k < npages, ∀ e, pte m root k = some e → frameOf e ≠ f) :
    frameCount m root f = 0 := by
  refine List.countP_eq_zero.mpr fun x hx heq => ?_
  obtain ⟨k, e⟩ := x
  obtain ⟨hk, he⟩ := mem_pages.mp hx
  exact h k hk e he (by simpa using heq)

lemma ptePage_udata (f : Nat) : mkPte f pteUdata &&& ptePage ≠ pteValid := by
  intro heq
  have hbit := congrArg (fun w : Word => w.getLsbD 1) heq
  have hu : pteUdata.getLsbD 1 = true := by decide
  simp only [mkPte, BitVec.getLsbD_and, BitVec.getLsbD_or, hu, Bool.or_true, Bool.true_and] at hbit
  revert hbit
  decide

variable {kend : Nat} {s s' : Phys} {np : Nat} {fs : List Nat} {x : Nat × Nat}

/-- The finite map is the same. -/
def SameMap (s s' : Phys) (root : Nat) : Prop := ∀ k < npages, pte s'.mem root k = pte s.mem root k

lemma TreeOk.of_eq (h : TreeOk s 3 root) (hpt : pageTables s'.mem root = pageTables s.mem root)
    (hnot : ∀ f ∈ pageTables s.mem root, f ∉ s'.freelist) : TreeOk s' 3 root :=
  ⟨(congrArg List.Nodup hpt).mpr h.nodup, fun f hf => hnot f (hpt ▸ hf)⟩

section

variable (h : SpaceOk kend s root) (htab : ∀ f ∈ pageTables s.mem root, s'.mem f = s.mem f)
include h htab

/-- The tables stay as they are, and no frame of the address space becomes free or loses a
reference. -/
lemma SpaceOk.keep (hfree : FreeOk s')
    (hkend : ∀ f ∈ s'.freelist, kend ≤ f) (hnot : ∀ f ∈ pageTables s.mem root, f ∉ s'.freelist)
    (hentry : ∀ k < npages, ∀ e, pte s.mem root k = some e →
      frameOf e ∉ s'.freelist ∧ s.ref (frameOf e) ≤ s'.ref (frameOf e)) :
    SpaceOk kend s' root ∧ SameMap s s' root := by
  have hpt : pageTables s'.mem root = pageTables s.mem root := tables_congr htab
  have hpte : ∀ k, pte s'.mem root k = pte s.mem root k := fun k => entry_congr (by decide) htab
  refine ⟨⟨hfree, hkend, h.tree.of_eq hpt hnot, fun k hk e he => ?_⟩, fun k _ => hpte k⟩
  rw [hpte] at he
  have hok := h.entry k hk e he
  obtain ⟨hout, hle⟩ := hentry k hk e he
  refine ⟨hout, by rw [hpt]; exact hok.not_table, hok.range, ?_, hok.page⟩
  rw [frameCount_congr fun k _ => hpte k]
  exact hok.count.trans hle

lemma SpaceOk.shrink (hnd : s'.freelist.Nodup)
    (hsub : s'.freelist ⊆ s.freelist) (href : ∀ k < npages, ∀ e, pte s.mem root k = some e →
      s.ref (frameOf e) ≤ s'.ref (frameOf e)) : SpaceOk kend s' root ∧ SameMap s s' root :=
  h.keep htab ⟨hnd, fun f hf => h.free.range f (hsub hf)⟩ (fun f hf => h.kend_le f (hsub hf))
    (fun f hf hin => h.tree.free f hf (hsub hin)) fun k hk e he =>
      ⟨fun hin => (h.entry k hk e he).not_free (hsub hin), href k hk e he⟩

end

/-- New tables keep the address space in order. -/
lemma SpaceOk.grown (h : SpaceOk kend s root) (htook : Took s s' fs)
    (hg : Grown s.mem s'.mem 3 root fs) : SpaceOk kend s' root := by
  have hpte : ∀ k, pte s'.mem root k = pte s.mem root k := hg.entry
  refine ⟨htook.freeOk h.free, fun f hf => h.kend_le f (htook.subset hf),
    h.tree.of_perm h.free htook hg.tables, fun k hk e he => ?_⟩
  rw [hpte] at he
  have hok := h.entry k hk e he
  have hfs : frameOf e ∉ fs := fun hmem => hok.not_free (htook.mem hmem)
  refine ⟨fun hfree => hok.not_free (htook.subset hfree), fun htab => ?_, hok.range, ?_, hok.page⟩
  · rcases List.mem_append.mp (hg.tables.mem_iff.mp htab) with hmem | hmem
    · exact hfs hmem
    · exact hok.not_table hmem
  · rw [frameCount_congr fun k _ => hpte k, htook.ref _ hfs]
    exact hok.count

/-! ### A frame on its way into the address space -/

/-- The frame `np` has been taken and is not mapped yet. -/
structure Pending (kend : Nat) (s : Phys) (root np : Nat) : Prop where
  space : SpaceOk kend s root
  not_free : np ∉ s.freelist
  not_table : np ∉ pageTables s.mem root
  not_mapped : ∀ k < npages, ∀ e, pte s.mem root k = some e → frameOf e ≠ np
  range : kend ≤ np ∧ np < nframes
  one : s.ref np = 1

lemma Pending.lt (h : Pending kend s root np) : np < 2 ^ 36 := by
  have := h.range.2
  unfold nframes at this
  omega

/-- A frame taken for a page that is not mapped yet. -/
lemma SpaceOk.pending (h : SpaceOk kend s root) (htook : Took s s' [np])
    (hmem : ∀ f, f ≠ np → s'.mem f = s.mem f) : Pending kend s' root np ∧ SameMap s s' root := by
  have hfree : np ∈ s.freelist := htook.mem (by simp)
  have hne : ∀ k < npages, ∀ e, pte s.mem root k = some e → frameOf e ≠ np := fun k hk e he heq =>
    (h.entry k hk e he).not_free (heq ▸ hfree)
  have htab : ∀ f ∈ pageTables s.mem root, s'.mem f = s.mem f := fun f hf =>
    hmem f fun heq => h.tree.free f hf (heq ▸ hfree)
  have hnd := h.free.nodup
  rw [htook.free, List.singleton_append, List.nodup_cons] at hnd
  obtain ⟨hsp, hsame⟩ := h.shrink htab hnd.2 (fun f hf => htook.subset hf) fun k hk e he => by
    rw [htook.ref _ (by simpa using hne k hk e he)]
  refine ⟨⟨hsp, hnd.1, ?_, fun k hk e he => hne k hk e (hsame k hk ▸ he),
    ⟨h.kend_le np hfree, h.free.range np hfree⟩, htook.one np (by simp)⟩, hsame⟩
  rw [pageTables, tables_congr htab]
  exact fun hin => h.tree.free np hin hfree

/-- Mapping it. -/
lemma Pending.mapped (h : Pending kend s root np) (hvpn : vpn < npages) (htook : Took s s' fs)
    (hm : Mapped s.mem s'.mem root vpn (mkPte np pteUdata) fs) : SpaceOk kend s' root := by
  have hnpfs : np ∉ fs := fun hin => h.not_free (htook.mem hin)
  have htab : ∀ f ∈ pageTables s'.mem root, f ∈ fs ∨ f ∈ pageTables s.mem root := fun f hf =>
    List.mem_append.mp (hm.tables.mem_iff.mp hf)
  have hcount := frameCount_insert hvpn hm.fresh hm.maps
  have hzero : frameCount s.mem root np = 0 := frameCount_eq_zero h.not_mapped
  have hframe : frameOf (mkPte np pteUdata) = np := frameOf_of_target (target_udata h.lt)
  refine ⟨htook.freeOk h.space.free, fun f hf => h.space.kend_le f (htook.subset hf),
    h.space.tree.of_perm h.space.free htook hm.tables, fun k hk e he => ?_⟩
  rw [hm.maps k hk] at he
  split at he
  · cases he
    refine ⟨?_, ?_, ?_, ?_, ptePage_udata np⟩ <;> rw [hframe]
    · exact fun hf => h.not_free (htook.subset hf)
    · exact fun hf => (htab np hf).elim hnpfs h.not_table
    · exact h.range
    · rw [hcount, hzero, hframe, htook.ref np hnpfs, h.one]
      simp
  · have hok := h.space.entry k hk e he
    have hne : np ≠ frameOf e := fun heq => h.not_mapped k hk e he heq.symm
    have hfs : frameOf e ∉ fs := fun hin => hok.not_free (htook.mem hin)
    refine ⟨fun hf => hok.not_free (htook.subset hf), fun hf => (htab _ hf).elim hfs hok.not_table,
      hok.range, ?_, hok.page⟩
    rw [hcount, hframe, if_neg hne, Nat.add_zero, htook.ref _ hfs]
    exact hok.count

/-- Mapping it. -/
theorem Pending.mapPage (h : Pending kend s root np) (hvpn : vpn < npages) :
    Ends (mapPage root vpn np) s
      (fun _ s' => SpaceOk kend s' root ∧ pte s.mem root vpn = none ∧
        ∀ k < npages, pte s'.mem root k =
          if k = vpn then some (mkPte np pteUdata) else pte s.mem root k)
      fun err s' => err = .errno einval ∧ Pending kend s' root np ∧ SameMap s s' root ∧
        ((pte s.mem root vpn).isSome ∨ s'.freelist = []) := by
  refine (mapPage_spec h.space.free h.space.tree hvpn h.lt).mono ?_ ?_
  · rintro - s' ⟨fs, htook, hm⟩
    exact ⟨h.mapped hvpn htook hm, hm.fresh, hm.maps⟩
  rintro err s' ⟨rfl, fs, htook, hg, hor⟩
  have hnpfs : np ∉ fs := fun hin => h.not_free (htook.mem hin)
  have hpte : ∀ k, pte s'.mem root k = pte s.mem root k := hg.entry
  refine ⟨rfl, ⟨h.space.grown htook hg, fun hf => h.not_free (htook.subset hf), fun hf => ?_,
    fun k hk e he => h.not_mapped k hk e (by rw [← hpte]; exact he), h.range, ?_⟩,
    fun k _ => hpte k, hor⟩
  · rcases List.mem_append.mp (hg.tables.mem_iff.mp hf) with hin | hin
    · exact hnpfs hin
    · exact h.not_table hin
  · rw [htook.ref np hnpfs]
    exact h.one

/-- Giving it back. -/
lemma Pending.kfree (h : Pending kend s root np) : Ends (kfree kend np) s
    (fun _ s' => SpaceOk kend s' root ∧ SameMap s s' root) := by
  refine (kfree_ends kend h.range).imp ?_
  rintro - s' ⟨hfree, href, hmem⟩
  refine h.space.keep (fun f hf => hmem f fun heq => h.not_table (heq ▸ hf)) ⟨?_, ?_⟩ ?_ ?_ ?_
  · rw [hfree]
    exact List.nodup_cons.mpr ⟨h.not_free, h.space.free.nodup⟩
  · rw [hfree]
    exact List.forall_mem_cons.mpr ⟨h.range.2, h.space.free.range⟩
  · rw [hfree]
    exact List.forall_mem_cons.mpr ⟨h.range.1, h.space.kend_le⟩
  · rw [hfree]
    intro f hf hin
    rcases List.mem_cons.mp hin with rfl | hin
    · exact h.not_table hf
    · exact h.space.tree.free f hf hin
  intro k hk e he
  have hne := h.not_mapped k hk e he
  rw [hfree, href, update_of_ne hne]
  exact ⟨fun hin => (List.mem_cons.mp hin).elim hne (h.space.entry k hk e he).not_free, le_refl _⟩

/-! ### Unmapping -/

/-- A walk that allocates nothing is a lookup. -/
lemma ends_walk_false {h pgt : Nat} {Q : Option (Nat × Nat) → Phys → Prop}
    {R : Fault → Phys → Prop} : Ends (walk false h pgt vpn) s Q R ↔
      Q (slot entries target s.mem h pgt vpn) s := by
  induction h generalizing pgt with
  | zero => exact Iff.rfl
  | succ h ih =>
    unfold walk slot
    simp only [ends_bind, ends_get]
    cases target (s.mem pgt (digit entries (h + 1) vpn)) with
    | none => exact Iff.rfl
    | some g => exact ih

lemma pte_of_slot (hx : slot entries target m 3 root vpn = some x) :
    pte m root vpn = if m x.1 x.2 &&& pteValid ≠ 0 then some (m x.1 x.2) else none := by
  unfold pte entry
  rw [hx, Option.bind_some]
  unfold target
  split <;> rfl

lemma slot_of_pte (h : pte m root vpn = some e) :
    ∃ x, slot entries target m 3 root vpn = some x ∧ m x.1 x.2 = e ∧ (target e).isSome := by
  obtain ⟨x, hx, he⟩ := Option.bind_eq_some_iff.mp h
  split at he
  · next hsome =>
    rw [Option.some.inj he] at hsome
    exact ⟨x, hx, Option.some.inj he, hsome⟩
  · cases he

/-- One reference less, and a frame without references is free. -/
lemma dropFrame_ends {f : Nat} (hf : kend ≤ f ∧ f < nframes) : Ends (do
      decKmemRef f
      freeIfUnused kend f) s
    (fun _ s' => s'.ref = update s.ref f (s.ref f - 1) ∧
      s'.freelist = (if s.ref f - 1 = 0 then f :: s.freelist else s.freelist) ∧
      ∀ g, g ≠ f → s'.mem g = s.mem g) := by
  simp only [decKmemRef, freeIfUnused, getKmemRef, ends_bind, ends_modify, ends_get, ends_pure,
    Phys.setRef_ref, update_self]
  split
  · next hzero =>
    refine (kfree_ends kend hf).imp ?_
    rintro - s' ⟨hfree, href, hmem⟩
    refine ⟨?_, hfree, hmem⟩
    rw [href, hzero, Phys.setRef_ref, update_idem]
  · exact ⟨rfl, rfl, fun _ _ => rfl⟩

/-- **Unmapping a mapped page**. -/
theorem unmapPage_spec (h : SpaceOk kend s root) (hvpn : vpn < npages)
    (he : pte s.mem root vpn = some e) : Ends (unmapPage kend root vpn) s
      (fun _ s' => SpaceOk kend s' root ∧
        ∀ k < npages, pte s'.mem root k = if k = vpn then none else pte s.mem root k) := by
  have hok := h.entry vpn hvpn e he
  obtain ⟨x, hx, hread, htarget⟩ := slot_of_pte he
  have hvalid : ¬ (e &&& pteValid = 0 ∨ e &&& ptePage = pteValid) := by
    rintro (hz | hz)
    · rw [target, if_neg (by simpa using hz)] at htarget
      cases htarget
    · exact hok.page hz
  unfold unmapPage pgdirWalk
  rw [ends_bind, ends_walk_false, hx]
  simp only [ends_bind, ends_get, hread, if_neg hvalid]
  have hdrop := dropFrame_ends (s := s) hok.range
  rw [ends_bind] at hdrop
  refine hdrop.imp (fun _ t ht => ht.imp ?_)
  rintro - t ⟨href, hfree, hmem⟩
  rw [ends_modify]
  have htab : ∀ f ∈ pageTables s.mem root, t.mem f = s.mem f := fun f hf =>
    hmem f fun heq => hok.not_table (heq ▸ hf)
  have hslot : slot entries target t.mem 3 root vpn = some x := by
    rw [slot_congr (by decide) htab, hx]
  have hnd : (tables entries target t.mem 3 root).Nodup := by
    rw [tables_congr htab]
    exact h.tree.nodup
  have hpt : pageTables (t.mem.write x.1 x.2 0) root = pageTables s.mem root := by
    rw [pageTables, (tables_write_leaf (by decide) hnd hslot 0).1, tables_congr htab, pageTables]
  have hpte : ∀ k < npages, pte (t.mem.write x.1 x.2 0) root k =
      if k = vpn then none else pte s.mem root k := fun k hk => by
    rw [pte, entry_write_leaf (by decide) hnd hslot hvpn 0 hk, target_zero,
      entry_congr (by decide) htab, pte]
    rfl
  -- the finite map before is the one after with the page
  have hcount : ∀ f, frameCount s.mem root f = frameCount (t.mem.write x.1 x.2 0) root f +
      if frameOf e = f then 1 else 0 :=
    frameCount_insert hvpn (by rw [hpte vpn hvpn, if_pos rfl]) fun k hk => by
      rw [hpte k hk]
      split
      · next heq => rw [heq, he]
      · rfl
  have hin : ∀ f, f ∈ t.freelist → f = frameOf e ∧ s.ref (frameOf e) = 1 ∨ f ∈ s.freelist := by
    intro f hf
    rw [hfree] at hf
    split at hf
    · next hzero => exact (List.mem_cons.mp hf).imp (fun heq => ⟨heq, by omega⟩) id
    · exact .inr hf
  refine ⟨⟨⟨?_, fun f hf => ?_⟩, fun f hf => ?_, h.tree.of_eq hpt fun f hf hf' => ?_,
    fun k hk e' he' => ?_⟩, hpte⟩
  · rw [Phys.setMem_freelist, hfree]
    split
    · exact List.nodup_cons.mpr ⟨hok.not_free, h.free.nodup⟩
    · exact h.free.nodup
  · rcases hin f hf with ⟨rfl, -⟩ | hf
    · exact hok.range.2
    · exact h.free.range f hf
  · rcases hin f hf with ⟨rfl, -⟩ | hf
    · exact hok.range.1
    · exact h.kend_le f hf
  · rcases hin f hf' with ⟨rfl, -⟩ | hf'
    · exact hok.not_table hf
    · exact h.tree.free f hf hf'
  rw [Phys.setMem_mem, hpte k hk] at he'
  split at he'
  · cases he'
  have hok' := h.entry k hk e' he'
  have hle := hok'.count
  have hpos : 0 < frameCount (t.mem.write x.1 x.2 0) root (frameOf e') :=
    List.countP_pos_iff.mpr ⟨(k, e'),
      mem_pages.mpr ⟨hk, by rw [hpte k hk, if_neg ‹_›, he']⟩, by simp⟩
  rw [hcount] at hle
  refine ⟨fun hf => ?_, ?_, hok'.range, ?_, hok'.page⟩
  · rcases hin _ hf with ⟨heq, hone⟩ | hf
    · rw [heq, hone] at hle
      rw [heq] at hpos
      simp only [if_true] at hle
      omega
    · exact hok'.not_free hf
  · rw [Phys.setMem_mem, hpt]
    exact hok'.not_table
  rw [Phys.setMem_mem, Phys.setMem_ref, href]
  by_cases heq : frameOf e = frameOf e'
  · rw [← heq] at hle ⊢
    simp only [if_true] at hle
    rw [update_self]
    omega
  · rw [if_neg heq, Nat.add_zero] at hle
    rw [update_of_ne (Ne.symm heq)]
    exact hle

/-- **`uvm_unmap`** of mapped pages. -/
theorem uvmUnmap_spec (h : SpaceOk kend s root) {va n : Nat} (hva : va % 4096 = 0)
    (hle : va + n * 4096 ≤ usertop)
    (hmapped : ∀ i < n, (pte s.mem root (va / 4096 + i)).isSome) :
    Ends (uvmUnmap kend root va n) s (fun _ s' => SpaceOk kend s' root ∧
      ∀ k < npages, pte s'.mem root k =
        if va / 4096 ≤ k ∧ k < va / 4096 + n then none else pte s.mem root k) := by
  have htop := usertop_eq
  have hcount : (va + n * 4096) % 2 ^ 64 / 4096 - va / 4096 = n := by
    unfold usertop at hle
    omega
  unfold uvmUnmap
  rw [if_neg (by omega), hcount, List.range_eq_range']
  -- the first `j` pages are gone
  let I : List Nat → Phys → Prop := fun is t => ∃ j ≤ n, is = List.range' j (n - j) ∧
    SpaceOk kend t root ∧ ∀ k < npages, pte t.mem root k =
      if va / 4096 ≤ k ∧ k < va / 4096 + j then none else pte s.mem root k
  refine (ends_forM (I := I) (fun i is t hI => ?_) ?_).imp ?_
  · obtain ⟨j, hj, his, hsp, hpte⟩ := hI
    have hjn : j < n := by
      by_contra hnot
      rw [Nat.sub_eq_zero_of_le (by omega)] at his
      cases his
    obtain ⟨m, hm⟩ : ∃ m, n - j = m + 1 := ⟨n - j - 1, by omega⟩
    rw [hm, List.range'_succ, List.cons.injEq] at his
    obtain ⟨rfl, rfl⟩ := his
    have hk : va / 4096 + i < npages := by omega
    obtain ⟨e, he⟩ := Option.isSome_iff_exists.mp (hmapped i hjn)
    have he' : pte t.mem root (va / 4096 + i) = some e := by
      rw [hpte _ hk, if_neg (by omega), he]
    refine (unmapPage_spec hsp hk he').imp ?_
    rintro - t' ⟨hsp', hpte'⟩
    refine ⟨i + 1, hjn, by rw [show n - (i + 1) = m by omega], hsp', fun k hk => ?_⟩
    rw [hpte' k hk, hpte k hk]
    split
    · rw [if_pos (by omega)]
    · next hne =>
      congr 1
      exact propext ⟨fun h => ⟨h.1, by omega⟩, fun h => ⟨h.1, by omega⟩⟩
  · exact ⟨0, Nat.zero_le _, by simp, h, fun k _ => by rw [if_neg (by omega)]⟩
  · rintro - t ⟨j, hj, his, hsp, hpte⟩
    have hjn : j = n := by
      have := congrArg List.length his
      simp only [List.length_nil, List.length_range'] at this
      omega
    rw [hjn] at hpte
    exact ⟨hsp, hpte⟩

/-! ### Another entry at a mapped page -/

/-- How the frames are counted when one entry takes the place of another. -/
lemma frameCount_write {e' : Word} (hvpn : vpn < npages)
    (hnd : (pageTables m root).Nodup) (hx : slot entries target m 3 root vpn = some x)
    (he : pte m root vpn = some e) (hvalid : (target e').isSome) (f : Nat) :
    frameCount (m.write x.1 x.2 e') root f + (if frameOf e = f then 1 else 0) =
      frameCount m root f + if frameOf e' = f then 1 else 0 := by
  have hpte : ∀ w : Word, ∀ k < npages, pte (m.write x.1 x.2 w) root k =
      if k = vpn then (if (target w).isSome then some w else none) else pte m root k :=
    fun w k hk => entry_write_leaf (by decide) hnd hx hvpn w hk
  -- both maps are the one without the page, and the page
  have hnone : pte (m.write x.1 x.2 0) root vpn = none := by
    rw [hpte 0 vpn hvpn, if_pos rfl, target_zero]
    rfl
  have hold : frameCount m root f =
      frameCount (m.write x.1 x.2 0) root f + if frameOf e = f then 1 else 0 :=
    frameCount_insert hvpn hnone (fun k hk => by
      rw [hpte 0 k hk]
      split
      · next heq => rw [heq, he]
      · rfl) f
  have hnew : frameCount (m.write x.1 x.2 e') root f =
      frameCount (m.write x.1 x.2 0) root f + if frameOf e' = f then 1 else 0 :=
    frameCount_insert hvpn hnone (fun k hk => by
      rw [hpte e' k hk, hpte 0 k hk, if_pos hvalid]
      split <;> rfl) f
  omega

/-- **Rewriting the entry of a mapped page**, to its own frame or to one with a reference to
spare. -/
theorem SpaceOk.write (h : SpaceOk kend s root) (e' : Word)
    (hvpn : vpn < npages) (hx : slot entries target s.mem 3 root vpn = some x)
    (he : pte s.mem root vpn = some e) (hvalid : (target e').isSome)
    (hpage : e' &&& ptePage ≠ pteValid)
    (hframe : frameOf e' = frameOf e ∨ Pending kend s root (frameOf e')) :
    SpaceOk kend (s.setMem (s.mem.write x.1 x.2 e')) root ∧
      ∀ k < npages, pte (s.mem.write x.1 x.2 e') root k =
        if k = vpn then some e' else pte s.mem root k := by
  have hpt : pageTables (s.mem.write x.1 x.2 e') root = pageTables s.mem root :=
    (tables_write_leaf (by decide) h.tree.nodup hx e').1
  have hpte : ∀ k < npages, pte (s.mem.write x.1 x.2 e') root k =
      if k = vpn then some e' else pte s.mem root k := fun k hk => by
    rw [pte, entry_write_leaf (by decide) h.tree.nodup hx hvpn e' hk, if_pos hvalid]
    rfl
  have hcount := frameCount_write hvpn h.tree.nodup hx he hvalid
  have hok := h.entry vpn hvpn e he
  refine ⟨⟨⟨h.free.nodup, h.free.range⟩, h.kend_le, h.tree.of_eq hpt h.tree.free,
    fun k hk w hw => ?_⟩, hpte⟩
  rw [Phys.setMem_mem, hpte k hk] at hw
  split at hw
  · obtain rfl := Option.some.inj hw
    rcases hframe with heq | hpend
    · have := hcount (frameOf e')
      rw [if_pos heq.symm, if_pos rfl, heq] at this
      refine ⟨heq ▸ hok.not_free, ?_, heq ▸ hok.range, ?_, hpage⟩
      · rw [Phys.setMem_mem, hpt, heq]
        exact hok.not_table
      rw [Phys.setMem_mem, Phys.setMem_ref, heq]
      have hle := hok.count
      omega
    · have := hcount (frameOf e')
      rw [if_pos rfl, frameCount_eq_zero hpend.not_mapped] at this
      refine ⟨hpend.not_free, ?_, hpend.range, ?_, hpage⟩
      · rw [Phys.setMem_mem, hpt]
        exact hpend.not_table
      · rw [Phys.setMem_mem, Phys.setMem_ref, hpend.one]
        omega
  · have hokw := h.entry k hk w hw
    refine ⟨hokw.not_free, ?_, hokw.range, ?_, hokw.page⟩
    · rw [Phys.setMem_mem, hpt]
      exact hokw.not_table
    rw [Phys.setMem_mem, Phys.setMem_ref]
    have hle := hokw.count
    have := hcount (frameOf w)
    rcases hframe with heq | hpend
    · rw [heq] at this
      omega
    have hne : frameOf e' ≠ frameOf w := fun heq => hpend.not_mapped k hk w hw heq.symm
    rw [if_neg hne] at this
    omega

end RpiOs.Vm
