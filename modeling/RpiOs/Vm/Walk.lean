import RpiOs.Vm.Model

/-!
# What the page-table functions do

Every function that may take frames from the free list is specified by the list of frames it took
(`Took`) and by what it did to the tree of tables (`Grown`): new tables are taken frames, nothing
else changes, and the finite map from pages to entries is the same or has one new entry.

* `mapPage_spec`, `uvmMap_page`: one page is mapped, and it was not mapped before.
-/

namespace RpiOs.Vm

open Lib Lib.Radix

/-! ## Entries -/

lemma target_zero : target 0 = none := by decide

variable {f root vpn : Nat} {s s' : Phys} {fs : List Nat}

/-- The mask keeps the address of a frame. -/
lemma ofNat_and_addrMask (hf : f < 2 ^ 36) :
    BitVec.ofNat 64 (f * 4096) &&& addrMask = BitVec.ofNat 64 (f * 4096) := by
  have hmask : addrMask = (BitVec.ofNat 64 (2 ^ 36 - 1)) <<< 12 := by decide
  have hshift : BitVec.ofNat 64 (f * 4096) = (BitVec.ofNat 64 f) <<< 12 := by
    apply BitVec.eq_of_toNat_eq
    simp only [BitVec.toNat_ofNat, BitVec.toNat_shiftLeft, Nat.shiftLeft_eq]
    omega
  have hlow : BitVec.ofNat 64 f &&& BitVec.ofNat 64 (2 ^ 36 - 1) = BitVec.ofNat 64 f := by
    apply BitVec.eq_of_toNat_eq
    rw [BitVec.toNat_and, BitVec.toNat_ofNat, BitVec.toNat_ofNat,
      Nat.mod_eq_of_lt (show 2 ^ 36 - 1 < 2 ^ 64 by decide), Nat.and_two_pow_sub_one_eq_mod]
    omega
  rw [hmask, hshift, ← BitVec.shiftLeft_and_distrib, hlow]

lemma frameOf_mkPte (hf : f < 2 ^ 36) {flags : Word} (hfl : flags &&& addrMask = 0#64) :
    frameOf (mkPte f flags) = f := by
  have hand : mkPte f flags &&& addrMask = BitVec.ofNat 64 (f * 4096) := by
    rw [mkPte, BitVec.and_comm, BitVec.and_or_distrib_left, BitVec.and_comm,
      ofNat_and_addrMask hf, BitVec.and_comm addrMask, hfl, BitVec.or_zero]
  rw [frameOf, hand, BitVec.toNat_ofNat]
  omega

/-- An entry leads to the frame it was made for. -/
lemma target_mkPte (hf : f < 2 ^ 36) {flags : Word} (hfl : flags &&& addrMask = 0#64)
    (hv : flags.getLsbD 0 = true) : target (mkPte f flags) = some f := by
  have hvalid : mkPte f flags &&& pteValid ≠ 0 := by
    intro hz
    have hbit := congrArg (fun w : Word => w.getLsbD 0) hz
    simp only [mkPte, BitVec.getLsbD_and, BitVec.getLsbD_or, hv, Bool.or_true,
      Bool.true_and] at hbit
    revert hbit
    decide
  rw [target, if_pos hvalid, frameOf_mkPte hf hfl]

lemma target_table (hf : f < 2 ^ 36) : target (mkPte f pteTable) = some f :=
  target_mkPte hf (by decide) (by decide)

lemma target_udata (hf : f < 2 ^ 36) : target (mkPte f pteUdata) = some f :=
  target_mkPte hf (by decide) (by decide)

lemma frameOf_of_target {e : Word} (h : target e = some f) : frameOf e = f := by
  unfold target at h
  split at h
  · exact Option.some.inj h
  · cases h

/-! ## The allocator -/

/-- `s'` is `s` after the frames `fs` have been taken from the free list; memory apart. -/
structure Took (s s' : Phys) (fs : List Nat) : Prop where
  free : s.freelist = fs ++ s'.freelist
  one : ∀ f ∈ fs, s'.ref f = 1
  ref : ∀ f, f ∉ fs → s'.ref f = s.ref f
  freep : s'.freep = s.freep
  header : s'.header = s.header

lemma Took.refl (s : Phys) : Took s s [] := ⟨rfl, by simp, fun _ _ => rfl, rfl, rfl⟩

lemma Took.of_mem (s : Phys) (m : Store Word) : Took s (s.setMem m) [] :=
  ⟨rfl, by simp, fun _ _ => rfl, rfl, rfl⟩

lemma apart_of_nodup {l l1 l2 gs : List Nat} (h : l = fs ++ l1) (h' : l1 = gs ++ l2)
    (hnd : l.Nodup) :
    ∀ f ∈ fs, f ∉ gs := by
  rw [h, h', ← List.append_assoc] at hnd
  intro f hf hg
  exact (List.nodup_append.mp hnd.of_append_left).2.2 f hf f hg rfl

/-- Two parts of a computation that took frames. -/
lemma Took.trans {s1 s2 : Phys} {gs : List Nat} (h : Took s s1 fs) (h' : Took s1 s2 gs)
    (hnd : s.freelist.Nodup) : Took s s2 (fs ++ gs) := by
  have happart := apart_of_nodup h.free h'.free hnd
  refine ⟨by rw [h.free, h'.free, List.append_assoc], fun f hf => ?_, fun f hf => ?_,
    h'.freep.trans h.freep, h'.header.trans h.header⟩
  · rcases List.mem_append.mp hf with hf | hf
    · rw [h'.ref f (happart f hf)]
      exact h.one f hf
    · exact h'.one f hf
  · rw [List.mem_append, not_or] at hf
    rw [h'.ref f hf.2, h.ref f hf.1]

lemma Took.nodup (h : Took s s' fs) (hnd : s.freelist.Nodup) : s'.freelist.Nodup :=
  List.Nodup.of_append_right (h.free ▸ hnd)

lemma Took.subset (h : Took s s' fs) (hf : f ∈ s'.freelist) : f ∈ s.freelist :=
    h.free ▸ List.mem_append_right _ hf

lemma Took.mem (h : Took s s' fs) (hf : f ∈ fs) : f ∈ s.freelist :=
    h.free ▸ List.mem_append_left _ hf

/-- `kalloc` takes the first free frame, or there is none. -/
lemma kalloc_spec (s : Phys) : Ends kalloc s
    (fun r s' => s'.mem = s.mem ∧ (r = none ∧ s.freelist = [] ∧ s' = s ∨
      ∃ p, r = some p ∧ Took s s' [p])) := by
  unfold kalloc
  simp only [ends_bind, ends_get]
  rcases hfree : s.freelist with - | ⟨r, fs⟩
  · exact ⟨rfl, .inl ⟨rfl, rfl, rfl⟩⟩
  refine ⟨rfl, .inr ⟨r, rfl, hfree, ?_, fun f hf => ?_, rfl, rfl⟩⟩
  · simp
  · simp only [List.mem_singleton] at hf
    simp [hf]

lemma kfree_ends (kend : Nat) (hf : kend ≤ f ∧ f < nframes) : Ends (kfree kend f) s
    (fun _ s' => s'.freelist = f :: s.freelist ∧ s'.ref = Function.update s.ref f 0 ∧
      ∀ g, g ≠ f → s'.mem g = s.mem g) := by
  have hrange : ¬ (f < kend ∨ nframes ≤ f) := by omega
  unfold kfree
  rw [if_neg hrange, ends_modify]
  exact ⟨rfl, rfl, fun g hg => Store.write_of_ne _ hg _ _⟩

/-! ## Walking -/

/-- The free list has no frame twice, and all its frames are frames of the machine. -/
structure FreeOk (s : Phys) : Prop where
  nodup : s.freelist.Nodup
  range : ∀ f ∈ s.freelist, f < nframes

lemma Took.freeOk (h : Took s s' fs) (hs : FreeOk s) : FreeOk s' :=
  ⟨h.nodup hs.nodup, fun f hf => hs.range f (h.subset hf)⟩

lemma FreeOk.frame_lt (hs : FreeOk s) (hf : f ∈ s.freelist) : f < 2 ^ 36 := by
  have := hs.range f hf
  unfold nframes at this
  omega

/-- A tree of tables is sound and apart from the free list. -/
structure TreeOk (s : Phys) (h pgt : Nat) : Prop where
  nodup : (tables entries target s.mem h pgt).Nodup
  free : ∀ f ∈ tables entries target s.mem h pgt, f ∉ s.freelist

/-- The tree got the new tables `fs`, and stands for the same finite map. -/
structure Grown (m m' : Store Word) (h pgt : Nat) (fs : List Nat) : Prop where
  tables : (tables entries target m' h pgt).Perm (fs ++ tables entries target m h pgt)
  entry : ∀ k, entry entries target m' h pgt k = entry entries target m h pgt k
  frame : ∀ f, f ∉ fs → f ∉ Radix.tables entries target m h pgt → m' f = m f

lemma Grown.refl (m : Store Word) (h pgt : Nat) : Grown m m h pgt [] :=
  ⟨List.Perm.refl _, fun _ => rfl, fun _ _ _ => rfl⟩

section lift

variable {s s' : Phys} {h pgt d p : Nat} {fs : List Nat} (hn : TreeOk s (h + 1) pgt)
  (hd : d < entries)
include hn hd

lemma TreeOk.below (hp : target (s.mem pgt d) = some p) : TreeOk s h p := by
  refine ⟨?_, fun f hf => hn.free f (mem_tables_of_child hd hp hf)⟩
  have hpart := (nodup_split hn.nodup hd).1
  rwa [part_eq hp] at hpart

/-- Tables added below an entry. -/
lemma Grown.lift (hp : target (s.mem pgt d) = some p) (hg : Grown s.mem s'.mem h p fs)
    (hfs : ∀ f ∈ fs, f ∈ s.freelist) : Grown s.mem s'.mem (h + 1) pgt fs := by
  obtain ⟨-, hself, hdis⟩ := nodup_split hn.nodup hd
  rw [part_eq hp] at hself hdis
  have hpgt : s'.mem pgt = s.mem pgt :=
    hg.frame pgt (fun hmem => hn.free pgt mem_tables_self (hfs pgt hmem)) hself
  have hother : ∀ i < entries, i ≠ d → ∀ x ∈ part entries target s.mem h pgt i,
      s'.mem x = s.mem x := fun i hi hne x hx =>
    hg.frame x (fun hmem => hn.free x (mem_tables_of_part hi hx) (hfs x hmem)) (hdis i hi hne x hx)
  have hp' : target (s'.mem pgt d) = some p := by rw [hpgt, hp]
  refine ⟨tables_lift (fun i _ _ => by rw [hpgt]) hother hd ?_, fun k => ?_, fun f hf htab => ?_⟩
  · rw [part_eq hp, part_eq hp']
    exact hg.tables
  · refine entry_lift (fun i _ _ => by rw [hpgt]) hother (by decide) fun k => ?_
    rw [hp, hp']
    exact hg.entry k
  · exact hg.frame f hf fun hmem => htab (mem_tables_of_child hd hp hmem)

/-- A new table at an empty entry, and what is added below it. -/
lemma Grown.graft {m : Store Word} (hp : target (s.mem pgt d) = none) (hfree : p ∈ s.freelist)
    (hm : m = (s.mem.fill p 0).write pgt d (mkPte p pteTable)) (hlt : p < 2 ^ 36)
    (hg : Grown m s'.mem h p fs) (hfs : ∀ f ∈ fs, f ∈ s.freelist) :
    Grown s.mem s'.mem (h + 1) pgt (p :: fs) := by
  have hne : pgt ≠ p := fun heq => hn.free pgt mem_tables_self (heq ▸ hfree)
  have hempty : ∀ i < entries, target (m p i) = none := fun i _ => by
    rw [hm, Store.write_of_ne _ hne.symm, Store.fill_self, target_zero]
  have hold : ∀ x, x ∉ s.freelist → x ≠ pgt → s'.mem x = s.mem x := fun x hx hxp => by
    have hxne : x ≠ p := fun heq => hx (heq ▸ hfree)
    rw [hg.frame x (fun hmem => hx (hfs x hmem)) (by rw [tables_empty hempty]; simpa using hxne),
      hm, Store.write_of_ne _ hxp, Store.fill_of_ne _ hxne]
  have hpgt : s'.mem pgt = m pgt := hg.frame pgt
    (fun hmem => hn.free pgt mem_tables_self (hfs pgt hmem))
    (by rw [tables_empty hempty]; simpa using hne)
  have hf : ∀ i < entries, i ≠ d → s'.mem pgt i = s.mem pgt i := fun i _ hi => by
    simp [hpgt, hm, Store.write, hi, Store.fill_of_ne _ hne]
  have hp' : target (s'.mem pgt d) = some p := by
    rw [hpgt, hm, Store.write_self, target_table hlt]
  have hother : ∀ i < entries, i ≠ d → ∀ x ∈ part entries target s.mem h pgt i,
      s'.mem x = s.mem x := fun i hi _ x hx =>
    hold x (hn.free x (mem_tables_of_part hi hx)) fun heq =>
      (nodup_split hn.nodup hi).2.1 (heq ▸ hx)
  refine ⟨tables_lift hf hother hd ?_, fun k => ?_, fun f hmem htab => ?_⟩
  · rw [part_none hp, part_eq hp', List.append_nil]
    have := hg.tables
    rw [tables_empty hempty] at this
    exact this.trans List.perm_append_comm
  · refine entry_lift hf hother (by decide) fun k => ?_
    rw [hp, hp', Option.bind_some, Option.bind_none, hg.entry k, entry_empty hempty (by decide)]
  rw [List.mem_cons, not_or] at hmem
  have hfp : f ≠ pgt := fun heq => htab (heq ▸ mem_tables_self)
  rw [hg.frame f hmem.2 (by rw [tables_empty hempty]; simpa using hmem.1), hm,
    Store.write_of_ne _ hfp, Store.fill_of_ne _ hmem.1]

end lift

/-- **`pgdir_walk` with `alloc`**: it takes the frames of the missing tables, as many as there are,
and if there were enough the place of the entry is there. -/
theorem walk_spec (h : Nat) {pgt : Nat} (hs : FreeOk s) (hn : TreeOk s h pgt) (vpn : Nat) :
    Ends (walk true h pgt vpn) s (fun r s' => ∃ fs, Took s s' fs ∧ Grown s.mem s'.mem h pgt fs ∧
      (∀ x, r = some x → slot entries target s'.mem h pgt vpn = some x) ∧
      (r = none → s'.freelist = [])) := by
  induction h generalizing s pgt with
  | zero =>
    exact ⟨[], Took.refl s, Grown.refl _ _ _, fun x hx => hx, by simp⟩
  | succ h ih => ?_
  have hd : digit entries (h + 1) vpn < entries := digit_lt (by decide)
  unfold walk
  simp only [ends_bind, ends_get, if_true]
  cases hp : target (s.mem pgt (digit entries (h + 1) vpn)) with
  | some g =>
    refine (ih hs (hn.below hd hp)).imp ?_
    rintro r s' ⟨fs, htook, hg, hslot, hnone⟩
    refine ⟨fs, htook, hg.lift hn hd hp fun f hf => htook.mem hf, fun x hx => ?_, hnone⟩
    have hpgt : s'.mem pgt = s.mem pgt := hg.frame pgt
      (fun hmem => hn.free pgt mem_tables_self (htook.mem hmem))
      (by rw [← part_eq hp]; exact (nodup_split hn.nodup hd).2.1)
    rw [slot, hpgt, hp]
    exact hslot x hx
  | none =>
    dsimp only
    refine (kalloc_spec s).step ?_
    rintro r s1 ⟨hmem1, ⟨rfl, hnil, rfl⟩ | ⟨p, rfl, htook1⟩⟩
    · exact ⟨[], Took.refl _, Grown.refl _ _ _, by simp, fun _ => hnil⟩
    -- a frame for the table, cleared and linked
    have hfree : p ∈ s.freelist := htook1.mem (by simp)
    have hlt := hs.frame_lt hfree
    have hne : pgt ≠ p := fun heq => hn.free pgt mem_tables_self (heq ▸ hfree)
    simp only [zeroFrame, ends_bind, ends_modify, frameOf_of_target (target_table hlt),
      Phys.setMem_mem, hmem1]
    set m := (s.mem.fill p 0).write pgt (digit entries (h + 1) vpn) (mkPte p pteTable) with hm
    have htook2 := htook1.trans (Took.of_mem s1 m) hs.nodup
    have hempty : ∀ i < entries, target (m p i) = none := fun i _ => by
      rw [hm, Store.write_of_ne _ hne.symm, Store.fill_self, target_zero]
    have hp2 : TreeOk (s1.setMem m) h p := by
      refine ⟨by simp [tables_empty hempty], fun f hf => ?_⟩
      rw [Phys.setMem_mem, tables_empty hempty, List.mem_singleton] at hf
      have hnd := hs.nodup
      rw [htook1.free, List.singleton_append] at hnd
      rw [hf]
      exact (List.nodup_cons.mp hnd).1
    refine (ih (htook2.freeOk hs) hp2).imp ?_
    rintro r s' ⟨fs, htook, hg, hslot, hnone⟩
    have hfs : ∀ f ∈ fs, f ∈ s.freelist := fun f hf => htook2.subset (htook.mem hf)
    refine ⟨p :: fs, htook2.trans htook hs.nodup, hg.graft hn hd hp hfree hm hlt hfs,
      fun x hx => ?_, hnone⟩
    have hpgt : s'.mem pgt = m pgt := hg.frame pgt
      (fun hmem => hn.free pgt mem_tables_self (hfs pgt hmem))
      (by rw [Phys.setMem_mem, tables_empty hempty]; simpa using hne)
    rw [slot, hpgt, hm, Store.write_self, target_table hlt]
    exact hslot x hx

/-! ## Mapping a page -/

/-- The number of pages of an address space. -/
abbrev npages : Nat := entries ^ 4

lemma usertop_eq : usertop = npages * 4096 := by decide

/-- The frames of the tables of an address space. -/
def pageTables (m : Store Word) (root : Nat) : List Nat := tables entries target m 3 root

/-- The entry of a page. -/
def pte (m : Store Word) (root vpn : Nat) : Option Word := entry entries target m 3 root vpn

/-- The address space at `root` got the new tables `fs` and one new entry. -/
structure Mapped (m m' : Store Word) (root vpn : Nat) (e : Word) (fs : List Nat) : Prop where
  tables : (pageTables m' root).Perm (fs ++ pageTables m root)
  fresh : pte m root vpn = none
  maps : ∀ k < npages, pte m' root k = if k = vpn then some e else pte m root k
  frame : ∀ f, f ∉ fs → f ∉ pageTables m root → m' f = m f

/-- A tree with new tables is one still. -/
lemma TreeOk.of_perm {h : Nat} (hn : TreeOk s h root) (hs : FreeOk s) (htook : Took s s' fs)
    (hperm : (tables entries target s'.mem h root).Perm
    (fs ++ tables entries target s.mem h root)) :
    TreeOk s' h root := by
  have hnd := hs.nodup
  rw [htook.free] at hnd
  obtain ⟨hfs, -, hdis⟩ := List.nodup_append.mp hnd
  refine ⟨hperm.nodup_iff.mpr (List.nodup_append.mpr ⟨hfs, hn.nodup, ?_⟩), fun f hf hfree => ?_⟩
  · rintro f hf g hg rfl
    exact hn.free f hg (htook.mem hf)
  rcases List.mem_append.mp (hperm.mem_iff.mp hf) with hf | hf
  · exact hdis f hf f hfree rfl
  · exact hn.free f hf (htook.subset hfree)

/-- **`uvm_map` of one page**: the page was not mapped and is now mapped to the frame, or it was
mapped, or there were not enough frames for the tables. -/
theorem mapPage_spec (hs : FreeOk s) (hn : TreeOk s 3 root)
    (hvpn : vpn < npages) (hf : f < 2 ^ 36) : Ends (mapPage root vpn f) s
      (fun _ s' => ∃ fs, Took s s' fs ∧ Mapped s.mem s'.mem root vpn (mkPte f pteUdata) fs)
      fun err s' => err = .errno einval ∧ ∃ fs, Took s s' fs ∧ Grown s.mem s'.mem 3 root fs ∧
        ((pte s.mem root vpn).isSome ∨ s'.freelist = []) := by
  unfold mapPage pgdirWalk
  refine (walk_spec 3 hs hn vpn).bind ?_
  rintro r s1 ⟨fs, htook, hg, hslot, hnone⟩
  rcases r with - | x
  · exact ⟨rfl, fs, htook, hg, .inr (hnone rfl)⟩
  have hx := hslot x rfl
  have htree := hn.of_perm hs htook hg.tables
  have hentry : pte s.mem root vpn =
      if (target (s1.mem x.1 x.2)).isSome then some (s1.mem x.1 x.2) else none := by
    rw [pte, ← hg.entry vpn, entry, hx, Option.bind_some]
  simp only [ends_bind, ends_get]
  split
  · next hvalid =>
    refine ⟨rfl, fs, htook, hg, .inl ?_⟩
    rw [hentry, target, if_pos hvalid]
    rfl
  · next hvalid =>
    have htook' := htook.trans (Took.of_mem s1 (s1.mem.write x.1 x.2 (mkPte f pteUdata)))
      hs.nodup
    rw [List.append_nil] at htook'
    refine ⟨fs, htook', ?_, ?_, fun k hk => ?_, fun g hgs hgt => ?_⟩
    · rw [Phys.setMem_mem, pageTables, (tables_write_leaf (by decide) htree.nodup hx _).1]
      exact hg.tables
    · rw [hentry, target, if_neg hvalid]
      rfl
    · rw [Phys.setMem_mem, pte, entry_write_leaf (by decide) htree.nodup hx hvpn _ hk,
        target_udata hf, hg.entry k]
      rfl
    have hmem := slot_mem (by decide) hx
    have hne : g ≠ x.1 := by
      rintro rfl
      rcases List.mem_append.mp (hg.tables.mem_iff.mp hmem) with hmem | hmem
      · exact hgs hmem
      · exact hgt hmem
    rw [Phys.setMem_mem, Store.write_of_ne _ hne]
    exact hg.frame g hgs hgt

/-- `uvm_map` of one page is one round of its loop. -/
lemma uvmMap_page (hvpn : vpn < npages) (hf : f < 2 ^ 36) :
    uvmMap root (vpn * 4096) 4096 f = mapPage root vpn f := by
  have hv : npages = 2 ^ 36 := by decide
  have hcount : ((vpn * 4096 + 4096) % 2 ^ 64 + 4095) / 4096 - vpn = 1 := by omega
  have hdiv : vpn * 4096 / 4096 = vpn := by omega
  have hpa : ¬ usertop ≤ f * 4096 := by
    unfold usertop
    omega
  unfold uvmMap
  simp only [hdiv, hcount, if_neg hpa]
  exact bind_pure_unit

end RpiOs.Vm
