import RpiOs.Lib.Memory
import RpiOs.Vm.Space

/-!
# Memory for a program

`uvm_alloc`, `uvm_dealloc` and `copyout` of `kern/vm.c`, and what the kernel stores at user
addresses. A frame that these functions hand out keeps what it held before, but for the bytes that
they write.

`Built` is what holds of an address space that is built from a free list `F`: it is made of frames
of `F`, and no other frame has been written. Each function keeps it, and the pages mapped before
stay mapped.

* `vmFree_rest`: freeing an address space writes to its own frames only.
-/

namespace RpiOs.Vm

open Lib Lib.Radix

/-! ## Model -/

/-- The words of a page with the bytes from `lo` up to `hi` replaced. -/
def patch (words : Nat → Word) (lo hi : Nat) (src : Nat → BitVec 8) : Nat → Word := fun i =>
  dword fun k => if lo ≤ 8 * i + k ∧ 8 * i + k < hi then src (8 * i + k) else dwordByte (words i) k

/-- The pages that `len` bytes from `va` on lie in. -/
def pageCount (va len : Nat) : Nat := if len = 0 then 0 else (va + len + 4095) / 4096 - va / 4096

/-- The part of `len` bytes for `va` that goes to the page `vpn`, in the frame `f`. -/
def storePart (va len : Nat) (src : Nat → BitVec 8) (vpn f : Nat) : V Unit :=
  modify fun s => s.setMem fun g =>
    if g = f then patch (s.mem f) (va - vpn * 4096) (min 4096 (va + len - vpn * 4096)) fun j =>
      src (vpn * 4096 + j - va)
    else s.mem g

section model

variable (kend : Nat)

/-- The body of the loop of `uvm_dealloc`. The address that it gives to `kfree` is not one of the
kernel, so `kfree` panics. -/
def deallocPage (pgdir vpn : Nat) : V Unit := do
  match ← pgdirWalk pgdir vpn false with
  | none => return ()
  | some (pgt, idx) =>
    let e := (← get).mem pgt idx
    if e &&& pteValid = 0 then return ()
    else if frameOf e = 0 then throw .panic
    else do
      decKmemRef (frameOf e)
      if (← getKmemRef (frameOf e)) = 0 then throw .panic
      else modify fun s => s.setMem (s.mem.write pgt idx 0)

/-- `uvm_dealloc`; its result is not used here. -/
def uvmDealloc (pgdir base oldsz newsz : Nat) : V Unit :=
  if oldsz ≤ newsz ∨ newsz < base then return ()
  else (List.range ((oldsz + 4095) / 4096 - (newsz + 4095) / 4096)).forM fun i =>
    deallocPage pgdir ((newsz + 4095) / 4096 + i)

/-- The body of the loop of `uvm_alloc`. -/
def allocPage (pgdir vpn : Nat) : V Unit := do
  match ← kalloc with
  | none => throw (.errno enomem)
  | some p =>
    tryCatch (uvmMap pgdir (vpn * 4096) 4096 p) fun
      | .errno e => do
        kfree kend p
        throw (.errno e)
      | err => throw err

/-- The `int` that `uvm_alloc` returns, as a `size_t`. -/
def asInt (n : Nat) : Nat := ((BitVec.ofNat 32 n).signExtend 64).toNat

/-- `uvm_alloc`; the pages of a failed call are given back. -/
def uvmAlloc (pgdir base stksz oldsz newsz : Nat) : V Nat :=
  if stksz % 4096 ≠ 0 then throw .panic
  else if ¬ (stksz < usertop ∧ base ≤ oldsz ∧ oldsz ≤ newsz ∧ newsz < usertop - stksz) then return 0
  else tryCatch (do
    (List.range ((newsz + 4095) / 4096 - (oldsz + 4095) / 4096)).forM fun i =>
      allocPage kend pgdir ((oldsz + 4095) / 4096 + i)
    return asInt newsz) fun
    | .errno _ => do
      uvmDealloc pgdir base newsz oldsz
      return 0
    | err => throw err

/-- `copyout`, the frame of the page: a missing one is allocated. -/
def userFrame (pgdir vpn : Nat) : V (Option Nat) := do
  match ← pgdirWalk pgdir vpn true with
  | none => return none
  | some (pgt, idx) =>
    let e := (← get).mem pgt idx
    if e &&& pteValid ≠ 0 then return some (frameOf e)
    else match ← kalloc with
      | none => return none
      | some page => do
        modify fun s => s.setMem (s.mem.write pgt idx (mkPte page pteUdata))
        return some page

/-- The loop of `copyout`, from the page `vpn` on. -/
def copyoutFrom (pgdir va len : Nat) (src : Nat → BitVec 8) : Nat → Nat → V Bool
  | _, 0 => return true
  | vpn, n + 1 => do
    match ← userFrame pgdir vpn with
    | none => return false
    | some page => do
      storePart va len src vpn page
      copyoutFrom pgdir va len src (vpn + 1) n

/-- `copyout`; `p` is none for zeros. -/
def copyout (pgdir va : Nat) (p : Option (Nat → BitVec 8)) (len : Nat) : V Bool :=
  if usertop < (va + len) % 2 ^ 64 then return false
  else copyoutFrom pgdir va len (p.getD fun _ => 0) (va / 4096) (pageCount va len)

/-- The kernel stores to a user address, in the page `vpn`: one that is not mapped faults. -/
def storePage (pgdir va len : Nat) (src : Nat → BitVec 8) (vpn : Nat) : V Unit := do
  match ← pgdirWalk pgdir vpn false with
  | none => throw .panic
  | some (pgt, idx) =>
    let e := (← get).mem pgt idx
    if e &&& pteValid = 0 then throw .panic
    else storePart va len src vpn (frameOf e)

/-- `memset` and `memmove` to user addresses, with the page table `pgdir` in use. -/
def storeUser (pgdir va len : Nat) (src : Nat → BitVec 8) : V Unit :=
  (List.range (pageCount va len)).forM fun i => storePage pgdir va len src (va / 4096 + i)

end model

/-! ## What is built from the free frames -/

section built

variable {kend root vpn np f : Nat} {s s' : Phys} {F fs : List Nat} {m₀ : Store Word}
  (regions : List Region)

lemma SpaceOk.setMem (h : SpaceOk kend s root) {m : Store Word}
    (htab : ∀ f ∈ pageTables s.mem root, m f = s.mem f) :
    SpaceOk kend (s.setMem m) root ∧ pageTables m root = pageTables s.mem root ∧
      ∀ k, pte m root k = pte s.mem root k := by
  have hkeep : SpaceOk kend (s.setMem m) root ∧ _ :=
    h.keep htab ⟨h.free.nodup, h.free.range⟩ h.kend_le h.tree.free
    fun k hk e he => ⟨(h.entry k hk e he).not_free, le_refl _⟩
  exact ⟨hkeep.1, tables_congr htab, fun k => entry_congr (by decide) htab⟩

/-- The address space consists of frames of `F`, as does the free list; the others are as in
`m₀`. -/
structure Built (kend : Nat) (F : List Nat) (m₀ : Store Word) (root : Nat) (s : Phys) : Prop where
  space : SpaceOk kend s root
  free : ∀ f ∈ s.freelist, f ∈ F
  tables : ∀ f ∈ pageTables s.mem root, f ∈ F
  leaf : ∀ k < npages, ∀ e, pte s.mem root k = some e → frameOf e ∈ F
  rest : ∀ f, f ∉ F → s.mem f = m₀ f

/-- The pages mapped before are mapped. -/
def Keeps (root : Nat) (s s' : Phys) : Prop :=
  ∀ k < npages, (pte s.mem root k).isSome → (pte s'.mem root k).isSome

lemma Keeps.refl (root : Nat) (s : Phys) : Keeps root s s := fun _ _ h => h

lemma Keeps.trans {s1 s2 : Phys} (h : Keeps root s s1) (h' : Keeps root s1 s2) : Keeps root s s2 :=
  fun k hk hs => h' k hk (h k hk hs)

lemma SameMap.keeps (h : SameMap s s' root) : Keeps root s s' := fun k hk hs => by
  rw [h k hk]
  exact hs

section

variable (h : Built kend F m₀ root s)
include h

/-- Writing a page of the new address space. -/
lemma Built.setMem {m : Store Word} (hf : f ∈ F)
    (hft : f ∉ pageTables s.mem root) (hm : ∀ g, g ≠ f → m g = s.mem g) :
    Built kend F m₀ root (s.setMem m) ∧ SameMap s (s.setMem m) root := by
  have htab : ∀ g ∈ pageTables s.mem root, m g = s.mem g := fun g hg =>
    hm g fun heq => hft (heq ▸ hg)
  obtain ⟨hspace, hpt, hpte⟩ := h.space.setMem htab
  refine ⟨⟨hspace, h.free, fun g hg => h.tables g (hpt ▸ hg), fun k hk e he => ?_, fun g hg => ?_⟩,
    fun k _ => hpte k⟩
  · rw [Phys.setMem_mem, hpte] at he
    exact h.leaf k hk e he
  · rw [Phys.setMem_mem, hm g fun heq => hg (heq ▸ hf)]
    exact h.rest g hg

lemma Built.grown (htook : Took s s' fs)
    (hg : Grown s.mem s'.mem 3 root fs) : Built kend F m₀ root s' ∧ SameMap s s' root := by
  have hpte : ∀ k, pte s'.mem root k = pte s.mem root k := hg.entry
  have hfs : ∀ f ∈ fs, f ∈ F := fun f hf => h.free f (htook.mem hf)
  refine ⟨⟨h.space.grown htook hg, fun f hf => h.free f (htook.subset hf), fun f hf => ?_,
    fun k hk e he => h.leaf k hk e (hpte k ▸ he), fun f hf => ?_⟩, fun k _ => hpte k⟩
  · exact (List.mem_append.mp (hg.tables.mem_iff.mp hf)).elim (hfs f) (h.tables f)
  · rw [hg.frame f (fun hin => hf (hfs f hin)) fun hin => hf (h.tables f hin)]
    exact h.rest f hf

/-- A frame from the free list. -/
lemma Built.take (htook : Took s s' [np]) (hmem : ∀ f, f ≠ np → s'.mem f = s.mem f) :
    Built kend F m₀ root s' ∧ Pending kend s' root np ∧ np ∈ F ∧ SameMap s s' root := by
  obtain ⟨hpend, hsame⟩ := h.space.pending htook hmem
  have hfree : np ∈ s.freelist := htook.mem (by simp)
  have htab : ∀ f ∈ pageTables s.mem root, s'.mem f = s.mem f := fun f hf =>
    hmem f fun heq => h.space.tree.free f hf (heq ▸ hfree)
  have hpt : pageTables s'.mem root = pageTables s.mem root := tables_congr htab
  refine ⟨⟨hpend.space, fun f hf => h.free f (htook.subset hf), fun f hf => h.tables f (hpt ▸ hf),
    fun k hk e he => h.leaf k hk e (hsame k hk ▸ he), fun f hf => ?_⟩, hpend,
      h.free np hfree, hsame⟩
  rw [hmem f fun heq => hf (heq ▸ h.free np hfree)]
  exact h.rest f hf

lemma Built.mapped (hpend : Pending kend s root np) (hnp : np ∈ F)
    (hvpn : vpn < npages) (htook : Took s s' fs)
    (hm : Mapped s.mem s'.mem root vpn (mkPte np pteUdata) fs) :
    Built kend F m₀ root s' ∧ Keeps root s s' ∧ (pte s'.mem root vpn).isSome := by
  have hfs : ∀ f ∈ fs, f ∈ F := fun f hf => h.free f (htook.mem hf)
  refine ⟨⟨hpend.mapped hvpn htook hm, fun f hf => h.free f (htook.subset hf), fun f hf => ?_,
    fun k hk e he => ?_, fun f hf => ?_⟩, fun k hk hs => ?_, by simp [hm.maps vpn hvpn]⟩
  · exact (List.mem_append.mp (hm.tables.mem_iff.mp hf)).elim (hfs f) (h.tables f)
  · rw [hm.maps k hk] at he
    split at he
    · cases he
      rw [frameOf_of_target (target_udata hpend.lt)]
      exact hnp
    · exact h.leaf k hk e he
  · rw [hm.frame f (fun hin => hf (hfs f hin)) fun hin => hf (h.tables f hin)]
    exact h.rest f hf
  · rw [hm.maps k hk]
    split
    · rfl
    · exact hs

end

/-! ## The functions -/

/-- A walk looks at the low bits of the page number only. -/
lemma walk_mod (alloc : Bool) {h : Nat} (hh : h ≤ 3) (pgt vpn : Nat) :
    walk alloc h pgt (vpn % npages) = walk alloc h pgt vpn := by
  have hdigit : ∀ i ≤ 3, digit entries i (vpn % npages) = digit entries i vpn := by
    have hn : npages = 68719476736 := by decide
    intro i hi
    unfold digit entries
    obtain rfl | rfl | rfl | rfl : i = 0 ∨ i = 1 ∨ i = 2 ∨ i = 3 := by omega
    all_goals
      simp only [hn, Nat.reducePow]
      omega
  induction h generalizing pgt with
  | zero =>
    unfold walk
    rw [hdigit 0 hh]
  | succ h ih =>
    unfold walk
    simp only [hdigit (h + 1) hh, ih (by omega)]

lemma Built.walk (h : Built kend F m₀ root s) (vpn : Nat) : Ends (pgdirWalk root vpn true) s
    (fun r s' => Built kend F m₀ root s' ∧ SameMap s s' root ∧
      ∀ x, r = some x → slot entries target s'.mem 3 root (vpn % npages) = some x) := by
  unfold pgdirWalk
  rw [← walk_mod true (le_refl 3)]
  refine (walk_spec 3 h.space.free h.space.tree (vpn % npages)).imp ?_
  rintro r s' ⟨fs, htook, hg, hslot, -⟩
  obtain ⟨hb, hsame⟩ := h.grown htook hg
  exact ⟨hb, hsame, hslot⟩

/-- **`vm_init`**: an empty address space. -/
theorem vmInit_built (hs : FreeOk s) (hk : ∀ f ∈ s.freelist, kend ≤ f) : Ends vmInit s
    (fun root s' => Built kend s.freelist s.mem root s') ⊤ := by
  refine (vmInit_spec [] s).imp fun root s' hc => ?_
  have hsub : ∀ f ∈ s'.freelist, f ∈ s.freelist := fun f hf => hc.free ▸ List.mem_append_right _ hf
  have hnone : ∀ k < npages, ∀ e, pte s'.mem root k ≠ some e := fun k hk e he => by
    rw [hc.maps k hk] at he
    cases he
  exact ⟨⟨hc.freeOk hs, fun f hf => hk f (hsub f hf), hc.treeOk hs,
    fun k hk e he => absurd he (hnone k hk e)⟩, hsub,
    fun f hf => hc.subset (hc.tables_subset hf), fun k hk e he => absurd he (hnone k hk e),
    fun f hf => hc.mem f fun hin => hf (hc.subset hin)⟩

section

variable (h : Built kend F m₀ root s)
include h

lemma Built.uvmMap (hpend : Pending kend s root np) (hnp : np ∈ F)
    (hvpn : vpn < npages) : Ends (uvmMap root (vpn * 4096) 4096 np) s
      (fun _ s' => Built kend F m₀ root s' ∧ Keeps root s s') ⊤ := by
  rw [uvmMap_page hvpn hpend.lt]
  refine (mapPage_spec h.space.free h.space.tree hvpn hpend.lt).mono ?_ fun _ _ _ => trivial
  rintro - s' ⟨fs, htook, hm⟩
  exact (h.mapped hpend hnp hvpn htook hm).imp_right And.left

/-- One page of `uvm_alloc`. -/
lemma allocPage_built (hvpn : vpn < npages) :
    Ends (allocPage kend root vpn) s (fun _ s' => Built kend F m₀ root s' ∧ Keeps root s s')
      ⊤ := by
  unfold allocPage
  refine (kalloc_spec s).bind ?_
  rintro r s1 ⟨hmem, ⟨rfl, _, rfl⟩ | ⟨np, rfl, htook⟩⟩
  · trivial
  obtain ⟨hb, hpend, hnp, hsame⟩ := h.take htook fun f _ => by rw [hmem]
  simp only [ends_tryCatch]
  refine (hb.uvmMap hpend hnp hvpn).mono ?_ fun err s2 _ => ?_
  · rintro - s2 ⟨hb2, hkeep⟩
    exact ⟨hb2, hsame.keeps.trans hkeep⟩
  cases err with
  | errno e =>
    exact (ends_trivial _).step (fun _ _ _ => trivial)
  | panic | null | hang => trivial

/-- **`uvm_alloc`**, if it does not fail. -/
theorem uvmAlloc_built (base stksz oldsz newsz : Nat) :
    Ends (uvmAlloc kend root base stksz oldsz newsz) s
      (fun r s' => r ≠ 0 → Built kend F m₀ root s' ∧ Keeps root s s') ⊤ := by
  unfold uvmAlloc
  split
  · trivial
  split
  · exact fun hr => absurd rfl hr
  next hargs =>
  have htop := usertop_eq
  rw [ends_tryCatch, ends_bind]
  let I : List Nat → Phys → Prop := fun is t =>
    (∀ i ∈ is, (oldsz + 4095) / 4096 + i < npages) ∧ Built kend F m₀ root t ∧ Keeps root s t
  refine (ends_forM (I := I) (R := ⊤) ?_ ⟨fun i hi => ?_, h, Keeps.refl root s⟩).mono ?_ ?_
  · rintro i is t ⟨his, hb, hkeep⟩
    refine (allocPage_built hb (his i (by simp))).mono ?_ fun _ _ _ => trivial
    rintro - t' ⟨hb', hkeep'⟩
    exact ⟨fun j hj => his j (by simp [hj]), hb', hkeep.trans hkeep'⟩
  · rw [List.mem_range] at hi
    omega
  · rintro - t ⟨-, hb, hkeep⟩ -
    exact ⟨hb, hkeep⟩
  intro err t _
  cases err with
  | errno e =>
    exact (ends_trivial _).step (fun _ _ _ hr => absurd rfl hr)
  | panic | null | hang => trivial

lemma Built.page {e : Word} (hvpn : vpn < npages)
    (he : pte s.mem root vpn = some e) : frameOf e ∈ F ∧ frameOf e ∉ pageTables s.mem root :=
  ⟨h.leaf vpn hvpn e he, (h.space.entry vpn hvpn e he).not_table⟩

lemma storePart_built (hf : f ∈ F) (hft : f ∉ pageTables s.mem root)
    (va len : Nat) (src : Nat → BitVec 8) (vpn : Nat) : Ends (storePart va len src vpn f) s
      (fun _ s' => Built kend F m₀ root s' ∧ SameMap s s' root) :=
  h.setMem hf hft fun _ hg => if_neg hg

/-- The frame of a page: mapped already, or a new one. -/
lemma userFrame_built (vpn : Nat) : Ends (userFrame root vpn) s
    (fun r s' => ∀ page, r = some page → Built kend F m₀ root s' ∧ Keeps root s s' ∧ page ∈ F ∧
      page ∉ pageTables s'.mem root ∧ (pte s'.mem root (vpn % npages)).isSome) := by
  have hvpn : vpn % npages < npages := Nat.mod_lt _ (by decide)
  unfold userFrame
  refine (h.walk vpn).step ?_
  rintro r s1 ⟨hb, hsame, hslot⟩
  rcases r with - | x
  · exact fun page hp => nomatch hp
  have hx := hslot x rfl
  have hentry := pte_of_slot hx
  simp only [ends_bind, ends_get]
  split
  · next hvalid =>
    rintro page hp
    obtain rfl := Option.some.inj hp
    have he : pte s1.mem root (vpn % npages) = some (s1.mem x.1 x.2) := by
      rw [hentry, if_pos hvalid]
    obtain ⟨hF, htab⟩ := hb.page hvpn he
    exact ⟨hb, hsame.keeps, hF, htab, by rw [he]; rfl⟩
  · next hvalid =>
    have hnone : pte s1.mem root (vpn % npages) = none := by
      rw [hentry, if_neg hvalid]
    refine (kalloc_spec s1).step ?_
    rintro r s2 ⟨hmem, ⟨rfl, _, rfl⟩ | ⟨np, rfl, htook⟩⟩
    · exact fun page hp => nomatch hp
    obtain ⟨hb2, hpend, hnp, hsame2⟩ := hb.take htook fun f _ => by rw [hmem]
    simp only [ends_bind, ends_modify, ends_pure]
    rintro page hp
    obtain rfl := Option.some.inj hp
    -- the way to the entry was found before the frame was taken
    have hx2 : slot entries target s2.mem 3 root (vpn % npages) = some x := by rw [hmem, hx]
    have hlt : np < 2 ^ 36 := hb.space.free.frame_lt (htook.mem (by simp))
    have hwrite : Mapped s2.mem (s2.mem.write x.1 x.2 (mkPte np pteUdata)) root (vpn % npages)
        (mkPte np pteUdata) [] := by
      refine ⟨?_, by rw [hmem, hnone], fun k hk => ?_, fun g _ hg => ?_⟩
      · rw [pageTables, (tables_write_leaf (by decide) hb2.space.tree.nodup hx2 _).1]
        exact List.Perm.refl _
      · rw [pte, entry_write_leaf (by decide) hb2.space.tree.nodup hx2 hvpn _ hk, target_udata hlt]
        rfl
      have hne : g ≠ x.1 := by
        rintro rfl
        exact hg (slot_mem (by decide) hx2)
      exact Store.write_of_ne _ hne _ _
    obtain ⟨hb3, hkeep, hsome⟩ := hb2.mapped hpend hnp hvpn
      (Took.of_mem s2 (s2.mem.write x.1 x.2 (mkPte np pteUdata))) hwrite
    refine ⟨hb3, (hsame.keeps.trans hsame2.keeps).trans hkeep, hnp, ?_, hsome⟩
    exact fun hin => hpend.not_table (hwrite.tables.mem_iff.mp hin)

end

/-- The loop of `copyout` over the pages of a range. -/
lemma copyoutFrom_built (va len : Nat) (src : Nat → BitVec 8) (n : Nat)
    (h : Built kend F m₀ root s) : Ends (copyoutFrom root va len src vpn n) s
      (fun r s' => r = true → Built kend F m₀ root s' ∧ Keeps root s s') := by
  induction n generalizing s vpn with
  | zero => exact fun _ => ⟨h, Keeps.refl root s⟩
  | succ n ih => ?_
  unfold copyoutFrom
  refine (userFrame_built h vpn).step ?_
  intro r s1 hr
  rcases r with - | page
  · exact nofun
  obtain ⟨hb, hkeep, hF, htab, -⟩ := hr page rfl
  refine (storePart_built hb hF htab va len src vpn).step ?_
  rintro - s2 ⟨hb2, hsame⟩
  refine (ih hb2).imp (fun r s3 h3 hr => ?_)
  obtain ⟨hb3, hkeep3⟩ := h3 hr
  exact ⟨hb3, (hkeep.trans hsame.keeps).trans hkeep3⟩

/-- **`copyout`**, if it does not fail. -/
theorem copyout_built (h : Built kend F m₀ root s) (va : Nat) (p : Option (Nat → BitVec 8))
    (len : Nat) : Ends (copyout root va p len) s
      (fun r s' => r = true → Built kend F m₀ root s' ∧ Keeps root s s') := by
  unfold copyout
  split
  · exact nofun
  · exact copyoutFrom_built va len _ _ h

/-- A store by the kernel through the new page table. -/
lemma storePage_built (h : Built kend F m₀ root s) (va len : Nat) (src : Nat → BitVec 8)
    (vpn : Nat) : Ends (storePage root va len src vpn) s
      (fun _ s' => Built kend F m₀ root s' ∧ SameMap s s' root) ⊤ := by
  have hvpn : vpn % npages < npages := Nat.mod_lt _ (by decide)
  unfold storePage pgdirWalk
  rw [ends_bind, ← walk_mod false (le_refl 3), ends_walk_false]
  rcases hx : slot entries target s.mem 3 root (vpn % npages) with - | x
  · trivial
  simp only [ends_bind, ends_get]
  split
  · trivial
  · next hvalid =>
    have he : pte s.mem root (vpn % npages) = some (s.mem x.1 x.2) := by
      rw [pte_of_slot hx, if_pos hvalid]
    obtain ⟨hF, htab⟩ := h.page hvpn he
    exact (storePart_built h hF htab va len src vpn).mono (fun _ _ hs => hs) fun _ _ _ => trivial

/-- **Stores to user addresses**, if they do not fault. -/
theorem storeUser_built (h : Built kend F m₀ root s) (va len : Nat) (src : Nat → BitVec 8) :
    Ends (storeUser root va len src) s
      (fun _ s' => Built kend F m₀ root s' ∧ SameMap s s' root) ⊤ := by
  let I : List Nat → Phys → Prop := fun _ t => Built kend F m₀ root t ∧ SameMap s t root
  refine ends_forM (I := I) ?_ ⟨h, fun _ _ => rfl⟩
  rintro i is t ⟨hb, hsame⟩
  refine (storePage_built hb va len src _).mono ?_ fun _ _ _ => trivial
  rintro - t' ⟨hb', hsame'⟩
  exact ⟨hb', fun k hk => (hsame' k hk).trans (hsame k hk)⟩

/-! ## Freeing -/

lemma kfree_rest (f : Nat) : Ends (kfree kend f) s (fun _ s' => ∀ g, g ≠ f → s'.mem g = s.mem g)
    ⊤ := by
  unfold kfree
  split
  · trivial
  · exact fun g hg => Store.write_of_ne _ hg _ _

/-- Freeing a page touches its own frame only. -/
lemma freePage_rest (k : Nat) (e : Word) : Ends (freePage kend regions k e) s
    (fun _ s' => ∀ g, g ≠ frameOf e → s'.mem g = s.mem g) ⊤ := by
  have hfree : ∀ t : Phys, t.mem = s.mem → Ends (freeIfUnused kend (frameOf e)) t
      (fun _ s' => ∀ g, g ≠ frameOf e → s'.mem g = s.mem g) ⊤ := fun t ht => by
    simp only [freeIfUnused, getKmemRef, ends_bind, ends_get, ends_pure]
    split
    · rw [← ht]
      exact kfree_rest (frameOf e)
    · exact fun g _ => by rw [ht]
  unfold freePage dropShared
  rw [ends_bind]
  split
  · exact hfree _ rfl
  · exact hfree s rfl

/-- **`vm_free`**: only tables and pages of the address space are written. -/
theorem vmFree_rest (hn : (pageTables s.mem root).Nodup)
    (htab : ∀ x ∈ pages s.mem root, frameOf x.2 ∉ pageTables s.mem root) :
    Ends (vmFree kend regions root) s (fun _ s' => ∀ f, f ∉ pageTables s.mem root →
      (∀ x ∈ pages s.mem root, frameOf x.2 ≠ f) → s'.mem f = s.mem f) ⊤ := by
  unfold vmFree
  -- the frames written so far are `done`; none of them is a table still to be read
  let I : List (Nat × Word ⊕ Nat) → Phys → Prop := fun vs t => ∃ done : List Nat,
    (done ++ vs.filterMap Sum.getRight?).Perm (pageTables s.mem root) ∧
    (∀ x ∈ vs.filterMap Sum.getLeft?, x ∈ pages s.mem root) ∧
    ∀ f, f ∉ done → (∀ x ∈ pages s.mem root, frameOf x.2 ≠ f) → t.mem f = s.mem f
  refine Ends.mono (ends_traverse s.mem I ?_ ?_ ?_ 3 root 0 [] ?_) ?_ fun _ _ he => he
  · rintro f vs t ⟨done, hperm, -, hmem⟩ hf
    have hright : f ∈ vs.filterMap Sum.getRight? := List.mem_filterMap.mpr ⟨.inr f, hf, rfl⟩
    have hft : f ∈ pageTables s.mem root := hperm.mem_iff.mp (List.mem_append_right _ hright)
    refine hmem f (fun hd => ?_) fun x hx heq => htab x hx (heq ▸ hft)
    exact (List.nodup_append.mp (hperm.nodup_iff.mpr hn)).2.2 f hd f hright rfl
  · rintro k e vs t ⟨done, hperm, hleft, hmem⟩
    refine (freePage_rest regions k e).imp ?_
    intro _ t' ht'
    refine ⟨done, hperm, fun x hx => hleft x (List.mem_cons_of_mem _ hx), fun f hd hf => ?_⟩
    rw [ht' f (hf (k, e) (hleft (k, e) List.mem_cons_self)).symm]
    exact hmem f hd hf
  · rintro f vs t ⟨done, hperm, hleft, hmem⟩
    refine (kfree_rest f).imp ?_
    intro _ t' ht'
    refine ⟨done ++ [f], by simpa using hperm, hleft, fun g hd hg => ?_⟩
    simp only [List.mem_append, List.mem_singleton, not_or] at hd
    rw [ht' g hd.2]
    exact hmem g hd.1 hg
  · refine ⟨[], ?_, fun x hx => ?_, fun _ _ _ => rfl⟩
    · rw [List.append_nil, List.nil_append]
      exact visits_tables
    · rw [List.append_nil, visits_leaves] at hx
      exact hx
  · rintro - t ⟨done, hperm, -, hmem⟩ f hf hx
    refine hmem f (fun hd => hf (hperm.mem_iff.mp (List.mem_append_left _ hd))) hx

end built

end RpiOs.Vm
