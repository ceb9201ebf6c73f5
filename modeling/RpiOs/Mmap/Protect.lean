import RpiOs.Mmap.Calls
import RpiOs.Vm.Fork

/-!
# Page protections

What `mmap`, the fault handler and `fork` leave in the page-table entries, against the protection
that the last successful `mmap` of the page asked for. `get_perm` computes the bits for a
protection, but only `copy_mmap_pages` uses them: `uvm_map` writes `PTE_UDATA`, for a mapping as for
the child of a `fork`, and the change of a range to `PROT_NONE` only clears `PTE_USER`.

* `protection_enforced_iff`: over every run of the three, every entry allows at most what was asked
  for exactly if every step meets a condition (`Fits`).
-/

namespace RpiOs.Mmap

open Lib Lib.Radix Vm

/-! ## The fault handler -/

def pteRo : Word := 0x80#64

def pteSh : Word := 0x300#64

def pteAf : Word := 0x400#64

def ptePxn : Word := 0x20000000000000#64

def pteUxn : Word := 0x40000000000000#64

def mtNormal : Word := 0x1#64

def mtNormalNc : Word := 0x2#64

def protRead : BitVec 32 := 0x1#32

def protExec : BitVec 32 := 0x4#32

/-- `get_perm`. -/
def getPerm (prot flags : BitVec 32) : Word :=
  let memory := if has flags mapAnonymous then mtNormalNc else mtNormal
  let perm := pteUser ||| ptePxn ||| ptePage ||| memory <<< 2 ||| pteAf ||| pteSh
  let perm := if has prot protRead then perm ||| pteRo else perm
  let perm := if has prot protWrite then perm &&& ~~~ pteRo else perm
  let perm := if !has prot protExec then perm ||| pteUxn else perm
  if has prot protNone || !has prot (protRead ||| protWrite) then perm &&& ~~~ pteUser else perm

section handler

variable (kend : Nat)

/-- The loop of `copy_mmap_pages`, from page `i` on. -/
def copyMmapPages (pgdir addr : Nat) (perm : Word) : Nat → Nat → V Unit
  | _, 0 => return ()
  | i, n + 1 => do
    match ← pgdirWalk pgdir (add64 addr (i * 4096) / 4096) false with
    | none => throw (.errno einval)
    | some (pgt, idx) =>
      let pa := frameOf ((← get).mem pgt idx)
      match ← kalloc with
      | none => throw (.errno enomem)
      | some page =>
        copyFrame page pa
        modify fun s => s.setMem (s.mem.write pgt idx (mkPte page perm))
        copyMmapPages pgdir addr perm (i + 1) n

/-- The region that the fault handler copies. -/
def writtenRegion (regions : List Region) (far : Nat) : Option Region :=
  regions.find? fun r => decide (r.addr ≤ far ∧ far < add64 r.addr r.length ∧
    has r.flags mapPrivate ∧ has r.prot protWrite)

/-- An error number becomes -1. -/
def orMinusOne (x : V Unit) : M Int :=
  tryCatch (do
    onFrames x
    return 0) fun
    | .errno _ => return -1
    | err => throw err

/-- `pf_handler`; `dfs` is the fault status. -/
def pfHandler (env : Env) (dfs far : Nat) : M Int := do
  let far := roundDown far
  let s ← get
  if dfs ≤ 7 then return -1
  else if dfs ≤ 11 then
    match s.mm.regions.find? fun r => r.addr = far with
    | none => return -1
    | some r => orMinusOne (mmapLoadPages kend env s.mm.pgdir r.addr r.length r.flags r.f r.offset)
  else
    match writtenRegion s.mm.regions far with
    | none => return -1
    | some r => orMinusOne (copyMmapPages s.mm.pgdir r.addr (getPerm r.prot r.flags &&& ~~~ pteRo) 0
        ((add64 r.addr r.length - r.addr + 4095) / 4096))

end handler

/-! ## What an entry allows -/

/-- The user can access the page. -/
def UserAccessible (e : Word) : Prop := e &&& pteUser ≠ 0

/-- The user can write to the page. -/
def UserWritable (e : Word) : Prop := UserAccessible e ∧ e &&& pteRo = 0

/-- The user can execute the page: the machine looks at `PTE_UXN` only. -/
def UserExecutable (e : Word) : Prop := e &&& pteUxn = 0

instance (e : Word) : Decidable (UserAccessible e) := inferInstanceAs (Decidable (_ ≠ _))
instance (e : Word) : Decidable (UserWritable e) := inferInstanceAs (Decidable (_ ∧ _))

/-- The entry allows at most what the protection says. -/
structure Allows (prot : BitVec 32) (e : Word) : Prop where
  write : UserWritable e → has prot protWrite
  access : UserAccessible e → prot ≠ protNone
  exec : UserExecutable e → has prot protExec

variable {prot : BitVec 32} {f : Nat}

lemma Allows.of_full (hw : has prot protWrite) (hx : has prot protExec)
    (e : Word) : Allows prot e := by
  refine ⟨fun _ => hw, fun _ hnone => ?_, fun _ => hx⟩
  rw [hnone] at hw
  exact absurd hw (by decide)

lemma Allows.clearUser {e : Word} (h : Allows prot e) : Allows prot (e &&& ~~~ pteUser) := by
  have haccess : ¬ UserAccessible (e &&& ~~~ pteUser) := fun hacc => hacc (by
    rw [BitVec.and_assoc, show ~~~ pteUser &&& pteUser = 0#64 by decide, BitVec.and_zero]
    rfl)
  refine ⟨fun hw => absurd hw.1 haccess, fun hacc => absurd hacc haccess, fun hx => h.exec ?_⟩
  unfold UserExecutable at hx ⊢
  rwa [BitVec.and_assoc, show ~~~ pteUser &&& pteUxn = pteUxn by decide] at hx

lemma mkPte_and (hf : f < 2 ^ 36) (flags : Word) {mask : Word}
    (hmask : addrMask &&& mask = 0#64) : mkPte f flags &&& mask = flags &&& mask := by
  have haddr : BitVec.ofNat 64 (f * 4096) &&& mask = 0#64 := by
    rw [← ofNat_and_addrMask hf, BitVec.and_assoc, hmask, BitVec.and_zero]
  rw [mkPte, BitVec.and_comm, BitVec.and_or_distrib_left, BitVec.and_comm mask, haddr,
    BitVec.zero_or, BitVec.and_comm]

/-- An entry through which the user can write. -/
lemma allows_mkPte (hf : f < 2 ^ 36) {flags : Word}
    (huser : flags &&& pteUser ≠ 0) (hro : flags &&& pteRo = 0) : Allows prot (mkPte f flags) ↔
      has prot protWrite ∧ (flags &&& pteUxn = 0 → has prot protExec) := by
  have hand : ∀ mask, addrMask &&& mask = 0#64 → mkPte f flags &&& mask = flags &&& mask := fun _ =>
    mkPte_and hf flags
  have haccess : UserAccessible (mkPte f flags) := by
    unfold UserAccessible
    rwa [hand _ (by decide)]
  have hwrite : UserWritable (mkPte f flags) := ⟨haccess, by rwa [hand _ (by decide)]⟩
  have hexec : UserExecutable (mkPte f flags) ↔ flags &&& pteUxn = 0 := by
    unfold UserExecutable
    rw [hand _ (by decide)]
  constructor
  · exact fun h => ⟨h.write hwrite, fun hx => h.exec (hexec.mpr hx)⟩
  rintro ⟨hw, himp⟩
  refine ⟨fun _ => hw, fun _ hnone => ?_, fun hx => himp (hexec.mp hx)⟩
  rw [hnone] at hw
  exact absurd hw (by decide)

lemma allows_udata (hf : f < 2 ^ 36) :
    Allows prot (mkPte f pteUdata) ↔ has prot protWrite ∧ has prot protExec := by
  rw [allows_mkPte hf (by decide) (by decide), imp_iff_right (by decide)]

/-- The bits that the fault handler writes for a region with `PROT_WRITE`. -/
lemma getPerm_bits (flags : BitVec 32) (hw : has prot protWrite) :
    let perm := getPerm prot flags &&& ~~~ pteRo
    perm &&& addrMask = 0 ∧ perm.getLsbD 0 = true ∧ perm &&& ptePage = ptePage ∧
      perm &&& pteUser ≠ 0 ∧ perm &&& pteRo = 0 ∧ (perm &&& pteUxn = 0 ↔ has prot protExec) := by
  have hrw : has prot (protRead ||| protWrite) = true := by
    simp only [has, decide_eq_true_eq] at hw ⊢
    intro hz
    apply hw
    rw [show protWrite = (protRead ||| protWrite) &&& protWrite by decide, ← BitVec.and_assoc, hz]
    exact BitVec.zero_and
  have hnone : has prot protNone = false := by
    simp [has, protNone]
  have hall : ∀ anon read exec : Bool,
      let memory := if anon then mtNormalNc else mtNormal
      let perm := pteUser ||| ptePxn ||| ptePage ||| memory <<< 2 ||| pteAf ||| pteSh
      let perm := if read then perm ||| pteRo else perm
      let perm := perm &&& ~~~ pteRo
      let perm := if !exec then perm ||| pteUxn else perm
      let perm := perm &&& ~~~ pteRo
      perm &&& addrMask = 0 ∧ perm.getLsbD 0 = true ∧ perm &&& ptePage = ptePage ∧
        perm &&& pteUser ≠ 0 ∧ perm &&& pteRo = 0 ∧ (perm &&& pteUxn = 0 ↔ exec = true) := by
    decide
  have h := hall (has flags mapAnonymous) (has prot protRead) (has prot protExec)
  simpa only [getPerm, hw, hrw, hnone, if_true, Bool.not_true, Bool.or_false, Bool.false_eq_true,
    if_false] using h

lemma allows_copied (hf : f < 2 ^ 36) {wanted : BitVec 32} (flags : BitVec 32)
    (hw : has prot protWrite) : Allows wanted (mkPte f (getPerm prot flags &&& ~~~ pteRo)) ↔
      has wanted protWrite ∧ (has prot protExec → has wanted protExec) := by
  obtain ⟨-, -, -, huser, hro, huxn⟩ := getPerm_bits flags hw
  rw [allows_mkPte hf huser hro, huxn]

/-! ## What the functions leave in the entries -/

variable {kend root : Nat} {s : Phys}

lemma clearUser_frame (e : Word) : frameOf (e &&& ~~~ pteUser) = frameOf e := by
  unfold frameOf
  rw [BitVec.and_assoc, show ~~~ pteUser &&& addrMask = addrMask by decide]

/-- Taking `PTE_USER` from an entry changes this entry only. -/
lemma SpaceOk.clearUser (h : SpaceOk kend s root) {vpn : Nat} {x : Nat × Nat} (hvpn : vpn < npages)
    (hx : slot entries target s.mem 3 root vpn = some x)
    (he : pte s.mem root vpn = some (s.mem x.1 x.2)) (hvalid : s.mem x.1 x.2 &&& pteValid ≠ 0) :
    SpaceOk kend (s.setMem (s.mem.write x.1 x.2 (s.mem x.1 x.2 &&& ~~~ pteUser))) root ∧
      ∀ k < npages, pte (s.mem.write x.1 x.2 (s.mem x.1 x.2 &&& ~~~ pteUser)) root k =
        if k = vpn then some (s.mem x.1 x.2 &&& ~~~ pteUser) else pte s.mem root k := by
  have hbits : ∀ mask : Word, ~~~ pteUser &&& mask = mask →
      s.mem x.1 x.2 &&& ~~~ pteUser &&& mask = s.mem x.1 x.2 &&& mask := fun mask hm => by
    rw [BitVec.and_assoc, hm]
  refine h.write _ hvpn hx he ?_ ?_ (.inl (clearUser_frame _))
  · rw [target, hbits _ (by decide), if_pos hvalid]
    rfl
  · rw [hbits _ (by decide)]
    exact (h.entry vpn hvpn _ he).page

lemma page_of_range {p i n : Nat} (h : p + i + (n + 1) ≤ npages) :
    add64 (p * 4096) (i * 4096) / 4096 = p + i := by
  rw [add64_pages (by omega)]
  omega

/-- **The change to `PROT_NONE`** of whole pages: the mapped ones lose `PTE_USER`, and the count
says whether all are mapped. A missing table stops the kernel. -/
theorem protectPages_spec {p : Nat} (n : Nat) {i : Nat} (h : SpaceOk kend s root)
    (hp : p + i + n ≤ npages) : Ends (protectPages root (p * 4096) i n) s
      (fun r s' => SpaceOk kend s' root ∧ r ≤ n ∧
        (r = n ↔ ∀ k, p + i ≤ k → k < p + i + n → (pte s.mem root k).isSome) ∧
        ∀ k < npages, pte s'.mem root k = if p + i ≤ k ∧ k < p + i + n then
          (pte s.mem root k).map (· &&& ~~~ pteUser) else pte s.mem root k)
      fun _ _ => ∃ k, p + i ≤ k ∧ k < p + i + n ∧ pte s.mem root k = none := by
  induction n generalizing i s with
  | zero =>
    refine ⟨h, le_refl _, ⟨fun _ k _ _ => by omega, fun _ => rfl⟩, fun k _ => ?_⟩
    rw [if_neg (by omega)]
  | succ n ih => ?_
  unfold protectPages pgdirWalk
  rw [ends_bind, ends_walk_false, page_of_range hp]
  rcases hx : slot entries target s.mem 3 root (p + i) with - | x
  · exact ⟨p + i, le_refl _, by omega, by rw [pte, entry, hx, Option.bind_none]⟩
  have hpte := pte_of_slot hx
  simp only [ends_bind, ends_get]
  split
  · next hvalid =>
    rw [if_pos hvalid] at hpte
    obtain ⟨hsp, hwrite⟩ := SpaceOk.clearUser h (by omega) hx hpte hvalid
    simp only [ends_bind, ends_set, ends_pure]
    refine (ih hsp (i := i + 1) (by omega)).mono ?_ ?_
    · rintro r s' ⟨hsp', hle, hiff, hpte'⟩
      have hkeep : ∀ k, p + (i + 1) ≤ k → k < p + (i + 1) + n →
          pte (s.mem.write x.1 x.2 (s.mem x.1 x.2 &&& ~~~ pteUser)) root k =
            pte s.mem root k := fun k hk hk' => by
        rw [hwrite k (by omega), if_neg (by omega)]
      refine ⟨hsp', by omega, ⟨fun heq k hk hk' => ?_, fun hall => ?_⟩, fun k hk => ?_⟩
      · by_cases hki : k = p + i
        · rw [hki, hpte]
          rfl
        · rw [← hkeep k (by omega) (by omega)]
          exact hiff.mp (by omega) k (by omega) (by omega)
      · rw [hiff.mpr fun k hk hk' => ?_]
        rw [Phys.setMem_mem, hkeep k hk hk']
        exact hall k (by omega) (by omega)
      rw [hpte' k hk, Phys.setMem_mem, hwrite k hk]
      by_cases hki : k = p + i
      · rw [if_neg (by omega), if_pos hki, if_pos (by omega), hki, hpte]
        rfl
      · rw [if_neg hki]
        exact if_congr (by omega) rfl rfl
    · rintro err s' ⟨k, hk, hk', hnone⟩
      rw [Phys.setMem_mem, hwrite k (by omega), if_neg (by omega)] at hnone
      exact ⟨k, by omega, by omega, hnone⟩
  · next hvalid =>
    rw [if_neg hvalid] at hpte
    refine (ih h (i := i + 1) (by omega)).mono ?_ ?_
    · rintro r s' ⟨hsp', hle, hiff, hpte'⟩
      refine ⟨hsp', by omega, ⟨fun heq => by omega, fun hall => ?_⟩, fun k hk => ?_⟩
      · have hsome := hall (p + i) (le_refl _) (by omega)
        rw [hpte] at hsome
        cases hsome
      rw [hpte' k hk]
      by_cases hki : k = p + i
      · rw [if_neg (by omega), if_pos (by omega), hki, hpte]
        rfl
      · exact if_congr (by omega) rfl rfl
    · rintro err s' ⟨k, hk, hk', hnone⟩
      exact ⟨k, by omega, by omega, hnone⟩

/-- The pages from `lo` to `hi` have been given entries with `perm`, and no others. -/
structure Rewritten (kend : Nat) (s s' : Phys) (root : Nat) (perm : Word) (lo hi : Nat) : Prop where
  space : SpaceOk kend s' root
  inside : ∀ k, lo ≤ k → k < hi → ∃ f < 2 ^ 36, pte s'.mem root k = some (mkPte f perm)
  other : ∀ k < npages, ¬ (lo ≤ k ∧ k < hi) → pte s'.mem root k = pte s.mem root k

/-- Two ranges, one behind the other. -/
lemma Rewritten.trans {s₁ s2 : Phys} {perm : Word} {lo mid hi : Nat}
    (h1 : Rewritten kend s s₁ root perm lo mid) (h2 : Rewritten kend s₁ s2 root perm mid hi)
    (hlo : lo ≤ mid) (hhi : mid ≤ hi) (hnp : mid ≤ npages) :
    Rewritten kend s s2 root perm lo hi := by
  refine ⟨h2.space, fun k hk hk' => ?_, fun k hk hout => ?_⟩
  · by_cases hmid : k < mid
    · rw [h2.other k (by omega) (by omega)]
      exact h1.inside k hk hmid
    · exact h2.inside k (by omega) hk'
  · rw [h2.other k hk (by omega), h1.other k hk (by omega)]

/-- A page that is copied gets the new frame and the permissions. -/
lemma rewritten_copied {s₁ : Phys} {vpn np : Nat} {e perm : Word} {x : Nat × Nat}
    (h : SpaceOk kend s root) (hvpn : vpn < npages)
    (hx : slot entries target s.mem 3 root vpn = some x) (he : pte s.mem root vpn = some e)
    (htook : Took s s₁ [np]) (hmem : ∀ f, f ≠ np → s₁.mem f = s.mem f)
    (haddr : perm &&& addrMask = 0) (hvalid : perm.getLsbD 0 = true)
    (hpage : perm &&& ptePage = ptePage) :
    Rewritten kend s (s₁.setMem (s₁.mem.write x.1 x.2 (mkPte np perm))) root perm vpn
      (vpn + 1) := by
  obtain ⟨hpend, hsame⟩ := h.pending htook hmem
  have hnp : np < 2 ^ 36 := h.free.frame_lt (htook.mem (by simp))
  have htarget := target_mkPte hnp haddr hvalid
  have hframe : frameOf (mkPte np perm) = np := frameOf_of_target htarget
  have hx' : slot entries target s₁.mem 3 root vpn = some x := by
    rw [slot_congr (by decide) fun f hf => hmem f fun heq => ?_, hx]
    exact h.tree.free f hf (heq ▸ htook.mem (by simp))
  obtain ⟨hsp, hwrite⟩ := hpend.space.write (mkPte np perm) hvpn hx'
    (by rw [hsame vpn hvpn, he]) (by rw [htarget]; rfl)
    (by rw [mkPte_and hnp _ (by decide), hpage]; decide) (.inr (by rw [hframe]; exact hpend))
  refine ⟨hsp, fun k hk hk' => ⟨np, hnp, ?_⟩, fun k hk hout => ?_⟩
  · rw [Phys.setMem_mem, hwrite k (by omega), if_pos (by omega)]
  · rw [Phys.setMem_mem, hwrite k hk, if_neg (by omega), hsame k hk]

/-- **`copy_mmap_pages`** of mapped pages: as many as there are free frames get an entry with the
bits. -/
theorem copyMmapPages_spec {perm : Word} (haddr : perm &&& addrMask = 0)
    (hvalid : perm.getLsbD 0 = true) (hpage : perm &&& ptePage = ptePage) {p : Nat}
    (n : Nat) {i : Nat} (h : SpaceOk kend s root) (hp : p + i + n ≤ npages)
    (hmap : ∀ k, p + i ≤ k → k < p + i + n → (pte s.mem root k).isSome) :
    Ends (copyMmapPages root (p * 4096) perm i n) s
      (fun _ s' => Rewritten kend s s' root perm (p + i) (p + i + min n s.freelist.length))
      fun err s' => (∃ e, err = .errno e) ∧
        Rewritten kend s s' root perm (p + i) (p + i + min n s.freelist.length) := by
  induction n generalizing i s with
  | zero => exact ⟨h, fun k _ _ => by omega, fun _ _ _ => rfl⟩
  | succ n ih => ?_
  obtain ⟨e, he⟩ := Option.isSome_iff_exists.mp (hmap (p + i) (le_refl _) (by omega))
  obtain ⟨x, hx, -, -⟩ := slot_of_pte he
  unfold copyMmapPages pgdirWalk
  rw [ends_bind, ends_walk_false, page_of_range hp, hx]
  simp only [ends_bind, ends_get]
  refine (kalloc_spec s).mono ?_ fun _ _ he => he.elim
  rintro r s₁ ⟨hmem, ⟨rfl, hnil, rfl⟩ | ⟨np, rfl, htook⟩⟩
  · rw [hnil, List.length_nil, Nat.min_zero]
    exact ⟨⟨_, rfl⟩, h, fun k _ _ => by omega, fun _ _ _ => rfl⟩
  simp only [copyFrame, ends_bind, ends_modify]
  have hone := rewritten_copied h (by omega) hx he
    (htook.trans (Took.of_mem s₁ fun g => if g = np then s₁.mem (frameOf (s.mem x.1 x.2)) else
      s₁.mem g) h.free.nodup)
    (fun f hf => by rw [Phys.setMem_mem, if_neg hf, hmem]) haddr hvalid hpage
  have hlen : s.freelist.length = s₁.freelist.length + 1 := by
    rw [htook.free]
    simp
  have hmap' : ∀ k, p + (i + 1) ≤ k → k < p + (i + 1) + n → (pte _ root k).isSome :=
    fun k hk hk' => by
      rw [hone.other k (by omega) (by omega)]
      exact hmap k (by omega) (by omega)
  have hrest := ih hone.space (i := i + 1) (by omega) hmap'
  have hall : ∀ t s2, Rewritten kend s t root perm (p + i) (p + i + 1) →
      Rewritten kend t s2 root perm (p + (i + 1)) (p + (i + 1) + min n s₁.freelist.length) →
      Rewritten kend s s2 root perm (p + i) (p + i + min (n + 1) s.freelist.length) := by
    intro t s2 h1 h2
    rw [show p + i + min (n + 1) s.freelist.length =
      p + (i + 1) + min n s₁.freelist.length by omega]
    exact h1.trans h2 (by omega) (by omega) (by omega)
  exact hrest.mono (fun _ s2 h2 => hall _ s2 hone h2) fun _ s2 h2 => ⟨h2.1, hall _ s2 hone h2.2⟩

/-! ### After a fork -/

section fork

variable {kend pgdir kstack child : Nat} {s s₁ : Phys} {regions : List Region} {fs gs : List Nat}
  {fr : Nat → Nat} (h : SpaceOk kend s pgdir)
  (hf : Forked regions s s₁ (pages s.mem pgdir) kstack child fs gs fr) {k : Nat}
include h hf

lemma forked_not_taken (hk : k < npages) {e : Word} (he : pte s.mem pgdir k = some e) :
    frameOf e ∉ kstack :: (fs ++ gs) := fun hin =>
  (h.entry k hk e he).not_free (hf.mem_free hin)

lemma forked_parent : SpaceOk kend s₁ pgdir ∧ SameMap s s₁ pgdir := by
  have hnd := h.free.nodup
  rw [hf.free] at hnd
  refine h.shrink (fun f hin => hf.mem f fun htook => h.tree.free f hin (hf.mem_free htook))
    hnd.of_append_right (fun f hin => ?_) fun k hk e he => ?_
  · rw [hf.free]
    exact List.mem_append_right _ hin
  · rw [hf.ref _ (forked_not_taken h hf hk he)]
    omega

lemma forked_child_entry (hk : k < npages) {e' : Word} (he' : pte s₁.mem child k = some e') :
    ∃ e, pte s.mem pgdir k = some e ∧ e' = mkPte (fr k) pteUdata ∧ fr k < 2 ^ 36 := by
  rw [hf.maps k hk] at he'
  split at he'
  · next hkey =>
    obtain ⟨x, hx, rfl⟩ := List.mem_map.mp hkey
    exact ⟨x.2, (mem_pages.mp hx).2, (Option.some.inj he').symm, hf.frame_lt h.free hx⟩
  · cases he'

omit h in
lemma forked_child_frame (hk : k < npages) {e : Word} (he : pte s.mem pgdir k = some e) :
    fr k = frameOf e ∨ fr k ∈ copies regions fr (pages s.mem pgdir) := by
  have hx : (k, e) ∈ pages s.mem pgdir := mem_pages.mpr ⟨hk, he⟩
  cases hs : isShared regions k with
  | true => exact .inl (hf.shared (k, e) hx hs)
  | false => exact .inr (mem_copies hx hs)

/-- **The address space of the child after `fork`**. -/
theorem forked_child : SpaceOk kend s₁ child := by
  have hnd := h.free.nodup
  rw [hf.free] at hnd
  have hsub : ∀ f ∈ s₁.freelist, f ∈ s.freelist := fun f hin => by
    rw [hf.free]
    exact List.mem_append_right _ hin
  have hkeep : ∀ f ∈ fs, f ∉ s₁.freelist := fun f hin hfree =>
    (List.nodup_append.mp hnd).2.2 f (by simp [hin]) f hfree rfl
  have hframes := hf.nodup_frames h.free
  refine ⟨⟨hnd.of_append_right, fun f hin => h.free.range f (hsub f hin)⟩,
    fun f hin => h.kend_le f (hsub f hin), ⟨hframes.of_append_left, fun f hin =>
    hkeep f (hf.table_mem hin)⟩, fun k hk e' he' => ?_⟩
  obtain ⟨e, he, rfl, hlt⟩ := forked_child_entry h hf hk he'
  have hframe : frameOf (mkPte (fr k) pteUdata) = fr k := frameOf_udata hlt
  have hok := h.entry k hk e he
  have hcount : frameCount s₁.mem child (fr k) = sharedCount regions (pages s.mem pgdir) (fr k) +
      (copies regions fr (pages s.mem pgdir)).count (fr k) := hf.child_count h.free (fr k)
  rcases forked_child_frame hf hk he with heq | hcopy
  · -- a frame that the parent shares
    have hnot := forked_not_taken h hf hk he
    have hzero : (copies regions fr (pages s.mem pgdir)).count (frameOf e) = 0 :=
      List.count_eq_zero.mpr fun hin => hnot (by simp [hf.copy_mem hin])
    rw [heq] at hframe hcount
    refine ⟨?_, ?_, ?_, ?_, ptePage_udata _⟩ <;> rw [heq, hframe]
    · exact fun hin => hok.not_free (hsub _ hin)
    · exact fun hin => hnot (by simp [hf.table_mem hin])
    · exact hok.range
    have hle := hok.count
    rw [hcount, hzero, hf.ref _ hnot]
    omega
  · -- a copy
    have hin := hf.copy_mem hcopy
    have hfree : fr k ∈ s.freelist := hf.mem_free (by simp [hin])
    have hzero : sharedCount regions (pages s.mem pgdir) (fr k) = 0 :=
      sharedCount_eq_zero (fun x hx heq =>
        (h.entry x.1 (mem_pages.mp hx).1 x.2 (mem_pages.mp hx).2).not_free (heq ▸ hfree)) regions
    have hone : (copies regions fr (pages s.mem pgdir)).count (fr k) ≤ 1 :=
      List.nodup_iff_count_le_one.mp hframes.of_append_right _
    refine ⟨?_, ?_, ?_, ?_, ptePage_udata _⟩ <;> rw [hframe]
    · exact hkeep _ hin
    · exact fun htab => (List.nodup_append.mp hframes).2.2 _ htab _ hcopy rfl
    · exact ⟨h.kend_le _ hfree, h.free.range _ hfree⟩
    · rw [hcount, hzero, hf.one _ (by simp [hin])]
      omega

end fork

/-! ## Runs -/

/-- A process, and for each page the protection that the last successful `mmap` of it asked for. -/
structure Guarded where
  sys : Sys
  want : Nat → Option (BitVec 32)

/-- What happens to a process. -/
inductive Event where
  | mmap (env : Env) (addr length : Nat) (prot flags : BitVec 32) (fd : Int)
    (file : Option OpenFile)
      (offset : Nat)
  | fault (env : Env) (dfs far : Nat)
  /-- and then the child is looked at, or the parent -/
  | fork (child : Bool)

/-- The page is in the range. -/
def InRange (addr length k : Nat) : Prop := addr / 4096 ≤ k ∧ k * 4096 < addr + length

instance (addr length k : Nat) : Decidable (InRange addr length k) :=
  inferInstanceAs (Decidable (_ ∧ _))

/-- What is wanted after `mmap` returned: an address on a page boundary is a success. -/
def wanted (want : Nat → Option (BitVec 32)) (length : Nat) (prot : BitVec 32) (r : Int) (k : Nat) :
    Option (BitVec 32) :=
  if (0 ≤ r ∧ r % 4096 = 0) ∧ InRange r.toNat length k then some prot else want k

/-- The address space of the child, `proc_alloc` and `copy_mmap_list`. -/
def childMm (mm : Mm) (pgdir : Nat) : Mm :=
  if mm.nregions = 0 then ⟨pgdir, [], 0⟩ else ⟨pgdir, mm.regions, mm.nregions⟩

/-- The state after an event. After a panic nothing happens any more. -/
def happen (kend : Nat) (g : Guarded) : Event → Guarded
  | .mmap env addr length prot flags fd file offset =>
    match sysMmap kend env (mmapArgs addr length prot flags fd file offset) g.sys with
    | .ok r s => ⟨s, wanted g.want length prot r⟩
    | .error _ _ => g
  | .fault env dfs far =>
    match pfHandler kend env dfs far g.sys with
    | .ok _ s => ⟨s, g.want⟩
    | .error _ _ => g
  | .fork child =>
    match forkMemory kend g.sys.mm g.sys.phys with
    | .ok (_, pgdir) p =>
      if child then ⟨⟨p, childMm g.sys.mm pgdir, g.sys.writes⟩, g.want⟩
      else ⟨g.sys.setPhys p, g.want⟩
    | .error _ p => ⟨g.sys.setPhys p, g.want⟩

/-- **Every entry allows at most what was asked for**. -/
def Enforced (g : Guarded) : Prop :=
  ∀ k < npages, ∀ e prot, pte g.sys.phys.mem g.sys.mm.pgdir k = some e → g.want k = some prot →
    Allows prot e

/-- What the rest of the kernel has to see to: a hint in user space, an `mmap` that finds what it
needs when it comes to loading pages, and a `fork` that succeeds. -/
def Sound (kend : Nat) (g : Guarded) : Event → Prop
  | .mmap env addr length prot flags fd file offset =>
    ∀ a, mmapArgs addr length prot flags fd file offset = .ok a → HintOk a ∧
      ∀ base, chooseAddr g.sys.mm a = .addr base → add64 base (roundUp a.length) ≤ usertop →
        env.node = true → Ends (mmapLoadPages kend env g.sys.mm.pgdir base a.length a.flags a.f
          a.offset) (afterNode env g.sys.phys) (fun _ _ => True)
  | .fault .. => True
  | .fork _ => Ends (forkMemory kend g.sys.mm) g.sys.phys (fun _ _ => True)

/-- Every whole page of the range is mapped. -/
def WholeMapped (g : Guarded) (addr length : Nat) : Prop :=
  ∀ k, addr / 4096 ≤ k → k < addr / 4096 + length / 4096 →
    (pte g.sys.phys.mem g.sys.mm.pgdir k).isSome

/-- The condition on `mmap` with accepted arguments: a new mapping asks for writing and executing, a
range that loses all access has no entry that stays open. -/
def FitsArgs (g : Guarded) (env : Env) (a : MmapArgs) : Prop :=
  match chooseAddr g.sys.mm a with
  | .result _ => True
  | .protect => WholeMapped g a.addr a.length →
      ∀ k e, InRange a.addr a.length k → pte g.sys.phys.mem g.sys.mm.pgdir k = some e →
        Allows protNone (if k < a.addr / 4096 + a.length / 4096 then e &&& ~~~ pteUser else e)
  | .addr base => add64 base (roundUp a.length) ≤ usertop → env.node = true →
      has a.prot protWrite ∧ has a.prot protExec

/-- The condition on an event: that on `mmap`; a fault copies a region only if the pages it gets to
were to be written, and executed if the region is; a child has no page that was to be closed. -/
def Fits (g : Guarded) : Event → Prop
  | .mmap env addr length prot flags fd file offset =>
    ∀ a, mmapArgs addr length prot flags fd file offset = .ok a → FitsArgs g env a
  | .fault _ dfs far => 11 < dfs → ∀ r, writtenRegion g.sys.mm.regions (roundDown far) = some r →
      ∀ k prot, r.addr / 4096 ≤ k →
        k < r.addr / 4096 + min (r.length / 4096) g.sys.phys.freelist.length →
        g.want k = some prot → has prot protWrite ∧ (has r.prot protExec → has prot protExec)
  | .fork child => child = true → ∀ k < npages, ∀ prot,
      (pte g.sys.phys.mem g.sys.mm.pgdir k).isSome → g.want k = some prot →
      has prot protWrite ∧ has prot protExec

/-! ### `mmap` -/

variable {s : Sys} {env : Env} {a : MmapArgs}

/-- What `mmap` did to the entries. -/
inductive MmapEntries (s : Sys) (env : Env) (a : MmapArgs) (r : Int) (s' : Sys) : Prop where
  /-- it failed; pages may have lost `PTE_USER` -/
  | failed (neg : r < 0)
      (why : match chooseAddr s.mm a with
        | .result _ => True
        | .protect => ¬ ∀ k, a.addr / 4096 ≤ k → k < a.addr / 4096 + a.length / 4096 → s.IsMapped k
        | .addr base => ¬ (add64 base (roundUp a.length) ≤ usertop ∧ env.node = true))
      (entry : ∀ k < npages, pte s'.phys.mem s.mm.pgdir k = pte s.phys.mem s.mm.pgdir k ∨
        pte s'.phys.mem s.mm.pgdir k = (pte s.phys.mem s.mm.pgdir k).map (· &&& ~~~ pteUser))
  | closed (choice : chooseAddr s.mm a = .protect) (addr : r = a.addr)
      (whole : ∀ k, a.addr / 4096 ≤ k → k < a.addr / 4096 + a.length / 4096 → s.IsMapped k)
      (entry : ∀ k < npages, pte s'.phys.mem s.mm.pgdir k =
        if a.addr / 4096 ≤ k ∧ k < a.addr / 4096 + a.length / 4096 then
          (pte s.phys.mem s.mm.pgdir k).map (· &&& ~~~ pteUser)
        else pte s.phys.mem s.mm.pgdir k)
  | opened (base : Nat) (choice : chooseAddr s.mm a = .addr base) (addr : r = base)
      (aligned : base % 4096 = 0) (user : base + a.length ≤ usertop)
        (top : add64 base (roundUp a.length) ≤ usertop) (node : env.node = true)
      (entry : ∀ k, InRange base a.length k → ∃ f < 2 ^ 36,
        pte s'.phys.mem s.mm.pgdir k = some (mkPte f pteUdata))
      (other : ∀ k < npages, ¬ InRange base a.length k →
        pte s'.phys.mem s.mm.pgdir k = pte s.phys.mem s.mm.pgdir k)

lemma chooseAddr_protect {mm : Mm} (h : chooseAddr mm a = .protect) :
    a.addr ≠ 0 ∧ a.addr % 4096 = 0 ∧ a.prot = protNone := by
  unfold chooseAddr at h
  split_ifs at h with h1 h2 h3 h4 h5
  exact ⟨h1, by omega, h5⟩

/-- The pages of a region are mapped after a change of entries that keeps all pages. -/
lemma MmapOk.rewrite (h : MmapOk kend s) {p : Phys} (hp : SpaceOk kend p s.mm.pgdir)
    (hkeep : ∀ k < npages, s.IsMapped k → (pte p.mem s.mm.pgdir k).isSome) :
    MmapOk kend (s.setPhys p) :=
  ⟨hp, h.region, h.sorted, h.count, fun r hr k hk =>
    hkeep k (h.page_lt hr hk) (h.mapped r hr k hk)⟩

lemma inRange_iff {addr length k : Nat} (h : addr % 4096 = 0) :
    InRange addr length k ↔ addr / 4096 ≤ k ∧ k < addr / 4096 + (length + 4095) / 4096 := by
  unfold InRange
  omega

/-- **The entries after `mmap`**. -/
theorem mmap_entries (h : MmapOk kend s) (ha : ArgsOk a) (hint : HintOk a)
    (hload : ∀ base, chooseAddr s.mm a = .addr base → add64 base (roundUp a.length) ≤ usertop →
      env.node = true → Ends (mmapLoadPages kend env s.mm.pgdir base a.length a.flags a.f a.offset)
        (afterNode env s.phys) (fun _ _ => True)) :
    Ends (mmap kend env a) s (fun r s' => MmapOk kend s' ∧ s'.mm.pgdir = s.mm.pgdir ∧
      MmapEntries s env a r s')
      fun _ _ => chooseAddr s.mm a = .protect ∧
        ¬ ∀ k, a.addr / 4096 ≤ k → k < a.addr / 4096 + a.length / 4096 → s.IsMapped k := by
  unfold mmap
  rw [ends_bind, ends_get]
  cases hc : chooseAddr s.mm a with
  | result r =>
    obtain rfl := chooseAddr_result hint hc
    refine ⟨h, rfl, .failed (by decide) ?_ fun k _ => .inl rfl⟩
    rw [hc]
    trivial
  | protect =>
    obtain ⟨hne, haddr, -⟩ := chooseAddr_protect hc
    have hle := hint hne
    have hnp := usertop_eq
    have hspec := protectPages_spec (p := a.addr / 4096) (i := 0) (a.length / 4096) h.space
      (by omega)
    rw [show a.addr / 4096 * 4096 = a.addr by omega, Nat.add_zero] at hspec
    simp only [ends_bind, ends_onFrames]
    refine hspec.mono ?_ ?_
    · rintro r p ⟨hsp, hcount, hiff, hentry⟩
      have hok : MmapOk kend (s.setPhys p) := by
        refine h.rewrite hsp fun k hk hmap => ?_
        rw [hentry k hk]
        split
        · rwa [Option.isSome_map]
        · exact hmap
      split
      · next heq => exact ⟨hok, rfl, .closed hc rfl (hiff.mp heq) hentry⟩
      · next hlt =>
        refine ⟨hok, rfl, .failed (by decide) ?_ fun k hk => ?_⟩
        · rw [hc]
          exact fun hall => hlt (hiff.mpr hall)
        rw [Sys.setPhys_phys, hentry k hk]
        split
        · exact .inr rfl
        · exact .inl rfl
    · rintro err p ⟨k, hk, hk', hnone⟩
      refine ⟨trivial, fun hall => ?_⟩
      have hsome := hall k hk hk'
      rw [Sys.IsMapped, hnone] at hsome
      cases hsome
  | addr base =>
    obtain ⟨hbase, hle⟩ := chooseAddr_addr hint h.region hc
    have hsum := add64_roundUp ha hle
    dsimp only
    split
    · next hbig =>
      refine ⟨h, rfl, .failed (by decide) ?_ fun k _ => .inl rfl⟩
      rw [hc]
      exact fun hboth => absurd hboth.1 (by omega)
    · next htop =>
      refine (mapAt_spec h ha hbase (by omega) (hload base hc (by omega))).mono ?_
        fun _ _ he => he.elim
      rintro r s' ⟨⟨hok, -⟩, hpgdir, hentry⟩
      refine ⟨hok, hpgdir, ?_⟩
      unfold MappedAt at hentry
      split at hentry
      · next hnode =>
        have hround := roundUp_eq (n := a.length) (by have := ha.lt; omega)
        obtain ⟨hr, hudata, hother⟩ := hentry
        refine .opened base hc hr hbase (by omega) (by omega) hnode (fun k hk => ?_)
          fun k hk hout => ?_
        · have hin := (inRange_iff hbase).mp hk
          exact hudata k hin.1 hin.2
        · exact hother k hk fun hin => hout ((inRange_iff hbase).mpr hin)
      · next hnode =>
        refine .failed hentry.1 ?_ fun k _ => .inl (hentry.2 k)
        rw [hc]
        exact fun hboth => hnode hboth.2

/-! ### The fault handler and `fork` -/

/-- An error number becomes -1, as in `pf_handler`. -/
lemma ends_orMinusOne {x : V Unit} {Q : Int → Sys → Prop} {R : Fault → Sys → Prop} :
    Ends (orMinusOne x) s Q R ↔ Ends x s.phys (fun _ p => Q 0 (s.setPhys p)) fun err p =>
      match err with
      | .errno _ => Q (-1) (s.setPhys p)
      | err => R err (s.setPhys p) := by
  unfold orMinusOne
  simp only [ends_tryCatch, ends_bind, ends_onFrames, ends_pure]
  unfold Ends
  cases x s.phys with
  | ok _ _ => exact Iff.rfl
  | error err _ => cases err <;> exact Iff.rfl

lemma writtenRegion_some {regions : List Region} {far : Nat} {r : Region}
    (h : writtenRegion regions far = some r) : r ∈ regions ∧ has r.prot protWrite := by
  have hsat := List.find?_some h
  rw [decide_eq_true_eq] at hsat
  exact ⟨List.mem_of_find?_eq_some h, hsat.2.2.2⟩

/-- **The entries after a fault**: nothing happened, or the first pages of a region, as many as
there are frames, have the bits of its protection. -/
theorem pfHandler_spec (h : MmapOk kend s) (env : Env) (dfs far : Nat) :
    Ends (pfHandler kend env dfs far) s (fun _ s' => MmapOk kend s' ∧ s'.mm = s.mm ∧
      ((SameMap s.phys s'.phys s.mm.pgdir ∧
          (dfs ≤ 11 ∨ writtenRegion s.mm.regions (roundDown far) = none)) ∨
        ∃ r, 11 < dfs ∧ writtenRegion s.mm.regions (roundDown far) = some r ∧
          Rewritten kend s.phys s'.phys s.mm.pgdir (getPerm r.prot r.flags &&& ~~~ pteRo)
            (r.addr / 4096) (r.addr / 4096 + min (r.length / 4096) s.phys.freelist.length)))
      fun _ _ => dfs ≤ 11 := by
  unfold pfHandler
  rw [ends_bind, ends_get]
  split
  · next hdfs => exact ⟨h, rfl, .inl ⟨fun _ _ => rfl, .inl (by omega)⟩⟩
  split
  · next hdfs =>
    cases hfind : s.mm.regions.find? fun r => r.addr = roundDown far with
    | none => exact ⟨h, rfl, .inl ⟨fun _ _ => rfl, .inl hdfs⟩⟩
    | some r => ?_
    have hr := List.mem_of_find?_eq_some hfind
    obtain ⟨haddr, hlen, hpos, htop⟩ := h.region r hr
    dsimp only
    rw [ends_orMinusOne]
    by_cases hfile : has r.flags mapAnonymous = true ∨ r.f.isSome
    · refine (mmapLoadPages_spec haddr (by omega) h.space env r.offset hfile).mono ?_ ?_
      · -- the pages of the region are mapped, so they cannot be loaded
        rintro - p ⟨hl, -⟩
        have hmap := h.mapped r hr (r.addr / 4096) ⟨by omega, by omega⟩
        rw [Sys.IsMapped, hl.fresh _ (le_refl _) (by omega)] at hmap
        cases hmap
      · rintro err p ⟨⟨e, rfl⟩, hsp, hsame⟩
        exact ⟨(h.setPhys hsp hsame).1, rfl, .inl ⟨hsame, .inl hdfs⟩⟩
    · rw [not_or] at hfile
      have hnone : r.f = none := by
        cases hf : r.f with
        | none => rfl
        | some g => exact absurd (by rw [hf]; rfl) hfile.2
      unfold mmapLoadPages
      simp only [if_neg hfile.1, hnone]
      exact hdfs
  · next hlow hdfs =>
    rcases hfind : writtenRegion s.mm.regions (roundDown far) with - | r
    · exact ⟨h, rfl, .inl ⟨fun _ _ => rfl, .inr rfl⟩⟩
    obtain ⟨hr, hw⟩ := writtenRegion_some hfind
    obtain ⟨haddr, hlen, hpos, htop⟩ := h.region r hr
    obtain ⟨hmask, hvalid, hpage, -⟩ := getPerm_bits r.flags hw
    have hnp := usertop_eq
    have hcount : (add64 r.addr r.length - r.addr + 4095) / 4096 = r.length / 4096 := by
      unfold add64
      unfold usertop at htop
      omega
    have hmap : ∀ k, r.addr / 4096 + 0 ≤ k → k < r.addr / 4096 + 0 + r.length / 4096 →
        (pte s.phys.mem s.mm.pgdir k).isSome := fun k hk hk' =>
      h.mapped r hr k ⟨by omega, by omega⟩
    have hspec := copyMmapPages_spec hmask hvalid hpage (r.length / 4096) h.space (by omega) hmap
    rw [show r.addr / 4096 * 4096 = r.addr by omega, Nat.add_zero] at hspec
    have hdone : ∀ p, Rewritten kend s.phys p s.mm.pgdir (getPerm r.prot r.flags &&& ~~~ pteRo)
        (r.addr / 4096) (r.addr / 4096 + min (r.length / 4096) s.phys.freelist.length) →
        MmapOk kend (s.setPhys p) := fun p hp => by
      refine MmapOk.rewrite h hp.space fun k hk hsome => ?_
      by_cases hin : r.addr / 4096 ≤ k ∧
          k < r.addr / 4096 + min (r.length / 4096) s.phys.freelist.length
      · obtain ⟨f, -, hf⟩ := hp.inside k hin.1 hin.2
        rw [hf]
        rfl
      · rw [hp.other k hk hin]
        exact hsome
    dsimp only
    rw [ends_orMinusOne, hcount]
    refine hspec.mono ?_ ?_
    · rintro - p hp
      exact ⟨hdone p hp, rfl, .inr ⟨r, by omega, rfl, hp⟩⟩
    · rintro err p ⟨⟨e, rfl⟩, hp⟩
      exact ⟨hdone p hp, rfl, .inr ⟨r, by omega, rfl, hp⟩⟩

/-- **The entries after `fork`**. -/
theorem fork_entries (h : MmapOk kend s)
    (hgood : Ends (forkMemory kend s.mm) s.phys (fun _ _ => True)) :
    Ends (forkMemory kend s.mm) s.phys (fun r p =>
      MmapOk kend (s.setPhys p) ∧ SameMap s.phys p s.mm.pgdir ∧
      MmapOk kend ⟨p, childMm s.mm r.2, s.writes⟩ ∧
      ∀ k < npages, (s.IsMapped k → ∃ f < 2 ^ 36, pte p.mem r.2 k = some (mkPte f pteUdata)) ∧
        (¬ s.IsMapped k → pte p.mem r.2 k = none)) := by
  have hmap : ∀ x ∈ pages s.phys.mem s.mm.pgdir, frameOf x.2 ∉ s.phys.freelist := fun x hx =>
    (h.space.entry x.1 (mem_pages.mp hx).1 x.2 (mem_pages.mp hx).2).not_free
  refine ((forkMemory_forked h.space.free h.space.tree hmap).and hgood).mono ?_ fun _ _ he => he.2
  rintro ⟨kstack, child⟩ p ⟨⟨fs, gs, fr, hf, -⟩, -⟩
  obtain ⟨hparent, hsame⟩ := forked_parent h.space hf
  have hentry : ∀ k < npages,
      (s.IsMapped k → ∃ f < 2 ^ 36, pte p.mem child k = some (mkPte f pteUdata)) ∧
        (¬ s.IsMapped k → pte p.mem child k = none) := by
    intro k hk
    rw [hf.maps k hk]
    constructor
    · intro hsome
      obtain ⟨e, he⟩ := Option.isSome_iff_exists.mp hsome
      have hx := mem_pages.mpr ⟨hk, he⟩
      rw [if_pos (List.mem_map.mpr ⟨_, hx, rfl⟩)]
      exact ⟨fr k, hf.frame_lt h.space.free hx, rfl⟩
    intro hnone
    refine if_neg fun hkey => hnone ?_
    obtain ⟨x, hx, rfl⟩ := List.mem_map.mp hkey
    rw [Sys.IsMapped, (mem_pages.mp hx).2]
    rfl
  have hchild : childMm s.mm child = ⟨child, s.mm.regions, s.mm.nregions⟩ := by
    unfold childMm
    split
    · next hzero =>
      have hcount := h.count
      rw [hzero, List.length_eq_zero_iff] at hcount
      rw [hcount, hzero]
    · rfl
  refine ⟨(h.setPhys hparent hsame).1, hsame, ?_, hentry⟩
  rw [hchild]
  refine ⟨forked_child h.space hf, h.region, h.sorted, h.count, fun r hr k hk => ?_⟩
  obtain ⟨f, -, hpte⟩ := (hentry k (h.page_lt hr hk)).1 (h.mapped r hr k hk)
  show (pte p.mem child k).isSome
  rw [hpte]
  rfl

/-! ### One event -/

section step

variable {kend : Nat} {g : Guarded} {want : Nat → Option (BitVec 32)} {prot : BitVec 32}

lemma wanted_failed {length : Nat} {r : Int} (h : r < 0) : wanted want length prot r = want := by
  funext k
  exact if_neg fun hand => absurd hand.1.1 (by omega)

lemma wanted_addr {length addr : Nat} (h : addr % 4096 = 0) (k : Nat) :
    wanted want length prot addr k = if InRange addr length k then some prot else want k := by
  unfold wanted
  rw [Int.toNat_natCast]
  refine if_congr ⟨fun hand => hand.2, fun hin => ⟨⟨by omega, by omega⟩, hin⟩⟩ rfl rfl

variable {env : Env} {a : MmapArgs} {r : Int} {s' : Sys}

/-- Entries that only lose `PTE_USER` still allow no more than was asked. -/
lemma enforced_of_cleared (he : Enforced g) (hpgdir : s'.mm.pgdir = g.sys.mm.pgdir)
    (hentry : ∀ k < npages,
      pte s'.phys.mem g.sys.mm.pgdir k = pte g.sys.phys.mem g.sys.mm.pgdir k ∨
        pte s'.phys.mem g.sys.mm.pgdir k =
          (pte g.sys.phys.mem g.sys.mm.pgdir k).map (· &&& ~~~ pteUser)) :
          Enforced ⟨s', g.want⟩ := by
  intro k hk e prot hpte hwant
  dsimp only at hpte hwant
  rw [hpgdir] at hpte
  rcases hentry k hk with heq | heq <;> rw [heq] at hpte
  · exact he k hk e prot hpte hwant
  · obtain ⟨e', he', rfl⟩ := Option.map_eq_some_iff.mp hpte
    exact (he k hk e' prot he' hwant).clearUser

/-- The entries and the wishes change for the pages `P`. -/
lemma Enforced.change (he : Enforced g) (P : Nat → Prop) (hother :
    ∀ k < npages, ¬ P k → want k = g.want k ∧
      pte s'.phys.mem s'.mm.pgdir k = pte g.sys.phys.mem g.sys.mm.pgdir k) :
    Enforced ⟨s', want⟩ ↔ ∀ k < npages, P k → ∀ e prot, pte s'.phys.mem s'.mm.pgdir k = some e →
      want k = some prot → Allows prot e := by
  refine ⟨fun h k hk _ => h k hk, fun h k hk e prot hpte hwant => ?_⟩
  by_cases hP : P k
  · exact h k hk hP e prot hpte hwant
  obtain ⟨hw, hp⟩ := hother k hk hP
  exact he k hk e prot (hp ▸ hpte) (hw ▸ hwant)

/-- **One `mmap`**. -/
theorem MmapEntries.enforced_iff (hent : MmapEntries g.sys env a r s') (he : Enforced g)
    (hpgdir : s'.mm.pgdir = g.sys.mm.pgdir) (ha : ArgsOk a) (hint : HintOk a) :
    Enforced ⟨s', wanted g.want a.length a.prot r⟩ ↔ FitsArgs g env a := by
  unfold FitsArgs
  cases hent with
  | failed neg why entry =>
    rw [wanted_failed neg]
    refine iff_of_true (enforced_of_cleared he hpgdir entry) ?_
    cases hc : chooseAddr g.sys.mm a with
    | result _ => trivial
    | protect =>
      rw [hc] at why
      exact fun hwhole => absurd hwhole why
    | addr base =>
      rw [hc] at why
      exact fun htop hnode => absurd ⟨htop, hnode⟩ why
  | closed choice addr whole entry =>
    obtain ⟨hne, haddr, hprot⟩ := chooseAddr_protect choice
    have hlt : ∀ k, InRange a.addr a.length k → k < npages := fun k hk => by
      have hle := hint hne
      have hnp := usertop_eq
      have := hk.2
      omega
    have hentry : ∀ k, InRange a.addr a.length k → pte s'.phys.mem s'.mm.pgdir k =
        (pte g.sys.phys.mem g.sys.mm.pgdir k).map
          fun e => if k < a.addr / 4096 + a.length / 4096 then e &&& ~~~ pteUser else e :=
            fun k hin => by
      rw [hpgdir, entry k (hlt k hin)]
      simp only [hin.1, true_and]
      split <;> simp
    rw [choice, addr, hprot, he.change (InRange a.addr a.length) fun k hk hout =>
      ⟨by rw [wanted_addr haddr, if_neg hout],
        by rw [hpgdir, entry k hk, if_neg fun hin => hout ⟨hin.1, by omega⟩]⟩]
    constructor
    · intro h _ k e hin hpte
      exact h k (hlt k hin) hin _ _ (by rw [hentry k hin, hpte]; rfl)
        (by rw [wanted_addr haddr, if_pos hin])
    · intro h k hk hin e prot hpte hwant
      rw [wanted_addr haddr, if_pos hin] at hwant
      rw [hentry k hin] at hpte
      obtain rfl := Option.some.inj hwant
      obtain ⟨e', he', rfl⟩ := Option.map_eq_some_iff.mp hpte
      exact h whole k e' hin he'
  | opened base choice addr aligned user top node entry other =>
    rw [choice, addr, he.change (InRange base a.length) fun k hk hout =>
      ⟨by rw [wanted_addr aligned, if_neg hout], by rw [hpgdir, other k hk hout]⟩]
    constructor
    · intro h _ _
      -- the first page of the range
      have hpos := ha.pos
      have hnp := usertop_eq
      have hin : InRange base a.length (base / 4096) := ⟨le_refl _, by omega⟩
      obtain ⟨f, hf, hpte⟩ := entry _ hin
      exact (allows_udata hf).mp
        (h _ (by omega) hin _ _ (by rw [hpgdir, hpte]) (by rw [wanted_addr aligned, if_pos hin]))
    · intro h k hk hin e prot _ hwant
      obtain ⟨hw, hx⟩ := h top node
      rw [wanted_addr aligned, if_pos hin] at hwant
      obtain rfl := Option.some.inj hwant
      exact .of_full hw hx e

/-- **One fault** that copied pages of a region. -/
theorem Rewritten.enforced_iff {q : Region} {lo hi : Nat} (hw : has q.prot protWrite)
    (hrew : Rewritten kend g.sys.phys s'.phys g.sys.mm.pgdir (getPerm q.prot q.flags &&& ~~~ pteRo)
      lo hi) (he : Enforced g) (hmm : s'.mm = g.sys.mm) (hhi : hi ≤ npages) :
    Enforced ⟨s', g.want⟩ ↔ ∀ k prot, lo ≤ k → k < hi → g.want k = some prot →
      has prot protWrite ∧ (has q.prot protExec → has prot protExec) := by
  rw [he.change (fun k => lo ≤ k ∧ k < hi) fun k hk hout =>
    ⟨rfl, by rw [hmm, hrew.other k hk hout]⟩, hmm]
  constructor
  · intro h k prot hlo hk hwant
    obtain ⟨f, hf, hpte⟩ := hrew.inside k hlo hk
    exact (allows_copied hf q.flags hw).mp (h k (by omega) ⟨hlo, hk⟩ _ prot hpte hwant)
  intro h k hk hin e prot hpte hwant
  obtain ⟨f, hf, hpte'⟩ := hrew.inside k hin.1 hin.2
  obtain rfl := Option.some.inj (hpte'.symm.trans hpte)
  exact (allows_copied hf q.flags hw).mpr (h k prot hin.1 hin.2 hwant)

lemma Enforced.sameMap (he : Enforced g) (hpgdir : s'.mm.pgdir = g.sys.mm.pgdir)
    (hsame : SameMap g.sys.phys s'.phys g.sys.mm.pgdir) : Enforced ⟨s', g.want⟩ :=
  enforced_of_cleared he hpgdir fun k hk => .inl (hsame k hk)

/-- A child, all of whose entries are `PTE_UDATA`, allows no more than asked exactly if writing and
executing were asked everywhere. -/
lemma child_enforced_iff {p : Phys} {child : Nat} (hpgdir : s'.mm.pgdir = child)
    (hphys : s'.phys = p)
    (hentry : ∀ k < npages,
      (g.sys.IsMapped k → ∃ f < 2 ^ 36, pte p.mem child k = some (mkPte f pteUdata)) ∧
        (¬ g.sys.IsMapped k → pte p.mem child k = none)) :
    Enforced ⟨s', g.want⟩ ↔ ∀ k < npages, ∀ prot, g.sys.IsMapped k → g.want k = some prot →
      has prot protWrite ∧ has prot protExec := by
  constructor
  · intro h k hk prot hmap hwant
    obtain ⟨f, hf, hpte⟩ := (hentry k hk).1 hmap
    refine (allows_udata hf).mp (h k hk _ prot ?_ hwant)
    dsimp only
    rw [hpgdir, hphys, hpte]
  intro h k hk e prot hpte hwant
  dsimp only at hpte hwant
  rw [hpgdir, hphys] at hpte
  by_cases hmap : g.sys.IsMapped k
  · obtain ⟨hw, hx⟩ := h k hk prot hmap hwant
    exact .of_full hw hx e
  · rw [(hentry k hk).2 hmap] at hpte
    cases hpte

/-- **One event**: the regions stay in order, and the entries allow no more than asked exactly under
the condition. -/
theorem happen_spec (h : MmapOk kend g.sys) {ev : Event} (hs : Sound kend g ev) :
    MmapOk kend (happen kend g ev).sys ∧
      (Enforced g → (Enforced (happen kend g ev) ↔ Fits g ev)) := by
  cases ev with
  | mmap env addr length prot flags fd file offset =>
    cases hargs : mmapArgs addr length prot flags fd file offset with
    | error e =>
      have hneg : -(e : Int) < 0 := by
        have := mmapArgs_error hargs
        omega
      have hrun : happen kend g (.mmap env addr length prot flags fd file offset) = g := by
        simp only [happen, hargs, sysMmap]
        show (⟨g.sys, wanted g.want length prot (-e)⟩ : Guarded) = g
        rw [wanted_failed hneg]
      rw [hrun]
      refine ⟨h, fun he => iff_of_true he fun a ha => ?_⟩
      rw [hargs] at ha
      cases ha
    | ok a =>
      obtain ⟨hint, hload⟩ := hs a hargs
      obtain ⟨hok, rfl, rfl⟩ := mmapArgs_ok hargs
      have hfits : Fits g (.mmap env addr a.length a.prot flags fd file offset) ↔
          FitsArgs g env a := by
        refine ⟨fun hfit => hfit a hargs, fun hfit a' ha' => ?_⟩
        obtain rfl := Except.ok.inj (hargs.symm.trans ha')
        exact hfit
      have hspec := mmap_entries h hok hint hload
      rw [hfits]
      simp only [happen, hargs, sysMmap]
      unfold Ends at hspec
      rcases hrun : mmap kend env a g.sys with ⟨r, s'⟩ | ⟨err, s'⟩
      · rw [hrun] at hspec
        obtain ⟨hok', hpgdir, hent⟩ := hspec
        exact ⟨hok', fun he => hent.enforced_iff he hpgdir hok hint⟩
      rw [hrun] at hspec
      refine ⟨h, fun he => iff_of_true he ?_⟩
      unfold FitsArgs
      rw [hspec.1]
      exact fun hwhole => absurd hwhole hspec.2
  | fault env dfs far =>
    have hspec := pfHandler_spec h env dfs far
    unfold Ends at hspec
    simp only [happen, Fits]
    cases hrun : pfHandler kend env dfs far g.sys with
    | ok r s' =>
      rw [hrun] at hspec
      obtain ⟨hok, hmm, ⟨hsame, hwhy⟩ | ⟨q, hdfs, hq, hrew⟩⟩ := hspec
      · refine ⟨hok, fun he => iff_of_true (he.sameMap (by rw [hmm]) hsame) fun hdfs q hq => ?_⟩
        rcases hwhy with hle | hnone
        · omega
        · rw [hnone] at hq
          cases hq
      obtain ⟨hin, hw⟩ := writtenRegion_some hq
      have htop := (h.region q hin).top
      have hlen := (h.region q hin).length
      have hnp := usertop_eq
      refine ⟨hok, fun he => (hrew.enforced_iff hw he hmm (by omega)).trans ?_⟩
      refine ⟨fun hall _ q' hq' => ?_, fun hall => hall hdfs q hq⟩
      obtain rfl := Option.some.inj (hq.symm.trans hq')
      exact hall
    | error err s' =>
      rw [hrun] at hspec
      exact ⟨h, fun he => iff_of_true he fun hdfs => absurd hdfs (by omega)⟩
  | fork child =>
    obtain ⟨⟨kstack, pgdir⟩, p, hrun, hparent, hsame, hchild, hentry⟩ :=
      (fork_entries h hs).returns
    simp only [happen, Fits, hrun]
    rcases child with - | -
    · exact ⟨hparent, fun he => iff_of_true (he.sameMap rfl hsame) fun hno => nomatch hno⟩
    have hpgdir : (childMm g.sys.mm pgdir).pgdir = pgdir := by
      unfold childMm
      split <;> rfl
    refine ⟨hchild, fun _ => (child_enforced_iff hpgdir rfl hentry).trans ?_⟩
    exact ⟨fun hall _ => hall, fun hall => hall rfl⟩

/-- **Page protections over a run**: as long as the rest of the kernel does its part, the entries
allow no more than asked for in every state exactly if every event meets the condition. -/
theorem protection_enforced_iff (h : MmapOk kend g.sys) (he : Enforced g) {evs : List Event}
    (hs : RunOk (happen kend) (Sound kend) g evs) :
    RunAll (happen kend) Enforced g evs ↔ RunOk (happen kend) Fits g evs :=
  runAll_iff_runOk_of_pre (I := fun g => MmapOk kend g.sys) (fun _ _ hok hsound =>
    (happen_spec hok hsound).1) (fun _ _ hok hen hsound => (happen_spec hok hsound).2 hen) h he hs

/-- **The address space over a run** of `mmap`, faults and forks: in every state the regions are in
order and mapped, and the page tables and the reference counts agree. -/
theorem address_space_kept (h : MmapOk kend g.sys) {evs : List Event}
    (hs : RunOk (happen kend) (Sound kend) g evs) :
    RunAll (happen kend) (fun g => MmapOk kend g.sys) g evs :=
  hs.runAll (fun _ _ hok hsound => (happen_spec hok hsound).1) h

end step

/-! ### A process without regions -/

def guardedStart : Guarded := ⟨startSys, fun _ => none⟩

lemma guardedStart_enforced : Enforced guardedStart := fun _ _ _ _ _ hwant => nomatch hwant

/-- `mmap(addr, 4096, prot, MAP_PRIVATE | MAP_ANONYMOUS | flags, -1, 0)`. -/
def mapPage1 (addr : Nat) (prot flags : BitVec 32) : Event :=
  .mmap quiet addr 4096 prot (mapPrivate ||| mapAnonymous ||| flags) (-1) none 0

/-- A page for everything, a write fault on it, and a fork. -/
def mapAndFork : List Event :=
  [mapPage1 0 (protRead ||| protWrite ||| protExec) 0, .fault quiet 15 mmapbase, .fork true]

lemma mapAndFork_sound : RunOk (happen 16) (Sound 16) guardedStart mapAndFork := by
  refine ⟨fun a ha => ?_, trivial, ?_, trivial⟩
  · cases ha
    refine ⟨fun hne => absurd rfl hne, fun base hbase _ _ => ?_⟩
    cases hbase
    decide +kernel
  · unfold Sound
    decide +kernel

/-- The run of the example. -/
theorem address_space_kept_mapAndFork :
    RunAll (happen 16) (fun g => MmapOk 16 g.sys) guardedStart mapAndFork :=
  address_space_kept startSys_ok mapAndFork_sound

lemma mapAndFork_want {k : Nat} {p : BitVec 32}
    (h : (happen 16 guardedStart (mapPage1 0 (protRead ||| protWrite ||| protExec) 0)).want k =
      some p) : has p protWrite ∧ has p protExec := by
  simp only [mapPage1, happen] at h
  split at h
  · dsimp only [wanted] at h
    split at h <;> cases h
    decide
  · cases h

/-- The events of the example meet the condition. -/
lemma mapAndFork_fits : RunOk (happen 16) Fits guardedStart mapAndFork := by
  refine ⟨fun a ha => ?_, fun _ r _ k p _ _ hwant => ?_, fun _ k _ p _ hwant => ?_, trivial⟩
  · have hprot := (mmapArgs_ok ha).2.2
    unfold FitsArgs
    split
    · trivial
    · next hc =>
      rw [(chooseAddr_protect hc).2.2] at hprot
      exact absurd hprot (by decide)
    intro _ _
    rw [hprot]
    decide
  · have hfull := mapAndFork_want hwant
    exact ⟨hfull.1, fun _ => hfull.2⟩
  · simp only [happen] at hwant
    exact mapAndFork_want (by split at hwant <;> exact hwant)

/-- The run of the example. -/
theorem protection_enforced_mapAndFork : RunAll (happen 16) Enforced guardedStart mapAndFork :=
  (protection_enforced_iff startSys_ok guardedStart_enforced mapAndFork_sound).mpr mapAndFork_fits

lemma not_enforced {g : Guarded} {k : Nat} {e : Word} {p : BitVec 32} (hk : k < npages)
    (he : pte g.sys.phys.mem g.sys.mm.pgdir k = some e) (hwant : g.want k = some p)
    (hbad : ¬ (UserWritable e → has p protWrite) ∨ ¬ (UserAccessible e → p ≠ protNone)) :
    ¬ Enforced g := fun h =>
  hbad.elim (fun hno => hno (h k hk e p he hwant).write)
    fun hno => hno (h k hk e p he hwant).access

/-- **Protections are not enforced**: a page mapped with `PROT_READ` can be written, and a page
changed to `PROT_NONE` can be accessed after a fault, and in the child of a fork. -/
theorem protection_ignored : ¬ RunAll (happen 16) Enforced guardedStart [mapPage1 0 protRead 0] ∧
    ¬ RunAll (happen 16) Enforced guardedStart [mapPage1 0 (protRead ||| protWrite) 0,
      mapPage1 mmapbase protNone mapFixed, .fault quiet 15 mmapbase] ∧
    ¬ RunAll (happen 16) Enforced guardedStart [mapPage1 0 (protRead ||| protWrite) 0,
      mapPage1 mmapbase protNone mapFixed, .fork true] := by
  refine ⟨fun h => ?_, fun h => ?_, fun h => ?_⟩
  · exact not_enforced (k := mmapbase / 4096) (e := mkPte 30 pteUdata) (p := protRead) (by decide)
      (by decide +kernel) (by decide +kernel) (by decide) h.last
  · exact not_enforced (k := mmapbase / 4096) (e := mkPte 34 (getPerm 3 0x22 &&& ~~~ pteRo))
      (p := protNone) (by decide) (by decide +kernel) (by decide +kernel) (.inr (by decide)) h.last
  · exact not_enforced (k := mmapbase / 4096) (e := mkPte 36 pteUdata) (p := protNone) (by decide)
      (by decide +kernel) (by decide +kernel) (.inr (by decide)) h.last

end RpiOs.Mmap
