import RpiOs.Mmap.Model

/-!
# Loading the pages of a mapping

`mmap_load_pages` maps a new frame at every page of the range, or fails and leaves the finite map as
it was.
-/

namespace RpiOs.Mmap

open Lib Lib.Radix Vm

variable {kend root vpn i : Nat} {s : Phys} {I : Nat → Phys → Prop} {R : Fault → Phys → Prop}
  {addr length : Nat}

/-- One page: mapped to a new frame, or nothing happened. -/
theorem mapFresh_spec (h : SpaceOk kend s root) (hvpn : vpn < npages)
    (content : Except Nat (Nat → Word)) : Ends (mapFresh kend root (vpn * 4096) content) s
      (fun _ s' => SpaceOk kend s' root ∧ pte s.mem root vpn = none ∧ ∃ np < 2 ^ 36, ∀ k < npages,
        pte s'.mem root k = if k = vpn then some (mkPte np pteUdata) else pte s.mem root k)
      fun err s' => (∃ e, err = .errno e) ∧ SpaceOk kend s' root ∧ SameMap s s' root := by
  unfold mapFresh
  refine (kalloc_spec s).bind ?_
  rintro r s1 ⟨hmem, ⟨rfl, _, rfl⟩ | ⟨np, rfl, htook⟩⟩
  · exact ⟨⟨_, rfl⟩, h, fun _ _ => rfl⟩
  cases content with
  | error e =>
    obtain ⟨hpend, hsame⟩ := h.pending htook fun f _ => by rw [hmem]
    dsimp only
    refine hpend.kfree.bind ?_
    rintro - s2 ⟨hsp, hsame'⟩
    exact ⟨⟨_, rfl⟩, hsp, fun k hk => (hsame' k hk).trans (hsame k hk)⟩
  | ok words => ?_
  have htook' := htook.trans (Took.of_mem s1 fun g => if g = np then words else s1.mem g)
    h.free.nodup
  obtain ⟨hpend, hsame⟩ := h.pending htook' fun f hf => by
    rw [Phys.setMem_mem, if_neg hf, hmem]
  have hnp : np < 2 ^ 36 := h.free.frame_lt (htook.mem (by simp))
  simp only [ends_bind, ends_modify, uvmMap_page hvpn hnp, ends_tryCatch]
  refine (hpend.mapPage hvpn).mono ?_ ?_
  · rintro - s2 ⟨hsp, hnone, hpte⟩
    refine ⟨hsp, by rw [← hsame vpn hvpn, hnone], np, hnp, fun k hk => ?_⟩
    rw [hpte k hk, hsame k hk]
  rintro err s2 ⟨rfl, hpend', hsame', _⟩
  unfold undoPage
  refine hpend'.kfree.bind ?_
  rintro - s3 ⟨hsp, hsame''⟩
  refine ⟨⟨_, rfl⟩, hsp, fun k hk => ?_⟩
  rw [hsame'' k hk, hsame' k hk, hsame k hk]

/-- The pages of the range got mapped on top of `s`, and no others. -/
structure Loaded (kend : Nat) (s s' : Phys) (root p n : Nat) : Prop where
  space : SpaceOk kend s' root
  fresh : ∀ k, p ≤ k → k < p + n → pte s.mem root k = none
  mapped : ∀ k, p ≤ k → k < p + n → (pte s'.mem root k).isSome
  other : ∀ k < npages, ¬ (p ≤ k ∧ k < p + n) → pte s'.mem root k = pte s.mem root k

lemma Loaded.refl (h : SpaceOk kend s root) (p : Nat) : Loaded kend s s root p 0 :=
  ⟨h, fun _ _ _ => by omega, fun _ _ _ => by omega, fun _ _ _ => rfl⟩

/-- One more page is loaded. -/
lemma Loaded.succ {s1 s2 : Phys} {p n : Nat} (h : Loaded kend s s1 root p n) (hp : p + n < npages)
    (hsp : SpaceOk kend s2 root) (hnone : pte s1.mem root (p + n) = none) {e : Word}
    (hpte : ∀ k < npages, pte s2.mem root k = if k = p + n then some e else pte s1.mem root k) :
    Loaded kend s s2 root p (n + 1) := by
  refine ⟨hsp, fun k hk hk' => ?_, fun k hk hk' => ?_, fun k hk hout => ?_⟩
  · by_cases heq : k = p + n
    · rw [heq, ← h.other _ hp (by omega), hnone]
    · exact h.fresh k hk (by omega)
  · rw [hpte k (by omega)]
    split
    · rfl
    · exact h.mapped k hk (by omega)
  · rw [hpte k hk, if_neg (by omega)]
    exact h.other k hk (by omega)

/-- The pages loaded so far are taken back. -/
lemma Loaded.undo {s1 : Phys} {p n : Nat} (h : Loaded kend s s1 root p n) (hp : p + n ≤ npages) :
    Ends (uvmUnmap kend root (p * 4096) n) s1
      (fun _ s' => SpaceOk kend s' root ∧ SameMap s s' root) := by
  have htop := usertop_eq
  have hdiv : p * 4096 / 4096 = p := by omega
  refine (uvmUnmap_spec h.space (by omega) (by omega) fun i hi => ?_).imp ?_
  · rw [hdiv]
    exact h.mapped _ (by omega) (by omega)
  rintro - s' ⟨hsp, hpte⟩
  refine ⟨hsp, fun k hk => ?_⟩
  rw [hpte k hk, hdiv]
  split
  · next hin => rw [h.fresh k hin.1 hin.2]
  · next hout => exact h.other k hk hout

lemma add64_pages {p : Nat} (h : p + i < npages) :
    add64 (p * 4096) (i * 4096) = (p + i) * 4096 := by
  have hnp : npages = 2 ^ 36 := by decide
  unfold add64
  omega

/-- So a failure leaves the map as it was. -/
lemma Loaded.undoPages {s1 : Phys} (h : Loaded kend s s1 root (addr / 4096) i)
    (haddr : addr % 4096 = 0) (hi : addr / 4096 + i ≤ npages) (e : Nat)
    : Ends (undoPages kend root addr i (.errno e)) s1 ⊥
      fun err s' => (∃ e, err = .errno e) ∧ SpaceOk kend s' root ∧ SameMap s s' root := by
  simp only [Mmap.undoPages]
  by_cases hzero : i = 0
  · rw [if_pos hzero]
    exact ⟨⟨_, rfl⟩, h.space, fun k hk => h.other k hk (by omega)⟩
  rw [if_neg hzero, show addr = addr / 4096 * 4096 by omega]
  exact (h.undo hi).bind fun _ _ hs => ⟨⟨_, rfl⟩, hs⟩

lemma undoPages_throws (pgdir addr i : Nat) (err : Fault) (s : Phys) :
    Ends (undoPages kend pgdir addr i err) s ⊥ ⊤ := by
  cases err with
  | errno e =>
    simp only [undoPages]
    split
    · trivial
    · exact (ends_trivial _).step (fun _ _ _ => trivial)
  | panic | null | hang => trivial

/-- **The loop of `map_anon_pages` and `map_file_pages`**: what every page keeps, holds after it. -/
lemma mapPages_inv {content : Nat → Except Nat (Nat → Word)} {p : Nat} (n : Nat) (h : I i s)
    (hp : p + i + n ≤ npages)
    (hstep : ∀ i s, I i s → p + i < npages →
    Ends (mapFresh kend root ((p + i) * 4096) (content i)) s
      (fun _ s' => I (i + 1) s') fun err s' => Ends (undoPages kend root (p * 4096) i err) s' ⊥ R) :
    Ends (mapPages kend root (p * 4096) content i n) s (fun _ s' => I (i + n) s') R := by
  induction n generalizing i s with
  | zero => exact h
  | succ n ih => ?_
  unfold mapPages
  rw [ends_bind, ends_tryCatch, add64_pages (by omega)]
  refine (hstep i s h (by omega)).mono (fun _ s1 h1 => ?_) fun err s1 h1 =>
    h1.imp fun _ _ hf => hf.elim
  have hnext := ih h1 (by omega)
  rwa [show i + 1 + n = i + (n + 1) by omega] at hnext

variable (haddr : addr % 4096 = 0) (htop : addr + (length + 4095) / 4096 * 4096 ≤ usertop)
include haddr htop

/-- The same for `mmap_load_pages`, with whatever content it finds. -/
lemma mmapLoadPages_inv (h : I 0 s) (env : Env) {flags : BitVec 32} {f : Option Nat} (offset : Nat)
    (hf : (has flags mapAnonymous = true ∨ f.isSome) ∨ R .panic s)
    (hstep : ∀ content i s, I i s → addr / 4096 + i < npages →
      Ends (mapFresh kend root ((addr / 4096 + i) * 4096) content) s (fun _ s' => I (i + 1) s')
        fun err s' => Ends (undoPages kend root addr i err) s' ⊥ R) :
    Ends (mmapLoadPages kend env root addr length flags f offset) s
      (fun _ s' => I ((length + 4095) / 4096) s') R := by
  have hnp := usertop_eq
  have hpage : addr / 4096 * 4096 = addr := by omega
  have hpages := fun (content : Nat → Except Nat (Nat → Word)) =>
    mapPages_inv (p := addr / 4096) ((length + 4095) / 4096) h (by omega)
      fun i => by rw [hpage]; exact hstep (content i) i
  rw [hpage, Nat.zero_add] at hpages
  unfold mmapLoadPages
  cases hanon : has flags mapAnonymous with
  | true => exact hpages _
  | false =>
    cases f with
    | none => exact hf.resolve_left (by simp [hanon])
    | some g => exact hpages _

/-- **`mmap_load_pages`** in user space. The entries are `PTE_UDATA`, whatever was asked for. -/
theorem mmapLoadPages_spec (h : SpaceOk kend s root) (env : Env)
    {flags : BitVec 32} {f : Option Nat} (offset : Nat)
    (hf : has flags mapAnonymous = true ∨ f.isSome) :
    Ends (mmapLoadPages kend env root addr length flags f offset) s
      (fun _ s' => Loaded kend s s' root (addr / 4096) ((length + 4095) / 4096) ∧
      ∀ k, addr / 4096 ≤ k →
        k < addr / 4096 + (length + 4095) / 4096 →
          ∃ np < 2 ^ 36, pte s'.mem root k = some (mkPte np pteUdata))
      fun err s' => (∃ e, err = .errno e) ∧ SpaceOk kend s' root ∧ SameMap s s' root := by
  refine mmapLoadPages_inv (I := fun i s' => Loaded kend s s' root (addr / 4096) i ∧
    ∀ k, addr / 4096 ≤ k →
    k < addr / 4096 + i → ∃ np < 2 ^ 36, pte s'.mem root k = some (mkPte np pteUdata)) haddr htop
    ⟨.refl h _, fun _ _ _ => by omega⟩ env offset (.inl hf) fun content i s1 hI hi => ?_
  obtain ⟨hl, hudata⟩ := hI
  refine (mapFresh_spec hl.space hi content).mono ?_ ?_
  · rintro - s2 ⟨hsp, hnone, np, hnp, hpte⟩
    refine ⟨hl.succ hi hsp hnone hpte, fun k hk hk' => ?_⟩
    rw [hpte k (by omega)]
    split
    · exact ⟨np, hnp, rfl⟩
    · exact hudata k hk (by omega)
  · rintro _ s2 ⟨⟨e, rfl⟩, hsp, hsame⟩
    refine Loaded.undoPages ⟨hsp, hl.fresh, fun k hk hk' => ?_, fun k hk hout => ?_⟩ haddr hi.le e
    · rw [hsame k (by omega)]
      exact hl.mapped k hk hk'
    · rw [hsame k hk]
      exact hl.other k hk hout

end RpiOs.Mmap
