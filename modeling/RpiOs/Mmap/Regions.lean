import Mathlib.Data.List.Sort
import RpiOs.Mmap.Load

/-!
# The list of regions

`MmapOk`: the list is sorted, its regions are pairwise disjoint and made of whole pages, its length
is `nregions`, and every page of every region is mapped.

* `MmapOk.link`, `MmapOk.unlink`, `MmapOk.shrink`: what the calls do to the list keeps it, when the
  page tables follow.
-/

namespace RpiOs.Mmap

open Lib Lib.Radix Vm

/-! ## Lists kept in an order -/

section order

variable {α : Type*} {before r : α → α → Prop} [DecidableRel r] {a : α} {l : List α}

/-- Insertion at the place that `r` finds keeps a list in the order `before`, when `r` decides
`before` on the elements of the list. -/
lemma pairwise_orderedInsert (htrans : ∀ a b c, before a b → before b c → before a c)
    (hr : ∀ b ∈ l, if r a b then before a b else before b a) (hl : l.Pairwise before) :
    (l.orderedInsert r a).Pairwise before := by
  induction l with
  | nil => exact List.pairwise_singleton _ _
  | cons b rest ih => ?_
  obtain ⟨hb, hrest⟩ := List.pairwise_cons.mp hl
  have hab := hr b (List.mem_cons_self ..)
  rw [List.orderedInsert_cons]
  split at hab <;> rename_i hc
  · rw [if_pos hc]
    refine List.pairwise_cons.mpr ⟨fun c hin => ?_, hl⟩
    rcases List.mem_cons.mp hin with rfl | hin
    · exact hab
    · exact htrans _ _ _ hab (hb c hin)
  rw [if_neg hc]
  refine List.pairwise_cons.mpr ⟨fun c hin => ?_, ih (fun c hin => hr c (by simp [hin])) hrest⟩
  rcases List.mem_orderedInsert r |>.mp hin with rfl | hin
  · exact hab
  · exact hb c hin

end order

/-! ## The invariant -/

/-- Whole pages of the user's space, at least one. -/
structure RegionOk (r : Region) : Prop where
  addr : r.addr % 4096 = 0
  length : r.length % 4096 = 0
  pos : 0 < r.length
  top : r.addr + r.length ≤ usertop

/-- The region ends where the other starts, or before. -/
def Before (r q : Region) : Prop := r.addr + r.length ≤ q.addr

/-- The number of a page of the region. -/
def HasPage (r : Region) (k : Nat) : Prop := r.addr ≤ k * 4096 ∧ k * 4096 < r.addr + r.length

/-- The page is mapped. -/
def Sys.IsMapped (s : Sys) (k : Nat) : Prop := (pte s.phys.mem s.mm.pgdir k).isSome

/-- The invariant. -/
structure MmapOk (kend : Nat) (s : Sys) : Prop where
  space : SpaceOk kend s.phys s.mm.pgdir
  region : ∀ r ∈ s.mm.regions, RegionOk r
  sorted : s.mm.regions.Pairwise Before
  count : s.mm.regions.length = s.mm.nregions
  mapped : ∀ r ∈ s.mm.regions, ∀ k, HasPage r k → s.IsMapped k

lemma MmapOk.start {kend : Nat} {s : Sys} (h : SpaceOk kend s.phys s.mm.pgdir)
    (hr : s.mm.regions = []) (hn : s.mm.nregions = 0) : MmapOk kend s := by
  refine ⟨h, ?_, ?_, ?_, ?_⟩ <;> simp [hr, hn]

section list

variable {kend : Nat} {s : Sys} {region r : Region} {rs seen : List Region} {q : Region} {s' : Sys}

/-- The order in which `mmap` links regions. -/
def addrLt (r q : Region) : Prop := r.addr < q.addr

instance : DecidableRel addrLt := fun r q => inferInstanceAs (Decidable (r.addr < q.addr))

/-- The loop of `mmap` is an insertion, if the region does not go before a node after the first. -/
lemma linkFrom_eq (hne : rs ≠ []) (hseen : seen = [] ∨ ∀ q ∈ rs.head?, q.addr < region.addr)
    (hdist : ∀ q ∈ rs, q.addr ≠ region.addr) :
    linkFrom region seen rs = seen ++ rs.orderedInsert addrLt region := by
  induction rs generalizing seen with
  | nil => exact absurd rfl hne
  | cons node rest ih => ?_
  have hnode := hdist node (List.mem_cons_self ..)
  unfold linkFrom
  rw [List.orderedInsert_cons]
  by_cases hlt : region.addr < node.addr
  · -- only the first node is compared without a look at the one before
    rcases hseen with rfl | hseen
    · rw [if_pos hlt, if_pos (show addrLt region node from hlt), List.nil_append]
    · have := hseen node rfl
      omega
  rw [if_neg hlt, if_neg (show ¬ addrLt region node from hlt)]
  rcases rest with - | ⟨next, rest⟩
  · simp
  by_cases hnext : region.addr < next.addr
  · rw [if_pos ⟨by omega, by simpa using hnext⟩, List.orderedInsert_cons,
      if_pos (show addrLt region next from hnext)]
  rw [if_neg (by simpa using fun _ => Nat.le_of_not_lt hnext), if_neg (by simp),
    ih (by simp) (.inr ?_) fun q hq => hdist q (List.mem_cons_of_mem _ hq)]
  · simp
  have := hdist next (by simp)
  rintro q ⟨⟩
  omega

lemma linkRegion_eq (hcount : s.mm.regions.length = s.mm.nregions)
    (hdist : ∀ q ∈ s.mm.regions, q.addr ≠ region.addr) :
    linkRegion s.mm region = s.mm.regions.orderedInsert addrLt region := by
  unfold linkRegion
  by_cases hzero : s.mm.nregions = 0
  · rw [if_pos hzero, List.length_eq_zero_iff.mp (hcount.trans hzero)]
    rfl
  · rw [if_neg hzero, linkFrom_eq (fun hnil => hzero (by rw [← hcount, hnil]; rfl))
      (.inl rfl) hdist, List.nil_append]

/-- Of two regions without a common page, one lies before the other. -/
lemma before_of_disjoint (hq : RegionOk q) (hr : RegionOk r)
    (hdisj : ∀ k, HasPage q k → ¬ HasPage r k) :
    if addrLt r q then Before r q else Before q r := by
  have h1 := hdisj (q.addr / 4096)
  have h2 := hdisj (r.addr / 4096)
  have hq1 := hq.addr
  have hq2 := hq.length
  have hq3 := hq.pos
  have hr1 := hr.addr
  have hr2 := hr.length
  have hr3 := hr.pos
  unfold HasPage at h1 h2
  split
  all_goals
    next hlt =>
      unfold addrLt at hlt
      unfold Before
      omega

lemma MmapOk.page_lt (h : MmapOk kend s) (hr : r ∈ s.mm.regions) {k : Nat} (hk : HasPage r k) :
    k < npages := by
  have htop := (h.region r hr).top
  have hnp := usertop_eq
  unfold HasPage at hk
  omega

/-- **A region whose pages are mapped now and were not before is linked**. -/
theorem MmapOk.link (h : MmapOk kend s) (hr : RegionOk region)
    (hspace : SpaceOk kend s'.phys s'.mm.pgdir)
    (hnew : ∀ k, HasPage region k → ¬ s.IsMapped k ∧ s'.IsMapped k)
    (hkeep : ∀ k < npages, s.IsMapped k → s'.IsMapped k)
    (hregions : s'.mm.regions = linkRegion s.mm region)
    (hcount : s'.mm.nregions = s.mm.nregions + 1) :
    MmapOk kend s' ∧ s'.mm.regions.Perm (region :: s.mm.regions) := by
  have hcmp : ∀ q ∈ s.mm.regions, if addrLt region q then Before region q else Before q region :=
    fun q hq => before_of_disjoint (h.region q hq) hr fun k hk hk' =>
      (hnew k hk').1 (h.mapped q hq k hk)
  have hdist : ∀ q ∈ s.mm.regions, q.addr ≠ region.addr := by
    intro q hq heq
    have hbefore := hcmp q hq
    rw [if_neg (by unfold addrLt; omega)] at hbefore
    have := (h.region q hq).pos
    unfold Before at hbefore
    omega
  have hperm : s'.mm.regions.Perm (region :: s.mm.regions) := by
    rw [hregions, linkRegion_eq h.count hdist]
    exact List.perm_orderedInsert ..
  refine ⟨⟨hspace, fun q hq => ?_, ?_, ?_, fun q hq k hk => ?_⟩, hperm⟩
  · rcases List.mem_cons.mp (hperm.mem_iff.mp hq) with rfl | hq
    · exact hr
    · exact h.region q hq
  · rw [hregions, linkRegion_eq h.count hdist]
    refine pairwise_orderedInsert (fun a b c hab hbc => ?_) hcmp h.sorted
    unfold Before at *
    omega
  · rw [hperm.length_eq, List.length_cons, h.count, hcount]
  · rcases List.mem_cons.mp (hperm.mem_iff.mp hq) with rfl | hq
    · exact (hnew k hk).2
    · exact hkeep k (h.page_lt hq hk) (h.mapped q hq k hk)

/-! ### Regions that go or shrink -/

lemma findMmapRegion_some {addr : Nat} (hf : findMmapRegion rs addr = some r) :
    r ∈ rs ∧ r.addr ≤ addr ∧ addr < r.addr + r.length := by
  have hp := List.find?_some hf
  rw [decide_eq_true_eq] at hp
  exact ⟨List.mem_of_find?_eq_some hf, hp.1, hp.2.trans_le (Nat.mod_le ..)⟩

/-- One of the regions is before the other. -/
def Apart (r q : Region) : Prop := Before r q ∨ Before q r

instance : Std.Symm Apart := ⟨fun _ _ h => h.symm⟩

lemma MmapOk.apart (h : MmapOk kend s) (hr : r ∈ s.mm.regions)
    (hq : q ∈ s.mm.regions) (hne : r ≠ q) : Apart r q :=
  (h.sorted.imp (S := Apart) fun hab => .inl hab).forall hr hq hne

lemma Apart.disjoint (h : Apart r q) {k : Nat} (hk : HasPage q k) : ¬ HasPage r k := by
  unfold Apart Before at h
  unfold HasPage at *
  omega

lemma MmapOk.eq_of_addr (h : MmapOk kend s) (hr : r ∈ s.mm.regions)
    (hq : q ∈ s.mm.regions) (heq : q.addr = r.addr) : q = r := by
  by_contra hne
  have hpos := (h.region r hr).pos
  have hpos' := (h.region q hq).pos
  have hapart := h.apart hq hr hne
  unfold Apart Before at hapart
  omega

lemma MmapOk.nodup (h : MmapOk kend s) : s.mm.regions.Nodup := by
  refine h.sorted.imp_of_mem fun {a b} ha _ hab heq => ?_
  have hpos := (h.region a ha).pos
  unfold Before at hab
  rw [heq] at hab hpos
  omega

/-- **A region goes away with its pages**. -/
theorem MmapOk.unlink (h : MmapOk kend s) (hr : r ∈ s.mm.regions)
    (hspace : SpaceOk kend s'.phys s'.mm.pgdir)
    (hkeep : ∀ k < npages, s.IsMapped k → ¬ HasPage r k → s'.IsMapped k)
    (hregions : s'.mm.regions = s.mm.regions.eraseP fun q => q.addr = r.addr)
    (hcount : s'.mm.nregions = s.mm.nregions - 1) : MmapOk kend s' := by
  obtain ⟨a, l1, l2, hl1, ha, hsplit, herase⟩ :=
    List.exists_of_eraseP (p := fun q : Region => decide (q.addr = r.addr)) hr (by simp)
  have har : a = r := h.eq_of_addr hr (by simp [hsplit]) (by simpa using ha)
  subst har
  have hsub : (l1 ++ l2).Sublist s.mm.regions := by
    rw [← herase]
    exact List.eraseP_sublist
  have hnd := h.nodup
  rw [hsplit, List.nodup_middle, List.nodup_cons] at hnd
  rw [herase] at hregions
  refine ⟨hspace, fun q hq => ?_, ?_, ?_, fun q hq k hk => ?_⟩
  · rw [hregions] at hq
    exact h.region q (hsub.subset hq)
  · rw [hregions]
    exact h.sorted.sublist hsub
  · have hlen := h.count
    rw [hsplit] at hlen
    simp only [List.length_append, List.length_cons] at hlen
    rw [hregions, hcount, List.length_append]
    omega
  rw [hregions] at hq
  have hin := hsub.subset hq
  have hne : a ≠ q := fun heq => hnd.1 (heq ▸ hq)
  exact hkeep k (h.page_lt hin hk) (h.mapped q hin k hk) ((h.apart hr hin hne).disjoint hk)

/-- In a list without repetition the first match is the only one. -/
lemma updateFirst_eq_map {g : Region → Region} (hnd : rs.Nodup) :
    updateFirst (fun q => decide (q = r)) g rs = rs.map fun q => if q = r then g q else q := by
  induction rs with
  | nil => rfl
  | cons q rest ih => ?_
  obtain ⟨hq, hrest⟩ := List.nodup_cons.mp hnd
  unfold updateFirst
  by_cases heq : q = r
  · have htail : rest.map (fun q => if q = r then g q else q) = rest := by
      refine (List.map_congr_left fun x hx => ?_).trans (List.map_id _)
      rw [if_neg (fun hx' => hq (by rw [heq, ← hx']; exact hx))]
      rfl
    rw [if_pos (by simpa using heq), List.map_cons, if_pos heq, htail]
  · rw [if_neg (by simpa using heq), List.map_cons, if_neg heq, ih hrest]

/-- **A region loses pages at its front**. -/
theorem MmapOk.shrink {n : Nat} (h : MmapOk kend s) (hr : r ∈ s.mm.regions)
    (hn : n % 4096 = 0) (hlt : n < r.length) (hspace : SpaceOk kend s'.phys s'.mm.pgdir)
    (hkeep : ∀ k < npages, s.IsMapped k →
      ¬ (r.addr ≤ k * 4096 ∧ k * 4096 < r.addr + n) → s'.IsMapped k)
    (hregions : s'.mm.regions = updateFirst (fun q => q = r) (cutFront n) s.mm.regions)
    (hcount : s'.mm.nregions = s.mm.nregions) : MmapOk kend s' := by
  have hok := h.region r hr
  have haddr : (cutFront n r).addr = r.addr + n := by
    have := hok.top
    unfold usertop at this
    unfold cutFront add64
    dsimp only
    omega
  have hlen : (cutFront n r).length = r.length - n := rfl
  rw [updateFirst_eq_map h.nodup] at hregions
  have hmem : ∀ q' ∈ s'.mm.regions, q' = cutFront n r ∨ q' ∈ s.mm.regions ∧ q' ≠ r := by
    intro q' hq'
    rw [hregions] at hq'
    obtain ⟨q, hq, rfl⟩ := List.mem_map.mp hq'
    split
    · next heq => exact .inl (by rw [heq])
    · next hne => exact .inr ⟨hq, hne⟩
  refine ⟨hspace, fun q hq => ?_, ?_, ?_, fun q hq k hk => ?_⟩
  · rcases hmem q hq with rfl | ⟨hq, -⟩
    · obtain ⟨h1, h2, h3, h4⟩ := hok
      exact ⟨by rw [haddr]; omega, by rw [hlen]; omega, by rw [hlen]; omega,
        by rw [haddr, hlen]; omega⟩
    · exact h.region q hq
  · rw [hregions, List.pairwise_map]
    refine h.sorted.imp_of_mem fun {a b} ha hb hab => ?_
    unfold Before at *
    split <;> split
    · next ha hb => rw [ha, hb] at hab; omega
    · next ha hb => rw [ha] at hab ⊢; rw [haddr, hlen]; omega
    · next ha hb => rw [hb] at hab ⊢; rw [haddr]; omega
    · exact hab
  · rw [hregions, List.length_map, h.count, hcount]
  · rcases hmem q hq with rfl | ⟨hq, hne⟩
    · unfold HasPage at hk
      rw [haddr, hlen] at hk
      have hk' : HasPage r k := ⟨by omega, by omega⟩
      exact hkeep k (h.page_lt hr hk') (h.mapped r hr k hk') (by omega)
    · refine hkeep k (h.page_lt hq hk) (h.mapped q hq k hk) fun hin => ?_
      exact (h.apart hr hq hne.symm).disjoint hk ⟨hin.1, by omega⟩

end list

end RpiOs.Mmap
