import RpiOs.Lib.Run
import RpiOs.Mmap.Regions

/-!
# `mmap` and `munmap` on the list of regions

* `mmap_regions_of_good`: the list is good over every run of calls that meet a condition.
* `mmap_address_free_iff`: when the address found for a mapping is free.
-/

namespace RpiOs.Mmap

open Lib Lib.Radix Vm

variable {kend : Nat} {s : Sys} {addr length : Nat} {prot flags : BitVec 32}
  {file : Option OpenFile}

@[simp] lemma ends_onFrames {α : Type} (x : V α) {Q : α → Sys → Prop} {R : Fault → Sys → Prop} :
    Ends (onFrames x) s Q R ↔
      Ends x s.phys (fun a p => Q a (s.setPhys p)) fun e p => R e (s.setPhys p) := by
  unfold Ends onFrames
  cases x s.phys <;> rfl

/-! ## The address -/

variable {a : MmapArgs} {rs : List Region} {n addr : Nat}

/-- The hint and the length stay below the end of user space. -/
def HintOk (a : MmapArgs) : Prop := a.addr ≠ 0 → (a.addr + 4095) / 4096 * 4096 + a.length ≤ usertop

lemma RegionOk.add64_eq {r : Region} (h : RegionOk r) :
    add64 r.addr r.length = r.addr + r.length := by
  have hle := h.top
  unfold usertop at hle
  unfold add64
  omega

/-- The search for an address stays on page boundaries and below the end of user space. -/
lemma selectAddr_spec (hrs : ∀ r ∈ rs, RegionOk r) (length : Nat)
    (haddr : addr % 4096 = 0) (hle : addr ≤ usertop) :
    selectAddr length rs addr % 4096 = 0 ∧ selectAddr length rs addr ≤ usertop := by
  induction rs generalizing addr with
  | nil => exact ⟨haddr, hle⟩
  | cons node rest ih => ?_
  obtain ⟨h1, h2, h3, h4⟩ := hrs node (List.mem_cons_self ..)
  have hright := (hrs node List.mem_cons_self).add64_eq
  unfold selectAddr
  split
  · exact ⟨haddr, hle⟩
  split
  · exact ⟨haddr, hle⟩
  refine ih (fun r hr => hrs r (List.mem_cons_of_mem _ hr)) ?_ ?_
  · rw [hright]
    split <;> omega
  · rw [hright]
    split <;> omega

/-- The search passes a region only to an address after it, and stops before the next. -/
lemma selectAddr_apart (hrs : ∀ r ∈ rs, RegionOk r) (hs : rs.Pairwise Before) (hn : n ≤ usertop)
    (hle : addr ≤ usertop) : addr ≤ selectAddr n rs addr ∧ ∀ r ∈ rs,
      selectAddr n rs addr + n ≤ r.addr ∨ r.addr + r.length ≤ selectAddr n rs addr := by
  induction rs generalizing addr with
  | nil => exact ⟨le_rfl, fun r hr => nomatch hr⟩
  | cons node rest ih => ?_
  obtain ⟨hnode, hrest⟩ := List.forall_mem_cons.mp hrs
  obtain ⟨hbefore, hs⟩ := List.pairwise_cons.mp hs
  have htop := hnode.top
  have hadd : add64 addr n = addr + n := by
    unfold usertop at hn hle
    unfold add64
    omega
  unfold selectAddr
  rw [hadd, hnode.add64_eq]
  dsimp only
  split_ifs with hlow hgap hmove
  · refine ⟨le_rfl, fun r hr => .inl ?_⟩
    rcases List.mem_cons.mp hr with rfl | hr
    · exact hlow
    · have hb : node.addr + node.length ≤ r.addr := hbefore r hr
      omega
  · refine ⟨le_rfl, List.forall_mem_cons.mpr ⟨.inr hgap.1, fun r hr => .inl ?_⟩⟩
    obtain - | ⟨next, rest⟩ := rest
    · cases hr
    have hnext : addr + n ≤ next.addr := by simpa using hgap.2
    rcases List.mem_cons.mp hr with rfl | hr
    · exact hnext
    · have hb : next.addr + next.length ≤ r.addr := (List.pairwise_cons.mp hs).1 r hr
      omega
  · obtain ⟨hge, hfree⟩ := ih hrest hs htop
    exact ⟨hmove.trans hge, List.forall_mem_cons.mpr ⟨.inr hge, hfree⟩⟩
  · obtain ⟨hge, hfree⟩ := ih hrest hs hle
    exact ⟨hge, List.forall_mem_cons.mpr ⟨.inr (by omega), hfree⟩⟩

/-- No region is as high as an address beyond the user's space. -/
lemma selectAddr_high (hrs : ∀ r ∈ rs, RegionOk r) (hhigh : usertop < addr) :
    selectAddr n rs addr = addr := by
  induction rs with
  | nil => rfl
  | cons node rest ih => ?_
  obtain ⟨hnode, hrest⟩ := List.forall_mem_cons.mp hrs
  have hlow : ¬ addr ≤ node.addr + node.length := by
    have := hnode.top
    omega
  unfold selectAddr
  dsimp only
  rw [hnode.add64_eq, if_neg hlow, ih hrest]
  split_ifs <;> rfl

lemma roundUp_eq (h : n + 4095 < 2 ^ 64) : roundUp n = (n + 4095) / 4096 * 4096 := by
  unfold roundUp add64
  rw [Nat.mod_eq_of_lt h]

lemma HintOk.upper (h : HintOk a) (hne : a.addr ≠ 0) :
    ¬ usertop < roundUp (add64 (roundUp a.addr) a.length) := by
  have hle := h hne
  have htop : usertop = 281474976710656 := by decide
  rw [roundUp_eq (n := a.addr) (by omega)]
  unfold add64
  rw [roundUp_eq (by omega)]
  omega

lemma chooseAddr_result (h : HintOk a) {mm : Mm} {r : Int} (hc : chooseAddr mm a = .result r) :
    r = -einval := by
  unfold chooseAddr at hc
  split_ifs at hc with hne hup
  · exact absurd hup (h.upper hne)
  all_goals
    cases hc
    rfl

lemma head_spec {mm : Mm} (hrs : ∀ r ∈ mm.regions, RegionOk r) :
    (mm.regions.head?.map Region.addr).getD mmapbase % 4096 = 0 ∧
      (mm.regions.head?.map Region.addr).getD mmapbase ≤ usertop := by
  cases hhead : mm.regions.head? with
  | none => decide
  | some r =>
    have hr := hrs r (List.mem_of_head? hhead)
    exact ⟨hr.addr, (Nat.le_add_right ..).trans hr.top⟩

/-- The address that is chosen is page-aligned and not above user space. -/
lemma chooseAddr_addr (h : HintOk a) {mm : Mm} (hrs : ∀ r ∈ mm.regions, RegionOk r)
    (hc : chooseAddr mm a = .addr addr) : addr % 4096 = 0 ∧ addr ≤ usertop := by
  unfold chooseAddr at hc
  split_ifs at hc with hne hup hfixed halign hprot hsame huse <;> cases hc
  · have hle := h hne
    omega
  · have hle := h hne
    have hdown : roundDown a.addr % 4096 = 0 ∧ roundDown a.addr ≤ usertop := by
      unfold roundDown
      omega
    exact selectAddr_spec hrs _ hdown.1 hdown.2
  · exact selectAddr_spec hrs _ (head_spec hrs).1 (head_spec hrs).2

/-- The first candidate of the search. -/
def firstAddr (mm : Mm) (a : MmapArgs) : Nat :=
  if a.addr ≠ 0 then roundDown a.addr else (mm.regions.head?.map Region.addr).getD mmapbase

lemma chooseAddr_of_not_fixed {m : Mm} (hfix : has a.flags mapFixed = false) : chooseAddr m a =
    if a.addr ≠ 0 ∧ usertop < roundUp (add64 (roundUp a.addr) a.length) then .result einval
    else .addr (selectAddr (roundUp a.length) m.regions (firstAddr m a)) := by
  unfold chooseAddr firstAddr
  rw [hfix]
  split_ifs <;> grind

/-! ## `mmap` -/

/-- What `sys_mmap` lets through. -/
structure ArgsOk (a : MmapArgs) : Prop where
  pos : 0 < a.length
  lt : a.length < 2 ^ 63
  file : has a.flags mapAnonymous = true ∨ a.f.isSome

/-- Arguments that pass the checks of `sys_mmap` are in order. -/
lemma mmapArgs_ok {fd : Int}
    {offset : Nat} (h : mmapArgs addr length prot flags fd file offset = .ok a) :
    ArgsOk a ∧ a.length = length ∧ a.prot = prot := by
  unfold mmapArgs at h
  split at h
  · next hanon =>
    split_ifs at h with h1 h2 h3 h4
    cases h
    exact ⟨⟨by dsimp only; omega, by dsimp only; omega, .inl hanon⟩, rfl, rfl⟩
  rcases file with - | file
  · cases h
  dsimp only at h
  split_ifs at h with h1 h2 h3 h4 h5
  cases h
  exact ⟨⟨by dsimp only; omega, by dsimp only; omega, .inr rfl⟩, rfl, rfl⟩

/-- A refusal by these checks has an error number. -/
lemma mmapArgs_error {fd : Int} {offset e : Nat}
    (h : mmapArgs addr length prot flags fd file offset = .error e) : 0 < e := by
  unfold mmapArgs at h
  split at h
  · split_ifs at h <;> cases h <;> decide
  cases file with
  | none => cases h; decide
  | some file =>
    dsimp only at h
    split_ifs at h <;> cases h <;> decide

/-- The answer of `mmap`: the address of a new region whose pages were free, or an error and nothing
changed. -/
inductive MmapOutcome (s : Sys) (r : Int) (s' : Sys) : Prop where
  | added (region : Region) (addr : r = region.addr) (aligned : region.addr % 4096 = 0)
      (regions : s'.mm.regions.Perm (region :: s.mm.regions))
      (count : s'.mm.nregions = s.mm.nregions + 1)
      (pages : ∀ k < npages, s'.IsMapped k ↔ s.IsMapped k ∨ HasPage region k)
  | failed (neg : r < 0) (regions : s'.mm.regions = s.mm.regions)
      (count : s'.mm.nregions = s.mm.nregions)
      (pages : ∀ k < npages, s'.IsMapped k ↔ s.IsMapped k)

/-- The frames after `kmalloc` of the node. -/
def afterNode (env : Env) (p : Phys) : Phys := p.setFree (p.freelist.drop env.nodeFrames)

lemma SpaceOk.afterNode {p : Phys} {root : Nat} (h : SpaceOk kend p root) (env : Env) :
    SpaceOk kend (afterNode env p) root := by
  have hsub : (p.freelist.drop env.nodeFrames).Sublist p.freelist := List.drop_sublist ..
  have hkeep : SpaceOk kend (Mmap.afterNode env p) root ∧ SameMap p _ root :=
    h.shrink (fun _ _ => rfl) (h.free.nodup.sublist hsub) hsub.subset fun _ _ _ _ => le_refl _
  exact hkeep.1

/-- The condition on `mmap`: the hint lies in user space, it is not a change of protection, and if
it comes to loading pages, every page is free, every frame is found and every read succeeds. -/
structure MmapGood (kend : Nat) (s : Sys) (env : Env) (a : MmapArgs) : Prop where
  hint : HintOk a
  not_protect : chooseAddr s.mm a ≠ .protect
  loads : ∀ addr, chooseAddr s.mm a = .addr addr → add64 addr (roundUp a.length) ≤ usertop →
    env.node = true → Ends (mmapLoadPages kend env s.mm.pgdir addr a.length a.flags a.f a.offset)
      (afterNode env s.phys) (fun _ _ => True)

variable {env : Env}

lemma MmapOk.setPhys (h : MmapOk kend s) {p : Phys} (hp : SpaceOk kend p s.mm.pgdir)
    (hsame : SameMap s.phys p s.mm.pgdir) :
    MmapOk kend (s.setPhys p) ∧ ∀ k < npages, (s.setPhys p).IsMapped k ↔ s.IsMapped k := by
  have hiff : ∀ k < npages, (s.setPhys p).IsMapped k ↔ s.IsMapped k := fun k hk => by
    unfold Sys.IsMapped
    rw [Sys.setPhys_phys, Sys.setPhys_mm, hsame k hk]
  exact ⟨⟨hp, h.region, h.sorted, h.count, fun r hr k hk =>
    (hiff k (h.page_lt hr hk)).mpr (h.mapped r hr k hk)⟩, hiff⟩

/-- What steps 2 to 4 of `mmap` did to the entries: new ones for the pages from `addr` on, or none
without a node. -/
def MappedAt (s : Sys) (env : Env) (length addr : Nat) (r : Int) (s' : Sys) : Prop :=
  if env.node = true then r = addr ∧
    (∀ k, addr / 4096 ≤ k → k < addr / 4096 + (length + 4095) / 4096 →
      ∃ f < 2 ^ 36, pte s'.phys.mem s.mm.pgdir k = some (mkPte f pteUdata)) ∧
    ∀ k < npages, ¬ (addr / 4096 ≤ k ∧ k < addr / 4096 + (length + 4095) / 4096) →
      pte s'.phys.mem s.mm.pgdir k = pte s.phys.mem s.mm.pgdir k
  else r < 0 ∧ ∀ k, pte s'.phys.mem s.mm.pgdir k = pte s.phys.mem s.mm.pgdir k

/-- **Steps 2 to 4 of `mmap`**. -/
theorem mapAt_spec (h : MmapOk kend s) (ha : ArgsOk a) (haddr : addr % 4096 = 0)
    (htop : addr + roundUp a.length ≤ usertop)
    (hload : env.node = true → Ends (mmapLoadPages kend env s.mm.pgdir addr a.length a.flags a.f
      a.offset) (afterNode env s.phys) (fun _ _ => True)) :
    Ends (mapAt kend env a addr) s (fun r s' => (MmapOk kend s' ∧ MmapOutcome s r s') ∧
      s'.mm.pgdir = s.mm.pgdir ∧ MappedAt s env a.length addr r s') := by
  have hspace := SpaceOk.afterNode h.space env
  have hround : roundUp a.length = (a.length + 4095) / 4096 * 4096 := roundUp_eq (by
    have := ha.lt
    omega)
  unfold mapAt allocNode MappedAt
  simp only [ends_bind, ends_onFrames, ends_modify, ends_pure]
  rcases hnode : env.node with - | -
  · obtain ⟨hok, hiff⟩ := h.setPhys hspace fun _ _ => rfl
    exact ⟨⟨hok, .failed (by decide) rfl rfl hiff⟩, rfl, by decide, fun _ => rfl⟩
  have hspec := (mmapLoadPages_spec haddr (by omega) hspace env a.offset ha.file).and (hload hnode)
  simp only [Bool.not_true, Bool.false_eq_true, if_false, ends_bind, ends_get, ends_set,
    ends_tryCatch, ends_onFrames, ends_modify, ends_pure]
  refine hspec.mono ?_ fun _ _ he => he.2.elim
  rintro - p ⟨⟨hl, hudata⟩, -⟩
  let region : Region := ⟨addr, roundUp a.length, a.offset, a.f, a.prot, a.flags⟩
  have hpage : ∀ k, HasPage region k ↔
      addr / 4096 ≤ k ∧ k < addr / 4096 + (a.length + 4095) / 4096 := fun k => by
    show addr ≤ k * 4096 ∧ k * 4096 < addr + roundUp a.length ↔ _
    omega
  have hr : RegionOk region := by
    have := ha.pos
    refine ⟨haddr, ?_, ?_, htop⟩
    · show roundUp a.length % 4096 = 0
      omega
    · show 0 < roundUp a.length
      omega
  have hmapped : ∀ k < npages, (pte p.mem s.mm.pgdir k).isSome ↔
      s.IsMapped k ∨ HasPage region k := by
    intro k hk
    by_cases hin : HasPage region k
    · have := (hpage k).mp hin
      exact iff_of_true (hl.mapped k this.1 this.2) (.inr hin)
    · rw [hl.other k hk (fun hin' => hin ((hpage k).mpr hin'))]
      exact (or_iff_left hin).symm
  have hlt : ∀ k, HasPage region k → k < npages := fun k hk => by
    have hnp := usertop_eq
    have := (hpage k).mp hk
    omega
  have hfree : ∀ k, HasPage region k → ¬ s.IsMapped k := fun k hk hmap => by
    have hin := (hpage k).mp hk
    have hnone : pte s.phys.mem s.mm.pgdir k = none := hl.fresh k hin.1 hin.2
    rw [Sys.IsMapped, hnone] at hmap
    cases hmap
  let s' : Sys := (s.setPhys p).setRegions (linkRegion s.mm region) (s.mm.nregions + 1)
  have hlink : MmapOk kend s' ∧ s'.mm.regions.Perm (region :: s.mm.regions) :=
    h.link hr hl.space
      (fun k hk => ⟨hfree k hk, (hmapped k (hlt k hk)).mpr (.inr hk)⟩)
      (fun k hk hmap => (hmapped k hk).mpr (.inl hmap)) rfl rfl
  exact ⟨⟨hlink.1, .added region rfl haddr hlink.2 rfl hmapped⟩, rfl, trivial, hudata, hl.other⟩

lemma add64_roundUp (ha : ArgsOk a) (hle : addr ≤ usertop) :
    add64 addr (roundUp a.length) = addr + roundUp a.length := by
  have hlt := ha.lt
  rw [roundUp_eq (by omega)]
  unfold usertop at hle
  unfold add64
  omega

/-- **`mmap`** under the condition. -/
theorem mmap_spec (h : MmapOk kend s) (ha : ArgsOk a) (hgood : MmapGood kend s env a) :
    Ends (mmap kend env a) s (fun r s' => MmapOk kend s' ∧ MmapOutcome s r s') := by
  unfold mmap
  rw [ends_bind, ends_get]
  cases hc : chooseAddr s.mm a with
  | result r =>
    obtain rfl := chooseAddr_result hgood.hint hc
    exact ⟨h, .failed (by decide) rfl rfl fun _ _ => Iff.rfl⟩
  | protect => exact absurd hc hgood.not_protect
  | addr addr => ?_
  obtain ⟨haddr, hle⟩ := chooseAddr_addr hgood.hint h.region hc
  have hsum := add64_roundUp ha hle
  dsimp only
  split
  · exact ⟨h, .failed (by decide) rfl rfl fun _ _ => Iff.rfl⟩
  · next htop =>
    exact (mapAt_spec h ha haddr (by omega) (hgood.loads addr hc (by omega))).mono
      (fun _ _ hpost => hpost.1) fun _ _ he => he

/-! ## `munmap` -/

variable {r : Region} {length : Nat}

/-- The state after a write-back, if one is made. -/
def afterWrite (s : Sys) (r : Region) (length : Nat) : Sys :=
  match writesBack r with
  | none => s
  | some f => s.addWrite ⟨f, r.addr, r.offset, length⟩

@[simp] lemma afterWrite_phys (length : Nat) : (afterWrite s r length).phys = s.phys := by
  unfold afterWrite
  cases writesBack r <;> rfl

@[simp] lemma afterWrite_mm (length : Nat) : (afterWrite s r length).mm = s.mm := by
  unfold afterWrite
  cases writesBack r <;> rfl

lemma ends_writeBack {Q : Bool → Sys → Prop} {R : Fault → Sys → Prop} :
    Ends (writeBack env r length) s Q R ↔
      Q (writesBack r = none ∨ 0 ≤ env.written) (afterWrite s r length) := by
  unfold writeBack afterWrite
  cases writesBack r with
  | none => simp
  | some f => simp only [ends_bind, ends_modify, ends_pure, reduceCtorEq, false_or]

lemma MmapOk.of_eq {s' : Sys} (h : MmapOk kend s) (hphys : s'.phys = s.phys) (hmm : s'.mm = s.mm) :
    MmapOk kend s' := by
  have hmap : ∀ k, s'.IsMapped k ↔ s.IsMapped k := fun k => by
    rw [Sys.IsMapped, hphys, hmm, ← Sys.IsMapped]
  refine ⟨by rw [hphys, hmm]; exact h.space, by rw [hmm]; exact h.region, by
    rw [hmm]; exact h.sorted, by rw [hmm]; exact h.count, fun r hr k hk => (hmap k).mpr ?_⟩
  rw [hmm] at hr
  exact h.mapped r hr k hk

/-- Taking the first pages of a region out of the page table. -/
lemma MmapOk.unmap (h : MmapOk kend s) (hr : r ∈ s.mm.regions) (hn : n * 4096 ≤ r.length) :
    Ends (uvmUnmap kend s.mm.pgdir r.addr n) s.phys (fun _ p => SpaceOk kend p s.mm.pgdir ∧
      ∀ k < npages, s.IsMapped k → ¬ (r.addr ≤ k * 4096 ∧ k * 4096 < r.addr + n * 4096) →
        (pte p.mem s.mm.pgdir k).isSome) := by
  obtain ⟨h1, h2, h3, h4⟩ := h.region r hr
  refine (uvmUnmap_spec h.space h1 (by omega) fun i hi => ?_).imp ?_
  · exact h.mapped r hr _ ⟨by omega, by omega⟩
  rintro - p ⟨hsp, hpte⟩
  refine ⟨hsp, fun k hk hmap hout => ?_⟩
  rw [hpte k hk, if_neg (by omega)]
  exact hmap

/-- The condition on `munmap`: if it gets to a region, the region goes as a whole, or from its
front, or nothing is asked for. -/
def MunmapGood (s : Sys) (env : Env) (addr length : Nat) : Prop :=
  ∀ r, findMmapRegion s.mm.regions addr = some r → writesBack r = none ∨ 0 ≤ env.written →
    r.length ≤ roundUp length ∨ addr = r.addr ∨ roundUp length = 0

section

variable (h : MmapOk kend s) (hr : r ∈ s.mm.regions)
include h hr

/-- Unmapping a whole region keeps the regions in order. -/
lemma unmapRegion_whole (addr : Nat) (hle : r.length ≤ length) :
    Ends (unmapRegion kend r addr length) s
      (fun _ s' => MmapOk kend s' ∧ s'.writes = s.writes) := by
  have hlen := (h.region r hr).length
  unfold unmapRegion
  simp only [if_pos hle, ends_bind, ends_get, ends_set, ends_onFrames, ends_modify, ends_pure]
  have hunmap := h.unmap hr (n := (r.length + 4095) / 4096) (by omega)
  refine hunmap.imp ?_
  rintro - p ⟨hsp, hkeep⟩
  refine ⟨h.unlink hr hsp (fun k hk hmap hout => hkeep k hk hmap fun hin => hout ?_) rfl rfl, rfl⟩
  exact ⟨hin.1, by omega⟩

/-- So does cutting off the front of one. -/
lemma unmapRegion_front (hlt : length < r.length) (hpages : length % 4096 = 0) :
    Ends (unmapRegion kend r r.addr length) s (fun _ s' => MmapOk kend s' ∧ s'.writes = s.writes ∧
      s'.mm.regions = updateFirst (fun q => q = r) (cutFront length) s.mm.regions) := by
  unfold unmapRegion
  simp only [if_neg (Nat.not_le.mpr hlt), ends_bind, ends_get, ends_onFrames, ends_modify,
    ends_pure]
  refine (h.unmap hr (n := length / 4096) (by omega)).imp ?_
  rintro - p ⟨hsp, hkeep⟩
  refine ⟨h.shrink hr hpages hlt hsp (fun k hk hmap hout =>
    hkeep k hk hmap fun hin => hout ?_) rfl rfl, rfl, rfl⟩
  exact ⟨hin.1, by omega⟩

/-- So does a length of 0, which takes no page. -/
lemma unmapRegion_nothing (haddr : addr % 4096 = 0) (hlt : addr < usertop) :
    Ends (unmapRegion kend r addr 0) s (fun _ s' => MmapOk kend s' ∧ s'.writes = s.writes) := by
  have hpos := (h.region r hr).pos
  unfold unmapRegion
  simp only [if_neg (Nat.not_le.mpr hpos), ends_bind, ends_get, ends_onFrames, ends_modify,
    ends_pure]
  have hunmap := uvmUnmap_spec (n := 0) h.space haddr (by omega) fun i hi => by omega
  refine hunmap.imp ?_
  rintro - p ⟨hsp, hpte⟩
  refine ⟨h.shrink hr (Nat.zero_mod _) hpos hsp (fun k hk hmap _ => ?_) rfl rfl, rfl⟩
  show (pte p.mem s.mm.pgdir k).isSome
  rw [hpte k hk, if_neg (by omega)]
  exact hmap

end

lemma roundUp_mod (n : Nat) : roundUp n % 4096 = 0 := by
  unfold roundUp
  omega

/-- The three cases that keep the list in order. -/
lemma unmapRegion_spec (h : MmapOk kend s) (hr : r ∈ s.mm.regions)
    (haddr : addr % 4096 = 0) (hlt : addr < usertop)
    (hor : r.length ≤ roundUp length ∨ addr = r.addr ∨ roundUp length = 0) :
    Ends (unmapRegion kend r addr (roundUp length)) s
      (fun _ s' => MmapOk kend s' ∧ s'.writes = s.writes) := by
  by_cases hwhole : r.length ≤ roundUp length
  · exact unmapRegion_whole h hr addr hwhole
  rcases hor.resolve_left hwhole with rfl | hzero
  · exact (unmapRegion_front h hr (by omega) (roundUp_mod _)).mono
      (fun _ _ hpost => ⟨hpost.1, hpost.2.1⟩) fun _ _ he => he
  · rw [hzero]
    exact unmapRegion_nothing h hr haddr hlt

lemma MmapOk.afterWrite (h : MmapOk kend s) (length : Nat) : MmapOk kend (afterWrite s r length) :=
  h.of_eq (afterWrite_phys length) (afterWrite_mm length)

/-- **`munmap`** under the condition. -/
theorem munmap_spec (h : MmapOk kend s) (hgood : MunmapGood s env addr length) :
    Ends (munmap kend env addr length) s (fun _ s' => MmapOk kend s' ∧ s'.writes =
      if addr % 4096 ≠ 0 then s.writes else
        ((findMmapRegion s.mm.regions addr).map fun r => (afterWrite s r r.length).writes).getD
          s.writes) := by
  unfold munmap
  split
  · exact ⟨h, rfl⟩
  next haddr =>
  rw [ends_bind, ends_get]
  rcases hf : findMmapRegion s.mm.regions addr with - | r
  · exact ⟨h, rfl⟩
  obtain ⟨hr, hle, hlt⟩ := findMmapRegion_some hf
  have htop := (h.region r hr).top
  have hr' : r ∈ (Mmap.afterWrite s r r.length).mm.regions := by simpa using hr
  simp only [ends_bind, ends_writeBack, decide_eq_true_eq]
  split
  · next hgo =>
    exact unmapRegion_spec (h.afterWrite _) hr' (by omega) (by omega) (hgood r hf hgo)
  · exact ⟨h.afterWrite _, rfl⟩

/-! ## Runs -/

/-- A system call. -/
inductive Call where
  | mmap (env : Env) (addr length : Nat) (prot flags : BitVec 32) (fd : Int)
    (file : Option OpenFile)
      (offset : Nat)
  | munmap (env : Env) (addr length : Nat)

def Call.run (kend : Nat) : Call → M Int
  | .mmap env addr length prot flags fd file offset =>
    sysMmap kend env (mmapArgs addr length prot flags fd file offset)
  | .munmap env addr length => Mmap.munmap kend env addr length

/-- The state after a call. -/
def step (kend : Nat) (s : Sys) (c : Call) : Sys := stateOf (c.run kend) s

/-- The condition on a call. -/
def Good (kend : Nat) (s : Sys) : Call → Prop
  | .mmap env addr length prot flags fd file offset =>
    ∀ a, mmapArgs addr length prot flags fd file offset = .ok a → MmapGood kend s env a
  | .munmap env addr length => MunmapGood s env addr length

/-- What is asked of a call: it returns, and the answer of `mmap` is one of the two. -/
def Answers (kend : Nat) (s : Sys) (c : Call) : Prop :=
  ∃ r, c.run kend s = .ok r (step kend s c) ∧
    match c with
    | .mmap .. => MmapOutcome s r (step kend s c)
    | .munmap .. => True

/-- A good call of `mmap` with any arguments has one of the outcomes. -/
lemma mmapCall_spec (h : MmapOk kend s) {args : Except Nat MmapArgs}
    (herr : ∀ e, args = .error e → 0 < e) (hok : ∀ a, args = .ok a → ArgsOk a)
    (hgood : ∀ a, args = .ok a → MmapGood kend s env a) :
    Ends (sysMmap kend env args) s (fun r s' => MmapOk kend s' ∧ MmapOutcome s r s') := by
  cases args with
  | error e =>
    have hneg : -(e : Int) < 0 := by
      have := herr e rfl
      omega
    exact ⟨h, .failed hneg rfl rfl fun _ _ => Iff.rfl⟩
  | ok a => exact mmap_spec h (hok a rfl) (hgood a rfl)

/-- One call. -/
theorem step_spec (h : MmapOk kend s) {c : Call} (hgood : Good kend s c) :
    MmapOk kend (step kend s c) ∧ Answers kend s c := by
  cases c with
  | mmap env addr length prot flags fd file offset =>
    obtain ⟨r, hrun, hok, hout⟩ := (mmapCall_spec h (fun _ => mmapArgs_error)
      (fun _ ha => (mmapArgs_ok ha).1) hgood).returns_stateOf
    exact ⟨hok, r, hrun, hout⟩
  | munmap env addr length =>
    obtain ⟨r, hrun, hok, -⟩ := (munmap_spec h hgood).returns_stateOf
    exact ⟨hok, r, hrun, trivial⟩

/-- **The region list over a run**: if every call meets the condition in the state it is made from,
the list is good in every state reached, and every `mmap` adds a region at the address it returns,
or returns an error and changes nothing. -/
theorem mmap_regions_of_good (h : MmapOk kend s) {cs : List Call}
    (hrun : RunOk (step kend) (Good kend) s cs) :
    RunAll (step kend) (MmapOk kend) s cs ∧ RunOk (step kend) (Answers kend) s cs := by
  refine ⟨hrun.runAll (fun _ _ hs hgood => (step_spec hs hgood).1) h, ?_⟩
  induction cs generalizing s with
  | nil => trivial
  | cons c cs ih =>
    obtain ⟨hok, hans⟩ := step_spec h hrun.1
    exact ⟨hans, ih hok hrun.2⟩

/-! ### A process without regions -/

/-- Frames 30 to 61 are free. -/
def startPhys : Phys where
  freelist := List.range' 30 32
  ref f := if f = 20 then 1 else 0
  mem _ _ := 0
  freep := none
  header _ := ⟨0, 0⟩

/-- A process with an empty page table at frame 20. -/
def startSys : Sys := ⟨startPhys, ⟨20, [], 0⟩, []⟩

/-- A process without regions is in order. -/
lemma startSys_ok : MmapOk 16 startSys := by
  have htables : tables entries target startSys.phys.mem 3 20 = [20] :=
    tables_empty fun _ _ => target_zero
  have hpte : ∀ k, pte startSys.phys.mem 20 k = none := fun k =>
    entry_empty (fun _ _ => target_zero) (by decide)
  refine .start ⟨⟨by decide +kernel, by decide +kernel⟩, by decide +kernel, ⟨?_, ?_⟩,
    fun k _ e he => ?_⟩ rfl rfl
  · exact htables ▸ by decide
  · exact htables ▸ by decide +kernel
  · have hnone : none = some e := (hpte k).symm.trans he
    cases hnone

/-- The node is allocated without a new frame, and files are neither read nor written. -/
def quiet : Env := ⟨true, 0, fun _ _ => .error einval, 0⟩

/-- `mmap(addr, length, PROT_READ | PROT_WRITE, MAP_PRIVATE | MAP_ANONYMOUS | flags, -1, 0)`. -/
def mapAnon (addr length : Nat) (flags : BitVec 32) : Call :=
  .mmap quiet addr length 3 (mapPrivate ||| mapAnonymous ||| flags) (-1) none 0

/-- Two pages, and then the first one back. -/
def mapAndCut : List Call := [mapAnon 0 8192 0, .munmap quiet mmapbase 4096]

/-- The calls of the example are good. -/
lemma mapAndCut_good : RunOk (step 16) (Good 16) startSys mapAndCut := by
  refine ⟨fun a ha => ?_, ?_, trivial⟩
  · cases ha
    refine ⟨fun hne => absurd rfl hne, by decide, fun addr haddr _ _ => ?_⟩
    cases haddr
    decide +kernel
  · intro r hr _
    have hfind : findMmapRegion (step 16 startSys (mapAnon 0 8192 0)).mm.regions mmapbase =
        some ⟨mmapbase, 8192, 0, none, 3, mapPrivate ||| mapAnonymous ||| 0⟩ := by decide +kernel
    obtain rfl := Option.some.inj (hfind.symm.trans hr)
    exact .inr (.inl rfl)

/-- The run of the example. -/
theorem mmap_regions_mapAndCut : RunAll (step 16) (MmapOk 16) startSys mapAndCut ∧
    RunOk (step 16) (Answers 16) startSys mapAndCut :=
  mmap_regions_of_good startSys_ok mapAndCut_good

/-- Three pages, a page further on, and then `MAP_FIXED` on the second of the three. -/
def mapInside : List Call :=
  [mapAnon mmapbase 0x3000 mapFixed, mapAnon (mmapbase + 0x10000) 0x1000 mapFixed,
    mapAnon (mmapbase + 0x1000) 0x1000 mapFixed]

/-- **A failed `mmap` leaves its node in the list**: the third call returns `-EINVAL`, and the list
has three regions, the new one inside the first, while `nregions` is 2. -/
theorem mmap_leaves_freed_node : let s := (mapInside.take 2).foldl (step 16) startSys
    let s' := mapInside.foldl (step 16) startSys
    s.mm.regions.map Region.addr = [mmapbase, mmapbase + 0x10000] ∧ s.mm.nregions = 2 ∧
      valueOf ((mapAnon (mmapbase + 0x1000) 0x1000 mapFixed).run 16) s = some (-22) ∧
      s'.mm.regions.map (fun r => (r.addr, r.length)) = [(mmapbase, 0x3000),
        (mmapbase + 0x1000, 0x1000), (mmapbase + 0x10000, 0x1000)] ∧ s'.mm.nregions = 2 := by
  decide +kernel

/-! ## Where a mapping goes -/

/-- The pages from the address on are in the user's space, and no region has one of them. -/
structure Free (rs : List Region) (addr n : Nat) : Prop where
  aligned : addr % 4096 = 0
  top : addr + n ≤ usertop
  apart : ∀ r ∈ rs, addr + n ≤ r.addr ∨ r.addr + r.length ≤ addr

/-- The address at which `mmap` goes on to step 2. -/
def chosenAddr (mm : Mm) (a : MmapArgs) : Option Nat :=
  match chooseAddr mm a with
  | .addr addr => if usertop < add64 addr (roundUp a.length) then none else some addr
  | _ => none

/-- The pages at the hint end before the last address of 64 bits. -/
def HintFits (a : MmapArgs) : Prop := a.addr ≠ 0 → roundDown a.addr + roundUp a.length < 2 ^ 64

/-- **The address of a mapping.** A call without `MAP_FIXED` maps at the chosen address or changes
nothing. The address is free exactly if the hint, rounded down, and the length, rounded up, do not
reach `2 ^ 64`. -/
theorem mmap_address_free_iff (kend : Nat) (env : Env) {s : Sys} (a : MmapArgs)
    (hrs : ∀ r ∈ s.mm.regions, RegionOk r) (hs : s.mm.regions.Pairwise Before)
    (hfix : has a.flags mapFixed = false) (hpos : 0 < a.length) (hlen : a.length ≤ usertop)
    (hhint : a.addr < 2 ^ 64) :
    (match chosenAddr s.mm a with
      | some addr => mmap kend env a s = mapAt kend env a addr s
      | none => ∃ r, mmap kend env a s = .ok r s) ∧
    ((∀ addr ∈ chosenAddr s.mm a, Free s.mm.regions addr (roundUp a.length)) ↔ HintFits a) := by
  have hrun := chooseAddr_of_not_fixed (m := s.mm) hfix
  have htop : usertop = 281474976710656 := by decide
  have hn : roundUp a.length = (a.length + 4095) / 4096 * 4096 := roundUp_eq (by omega)
  have hdown : roundDown a.addr = a.addr / 4096 * 4096 := rfl
  unfold chosenAddr
  refine ⟨?_, fun hfree hne => ?_, fun hfits addr haddr => ?_⟩
  · unfold mmap
    rw [bind_run (x := get) (s := s) rfl, hrun]
    split_ifs with hbad
    · exact ⟨einval, rfl⟩
    dsimp only
    split_ifs with hend
    · exact ⟨-enomem, rfl⟩
    · rfl
  · -- the check of the hint passes by the wrap, and the search cannot move the hint
    by_contra hwrap
    have hup : ¬ usertop < roundUp (add64 (roundUp a.addr) a.length) := by
      unfold roundUp add64
      omega
    have hhigh : usertop < roundDown a.addr := by omega
    have hend : ¬ usertop < add64 (roundDown a.addr) (roundUp a.length) := by
      unfold add64
      omega
    rw [hrun, if_neg fun h => hup h.2, firstAddr, if_pos hne, selectAddr_high hrs hhigh] at hfree
    have hat := (hfree (roundDown a.addr) (if_neg hend)).top
    omega
  · rw [hrun] at haddr
    split_ifs at haddr with hbad
    · cases haddr
    obtain ⟨hend, haddr⟩ : ¬ usertop < add64 addr (roundUp a.length) ∧
        selectAddr (roundUp a.length) s.mm.regions (firstAddr s.mm a) = addr := by
      dsimp only at haddr
      split_ifs at haddr with h
      · cases haddr
      · cases haddr
        exact ⟨h, rfl⟩
    obtain ⟨hstart, hle⟩ : firstAddr s.mm a % 4096 = 0 ∧ firstAddr s.mm a ≤ usertop := by
      unfold firstAddr at *
      split_ifs at * with hne
      · refine ⟨by omega, ?_⟩
        by_contra hhigh
        rw [selectAddr_high hrs (by omega)] at haddr
        have := hfits hne
        unfold add64 at hend
        omega
      · exact head_spec hrs
    obtain ⟨halign, hat⟩ := selectAddr_spec hrs (roundUp a.length) hstart hle
    have hapart := (selectAddr_apart (n := roundUp a.length) hrs hs (by omega) hle).2
    rw [haddr] at halign hat hapart
    refine ⟨halign, ?_, hapart⟩
    unfold add64 at hend
    omega

/-- A page at a hint inside a region of three pages. -/
theorem mmap_address_in_region : let s : Sys :=
    ⟨startPhys, ⟨20, [⟨mmapbase, 0x3000, 0, none, 3, 0⟩], 1⟩, []⟩
    ∀ addr ∈ chosenAddr s.mm ⟨mmapbase + 4096, 1, 3, mapAnonymous, none, 0⟩,
      Free s.mm.regions addr 4096 := by
  refine (mmap_address_free_iff 16 quiet _ ?_ (List.pairwise_singleton ..) (by decide)
    (by decide) (by decide) (by decide)).2.mpr ?_
  · exact List.forall_mem_singleton.mpr ⟨by decide, by decide, by decide, by decide⟩
  · exact fun _ => by decide

/-- **A hint on the last page of 64 bits is taken**: the sums wrap in both checks, and the region is
made beyond the user's space. -/
theorem mmap_hint_wraps : let hint := mapAnon (2 ^ 64 - 4096) 4096 0
    valueOf (hint.run 16) startSys = some (2 ^ 64 - 4096) ∧
      (step 16 startSys hint).mm.regions.map (fun r => (r.addr, r.length)) =
        [(2 ^ 64 - 4096, 4096)] ∧
      usertop < 2 ^ 64 - 4096 := by
  decide +kernel

end RpiOs.Mmap
