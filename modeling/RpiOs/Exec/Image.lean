import RpiOs.Exec.Regions

/-!
# The new image

What `execve` builds while it loads a program: an address space of frames that were free (`Built`),
with the regions of the interpreter in it. Steps that only take frames for `kmalloc` or change other
parts of the state are `Quiet`.
-/

namespace RpiOs.Exec

open Lib Lib.Radix Vm Mmap

/-! ## The pages of `mmap` -/

variable {kend root vpn : Nat} {s : Phys} {F : List Nat} {m₀ : Store Word}

section

variable (h : Built kend F m₀ root s)
include h

lemma built_setFree (n : Nat) : Built kend F m₀ root (s.setFree (s.freelist.drop n)) := by
  have hsub : (s.freelist.drop n).Sublist s.freelist := List.drop_sublist ..
  have hspace : SpaceOk kend (s.setFree (s.freelist.drop n)) root :=
    SpaceOk.afterNode h.space ⟨true, n, fun _ _ => .error 0, 0⟩
  exact ⟨hspace, fun f hf => h.free f (hsub.subset hf), h.tables, h.leaf, h.rest⟩

/-- A new page of `mmap` is a frame that was free. -/
lemma mapFresh_built (hvpn : vpn < npages)
    (content : Except Nat (Nat → Word)) : Ends (mapFresh kend root (vpn * 4096) content) s
      (fun _ s' => Built kend F m₀ root s') ⊤ := by
  unfold mapFresh
  refine (kalloc_spec s).bind ?_
  rintro r s1 ⟨hmem, ⟨rfl, _, rfl⟩ | ⟨np, rfl, htook⟩⟩
  · trivial
  cases content with
  | error e =>
    dsimp only
    exact (ends_trivial _).step (fun _ _ _ => trivial)
  | ok words => ?_
  have htook' := htook.trans (Took.of_mem s1 fun g => if g = np then words else s1.mem g)
    h.space.free.nodup
  obtain ⟨hb, hpend, hnp, -⟩ := h.take htook' fun f hf => by
    rw [Phys.setMem_mem, if_neg hf, hmem]
  simp only [ends_bind, ends_modify, ends_tryCatch]
  refine (hb.uvmMap hpend hnp hvpn).mono (fun _ s2 h2 => h2.1) fun err s2 _ => ?_
  unfold undoPage
  split
  · exact (ends_trivial _).step (fun _ _ _ => trivial)
  · trivial

lemma mmapLoadPages_built (env : Mmap.Env) {addr length : Nat}
    (flags : BitVec 32) (f : Option Nat) (offset : Nat) (haddr : addr % 4096 = 0)
    (htop : addr + (length + 4095) / 4096 * 4096 ≤ usertop) :
    Ends (mmapLoadPages kend env root addr length flags f offset) s
      (fun _ s' => Built kend F m₀ root s') ⊤ :=
  mmapLoadPages_inv (I := fun _ s => Built kend F m₀ root s) haddr htop h env offset (.inr trivial)
    fun content _ _ hI hi => (mapFresh_built hI hi content).mono (fun _ _ => id) fun err t _ =>
      undoPages_throws _ _ _ err t

/-- Taking `PTE_USER` from an entry changes no table and no page. -/
lemma built_protect {x : Nat × Nat} (hvpn : vpn < npages)
    (hx : slot entries target s.mem 3 root vpn = some x) (hvalid : s.mem x.1 x.2 &&& pteValid ≠ 0) :
    Built kend F m₀ root (s.setMem (s.mem.write x.1 x.2 (s.mem x.1 x.2 &&& ~~~ pteUser))) := by
  have he : pte s.mem root vpn = some (s.mem x.1 x.2) := by
    rw [pte_of_slot hx, if_pos hvalid]
  obtain ⟨hspace, hpte⟩ := SpaceOk.clearUser h.space hvpn hx he hvalid
  have hpt : pageTables (s.mem.write x.1 x.2 (s.mem x.1 x.2 &&& ~~~ pteUser)) root =
      pageTables s.mem root := (tables_write_leaf (by decide) h.space.tree.nodup hx _).1
  refine ⟨hspace, h.free, fun f hf => h.tables f (hpt ▸ hf), fun k hk e hke => ?_, fun f hf => ?_⟩
  · rw [Phys.setMem_mem, hpte k hk] at hke
    split at hke
    · obtain rfl := Option.some.inj hke
      rw [clearUser_frame]
      exact h.leaf vpn hvpn _ he
    · exact h.leaf k hk e hke
  have hne : f ≠ x.1 := by
    rintro rfl
    exact hf (h.tables _ (slot_mem (by decide) hx))
  rw [Phys.setMem_mem, Store.write_of_ne _ hne]
  exact h.rest f hf

end

/-- So a change to `PROT_NONE` keeps the image. -/
lemma protectPages_built {p : Nat} (n : Nat) {i : Nat} (h : Built kend F m₀ root s)
    (hp : p + i + n ≤ npages) : Ends (protectPages root (p * 4096) i n) s
      (fun _ s' => Built kend F m₀ root s') ⊤ := by
  induction n generalizing i s with
  | zero => exact h
  | succ n ih => ?_
  unfold protectPages pgdirWalk
  rw [ends_bind, ends_walk_false, page_of_range hp]
  rcases hx : slot entries target s.mem 3 root (p + i) with - | x
  · trivial
  simp only [ends_bind, ends_get]
  split
  · next hvalid =>
    simp only [ends_bind, ends_set, ends_pure]
    exact ih (built_protect h (by omega) hx hvalid) (by omega)
  · exact ih h (by omega)

/-- The arguments do not wrap around. -/
def NoWrap (a : MmapArgs) : Prop := a.addr + a.length + 8192 ≤ 2 ^ 64

variable {s s' : Mmap.Sys} {env : Mmap.Env} {a : MmapArgs} {r : Int}

/-- A hint that does not wrap around and is not refused ends in user space. -/
lemma NoWrap.hintOk (h : NoWrap a) (hc : ∀ r, chooseAddr s.mm a ≠ .result r) : HintOk a := by
  intro hne
  by_contra hgt
  unfold NoWrap at h
  have hup : roundUp a.addr = (a.addr + 4095) / 4096 * 4096 := roundUp_eq (by omega)
  have hround : usertop < roundUp (add64 (roundUp a.addr) a.length) := by
    have htop : usertop = 281474976710656 := by decide
    rw [hup, add64, roundUp_eq (by omega)]
    omega
  refine hc einval ?_
  unfold chooseAddr
  rw [if_pos hne, if_pos hround]

/-- **`mmap`** while the image is built. -/
theorem mmap_image (h : MmapOk kend s) (hb : Built kend F m₀ s.mm.pgdir s.phys) (ha : ArgsOk a)
    (hw : NoWrap a) (hdone : MmapDone kend env a s r s') (hrun : mmap kend env a s = .ok r s') :
    MmapOk kend s' ∧ Built kend F m₀ s.mm.pgdir s'.phys ∧ s'.mm.pgdir = s.mm.pgdir ∧ 0 ≤ r ∧
      r ≤ usertop := by
  cases hdone with
  | nothing hr =>
    rw [hr]
    exact ⟨h, hb, rfl, by decide, by decide⟩
  | closed n p hc hp hr =>
    have hint : HintOk a := hw.hintOk fun r hr => by rw [hc] at hr; cases hr
    have hspec := @mmap_entries kend s env a h ha hint fun base hbase => by
      rw [hc] at hbase
      cases hbase
    obtain ⟨hne, haddr, -⟩ := chooseAddr_protect hc
    have hle := hint hne
    have hnp := usertop_eq
    have hbuilt := protectPages_built (p := a.addr / 4096) (i := 0) (a.length / 4096) hb (by omega)
    rw [show a.addr / 4096 * 4096 = a.addr by omega] at hbuilt
    exact ⟨(hspec.ok hrun).1, hbuilt.ok hp, rfl, by omega, by omega⟩
  | mapped addr _ p hc htop hat hr =>
    have hint : HintOk a := hw.hintOk fun r hr => by rw [hc] at hr; cases hr
    have hspec := @mmap_entries kend s env a h ha hint fun base hbase _ _ => by
      obtain rfl : addr = base := by
        rw [hc] at hbase
        exact Choice.addr.inj hbase
      exact (ends_of_ok hat.load).mpr trivial
    obtain ⟨haddr, hle⟩ := chooseAddr_addr hint h.region hc
    have hround : roundUp a.length = (a.length + 4095) / 4096 * 4096 := roundUp_eq (by
      have := ha.lt
      omega)
    have hsum : addr + roundUp a.length ≤ usertop := by
      have hlt := ha.lt
      unfold usertop at hle
      unfold add64 at htop
      omega
    have hbuilt := mmapLoadPages_built (built_setFree hb env.nodeFrames) env a.flags a.f a.offset
      haddr (show addr + (a.length + 4095) / 4096 * 4096 ≤ usertop by omega)
    refine ⟨(hspec.ok hrun).1, ?_, ?_, by omega, by omega⟩
    · rw [hat.state]
      exact hbuilt.ok hat.load
    · rw [hat.state]
      rfl

/-! ## Steps that leave the address space alone -/

/-- The address space is the same, and frames went only to `kmalloc`. -/
structure Quiet (st st' : State) : Prop where
  pgdir : st'.loc.pgdir = st.loc.pgdir
  mm : st'.sys.mem.mm = st.sys.mem.mm
  phys : ∃ n, st'.sys.mem.phys = st.sys.mem.phys.setFree (st.sys.mem.phys.freelist.drop n)

lemma Quiet.refl (st : State) : Quiet st st := ⟨rfl, rfl, 0, rfl⟩

lemma Quiet.trans {st st1 st2 : State} (h : Quiet st st1) (h' : Quiet st1 st2) : Quiet st st2 := by
  obtain ⟨n, hn⟩ := h.phys
  obtain ⟨n', hn'⟩ := h'.phys
  refine ⟨h'.pgdir.trans h.pgdir, h'.mm.trans h.mm, n + n', ?_⟩
  rw [hn', hn, Phys.setFree_freelist, List.drop_drop]
  rfl

/-- The computation is quiet wherever it returns. -/
def IsQuiet {α : Type} (x : E α) : Prop := ∀ st, Post x st fun _ st' => Quiet st st'

variable {α β : Type}

lemma IsQuiet.pure (a : α) : IsQuiet (pure a : E α) := fun st => (post_pure a).mpr (Quiet.refl st)

lemma IsQuiet.throw (e : Exit) : IsQuiet (throw e : E α) := fun _ => post_throw e

lemma IsQuiet.get : IsQuiet (get : E State) := fun st => post_get.mpr (Quiet.refl st)

lemma IsQuiet.bind {x : E α} {f : α → E β} (hx : IsQuiet x) (hf : ∀ a, IsQuiet (f a)) :
    IsQuiet (x >>= f) := fun st =>
  (hx st).step fun a st1 h1 => (hf a st1).mono fun _ _ h2 => h1.trans h2

lemma IsQuiet.forM {body : α → E PUnit} (hbody : ∀ a, IsQuiet (body a)) (xs : List α) :
    IsQuiet (xs.forM body) := by
  induction xs with
  | nil => exact .pure _
  | cons a xs ih => exact .bind (hbody a) fun _ => ih

lemma IsQuiet.onVfs (x : Vfs.V α) : IsQuiet (onVfs x) := fun st => by
  intro a st' hrun
  unfold Exec.onVfs at hrun
  split at hrun <;> cases hrun
  exact ⟨rfl, rfl, 0, rfl⟩

lemma IsQuiet.setLoc {g : Loc → Loc} (hg : ∀ l, (g l).pgdir = l.pgdir) : IsQuiet (setLoc g) :=
    fun st =>
  (post_modify _).mpr ⟨hg st.loc, rfl, 0, rfl⟩

lemma IsQuiet.setSys {g : Sys → Sys} (hg : ∀ s, (g s).mem = s.mem) : IsQuiet (setSys g) :=
    fun st => by
  refine (post_modify _).mpr ⟨rfl, ?_, 0, ?_⟩
  · show (g st.sys).mem.mm = _
    rw [hg]
  show (g st.sys).mem.phys = _
  rw [hg]
  rfl

lemma IsQuiet.setError (r : Int) : IsQuiet (setError r) := .setLoc fun _ => rfl

lemma IsQuiet.kmalloc (a : Alloc) : IsQuiet (kmalloc a) := by
  unfold Exec.kmalloc
  have htake : IsQuiet (Exec.setSys fun s => s.takeFrames a.frames) := fun st =>
    (post_modify _).mpr ⟨rfl, rfl, a.frames, rfl⟩
  refine .bind htake fun _ => ?_
  split
  · exact .bind .get fun _ => .bind (.setSys fun _ => rfl) fun _ =>
      .pure _
  · exact .pure _

lemma IsQuiet.kmfree (b : Option Nat) : IsQuiet (kmfree b) := by
  cases b with
  | none => exact .pure _
  | some b => exact .setSys (g := fun s => { s with blocks := s.blocks.erase b }) fun _ => rfl

/-- Closing a file takes no frame. -/
lemma IsQuiet.closeOnExec (i : Nat) : IsQuiet (closeOnExec i) := by
  unfold Exec.closeOnExec
  refine .bind .get fun st => ?_
  dsimp only
  split
  · exact .pure _
  split
  · exact .bind (.onVfs _) fun _ => .bind (.onVfs _) fun _ =>
      .setSys fun _ => rfl
  · exact .pure _

lemma IsQuiet.flushOldExec (file : Creds.ExecFile) : IsQuiet (flushOldExec file) :=
  .bind (.setSys fun _ => rfl) fun _ =>
    .bind (.forM .closeOnExec _) fun _ =>
      .bind (.setSys fun _ => rfl) fun _ =>
        .bind .get fun _ => .onVfs _

/-- Reading the headers takes frames for `kmalloc` only. -/
lemma IsQuiet.readHeaders (p : Program) : IsQuiet (readHeaders p) := by
  unfold Exec.readHeaders goto
  split
  · exact .bind (.setError _) fun _ => .throw _
  refine .bind (.setError _) fun _ => ?_
  split
  · exact .throw _
  split
  · exact .throw _
  refine .bind (.kmalloc _) fun b => ?_
  split
  · exact .throw _
  refine .bind (.setLoc fun _ => rfl) fun _ => ?_
  split
  · exact .bind (.setError _) fun _ => .throw _
  · exact .bind (.setError _) fun _ => .pure _

/-- So does reading the name of the interpreter. -/
lemma IsQuiet.loadInterp (p : Program) (i : Nat) : IsQuiet (loadInterp p i) := by
  unfold Exec.loadInterp goto
  split
  · exact .throw _
  refine .bind (.kmalloc _) fun b => .bind (.setLoc fun _ => rfl) fun _ => ?_
  split
  · exact .throw _
  split
  · exact .bind (.setError _) fun _ => .throw _
  · exact .bind (.setError _) fun _ => .setLoc fun _ => rfl

lemma IsQuiet.firstSegment (ph : Phdr) : IsQuiet (firstSegment ph) := by
  unfold Exec.firstSegment goto
  refine .bind .get fun st => ?_
  split
  · refine .bind (.setLoc fun _ => rfl) fun _ => ?_
    split
    · exact .throw _
    · exact .pure _
  · exact .pure _

/-! ## The image -/

/-- The process loads an image at `root`, and had the regions of `mm₀` before. If it had none, the
address space is built from `F` and describes its regions. -/
structure Image (kend : Nat) (mm₀ : Mm) (F : List Nat) (m₀ : Store Word) (root : Nat) (st : State) :
    Prop where
  loc : st.loc.pgdir = some root
  pgdir : st.sys.mem.mm.pgdir = root
  grew : Grew mm₀ st.sys.mem.mm
  built : mm₀.regions = [] → Built kend F m₀ root st.sys.mem.phys
  ok : mm₀.regions = [] → MmapOk kend st.sys.mem

variable {mm₀ : Mm} {st st' : State}

/-- New frames are part of the image if the address space is still built from free ones and maps
what it mapped. -/
lemma Image.setPhys (h : Image kend mm₀ F m₀ root st) {p : Phys}
    (hp : mm₀.regions = [] → Built kend F m₀ root p ∧ Keeps root st.sys.mem.phys p) :
    Image kend mm₀ F m₀ root (st.setMem (st.sys.mem.setPhys p)) := by
  refine ⟨h.loc, h.pgdir, h.grew, fun hnil => (hp hnil).1, fun hnil => ?_⟩
  have hok := h.ok hnil
  refine ⟨?_, hok.region, hok.sorted, hok.count, fun r hr k hk => ?_⟩
  · show SpaceOk kend p st.sys.mem.mm.pgdir
    rw [h.pgdir]
    exact (hp hnil).1.space
  have hmap := hok.mapped r hr k hk
  unfold Sys.IsMapped at hmap
  rw [h.pgdir] at hmap
  show (pte p.mem st.sys.mem.mm.pgdir k).isSome
  rw [h.pgdir]
  exact (hp hnil).2 k (hok.page_lt hr hk) hmap

lemma Image.quiet (h : Image kend mm₀ F m₀ root st) (hq : Quiet st st') :
    Image kend mm₀ F m₀ root st' := by
  obtain ⟨n, hn⟩ := hq.phys
  have himg := h.setPhys (p := st.sys.mem.phys.setFree (st.sys.mem.phys.freelist.drop n))
    fun hnil =>
    ⟨built_setFree (h.built hnil) n, Keeps.refl root st.sys.mem.phys⟩
  refine ⟨hq.pgdir.trans h.loc, by rw [hq.mm]; exact h.pgdir, by rw [hq.mm]; exact h.grew,
    fun hnil => by rw [hn]; exact himg.built hnil, fun hnil => ?_⟩
  exact (himg.ok hnil).of_eq hn hq.mm

/-- The computation keeps the image. -/
def KeepsImage (kend : Nat) (mm₀ : Mm) (F : List Nat) (m₀ : Store Word) (root : Nat) (x : E α) :
    Prop :=
  ∀ st, Image kend mm₀ F m₀ root st → Post x st fun _ st' => Image kend mm₀ F m₀ root st'

lemma IsQuiet.keeps {x : E α} (hx : IsQuiet x) : KeepsImage kend mm₀ F m₀ root x := fun st h =>
  (hx st).mono fun _ _ hq => h.quiet hq

lemma keeps_bind {x : E α} {f : α → E β} (hx : KeepsImage kend mm₀ F m₀ root x)
    (hf : ∀ a, KeepsImage kend mm₀ F m₀ root (f a)) : KeepsImage kend mm₀ F m₀ root (x >>= f) :=
  fun st h => (hx st h).step fun a st1 h1 => hf a st1 h1

lemma keeps_forM {body : α → E PUnit} (hbody : ∀ a, KeepsImage kend mm₀ F m₀ root (body a))
    (xs : List α) : KeepsImage kend mm₀ F m₀ root (xs.forM body) := by
  induction xs with
  | nil => exact (IsQuiet.pure _).keeps
  | cons a xs ih => exact keeps_bind (hbody a) fun _ => ih

lemma ends_when {ε σ : Type} {x : EStateM ε σ α} {s : σ} {c : Prop} {Q : α → σ → Prop}
    (h : c → Ends x s Q ⊤) : Ends x s (fun a t => c → Q a t) ⊤ := by
  by_cases hc : c
  · exact (h hc).imp (fun _ _ ht _ => ht)
  · exact (ends_trivial x).imp (fun _ _ _ hc' => absurd hc' hc)

/-- A computation on the frames, seen from `execve`. -/
lemma post_onPhys {x : V α} {Q : α → Phys → Prop}
    (h : Ends x st.sys.mem.phys Q ⊤) : Post (onPhys x) st fun a st' =>
      ∃ p, Q a p ∧ st' = st.setMem (st.sys.mem.setPhys p) := by
  intro a st' hrun
  unfold onPhys onMem onFrames at hrun
  cases hx : x st.sys.mem.phys with
  | ok b p =>
    simp only [hx] at hrun
    cases hrun
    exact ⟨p, h.ok hx, rfl⟩
  | error e p =>
    simp only [hx] at hrun
    cases hrun

section

variable (h : Image kend mm₀ F m₀ root st)
include h

lemma Image.frames {x : V α} {Q : α → Prop}
    (hx : Built kend F m₀ root st.sys.mem.phys → Ends x st.sys.mem.phys
      (fun a p => Q a → Built kend F m₀ root p ∧ Keeps root st.sys.mem.phys p) ⊤) :
    Post (onPhys x) st fun a st' => Q a → Image kend mm₀ F m₀ root st' := by
  refine (post_onPhys (ends_when fun hnil => hx (h.built hnil))).mono ?_
  rintro a st' ⟨p, hp, rfl⟩ hq
  exact h.setPhys fun hnil => hp hnil hq

lemma Image.derefRoot {f : Nat → E α} {Q : α → State → Prop}
    (hf : Post (f root) st Q) : Post (deref st.loc.pgdir >>= f) st Q := by
  rw [h.loc]
  exact .bind ((post_pure root).mpr hf)

lemma Image.store (va len : Nat) (src : Nat → BitVec 8) :
    Post (onPhys (storeUser root va len src)) st fun _ st' => Image kend mm₀ F m₀ root st' := by
  refine (h.frames (Q := fun _ => True) fun hb => ?_).mono fun _ _ hi => hi trivial
  exact (storeUser_built hb va len src).imp (fun _ _ hs _ => ⟨hs.1, hs.2.keeps⟩)

end

/-! ### The program -/

/-- A segment of the program: pages for it, then its bytes and zeros. -/
lemma loadProgram_image (p : Program) (i : Nat) :
    KeepsImage kend mm₀ F m₀ root (loadProgram kend p i) := fun st h => by
  unfold loadProgram goto
  dsimp only
  refine (IsQuiet.setError noAccess).keeps st h |>.step fun _ st1 h1 => ?_
  split
  · exact post_throw _
  split
  · exact post_throw _
  refine ((IsQuiet.firstSegment (p.phdr i)).keeps st1 h1).step fun _ st2 h2 => ?_
  refine .get (h2.derefRoot ?_)
  refine (h2.frames (Q := fun sz => sz ≠ 0) fun hb => uvmAlloc_built hb ..).step fun sz st3 h3 => ?_
  refine .modify ?_
  split
  · exact post_throw _
  next hsz =>
  have h3' : Image kend mm₀ F m₀ root { st3 with loc := { st3.loc with sz := sz } } :=
    (h3 hsz).quiet ⟨rfl, rfl, 0, rfl⟩
  split
  · exact (IsQuiet.setError noMemory).keeps _ h3' |>.step fun _ _ _ => post_throw _
  · refine (IsQuiet.setError 0).keeps _ h3' |>.step fun _ st4 h4 => ?_
    exact (h4.store _ _ _).step fun _ st5 h5 => h5.store _ _ _

lemma loadHeader_image (p : Program) (i : Nat) :
    KeepsImage kend mm₀ F m₀ root (loadHeader kend p i) := by
  unfold loadHeader
  split
  · exact (IsQuiet.loadInterp p i).keeps
  split
  · exact (IsQuiet.pure _).keeps
  · exact loadProgram_image p i

/-! ### The stack -/

/-- Bytes on the new stack. -/
lemma copyArgs_image (va : Nat) (p : Option (Nat → BitVec 8)) (len : Nat) :
    KeepsImage kend mm₀ F m₀ root (copyArgs va p len) := fun st h => by
  unfold copyArgs goto
  refine .get (h.derefRoot ?_)
  refine (h.frames (Q := fun ok => ok = true) fun hb =>
    (copyout_built hb va p len).mono (fun _ _ hc => hc) fun _ _ he => he.elim).step
      fun ok st1 h1 => ?_
  cases ok with
  | true => exact .pure (h1 rfl)
  | false => exact post_throw _

lemma pushStrings_image (strs : List (List (BitVec 8))) (sp : Nat) :
    KeepsImage kend mm₀ F m₀ root (pushStrings strs sp) := by
  induction strs generalizing sp with
  | nil => exact (IsQuiet.pure _).keeps
  | cons str rest ih => exact keeps_bind (copyArgs_image _ _ _) fun _ => ih _

/-- The strings, the vectors of pointers and the auxiliary vector. -/
lemma buildStack_image (env : Env) : KeepsImage kend mm₀ F m₀ root (buildStack env) :=
    fun st h => by
  unfold buildStack
  refine .get ?_
  refine (pushStrings_image _ _ st h).step fun sp st1 h1 => ?_
  refine (copyArgs_image _ _ _ st1 h1).step fun _ st2 h2 => ?_
  refine .get (h2.derefRoot ?_)
  refine (h2.store _ _ _).step fun _ st3 h3 => ?_
  refine (copyArgs_image _ _ _ st3 h3).step fun _ st4 h4 => ?_
  split
  · exact post_throw _
  · exact .pure h4

/-! ### The interpreter -/

/-- What is asked of an interpreter: its segments are not empty, in order and of a size that fits,
and reading fails with error numbers. -/
structure Interp.Sane (ld : Interp) : Prop where
  small : ∀ i, (ld.phdr i).pType = ptLoad → (ld.phdr i).pVaddr < 2 ^ 60 ∧
    (ld.phdr i).pFilesz < 2 ^ 60 ∧
    (ld.phdr i).pMemsz < 2 ^ 60
  full : ∀ i, (ld.phdr i).pType = ptLoad → 0 < (ld.phdr i).pFilesz + (ld.phdr i).pVaddr % 4096
  ordered : ∀ i j, i < j → (ld.phdr i).pType = ptLoad → (ld.phdr j).pType = ptLoad →
    (ld.phdr i).pVaddr ≤ (ld.phdr j).pVaddr
  reads : ∀ i, ReadsOk (ld.load i)
  brk : ReadsOk ld.brk

/-- Where the interpreter is while the headers `is` are still to be loaded. -/
structure Placed (ld : Interp) (elf : Ehdr) (is : List Nat) (l : Loading) : Prop where
  set : l.set = true → ∃ m v, m ≤ usertop ∧ l.loadAddr = sub64 m v ∧
    ∀ i ∈ is, (ld.phdr i).pType = ptLoad → v ≤ (ld.phdr i).pVaddr
  unset : l.set = false → elf.eType = etExec → l.loadAddr = 0
  elfBss : l.elfBss ≤ 2 ^ 62
  lastBss : l.lastBss ≤ 2 ^ 62

section placed

variable {ld : Interp} {elf : Ehdr} {is : List Nat} {l : Loading} {i : Nat}

section

variable (h : Placed ld elf (i :: is) l) (hld : ld.Sane) (hload : (ld.phdr i).pType = ptLoad)
include h hld hload

/-- Every segment goes to an address far below the end of the address space. -/
lemma Placed.segment_le : add64 (segmentBase elf (ld.phdr i) l) (ld.phdr i).pVaddr ≤ 2 ^ 61 := by
  have hsmall := (hld.small i hload).1
  have htop : usertop = 281474976710656 := by decide
  unfold segmentBase
  split
  · next hfixed =>
    cases hset : l.set with
    | true =>
      obtain ⟨m, v, hm, hl, hv⟩ := h.set hset
      have := hv i List.mem_cons_self hload
      rw [hl]
      unfold add64 sub64
      omega
    | false =>
      rw [h.unset hset (hfixed.resolve_right (by simp [hset]))]
      unfold add64
      omega
  · have hbase : elfEtDynBase = 211106232532992 := by decide
    unfold add64 roundDown sub64
    omega

/-- So the arguments of its `mmap` are in order and do not wrap around. -/
lemma Placed.args (f : Nat) : ArgsOk (segmentArgs f elf (ld.phdr i) l) ∧
    NoWrap (segmentArgs f elf (ld.phdr i) l) := by
  have hle := h.segment_le hld hload
  obtain ⟨-, hfile, -⟩ := hld.small i hload
  have hfull := hld.full i hload
  have hlen : add64 (ld.phdr i).pFilesz ((ld.phdr i).pVaddr % 4096) =
      (ld.phdr i).pFilesz + (ld.phdr i).pVaddr % 4096 := by
    unfold add64
    omega
  refine ⟨⟨?_, ?_, .inr rfl⟩, ?_⟩
  · show 0 < add64 _ _
    omega
  · show add64 _ _ < 2 ^ 63
    omega
  show roundDown (add64 _ _) + add64 _ _ + 8192 ≤ 2 ^ 64
  unfold roundDown
  omega

/-- The loop after a segment at `r`: the first one of a shared object sets the load address. -/
lemma Placed.next (his : ∀ j ∈ is, i < j) (hr : 0 ≤ r) (hr' : r ≤ usertop) :
    Placed ld elf is (l.next elf (ld.phdr i) r) := by
  have hle := h.segment_le hld hload
  obtain ⟨hv, hf, hm⟩ := hld.small i hload
  have htop : usertop = 281474976710656 := by decide
  -- the place of the segment, as the loop computes it afterwards
  have hplace : add64 (l.next elf (ld.phdr i) r).loadAddr (ld.phdr i).pVaddr ≤ 2 ^ 61 := by
    unfold Loading.next
    dsimp only
    split
    · unfold add64 sub64 roundDown
      omega
    · exact hle
  refine ⟨fun hset => ?_, fun hset hexec => ?_, ?_, ?_⟩
  · by_cases hfirst : (!l.set && decide (elf.eType = etDyn)) = true
    · refine ⟨(r % 2 ^ 64).toNat, roundDown (ld.phdr i).pVaddr, by omega, ?_, fun j hj hjl => ?_⟩
      · unfold Loading.next
        dsimp only
        rw [if_pos hfirst]
      have := hld.ordered i j (his j hj) hload hjl
      unfold roundDown
      omega
    · have hold : l.set = true := by
        simpa [Loading.next, hfirst] using hset
      obtain ⟨m, v, hm', hl, hv'⟩ := h.set hold
      refine ⟨m, v, hm', ?_, fun j hj => hv' j (List.mem_cons_of_mem _ hj)⟩
      unfold Loading.next segmentBase
      dsimp only
      rw [if_neg hfirst, if_pos (.inr hold), hl]
  · have hold : l.set = false := by
      have : (l.set || (!l.set && decide (elf.eType = etDyn))) = false := hset
      simp only [Bool.or_eq_false_iff] at this
      exact this.1
    unfold Loading.next segmentBase
    dsimp only
    rw [if_neg (by simp [hexec, etExec, etDyn]), if_pos (.inl hexec), h.unset hold hexec]
  · show max l.elfBss (add64 (add64 (l.next elf (ld.phdr i) r).loadAddr _) _) ≤ 2 ^ 62
    refine Nat.max_le.mpr ⟨h.elfBss, ?_⟩
    unfold add64 at hplace ⊢
    omega
  · show max l.lastBss (add64 (add64 (l.next elf (ld.phdr i) r).loadAddr _) _) ≤ 2 ^ 62
    refine Nat.max_le.mpr ⟨h.lastBss, ?_⟩
    unfold add64 at hplace ⊢
    omega

end

lemma Placed.skip (h : Placed ld elf (i :: is) l) : Placed ld elf is l :=
  ⟨fun hset => by
    obtain ⟨m, v, hm, hl, hv⟩ := h.set hset
    exact ⟨m, v, hm, hl, fun j hj => hv j (List.mem_cons_of_mem _ hj)⟩, h.unset, h.elfBss,
      h.lastBss⟩

end placed

/-- A computation on the address space, seen from `execve`. -/
lemma post_onMem {x : M α} {Q : α → Mmap.Sys → Prop}
    (h : ∀ a m, x st.sys.mem = .ok a m → Q a m) : Post (onMem x) st fun a st' =>
      ∃ m, Q a m ∧ st' = st.setMem m := by
  intro a st' hrun
  unfold onMem at hrun
  cases hx : x st.sys.mem with
  | ok b m =>
    rw [hx] at hrun
    cases hrun
    exact ⟨m, h _ m hx, rfl⟩
  | error e m =>
    rw [hx] at hrun
    cases hrun

/-- The reference that a region takes on its file. -/
lemma IsQuiet.takeFile (node : Bool) (r : Int) (f : Option Nat) : IsQuiet (takeFile node r f) := by
  rcases f with - | f
  · exact .pure _
  simp only [Exec.takeFile]
  split
  · refine .bind (.onVfs _) fun _ => .bind (.onVfs _) fun _ => ?_
    split
    · exact .onVfs _
    · exact .pure _
  · exact .pure _

/-- **`mmap`** for the interpreter. -/
theorem mmapFile_image (henv : ReadsOk env)
    (hargs : mm₀.regions = [] → ArgsOk a ∧ NoWrap a) (h : Image kend mm₀ F m₀ root st) :
    Post (mmapFile kend env a) st fun r st' => isErr r = false → Image kend mm₀ F m₀ root st' ∧
      (mm₀.regions = [] → 0 ≤ r ∧ r ≤ usertop) := by
  unfold mmapFile
  refine .get ?_
  have hcall : Post (onMem (mmap kend env a)) st fun r st' => isErr r = false →
      Image kend mm₀ F m₀ root st' ∧ (mm₀.regions = [] → 0 ≤ r ∧ r ≤ usertop) := by
    refine (post_onMem (Q := fun r m => isErr r = false → MmapDone kend env a st.sys.mem r m ∧
      mmap kend env a st.sys.mem = .ok r m) fun r m hrun herr => ?_).mono ?_
    · exact ⟨(mmap_inv henv).ok hrun herr, hrun⟩
    rintro r st' ⟨m, hm, rfl⟩ herr
    obtain ⟨hdone, hrun⟩ := hm herr
    have himage : mm₀.regions = [] → _ := fun hnil =>
      mmap_image (h.ok hnil) (by rw [h.pgdir]; exact h.built hnil) (hargs hnil).1
        (hargs hnil).2 hdone hrun
    have hpgdir : m.mm.pgdir = st.sys.mem.mm.pgdir := by
      cases hdone with
      | nothing _ => rfl
      | closed _ _ _ _ _ => rfl
      | mapped _ _ _ _ _ hat _ => rw [hat.state]; rfl
    refine ⟨⟨h.loc, hpgdir.trans h.pgdir, h.grew.mmap hdone, fun hnil => ?_, fun hnil => ?_⟩,
      fun hnil => (himage hnil).2.2.2⟩
    · have := (himage hnil).2.1
      rwa [h.pgdir] at this
    · exact (himage hnil).1
  refine hcall.step fun r st1 h1 => ?_
  have hquiet : ∀ {x : E Int}, IsQuiet x → (Post x st1 fun r' _ => r' = r) →
    Post x st1 fun r' st' =>
      isErr r' = false → Image kend mm₀ F m₀ root st' ∧
        (mm₀.regions = [] → 0 ≤ r' ∧ r' ≤ usertop) :=
    fun hx hval => ((hx st1).and hval).mono fun r' st' hq herr => by
      obtain ⟨hq, rfl⟩ := hq
      exact ⟨(h1 herr).1.quiet hq, (h1 herr).2⟩
  split
  · refine hquiet ?_ ?_
    · exact .bind (.setSys fun _ => rfl) fun _ =>
        .bind (.takeFile _ r a.f) fun _ => .pure _
    · exact .bind fun _ st2 _ => .bind fun _ st3 _ => (post_pure r).mpr rfl
  · exact (post_pure r).mpr h1

section interpreter

variable {ld : Interp} (hld : ld.Sane)
include hld

/-- The loop over the segments of the interpreter, with its place as the invariant. -/
lemma loadSegments_image (f : Nat) (elf : Ehdr) {is : List Nat} (his : is.Pairwise (· < ·))
    {l : Loading} (hl : mm₀.regions = [] → Placed ld elf is l) (h : Image kend mm₀ F m₀ root st) :
    Post (loadSegments kend ld f elf is l) st fun r st' =>
      match r with
      | .error e => isErr e = true
      | .ok l' => Image kend mm₀ F m₀ root st' ∧ (mm₀.regions = [] → Placed ld elf [] l') := by
  induction is generalizing l st with
  | nil => exact .pure ⟨h, hl⟩
  | cons i is ih => ?_
  obtain ⟨hi, his⟩ := List.pairwise_cons.mp his
  unfold loadSegments
  split
  · exact ih his (fun hnil => (hl hnil).skip) h
  · next hload =>
    have hload : (ld.phdr i).pType = ptLoad := not_not.mp hload
    refine (mmapFile_image (hld.reads i) (fun hnil => (hl hnil).args hld hload f) h).step
      fun r st1 h1 => ?_
    split
    · next herr => exact .pure herr
    · next herr =>
      obtain ⟨himg, hr⟩ := h1 (by simpa using herr)
      exact ih his (fun hnil => (hl hnil).next hld hload hi (hr hnil).1 (hr hnil).2) himg

omit hld in
lemma padzero_image (elfBss : Nat) : KeepsImage kend mm₀ F m₀ root (padzero elfBss) :=
    fun st h => by
  unfold padzero
  refine .get (h.derefRoot ?_)
  split
  · exact .pure h
  · exact h.store _ _ _

/-- The pages behind the last segment. -/
lemma setBrk_image {first last : Nat}
    (hle : mm₀.regions = [] → first ≤ 2 ^ 63 ∧ last ≤ 2 ^ 62) (h : Image kend mm₀ F m₀ root st) :
    Post (setBrk kend ld.brk first last) st fun r st' =>
      isErr r = false → Image kend mm₀ F m₀ root st' := by
  unfold setBrk
  split
  · exact (padzero_image first st h).step fun _ st1 h1 => .pure fun _ => h1
  · next hlt =>
    refine (mmapFile_image hld.brk (fun hnil => ?_) h).mono fun r st' h' herr => (h' herr).1
    obtain ⟨hfirst, hlast⟩ := hle hnil
    have hf : roundUp first = (first + 4095) / 4096 * 4096 := roundUp_eq (by omega)
    have hl : roundUp last = (last + 4095) / 4096 * 4096 := roundUp_eq (by omega)
    have hanon : has (mapFixed ||| mapAnonymous ||| mapPrivate) mapAnonymous = true := by decide
    refine ⟨⟨?_, ?_, .inl hanon⟩, ?_⟩
    · show 0 < roundUp last - roundUp first
      omega
    · show roundUp last - roundUp first < 2 ^ 63
      omega
    · show roundUp first + (roundUp last - roundUp first) + 8192 ≤ 2 ^ 64
      omega

/-- The whole interpreter: an error, or its regions are part of the image. -/
lemma mapInterpreter_image (f : Nat) (elf : Ehdr) (h : Image kend mm₀ F m₀ root st) :
    Post (mapInterpreter kend ld f elf) st fun r st' =>
      match r with
      | .error e => isErr e = true
      | .ok _ => Image kend mm₀ F m₀ root st' := by
  have hstart : Placed ld elf (List.range elf.ePhnum) ⟨0, 0, 0, false⟩ :=
    ⟨nofun, fun _ _ => rfl, Nat.zero_le _, Nat.zero_le _⟩
  unfold mapInterpreter
  refine (loadSegments_image hld f elf List.pairwise_lt_range (fun _ => hstart) h).step
    fun r st1 h1 => ?_
  cases r with
  | error e => exact .pure h1
  | ok l => ?_
  obtain ⟨himg, hl⟩ := h1
  refine (padzero_image l.elfBss st1 himg).step fun _ st2 h2 => ?_
  dsimp only
  split
  · have hle : mm₀.regions = [] → roundUp l.elfBss ≤ 2 ^ 63 ∧ l.lastBss ≤ 2 ^ 62 := fun hnil => by
      have hb := (hl hnil).elfBss
      rw [roundUp_eq (by omega)]
      exact ⟨by omega, (hl hnil).lastBss⟩
    refine (setBrk_image hld hle h2).step fun r st3 h3 => ?_
    split
    · next herr => exact .pure herr
    · next herr => exact .pure (h3 (by simpa using herr))
  · exact .pure h2

/-- **`load_interpreter`**. -/
theorem loadInterpreter_image (hops : Nat) (path : List Char) (h : Image kend mm₀ F m₀ root st) :
    Post (loadInterpreter kend ld hops path) st fun r st' => isErr r.1 = false →
      Image kend mm₀ F m₀ root st' := by
  have hread : ∀ f st, Image kend mm₀ F m₀ root st →
    Post (readInterpreter kend ld f) st fun r st' =>
      isErr r.1 = false → Image kend mm₀ F m₀ root st' := fun f st h => by
    unfold readInterpreter
    split
    · exact .pure fun herr => absurd herr (by decide)
    split
    · exact .pure fun herr => absurd herr (by decide)
    refine ((IsQuiet.kmalloc _).keeps st h).step fun b st1 h1 => ?_
    split
    · exact .pure fun herr => absurd herr (by decide)
    split
    · exact ((IsQuiet.kmfree _).keeps st1 h1).step fun _ _ _ =>
        .pure fun herr => absurd herr (by decide)
    refine (mapInterpreter_image hld f _ h1).step fun r st2 h2 => ?_
    refine (IsQuiet.kmfree _ st2).step fun _ st3 hq => ?_
    cases r with
    | error e =>
      refine .pure fun herr => ?_
      rw [show isErr e = true from h2] at herr
      cases herr
    | ok a => exact .pure fun _ => Image.quiet h2 hq
  unfold loadInterpreter
  refine ((IsQuiet.onVfs _).keeps st h).step fun r st1 h1 => ?_
  cases r with
  | error e =>
    refine .pure fun herr => ?_
    cases e <;> exact absurd herr (by decide)
  | ok f =>
    refine (hread f st1 h1).step fun r st2 h2 => ?_
    refine (IsQuiet.onVfs _ st2).step fun _ st3 hq => .pure fun herr => ?_
    exact (h2 herr).quiet hq

end interpreter

end RpiOs.Exec
