import RpiOs.Exec.Image

/-!
# What is left of the old image

`execve` frees the page table of the old image, and neither its regions nor the references of these
on files.

* `exec_replaces_iff`: after a successful call the regions are those of the new image exactly if the
  process had none before.
-/

namespace RpiOs.Exec

open Lib Lib.Radix Vm Mmap

/-! ## The specification -/

/-- How many of the regions hold the file. -/
def fileRefs (rs : List Region) (f : Nat) : Nat := rs.countP fun r => r.f = some f

/-- The whole address space has been replaced: the regions describe mappings of the new page table,
their number is right, none of them is old, and the old ones have given up their files. -/
structure Replaced (s t : Sys) : Prop where
  mapped : ∀ r ∈ t.mem.mm.regions, ∀ k, HasPage r k → t.mem.IsMapped k
  count : t.mem.mm.nregions = t.mem.mm.regions.length
  old : ∀ r ∈ s.mem.mm.regions, r ∉ t.mem.mm.regions
  files : ∀ f, 0 < fileRefs s.mem.mm.regions f →
    (t.vfs.file f).ref + fileRefs s.mem.mm.regions f ≤ (s.vfs.file f).ref

/-- What a call keeps: regions are only added, and if there were none, those there are now are
mapped. -/
def Kept (mm₀ : Mm) (s : Mmap.Sys) : Prop :=
  Grew mm₀ s.mm ∧ (mm₀.regions = [] → s.mm.regions.length = s.mm.nregions ∧
    ∀ r ∈ s.mm.regions, ∀ k, HasPage r k → s.IsMapped k)

/-! ## The call -/

section call

variable {kend root : Nat} {mm₀ : Mm} {F : List Nat} {m₀ : Store Word} {st st' : State} {env : Env}
  {old : Nat}

/-- The interpreter, if the program asks for one. -/
lemma startInterpreter_image (hld : env.ld.Sane) :
    KeepsImage kend mm₀ F m₀ root (startInterpreter kend env) := fun st h => by
  unfold startInterpreter goto
  refine .get ?_
  dsimp only
  split
  · refine (loadInterpreter_image hld _ _ h).step fun r st1 h1 => ?_
    split
    · exact post_throw _
    · next herr => exact .pure (h1 (by simpa using herr))
  · exact .pure h

/-- From the new page table to the last segment. -/
lemma loadImage_image (hcount : mm₀.regions.length = mm₀.nregions) (hloc : st.loc.pgdir = some root)
    (hmm : st.sys.mem.mm = mm₀) (hb : Built kend F m₀ root st.sys.mem.phys) (f : Nat) :
    Post (loadImage kend env f root) st fun _ st' => Image kend mm₀ F m₀ root st' := by
  unfold loadImage
  refine (IsQuiet.readHeaders _ st).step fun elf st1 hq => ?_
  refine .modify ?_
  obtain ⟨n, hn⟩ := hq.phys
  have hb1 : Built kend F m₀ root st1.sys.mem.phys := by
    rw [hn]
    exact built_setFree hb n
  obtain rfl : st1.sys.mem.mm = mm₀ := hq.mm.trans hmm
  have himg : Image kend st1.sys.mem.mm F m₀ root
    { st1 with sys := { st1.sys with mem := { st1.sys.mem with
      mm := { st1.sys.mem.mm with pgdir := root } } } } := by
    refine ⟨hq.pgdir.trans hloc, rfl, .inr ⟨hcount, fun _ => id⟩, fun _ => hb1, fun hnil =>
      .start hb1.space hnil ?_⟩
    show st1.sys.mem.mm.nregions = 0
    rw [← hcount, hnil]
    rfl
  refine .get ?_
  refine ((IsQuiet.flushOldExec _).keeps _ himg).step fun _ st2 h2 => ?_
  refine ((IsQuiet.setError _).keeps st2 h2).step fun _ st3 h3 => ?_
  refine (keeps_forM (loadHeader_image env.program) _ st3 h3).step fun _ st4 h4 => ?_
  exact (IsQuiet.onVfs _).keeps st4 h4

/-- The old address space, in frames that the new one was not built from. -/
structure OldSpace (F : List Nat) (m₀ : Store Word) (old : Nat) : Prop where
  nodup : (pageTables m₀ old).Nodup
  tables : ∀ f ∈ pageTables m₀ old, f ∉ F
  pages : ∀ x ∈ pages m₀ old, frameOf x.2 ∉ F ∧ frameOf x.2 ∉ pageTables m₀ old

lemma oldSpace_of_space {s : Phys} (h : SpaceOk kend s old) : OldSpace s.freelist s.mem old := by
  refine ⟨h.tree.nodup, h.tree.free, fun x hx => ?_⟩
  obtain ⟨hk, he⟩ := mem_pages.mp hx
  have hok := h.entry x.1 hk x.2 he
  exact ⟨hok.not_free, hok.not_table⟩

/-- Freeing the old address space leaves the pages of the new one mapped. -/
lemma OldSpace.free {s : Phys} (h : OldSpace F m₀ old) (hb : Built kend F m₀ root s)
    (regions : List Region) : Ends (vmFree kend regions old) s
      (fun _ s' => ∀ k, pte s'.mem root k = pte s.mem root k) ⊤ := by
  have hmem : ∀ f ∈ pageTables m₀ old, s.mem f = m₀ f := fun f hf => hb.rest f (h.tables f hf)
  have hpt : pageTables s.mem old = pageTables m₀ old := tables_congr hmem
  have hpages : ∀ x, x ∈ Vm.pages s.mem old ↔ x ∈ Vm.pages m₀ old := by
    rintro ⟨vpn, e⟩
    have hpte : pte s.mem old vpn = pte m₀ old vpn := entry_congr (by decide) hmem
    rw [mem_pages, mem_pages, hpte]
  have hnodup : (pageTables s.mem old).Nodup := by rw [hpt]; exact h.nodup
  have hrest := @vmFree_rest kend old s regions hnodup
    fun x hx => by
      rw [hpt]
      exact (h.pages x ((hpages x).mp hx)).2
  refine hrest.imp (fun _ s' hs' k => entry_congr (by decide) fun f hf => ?_)
  have hF : f ∈ F := hb.tables f hf
  refine hs' f (fun hin => h.tables f (hpt ▸ hin) hF) fun x hx heq => ?_
  exact (h.pages x ((hpages x).mp hx)).1 (heq ▸ hF)

/-- The swap: the old pages are freed, the new image and the old list of regions stay. -/
lemma commit_image (hold : OldSpace F m₀ old) (h : Image kend mm₀ F m₀ root st) (stksz : Nat) :
    Post (commit kend old root stksz) st fun _ st' => Kept mm₀ st'.sys.mem := by
  unfold commit
  refine .get ?_
  have hset : Post (setPgdir root) st fun _ st1 => st1.sys.mem.phys = st.sys.mem.phys ∧
      st1.sys.mem.mm = { st.sys.mem.mm with pgdir := root } := (post_modify _).mpr ⟨rfl, rfl⟩
  refine hset.step fun _ st1 h1 => ?_
  refine Post.step (Q := fun _ st2 => Quiet st1 st2) ?_ fun _ st2 hq2 => ?_
  · refine IsQuiet.setSys ?_ st1
    exact fun _ => rfl
  obtain ⟨n, hn⟩ := hq2.phys
  have hfree : mm₀.regions = [] → Built kend F m₀ root st2.sys.mem.phys := fun hnil => by
    rw [hn, h1.1]
    exact built_setFree (h.built hnil) n
  have hpte : ∀ k, pte st2.sys.mem.phys.mem root k = pte st.sys.mem.phys.mem root k := fun k => by
    rw [hn, h1.1]
    rfl
  refine Post.step (Q := fun _ st3 => st3.sys.mem.mm = { st.sys.mem.mm with pgdir := root } ∧
    (mm₀.regions = [] → ∀ k, pte st3.sys.mem.phys.mem root k = pte st.sys.mem.phys.mem root k)) ?_
      ?_
  · unfold freeSpace
    refine .get ?_
    refine (post_onPhys (ends_when fun hnil => hold.free (hfree hnil) _)).mono ?_
    rintro - st3 ⟨p, hp, rfl⟩
    exact ⟨hq2.mm.trans h1.2, fun hnil k => (hp hnil k).trans (hpte k)⟩
  rintro - st3 ⟨hmm3, hpte3⟩
  refine (IsQuiet.kmfree _ st3).step fun _ st4 hq4 => .pure ?_
  obtain ⟨n4, hn4⟩ := hq4.phys
  have hmm : st4.sys.mem.mm = { st.sys.mem.mm with pgdir := root } := hq4.mm.trans hmm3
  refine ⟨by rw [hmm]; exact h.grew, fun hnil => ?_⟩
  have hok := h.ok hnil
  refine ⟨by rw [hmm]; exact hok.count, fun r hr k hk => ?_⟩
  rw [hmm] at hr
  have hmap := hok.mapped r hr k hk
  unfold Sys.IsMapped at hmap ⊢
  rw [h.pgdir, ← hpte3 hnil k] at hmap
  rw [hmm, hn4]
  exact hmap

/-- A new page table is built from the free list. -/
lemma newSpace (hspace : SpaceOk kend st.sys.mem.phys root) :
    Post (onPhys (tryCatch (some <$> vmInit) fun
      | .null => pure none
      | err => throw err)) st fun r st' => ∃ p, st' = st.setMem (st.sys.mem.setPhys p) ∧
        ∀ new, r = some new → Built kend st.sys.mem.phys.freelist st.sys.mem.phys.mem new p := by
  refine (post_onPhys (Q := fun r p => ∀ new, r = some new →
    Built kend st.sys.mem.phys.freelist st.sys.mem.phys.mem new p) ?_).mono fun r st' h => ?_
  · rw [ends_tryCatch, map_eq_pure_bind, ends_bind]
    refine (vmInit_built hspace.free hspace.kend_le).mono (fun new p hb => ?_) fun err p _ => ?_
    · rintro _ ⟨⟩
      exact hb
    cases err with
    | null => exact fun new hn => by cases hn
    | panic | hang | errno e => trivial
  · obtain ⟨p, hp, rfl⟩ := h
    exact ⟨p, rfl, hp⟩

lemma release_failed (old : Nat) (l : Label) :
    Post (release kend old l) st fun r _ => ∃ e, r = .failed e := by
  unfold release
  refine .get ?_
  refine .bind fun _ _ _ => .bind fun _ _ _ => .bind fun _ _ _ =>
    .bind fun _ _ _ => .bind fun _ _ _ => .pure ⟨_, rfl⟩

/-- A call that succeeds has gone through its body. -/
lemma execve_done (hrun : execve kend env st = .ok .done st') : ∃ path,
    body kend env path { st with loc := env.loc } = .ok .done st' := by
  unfold execve at hrun
  rcases hpath : env.path with - | path
  · rw [hpath] at hrun
    cases hrun
  rw [hpath] at hrun
  have hcatch : tryCatch (body kend env path) (leave kend st.sys.mem.mm.pgdir)
      { st with loc := env.loc } = .ok .done st' := hrun
  refine ⟨path, (tryCatch_eq_ok.mp hcatch).resolve_right ?_⟩
  rintro ⟨exit, u, -, hexit⟩
  cases exit with
  | stop e => cases hexit
  | ret r => cases hexit
  | jump l =>
    obtain ⟨e, he⟩ := release_failed _ l _ _ hexit
    cases he

/-- The body leaves an image, and the regions that were there before. -/
lemma body_image (hspace : SpaceOk kend st.sys.mem.phys st.sys.mem.mm.pgdir)
    (hcount : st.sys.mem.mm.regions.length = st.sys.mem.mm.nregions) (hld : env.ld.Sane)
    (path : List Char) :
    Post (body kend env path) st fun _ st' => Kept st.sys.mem.mm st'.sys.mem := by
  unfold body goto
  refine .get ?_
  refine (newSpace hspace).step ?_
  rintro r st1 ⟨p, rfl, hb⟩
  refine .modify ?_
  rcases r with - | new
  · exact post_throw _
  refine (IsQuiet.onVfs (getFile env.hops path) _).step fun r st2 hq2 => ?_
  cases r with
  | error e => exact post_throw _
  | ok f => ?_
  refine Post.step (Q := fun _ st3 => Quiet st2 st3) ?_ fun _ st3 hq3 => ?_
  · refine IsQuiet.setLoc ?_ st2
    exact fun _ => rfl
  have hq := hq2.trans hq3
  obtain ⟨n, hn⟩ := hq.phys
  have hb3 : Built kend st.sys.mem.phys.freelist st.sys.mem.phys.mem new st3.sys.mem.phys := by
    rw [hn]
    exact built_setFree (hb new rfl) n
  refine (loadImage_image hcount hq.pgdir hq.mm hb3 f).step fun _ st4 h4 => ?_
  refine (startInterpreter_image hld st4 h4).step fun _ st5 h5 => ?_
  refine (buildStack_image env st5 h5).step fun stksz st6 h6 => ?_
  exact commit_image (oldSpace_of_space hspace) h6 stksz

/-- **The whole address space is replaced exactly if there was no region**: for every process whose
region list has the length that it is said to have, and every program that `execve` loads. -/
theorem exec_replaces_iff (hspace : SpaceOk kend st.sys.mem.phys st.sys.mem.mm.pgdir)
    (hcount : st.sys.mem.mm.regions.length = st.sys.mem.mm.nregions) (hld : env.ld.Sane)
    (hrun : execve kend env st = .ok .done st') :
    Replaced st.sys st'.sys ↔ st.sys.mem.mm.regions = [] := by
  obtain ⟨path, hbody⟩ := execve_done hrun
  obtain ⟨hgrew, himage⟩ := @body_image kend { st with loc := env.loc } env hspace hcount hld
    path _ _ hbody
  constructor
  · intro hrep
    rcases hgrew with hlt | ⟨-, hold⟩
    · have := hrep.count
      omega
    · refine List.eq_nil_iff_forall_not_mem.mpr fun r hr => ?_
      exact hrep.old r hr (hold r hr)
  intro hnil
  obtain ⟨hlen, hmapped⟩ := himage hnil
  refine ⟨hmapped, hlen.symm, fun r hr => ?_, fun f hf => ?_⟩
  · rw [hnil] at hr
    cases hr
  · rw [hnil] at hf
    cases hf

end call

/-! ## A process that executes a program -/

/-- The root directory has one file, `p`. -/
def oneFile : Vfs.Sys where
  card p :=
    if p = ⟨1, 1⟩ then
      ⟨⟨.dir, 0, 0, 1, 0o755, 0, 0⟩, [⟨1, .dir, Vfs.dot⟩, ⟨1, .dir, Vfs.dotdot⟩, ⟨2, .file, ['p']⟩],
        []⟩
    else if p = ⟨1, 2⟩ then ⟨⟨.file, 0, 0, 1, 0o755, 0, 0⟩, [], []⟩
    else ⟨.zero .free, [], []⟩
  ninodes _ := 8
  icache p := if p = ⟨1, 1⟩ then ⟨.zero .dir, 1, false, false⟩ else ⟨.zero .free, 0, false, false⟩
  inUse := 1
  mpoint _ := ⟨none, none, none, false⟩
  vfsmlist := [(Vfs.sdmajor, 1)]
  logEnabled i := i = 1
  outstanding _ := 0
  ops := 0
  file _ := ⟨.none, 0, ⟨0, 0⟩, false, false⟩
  proc _ := ⟨⟨1, 1⟩, fun _ => none, 0, 0, 0, 0, 0, [], 0o22, true, true⟩
  thisproc := 0

/-- A header with two program headers. -/
def twoHeaders : Ehdr where
  eIdent i := if i = 0 then 0x7f else if i = 1 then 0x45 else if i = 2 then 0x4c else if i =
    3 then 0x46 else 2
  eType := etDyn
  eMachine := emAarch64
  ePhentsize := 56
  ePhnum := 2
  eEntry := 0x400000

/-- A program of one segment, with some memory beyond its file, that names itself as its
interpreter. -/
def interpreted : Program where
  ehdr := some twoHeaders
  phmem := ⟨true, 0⟩
  phread := true
  phdr i := if i = 0 then ⟨ptInterp, 4, 0, 0, 3, 3⟩ else ⟨ptLoad, 5, 0, 0x400000, 100, 200⟩
  interpMem _ := ⟨true, 0⟩
  interp _ := some ['/', 'p']
  segment _ := some fun _ => 1

/-- An interpreter of two segments, the code and the data. -/
def twoSegments : Interp where
  ehdr := some twoHeaders
  phmem := ⟨true, 0⟩
  phread := true
  phdr i := if i = 0 then ⟨ptLoad, 5, 0, 0, 100, 100⟩ else ⟨ptLoad, 6, 0x1000, 0x1000, 100, 200⟩
  load _ := ⟨true, 0, fun _ _ => .ok fun _ => 1, 0⟩
  brk := ⟨true, 0, fun _ _ => .ok fun _ => 0, 0⟩

/-- `execve("/p", argv, envp)`, with one argument. -/
def execP : Env where
  path := some ['/', 'p']
  hops := 0
  junkFile := none
  program := interpreted
  ld := twoSegments
  argv := [[0x70, 0]]
  envp := []
  ustack _ := 0

/-- A process with the address space `mem`. -/
def process (mem : Mmap.Sys) : State where
  sys :=
    { mem := mem
      vfs := oneFile
      cred := ⟨0, 0, 0, 0, 0, 0, 0, 0, 0, 0, 0⟩
      fdflag := fun _ => false
      actions := fun _ => ⟨0, 0, 0, 0⟩
      paused := false
      base := 0
      sz := 0
      stksz := 0
      blocks := []
      nextBlock := 0
      heapFrames := 0 }
  loc := execP.loc

/-- The interpreter of the example is laid out as it should be. -/
lemma execP_sane : execP.ld.Sane := by
  have hphdr : ∀ i, (execP.ld.phdr i).pVaddr = (if i = 0 then 0 else 0x1000) ∧
      (execP.ld.phdr i).pFilesz = 100 ∧ (execP.ld.phdr i).pMemsz ≤ 200 := by
    rintro (- | i)
    · decide
    · exact ⟨rfl, rfl, le_refl 200⟩
  refine ⟨fun i _ => ?_, fun i _ => ?_, fun i j hij _ _ => ?_, fun _ _ _ e h => ?_,
    fun _ _ e h => ?_⟩
  · obtain ⟨hv, hf, hm⟩ := hphdr i
    split at hv <;> omega
  · have := (hphdr i).2.1
    omega
  · rw [(hphdr i).1, (hphdr j).1]
    split <;> split <;> omega
  · cases h
  · cases h

/-- A page table with one page of image, at frame 30. -/
def oneImage : Mmap.Sys :=
  ⟨stateOf (uvmAlloc 16 30 0x400000 0 0x400000 0x401000) (stateOf vmInit startPhys),
    ⟨30, [], 0⟩, []⟩

lemma oneImage_space : SpaceOk 16 oneImage.phys oneImage.mm.pgdir := by
  have hok := startSys_ok.space
  have hinit := eq_ok_of_valueOf (x := vmInit) (s := startPhys) (a := 30) (by decide +kernel)
  have hb := Ends.ok (vmInit_built hok.free hok.kend_le) hinit
  have halloc := eq_ok_of_valueOf (x := uvmAlloc 16 30 0x400000 0 0x400000 0x401000)
    (s := stateOf vmInit startPhys) (a := 0x401000) (by decide +kernel)
  exact (Ends.ok (uvmAlloc_built hb ..) halloc (by decide)).1.space

/-- **The two regions of the interpreter**, and no page of the old image, are there after the
call. -/
theorem exec_replaces_interpreted : ∃ st', execve 16 execP (process oneImage) = .ok .done st' ∧
    pte oneImage.phys.mem oneImage.mm.pgdir 0x400 ≠ none ∧ st'.sys.mem.mm.regions.length = 2 ∧
    Replaced (process oneImage).sys st'.sys := by
  have hrun := eq_ok_of_valueOf (x := execve 16 execP) (s := process oneImage) (a := .done)
    (by decide +kernel)
  exact ⟨_, hrun, by decide +kernel, by decide +kernel,
    (exec_replaces_iff oneImage_space rfl execP_sane hrun).mpr rfl⟩

/-- A process that has mapped one page. -/
def oneRegion : Mmap.Sys := stateOf ((mapAnon 0 4096 0).run 16) startSys

/-- What its list holds. -/
def mappedPage : Region := ⟨mmapbase, 4096, 0, none, 3, mapPrivate ||| mapAnonymous⟩

lemma execP_oneRegion : Ends (execve 16 execP) (process oneRegion) (fun r st' => r = .done ∧
    mappedPage ∈ st'.sys.mem.mm.regions ∧
    pte st'.sys.mem.phys.mem st'.sys.mem.mm.pgdir (mmapbase / 4096) = none) := by
  decide +kernel

/-- **The regions of the old image stay**: the call succeeds, the region from before is still in the
list, and the page that it describes is not mapped. -/
theorem exec_keeps_regions : ∃ st', execve 16 execP (process oneRegion) = .ok .done st' ∧
    (process oneRegion).sys.mem.mm.regions = [mappedPage] ∧ mappedPage ∈ st'.sys.mem.mm.regions ∧
    pte st'.sys.mem.phys.mem st'.sys.mem.mm.pgdir (mmapbase / 4096) = none ∧
    ¬ Replaced (process oneRegion).sys st'.sys := by
  have hold : (process oneRegion).sys.mem.mm.regions = [mappedPage] := by decide +kernel
  obtain ⟨r, st', hrun, rfl, hnew, hpte⟩ := execP_oneRegion.returns
  refine ⟨st', hrun, hold, hnew, hpte, fun hrep => ?_⟩
  exact hrep.old _ (hold ▸ List.mem_singleton_self _) hnew

end RpiOs.Exec
