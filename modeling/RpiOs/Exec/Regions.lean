import RpiOs.Exec.Model

/-!
# The regions of a process while it loads an image

`execve` never looks at the region list of the old image; `mmap`, called for the interpreter, links
new regions into it.
-/

namespace RpiOs.Exec

open Lib Vm Mmap

/-! ## Error numbers -/

/-- An error number is one that `IS_ERR` knows. -/
def ErrnoOk (err : Fault) : Prop := ∀ e, err = .errno e → 0 < e ∧ e ≤ 4095

/-- Reading a file fails with an error number. -/
def ReadsOk (env : Mmap.Env) : Prop :=
  ∀ offset n e, env.content offset n = .error e → 0 < e ∧ e ≤ 4095

variable {kend : Nat} {P : Fault → Prop}

lemma errnoOk_panic : ErrnoOk .panic := fun _ he => nomatch he

lemma errnoOk_errno {e : Nat} (h : 0 < e ∧ e ≤ 4095) : ErrnoOk (.errno e) := fun _ he => by
  cases he
  exact h

lemma throws_kalloc : Throws kalloc P := fun s =>
  (kalloc_spec s).mono (fun _ _ _ => trivial) fun _ _ he => he.elim

lemma throws_kfree (f : Nat) : Throws (kfree kend f) ErrnoOk := by
  unfold kfree
  split
  · exact .throw errnoOk_panic
  · exact .modify _

/-- A walk through the tables fails with no error number. -/
lemma throws_walk (alloc : Bool) (h : Nat) (pgt vpn : Nat) : Throws (walk alloc h pgt vpn) P := by
  induction h generalizing pgt with
  | zero => exact .pure _
  | succ h ih => ?_
  unfold walk
  refine .bind .get fun s => ?_
  split
  · exact ih _
  split
  · refine .bind throws_kalloc fun p => ?_
    split
    · exact .bind (.modify _) fun _ => .bind (.modify _) fun _ => ih _
    · exact .pure _
  · exact .pure _

/-- `uvm_map` fails with an error number. -/
lemma throws_uvmMap (pgdir va sz f : Nat) : Throws (uvmMap pgdir va sz f) ErrnoOk := by
  unfold uvmMap
  split
  · exact .throw errnoOk_panic
  refine .forM (fun i => ?_) _
  unfold mapPage
  refine .bind (throws_walk true 3 _ _) fun r => ?_
  split
  · exact .throw (errnoOk_errno (by decide))
  refine .bind .get fun s => ?_
  split
  · exact .throw (errnoOk_errno (by decide))
  · exact .set _

/-- So does `uvm_unmap`. -/
lemma throws_uvmUnmap (pgdir va n : Nat) : Throws (uvmUnmap kend pgdir va n) ErrnoOk := by
  unfold uvmUnmap
  split
  · exact .throw errnoOk_panic
  refine .forM (fun i => ?_) _
  unfold unmapPage
  refine .bind (throws_walk false 3 _ _) fun r => ?_
  split
  · exact .throw errnoOk_panic
  refine .bind .get fun s => ?_
  dsimp only
  split
  · exact .throw errnoOk_panic
  refine .bind (.modify _) fun _ => .bind ?_ fun _ => .modify _
  unfold freeIfUnused getKmemRef
  refine .bind (.bind .get fun _ => .pure _) fun n => ?_
  split
  · exact throws_kfree _
  · exact .pure _

/-- So does the loading of one page, if reading does. -/
lemma throws_mapFresh (pgdir va : Nat) {content : Except Nat (Nat → Word)}
    (h : ∀ e, content = .error e → 0 < e ∧ e ≤ 4095) :
    Throws (mapFresh kend pgdir va content) ErrnoOk := by
  unfold mapFresh
  refine .bind throws_kalloc fun r => ?_
  split
  · exact .throw (errnoOk_errno (by decide))
  split
  · exact .bind (throws_kfree _) fun _ => .throw (errnoOk_errno (h _ rfl))
  refine .bind (.modify _) fun _ => ?_
  refine .tryCatch (throws_uvmMap pgdir va 4096 _) fun err herr => ?_
  unfold undoPage
  split
  · exact .bind (throws_kfree _) fun _ => .throw herr
  · exact .throw herr

/-- And that of a range. -/
lemma throws_mapPages (pgdir addr : Nat) {content : Nat → Except Nat (Nat → Word)}
    (h : ∀ i e, content i = .error e → 0 < e ∧ e ≤ 4095) (n i : Nat) :
    Throws (mapPages kend pgdir addr content i n) ErrnoOk := by
  induction n generalizing i with
  | zero => exact .pure _
  | succ n ih => ?_
  unfold mapPages
  refine .bind (.tryCatch (throws_mapFresh _ _ (h i)) fun err herr => ?_) fun _ => ih _
  unfold undoPages
  split
  · split
    · exact .throw herr
    · exact .bind (throws_uvmUnmap _ _ _) fun _ => .throw herr
  · exact .throw herr

lemma throws_mmapLoadPages {env : Mmap.Env} (henv : ReadsOk env) (pgdir addr length : Nat)
    (flags : BitVec 32) (f : Option Nat) (offset : Nat) :
    Throws (mmapLoadPages kend env pgdir addr length flags f offset) ErrnoOk := by
  unfold mmapLoadPages
  split
  · exact throws_mapPages _ _ (fun _ _ he => by cases he) _ _
  split
  · exact .throw errnoOk_panic
  · exact throws_mapPages _ _ (fun _ e he => henv _ _ e he) _ _

/-! ## What `mmap` did -/

variable {env : Mmap.Env} {a : MmapArgs} {s s' : Mmap.Sys} {r : Int}

/-- The region that `mmap` makes. -/
def newRegion (a : MmapArgs) (addr : Nat) : Region :=
  ⟨addr, roundUp a.length, a.offset, a.f, a.prot, a.flags⟩

/-- The pages were loaded and the region linked. -/
structure MappedAt (kend : Nat) (env : Mmap.Env) (a : MmapArgs) (addr : Nat) (s s' : Mmap.Sys)
    (p : Phys) :
    Prop where
  node : env.node = true
  load : mmapLoadPages kend env s.mm.pgdir addr a.length a.flags a.f a.offset
    (afterNode env s.phys) =
    .ok () p
  state : s' = (s.setPhys p).setRegions (linkRegion s.mm (newRegion a addr)) (s.mm.nregions + 1)

/-- What `mmap` at an address has done if it returns no error. -/
lemma mapAt_inv (henv : ReadsOk env) {addr : Nat} : Ends (mapAt kend env a addr) s
    (fun r s' => isErr r = false → r = addr ∧ ∃ p, MappedAt kend env a addr s s' p)
      ⊤ := by
  unfold mapAt allocNode
  simp only [ends_bind, ends_onFrames, ends_modify, ends_pure]
  rcases hnode : env.node with - | -
  · exact fun herr => absurd herr (by decide)
  simp only [Bool.not_true, Bool.false_eq_true, if_false, ends_bind, ends_get, ends_set,
    ends_tryCatch, ends_onFrames, ends_modify, ends_pure]
  show Ends (mmapLoadPages kend env s.mm.pgdir addr a.length a.flags a.f a.offset)
    (afterNode env s.phys) _ _
  cases hl : mmapLoadPages kend env s.mm.pgdir addr a.length a.flags a.f a.offset
      (afterNode env s.phys) with
  | ok u p =>
    rw [ends_of_ok hl]
    exact fun _ => ⟨trivial, p, hnode, hl, rfl⟩
  | error err p =>
    rw [ends_of_error hl]
    have hok := (ends_of_error hl).mp (throws_mmapLoadPages henv _ _ _ _ _ _ _)
    cases err with
    | errno e =>
      intro herr
      have := hok e rfl
      simp only [isErr, decide_eq_false_iff_not] at herr
      omega
    | panic | null | hang => trivial

/-- What a call of `mmap` did that did not return an error. -/
inductive MmapDone (kend : Nat) (env : Mmap.Env) (a : MmapArgs) (s : Mmap.Sys) :
    Int → Mmap.Sys → Prop where
  | nothing {r : Int} (value : r = einval) : MmapDone kend env a s r s
  | closed {r : Int} (n : Nat) (p : Phys) (choice : chooseAddr s.mm a = .protect)
      (run : protectPages s.mm.pgdir a.addr 0 (a.length / 4096) s.phys = .ok n p)
        (value : r = a.addr) :
      MmapDone kend env a s r (s.setPhys p)
  | mapped {r : Int} (addr : Nat) (s' : Mmap.Sys) (p : Phys)
    (choice : chooseAddr s.mm a = .addr addr)
      (top : add64 addr (roundUp a.length) ≤ usertop) (done : MappedAt kend env a addr s s' p)
      (value : r = addr) : MmapDone kend env a s r s'

/-- **`mmap`**, in any state. -/
theorem mmap_inv (henv : ReadsOk env) : Ends (mmap kend env a) s
    (fun r s' => isErr r = false → MmapDone kend env a s r s') ⊤ := by
  unfold mmap
  rw [ends_bind, ends_get]
  cases hc : chooseAddr s.mm a with
  | result r =>
    intro herr
    -- the refusals of step 1 are a negative number and a positive one
    have hval : r = einval ∨ r = -einval := by
      unfold chooseAddr at hc
      split_ifs at hc <;> cases hc <;> simp
    rcases hval with rfl | rfl
    · exact .nothing rfl
    · exact absurd herr (by decide)
  | protect =>
    simp only [ends_bind, ends_onFrames]
    cases hp : protectPages s.mm.pgdir a.addr 0 (a.length / 4096) s.phys with
    | error err p =>
      rw [ends_of_error hp]
      trivial
    | ok n p =>
      rw [ends_of_ok hp]
      split
      · exact fun _ => .closed n p hc hp rfl
      · exact fun herr => absurd herr (by decide)
  | addr addr =>
    dsimp only
    split
    · exact fun herr => absurd herr (by decide)
    · next htop =>
      refine (mapAt_inv henv).imp (fun r s' h herr => ?_)
      obtain ⟨hr, p, hp⟩ := h herr
      exact .mapped addr s' p hc (Nat.not_lt.mp htop) hp hr

/-! ## The list and its count -/

/-- Since `mm₀`, regions were added, or the list is shorter than its count says. -/
def Grew (mm₀ mm : Mm) : Prop :=
  mm.regions.length < mm.nregions ∨
    mm.regions.length = mm.nregions ∧ ∀ r ∈ mm₀.regions, r ∈ mm.regions

variable {mm₀ mm : Mm} {region : Region} {seen rs : List Region}

/-- `link_region` loses a node, or the list has one more. -/
lemma linkFrom_cases (hne : rs ≠ []) :
    (linkFrom region seen rs).length < seen.length + rs.length + 1 ∨
    (linkFrom region seen rs).Perm (region :: (seen ++ rs)) := by
  induction rs generalizing seen with
  | nil => exact absurd rfl hne
  | cons node rest ih => ?_
  unfold linkFrom
  split
  · cases seen with
    | nil => exact .inr (List.Perm.refl _)
    | cons q seen =>
      left
      simp only [List.length_cons]
      omega
  split
  · right
    have hmove : (node :: region :: rest).Perm (region :: node :: rest) := List.Perm.swap ..
    exact (hmove.append_left seen).trans List.perm_middle
  split
  · next hrest =>
    right
    subst hrest
    have hmove : [node, region].Perm [region, node] := List.Perm.swap ..
    exact (hmove.append_left seen).trans List.perm_middle
  · next hrest =>
    have hih := @ih (seen ++ [node]) hrest
    rw [List.append_assoc, List.singleton_append] at hih
    refine hih.imp_left fun hlt => ?_
    simp only [List.length_append, List.length_cons, List.length_nil] at hlt ⊢
    omega

/-- A new region leaves the old ones in the list, or the list too short. -/
lemma Grew.link (h : Grew mm₀ mm) (pgdir : Nat) :
    Grew mm₀ ⟨pgdir, linkRegion mm region, mm.nregions + 1⟩ := by
  unfold Grew linkRegion
  dsimp only
  split
  · next hzero =>
    rcases h with hlt | ⟨heq, hold⟩
    · omega
    right
    rw [List.length_eq_zero_iff.mp (heq.trans hzero)] at hold
    exact ⟨by rw [hzero]; rfl, fun r hr => absurd (hold r hr) List.not_mem_nil⟩
  · next hzero =>
    rcases hrs : mm.regions with - | ⟨q, rest⟩
    · left
      show 0 < mm.nregions + 1
      omega
    have hlink := @linkFrom_cases region [] _ (List.cons_ne_nil q rest)
    rcases hlink with hlt | hperm
    · left
      rcases h with h | h <;> rw [hrs] at h <;> simp only [List.length_nil] at hlt <;> omega
    have hlen := hperm.length_eq
    rw [List.nil_append] at hperm hlen
    rw [hlen, List.length_cons]
    rcases h with h | ⟨heq, hold⟩
    · left
      rw [hrs] at h
      omega
    right
    rw [hrs] at heq hold
    exact ⟨by omega, fun r hr => hperm.mem_iff.mpr (List.mem_cons_of_mem _ (hold r hr))⟩

lemma Grew.mmap
    (h : Grew mm₀ s.mm) (hdone : MmapDone kend env a s r s') : Grew mm₀ s'.mm := by
  cases hdone with
  | nothing _ => exact h
  | closed n p _ _ _ => exact h
  | mapped addr _ p _ _ done _ =>
    rw [done.state]
    exact h.link _

end RpiOs.Exec
