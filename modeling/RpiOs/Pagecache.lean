import RpiOs.Kernel.Shared
import RpiOs.Lib.Bytes
import RpiOs.Lib.Fallible

/-!
# The page cache

`copy_pages` copies a range of a file page by page out of the page cache, which reads a page that it
does not have. The cache's pages are its own and the destination lies outside of them. The sleep
locks of the pages and the log operation around `readi` are left out.

* `copyPages_copies`: the range is copied and nothing else is written.
-/

namespace RpiOs.Pagecache

open Lib

/-- Source: `struct cached_page` -/
structure CachedPage where
  page : Bytes
  dev : Nat
  inum : Nat
  offset : Nat

/-- The `NPAGECACHE` pages, the memory they are copied to, and where in its page and how much each
call of `copy_page` copied, the latest first. -/
structure State where
  pages : List CachedPage
  totalCount : Nat
  mem : Bytes
  moves : List (Nat × Nat)

/-- A file and its `readi`: what it returns, negative if it fails, and what it leaves in the
buffer. -/
structure Inode where
  dev : Nat
  inum : Nat
  size : Nat
  size_lt : size < 2 ^ 32
  data : Bytes
  readi : Bytes → Nat → Nat → Int × Bytes
  reads : ∀ dst off n, 0 ≤ (readi dst off n).1 → ∀ k < n, off + k < size →
    (readi dst off n).2 k = data (off + k)

/-- `ENOMEM`. -/
def findPage (s : State) (inum offset dev : Nat) : Option CachedPage :=
  s.pages.find? fun p => p.inum = inum ∧ p.offset = offset ∧ p.dev = dev

/-- A page that cannot be read has the tag of the page that was there, but no longer its bytes. -/
def getPage (ip : Inode) (offset : Nat) : EStateM Int State CachedPage := do
  let offset := offset - offset % 4096
  let s ← get
  match findPage s ip.inum offset ip.dev with
  | some p => pure p
  | none =>
    let i := s.totalCount
    let n := ip.readi zeroBytes offset 4096
    let s := { s with totalCount := if i + 1 = s.pages.length then 0 else i + 1 }
    if n.1 < 0 then do
      set { s with pages := s.pages.modify i ({ · with page := n.2 }) }
      throw (-(enomem : Int))
    else do
      let p := ⟨n.2, ip.dev, ip.inum, offset⟩
      set { s with pages := s.pages.set i p }
      pure p

/-- `copy_page`. -/
def copyPage (ip : Inode) (offset dest size destOffset : Nat) : EStateM Int State Unit := do
  let p ← getPage ip offset
  modify fun s => { s with
    mem := splice s.mem dest p.page destOffset size
    moves := (destOffset, size) :: s.moves }

/-- The loop of `copy_pages`. -/
def copyLoop (ip : Inode) : (pages ioff addr size sz doff : Nat) → EStateM Int State Unit
  | 0, _, _, _, _, _ => pure ()
  | n + 1, ioff, addr, size, sz, doff => do
    copyPage ip ioff addr sz doff
    let size := size - sz
    copyLoop ip n (ioff + 4096) (addr + sz) size (if size > 4096 then 4096 else size) 0

/-- The number of pages is an `int`. -/
def copyPages (ip : Inode) (dest size offset : Nat) : EStateM Int State Unit := do
  let ioff := if offset < 4096 then 0 else offset - offset % 4096
  let doff := offset % 4096
  let sz := if doff + size > 4096 then 4096 - doff else size
  let pages := (BitVec.ofNat 32 ((size + doff + 4096 - 1) / 4096)).toInt
  copyLoop ip pages.toNat ioff dest size sz doff

/-- The page has the bytes of the file from the offset on. -/
def Shows (ip : Inode) (page : Bytes) (offset : Nat) : Prop :=
  ∀ k < 4096, offset + k < ip.size → page k = ip.data (offset + k)

/-- The cached pages of the file have its bytes. -/
def Coherent (ip : Inode) (s : State) : Prop :=
  ∀ p ∈ s.pages, p.dev = ip.dev → p.inum = ip.inum → Shows ip p.page p.offset

/-- Every call made between the two states stays inside one page. -/
def Inside (s t : State) : Prop := ∃ l, t.moves = l ++ s.moves ∧ ∀ mv ∈ l, mv.1 + mv.2 ≤ 4096

variable {ip : Inode} {s t : State} {offset dest size destOffset : Nat}

/-- `get_page` returns a page that shows the file at the offset, found or newly read. -/
lemma getPage_post (hc : Coherent ip s) (haligned : offset % 4096 = 0) :
    Post (getPage ip offset) s fun p t =>
    Coherent ip t ∧ t.mem = s.mem ∧ t.moves = s.moves ∧ Shows ip p.page offset := by
  unfold getPage
  rw [haligned, Nat.sub_zero]
  refine .get ?_
  split
  · next p hp =>
    have htag := List.find?_some hp
    simp only [decide_eq_true_eq] at htag
    obtain ⟨hinum, rfl, hdev⟩ := htag
    exact .pure ⟨hc, rfl, rfl, hc p (List.mem_of_find?_eq_some hp) hdev hinum⟩
  · dsimp only
    split
    · simp
    · next hn =>
      have hread : Shows ip _ offset := ip.reads zeroBytes offset 4096 (not_lt.mp hn)
      simp only [post_bind, post_pure, post_set]
      refine ⟨fun p hp => ?_, trivial, trivial, hread⟩
      rcases List.mem_or_eq_of_mem_set hp with hp | rfl
      · exact hc p hp
      · exact fun _ _ => hread

/-- One call inside a page copies the bytes of the file. -/
lemma copyPage_post (hc : Coherent ip s) (haligned : offset % 4096 = 0)
    (hin : destOffset + size ≤ 4096) (hsize : ∀ k < size, offset + destOffset + k < ip.size) :
    Post (copyPage ip offset dest size destOffset) s fun _ t =>
      Coherent ip t ∧ t.mem = splice s.mem dest ip.data (offset + destOffset) size ∧
        t.moves = (destOffset, size) :: s.moves := by
  refine (getPage_post hc haligned).step fun p t ⟨hct, hmem, hmoves, hpage⟩ => ?_
  rw [post_modify]
  refine ⟨hct, ?_, congrArg _ hmoves⟩
  dsimp only
  rw [hmem]
  refine splice_congr _ fun k hk => ?_
  have := hsize k hk
  rw [hpage _ (by omega) (by omega), Nat.add_assoc]

/-- **The loop copies the rest of the range.** -/
lemma copyLoop_post {pages ioff addr sz doff : Nat} (hc : Coherent ip s)
    (haligned : ioff % 4096 = 0) (hdoff : doff < 4096) (hsz : sz = min size (4096 - doff))
    (hpages : pages = (size + doff + 4096 - 1) / 4096) (hsize :
    ∀ k < size, ioff + doff + k < ip.size) :
    Post (copyLoop ip pages ioff addr size sz doff) s fun _ t =>
      t.mem = splice s.mem addr ip.data (ioff + doff) size ∧ Inside s t := by
  induction pages generalizing s ioff addr size sz doff with
  | zero =>
    obtain rfl : size = 0 := by omega
    exact .pure ⟨(splice_zero ..).symm, [], rfl, by simp⟩
  | succ pages ih =>
    have hle : sz ≤ size ∧ doff + sz ≤ 4096 := by omega
    refine (copyPage_post hc haligned hle.2 fun k hk => hsize k (by omega)).step
      fun _ t ⟨hct, hmem, hmoves⟩ => ?_
    have hrest : size - sz ≠ 0 → ioff + 4096 = ioff + doff + sz := by omega
    refine (ih hct (by omega) (by omega) ?_ (by omega) fun k hk => ?_).mono
      fun _ t' ⟨hmem', l, hl, hall⟩ => ⟨?_, l ++ [(doff, sz)], ?_, ?_⟩
    · grind
    · have := hsize (sz + k) (by omega)
      omega
    · rw [hmem', hmem]
      by_cases h0 : size - sz = 0
      · rw [h0, splice_zero, show sz = size by omega]
      · rw [Nat.add_zero, hrest h0, splice_append, Nat.add_sub_cancel' hle.1]
    · rw [hl, hmoves, List.append_assoc]
      rfl
    · simpa [or_imp, forall_and] using And.intro (fun a b => hall (a, b)) hle.2

/-- **`copy_pages` copies the range of the file**, and nothing but it. -/
theorem copyPages_copies (hc : Coherent ip s) (hsize : offset + size ≤ ip.size)
    (hrun : copyPages ip dest size offset s = .ok () t) :
    (∀ k < size, t.mem (dest + k) = ip.data (offset + k)) ∧
      (∀ a, a < dest ∨ dest + size ≤ a → t.mem a = s.mem a) ∧ Inside s t := by
  have hlt := ip.size_lt
  have hpages : (BitVec.ofNat 32 ((size + offset % 4096 + 4096 - 1) / 4096)).toInt.toNat =
      (size + offset % 4096 + 4096 - 1) / 4096 := by
    rw [BitVec.toInt_eq_toNat_of_lt (by rw [BitVec.toNat_ofNat]; omega), BitVec.toNat_ofNat]
    omega
  have hioff : (if offset < 4096 then 0 else offset - offset % 4096) = offset - offset % 4096 := by
    split <;> omega
  unfold copyPages at hrun
  rw [hioff, hpages] at hrun
  obtain ⟨hmem, hin⟩ := copyLoop_post hc (by omega) (by omega) (by split <;> omega) rfl
    (fun k hk => by omega) () t hrun
  rw [Nat.sub_add_cancel (Nat.mod_le ..)] at hmem
  refine ⟨fun k hk => ?_, fun a ha => ?_, hin⟩ <;> rw [hmem, splice]
  · rw [if_pos (by omega), Nat.add_sub_cancel_left]
  · exact if_neg (by omega)

/-- A file of ones. -/
def ones : Inode := ⟨1, 1, 8000, of_decide_eq_true rfl, fun _ => 1, fun _ _ n => (n, fun _ => 1),
    fun _ _ _ _ _ _ _ => rfl⟩

/-- A cache that has read no page yet. -/
def started : State := ⟨[⟨zeroBytes, 0, 0, 0⟩, ⟨zeroBytes, 0, 0, 0⟩], 0, zeroBytes, []⟩

/-- A copy that crosses from one page into the next. -/
theorem copyPages_copies_two : ∃ t, copyPages ones 0 4000 1000 started = .ok () t ∧
    (∀ k < 4000, t.mem (0 + k) = 1) ∧ (∀ a, a < 0 ∨ 0 + 4000 ≤ a → t.mem a = 0) ∧
    Inside started t := by
  obtain ⟨t, ht⟩ : ∃ t, copyPages ones 0 4000 1000 started = .ok () t := ⟨_, rfl⟩
  exact ⟨t, ht, copyPages_copies (by simp [Coherent, started, ones]) (by decide) ht⟩

end RpiOs.Pagecache
