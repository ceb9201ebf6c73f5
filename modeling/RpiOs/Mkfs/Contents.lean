import RpiOs.Mkfs.Layout

/-!
# The files of an image

`Holds s content` says what is in an image while it is built: the inode `f` has the size and the
bytes of `content f`. `ialloc_ends` and `iappend_ends` say how the two calls change the contents,
`balloc_ends` that the bitmap makes the image what `Img.seen` said it would be.

* **`mkfs_layout`**: the kernel that boots from the image reads from each inode what was appended to
  it, and from that of the root directory, whose size is rounded up in the end, zeros after it.
-/

namespace RpiOs.Mkfs

open Lib Kernel RedoLog V6 Function

/-! ## Inodes of the image -/

/-- The sectors after `winode`. -/
def Img.putInode (s : Img) (inum : Nat) (din : Dinode) : Img :=
  s.put (sb.iblock inum) (setWords (s.sect (sb.iblock inum)) (dinodeWords * (inum % ipb))
    ((List.range dinodeWords).map din))

/-- The inodes that were allocated. -/
def Img.live (s : Img) (f : Nat) : Prop := 1 ≤ f ∧ f < s.freeinode

variable {s : Img} {inum f : Nat} {din : Dinode} {R : Exit → Img → Prop}

lemma iblock_lt_bmapstart (hi : inum < ninode) : sb.iblock inum < sb.bmapstart :=
  @Fs.iblock_lt rootFs _ hi

lemma iblock_lt_fssize (hi : inum < ninode) : sb.iblock inum < fssize :=
  Nat.lt_trans (iblock_lt_bmapstart hi) (by decide)

lemma ends_rinode (hi : inum < ninode) {Q : Dinode → Img → Prop} :
    Ends (rinode inum) s Q R ↔ Q (dinodeWord sb s.sect inum) s := by
  unfold rinode
  rw [ends_bind, ends_rsect, if_pos (iblock_lt_fssize hi), ends_pure]
  rfl

lemma ends_winode (hi : inum < ninode) {Q : PUnit → Img → Prop} :
    Ends (winode inum din) s Q R ↔ Q ⟨⟩ (s.putInode inum din) := by
  unfold winode
  rw [ends_bind, ends_rsect, if_pos (iblock_lt_fssize hi), ends_wsect]
  rfl

lemma dinodeWord_putInode_self {j : Nat} (hj : j < dinodeWords) :
    dinodeWord sb (s.putInode inum din).sect inum j = din j % 2 ^ 32 := by
  unfold dinodeWord Img.putInode
  rw [Img.put_sect, update_self, word_setWords _ _ _ _ (by simpa using hj)]
  simp

lemma dinodeWord_putInode_of_ne {j : Nat} (hj : j < dinodeWords) (hf : f ≠ inum) :
    dinodeWord sb (s.putInode inum din).sect f j = dinodeWord sb s.sect f j := by
  have hlen : ((List.range dinodeWords).map din).length ≤ dinodeWords := by simp
  refine dinodeWord_setWords hlen hf hj ?_
  funext x
  exact update_apply ..

lemma putInode_sect_of_ge (hi : inum < ninode) {x : Nat} (hx : sb.bmapstart ≤ x) :
    (s.putInode inum din).sect x = s.sect x :=
  update_of_ne (Nat.ne_of_gt (Nat.lt_of_lt_of_le (iblock_lt_bmapstart hi) hx)) ..

lemma putInode_seen_of_ge (hi : inum < ninode) {x : Nat} (hx : sb.bmapstart ≤ x) :
    (s.putInode inum din).seen x = s.seen x := by
  unfold Img.seen marked
  rw [putInode_sect_of_ge hi hx]
  rfl

/-- Writing an inode touches no block that is still free. -/
lemma Fresh.putInode (hs : Fresh s) (hi : inum < ninode) : Fresh (s.putInode inum din) where
  low := hs.low
  high := hs.high
  zero x hx hlt := by
    have hmeta : sb.bmapstart ≤ nmeta := by decide
    rw [putInode_sect_of_ge hi (Nat.le_trans hmeta (Nat.le_trans hs.low hx))]
    exact hs.zero x hx hlt
  bitmap x hx hlt := by
    rw [putInode_sect_of_ge hi hx]
    exact hs.bitmap x hx hlt
  header := by
    have hlog : sb.logstart < sb.inodestart := by decide
    have hlt : sb.logstart < sb.iblock inum := Nat.lt_of_lt_of_le hlog (Nat.le_add_left ..)
    rw [Img.putInode, Img.put_sect, update_of_ne (Nat.ne_of_lt hlt)]
    exact hs.header

/-! ## Contents -/

/-- What the image holds. -/
structure Holds (s : Img) (content : Nat → List (BitVec 8)) : Prop where
  fresh : Fresh s
  inodes : s.freeinode ≤ ninode
  forest : Forest rootFs s.live s.seen (dinodeAddrs sb s.sect)
  size : ∀ f, s.live f → dinodeWord sb s.sect f 2 = (content f).length
  present : ∀ f, s.live f → Present s.seen (dinodeAddrs sb s.sect f) 0 (content f).length
  /-- what follows the contents in the last block is zero -/
  bytes : ∀ f, s.live f → ∀ i, i / bsize < maxfile →
    byte s.seen (dinodeAddrs sb s.sect f) i = bytesOf (content f) i

/-- The first `n` bytes. -/
def bytesTo (p : Bytes) (n : Nat) : List (BitVec 8) := (List.range n).map p

@[simp] lemma length_bytesTo (p : Bytes) (n : Nat) : (bytesTo p n).length = n := by simp [bytesTo]

lemma bytesOf_append (L M : List (BitVec 8)) (i : Nat) :
    bytesOf (L ++ M) i = if i < L.length then bytesOf L i else bytesOf M (i - L.length) := by
  unfold bytesOf
  split
  · next hi => exact List.getD_append _ _ _ _ hi
  · next hi => exact List.getD_append_right _ _ _ _ (Nat.not_lt.mp hi)

lemma bytesTo_bytesOf (L : List (BitVec 8)) : bytesTo (bytesOf L) L.length = L := by
  refine List.ext_getElem (by simp) fun i h1 h2 => ?_
  simp [bytesTo, bytesOf, h2]

variable {content : Nat → List (BitVec 8)} {off n : Nat}

lemma Holds.lt_ninode (h : Holds s content) (hf : s.live f) : f < ninode :=
  Nat.lt_of_lt_of_le hf.2 h.inodes

lemma Holds.length_lt (h : Holds s content) (hf : s.live f) : (content f).length < 2 ^ 32 :=
  h.size f hf ▸ word_lt ..

/-- The image that `main` starts with has no files. -/
lemma start_holds : Holds start fun _ => [] := by
  have hnone : ∀ f, ¬ start.live f := fun f hf => absurd hf.2 (Nat.not_lt.mpr hf.1)
  have hzero : ∀ x, 1 < x → start.sect x = zeroBytes := by
    intro x hx
    show update (fun _ => zeroBytes) 1 sbBlock x = zeroBytes
    rw [update_of_ne (Nat.ne_of_gt hx)]
  refine ⟨⟨Nat.le_refl _, by decide, fun x hx _ => ?_, fun x hx _ => ?_, rfl⟩, by decide,
    ⟨fun x hx => ?_, fun f hf => absurd hf (hnone f), fun f hf => absurd hf (hnone f),
      fun f hf => absurd hf (hnone f)⟩, fun f hf => absurd hf (hnone f),
    fun f hf => absurd hf (hnone f), fun f hf => absurd hf (hnone f)⟩
  · exact hzero x (Nat.lt_of_lt_of_le (show 1 < nmeta by decide) hx)
  · exact hzero x (Nat.lt_of_lt_of_le (show 1 < sb.bmapstart by decide) hx)
  · have hx : x < nmeta := hx
    exact (bit_marked (Nat.lt_trans hx (by decide))).trans (decide_eq_true hx)

/-- The words of the inodes before `addrs`, but for `size`, are the same. -/
def KeepsMeta (s s' : Img) : Prop :=
  ∀ f, s.live f → ∀ j < 18, j ≠ 2 → dinodeWord sb s'.sect f j = dinodeWord sb s.sect f j

/-- The inodes after the loop of `iappend` and the `winode` at its end. -/
lemma Appended.dinodeWord_putInode {s1 : Img} {p : Bytes} {din' : Dinode} (h : Holds s content)
    (happ : Appended s.live inum off n p 0 s (dinodeAddrs sb s.sect)
    (dinodeWord sb s.sect inum) s1 din')
    (size : Nat) {j : Nat} (hlf : s.live f) (hj : j < dinodeWords) :
    dinodeWord sb (s1.putInode inum (din'.setSize size)).sect f j =
      if f = inum then din'.setSize size j % 2 ^ 32 else dinodeWord sb s.sect f j := by
  split
  · next heq =>
    rw [heq, dinodeWord_putInode_self hj]
  · next hne =>
    have hlt := iblock_lt_bmapstart (h.lt_ninode hlf)
    rw [dinodeWord_putInode_of_ne hj hne]
    unfold dinodeWord
    have hblock : s1.seen (sb.iblock f) = s.seen (sb.iblock f) := happ.wrote.inodes _ hlt
    rw [Img.seen, Img.seen, marked_of_not (by omega), marked_of_not (by omega)] at hblock
    rw [hblock]

/-- The addresses in the image after `iappend` has written the inode back. -/
lemma Appended.roots {s1 : Img} {p : Bytes} {din' : Dinode} (h : Holds s content) (hf : s.live inum)
    (happ : Appended s.live inum off n p 0 s (dinodeAddrs sb s.sect)
    (dinodeWord sb s.sect inum) s1 din')
    (size : Nat) (hlf : s.live f) :
    dinodeAddrs sb (s1.putInode inum (din'.setSize size)).sect f =
      setRoot (dinodeAddrs sb s.sect) inum din'.addrs f := by
  funext i
  unfold dinodeAddrs
  by_cases hi : i < ndirect + 2
  · have hword : 18 + i < dinodeWords := Nat.lt_trans (Nat.add_lt_add_left hi 18) (by decide)
    rw [if_pos hi, happ.dinodeWord_putInode h size hlf hword]
    split
    · next heq =>
      subst heq
      have hval : (Slot.top i).val s1.seen (setRoot (dinodeAddrs sb s.sect) f din'.addrs f) =
          din' (18 + i) := by
        rw [setRoot_self]
        exact if_pos hi
      have hsmall : din' (18 + i) < 2 ^ 32 := by
        by_cases h0 : din' (18 + i) = 0
        · omega
        have hdata := happ.wrote.forest.data f hf (.top i) hi (hval ▸ h0)
        rw [hval] at hdata
        exact Nat.lt_trans hdata.2 (by decide)
      rw [setRoot_self, Dinode.setSize, update_of_ne (by omega), Nat.mod_eq_of_lt hsmall]
      exact (if_pos hi).symm
    · next hne =>
      rw [setRoot_of_ne hne]
      exact (if_pos hi).symm
  · rw [if_neg hi]
    by_cases heq : f = inum
    · rw [heq, setRoot_self]
      exact (if_neg hi).symm
    · rw [setRoot_of_ne heq]
      exact (if_neg hi).symm

lemma div_lt_maxfile {i : Nat} (hi : i < 2 ^ 32) : i / bsize < maxfile :=
  (Nat.div_lt_iff_lt_mul (by decide)).mpr (Nat.lt_of_lt_of_le hi lt_maxfile)

/-- The contents of one file are `L` when its inode, with the size of `L`, is written back. -/
lemma Appended.holds {s1 : Img} {p : Bytes} {din' : Dinode} {L : List (BitVec 8)}
    (h : Holds s content) (hf : s.live inum)
    (happ : Appended s.live inum off n p 0 s (dinodeAddrs sb s.sect)
    (dinodeWord sb s.sect inum) s1 din')
    (hlen : L.length < 2 ^ 32) (hpresent : Present s1.seen din'.addrs 0 L.length)
    (hbytes : ∀ i, i / bsize < maxfile → byte s1.seen din'.addrs i = bytesOf L i) :
    (s1.putInode inum (din'.setSize L.length)).freeinode = s.freeinode ∧
      KeepsMeta s (s1.putInode inum (din'.setSize L.length)) ∧
      Holds (s1.putInode inum (din'.setSize L.length)) (update content inum L) := by
  have hword := fun {f j} (hlf : s.live f) (hj : j < dinodeWords) =>
    happ.dinodeWord_putInode h L.length hlf hj
  have hroots := fun {f} (hlf : s.live f) => happ.roots h hf L.length hlf
  have hseen : ∀ x, sb.bmapstart ≤ x →
      (s1.putInode inum (din'.setSize L.length)).seen x = s1.seen x :=
    fun x hx => putInode_seen_of_ge (h.lt_ninode hf) hx
  obtain ⟨hF, hm, hb⟩ := happ.wrote.forest.write_inodes hseen
  generalize hs2 : s1.putInode inum (din'.setSize L.length) = s2 at *
  have hfree : s2.freeinode = s.freeinode := hs2 ▸ happ.freeinode
  have hlive : s2.live = s.live := by
    unfold Img.live
    rw [hfree]
  refine ⟨hfree, fun f hlf j hj hne => ?_, hs2 ▸ happ.fresh.putInode (h.lt_ninode hf),
    hfree ▸ h.inodes, ?_, ?_, ?_, ?_⟩
  · rw [hword hlf (Nat.lt_trans hj (by decide))]
    split
    · next heq =>
      rw [Dinode.setSize, update_of_ne hne, happ.sameMeta j hj, heq]
      exact Nat.mod_eq_of_lt (word_lt ..)
    · rfl
  · rw [hlive]
    exact hF.congr_roots fun f hlf => hroots hlf
  · intro f hlf
    rw [hlive] at hlf
    rw [hword hlf (by decide), update_apply]
    split
    · rw [Dinode.setSize, update_self, Nat.mod_eq_of_lt hlen]
    · exact h.size f hlf
  · intro f hlf i hlo hi
    rw [hlive] at hlf
    by_cases heq : f = inum
    · subst heq
      rw [update_self] at hi
      rw [hroots hlf, hm f hlf _ (div_lt_maxfile (by omega)), setRoot_self]
      exact hpresent i hlo hi
    · rw [update_of_ne heq] at hi
      have hlt := div_lt_maxfile (i := i) (by have := h.length_lt hlf; omega)
      rw [hroots hlf, hm f hlf _ hlt]
      exact happ.wrote.mapped f hlf _ hlt (h.present f hlf i hlo hi)
  · intro f hlf i hi
    rw [hlive] at hlf
    rw [hroots hlf, hb f hlf i hi]
    by_cases heq : f = inum
    · subst heq
      rw [update_self, setRoot_self]
      exact hbytes i hi
    · rw [update_of_ne heq, happ.wrote.byte f hlf i hi, if_neg fun hc => heq hc.1]
      exact h.bytes f hlf i hi

/-- **`iappend` appends to the contents of one file**, or the image is full. -/
lemma iappend_ends (h : Holds s content) (hf : s.live inum) (p : Bytes)
    (hn : (content inum).length + n < 2 ^ 32) :
    Ends (iappend inum p n) s (fun _ s' => s'.freeinode = s.freeinode ∧ KeepsMeta s s' ∧
      Holds s' (update content inum (content inum ++ bytesTo p n))) fun _ => Full := by
  have hsize : Dinode.size (dinodeWord sb s.sect inum) = (content inum).length := h.size inum hf
  unfold iappend
  rw [ends_bind, ends_rinode (h.lt_ninode hf), ends_bind, hsize]
  refine (appendLoop_ends p n (Nat.le_refl n) hn h.forest h.fresh hf rfl).imp ?_
  rintro ⟨off, din'⟩ s1 ⟨rfl, happ⟩
  rw [ends_winode (h.lt_ninode hf)]
  have hlength : (content inum ++ bytesTo p n).length = (content inum).length + n := by simp
  have hself : setRoot (dinodeAddrs sb s.sect) inum din'.addrs inum = din'.addrs := setRoot_self ..
  have hmapped := happ.wrote.mapped inum hf
  have hpresent := happ.wrote.present
  have hbyte := happ.wrote.byte inum hf
  dsimp only at hmapped hpresent hbyte ⊢
  rw [hself] at hmapped hpresent hbyte
  rw [← hlength]
  refine happ.holds h hf (by omega) (fun i _ hi => ?_) fun i hi => ?_
  · by_cases hold : i < (content inum).length
    · exact hmapped _ (div_lt_maxfile (Nat.lt_trans hold (h.length_lt hf)))
        (h.present inum hf i (Nat.zero_le i) (by omega))
    · exact hpresent i (by omega) (by omega)
  · rw [hbyte i hi, bytesOf_append, h.bytes inum hf i hi]
    by_cases hold : i < (content inum).length
    · rw [if_neg (by omega), if_pos hold]
    · rw [if_neg hold]
      by_cases hnew : i < (content inum).length + n
      · rw [if_pos ⟨rfl, by omega, hnew⟩]
        have hlt : i - (content inum).length < n := by omega
        simp [bytesOf, bytesTo, hlt]
      · rw [if_neg fun hc => hnew hc.2.2]
        have hge : n ≤ i - (content inum).length := by omega
        simp [bytesOf, bytesTo, hge, not_lt.mp hold]

lemma newDinode_of_ge (type : FileType) (o : Owner) {j : Nat} (hj : 18 ≤ j) :
    newDinode type o j = 0 := by
  refine List.getD_eq_default _ _ ?_
  simpa [timeWords] using hj

/-- **`ialloc` makes an empty file.** -/
lemma ialloc_ends (h : Holds s content) (hroom : s.freeinode < ninode) (type : FileType)
    (o : Owner) :
    Ends (ialloc type o) s (fun r s' => r = s.freeinode ∧ s'.freeinode = s.freeinode + 1 ∧
      KeepsMeta s s' ∧
        (∀ j < dinodeWords, dinodeWord sb s'.sect r j = newDinode type o j % 2 ^ 32) ∧
      Holds s' (update content s.freeinode [])) R := by
  unfold ialloc
  rw [ends_bind, ends_get, ends_bind, ends_set, ends_bind, ends_winode hroom, ends_pure]
  generalize hs' : Img.putInode { s with freeinode := s.freeinode + 1 } s.freeinode
    (newDinode type o) = s'
  have hword : ∀ f, s.live f → ∀ j < dinodeWords, dinodeWord sb s'.sect f j =
      dinodeWord sb s.sect f j :=
    fun f hf j hj => hs' ▸ dinodeWord_putInode_of_ne hj (Nat.ne_of_lt hf.2)
  have hnew : ∀ j < dinodeWords, dinodeWord sb s'.sect s.freeinode j =
      newDinode type o j % 2 ^ 32 :=
    fun j hj => hs' ▸ dinodeWord_putInode_self hj
  have hroot : ∀ f, s.live f → dinodeAddrs sb s'.sect f = dinodeAddrs sb s.sect f := fun f hf =>
    @dinodeAddrs_congr rootFs _ _ _ (hword f hf)
  have hzero : dinodeAddrs sb s'.sect s.freeinode = fun _ => 0 := by
    funext i
    unfold dinodeAddrs
    split
    · next hi =>
      rw [hnew _ (Nat.lt_trans (Nat.add_lt_add_left hi 18) (by decide)),
        newDinode_of_ge type o (Nat.le_add_right 18 i), Nat.zero_mod]
    · rfl
  have hlive : ∀ f, s'.live f → s.live f ∨ f = s.freeinode := by
    rw [← hs']
    rintro f ⟨h1, h2⟩
    rcases Nat.lt_succ_iff_lt_or_eq.mp h2 with hlt | heq
    · exact .inl ⟨h1, hlt⟩
    · exact .inr heq
  have hseen : ∀ x, sb.bmapstart ≤ x → s'.seen x = s.seen x := fun x hx =>
    hs' ▸ putInode_seen_of_ge (s := { s with freeinode := s.freeinode + 1 }) hroom hx
  obtain ⟨hF, hm, hb⟩ := h.forest.write_inodes hseen
  have hempty : ∀ sl : Slot, sl.val s'.seen (dinodeAddrs sb s'.sect s.freeinode) = 0 := fun sl => by
    rw [hzero]
    cases sl <;> simp [Slot.val]
  have hne : ∀ f, s.live f → f ≠ s.freeinode := fun f hf => Nat.ne_of_lt hf.2
  refine ⟨rfl, hs' ▸ rfl, fun f hf j hj _ => hword f hf j (Nat.lt_trans hj (by decide)), hnew, ?_⟩
  refine ⟨?_, ?_, hF.add hempty hroot hlive, ?_, ?_, ?_⟩
  · exact hs' ▸ Fresh.putInode ⟨h.fresh.low, h.fresh.high, h.fresh.zero, h.fresh.bitmap,
      h.fresh.header⟩ hroom
  · exact hs' ▸ hroom
  · intro f hf
    rcases hlive f hf with hold | rfl
    · rw [update_of_ne (hne f hold), hword f hold 2 (by decide)]
      exact h.size f hold
    · rw [update_self, hnew 2 (by decide)]
      rfl
  · intro f hf
    rcases hlive f hf with hold | rfl
    · rw [update_of_ne (hne f hold), hroot f hold]
      intro i hi hlt
      rw [hm f hold _ (div_lt_maxfile (by have := h.length_lt hold; omega))]
      exact h.present f hold i hi hlt
    · rw [update_self]
      exact fun i _ hlt => absurd hlt (Nat.not_lt_zero i)
  · intro f hf
    rcases hlive f hf with hold | rfl
    · rw [update_of_ne (hne f hold), hroot f hold]
      intro i hi
      rw [hb f hold i hi]
      exact h.bytes f hold i hi
    · rw [update_self]
      intro i _
      exact if_pos (hempty _)

/-! ## The size of the root directory -/

/-- Zeros up to the end of the last block. -/
def padded (L : List (BitVec 8)) : List (BitVec 8) :=
  L ++ List.replicate ((L.length + (bsize - 1)) / bsize * bsize - L.length) 0

lemma le_roundUp (n : Nat) : n ≤ (n + (bsize - 1)) / bsize * bsize := by
  have hb : bsize = 4096 := rfl
  rw [hb]
  omega

lemma length_padded (L : List (BitVec 8)) :
    (padded L).length = (L.length + (bsize - 1)) / bsize * bsize := by
  have := le_roundUp L.length
  rw [padded, List.length_append, List.length_replicate]
  omega

lemma bytesOf_padded (L : List (BitVec 8)) : bytesOf (padded L) = bytesOf L := by
  funext i
  rw [padded, bytesOf_append]
  split
  · rfl
  · next hi =>
    rw [show bytesOf L i = 0 by simp [bytesOf, not_lt.mp hi], bytesOf, List.getD_eq_getElem?_getD,
      List.getElem?_replicate]
    split <;> rfl

/-- `main`, the part before the bitmap: the size of the root directory is made a whole number of
blocks. -/
def fixRootSize : Mk Unit := do
  let din ← rinode rootino
  let off := ((din.size + (2 ^ 32 - 1)) % 2 ^ 32 / bsize + 1) * bsize % 2 ^ 32
  winode rootino (din.setSize off)

/-- Rounding the size of the root up adds zeros to its contents. -/
lemma fixRootSize_ends (h : Holds s content) (hf : s.live rootino)
    (hlen : (padded (content rootino)).length < 2 ^ 32) :
    Ends fixRootSize s (fun _ s' => s'.freeinode = s.freeinode ∧ KeepsMeta s s' ∧
      Holds s' (update content rootino (padded (content rootino)))) R := by
  have hsize : Dinode.size (dinodeWord sb s.sect rootino) = (content rootino).length := h.size _ hf
  unfold fixRootSize
  rw [ends_bind, ends_rinode (h.lt_ninode hf), hsize, ends_winode (h.lt_ninode hf)]
  have hold := h.length_lt hf
  have hround : (((content rootino).length + (2 ^ 32 - 1)) % 2 ^ 32 / bsize + 1) * bsize % 2 ^ 32 =
      (padded (content rootino)).length := by
    rw [length_padded] at hlen ⊢
    have hb : bsize = 4096 := rfl
    rw [hb] at hlen ⊢
    omega
  rw [hround]
  refine (Appended.nil h.forest h.fresh rfl 0 zeroBytes 0).holds h hf hlen (fun i _ hi => ?_)
    fun i hi => ?_
  · -- the block of a byte of the padding is that of a byte of the contents
    rw [Nat.zero_add, length_padded] at hi
    have hblock : i / bsize * bsize < (content rootino).length := by
      have hb : bsize = 4096 := rfl
      rw [hb] at hi ⊢
      omega
    have hpresent := h.present _ hf (i / bsize * bsize) (Nat.zero_le _) (by omega)
    rwa [Nat.mul_div_cancel _ (by decide)] at hpresent
  · rw [bytesOf_padded]
    exact h.bytes _ hf i hi

/-! ## The bitmap at the end -/

/-- **`balloc` completes the image.** -/
lemma balloc_ends (hs : Fresh s) :
    Ends (balloc s.freeblock) s (fun _ s' => s'.sect = s.seen ∧ s'.freeblock = s.freeblock) R := by
  have hb : 0 < bpb := by decide
  have hlow := hs.low
  have hhigh := hs.high
  have hmeta : 0 < nmeta := by decide
  unfold balloc
  rw [if_pos (Nat.lt_of_le_of_lt hhigh (by decide))]
  have hlast : (s.freeblock - 1) / bpb < nbitmap :=
    (Nat.div_lt_iff_lt_mul hb).mpr
      (Nat.lt_of_le_of_lt (by omega) (show fssize < nbitmap * bpb by decide))
  -- the sectors that are not to come yet are as they will be
  refine (ends_forM (I := fun js t => (∀ j ∈ js, j < nbitmap) ∧
    (∀ x, (∀ j ∈ js, x ≠ sb.bmapstart + j) → t.sect x = s.seen x) ∧
    t.freeblock = s.freeblock) (fun j js t ht => ?_) ?_).mono
      (fun _ t ht => ⟨funext fun x => ht.2.1 x (by simp), ht.2.2⟩) fun _ _ h => h
  · obtain ⟨hjs, hsect, hcount⟩ := ht
    rw [ends_wsect]
    refine ⟨fun i hi => hjs i (List.mem_cons_of_mem _ hi), fun x hx => ?_, hcount⟩
    rw [Img.put_sect, update_apply]
    split
    · next heq =>
      rw [heq]
      exact (marked_bitmap (hjs j (List.mem_cons_self ..))).symm
    · next hne =>
      refine hsect x fun i hi => ?_
      rcases List.mem_cons.mp hi with rfl | hi
      · exact hne
      · exact hx i hi
  · refine ⟨fun j hj => ?_, fun x hx => ?_, rfl⟩
    · rw [List.mem_range] at hj
      omega
    unfold Img.seen marked
    split
    · next hin =>
      obtain ⟨j, rfl⟩ := Nat.exists_eq_add_of_le hin.1
      have hj : (s.freeblock - 1) / bpb + 1 ≤ j := by
        by_contra hlt
        exact hx j (List.mem_range.mpr (Nat.not_le.mp hlt)) rfl
      have hmul := Nat.mul_le_mul_right bpb hj
      have hround := Nat.lt_mul_div_succ (s.freeblock - 1) hb
      rw [Nat.mul_comm] at hround
      rw [Nat.add_sub_cancel_left, hs.bitmap _ hin.1 hin.2,
        show s.freeblock - j * bpb = 0 by omega, Nat.min_zero]
      rfl
    · rfl

/-! ## Building an image -/

/-- A call that makes or fills a file. -/
inductive Op where
  | ialloc (type : FileType) (o : Owner)
  | iappend (inum : Nat) (data : List (BitVec 8))

/-- The call in the model. -/
def Op.perform : Op → Mk Unit
  | .ialloc type o => do
    let _ ← Mkfs.ialloc type o
    pure ()
  | .iappend inum data => Mkfs.iappend inum (bytesOf data) data.length

/-- Some calls, the size of the root directory and the bitmap at the end. Source: `main`. -/
def build (ops : List Op) : Mk Unit := do
  ops.forM Op.perform
  fixRootSize
  let s ← get
  balloc s.freeblock

/-- What was appended to a file. -/
def appended (f : Nat) (ops : List Op) : List (BitVec 8) :=
  ops.flatMap fun
    | .ialloc _ _ => []
    | .iappend inum data => if inum = f then data else []

/-- What a file of the finished image holds. -/
def contents (ops : List Op) (f : Nat) : List (BitVec 8) :=
  if f = rootino then padded (appended f ops) else appended f ops

lemma contents_eq (ops : List Op) : contents ops =
    update (fun f => appended f ops) rootino (padded (appended rootino ops)) := by
  funext f
  rw [contents, update_apply]
  split
  · next h => rw [h]
  · rfl

lemma length_appended_le (ops : List Op) (f : Nat) :
    (appended f ops).length ≤ (contents ops f).length := by
  unfold contents
  split
  · rw [length_padded]
    exact le_roundUp _
  · exact le_refl _

/-- The types of the inodes, the first one of inode 1. -/
def types (ops : List Op) : List FileType :=
  ops.flatMap fun
    | .ialloc type _ => [type]
    | .iappend _ _ => []

/-- There are inodes left for each `ialloc`, and each `iappend` is to an inode that was
allocated. -/
def Valid : Nat → List Op → Prop
  | _, [] => True
  | n, .ialloc _ _ :: ops => n < ninode ∧ Valid (n + 1) ops
  | n, .iappend inum _ :: ops => (1 ≤ inum ∧ inum < n) ∧ Valid n ops

/-- The image after the calls `ops`, with the contents of the files. -/
structure Built (content : Nat → List (BitVec 8)) (ops : List Op) (s : Img) : Prop where
  holds : Holds s content
  freeinode : s.freeinode = (types ops).length + 1
  type : ∀ f type, (types ops)[f]? = some type → dinodeWord sb s.sect (f + 1) 0 = type.code

variable {ops : List Op} {type : FileType}

lemma start_built : Built (fun _ => []) [] start :=
    ⟨start_holds, rfl, fun f type h => by simp [types] at h⟩

lemma Built.live (h : Built content ops s) (hf : (types ops)[f]? = some type) : s.live (f + 1) := by
  obtain ⟨hlt, -⟩ := List.getElem?_eq_some_iff.mp hf
  exact ⟨Nat.le_add_left .., by rw [h.freeinode]; omega⟩

lemma types_ialloc (o : Owner) : types (.ialloc type o :: ops) = type :: types ops := rfl

lemma types_iappend (inum : Nat) (data : List (BitVec 8)) :
    types (.iappend inum data :: ops) = types ops := rfl

/-- Nothing is appended to an inode that does not exist yet. -/
lemma appended_of_valid (h : Valid n ops) (hf : n + (types ops).length ≤ f) :
    appended f ops = [] := by
  induction ops generalizing n with
  | nil => rfl
  | cons op ops ih => ?_
  cases op with
  | ialloc type o =>
    rw [types_ialloc, List.length_cons] at hf
    exact ih h.2 (by omega)
  | iappend inum data => ?_
  rw [types_iappend] at hf
  have hne : inum ≠ f := by
    have := h.1.2
    omega
  have hrest := ih h.2 hf
  simpa [appended, hne] using hrest

lemma appended_append (f : Nat) (ops ops' : List Op) :
    appended f (ops ++ ops') = appended f ops ++ appended f ops' := List.flatMap_append

/-- Two sequences of calls, one behind the other. -/
lemma valid_append {ops' : List Op} :
    Valid n (ops ++ ops') ↔ Valid n ops ∧ Valid (n + (types ops).length) ops' := by
  induction ops generalizing n with
  | nil => simp [Valid, types]
  | cons op ops ih => ?_
  cases op with
  | ialloc type o =>
    rw [List.cons_append, Valid, Valid, ih, types_ialloc, and_assoc, List.length_cons,
      Nat.succ_add_eq_add_succ]
  | iappend inum data =>
    rw [List.cons_append, Valid, Valid, ih, types_iappend, and_assoc, and_assoc, and_assoc]

/-- One call, `ialloc` or `iappend`, on an image that is built. -/
lemma perform_ends (h : Built (appended · ops) ops s) {op : Op} (hvalid : Valid 1 (ops ++ [op]))
    (hsize : ∀ f, (appended f (ops ++ [op])).length < 2 ^ 32) :
    Ends op.perform s (fun _ s' => Built (appended · (ops ++ [op])) (ops ++ [op]) s') fun _ =>
      Full := by
  obtain ⟨hold, hop⟩ := valid_append.mp hvalid
  have hfree := h.freeinode
  rw [Nat.add_comm, ← hfree] at hop
  cases op with
  | ialloc type o =>
    have htypes : types (ops ++ [.ialloc type o]) = types ops ++ [type] := List.flatMap_append
    have hcontent : (fun f => appended f (ops ++ [.ialloc type o])) =
        update (fun f => appended f ops) s.freeinode [] := by
      funext f
      rw [appended_append, update_apply]
      split
      · next heq =>
        rw [heq, appended_of_valid hold (by omega)]
        rfl
      · exact List.append_nil _
    simp only [Op.perform]
    refine (ialloc_ends h.holds hop.1 type o).step ?_
    rintro _ s' ⟨rfl, hnext, hmeta, hnew, hholds⟩
    refine ⟨hcontent ▸ hholds, ?_, fun f ty hf => ?_⟩
    · rw [hnext, htypes, List.length_append, hfree]
      rfl
    rw [htypes, List.getElem?_append] at hf
    split at hf
    · next hlt =>
      rw [hmeta (f + 1) (h.live hf) 0 (by decide) (by decide)]
      exact h.type f ty hf
    · next hge =>
      obtain ⟨hidx, -⟩ := List.getElem?_eq_some_iff.mp hf
      rw [List.length_singleton, Nat.lt_one_iff] at hidx
      obtain rfl : type = ty := by simpa [hidx] using hf
      rw [show f + 1 = s.freeinode by omega, hnew 0 (by decide)]
      cases type <;> rfl
  | iappend inum data =>
    have htypes : types (ops ++ [.iappend inum data]) = types ops := by simp [types]
    have hself : appended inum (ops ++ [.iappend inum data]) = appended inum ops ++ data := by
      simp [appended]
    have hcontent : (fun f => appended f (ops ++ [.iappend inum data])) =
        update (fun f => appended f ops) inum (appended inum ops ++ data) := by
      funext f
      rw [update_apply]
      split
      · next heq => rw [heq, hself]
      · next hne => simp [appended, Ne.symm hne]
    have hbound := hsize inum
    rw [hself, List.length_append] at hbound
    refine (iappend_ends h.holds hop.1 (bytesOf data) hbound).imp ?_
    rintro _ s' ⟨hsame, hmeta, hholds⟩
    rw [bytesTo_bytesOf, ← hcontent] at hholds
    refine ⟨hholds, by rw [hsame, htypes, hfree], fun f ty hf => ?_⟩
    rw [htypes] at hf
    rw [hmeta (f + 1) (h.live hf) 0 (by decide) (by decide)]
    exact h.type f ty hf

/-- The step of `main` after the last call. -/
lemma Built.fixRootSize_ends (h : Built (appended · ops) ops s) (hroot : types ops ≠ [])
    (hsize : ∀ f, (contents ops f).length < 2 ^ 32) :
    Ends fixRootSize s (fun _ s' => Built (contents ops) ops s') R := by
  have hlive : s.live rootino := by
    have hpos := List.length_pos_iff.mpr hroot
    have hfree := h.freeinode
    exact ⟨Nat.le_refl 1, show 1 < s.freeinode by omega⟩
  refine (Mkfs.fixRootSize_ends h.holds hlive ?_).imp ?_
  · have hlen := hsize rootino
    rwa [contents, if_pos rfl] at hlen
  rintro _ s' ⟨hfree, hmeta, hholds⟩
  refine ⟨contents_eq ops ▸ hholds, hfree.trans h.freeinode, fun f ty hf => ?_⟩
  rw [hmeta (f + 1) (h.live hf) 0 (by decide) (by decide)]
  exact h.type f ty hf

/-- **The whole program**: the image is as the calls say, or it is full. -/
lemma build_ends (hvalid : Valid 1 ops) (hroot : types ops ≠ [])
    (hsize : ∀ f, (contents ops f).length < 2 ^ 32) :
    Ends (build ops) start (fun _ img => ∃ s, Built (contents ops) ops s ∧ img.sect = s.seen ∧
      img.freeblock = s.freeblock) fun _ => Full := by
  unfold build
  refine (ends_forM (I := fun rest t => ∃ done, done ++ rest = ops ∧ Built (appended · done) done t)
    (fun op rest t ⟨done, hops, ht⟩ => ?_) ⟨[], rfl, start_built⟩).step ?_
  · have hsplit : done ++ [op] ++ rest = ops := by rw [List.append_assoc]; exact hops
    refine (perform_ends ht ?_ fun f => ?_).imp (fun _ t' ht' => ⟨done ++ [op], hsplit, ht'⟩)
    · rw [← hsplit] at hvalid
      exact (valid_append.mp hvalid).1
    have hle := Nat.lt_of_le_of_lt (length_appended_le ops f) (hsize f)
    rw [← hsplit, appended_append, List.length_append] at hle
    omega
  · rintro _ s ⟨done, hops, hs⟩
    rw [List.append_nil] at hops
    subst hops
    refine (hs.fixRootSize_ends hroot hsize).step fun _ s' hs' => ?_
    rw [ends_bind, ends_get]
    exact (balloc_ends hs'.holds.fresh).imp (fun _ img himg => ⟨s', hs', himg⟩)

/-! ## The kernel reads the image -/

/-- `ilock` and `readi`. -/
def readFile (sb : SuperBlock) (sw : Devsw) (dev inum : Nat) (dst : Bytes) (off n : Nat) :
    K (Int × Bytes) := do
  let ip ← ilock sb dev inum
  let (r, dst, _) ← readi sb sw ip dst off n
  pure (r, dst)

/-- `ilock` and `bmap`. -/
def fileBlock (sb : SuperBlock) (dev inum bn : Nat) : K Nat := do
  let ip ← ilock sb dev inum
  let (addr, _) ← bmap sb ip bn
  pure addr

/-- The inode that `ilock` makes of the image. -/
def inodeOf (V : Nat → Block) (inum : Nat) : Inode :=
    loadInode rootFs.dev inum (dinodeWord sb V inum)

/-- The kernel loads the type that `ialloc` was given. -/
lemma Built.type_ne (h : Built content ops s) (hf : (types ops)[f]? = some type)
    {V : Nat → Block} (hV : ∀ x < sb.bmapstart, V x = s.sect x) :
    (inodeOf V (f + 1)).type = type.code := by
  have hword : dinodeWord sb V (f + 1) 0 = type.code := by
    rw [← h.type f type hf]
    unfold dinodeWord
    rw [hV _ (iblock_lt_bmapstart (h.holds.lt_ninode (h.live hf)))]
  show dinodeWord sb V (f + 1) 0 % 2 ^ 16 = type.code
  rw [hword]
  cases type <;> rfl

lemma seen_of_lt {x : Nat} (hx : x < sb.bmapstart) : s.seen x = s.sect x :=
  marked_of_not fun h => absurd h.1 (Nat.not_le.mpr hx)

lemma Holds.dinodeWord_seen (h : Holds s content)
    (hf : s.live f) : dinodeWord sb s.seen f = dinodeWord sb s.sect f := by
  funext j
  unfold dinodeWord
  rw [seen_of_lt (iblock_lt_bmapstart (h.lt_ninode hf))]

lemma Holds.dinodeAddrs_seen (h : Holds s content)
    (hf : s.live f) : dinodeAddrs sb s.seen f = dinodeAddrs sb s.sect f := by
  unfold dinodeAddrs
  rw [h.dinodeWord_seen hf]

/-- Every block of the contents has an address. -/
lemma Holds.mapped_ne (h : Holds s content) {bn : Nat}
    (hf : s.live f) (hbn : bn * bsize < (content f).length) :
    bn < maxfile ∧ mapped s.seen (dinodeAddrs sb s.sect f) bn ≠ 0 := by
  have hb : 0 < bsize := by decide
  constructor
  · have hlen := h.length_lt hf
    have hmax := lt_maxfile
    exact Nat.lt_of_mul_lt_mul_right (a := bsize) (by omega)
  · have hpresent := h.present f hf (bn * bsize) (Nat.zero_le _) (by omega)
    rwa [Nat.mul_div_cancel bn hb] at hpresent

/-- A file of the image, in the terms of the kernel. -/
lemma Built.contains (h : Built content ops s) (hf : (types ops)[f]? = some type)
    (htype : type ≠ .dev) :
    Contains rootFs s.live s.seen (inodeOf s.seen (f + 1)) (content (f + 1)) := by
  have hlive := h.live hf
  have hip : (inodeOf s.seen (f + 1)).addrs = dinodeAddrs sb s.sect (f + 1) :=
    h.holds.dinodeAddrs_seen hlive
  have hsize : (inodeOf s.seen (f + 1)).size = (content (f + 1)).length := by
    rw [← h.holds.size _ hlive, ← h.holds.dinodeWord_seen hlive]
    rfl
  have hroots : ∀ g, s.live g →
      rootFs.roots s.seen (inodeOf s.seen (f + 1)) g = dinodeAddrs sb s.sect g := by
    intro g hg
    rw [show rootFs.roots s.seen (inodeOf s.seen (f + 1)) = dinodeAddrs sb s.seen from
      setRoot_same ..]
    exact h.holds.dinodeAddrs_seen hg
  refine ⟨⟨⟨h.holds.forest.congr_roots hroots, hlive, setRoot_self .., rfl⟩,
    fun g hg => h.holds.lt_ninode hg, ?_, ?_, ?_⟩, hsize, ?_⟩
  · rw [h.type_ne hf fun x hx => seen_of_lt hx]
    cases type <;> simp_all [FileType.code, tDev]
  · rw [hsize]
    exact h.holds.length_lt hlive
  · rw [hip, hsize]
    exact h.holds.present _ hlive
  · rw [hip]
    exact fun i hi => h.holds.bytes _ hlive i
      (div_lt_maxfile (Nat.lt_trans hi (h.holds.length_lt hlive)))

section boot

variable {card : Disk} {m : Mem}

/-- The kernel boots from a card with the image and finds an empty log. -/
lemma Built.boot (h : Built content ops s) (hcard : card.block 1 = s.seen)
    (hlarge : fssize ≤ card.nsecs 1) (hsmall : card.nsecs 1 < 2 ^ 32) :
    ∃ m, (initlog 1 sb.logstart sb.nlog Mem.boot card).result = .ok ((), m) ∧
      (m.log 1).lh = [] ∧ rootFs.On (recovered rootFs.layout card) ∧
      Running rootFs.layout m (recovered rootFs.layout card) (Tx.init s.seen) := by
  have hheader : rootFs.layout.header card = [] := by
    unfold Layout.header
    rw [show card.block rootFs.layout.dev = s.seen from hcard,
      show s.seen rootFs.layout.start = zeroBytes from
        (seen_of_lt (by decide)).trans h.holds.fresh.header]
    rfl
  have hpending : Pending rootFs.layout card s.seen :=
    pending_of_nil ⟨Nat.le_trans (by decide) hlarge, hsmall⟩ hheader fun b _ => congrFun hcard b
  obtain ⟨m, hres, hset, hrun⟩ := boot_running hpending
  refine ⟨m, hres, ?_, ⟨?_, ?_⟩, hrun⟩
  · rw [show m.log 1 = m.log rootFs.layout.dev from rfl, hset.log]
  · rw [hset.nsecs]
    exact hlarge
  · rw [hset.nsecs]
    exact hsmall

variable {d : Disk} {f : Nat} {type : FileType}

section

variable (h : Built content ops s) (hf : (types ops)[f]? = some type)
include h hf

/-- `v6_ilock` loads an inode of the image. -/
lemma Built.ilock_wp (hrun : Running rootFs.layout m d (Tx.init s.seen)) (hon : rootFs.On d)
    (hlh : (m.log 1).lh = []) {Q : Inode → Mem → Prop}
    (hQ : ∀ m', Work rootFs.layout (m.log 1) d (Scene.begin s.seen []) m' →
      Q (inodeOf s.seen (f + 1)) m') :
    Silent (ilock sb 1 (f + 1)) m d Q ⊥ := by
  have hwork := hrun.work
  rw [show m.log rootFs.layout.dev = m.log 1 from rfl, hlh] at hwork
  have htype : (inodeOf s.seen (f + 1)).type ≠ 0 := by
    rw [h.type_ne hf fun x hx => seen_of_lt hx]
    cases type <;> decide
  exact V6.ilock_wp hwork hon (h.holds.lt_ninode (h.live hf)) htype (.inl (by decide)) hQ

section

variable (htype : type ≠ .dev)
  (hrun : Running rootFs.layout m d (Tx.init s.seen))
  (hon : rootFs.On d)
  (hlh : (m.log 1).lh = [])
include htype hrun hon hlh

/-- `v6_readi` reads the contents. -/
lemma Built.readFile_eq (sw : Devsw) (dst : Bytes) (hoff : off ≤ (content (f + 1)).length)
    (hn : off + n < 2 ^ 64) :
    ∃ m', (readFile sb sw 1 (f + 1) dst off n m d).result =
      .ok ((((min n ((content (f + 1)).length - off) : Nat) : Int), splice dst 0
        (bytesOf (content (f + 1))) off (min n ((content (f + 1)).length - off))), m') := by
  have hcon := h.contains hf htype
  refine Silent.result_eq (.bind (h.ilock_wp hf hrun hon hlh fun m1 h1 => ?_))
  refine .bind (readi_wp h1 hon hcon.toFile sw off n dst (hcon.length ▸ hoff) hn
    (.inl (by decide)) fun m2 h2 => ?_)
  rw [silent_pure, hcon.length, hcon.splice_eq dst (by omega)]

/-- `v6_bmap` finds the blocks. -/
lemma Built.fileBlock_eq {bn : Nat} (hbn : bn * bsize < (content (f + 1)).length) :
    ∃ m', (fileBlock sb 1 (f + 1) bn m d).result =
      .ok (mapped s.seen (dinodeAddrs sb s.seen (f + 1)) bn, m') := by
  have hcon := h.contains hf htype
  obtain ⟨hmax, hpresent⟩ := h.holds.mapped_ne (h.live hf) hbn
  rw [← h.holds.dinodeAddrs_seen (h.live hf)] at hpresent
  refine Silent.result_eq (.bind (h.ilock_wp hf hrun hon hlh fun m1 h1 => ?_))
  refine .bind (bmap_present_wp h1 hon hcon.toOpened hmax hpresent (.inl (by decide))
    fun m2 h2 => ?_)
  rw [silent_pure]
  rfl

end

/-- No two indices, of one file or of two, have the same block. -/
lemma Built.blocks_inj {f' : Nat} {type' : FileType}
    (hf' : (types ops)[f']? = some type') {bn bn' : Nat}
    (hbn : bn * bsize < (content (f + 1)).length)
    (hbn' : bn' * bsize < (content (f' + 1)).length)
    (heq : mapped s.seen (dinodeAddrs sb s.seen (f + 1)) bn =
      mapped s.seen (dinodeAddrs sb s.seen (f' + 1)) bn') : f = f' ∧ bn = bn' := by
  have hlive := h.live hf
  have hlive' := h.live hf'
  obtain ⟨hmax, hne⟩ := h.holds.mapped_ne hlive hbn
  obtain ⟨hmax', -⟩ := h.holds.mapped_ne hlive' hbn'
  rw [h.holds.dinodeAddrs_seen hlive, h.holds.dinodeAddrs_seen hlive'] at heq
  obtain ⟨hff, hslot⟩ := h.holds.forest.inj _ hlive _ hlive' _ _ (dataSlot_ok hmax)
    (dataSlot_ok hmax') hne heq
  exact ⟨Nat.succ.inj hff, dataSlot_inj hslot⟩

end

end boot

/-- **`mkfs` and the kernel agree on the layout of files.** The calls of `ialloc` and `iappend` exit
only if the image is full. Otherwise the bitmap marks the blocks below `freeblock`, blocks of files
with different inodes or different indices are different, and the kernel that boots from a card with
the image finds them and reads what was appended, from the root directory with the zeros behind
it. -/
theorem mkfs_layout (ops : List Op) (hvalid : Valid 1 ops) (hroot : types ops ≠ [])
    (hsize : ∀ f, (contents ops f).length < 2 ^ 32) :
    Ends (build ops) start
      (fun _ img =>
        (∀ b < fssize, rootFs.bit img.sect b = decide (b < img.freeblock)) ∧
        (∀ f type f' type' bn bn', (types ops)[f]? = some type → (types ops)[f']? = some type' →
          bn * bsize < (contents ops (f + 1)).length →
          bn' * bsize < (contents ops (f' + 1)).length →
          mapped img.sect (dinodeAddrs sb img.sect (f + 1)) bn =
            mapped img.sect (dinodeAddrs sb img.sect (f' + 1)) bn' → f = f' ∧ bn = bn') ∧
        ∀ card : Disk, card.block 1 = img.sect → fssize ≤ card.nsecs 1 → card.nsecs 1 < 2 ^ 32 →
          ∃ m, (initlog 1 sb.logstart sb.nlog Mem.boot card).result = .ok ((), m) ∧
            ∀ f type, (types ops)[f]? = some type → type ≠ .dev →
              (∀ bn, bn * bsize < (contents ops (f + 1)).length → ∃ m',
                (fileBlock sb 1 (f + 1) bn m (recovered rootFs.layout card)).result =
                  .ok (mapped img.sect (dinodeAddrs sb img.sect (f + 1)) bn, m')) ∧
              ∀ sw dst off n, off ≤ (contents ops (f + 1)).length → off + n < 2 ^ 64 → ∃ m',
                (readFile sb sw 1 (f + 1) dst off n m (recovered rootFs.layout card)).result =
                  .ok ((((min n ((contents ops (f + 1)).length - off) : Nat) : Int),
                    splice dst 0 (bytesOf (contents ops (f + 1))) off
                      (min n ((contents ops (f + 1)).length - off))), m'))
      fun _ img => fssize < img.freeblock := by
  refine (build_ends hvalid hroot hsize).imp ?_
  rintro _ img ⟨s, hs, hsect, hfree⟩
  rw [hsect, hfree]
  refine ⟨fun b hb => bit_marked (lt_bitmap hb),
    fun f type f' type' bn bn' hf hf' hbn hbn' => hs.blocks_inj hf hf' hbn hbn', ?_⟩
  intro card hcard hlarge hsmall
  obtain ⟨m, hboot, hlh, hon, hrun⟩ := hs.boot hcard hlarge hsmall
  exact ⟨m, hboot, fun f type hf htype => ⟨fun bn hbn => hs.fileBlock_eq hf htype hrun hon hlh hbn,
    fun sw dst off n hoff hn => hs.readFile_eq hf htype hrun hon hlh sw dst hoff hn⟩⟩

/-- More bytes than a block has. -/
def sevens : List (BitVec 8) := List.replicate 5000 7

lemma length_sevens : sevens.length = 5000 := List.length_replicate

/-- A directory with three bytes, and a file of two blocks that were not appended at once. -/
@[irreducible]
def dirAndFile : List Op :=
  [.ialloc .dir ⟨0, 0, 0, ⟨0, 0⟩⟩, .iappend 1 [4, 5], .ialloc .file ⟨0, 0, 0, ⟨0, 0⟩⟩,
    .iappend 2 [1, 2, 3], .iappend 1 [6], .iappend 2 sevens]

lemma dirAndFile_valid : Valid 1 dirAndFile := by
  unfold dirAndFile
  exact ⟨by decide, ⟨by decide, by decide⟩, by decide, ⟨by decide, by decide⟩,
    ⟨by decide, by decide⟩, ⟨by decide, by decide⟩, trivial⟩

lemma types_dirAndFile : types dirAndFile = [.dir, .file] := by
  unfold dirAndFile
  rfl

lemma types_dirAndFile_ne : types dirAndFile ≠ [] := by
  rw [types_dirAndFile]
  decide

lemma appended_dirAndFile (f : Nat) : appended f dirAndFile =
    if f = 1 then [4, 5, 6] else if f = 2 then [1, 2, 3] ++ sevens else [] := by
  unfold appended dirAndFile
  simp only [List.flatMap_cons, List.flatMap_nil, List.nil_append, List.append_nil]
  by_cases h1 : f = 1
  · simp [h1]
  by_cases h2 : f = 2
  · simp [h2]
  · simp [h1, h2, Ne.symm h1, Ne.symm h2]

/-- The files of the example are small. -/
lemma dirAndFile_small (f : Nat) : (contents dirAndFile f).length < 2 ^ 32 := by
  have hlen : (appended f dirAndFile).length ≤ 5003 := by
    rw [appended_dirAndFile]
    split
    · decide
    split
    · exact Nat.le_of_eq (by rw [List.length_append, length_sevens]; rfl)
    · exact Nat.zero_le _
  have hb : bsize = 4096 := rfl
  unfold contents
  split
  · rw [length_padded, hb]
    omega
  · omega

lemma dirAndFile_ok : build dirAndFile start = .ok () (stateOf (build dirAndFile) start) :=
  eq_ok_of_valueOf (by decide +kernel)

/-- The kernel reads what was appended to the file, the end of its first block and its second
one. -/
theorem mkfs_layout_dirAndFile : Valid 1 dirAndFile ∧ ∃ img, build dirAndFile start = .ok () img ∧
      ∀ card : Disk, card.block 1 = img.sect → card.nsecs 1 = fssize →
        ∃ m, (initlog 1 sb.logstart sb.nlog Mem.boot card).result = .ok ((), m) ∧
          ∃ m', (readFile sb noDrivers 1 2 zeroBytes 4000 2000 m
            (recovered rootFs.layout card)).result =
            .ok ((1003, splice zeroBytes 0 (bytesOf ([1, 2, 3] ++ sevens)) 4000 1003), m') := by
  have hends := mkfs_layout dirAndFile dirAndFile_valid types_dirAndFile_ne dirAndFile_small
  obtain ⟨-, -, hread⟩ := Ends.ok hends dirAndFile_ok
  refine ⟨dirAndFile_valid, _, dirAndFile_ok, fun card hcard hsecs => ?_⟩
  obtain ⟨m, hboot, hfiles⟩ := hread card hcard (Nat.le_of_eq hsecs.symm) (by rw [hsecs]; decide)
  obtain ⟨-, hfile⟩ := hfiles 1 .file (by rw [types_dirAndFile]; rfl) (by decide)
  have hcontent : contents dirAndFile 2 = [1, 2, 3] ++ sevens := by
    rw [contents, if_neg (by decide), appended_dirAndFile]
    rfl
  have hlength : (contents dirAndFile 2).length = 5003 := by
    rw [hcontent, List.length_append, length_sevens]
    rfl
  obtain ⟨m', hresult⟩ := hfile noDrivers zeroBytes 4000 2000 (by rw [hlength]; decide) (by decide)
  rw [hlength, hcontent] at hresult
  exact ⟨m, hboot, m', hresult⟩

/-- **Zeros follow the entries of the root directory**: three bytes were appended to it, and ten are
read. -/
theorem root_read_padded : appended rootino dirAndFile = [4, 5, 6] ∧
    ∃ img, build dirAndFile start = .ok () img ∧
      ∀ card : Disk, card.block 1 = img.sect → card.nsecs 1 = fssize →
        ∃ m, (initlog 1 sb.logstart sb.nlog Mem.boot card).result = .ok ((), m) ∧
          ∃ m', (readFile sb noDrivers 1 rootino zeroBytes 0 10 m
            (recovered rootFs.layout card)).result =
            .ok ((10, splice zeroBytes 0 (bytesOf [4, 5, 6]) 0 10), m') := by
  have happended : appended rootino dirAndFile = [4, 5, 6] := appended_dirAndFile 1
  obtain ⟨s, hs, hsect, -⟩ :=
    Ends.ok (build_ends dirAndFile_valid types_dirAndFile_ne dirAndFile_small) dirAndFile_ok
  refine ⟨happended, _, dirAndFile_ok, fun card hcard hsecs => ?_⟩
  obtain ⟨m, hboot, hlh, hon, hrun⟩ :=
    hs.boot (hcard.trans hsect) (Nat.le_of_eq hsecs.symm) (by rw [hsecs]; decide)
  have hcontent : contents dirAndFile 1 = padded [4, 5, 6] := by
    rw [contents, if_pos (by decide), appended_dirAndFile, if_pos rfl]
  have hlength : (contents dirAndFile 1).length = 4096 := by
    rw [hcontent, length_padded]
    rfl
  obtain ⟨m', hresult⟩ := hs.readFile_eq (f := 0)
    (show (types dirAndFile)[0]? = some .dir by rw [types_dirAndFile]; rfl)
      (by decide) hrun hon hlh noDrivers zeroBytes
    (n := 10) (Nat.zero_le (contents dirAndFile 1).length) (by decide)
  rw [hlength, hcontent, bytesOf_padded] at hresult
  exact ⟨m, hboot, m', hresult⟩

end RpiOs.Mkfs
