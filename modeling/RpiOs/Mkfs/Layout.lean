import RpiOs.Mkfs.Image
import RpiOs.V6.ByteFile

/-!
# What `mkfs` writes, the kernel reads

The invariant of the image is the kernel's own: `marked V n` are the sectors `V` with the bitmap
that `balloc(n)` would write, and on `marked s.sect s.freeblock` the block trees of all inodes are a
`Forest`. Taking `freeblock` is then one allocation of the kernel (`allocV_marked`), so that every
step of `iappend` is a step that the lemmas about `writei` already know.
-/

namespace RpiOs.Mkfs

open Lib Kernel RedoLog V6 Function

/-- The file system of the image, on `ROOTDEV`. -/
def rootFs : Fs where
  sb := sb
  dev := 1
  dev_ne := Nat.one_ne_zero
  dev_lt := one_lt_nlog
  log_pos := by decide
  log_le := by decide
  inodes_le := by decide
  bmap_le := by decide
  ninodes_le := by decide

/-! ## The bitmap -/

lemma bitAt_ones (k i : Nat) : bitAt (ones k) i = decide (i < k) := by
  induction k with
  | zero => simp [ones, bitAt, zeroBytes]
  | succ k ih =>
    rw [ones, bitAt_setBit, ih, ← Bool.decide_or]
    exact decide_eq_decide.mpr (by omega)

/-- The sectors with the blocks below `n` marked in the bitmap. -/
def marked (V : Nat → Block) (n : Nat) : Nat → Block := fun x =>
  if sb.bmapstart ≤ x ∧ x < nmeta then ones (min bpb (n - (x - sb.bmapstart) * bpb)) else V x

section marked

variable {V : Nat → Block} {n x : Nat}

lemma nmeta_eq : nmeta = sb.bmapstart + nbitmap := rfl

lemma marked_of_not (h : ¬ (sb.bmapstart ≤ x ∧ x < nmeta)) : marked V n x = V x := if_neg h

lemma marked_of_ge (h : nmeta ≤ x) : marked V n x = V x := marked_of_not fun hx => by omega

lemma marked_bitmap {j : Nat} (hj : j < nbitmap) :
    marked V n (sb.bmapstart + j) = ones (min bpb (n - j * bpb)) := by
  have := nmeta_eq
  rw [marked, if_pos (by omega), Nat.add_sub_cancel_left]

lemma bit_marked (hx : x < nbitmap * bpb) : rootFs.bit (marked V n) x = decide (x < n) := by
  have hb : 0 < bpb := by decide
  have hdiv : x / bpb < nbitmap := (Nat.div_lt_iff_lt_mul hb).mpr hx
  have hmod := Nat.mod_lt x hb
  have hx' := Nat.div_add_mod x bpb
  rw [Nat.mul_comm] at hx'
  show bitAt (marked V n (x / bpb + sb.bmapstart)) (x % bpb) = _
  rw [Nat.add_comm, marked_bitmap hdiv, bitAt_ones]
  exact decide_eq_decide.mpr (by omega)

lemma lt_bitmap (hx : x < fssize) : x < nbitmap * bpb := Nat.lt_trans hx (by decide)

/-- Taking the next block sets its bit, in a bitmap that marks all before it. -/
lemma allocV_marked (hlow : nmeta ≤ n) (hhigh : n < fssize) (hzero : V n = zeroBytes) :
    rootFs.allocV (marked V n) n = marked V (n + 1) := by
  have hb : 0 < bpb := by decide
  have hdiv : n / bpb < nbitmap := (Nat.div_lt_iff_lt_mul hb).mpr (lt_bitmap hhigh)
  have hmod := Nat.mod_lt n hb
  have hn := Nat.div_add_mod n bpb
  rw [Nat.mul_comm] at hn
  have hmeta := nmeta_eq
  funext x
  unfold Fs.allocV
  by_cases hx : x = n
  · rw [if_pos hx, hx, marked_of_ge hlow, hzero]
  rw [if_neg hx]
  by_cases hbm : sb.bmapstart ≤ x ∧ x < nmeta
  · obtain ⟨j, rfl⟩ := Nat.exists_eq_add_of_le hbm.1
    have hj : j < nbitmap := by omega
    rw [show rootFs.sb.bblock n = sb.bmapstart + n / bpb from Nat.add_comm ..]
    rw [marked_bitmap hdiv, marked_bitmap hj, marked_bitmap hj]
    by_cases hjn : j = n / bpb
    · subst hjn
      rw [if_pos rfl, show min bpb (n - n / bpb * bpb) = n % bpb by omega,
        show min bpb (n + 1 - n / bpb * bpb) = n % bpb + 1 by omega, ones]
    rw [if_neg (by omega)]
    congr 1
    rcases Nat.lt_or_gt_of_ne hjn with hlt | hgt
    · have := Nat.mul_le_mul_right bpb (show j + 1 ≤ n / bpb from hlt)
      rw [Nat.add_mul] at this
      omega
    have := Nat.mul_le_mul_right bpb (show n / bpb + 1 ≤ j from hgt)
    rw [Nat.add_mul] at this
    omega
  · rw [marked_of_not hbm, marked_of_not hbm, if_neg]
    rintro rfl
    exact hbm ⟨Nat.le_add_left .., by rw [hmeta, Nat.add_comm]; exact Nat.add_lt_add_right hdiv _⟩

lemma marked_update (hx : x < sb.bmapstart ∨ nmeta ≤ x) (y : Block) :
    marked (update V x y) n = fun z => if z = x then y else marked V n z := by
  have hmeta := nmeta_eq
  funext z
  unfold marked
  by_cases hz : z = x
  · rw [if_neg (by omega), hz, update_self, if_pos rfl]
  · rw [update_of_ne hz, if_neg hz]

lemma linkV_marked {p k : Nat} (hlow : nmeta ≤ n) (hhigh : n < fssize) (hzero : V n = zeroBytes)
    (hp : nmeta ≤ p) :
    rootFs.linkV (marked V n) n p k = marked (update V p (setWord (V p) k n)) (n + 1) := by
  rw [marked_update (.inr hp)]
  funext x
  unfold Fs.linkV
  rw [allocV_marked hlow hhigh hzero, marked_of_ge hp]

end marked

/-! ## Blocks for a file -/

/-- The blocks from `freeblock` on have not been touched, nor the bitmap and the header of the
log. -/
structure Fresh (s : Img) : Prop where
  low : nmeta ≤ s.freeblock
  high : s.freeblock ≤ fssize
  zero : ∀ x, s.freeblock ≤ x → x < fssize → s.sect x = zeroBytes
  bitmap : ∀ x, sb.bmapstart ≤ x → x < nmeta → s.sect x = zeroBytes
  header : s.sect sb.logstart = zeroBytes

/-- The image as the kernel will see it. -/
def Img.seen (s : Img) : Nat → Block := marked s.sect s.freeblock

/-- What a step that takes blocks for file `f` does. -/
structure Grown (live : Nat → Prop) (f : Nat) (s : Img) (roots : Nat → Nat → Nat) (s' : Img)
    (roots' : Nat → Nat → Nat) : Prop where
  grows : Grows rootFs live f s.seen roots s'.seen roots'
  fresh : Fresh s'
  freeinode : s'.freeinode = s.freeinode

/-- The image is full. -/
def Full (s : Img) : Prop := fssize < s.freeblock

section steps

variable {live : Nat → Prop} {f : Nat} {s : Img} {roots : Nat → Nat → Nat} {din : Dinode}
  {R : Exit → Img → Prop}

lemma Grown.refl (hF : Forest rootFs live s.seen roots) (hs : Fresh s) (f : Nat) :
    Grown live f s roots s roots := ⟨.refl hF f, hs, rfl⟩

lemma Grown.trans {s1 s2 : Img} {roots1 roots2 : Nat → Nat → Nat}
    (h : Grown live f s roots s1 roots1) (h' : Grown live f s1 roots1 s2 roots2) :
    Grown live f s roots s2 roots2 :=
  ⟨h.grows.trans h'.grows, h'.fresh, h'.freeinode.trans h.freeinode⟩

lemma slot_lt (hF : Forest rootFs live s.seen roots) (hf : live f) {sl : Slot} (hs : sl.Ok)
    (hne : sl.val s.seen (roots f) ≠ 0) :
    nmeta ≤ sl.val s.seen (roots f) ∧ sl.val s.seen (roots f) < s.freeblock ∧
      sl.val s.seen (roots f) < fssize := by
  have hdata := hF.data f hf sl hs hne
  have hbit : rootFs.bit (marked s.sect s.freeblock) (sl.val s.seen (roots f)) = true :=
    hF.alloc f hf sl hs hne
  rw [bit_marked (lt_bitmap hdata.2)] at hbit
  exact ⟨hdata.1, of_decide_eq_true hbit, hdata.2⟩

lemma ends_rsect {sec : Nat} {Q : Block → Img → Prop} :
    Ends (rsect sec) s Q R ↔ if sec < fssize then Q (s.sect sec) s else R .read s := by
  unfold rsect
  rw [ends_bind, ends_get]
  split <;> rfl

lemma ends_wsect {sec : Nat} {buf : Block} {Q : PUnit → Img → Prop} :
    Ends (wsect sec buf) s Q R ↔ Q ⟨⟩ (s.put sec buf) := ends_modify _

lemma ends_nextBlock {Q : Nat → Img → Prop} :
    Ends nextBlock s Q R ↔ Q s.freeblock { s with freeblock := s.freeblock + 1 } := by
  unfold nextBlock
  rw [ends_bind, ends_get, ends_bind, ends_set, ends_pure]

lemma Fresh.next (hs : Fresh s) (hlt : s.freeblock < fssize) :
    rootFs.bit s.seen s.freeblock = false ∧ rootFs.Data s.freeblock ∧ s.freeblock < 2 ^ 32 ∧
      s.sect s.freeblock = zeroBytes := by
  refine ⟨?_, ⟨hs.low, hlt⟩, Nat.lt_trans hlt (by decide), hs.zero _ (Nat.le_refl _) hlt⟩
  exact (bit_marked (lt_bitmap hlt)).trans (decide_eq_false (Nat.lt_irrefl _))

lemma Fresh.taken (hs : Fresh s) (hlt : s.freeblock < fssize) :
    Fresh { s with freeblock := s.freeblock + 1 } where
  low := Nat.le_succ_of_le hs.low
  high := hlt
  zero x hx := hs.zero x (Nat.le_of_succ_le hx)
  bitmap := hs.bitmap
  header := hs.header

/-- Writing a block in use touches no block that is still free. -/
lemma Fresh.write (hs : Fresh s) {x : Nat} (hlow : nmeta ≤ x) (hx : x < s.freeblock) (y : Block) :
    Fresh (s.put x y) where
  low := hs.low
  high := hs.high
  zero z hz hlt :=
    (update_of_ne (Nat.ne_of_gt (Nat.lt_of_lt_of_le hx hz)) ..).trans (hs.zero z hz hlt)
  bitmap z hz hlt :=
    (update_of_ne (Nat.ne_of_lt (Nat.lt_of_lt_of_le hlt hlow)) ..).trans (hs.bitmap z hz hlt)
  header :=
    have hlog : sb.logstart < nmeta := by decide
    (update_of_ne (Nat.ne_of_lt (Nat.lt_of_lt_of_le hlog hlow)) ..).trans hs.header

lemma addrs_setAddr {i : Nat} (hi : i < ndirect + 2) (a : Nat) :
    (din.setAddr i a).addrs = fun j => if j = i then a else din.addrs j := by
  funext j
  unfold Dinode.addrs Dinode.setAddr
  by_cases hj : j = i
  · rw [if_pos (hj ▸ hi), hj, update_self, if_pos rfl]
  · rw [update_of_ne (by omega), if_neg hj]

/-- The words before `addrs` are the same. -/
def SameMeta (din din' : Dinode) : Prop := ∀ j < 18, din' j = din j

/-- The block `b` has been put into slot `sl` of file `f`, or the image is full and `b` lies behind
its end. -/
def Filled (live : Nat → Prop) (f : Nat) (s : Img) (roots : Nat → Nat → Nat) (a : Nat → Nat)
    (sl : Slot) (b : Nat) (s' : Img)
    : Prop :=
  (fssize ≤ b ∧ Full s') ∨
    (Grown live f s roots s' (setRoot roots f a) ∧ b = sl.val s'.seen a ∧ b ≠ 0)

/-- An address of the inode: there, or the next free block. -/
lemma topAddr_ends (hF : Forest rootFs live s.seen roots) (hs : Fresh s) (hf : live f)
    (hroot : roots f = din.addrs) {i : Nat} (hi : i < ndirect + 2) :
    Ends (topAddr din i) s (fun r s' => SameMeta din r.2 ∧
      Filled live f s roots r.2.addrs (.top i) r.1 s') R := by
  unfold topAddr
  split
  · next hempty =>
    rw [ends_bind, ends_nextBlock, ends_pure]
    refine ⟨fun _ hj => update_of_ne (by omega) .., ?_⟩
    by_cases hlt : s.freeblock < fssize
    · obtain ⟨hfree, hdata, -, hzero⟩ := hs.next hlt
      have hgrow := hF.grow_top hf hi (hroot ▸ hempty) hfree hdata
      have haddrs : (din.setAddr i s.freeblock).addrs = _ := addrs_setAddr hi s.freeblock
      rw [Img.seen, allocV_marked hs.low hlt hzero, hroot, ← haddrs] at hgrow
      have hval : s.freeblock = (din.setAddr i s.freeblock).addrs i := by
        rw [haddrs]
        exact (if_pos rfl).symm
      exact .inr ⟨⟨hgrow, hs.taken hlt, rfl⟩, hval, hdata.ne_zero⟩
    · have := hs.high
      exact .inl ⟨Nat.not_lt.mp hlt, show fssize < s.freeblock + 1 by omega⟩
  · next hne =>
    rw [ends_pure]
    refine ⟨fun _ _ => rfl, .inr ⟨?_, rfl, hne⟩⟩
    rw [← hroot, setRoot_same]
    exact .refl hF hs f

/-- `entryAddr` fills a slot of a pointer block; one behind the end cannot be read. -/
lemma entryAddr_ends {s1 : Img} {a : Nat → Nat} (hf : live f) {q : Ptr} (hq : q.Ok) {p k : Nat}
    (hk : k < nindirect) (hp : Filled live f s roots a q.slot p s1) :
    Ends (entryAddr p k) s1 (Filled live f s roots a (q.at k)) fun _ => Full := by
  unfold entryAddr
  rw [ends_bind, ends_rsect]
  rcases hp with ⟨hp, hfull⟩ | ⟨hgrown, hp, hne⟩
  · rw [if_neg (Nat.not_lt.mpr hp)]
    exact hfull
  have hF := hgrown.grows.forest
  have hs := hgrown.fresh
  have hroot : setRoot roots f a f = a := setRoot_self ..
  have hp' : q.slot.val s1.seen (setRoot roots f a f) ≠ 0 := by rwa [hroot, ← hp]
  obtain ⟨hlow, hlt, hin⟩ := slot_lt hF hf hq hp'
  rw [hroot, ← hp] at hlow hlt hin
  have hseen : s1.seen p = s1.sect p := marked_of_ge hlow
  have hval : (q.at k).val s1.seen a = word (s1.sect p) k := by
    rw [Ptr.val_at, ← hp, entry_of_ne hne, hseen]
  rw [if_pos hin]
  split
  · next hempty =>
    rw [ends_bind, ends_nextBlock, ends_bind, ends_wsect, ends_pure]
    by_cases hroom : s1.freeblock < fssize
    · obtain ⟨hfree, hdata, hsmall, hzero⟩ := hs.next hroom
      have hslot : (q.at k).val s1.seen (setRoot roots f a f) = 0 := by rw [hroot, hval, hempty]
      have hlinked := hF.grow_entry hf hq hp' hslot hfree hdata hsmall hk
      have hlink : rootFs.linkV s1.seen s1.freeblock p k = _ := linkV_marked hs.low hroom hzero hlow
      rw [hroot, ← hp, hlink] at hlinked
      obtain ⟨hgrow, hnew⟩ := hlinked
      exact .inr ⟨hgrown.trans ⟨hgrow, (hs.taken hroom).write hlow (Nat.lt_succ_of_lt hlt) _, rfl⟩,
        hnew.symm, hdata.ne_zero⟩
    · have := hs.high
      exact .inl ⟨Nat.not_lt.mp hroom, show fssize < s1.freeblock + 1 by omega⟩
  · next hne =>
    rw [ends_pure]
    exact .inr ⟨hgrown, hval.symm, hne⟩

/-- **The walk of `iappend` fills the slot that the kernel will look at.** -/
lemma blockFor_ends (hF : Forest rootFs live s.seen roots) (hs : Fresh s) (hf : live f)
    (hroot : roots f = din.addrs) {fbn : Nat} (hfbn : fbn < maxfile) :
    Ends (blockFor din fbn) s (fun r s' => SameMeta din r.2 ∧
      Filled live f s roots r.2.addrs (dataSlot fbn) r.1 s') fun _ => Full := by
  unfold blockFor dataSlot
  split
  · next hdir => exact topAddr_ends hF hs hf hroot (Nat.lt_add_right 2 hdir)
  next hdir =>
  split
  · next hind =>
    rw [if_pos (by omega), ends_bind]
    refine (topAddr_ends hF hs hf hroot Ptr.ind_ok).imp ?_
    rintro ⟨p, din1⟩ s1 ⟨hmeta, hp⟩
    exact (entryAddr_ends hf Ptr.ind_ok (by omega) hp).step (fun x s2 hx => ⟨hmeta, hx⟩)
  next hind =>
  have hmax : maxfile = ndirect + nindirect + nindirect * nindirect := rfl
  have hdiv : (fbn - ndirect - nindirect) / nindirect < nindirect :=
    (Nat.div_lt_iff_lt_mul (by decide)).mpr (by omega)
  have hmod : (fbn - ndirect - nindirect) % nindirect < nindirect := Nat.mod_lt _ (by decide)
  rw [if_neg (by omega), ends_bind]
  refine (topAddr_ends hF hs hf hroot Ptr.dbl_ok).imp ?_
  rintro ⟨p, din1⟩ s1 ⟨hmeta, hp⟩
  refine (entryAddr_ends hf Ptr.dbl_ok hdiv hp).step (fun x s2 hx => ?_)
  exact (entryAddr_ends (q := .mid _) hf hdiv hmod hx).step (fun y s3 hy => ⟨hmeta, hy⟩)

/-! ## Appending -/

/-- What the loop of `iappend` leaves. -/
structure Appended (live : Nat → Prop) (f off n : Nat) (p : Bytes) (soff : Nat) (s : Img)
    (roots : Nat → Nat → Nat) (din : Dinode) (s' : Img) (din' : Dinode) : Prop where
  wrote : Wrote rootFs live f off n p soff s.seen roots s'.seen (setRoot roots f din'.addrs)
  fresh : Fresh s'
  sameMeta : SameMeta din din'
  freeinode : s'.freeinode = s.freeinode

lemma Appended.nil (hF : Forest rootFs live s.seen roots) (hs : Fresh s)
    (hroot : roots f = din.addrs) (off : Nat) (p : Bytes) (soff : Nat)
    : Appended live f off 0 p soff s roots din s din := by
  refine ⟨?_, hs, fun _ _ => rfl, rfl⟩
  rw [← hroot, setRoot_same]
  exact .nil hF f off p soff

lemma chunk_eq (off n : Nat) : min n ((off / bsize + 1) * bsize - off) = chunk off n ∧
    off - off / bsize * bsize = off % bsize := by
  have hb : bsize = 4096 := rfl
  unfold chunk
  rw [hb]
  omega

/-- **The loop of `iappend` writes the bytes, or the image is full.** -/
lemma appendLoop_ends (p : Bytes) (fuel : Nat) {off n soff : Nat} (hfuel : n ≤ fuel)
    (hsize : off + n < 2 ^ 32) (hF : Forest rootFs live s.seen roots) (hs : Fresh s) (hf : live f)
    (hroot : roots f = din.addrs) :
    Ends (appendLoop p fuel din off n soff) s
      (fun r s' => r.1 = off + n ∧ Appended live f off n p soff s roots din s' r.2) fun _ =>
      Full := by
  induction fuel generalizing s roots din off n soff with
  | zero =>
    obtain rfl := Nat.le_zero.mp hfuel
    exact ⟨rfl, .nil hF hs hroot off p soff⟩
  | succ fuel ih => ?_
  rw [appendLoop]
  split
  · next h0 =>
    subst h0
    exact ⟨rfl, .nil hF hs hroot off p soff⟩
  next h0 =>
  have hmax := lt_maxfile
  have hlt : off / bsize < maxfile := (Nat.div_lt_iff_lt_mul (by decide)).mpr (by omega)
  have hk := chunk_le off n
  have hkpos := chunk_pos off h0
  dsimp only
  rw [(chunk_eq off n).1, (chunk_eq off n).2, if_neg (Nat.not_le.mpr hlt),
    Nat.mod_eq_of_lt (show off + chunk off n < 2 ^ 32 by omega), ends_bind]
  refine (blockFor_ends hF hs hf hroot hlt).imp ?_
  rintro ⟨x, din1⟩ s1 ⟨hmeta, hx⟩
  rw [ends_bind, ends_rsect]
  rcases hx with ⟨hx, hfull⟩ | ⟨hgrown, hx, hne⟩
  · rw [if_neg (Nat.not_lt.mpr hx)]
    exact hfull
  have hroot1 : setRoot roots f din1.addrs f = din1.addrs := setRoot_self ..
  have hmapped : mapped s1.seen (setRoot roots f din1.addrs f) (off / bsize) = x := by
    rw [hroot1]
    exact hx.symm
  have hne' : mapped s1.seen (setRoot roots f din1.addrs f) (off / bsize) ≠ 0 := hmapped ▸ hne
  obtain ⟨hlow, hblk, hin⟩ := slot_lt hgrown.grows.forest hf (dataSlot_ok hlt) hne'
  change nmeta ≤ mapped _ _ _ at hlow
  change mapped _ _ _ < _ at hblk hin
  rw [hmapped] at hlow hblk hin
  rw [if_pos hin, ends_bind, ends_wsect]
  -- the chunk goes into the block, and the loop goes on from its end
  have hseen : (s1.put x (splice (s1.sect x) (off % bsize) p soff (chunk off n))).seen = fun z =>
        if z = mapped s1.seen (setRoot roots f din1.addrs f) (off / bsize) then
          splice (s1.seen (mapped s1.seen (setRoot roots f din1.addrs f) (off / bsize)))
            (off % bsize) p soff (chunk off n)
        else s1.seen z := by
    rw [hmapped, show s1.seen x = s1.sect x from marked_of_ge hlow]
    exact marked_update (.inr hlow) _
  obtain ⟨hF2, -, -, -⟩ := hgrown.grows.forest.write_data hf hlt hne' _ hseen
  refine (ih (by omega) (by omega) hF2 (hgrown.fresh.write hlow hblk _) hroot1).mono ?_
    fun _ _ h => h
  rintro ⟨off', din2⟩ s3 ⟨hoff, happ⟩
  refine ⟨hoff.trans (by omega), ?_, happ.fresh,
    fun j hj => (happ.sameMeta j hj).trans (hmeta j hj), happ.freeinode.trans hgrown.freeinode⟩
  have hrest := happ.wrote
  rw [setRoot_setRoot] at hrest
  exact .cons hf (by omega) h0 hgrown.grows hne' hseen hrest

end steps

end RpiOs.Mkfs
