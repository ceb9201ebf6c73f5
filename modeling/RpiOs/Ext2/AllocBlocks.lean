import RpiOs.Ext2.NewBlocks
import RpiOs.RedoLog.Recovery

/-!
# Which blocks `ext2_alloc_blocks` hands out

`ext2_new_blocks` may take fewer blocks than it is asked for, but it does not say so:
`ext2_alloc_blocks` always hands out as many numbers as it asked for.

* `allocBlocks_sound_iff`: the blocks handed out were all free and are all taken iff the whole
  request was granted, from a group whose descriptor is found at its own place.
-/

namespace RpiOs.Ext2

open Lib Kernel Bio

/-! ## Blocks in use -/

namespace Fs

variable (fs : Fs)

/-- The group of a block. -/
def groupOf (b : Nat) : Nat := (b - fs.sb.firstDataBlock) / fs.sb.blocksPerGroup

/-- The bit of a block in the bitmap of its group. -/
def bitOf (b : Nat) : Nat := (b - fs.sb.firstDataBlock) % fs.sb.blocksPerGroup

/-- The bit of a block in the bitmap that its group's own descriptor names. -/
def used (V : Nat → Block) (b : Nat) : Bool :=
  bitAt (V (bgBlockBitmap (V fs.descBlock) (fs.groupOf b))) (fs.bitOf b)

/-- A block of the file system. -/
def Inside (b : Nat) : Prop := fs.sb.firstDataBlock ≤ b ∧ b < fs.sb.blocksCount

end Fs

/-- The groups have bitmaps of their own. -/
structure Laid (fs : Fs) (V : Nat → Block) : Prop where
  desc : ∀ g < fs.sb.groupsCount, bgBlockBitmap (V fs.descBlock) g ≠ fs.descBlock
  inj : ∀ g < fs.sb.groupsCount, ∀ g' < fs.sb.groupsCount,
    bgBlockBitmap (V fs.descBlock) g = bgBlockBitmap (V fs.descBlock) g' → g = g'

/-- The blocks `xs`, pairwise distinct, were free on the card `V` and are taken on `V'`. -/
structure Sound (fs : Fs) (V V' : Nat → Block) (xs : List Nat) : Prop where
  nodup : xs.Nodup
  inside : ∀ x ∈ xs, fs.Inside x
  clear : ∀ x ∈ xs, fs.used V x = false
  set : ∀ x ∈ xs, fs.used V' x = true

/-- All blocks handed out. -/
def AllocBlocks.blocks (r : AllocBlocks) : List Nat := r.indirect ++ List.range' r.direct r.count

section bits

variable {fs : Fs} {V : Nat → Block} {gr : Grant}

/-- A block of a run is in the group it was found in. -/
lemma Fs.groupOf_run (fs : Fs) (group bit : Nat) (hbit : bit < fs.sb.blocksPerGroup) :
    fs.groupOf (bit + fs.sb.groupFirstBlockNo group) = group ∧
      fs.bitOf (bit + fs.sb.groupFirstBlockNo group) = bit := by
  have hsub : bit + fs.sb.groupFirstBlockNo group - fs.sb.firstDataBlock =
      bit + group * fs.sb.blocksPerGroup := by
    unfold SuperBlock.groupFirstBlockNo
    omega
  unfold Fs.groupOf Fs.bitOf
  rw [hsub, Nat.add_mul_div_right _ _ fs.group_pos, Nat.add_mul_mod_self_right,
    Nat.div_eq_of_lt hbit, Nat.mod_eq_of_lt hbit, Nat.zero_add]
  exact ⟨rfl, rfl⟩

lemma Fs.groupOf_lt {b : Nat} (hb : fs.Inside b) : fs.groupOf b < fs.sb.groupsCount :=
    fs.group_lt hb.2

/-- The bit of a block after a run was taken: only the bitmap that the code used has changed. -/
lemma Fs.used_grantV (hl : Laid fs V) (hne : fs.descBlock ≠ fs.bitmapBlock V gr.group) {b : Nat}
    (hb : fs.Inside b) : fs.used (fs.grantV V gr) b =
      if bgBlockBitmap (V fs.descBlock) (fs.groupOf b) = fs.bitmapBlock V gr.group
      then bitAt gr.bitmap (fs.bitOf b) else fs.used V b := by
  have hdesc : bgBlockBitmap (fs.grantV V gr fs.descBlock) (fs.groupOf b) =
      bgBlockBitmap (V fs.descBlock) (fs.groupOf b) := by
    unfold Fs.grantV
    rw [if_neg hne, if_pos rfl]
    exact word_setHalf_of_ne _ _ (by omega)
  have hnd := hl.desc _ (fs.groupOf_lt hb)
  unfold Fs.used
  rw [hdesc]
  unfold Fs.grantV
  by_cases he : bgBlockBitmap (V fs.descBlock) (fs.groupOf b) = fs.bitmapBlock V gr.group
  · rw [if_pos he, if_pos he]
  · rw [if_neg he, if_neg hnd, if_neg he]

/-- A group other than the last of the descriptor block has its own descriptor. -/
lemma Fs.bitmapBlock_own {group : Nat} (h : group + 1 < fs.sb.descPerBlock) :
    fs.bitmapBlock V group = bgBlockBitmap (V fs.descBlock) group := by
  unfold Fs.bitmapBlock Fs.slot
  rw [Nat.mod_eq_of_lt (by omega)]

lemma Fs.bitmapBlock_last {group : Nat} (hlt : group < fs.sb.groupsCount)
    (h : ¬ group + 1 < fs.sb.descPerBlock) :
    fs.bitmapBlock V group = bgBlockBitmap (V fs.descBlock) 0 := by
  have := fs.groups_le
  unfold Fs.bitmapBlock Fs.slot
  rw [show group = fs.sb.descPerBlock - 1 by omega, Nat.mod_self]

section

variable (hG : Granted fs V gr) (hl : Laid fs V) (hne : fs.descBlock ≠ fs.bitmapBlock V gr.group)
include hG hl hne

/-- A block outside the run is used as before. -/
lemma Granted.used_of_not_mem (hown : gr.group + 1 < fs.sb.descPerBlock)
    {b : Nat} (hb : fs.Inside b)
    (hout : fs.groupOf b = gr.group → ¬ (gr.bit ≤ fs.bitOf b ∧ fs.bitOf b < gr.bit + gr.num)) :
    fs.used (fs.grantV V gr) b = fs.used V b := by
  rw [Fs.used_grantV hl hne hb]
  split
  · next he =>
    rw [Fs.bitmapBlock_own hown] at he
    have hg := hl.inj _ (fs.groupOf_lt hb) _ hG.group he
    rw [hG.bits, decide_eq_false (hout hg), Bool.false_or, Fs.bitmapBlock_own hown, ← hg]
    rfl
  · rfl

/-- **The run was free and is taken.** -/
theorem Granted.sound (hown : gr.group + 1 < fs.sb.descPerBlock)
    (hlt : gr.bit + fs.sb.groupFirstBlockNo gr.group + gr.num - 1 < fs.sb.blocksCount) :
    Sound fs V (fs.grantV V gr)
      (List.range' (gr.bit + fs.sb.groupFirstBlockNo gr.group) gr.num) := by
  have hfits := hG.fits
  have key : ∀ x ∈ List.range' (gr.bit + fs.sb.groupFirstBlockNo gr.group) gr.num,
      fs.Inside x ∧ fs.used V x = false ∧ fs.used (fs.grantV V gr) x = true := by
    intro x hx
    obtain ⟨k, hk, rfl⟩ := List.mem_range'.mp hx
    rw [Nat.one_mul, show gr.bit + fs.sb.groupFirstBlockNo gr.group + k =
      gr.bit + k + fs.sb.groupFirstBlockNo gr.group by omega]
    obtain ⟨hg, hb⟩ := fs.groupOf_run gr.group (gr.bit + k) (by omega)
    have hin : fs.Inside (gr.bit + k + fs.sb.groupFirstBlockNo gr.group) := by
      refine ⟨?_, by omega⟩
      unfold SuperBlock.groupFirstBlockNo
      omega
    refine ⟨hin, ?_, ?_⟩
    · have := hG.clear k hk
      rw [Fs.bitmapBlock_own hown] at this
      unfold Fs.used
      rw [hg, hb]
      exact this
    · rw [Fs.used_grantV hl hne hin, hg, if_pos (Fs.bitmapBlock_own hown).symm, hb, hG.bits,
        decide_eq_true ⟨by omega, by omega⟩, Bool.true_or]
  exact ⟨List.nodup_range', fun x hx => (key x hx).1, fun x hx => (key x hx).2.1,
    fun x hx => (key x hx).2.2⟩

/-- **More blocks than the run has are not all new**, nor are those of a group with another's
descriptor. -/
theorem Granted.sound_iff {n : Nat} (hpos : 0 < n) (hn : gr.num ≤ n)
    (hlt : gr.bit + fs.sb.groupFirstBlockNo gr.group + gr.num - 1 < fs.sb.blocksCount) :
    Sound fs V (fs.grantV V gr) (List.range' (gr.bit + fs.sb.groupFirstBlockNo gr.group) n) ↔
      gr.num = n ∧ gr.group + 1 < fs.sb.descPerBlock := by
  have hfits := hG.fits
  have hpos' := hG.pos
  refine ⟨fun hS => ?_, fun ⟨he, hown⟩ => he ▸ hG.sound hl hne hown hlt⟩
  have hmem : ∀ k < n, gr.bit + k + fs.sb.groupFirstBlockNo gr.group ∈
      List.range' (gr.bit + fs.sb.groupFirstBlockNo gr.group) n := by
    intro k hk
    exact List.mem_range'.mpr ⟨k, hk, by omega⟩
  -- no block handed out keeps its bit
  have hchange : ∀ k < n, fs.used (fs.grantV V gr) (gr.bit + k + fs.sb.groupFirstBlockNo gr.group) ≠
      fs.used V (gr.bit + k + fs.sb.groupFirstBlockNo gr.group) := by
    intro k hk
    rw [hS.set _ (hmem k hk), hS.clear _ (hmem k hk)]
    exact fun he => Bool.noConfusion he
  have hown : gr.group + 1 < fs.sb.descPerBlock := by
    by_contra hlast
    refine hchange 0 hpos ?_
    have hin := hS.inside _ (hmem 0 hpos)
    rw [Fs.used_grantV hl hne hin, if_neg]
    rw [(fs.groupOf_run gr.group _ (by omega)).1, Fs.bitmapBlock_last hG.group hlast]
    intro he
    have := hl.inj _ hG.group _ fs.groups_pos he
    have := fs.desc_lt
    omega
  refine ⟨?_, hown⟩
  by_contra hless
  have hk : gr.num < n := by omega
  refine hchange gr.num hk (hG.used_of_not_mem hl hne hown (hS.inside _ (hmem _ hk)) fun hg => ?_)
  rintro ⟨-, hb⟩
  by_cases hend : gr.bit + gr.num < fs.sb.blocksPerGroup
  · rw [(fs.groupOf_run gr.group _ hend).2] at hb
    omega
  -- the next block belongs to the next group
  have hnext : gr.bit + gr.num + fs.sb.groupFirstBlockNo gr.group =
      0 + fs.sb.groupFirstBlockNo (gr.group + 1) := by
    unfold SuperBlock.groupFirstBlockNo
    rw [Nat.add_mul, Nat.one_mul]
    omega
  rw [hnext, (fs.groupOf_run (gr.group + 1) _ fs.group_pos).1] at hg
  omega

end

end bits

/-! ## The code -/

section code

variable {fs : Fs} {D : Desk} {m : Mem} {d : Disk} {goal ind blks : Nat}
  (h : AtDesk fs.sb.minor D m d) (hdesc : (fs.descBuf, fs.descBlock) ∈ D.held)
  (hs : ∀ b, ¬ D.unsaved b)
include h hdesc hs

/-- A loop that still has to get no block does not return: the target never becomes negative. -/
lemma allocBlocksLoop_zero (rounds : Nat) (news : List Nat) :
    Wp (allocBlocksLoop fs.sb goal ind rounds 0 news) m d (fun _ _ _ => False) := by
  induction rounds generalizing D m d news with
  | zero =>
    rw [allocBlocksLoop, wp_stop]
    exact ⟨trivial, trivial⟩
  | succ rounds ih => ?_
  rw [allocBlocksLoop, wp_bind]
  refine newBlocks_wp h hdesc hs (fun r m' he => ?_) fun gr m' d' _ _ _ h' _ => ?_
  · rw [if_pos he, wp_stop]
    exact ⟨trivial, trivial⟩
  · rw [if_neg (not_not.mpr rfl), Nat.min_zero]
    exact ih h' hdesc hs _

/-- **`ext2_alloc_blocks` hands out the numbers it asked for**, one after the other. -/
theorem allocBlocks_wp {Q : AllocBlocks → Mem → Disk → Prop}
    (hQ : ∀ gr m' d', 0 < blks → fs.grant D.V goal (blks + ind) = some gr →
      gr.bit + fs.sb.groupFirstBlockNo gr.group + gr.num - 1 < fs.sb.blocksCount →
      D.Free (fs.bitmapBlock D.V gr.group) →
      AtDesk fs.sb.minor { D with V := fs.grantV D.V gr } m' d' → d'.nsecs = d.nsecs →
      Q ⟨List.range' (gr.bit + fs.sb.groupFirstBlockNo gr.group) ind,
        gr.bit + fs.sb.groupFirstBlockNo gr.group + ind, blks⟩ m' d') :
    Wp (allocBlocks fs.sb goal ind blks) m d Q := by
  rw [allocBlocks, allocBlocksLoop, wp_bind]
  refine newBlocks_wp h hdesc hs (fun r m' he => ?_) fun gr m' d' hgr hlt hfree h' hn => ?_
  · rw [if_pos he, wp_stop]
    exact ⟨trivial, trivial⟩
  rw [if_neg (not_not.mpr rfl)]
  dsimp only
  have hmin : min (ind - ([] : List Nat).length) (blks + ind) = ind := by
    rw [List.length_nil]
    omega
  rw [hmin, Nat.add_sub_cancel, List.nil_append, Nat.sub_self]
  split
  · next hpos => exact .ret (hQ gr m' d' hpos hgr hlt hfree h' hn)
  · exact (allocBlocksLoop_zero h' hdesc hs _ _).mono (fun _ _ _ hf => hf.elim) (fun _ h => h)
      (fun _ h => h)

/-- **The blocks that `ext2_alloc_blocks` hands out are new iff the whole request was granted**,
from a group that has its own descriptor. -/
theorem allocBlocks_sound_iff (hl : Laid fs D.V) {r : AllocBlocks} {m' : Mem}
    (hret : (allocBlocks fs.sb goal ind blks m d).result = .ok (r, m')) :
    Sound fs D.V (fun b => view m' (applyAll d (allocBlocks fs.sb goal ind blks m d).writes)
      (fs.sb.minor, b)) r.blocks ↔
      ∃ gr, fs.grant D.V goal (blks + ind) = some gr ∧ gr.num = blks + ind ∧
        gr.group + 1 < fs.sb.descPerBlock := by
  have hwp : Wp (allocBlocks fs.sb goal ind blks) m d (fun r m' d' => ∃ gr, 0 < blks ∧
      fs.grant D.V goal (blks + ind) = some gr ∧
      gr.bit + fs.sb.groupFirstBlockNo gr.group + gr.num - 1 < fs.sb.blocksCount ∧
      D.Free (fs.bitmapBlock D.V gr.group) ∧
      r.blocks = List.range' (gr.bit + fs.sb.groupFirstBlockNo gr.group) (blks + ind) ∧
      AtDesk fs.sb.minor { D with V := fs.grantV D.V gr } m' d') _ _ :=
    allocBlocks_wp h hdesc hs fun gr m' d' hpos hgr hlt hfree h' _ =>
      ⟨gr, hpos, hgr, hlt, hfree, ?_, h'⟩
  · obtain ⟨gr, hpos, hgr, hlt, hfree, hblocks, h'⟩ := hwp.post hret
    obtain ⟨hG, hn⟩ := Fs.grant_spec hgr
    have hview : (fun b => view m' (applyAll d (allocBlocks fs.sb goal ind blks m d).writes)
        (fs.sb.minor, b)) = fs.grantV D.V gr := funext h'.view
    rw [hview, hblocks, hG.sound_iff hl (hfree _ hdesc) (by omega) (by omega) hlt, hgr]
    constructor
    · rintro ⟨h1, h2⟩
      exact ⟨gr, rfl, h1, h2⟩
    rintro ⟨gr', he, h1, h2⟩
    cases he
    exact ⟨h1, h2⟩
  · rw [AllocBlocks.blocks, List.range'_append_1, Nat.add_comm ind]

end code

/-! ### A file system of one group -/

/-- One group of 64 blocks on device 2, its descriptor in block 1. -/
def tinyFs : Fs where
  sb := ⟨2, 4096, 12, 0, 64, 64, 16, 1, 128, 7, 1, 10, fun i => if i = 0 then some 125 else none⟩
  descBuf := 125
  descBlock := 1
  first_lt := by decide
  group_pos := by decide
  groups_eq := by decide
  desc_eq := by decide
  desc_lt := by decide
  groups_le := by decide
  loaded := rfl

/-- The card with the bitmap bytes `f` in block 3; the inode bitmap is block 4, the inode table
block 5, and 48 blocks are free. -/
def tinyCard (f : Nat → BitVec 8) : Disk where
  nsecs := fun _ => 64
  block := fun _ b i =>
    if b = 1 then (if i = 0 then 3 else if i = 4 then 4 else if i = 8 then 5 else if i =
      12 then 48 else 0)
    else if b = 3 then f i else 0

/-- The first 8 blocks are in use. -/
def freeCard : Disk := tinyCard fun i => if i = 0 then 255 else 0

/-- The first 8 blocks and block 11 are in use. -/
def brokenCard : Disk := tinyCard fun i => if i = 0 then 255 else if i = 1 then 8 else 0

/-- The memory after the descriptors were read. -/
def tinyMem (card : Disk) : Mem := Mem.boot.setBuf 125 ⟨true, true, false, 2, 1, card.block 2 1⟩

/-- The desk after the descriptors were read. -/
def tinyDesk (card : Disk) : Desk := ⟨card.block 2, [(125, 1)], fun _ => False, nbuf⟩

lemma boot_atDesk (dev : Nat) (hdev : dev ≠ 0) (card : Disk) :
    AtDesk dev ⟨card.block dev, [], fun _ => False, nbuf⟩ Mem.boot card := by
  obtain ⟨hq, hcl⟩ := RedoLog.quiet_boot card
  refine ⟨hdev, hq, List.nodup_nil, List.forall_mem_nil _, fun b => hcl _, fun b => ?_,
    fun _ _ => rfl, [], fun k hk => absurd hk (hcl k), ?_⟩
  · exact view_of_not_mem (k := (dev, b)) fun _ _ _ => rfl
  show nbuf + 0 ≤ (List.range nbuf).length
  rw [List.length_range]
  exact Nat.le_refl _

lemma tinyMem_atDesk {card : Disk} (h : 1 < card.nsecs 2) :
    AtDesk 2 (tinyDesk card) (tinyMem card) card := by
  have hmiss : cached Mem.boot 2 1 = none := by decide
  have hrec : recyclable Mem.boot = some 125 := by decide
  have hwp := (boot_atDesk 2 (by decide) card).bread_wp (b := 1) (H := fun _ => True)
    (Or.inr fun _ => trivial) (Q := fun i m' _ => AtDesk 2 (Desk.hold
      ⟨card.block 2, [], fun _ => False, nbuf⟩ i 1) m' card) fun i m' _ h' => h'
  exact ((wp_of_ok (bread_miss hmiss hrec h)).mp hwp).2

lemma tinyFs_all {P : Nat → Prop} (h : P 0) : ∀ g < tinyFs.sb.groupsCount, P g := fun _ hg => by
  rwa [Nat.lt_one_iff.mp hg]

lemma tinyFs_inj {V : Nat → Block} (h : bgBlockBitmap (V tinyFs.descBlock) 0 ≠ tinyFs.descBlock) :
    Laid tinyFs V :=
  ⟨tinyFs_all h, tinyFs_all (tinyFs_all fun _ => rfl)⟩

lemma tinyFs_laid (f : Nat → BitVec 8) : Laid tinyFs ((tinyCard f).block 2) := by
  refine tinyFs_inj ?_
  show word _ 0 ≠ 1
  simp [word, tinyCard, tinyFs]

/-- With enough free blocks in a row, the two blocks handed out are new. -/
theorem freeCard_sound : ∃ r m',
    (allocBlocks tinyFs.sb 10 1 1 (tinyMem freeCard) freeCard).result = .ok (r, m') ∧
      Sound tinyFs (freeCard.block 2) (fun b => view m' (applyAll freeCard
        (allocBlocks tinyFs.sb 10 1 1 (tinyMem freeCard) freeCard).writes) (2, b)) r.blocks := by
  have hgr : (tinyFs.grant (freeCard.block 2) 10 2).map (fun gr => (gr.num, gr.group)) = some
      (2, 0) := by
    decide +kernel
  obtain ⟨gr, hgr, he⟩ := Option.map_eq_some_iff.mp hgr
  obtain ⟨r, m', hres, -⟩ := Prog.exists_of_any (p := fun _ _ => True)
    (r := (allocBlocks tinyFs.sb 10 1 1 (tinyMem freeCard) freeCard).result) (by decide +kernel)
  refine ⟨r, m', hres, (allocBlocks_sound_iff (tinyMem_atDesk (by decide)) List.mem_cons_self
    (fun _ => not_false) (tinyFs_laid _) hres).mpr ⟨gr, hgr, congrArg Prod.fst he, ?_⟩⟩
  rw [show gr.group = 0 from congrArg Prod.snd he]
  decide

/-- **With only one free block in a row, a block in use is handed out**: asked for an indirect and
a direct block near block 10, `ext2_alloc_blocks` returns 10 and 11, and 11 was in use. -/
theorem brokenCard_unsound : ∃ r m',
    (allocBlocks tinyFs.sb 10 1 1 (tinyMem brokenCard) brokenCard).result = .ok (r, m') ∧
      r.blocks = [10, 11] ∧ tinyFs.used (brokenCard.block 2) 11 = true :=
  Prog.exists_of_any (by decide +kernel)

end RpiOs.Ext2
