import Mathlib.Data.Finset.Card
import Mathlib.Order.Interval.Finset.Nat
import RpiOs.Ext2.AllocBlocks
import RpiOs.Ext2.Free
import RpiOs.Lib.Run

/-!
# The books of the block groups

A group's free blocks are counted twice: as the clear bits of its bitmap and as a number in its
descriptor.

* **`counts_kept`**: allocating and freeing keep the two counts equal, in every group.
-/

namespace RpiOs.Ext2

open Lib Kernel Bio

/-! ## Bits and counts -/

/-- The clear bits among the first `n`. -/
def clearBits (x : Bytes) (n : Nat) : Nat :=
    ((Finset.range n).filter fun j => bitAt x j = false).card

section bits

variable {x y : Bytes} {a c n : Nat}

/-- Clearing a run of set bits adds its length to the clear ones. -/
lemma clearBits_add (hset : ∀ k < c, bitAt x (a + k) = true) (hfits : a + c ≤ n)
    (hy : ∀ j, bitAt y j = if a ≤ j ∧ j < a + c then false else bitAt x j) :
    clearBits y n = clearBits x n + c := by
  have hunion : (Finset.range n).filter (fun j => bitAt y j = false) =
      (Finset.range n).filter (fun j => bitAt x j = false) ∪ Finset.Ico a (a + c) := by
    ext j
    simp only [Finset.mem_filter, Finset.mem_range, Finset.mem_union, Finset.mem_Ico, hy]
    split
    · next h => exact ⟨fun _ => .inr h, fun _ => ⟨by omega, rfl⟩⟩
    · next h => exact ⟨fun hj => .inl hj, fun hj => hj.resolve_right h⟩
  have hdisj : Disjoint ((Finset.range n).filter fun j => bitAt x j = false)
      (Finset.Ico a (a + c)) := by
    rw [Finset.disjoint_left]
    intro j hj hrun
    rw [Finset.mem_filter] at hj
    rw [Finset.mem_Ico] at hrun
    have hbit := hset (j - a) (by omega)
    rw [show a + (j - a) = j by omega, hj.2] at hbit
    cases hbit
  unfold clearBits
  rw [hunion, Finset.card_union_of_disjoint hdisj, Nat.card_Ico]
  omega

lemma clearBits_le (x : Bytes) (n : Nat) : clearBits x n ≤ n := by
  have hle := Finset.card_filter_le (Finset.range n) fun j => bitAt x j = false
  rwa [Finset.card_range] at hle

/-- The loop over the bits of a run that is in use. -/
lemma clearRun_spec (hset : ∀ k < n, bitAt x (a + k) = true) : ∃ y, clearRun x a n = some y ∧
      ∀ j, bitAt y j = if a ≤ j ∧ j < a + n then false else bitAt x j := by
  induction n generalizing x a with
  | zero => exact ⟨x, rfl, fun j => by rw [if_neg (by omega)]⟩
  | succ n ih => ?_
  have hfirst : bitAt x a = true := hset 0 (Nat.succ_pos n)
  have hrest : ∀ k < n, bitAt (clearBit x a) (a + 1 + k) = true := by
    intro k hk
    rw [bitAt_clearBit, decide_eq_false (by omega), Nat.add_assoc, Nat.add_comm 1 k,
      hset (k + 1) (by omega)]
    rfl
  obtain ⟨y, hy, hbits⟩ := ih hrest
  refine ⟨y, by rw [clearRun, if_pos hfirst, hy], fun j => ?_⟩
  rw [hbits, bitAt_clearBit]
  by_cases hj : j = a
  · rw [if_neg (by omega), if_pos (by omega), decide_eq_true hj]
    rfl
  rw [decide_eq_false hj]
  by_cases hin : a + 1 ≤ j ∧ j < a + 1 + n
  · rw [if_pos hin, if_pos (by omega)]
  · rw [if_neg hin, if_neg (by omega)]
    rfl

end bits

namespace Fs

variable (fs : Fs) (V : Nat → Block)

/-- Bit `j` of the bitmap that the group's own descriptor names. -/
def bit (g j : Nat) : Bool := bitAt (V (bgBlockBitmap (V fs.descBlock) g)) j

/-- The block of bit `j` of a group. -/
def blockNo (g j : Nat) : Nat := j + fs.sb.groupFirstBlockNo g

/-- The count of every group is the number of clear bits of its bitmap. -/
def Accounted : Prop :=
  ∀ g < fs.sb.groupsCount, bgFreeBlocksCount (V fs.descBlock) g =
    clearBits (V (bgBlockBitmap (V fs.descBlock) g)) fs.sb.blocksPerGroup

/-- The card with another bitmap and another count for a group. -/
def adjustV (g : Nat) (y : Block) (v : Nat) : Nat → Block := fun b =>
  if b = bgBlockBitmap (V fs.descBlock) g then y
  else if b = fs.descBlock then setHalf (V fs.descBlock) (16 * g + 6) v
  else V b

/-- A block that holds a bitmap or a part of an inode table. -/
def System (b : Nat) : Prop :=
  ∃ g < fs.sb.groupsCount, b = bgBlockBitmap (V fs.descBlock) g ∨
    b = bgInodeBitmap (V fs.descBlock) g ∨
    InRange b (bgInodeTable (V fs.descBlock) g) fs.sb.itbPerGroup

end Fs

/-- Of the blocks that are neither descriptors nor bitmaps only those in `T` change, the descriptors
name the same blocks, and the counts stay right. -/
structure Kept (fs : Fs) (T : Nat → Prop) (V V' : Nat → Block) : Prop where
  bitmap : ∀ g, bgBlockBitmap (V' fs.descBlock) g = bgBlockBitmap (V fs.descBlock) g
  inodeBitmap : ∀ g, bgInodeBitmap (V' fs.descBlock) g = bgInodeBitmap (V fs.descBlock) g
  inodeTable : ∀ g, bgInodeTable (V' fs.descBlock) g = bgInodeTable (V fs.descBlock) g
  other : ∀ c, ¬ T c → c ≠ fs.descBlock →
    (∀ g < fs.sb.groupsCount, c ≠ bgBlockBitmap (V fs.descBlock) g) →
    V' c = V c
  accounted : fs.Accounted V → fs.Accounted V'

/-- The bits of the `n` blocks from `block` on change to `v`, and nothing else does but the
counts. -/
structure Marked (fs : Fs) (v : Bool) (V V' : Nat → Block) (block n : Nat) : Prop
    extends Kept fs (fun _ => False) V V' where
  first_le : fs.sb.firstDataBlock ≤ block
  le_count : block + n ≤ fs.sb.blocksCount
  before : ∀ g < fs.sb.groupsCount, ∀ j < fs.sb.blocksPerGroup,
    block ≤ fs.blockNo g j → fs.blockNo g j < block + n → fs.bit V g j = !v
  after : ∀ g < fs.sb.groupsCount, ∀ j < fs.sb.blocksPerGroup, fs.bit V' g j =
    if block ≤ fs.blockNo g j ∧ fs.blockNo g j < block + n then v else fs.bit V g j

variable {fs : Fs} {T T' : Nat → Prop} {V V' V'' : Nat → Block} {v : Bool}
  {g block bit n n' c : Nat} {y : Block}

lemma Kept.laid (h : Kept fs T V V') (hl : Laid fs V) : Laid fs V' :=
  ⟨fun g hg => by rw [h.bitmap]; exact hl.desc g hg, fun g hg g' hg' => by
    rw [h.bitmap, h.bitmap]
    exact hl.inj g hg g' hg'⟩

lemma Kept.system (h : Kept fs T V V') (b : Nat) : fs.System V' b ↔ fs.System V b := by
  unfold Fs.System
  simp only [h.bitmap, h.inodeBitmap, h.inodeTable]

lemma Kept.mono (h : Kept fs T V V') (hT : ∀ c, T c → T' c) : Kept fs T' V V' :=
  ⟨h.bitmap, h.inodeBitmap, h.inodeTable, fun c hc => h.other c fun ht => hc (hT c ht), h.accounted⟩

lemma Kept.trans (h : Kept fs T V V') (h' : Kept fs T V' V'') : Kept fs T V V'' := by
  refine ⟨fun g => (h'.bitmap g).trans (h.bitmap g),
    fun g => (h'.inodeBitmap g).trans (h.inodeBitmap g),
    fun g => (h'.inodeTable g).trans (h.inodeTable g), fun c hT hd hno => ?_,
      fun hA => h'.accounted (h.accounted hA)⟩
  rw [h'.other c hT hd fun g hg => by rw [h.bitmap]; exact hno g hg, h.other c hT hd hno]

lemma Fs.bgWord_adjustV (hne : bgBlockBitmap (V fs.descBlock) g ≠ fs.descBlock) {i : Nat}
    (hi : i % 8 ≠ 3) : word (fs.adjustV V g y c fs.descBlock) i = word (V fs.descBlock) i := by
  unfold Fs.adjustV
  rw [if_neg hne.symm, if_pos rfl]
  exact word_setHalf_of_ne _ _ (by omega)

lemma Fs.bgCount_adjustV (hne : bgBlockBitmap (V fs.descBlock) g ≠ fs.descBlock) (g' : Nat) :
    bgFreeBlocksCount (fs.adjustV V g y c fs.descBlock) g' =
      if g' = g then c % 2 ^ 16 else bgFreeBlocksCount (V fs.descBlock) g' := by
  unfold Fs.adjustV bgFreeBlocksCount
  rw [if_neg hne.symm, if_pos rfl, half_setHalf]
  by_cases h : g' = g
  · rw [if_pos h, if_pos (by omega)]
  · rw [if_neg h, if_neg (by omega)]

/-- A block lies in a run exactly if its group and its bit do. -/
lemma Fs.blockNo_mem_iff (fs : Fs) {g' j : Nat} (hfits : bit + n ≤ fs.sb.blocksPerGroup)
    (hj : j < fs.sb.blocksPerGroup) :
    (fs.blockNo g bit ≤ fs.blockNo g' j ∧ fs.blockNo g' j < fs.blockNo g bit + n) ↔
      g' = g ∧ bit ≤ j ∧ j < bit + n := by
  unfold Fs.blockNo
  constructor
  · rintro ⟨h1, h2⟩
    obtain ⟨k, hk⟩ := Nat.exists_eq_add_of_le h1
    have hat := fs.groupOf_run g (bit + k) (by omega)
    have hat' := fs.groupOf_run g' j hj
    rw [hk, Nat.add_right_comm] at hat'
    omega
  · rintro ⟨rfl, h1, h2⟩
    omega

/-- **A run inside one group is marked.** -/
lemma marked_adjustV (hg : g < fs.sb.groupsCount) (hl : Laid fs V)
    (hfits : bit + n ≤ fs.sb.blocksPerGroup) (hcount : fs.blockNo g bit + n ≤ fs.sb.blocksCount)
    (hbefore : ∀ k < n, fs.bit V g (bit + k) = !v)
    (hy : ∀ j, bitAt y j = if bit ≤ j ∧ j < bit + n then v else fs.bit V g j)
    (hacc : fs.Accounted V → c % 2 ^ 16 = clearBits y fs.sb.blocksPerGroup) :
    Marked fs v V (fs.adjustV V g y c) (fs.blockNo g bit) n := by
  have hne := hl.desc g hg
  have hbitmap : ∀ g', bgBlockBitmap (fs.adjustV V g y c fs.descBlock) g' =
      bgBlockBitmap (V fs.descBlock) g' := fun g' => Fs.bgWord_adjustV hne (by omega)
  have hblock : ∀ g' < fs.sb.groupsCount, fs.adjustV V g y c (bgBlockBitmap (V fs.descBlock) g') =
      if g' = g then y else V (bgBlockBitmap (V fs.descBlock) g') := by
    intro g' hg'
    unfold Fs.adjustV
    by_cases h : g' = g
    · rw [if_pos (by rw [h]), if_pos h]
    · rw [if_neg (fun he => h (hl.inj g' hg' g hg he)), if_neg (hl.desc g' hg'), if_neg h]
  refine ⟨⟨hbitmap, fun g' => Fs.bgWord_adjustV hne (by omega),
    fun g' => Fs.bgWord_adjustV hne (by omega), ?_, ?_⟩, ?_, hcount, ?_, ?_⟩
  · intro b _ hb hno
    unfold Fs.adjustV
    rw [if_neg (hno g hg), if_neg hb]
  · intro hA g' hg'
    rw [hbitmap, hblock g' hg', Fs.bgCount_adjustV hne]
    by_cases h : g' = g
    · rw [if_pos h, if_pos h]
      exact hacc hA
    · rw [if_neg h, if_neg h]
      exact hA g' hg'
  · unfold Fs.blockNo SuperBlock.groupFirstBlockNo
    omega
  · intro g' hg' j hj h1 h2
    obtain ⟨rfl, h3, h4⟩ := (fs.blockNo_mem_iff hfits hj).mp ⟨h1, h2⟩
    have := hbefore (j - bit) (by omega)
    rwa [show bit + (j - bit) = j by omega] at this
  · intro g' hg' j hj
    have hiff : (fs.blockNo g bit ≤ fs.blockNo g' j ∧ fs.blockNo g' j < fs.blockNo g bit + n) ↔
        g' = g ∧ bit ≤ j ∧ j < bit + n := fs.blockNo_mem_iff hfits hj
    show bitAt (fs.adjustV V g y c (bgBlockBitmap (fs.adjustV V g y c fs.descBlock) g')) j = _
    rw [hbitmap, hblock g' hg']
    by_cases h : g' = g
    · subst h
      rw [if_pos rfl, hy]
      exact if_congr (by rw [hiff]; exact ⟨fun h => ⟨rfl, h⟩, fun h => h.2⟩) rfl rfl
    · rw [if_neg h, if_neg (fun hin => h (hiff.mp hin).1)]
      rfl

/-- Two runs, one behind the other. -/
lemma Marked.trans (h : Marked fs v V V' block n) (h' : Marked fs v V' V'' (block + n) n') :
    Marked fs v V V'' block (n + n') := by
  refine ⟨h.toKept.trans h'.toKept, h.first_le, by have := h'.le_count; omega, ?_, ?_⟩
  · intro g hg j hj h1 h2
    by_cases hin : fs.blockNo g j < block + n
    · exact h.before g hg j hj h1 hin
    · have hbit := h'.before g hg j hj (by omega) (by omega)
      rwa [h.after g hg j hj, if_neg (by omega)] at hbit
  intro g hg j hj
  rw [h'.after g hg j hj, h.after g hg j hj]
  by_cases h1 : block + n ≤ fs.blockNo g j ∧ fs.blockNo g j < block + n + n'
  · rw [if_pos h1, if_pos (by omega)]
  rw [if_neg h1]
  by_cases h2 : block ≤ fs.blockNo g j ∧ fs.blockNo g j < block + n
  · rw [if_pos h2, if_pos (by omega)]
  · rw [if_neg h2, if_neg (by omega)]

lemma Fs.blockNo_of (fs : Fs) {b : Nat} (hb : fs.sb.firstDataBlock ≤ b) :
    fs.blockNo (fs.groupOf b) (fs.bitOf b) = b := by
  unfold Fs.blockNo Fs.groupOf Fs.bitOf SuperBlock.groupFirstBlockNo
  have := Nat.div_add_mod' (b - fs.sb.firstDataBlock) fs.sb.blocksPerGroup
  omega

lemma Fs.bitOf_lt (fs : Fs) (b : Nat) : fs.bitOf b < fs.sb.blocksPerGroup :=
    Nat.mod_lt _ fs.group_pos

lemma Fs.used_eq_bit (fs : Fs) (V : Nat → Block) (b : Nat) :
    fs.used V b = fs.bit V (fs.groupOf b) (fs.bitOf b) := rfl

lemma Marked.used (h : Marked fs v V V' block n) {b : Nat} (hb : fs.Inside b) :
    fs.used V' b = if block ≤ b ∧ b < block + n then v else fs.used V b := by
  rw [Fs.used_eq_bit, h.after _ (fs.groupOf_lt hb) _ (fs.bitOf_lt b), fs.blockNo_of hb.1]
  rfl

/-! ## Freeing -/

/-- A mounted file system on the desk, with room for one more buffer: the descriptors are in hand,
the groups have descriptors and bitmaps of their own, which are on the card and in nobody's
hands. -/
structure Mounted (fs : Fs) (S : Nat → Prop) (D : Desk) (nsecs : Nat) : Prop where
  own : fs.sb.groupsCount < fs.sb.descPerBlock
  group_lt : fs.sb.blocksPerGroup < 2 ^ 16
  count_lt : fs.sb.blocksCount < 2 ^ 32
  desc : (fs.descBuf, fs.descBlock) ∈ D.held
  laid : Laid fs D.V
  desc_lt : fs.descBlock < nsecs
  bitmap_lt : ∀ g < fs.sb.groupsCount, bgBlockBitmap (D.V fs.descBlock) g < nsecs
  fresh : ∀ g < fs.sb.groupsCount, ¬ S (bgBlockBitmap (D.V fs.descBlock) g)
  free : ∀ g < fs.sb.groupsCount, D.Free (bgBlockBitmap (D.V fs.descBlock) g)
  room : D.held.length < D.room

/-- The bitmap buffer that `ptr` points to, if any, is in hand besides those of `D`, and as it is on
the card. -/
def InHand (dev : Nat) (S : Nat → Prop) (D : Desk) (ptr : Option Nat) (m : Mem) (d : Disk) : Prop :=
  match ptr with
  | none => OnDesk dev S D m d
  | some bh => ∃ b, ¬ D.unsaved b ∧ OnDesk dev S (D.hold bh b) m d

/-- The blocks of a run are in use and not for the file system's own needs. -/
def Fs.Allocated (fs : Fs) (V : Nat → Block) (block n : Nat) : Prop :=
  ∀ b, block ≤ b → b < block + n → fs.used V b = true ∧ ¬ fs.System V b

variable {S : Nat → Prop} {D : Desk} {m : Mem} {d : Disk} {H : Stop → Prop}
  {Q : Unit → Mem → Disk → Prop}

lemma Mounted.slot (h : Mounted fs S D n) (hg : g < fs.sb.groupsCount) : fs.slot g = g := by
  have := h.own
  unfold Fs.slot
  exact Nat.mod_eq_of_lt (by omega)

lemma Mounted.congr {S' : Nat → Prop} {D' : Desk} (h : Mounted fs S D n) (hk : Kept fs T D.V D'.V)
    (hdesc : (fs.descBuf, fs.descBlock) ∈ D'.held)
    (hbm : ∀ g < fs.sb.groupsCount, ¬ S' (bgBlockBitmap (D.V fs.descBlock) g) ∧
      D'.Free (bgBlockBitmap (D.V fs.descBlock) g)) (hroom : D'.held.length < D'.room) :
        Mounted fs S' D' n :=
  ⟨h.own, h.group_lt, h.count_lt, hdesc, hk.laid h.laid, h.desc_lt,
    fun g hg => by rw [hk.bitmap]; exact h.bitmap_lt g hg,
      fun g hg => by rw [hk.bitmap]; exact (hbm g hg).1,
    fun g hg => by rw [hk.bitmap]; exact (hbm g hg).2, hroom⟩

lemma Mounted.kept (h : Mounted fs S D n) (hk : Kept fs T D.V V') :
    Mounted fs S { D with V := V' } n :=
  h.congr hk h.desc (fun g hg => ⟨h.fresh g hg, h.free g hg⟩) h.room

lemma getGroupDesc_ok (hg : g < fs.sb.groupsCount) {Q : Nat × Nat → Mem → Disk → Prop}
    (hQ : Q (fs.descBuf, fs.slot g) m d) : Wp (getGroupDesc fs.sb g) m d Q (H := H) := by
  have hzero : g / 2 ^ fs.sb.descPerBlockBits = 0 := by
    have := fs.groups_le
    rw [fs.desc_eq] at this
    exact Nat.div_eq_of_lt (by omega)
  unfold getGroupDesc
  rw [if_neg (by omega), hzero, fs.loaded]
  exact .ret hQ

/-- Reading the bitmap of a group of a mounted file system. -/
lemma readBlockBitmap_ok (hM : Mounted fs S D (d.nsecs fs.sb.minor))
    (h : OnDesk fs.sb.minor S D m d) (hg : g < fs.sb.groupsCount) {Q : Nat → Mem → Disk → Prop}
    (hQ : ∀ bh m', OnDesk fs.sb.minor S (D.hold bh (bgBlockBitmap (D.V fs.descBlock) g)) m' d →
    Q bh m' d) :
    Wp (readBlockBitmap fs.sb g) m d Q (H := H) := by
  unfold readBlockBitmap
  refine .bind (getGroupDesc_ok hg ?_)
  refine .bind (h.getData_wp hM.desc ?_)
  rw [hM.slot hg]
  exact h.bread_wp (hM.fresh g hg) (.inl ⟨hM.free g hg, hM.room, hM.bitmap_lt g hg⟩)
    fun bh m' _ h' => hQ bh m' h'

lemma brelseIf_ok {ptr : Option Nat} (h : InHand fs.sb.minor S D ptr m d)
    (hQ : ∀ m', OnDesk fs.sb.minor S D m' d → Q () m' d) : Wp (brelseIf ptr) m d Q (H := H) := by
  cases ptr with
  | none => exact .ret (hQ m h)
  | some bh =>
    obtain ⟨b, hb, h⟩ := h
    exact h.brelse_wp rfl (.inr hb) fun m' h' => hQ m' h'

/-- A run of allocated blocks of one group does not meet the group's system zone. -/
lemma Mounted.not_inSystemZone (hM : Mounted fs S D (d.nsecs fs.sb.minor))
    (hg : g < fs.sb.groupsCount) (hA : fs.Allocated D.V block n) (hpos : 0 < n)
    (hle : block + n ≤ fs.sb.blocksCount) :
    ¬ InSystemZone fs.sb (D.V fs.descBlock) g block n := by
  have hlt := hM.count_lt
  have hsum : (block + n + (2 ^ 64 - 1)) % 2 ^ 64 = block + n - 1 := by
    rw [show block + n + (2 ^ 64 - 1) = (block + n - 1) + 2 ^ 64 by omega, Nat.add_mod_right]
    exact Nat.mod_eq_of_lt (by omega)
  rintro (h | h | h | h)
  · have h2 := h.2
    rw [hsum] at h2
    exact (hA _ h.1 (by omega)).2 ⟨g, hg, .inl rfl⟩
  · have h2 := h.2
    rw [hsum] at h2
    exact (hA _ h.1 (by omega)).2 ⟨g, hg, .inr (.inl rfl)⟩
  · exact (hA block (by omega) (by omega)).2 ⟨g, hg, .inr (.inr h)⟩
  · exact (hA (block + n - 1) (by omega) (by omega)).2 ⟨g, hg, .inr (.inr h)⟩

/-- The count of free blocks in a descriptor is changed and written. -/
lemma groupAdjustBlocks_ok (h : OnDesk fs.sb.minor S D m d)
    (hdesc : (fs.descBuf, fs.descBlock) ∈ D.held) (hlt : fs.descBlock < d.nsecs fs.sb.minor)
    {count : Int} (hcount : count ≠ 0)
    (hQ : ∀ m' d', d'.nsecs = d.nsecs →
    OnDesk fs.sb.minor S ((D.put fs.descBlock (setHalf (D.V fs.descBlock)
      (16 * g + 6) ((bgFreeBlocksCount (D.V fs.descBlock) g + count) % 2 ^ 16).toNat)).save
      fs.descBlock) m' d' →
        Q () m' d') :
    Wp (groupAdjustBlocks (fs.descBuf, g) count) m d Q (H := H) := by
  unfold groupAdjustBlocks
  rw [if_pos hcount, wp_bind]
  refine h.modifyData_wp hdesc _ fun m1 h1 => ?_
  exact h1.bwrite_wp hdesc (.inl hlt) fun m2 h2 => hQ m2 _ rfl h2

/-- The part of a run that lies in one group. -/
lemma freeInGroup_wp {bh : Nat} (hM : Mounted fs S D (d.nsecs fs.sb.minor))
    (hg : g < fs.sb.groupsCount)
    (h : OnDesk fs.sb.minor S (D.hold bh (bgBlockBitmap (D.V fs.descBlock) g)) m d) (hpos : 0 < n)
    (hfits : bit + n ≤ fs.sb.blocksPerGroup) (hle : fs.blockNo g bit + n ≤ fs.sb.blocksCount)
    (hA : fs.Allocated D.V (fs.blockNo g bit) n) {Q : Unit → Mem → Disk → Prop}
    (hQ : ∀ V' m' d', Marked fs false D.V V' (fs.blockNo g bit) n → d'.nsecs = d.nsecs →
      OnDesk fs.sb.minor S ({ D with V := V' }.hold bh (bgBlockBitmap (D.V fs.descBlock) g)) m' d' →
        Q () m' d') :
    Wp (freeInGroup fs.sb g bit (fs.blockNo g bit) n bh) m d Q (H := H) := by
  obtain ⟨bm, hbm⟩ : ∃ bm, bm = bgBlockBitmap (D.V fs.descBlock) g := ⟨_, rfl⟩
  rw [← hbm] at h hQ
  have hne : fs.descBlock ≠ bm := by rw [hbm]; exact (hM.laid.desc g hg).symm
  have hdesc : (fs.descBuf, fs.descBlock) ∈ (D.hold bh bm).held := List.mem_cons_of_mem _ hM.desc
  have hset : ∀ k < n, fs.bit D.V g (bit + k) = true := by
    intro k hk
    obtain ⟨hgroup, hbit⟩ := fs.groupOf_run g (bit + k) (by omega)
    have hused := (hA (bit + k + fs.sb.groupFirstBlockNo g) (by unfold Fs.blockNo; omega)
      (by unfold Fs.blockNo; omega)).1
    rwa [fs.used_eq_bit, hgroup, hbit] at hused
  obtain ⟨y, hy, hbits⟩ := clearRun_spec hset
  rw [← hbm] at hy
  unfold freeInGroup
  refine .bind (getGroupDesc_ok hg ?_)
  rw [wp_bind, hM.slot hg]
  refine h.getData_wp hdesc ?_
  rw [Desk.hold_V, if_neg (hM.not_inSystemZone hg hA hpos hle), wp_bind]
  refine h.getData_wp List.mem_cons_self ?_
  rw [Desk.hold_V, hy]
  dsimp only
  refine .bind (h.modifyData_wp List.mem_cons_self _ fun m1 h₁ => ?_)
  refine .bind (h₁.bwrite_wp List.mem_cons_self (.inl (by rw [hbm]; exact hM.bitmap_lt g hg))
    fun m2 h₂ => ?_)
  refine groupAdjustBlocks_ok h₂ hdesc hM.desc_lt (by omega) fun m3 d3 hd3 h3 => ?_
  obtain ⟨v, hv⟩ : ∃ v, v = ((bgFreeBlocksCount (D.V fs.descBlock) g + (n : Int)) % 2 ^ 16).toNat :=
    ⟨_, rfl⟩
  refine hQ (fs.adjustV D.V g y v) m3 d3 ?_ hd3 (h3.congr (fun b => ?_) rfl (fun b hb => ?_) rfl)
  · refine marked_adjustV hg hM.laid hfits hle (by simpa using hset) hbits fun hacc => ?_
    have hlt := hM.group_lt
    have hadd := clearBits_add hset hfits hbits
    have hmax := clearBits_le y fs.sb.blocksPerGroup
    have hbooks := hacc g hg
    omega
  · have hkeep : (((D.hold bh bm).put bm y).save bm).V fs.descBlock = D.V fs.descBlock :=
      Desk.put_of_ne _ hne
    show fs.adjustV D.V g y v b = if b = fs.descBlock then _ else if b = bm then y else D.V b
    rw [hkeep, ← hv]
    unfold Fs.adjustV
    rw [← hbm]
    by_cases hb : b = fs.descBlock
    · rw [if_pos hb, if_neg (by rw [hb]; exact hne), if_pos hb]
    · rw [if_neg hb, if_neg hb]
  · rcases hb with ⟨⟨hb | hb, h1⟩ | hb, h2⟩
    · exact hb
    · exact absurd hb h1
    · exact absurd hb h2

/-- The block behind a group is in the next one. -/
lemma Fs.groupOf_next (fs : Fs) (hfirst : fs.sb.firstDataBlock ≤ block)
    (hn : fs.bitOf block + n = fs.sb.blocksPerGroup) :
    fs.groupOf (block + n) = fs.groupOf block + 1 := by
  have hblock := fs.blockNo_of hfirst
  have hno : block + n = 0 + fs.sb.groupFirstBlockNo (fs.groupOf block + 1) := by
    unfold Fs.blockNo SuperBlock.groupFirstBlockNo at hblock
    unfold SuperBlock.groupFirstBlockNo
    rw [Nat.succ_mul]
    omega
  rw [hno]
  exact (fs.groupOf_run _ 0 fs.group_pos).1

/-- **`ext2_free_blocks` clears the bits of its run**, with the buffer of the last group's bitmap in
hand. The induction is on the groups that the run meets. -/
theorem doMore_wp (rounds : Nat) (ptr : Option Nat) (hM : Mounted fs S D (d.nsecs fs.sb.minor))
    (h : InHand fs.sb.minor S D ptr m d) (hs : ∀ b, D.unsaved b → S b)
    (hfirst : fs.sb.firstDataBlock ≤ block) (hpos : 0 < n) (hle : block + n ≤ fs.sb.blocksCount)
    (hA : fs.Allocated D.V block n) (hr : fs.sb.groupsCount ≤ fs.groupOf block + rounds)
    (hQ : ∀ V' m' d', Marked fs false D.V V' block n → d'.nsecs = d.nsecs →
      OnDesk fs.sb.minor S { D with V := V' } m' d' → Q () m' d') :
    Wp (doMore fs.sb rounds block n ptr) m d Q (H := H) := by
  induction rounds generalizing D m d block n ptr with
  | zero =>
    have hg : fs.groupOf block < fs.sb.groupsCount := fs.groupOf_lt ⟨hfirst, by omega⟩
    omega
  | succ rounds ih => ?_
  have hg : fs.groupOf block < fs.sb.groupsCount := fs.groupOf_lt ⟨hfirst, by omega⟩
  have hbit := fs.bitOf_lt block
  have hblock := fs.blockNo_of hfirst
  -- the part of the run in this group, and the rest
  obtain ⟨o, ho⟩ : ∃ o, o = fs.bitOf block + n - fs.sb.blocksPerGroup := ⟨_, rfl⟩
  obtain ⟨c, hc⟩ : ∃ c, c = n - o := ⟨_, rfl⟩
  have hA1 : fs.Allocated D.V block c := fun b h1 h2 => hA b h1 (by omega)
  rw [doMore, wp_bind]
  refine brelseIf_ok h fun m1 h₁ => ?_
  refine .bind (readBlockBitmap_ok hM h₁ hg fun bh m2 h₂ => ?_)
  show Wp (freeInGroup fs.sb (fs.groupOf block) (fs.bitOf block) block
    (n - (fs.bitOf block + n - fs.sb.blocksPerGroup)) bh >>= fun _ =>
      if fs.bitOf block + n - fs.sb.blocksPerGroup ≠ 0 then
        doMore fs.sb rounds (block + (n - (fs.bitOf block + n - fs.sb.blocksPerGroup)))
          (fs.bitOf block + n - fs.sb.blocksPerGroup) (some bh)
      else brelse bh) m2 d Q _ _
  rw [← ho, ← hc, wp_bind]
  have hpart := @freeInGroup_wp fs (fs.groupOf block) (fs.bitOf block) c S D m2 d H bh hM hg h₂
    (by omega) (by omega) (by rw [hblock]; omega) (by rwa [hblock])
  rw [hblock] at hpart
  refine hpart fun V1 m3 d3 hmark hd3 h3 => ?_
  have hbm : ¬ S (bgBlockBitmap (D.V fs.descBlock) (fs.groupOf block)) := hM.fresh _ hg
  by_cases hrest : o = 0
  · rw [if_neg (by omega)]
    refine h3.brelse_wp rfl (.inr fun hu => hbm (hs _ hu)) fun m4 h4 => hQ V1 m4 d3 ?_ hd3 h4
    rwa [show n = c by omega]
  rw [if_pos hrest]
  have hM1 : Mounted fs S { D with V := V1 } (d3.nsecs fs.sb.minor) := by
    rw [hd3]
    exact hM.kept hmark.toKept
  have hA2 : fs.Allocated V1 (block + c) o := by
    intro b h1 h2
    obtain ⟨hused, hsys⟩ := hA b (by omega) (by omega)
    refine ⟨?_, fun h => hsys ((hmark.system b).mp h)⟩
    rw [hmark.used ⟨by omega, by omega⟩, if_neg (by omega)]
    exact hused
  have hnext := fs.groupOf_next (n := c) hfirst (by omega)
  refine ih (some bh) hM1 ⟨_, fun hu => hbm (hs _ hu), h3⟩ hs (by omega) (by omega) (by omega) hA2
    (by omega)
    fun V2 m4 d4 hmark' hd4 h4 => hQ V2 m4 d4 ?_ (hd4.trans hd3) h4
  rw [show n = c + o by omega]
  exact hmark.trans hmark'

/-- **`ext2_free_blocks` returns and clears exactly the bits of its run.** -/
theorem freeBlocks_wp (hM : Mounted fs S D (d.nsecs fs.sb.minor)) (h : OnDesk fs.sb.minor S D m d)
    (hs : ∀ b, D.unsaved b → S b) (hfirst : fs.sb.firstDataBlock ≤ block) (hpos : 0 < n)
    (hle : block + n ≤ fs.sb.blocksCount) (hA : fs.Allocated D.V block n)
    (hQ : ∀ V' m' d', Marked fs false D.V V' block n → d'.nsecs = d.nsecs →
      OnDesk fs.sb.minor S { D with V := V' } m' d' → Q () m' d') :
    Wp (freeBlocks fs.sb block n) m d Q (H := H) := by
  unfold freeBlocks
  rw [if_neg (by omega)]
  exact doMore_wp _ none hM h hs hfirst hpos hle hA (by omega) hQ

/-! ## Allocating -/

variable {goal count : Nat}

/-- The effect of an allocation: the bits of the run, and the count of its group. -/
lemma Granted.marked {gr : Grant} (hG : Granted fs D.V gr) (hM : Mounted fs S D n)
    (hlt : gr.bit + fs.sb.groupFirstBlockNo gr.group + gr.num - 1 < fs.sb.blocksCount) :
    Marked fs true D.V (fs.grantV D.V gr) (gr.bit + fs.sb.groupFirstBlockNo gr.group) gr.num := by
  have hpos := hG.pos
  have hslot := hM.slot hG.group
  have hown : fs.bitmapBlock D.V gr.group = bgBlockBitmap (D.V fs.descBlock) gr.group := by
    unfold Fs.bitmapBlock
    rw [hslot]
  have hclear := hG.clear
  have hbits := hG.bits
  rw [hown] at hclear hbits
  have hV : fs.grantV D.V gr = fs.adjustV D.V gr.group gr.bitmap
      ((bgFreeBlocksCount (D.V fs.descBlock) gr.group + -(gr.num : Int)) % 2 ^ 16).toNat := by
    unfold Fs.grantV Fs.adjustV Fs.freeBlocks
    rw [hown, hslot]
  rw [hV]
  refine marked_adjustV (v := true) hG.group hM.laid hG.fits (by unfold Fs.blockNo; omega)
    hclear (fun j => ?_) fun hacc => ?_
  · rw [hbits]
    by_cases hj : gr.bit ≤ j ∧ j < gr.bit + gr.num
    · rw [if_pos hj, decide_eq_true hj, Bool.true_or]
    · rw [if_neg hj, decide_eq_false hj, Bool.false_or]
      rfl
  -- the old bitmap is the new one with the run cleared
  have hadd := clearBits_add (x := gr.bitmap) (y := D.V (bgBlockBitmap (D.V fs.descBlock) gr.group))
    (fun k hk => by rw [hbits, decide_eq_true (by omega), Bool.true_or]) hG.fits fun j => by
      by_cases hj : gr.bit ≤ j ∧ j < gr.bit + gr.num
      · rw [if_pos hj, show j = gr.bit + (j - gr.bit) by omega, hclear _ (by omega)]
      · rw [if_neg hj, hbits, decide_eq_false hj, Bool.false_or]
  have hbooks := hacc gr.group hG.group
  have hmax := clearBits_le (D.V (bgBlockBitmap (D.V fs.descBlock) gr.group)) fs.sb.blocksPerGroup
  have hsmall := hM.group_lt
  have hfits := hG.fits
  omega

/-- **An `ext2_new_blocks` that reports success sets exactly the bits of a run of clear blocks.** -/
theorem newBlocks_marks (h : AtDesk fs.sb.minor D m d) (hM : Mounted fs S D n)
    (hs : ∀ b, ¬ D.unsaved b) {Q : NewBlocks → Mem → Disk → Prop}
    (hfail : ∀ r m', r.err ≠ 0 → Q r m' d)
    (hQ : ∀ r k V' m' d', 0 < k → Marked fs true D.V V' r.block k → d'.nsecs = d.nsecs →
      AtDesk fs.sb.minor { D with V := V' } m' d' → Q r m' d') :
    Wp (newBlocks fs.sb goal count) m d Q := by
  refine newBlocks_wp h hM.desc hs hfail fun gr m' d' hgr hlt _ h' hd' => ?_
  have hG := (Fs.grant_spec hgr).1
  exact hQ _ gr.num _ m' d' hG.pos (hG.marked hM hlt) hd' h'

/-! ## Runs -/

/-- A call of the block allocator. -/
inductive BlockCall where
  | new (goal count : Nat)
  | free (block count : Nat)

/-- The call, with what `ext2_new_blocks` returns. -/
def BlockCall.exec (sb : SuperBlock) : BlockCall → K (Option NewBlocks)
  | .new goal count => do
    let r ← newBlocks sb goal count
    pure (some r)
  | .free block count => do
    freeBlocks sb block count
    pure none

/-- The machine after a call; a call that does not return leaves it. -/
def BlockCall.step (sb : SuperBlock) (s : Mem × Disk) (c : BlockCall) : Mem × Disk :=
  match (c.exec sb s.1 s.2).result with
  | .ok (_, m') => (m', applyAll s.2 (c.exec sb s.1 s.2).writes)
  | .error _ => s

/-- The call returned. -/
def BlockCall.Returns (sb : SuperBlock) (s : Mem × Disk) (c : BlockCall) (r : Option NewBlocks) :
    Prop :=
  ∃ m', (c.exec sb s.1 s.2).result = .ok (r, m')

/-- The blocks of the file system on the card. -/
def Fs.card (fs : Fs) (s : Mem × Disk) : Nat → Block := s.2.block fs.sb.minor

/-- A call that reports success, or frees an allocated run. -/
def Fs.Called (fs : Fs) (s : Mem × Disk) : BlockCall → Prop
  | .new goal count => ∃ r, (BlockCall.new goal count).Returns fs.sb s (some r) ∧ r.err = 0
  | .free block count => 0 < count ∧ fs.sb.firstDataBlock ≤ block ∧
      block + count ≤ fs.sb.blocksCount ∧
      fs.Allocated (fs.card s) block count

/-- What a call does: `ext2_new_blocks` takes a run of clear blocks that starts where it says, and
`ext2_free_blocks` returns and frees its run. -/
def Fs.Exact (fs : Fs) (s : Mem × Disk) : BlockCall → Prop
  | .new goal count => ∃ r k, (BlockCall.new goal count).Returns fs.sb s (some r) ∧ 0 < k ∧
      Marked fs true (fs.card s) (fs.card ((BlockCall.new goal count).step fs.sb s)) r.block k
  | .free block count => (BlockCall.free block count).Returns fs.sb s none ∧
      Marked fs false (fs.card s) (fs.card ((BlockCall.free block count).step fs.sb s)) block count

/-- The file system is mounted, every block is on the card, and the counts are right. -/
def Fs.Booked (fs : Fs) (s : Mem × Disk) : Prop :=
  ∃ D, AtDesk fs.sb.minor D s.1 s.2 ∧ Mounted fs (fun _ => False) D (s.2.nsecs fs.sb.minor) ∧
    (∀ b, ¬ D.unsaved b) ∧ fs.Accounted D.V

variable {s : Mem × Disk}

lemma AtDesk.card (h : AtDesk fs.sb.minor D s.1 s.2) (hs : ∀ b, ¬ D.unsaved b) :
    fs.card s = D.V := by
  funext b
  exact h.saved b (hs b)

lemma BlockCall.step_of_wp {c : BlockCall} {r : Option NewBlocks} {m' : Mem}
    (hres : (c.exec fs.sb s.1 s.2).result = .ok (r, m')) {Q : Option NewBlocks → Mem → Disk → Prop}
    {C : Disk → Prop} (hwp : Wp (c.exec fs.sb) s.1 s.2 Q C H) :
    Q r (c.step fs.sb s).1 (c.step fs.sb s).2 := by
  have := hwp.post hres
  unfold BlockCall.step
  rw [hres]
  exact this

/-- One call keeps the books and has the effect it should. -/
lemma Fs.Booked.step {c : BlockCall} (h : fs.Booked s) (hc : fs.Called s c) :
    fs.Booked (c.step fs.sb s) ∧ fs.Exact s c := by
  obtain ⟨D, hdesk, hM, hs, hacc⟩ := h
  have hcard := AtDesk.card hdesk hs
  -- a marked card is a booked one
  have hbooked : ∀ {v : Bool} {V' : Nat → Block} {block k : Nat} {t : Mem × Disk},
      Marked fs v D.V V' block k → t.2.nsecs = s.2.nsecs →
        AtDesk fs.sb.minor { D with V := V' } t.1 t.2 →
      fs.Booked t ∧ fs.card t = V' := by
    intro v V' block k t hm hn ht
    refine ⟨⟨_, ht, ?_, hs, hm.accounted hacc⟩, AtDesk.card ht hs⟩
    rw [hn]
    exact hM.kept hm.toKept
  cases c with
  | new goal count =>
    obtain ⟨r, ⟨m', hres⟩, herr⟩ := hc
    have hwp : Wp ((BlockCall.new goal count).exec fs.sb) s.1 s.2
      (fun r m' d' => ∀ r', r = some r' →
        r'.err = 0 → ∃ k V', 0 < k ∧ Marked fs true D.V V' r'.block k ∧ d'.nsecs = s.2.nsecs ∧
          AtDesk fs.sb.minor { D with V := V' } m' d') := by
      rw [BlockCall.exec, wp_bind]
      refine newBlocks_marks hdesk hM hs (fun r m' hr => ?_) fun r k V' m' d' hk hm hn h' => ?_
      · refine .ret ?_
        rintro r' ⟨⟩ hr'
        exact absurd hr' hr
      refine .ret ?_
      rintro r' ⟨⟩ -
      exact ⟨k, V', hk, hm, hn, h'⟩
    obtain ⟨k, V', hk, hm, hn, h'⟩ := BlockCall.step_of_wp hres hwp r rfl herr
    obtain ⟨hB, hV⟩ := hbooked hm hn h'
    refine ⟨hB, r, k, ⟨m', hres⟩, hk, ?_⟩
    rw [hcard, hV]
    exact hm
  | free block count =>
    obtain ⟨hpos, hfirst, hle, hA⟩ := hc
    rw [hcard] at hA
    have hwp : Wp ((BlockCall.free block count).exec fs.sb) s.1 s.2 (fun r m' d' => r = none ∧ ∃ V',
        Marked fs false D.V V' block count ∧ d'.nsecs = s.2.nsecs ∧
          AtDesk fs.sb.minor { D with V := V' } m' d') (fun _ => True) (fun _ => False) := by
      rw [BlockCall.exec, wp_bind]
      refine freeBlocks_wp hM hdesk.onDesk (fun b hb => absurd hb (hs b)) hfirst hpos hle hA
        fun V' m' d' hm hn h' => .ret ⟨rfl, V', hm, hn, h'.atDesk⟩
    obtain ⟨r, m', hres, rfl, -⟩ := hwp.returns fun _ h => h
    obtain ⟨-, V', hm, hn, h'⟩ := BlockCall.step_of_wp hres hwp
    obtain ⟨hB, hV⟩ := hbooked hm hn h'
    refine ⟨hB, ⟨m', hres⟩, ?_⟩
    rw [hcard, hV]
    exact hm

/-- **Allocating and freeing keep the books**: in every state of a run of calls that report success
or free allocated runs, the count of every group is the number of clear bits of its bitmap, and
every call changes exactly the bits of its run. -/
theorem counts_kept (h : fs.Booked s) {calls : List BlockCall}
    (hcalls : RunOk (fun s c => BlockCall.step fs.sb s c) fs.Called s calls) :
    RunAll (fun s c => BlockCall.step fs.sb s c) (fun s => fs.Accounted (fs.card s)) s calls ∧
      RunOk (fun s c => BlockCall.step fs.sb s c) fs.Exact s calls := by
  refine ⟨(RunOk.runAll (fun s c hB hc => (hB.step hc).1) h hcalls).mono ?_,
    hcalls.imp (fun s c hB hc => (hB.step hc).1) (fun s c hB hc => (hB.step hc).2) h⟩
  rintro s ⟨D, hdesk, -, hs, hacc⟩
  rw [AtDesk.card hdesk hs]
  exact hacc

/-- The first 16 blocks of a group of 64 are in use, and 48 are counted free. -/
def evenCard : Disk := tinyCard fun i => if i < 2 then 255 else 0

lemma tinyDesk_free {card : Disk} {b : Nat} (hb : b ≠ 1) : (tinyDesk card).Free b := fun p hp => by
  obtain rfl := List.mem_singleton.mp hp
  exact hb.symm

lemma tinyFs_mounted {card : Disk} (h : 1 < card.nsecs 2) (hlaid : Laid tinyFs (card.block 2))
    (hlt : bgBlockBitmap (card.block 2 1) 0 < card.nsecs 2) :
    Mounted tinyFs (fun _ => False) (tinyDesk card) (card.nsecs 2) :=
  ⟨by decide, by decide, by decide, List.mem_cons_self, hlaid, h, tinyFs_all hlt,
    fun _ _ => not_false, fun g hg => tinyDesk_free (hlaid.desc g hg), (by decide : 1 < nbuf)⟩

lemma evenCard_booked : tinyFs.Booked (tinyMem evenCard, evenCard) :=
  ⟨tinyDesk evenCard, tinyMem_atDesk (by decide),
    tinyFs_mounted (by decide) (tinyFs_laid _) (by decide),
    fun _ => not_false, tinyFs_all (by decide +kernel)⟩

/-- Blocks 9 to 11 are freed, and two of them are taken again. -/
theorem counts_kept_evenCard :
    RunAll (fun s c => BlockCall.step tinyFs.sb s c) (fun s => tinyFs.Accounted (tinyFs.card s))
        (tinyMem evenCard, evenCard) [.free 9 3, .new 10 2] ∧
      RunOk (fun s c => BlockCall.step tinyFs.sb s c) tinyFs.Exact (tinyMem evenCard, evenCard)
        [.free 9 3, .new 10 2] := by
  refine counts_kept evenCard_booked ⟨⟨by decide, by decide, by decide, fun b h1 h2 => ?_⟩,
    ?_, trivial⟩
  · have hb : b = 9 ∨ b = 10 ∨ b = 11 := by omega
    refine ⟨by rcases hb with rfl | rfl | rfl <;> decide +kernel, ?_⟩
    rintro ⟨g, hg, hsys⟩
    obtain rfl : g = 0 := Nat.lt_one_iff.mp hg
    revert hsys
    rcases hb with rfl | rfl | rfl <;> decide +kernel
  · let t := BlockCall.step tinyFs.sb (tinyMem evenCard, evenCard) (.free 9 3)
    obtain ⟨_, m, hr, n, rfl, herr⟩ := Prog.exists_of_any
      (r := ((BlockCall.new 10 2).exec tinyFs.sb t.1 t.2).result) (p :=
        fun r _ => ∃ n ∈ r, n.err = 0)
      (by decide +kernel)
    exact ⟨n, ⟨m, hr⟩, herr⟩

end RpiOs.Ext2
