import RpiOs.Bio.Desk
import RpiOs.Ext2.Model

/-!
# What `ext2_new_blocks` takes

`Grant` is a run of blocks that the search takes, and `Fs.grant` is the search on the contents of
the card alone.

* `newBlocks_wp`: when `ext2_new_blocks` succeeds, it has taken the run `Fs.grant` and nothing else.

A run that meets a system zone sends the code back to `retry_alloc` with the bitmap still in hand;
it waits there for its own buffer and does not return.
-/

namespace RpiOs.Ext2

open Lib Kernel Bio

/-! ## Bits -/

/-- What `claim` does: the bits taken, a run from `goal` on, were clear. -/
lemma claim_spec (x : Bytes) (goal n : Nat) :
    (∀ j < (claim x goal n).2, bitAt x (goal + j) = false) ∧ (claim x goal n).2 ≤ n ∧
      ∀ j, bitAt (claim x goal n).1 j =
        (decide (goal ≤ j ∧ j < goal + (claim x goal n).2) || bitAt x j) := by
  induction n generalizing x goal with
  | zero => exact ⟨fun j hj => absurd hj (Nat.not_lt_zero j), Nat.le_refl 0, fun j => by
    rw [decide_eq_false (by rw [claim]; omega), Bool.false_or, claim]⟩
  | succ n ih => ?_
  rw [claim]
  split
  · exact ⟨fun j hj => absurd hj (Nat.not_lt_zero j), Nat.zero_le _, fun j => by
      rw [decide_eq_false (by dsimp only; omega), Bool.false_or]⟩
  · next hclear =>
    rw [Bool.not_eq_true] at hclear
    obtain ⟨h1, h2, h3⟩ := ih (setBit x goal) (goal + 1)
    refine ⟨fun j hj => ?_, Nat.succ_le_succ h2, fun j => ?_⟩
    · rcases Nat.eq_zero_or_pos j with rfl | hpos
      · exact hclear
      have := h1 (j - 1) (by dsimp only at hj; omega)
      rw [bitAt_setBit, show goal + 1 + (j - 1) = goal + j by omega, Bool.or_eq_false_iff] at this
      exact this.2
    dsimp only
    rw [h3 j, bitAt_setBit, ← Bool.or_assoc, ← Bool.decide_or]
    congr 2
    apply propext
    omega

/-- **What `ext2_try_to_allocate` takes** was free, is taken afterwards, and nothing else
changes. -/
theorem tryToAllocate_spec (n : Nat) (x : Block) (goal : Option Nat) (count : Nat) :
    match (tryToAllocate n x goal count).bit with
    | none => tryToAllocate n x goal count = ⟨x, 0, none⟩
    | some s =>
      let c := (tryToAllocate n x goal count).count
      1 ≤ c ∧ c ≤ max 1 count ∧ s + c ≤ n ∧ (∀ k < c, bitAt x (s + k) = false) ∧
        ∀ j, bitAt (tryToAllocate n x goal count).bitmap j =
          (decide (s ≤ j ∧ j < s + c) || bitAt x j) := by
  unfold tryToAllocate
  dsimp only
  split
  next hbit =>
    split at hbit
    · rfl
    · exact absurd hbit (Option.some_ne_none _)
  next s hbit =>
    split at hbit
    · exact absurd hbit.symm (Option.some_ne_none _)
    next g hg =>
    have hgs : g = s := Option.some.inj hbit
    subst hgs
    obtain ⟨g0, -, hfirst⟩ := Option.bind_eq_some_iff.mp hg
    obtain ⟨hle, hlt, hclear, -⟩ := firstClear_eq_some hfirst
    -- the first bit is clear, so it is taken like the others
    have hclaim := claim_spec x g (min (count - 1) (n - (g + 1)) + 1)
    rw [claim, if_neg (by simp [hclear])] at hclaim
    obtain ⟨h1, h2, h3⟩ := hclaim
    dsimp only at h2
    exact ⟨Nat.le_add_left _ _, by dsimp only; omega, by dsimp only; omega, h1, h3⟩

/-! ## The search on the contents of the card -/

/-- A mounted ext2 file system. The descriptors of all groups are in one block: for a second one,
`ext2_readsb` would wait for the buffer of the first. -/
structure Fs where
  sb : SuperBlock
  /-- The buffer of the descriptors. -/
  descBuf : Nat
  /-- The block of the descriptors. -/
  descBlock : Nat
  first_lt : sb.firstDataBlock < sb.blocksCount
  group_pos : 0 < sb.blocksPerGroup
  groups_eq : sb.groupsCount = (sb.blocksCount - sb.firstDataBlock - 1) / sb.blocksPerGroup + 1
  desc_eq : sb.descPerBlock = 2 ^ sb.descPerBlockBits
  desc_lt : 1 < sb.descPerBlock
  groups_le : sb.groupsCount ≤ sb.descPerBlock
  loaded : sb.groupDesc 0 = some descBuf

/-- A run of blocks: its group, its first bit, their number, and the bitmap with their bits set. -/
structure Grant where
  group : Nat
  bit : Nat
  num : Nat
  bitmap : Block

namespace Fs

variable (fs : Fs) (V : Nat → Block)

/-- The number of the descriptor that the code takes for a group's. -/
def slot (group : Nat) : Nat := group % (fs.sb.descPerBlock - 1)

/-- The block that the code takes for a group's bitmap. -/
def bitmapBlock (group : Nat) : Nat := bgBlockBitmap (V fs.descBlock) (fs.slot group)

/-- The free blocks of a group, as the code counts them. -/
def freeBlocks (group : Nat) : Nat := bgFreeBlocksCount (V fs.descBlock) (fs.slot group)

/-- One group. -/
def grantIn (group : Nat) (goal : Option Nat) (num : Nat) : Option Grant :=
  let t := tryToAllocate fs.sb.blocksPerGroup (V (fs.bitmapBlock V group)) goal num
  t.bit.map fun bit => ⟨group, bit, t.count, t.bitmap⟩

/-- The next group. -/
def next (group : Nat) : Nat := if fs.sb.groupsCount ≤ group + 1 then 0 else group + 1

/-- The groups after one. -/
def grantAfter : Nat → Nat → Nat → Option Grant
  | 0, _, _ => none
  | n + 1, group, num =>
    if fs.freeBlocks V (fs.next group) = 0 then grantAfter n (fs.next group) num
    else match fs.grantIn V (fs.next group) none num with
      | some gr => some gr
      | none => grantAfter n (fs.next group) 0

/-- From a group on. -/
def grantFrom (goal group num : Nat) : Option Grant :=
  if 0 < fs.freeBlocks V group then
    match fs.grantIn V group (some ((goal - fs.sb.firstDataBlock) % fs.sb.blocksPerGroup)) num with
    | some gr => some gr
    | none => fs.grantAfter V fs.sb.groupsCount group 0
  else fs.grantAfter V fs.sb.groupsCount group num

/-- The goal that is used. -/
def useGoal (goal : Nat) : Nat :=
  if goal < fs.sb.firstDataBlock ∨ fs.sb.blocksCount ≤ goal then fs.sb.firstDataBlock else goal

/-- The run of blocks that `ext2_new_blocks` takes. -/
def grant (goal num : Nat) : Option Grant :=
  fs.grantFrom V (fs.useGoal goal)
    ((fs.useGoal goal - fs.sb.firstDataBlock) / fs.sb.blocksPerGroup) num

end Fs

/-- What is known of a run that the search takes. -/
structure Granted (fs : Fs) (V : Nat → Block) (gr : Grant) : Prop where
  group : gr.group < fs.sb.groupsCount
  free : 0 < fs.freeBlocks V gr.group
  pos : 1 ≤ gr.num
  fits : gr.bit + gr.num ≤ fs.sb.blocksPerGroup
  clear : ∀ k < gr.num, bitAt (V (fs.bitmapBlock V gr.group)) (gr.bit + k) = false
  bits : ∀ j, bitAt gr.bitmap j = (decide (gr.bit ≤ j ∧ j < gr.bit + gr.num) ||
    bitAt (V (fs.bitmapBlock V gr.group)) j)

variable {fs : Fs} {V : Nat → Block} {group goal num n : Nat} {gr : Grant}

lemma Fs.groups_pos (fs : Fs) : 0 < fs.sb.groupsCount := by
  rw [fs.groups_eq]
  exact Nat.succ_pos _

lemma Fs.next_lt (fs : Fs) (group : Nat) : fs.next group < fs.sb.groupsCount := by
  unfold Fs.next
  split
  · exact fs.groups_pos
  · omega

lemma Fs.group_lt (fs : Fs) {b : Nat} (hb : b < fs.sb.blocksCount) :
    (b - fs.sb.firstDataBlock) / fs.sb.blocksPerGroup < fs.sb.groupsCount := by
  rw [fs.groups_eq]
  have : (b - fs.sb.firstDataBlock) / fs.sb.blocksPerGroup ≤
      (fs.sb.blocksCount - fs.sb.firstDataBlock - 1) / fs.sb.blocksPerGroup :=
    Nat.div_le_div_right (by have := fs.first_lt; omega)
  omega

lemma Fs.grantIn_spec {goal : Option Nat} (h : fs.grantIn V group goal num = some gr) :
    gr.num ≤ max 1 num ∧
      (group < fs.sb.groupsCount → 0 < fs.freeBlocks V group → Granted fs V gr) := by
  have hspec := tryToAllocate_spec fs.sb.blocksPerGroup (V (fs.bitmapBlock V group)) goal num
  obtain ⟨bit, hbit, rfl⟩ := Option.map_eq_some_iff.mp h
  rw [hbit] at hspec
  obtain ⟨h1, h2, h3, h4, h5⟩ := hspec
  exact ⟨h2, fun hg hf => ⟨hg, hf, h1, h3, h4, h5⟩⟩

/-- A run that the search over the groups finds is free. -/
lemma Fs.grantAfter_spec (h : fs.grantAfter V n group num = some gr) :
    Granted fs V gr ∧ gr.num ≤ max 1 num := by
  induction n generalizing group num with
  | zero => exact absurd h.symm (Option.some_ne_none _)
  | succ n ih => ?_
  rw [Fs.grantAfter] at h
  split at h
  · exact ih h
  next hf =>
  split at h
  · next hin =>
    cases h
    obtain ⟨hn, hG⟩ := Fs.grantIn_spec hin
    exact ⟨hG (fs.next_lt group) (Nat.pos_of_ne_zero hf), hn⟩
  · obtain ⟨hG, hn⟩ := ih h
    exact ⟨hG, by omega⟩

/-- **What the search takes**: free blocks of one group, not more than asked for. -/
theorem Fs.grant_spec (h : fs.grant V goal num = some gr) :
    Granted fs V gr ∧ gr.num ≤ max 1 num := by
  have hlt : (fs.useGoal goal - fs.sb.firstDataBlock) / fs.sb.blocksPerGroup <
      fs.sb.groupsCount := by
    refine fs.group_lt ?_
    have := fs.first_lt
    unfold Fs.useGoal
    split
    · exact this
    · omega
  unfold Fs.grant Fs.grantFrom at h
  split at h
  · next hf =>
    split at h
    · next hin =>
      cases h
      obtain ⟨hn, hG⟩ := Fs.grantIn_spec hin
      exact ⟨hG hlt hf, hn⟩
    · obtain ⟨hG, hn⟩ := Fs.grantAfter_spec h
      exact ⟨hG, by omega⟩
  · exact Fs.grantAfter_spec h

/-! ## The code -/

/-- The bitmap buffer that `ptr` points to, if any, is in hand besides those of `D`. -/
def Holding (dev : Nat) (D : Desk) (ptr : Option Nat) (m : Mem) (d : Disk) : Prop :=
  match ptr with
  | none => AtDesk dev D m d
  | some bh => ∃ b, AtDesk dev (D.hold bh b) m d

/-- `f` is the run `gr`, its bits are set in the buffer of the bitmap. -/
structure IsGrant (fs : Fs) (D : Desk) (gr : Grant) (f : Found) (m : Mem) (d : Disk) : Prop where
  group : f.group = gr.group
  desc : f.desc = (fs.descBuf, fs.slot gr.group)
  num : f.num = gr.num
  bit : f.bit = gr.bit
  fresh : D.Free (fs.bitmapBlock D.V gr.group)
  desk : AtDesk fs.sb.minor ((D.hold f.bh (fs.bitmapBlock D.V gr.group)).put
    (fs.bitmapBlock D.V gr.group) gr.bitmap) m d

variable {D : Desk} {m : Mem} {d : Disk}

/-- A descriptor is taken only for a group that there is. -/
lemma getGroupDesc_wp {Q : Nat × Nat → Mem → Disk → Prop}
    (hQ : group < fs.sb.groupsCount → Q (fs.descBuf, fs.slot group) m d) :
    Wp (getGroupDesc fs.sb group) m d Q := by
  unfold getGroupDesc
  split
  · rw [wp_stop]
    exact ⟨trivial, trivial⟩
  · next hlt =>
    have hzero : group / 2 ^ fs.sb.descPerBlockBits = 0 := by
      have := fs.groups_le
      rw [fs.desc_eq] at this
      exact Nat.div_eq_of_lt (by omega)
    rw [hzero, fs.loaded]
    exact .ret (hQ (by omega))

lemma readBlockBitmap_wp (h : AtDesk fs.sb.minor D m d)
    (hdesc : (fs.descBuf, fs.descBlock) ∈ D.held) {Q : Nat → Mem → Disk → Prop}
    (hQ : ∀ bh m', D.Free (fs.bitmapBlock D.V group) →
      AtDesk fs.sb.minor (D.hold bh (fs.bitmapBlock D.V group)) m' d → Q bh m' d) :
    Wp (readBlockBitmap fs.sb group) m d Q := by
  unfold readBlockBitmap
  refine .bind (getGroupDesc_wp fun _ => ?_)
  refine .bind (h.getData_wp hdesc ?_)
  exact h.bread_wp (Or.inr fun _ => trivial) hQ

/-- One group: nothing, or the run that `grantIn` says. -/
lemma tryGroup_wp {bh : Nat} (h : AtDesk fs.sb.minor (D.hold bh (fs.bitmapBlock D.V group)) m d)
    (hfree : D.Free (fs.bitmapBlock D.V group)) (hs : ∀ b, ¬ D.unsaved b) {goal : Option Nat}
    {Q : Nat ⊕ Found → Mem → Disk → Prop}
    (hnone : ∀ m', fs.grantIn D.V group goal num = none →
      AtDesk fs.sb.minor (D.hold bh (fs.bitmapBlock D.V group)) m' d → Q (.inl 0) m' d)
    (hsome : ∀ gr f m', fs.grantIn D.V group goal num = some gr → IsGrant fs D gr f m' d →
      Q (.inr f) m' d) :
    Wp (tryGroup fs.sb group (fs.descBuf, fs.slot group) bh goal num) m d Q := by
  have hspec := tryToAllocate_spec fs.sb.blocksPerGroup (D.V (fs.bitmapBlock D.V group)) goal num
  unfold tryGroup
  refine .bind (h.getData_wp List.mem_cons_self ?_)
  rw [Desk.hold_V, wp_bind]
  refine h.modifyData_wp List.mem_cons_self _ fun m' h' => ?_
  have hin : fs.grantIn D.V group goal num = (tryToAllocate fs.sb.blocksPerGroup
      (D.V (fs.bitmapBlock D.V group)) goal num).bit.map fun bit => ⟨group, bit,
        (tryToAllocate fs.sb.blocksPerGroup (D.V (fs.bitmapBlock D.V group)) goal num).count,
        (tryToAllocate fs.sb.blocksPerGroup (D.V (fs.bitmapBlock D.V group)) goal num).bitmap⟩ :=
          rfl
  cases hbit :
    (tryToAllocate fs.sb.blocksPerGroup (D.V (fs.bitmapBlock D.V group)) goal num).bit with
  | none =>
    rw [hbit] at hspec hin
    -- nothing was taken, so the buffer still agrees with the card
    dsimp only at hspec
    rw [hspec] at h' ⊢
    refine .ret (hnone m' hin ?_)
    refine (h'.settle (b := fs.bitmapBlock D.V group) ?_).congr (fun b => ?_) rfl
      (fun b hb => ?_) rfl
    · rw [Desk.put_self]
      exact h.saved _ (hs _)
    · show _ = if b = _ then D.V (fs.bitmapBlock D.V group) else D.V b
      split
      · next hb =>
        rw [hb]
        rfl
      · rfl
    · obtain ⟨hb | hb, hne⟩ := hb
      · exact absurd hb (hs b)
      · exact absurd hb hne
  | some bit =>
    rw [hbit] at hin
    exact .ret (hsome _ _ m' hin ⟨rfl, rfl, rfl, rfl, hfree, h'⟩)

/-- **The loop over the groups** finds what `grantAfter` says. -/
theorem searchGroups_wp (hdesc : (fs.descBuf, fs.descBlock) ∈ D.held) (hs : ∀ b, ¬ D.unsaved b)
    {Q : Option Nat ⊕ Found → Mem → Disk → Prop} (n : Nat) {ptr : Option Nat}
    (h : Holding fs.sb.minor D ptr m d)
    (hnone : ∀ ptr m', Holding fs.sb.minor D ptr m' d → Q (.inl ptr) m' d)
    (hsome : ∀ gr f m', fs.grantAfter D.V n group num = some gr → IsGrant fs D gr f m' d →
      Q (.inr f) m' d) :
    Wp (searchGroups fs.sb n group ptr num) m d Q := by
  induction n generalizing group ptr num m with
  | zero => exact .ret (hnone ptr m h)
  | succ n ih => ?_
  have hmem : ∀ i b, (fs.descBuf, fs.descBlock) ∈ (D.hold i b).held :=
    fun i b => List.mem_cons_of_mem _ hdesc
  -- looking at the descriptor
  have hget : ∀ {Q : Block → Mem → Disk → Prop}, Q (D.V fs.descBlock) m d →
      Wp (getData fs.descBuf) m d Q := by
    intro Q hQ
    cases ptr with
    | none => exact AtDesk.getData_wp h hdesc hQ
    | some bh =>
      obtain ⟨b, hb⟩ := h
      exact hb.getData_wp (hmem bh b) hQ
  rw [searchGroups, wp_bind]
  refine getGroupDesc_wp fun hlt => ?_
  refine .bind (hget ?_)
  rw [Fs.grantAfter] at hsome
  show Wp (if fs.freeBlocks D.V (fs.next group) = 0 then _ else _) m d Q _ _
  split
  · next hf =>
    rw [if_pos hf] at hsome
    exact ih h hsome
  next hf =>
  rw [if_neg hf] at hsome
  rcases ptr with - | bh
  · rw [wp_bind, brelsePtr, wp_stop]
    exact ⟨trivial, trivial⟩
  obtain ⟨b, hb⟩ := h
  rw [wp_bind, brelsePtr]
  refine hb.brelse_wp rfl (hs b) fun m1 h1 => ?_
  refine .bind (readBlockBitmap_wp (D := D) h1 hdesc fun bh2 m2 hfree h2 => ?_)
  refine .bind (tryGroup_wp h2 hfree hs (fun m3 hno h3 => ?_) fun gr f m3 hgr h3 => ?_)
  · rw [show fs.grantIn D.V (fs.next group) none num = none from hno] at hsome
    exact ih ⟨_, h3⟩ hsome
  · rw [show fs.grantIn D.V (fs.next group) none num = some gr from hgr] at hsome
    exact .ret (hsome gr f m3 rfl h3)

section

variable (h : AtDesk fs.sb.minor D m d) (hdesc : (fs.descBuf, fs.descBlock) ∈ D.held)
  {Q : NewBlocks → Mem → Disk → Prop}
include h hdesc

/-- The search from the goal on is `grantFrom`. -/
lemma search_wp (hs : ∀ b, ¬ D.unsaved b) {Q : Option Nat ⊕ Found → Mem → Disk → Prop}
    (hnone : ∀ ptr m', Holding fs.sb.minor D ptr m' d → Q (.inl ptr) m' d)
    (hsome : ∀ gr f m', fs.grantFrom D.V goal group num = some gr → IsGrant fs D gr f m' d →
      Q (.inr f) m' d) :
    Wp (search fs.sb goal group none num) m d Q := by
  unfold Fs.grantFrom at hsome
  rw [search, wp_bind]
  refine getGroupDesc_wp fun hlt => ?_
  refine .bind (h.getData_wp hdesc ?_)
  show Wp (if 0 < fs.freeBlocks D.V group then _ else _) m d Q _ _
  split
  · next hf =>
    rw [if_pos hf] at hsome
    refine .bind (readBlockBitmap_wp h hdesc fun bh m1 hfree h1 => ?_)
    refine .bind (tryGroup_wp h1 hfree hs (fun m2 hno h2 => ?_) fun gr f m2 hgr h2 => ?_)
    · rw [hno] at hsome
      exact searchGroups_wp hdesc hs _ ⟨_, h2⟩ hnone hsome
    · rw [hgr] at hsome
      exact .ret (hsome gr f m2 rfl h2)
  · next hf =>
    rw [if_neg hf] at hsome
    exact searchGroups_wp hdesc hs _ h hnone hsome

/-- With the group's bitmap in hand already, `retry_alloc` waits for ever. -/
lemma retryAlloc_stuck {i : Nat} (hheld : (i, fs.bitmapBlock D.V group) ∈ D.held)
    (hf : 0 < fs.freeBlocks D.V group) (count tries : Nat) (ptr : Option Nat) :
    Wp (retryAlloc fs.sb goal count tries group ptr num) m d Q := by
  cases tries with
  | zero =>
    rw [retryAlloc, wp_stop]
    exact ⟨trivial, trivial⟩
  | succ tries => ?_
  rw [retryAlloc, wp_bind, search, wp_bind]
  refine getGroupDesc_wp fun _ => ?_
  refine .bind (h.getData_wp hdesc ?_)
  rw [if_pos (show 0 < bgFreeBlocksCount (D.V fs.descBlock) (fs.slot group) from hf), wp_bind]
  refine readBlockBitmap_wp h hdesc fun _ _ hfree _ => ?_
  exact absurd rfl (hfree _ hheld)

/-- The card after a run was taken. -/
def Fs.grantV (fs : Fs) (V : Nat → Block) (gr : Grant) : Nat → Block := fun b =>
  if b = fs.bitmapBlock V gr.group then gr.bitmap
  else if b = fs.descBlock then setHalf (V fs.descBlock) (16 * fs.slot gr.group + 6)
    ((fs.freeBlocks V gr.group + -(gr.num : Int)) % 2 ^ 16).toNat
  else V b

/-- **`ext2_new_blocks` takes the run that the search on the card finds**, whatever number of blocks
it reports. -/
theorem newBlocks_wp (hs : ∀ b, ¬ D.unsaved b) {count : Nat} (hfail : ∀ r m', r.err ≠ 0 → Q r m' d)
    (hQ : ∀ gr m' d', fs.grant D.V goal count = some gr →
      gr.bit + fs.sb.groupFirstBlockNo gr.group + gr.num - 1 < fs.sb.blocksCount →
      D.Free (fs.bitmapBlock D.V gr.group) →
      AtDesk fs.sb.minor { D with V := fs.grantV D.V gr } m' d' → d'.nsecs = d.nsecs →
      Q ⟨gr.bit + fs.sb.groupFirstBlockNo gr.group, 0, count⟩ m' d') :
    Wp (newBlocks fs.sb goal count) m d Q := by
  show Wp (retryAlloc fs.sb (fs.useGoal goal) count 2
    ((fs.useGoal goal - fs.sb.firstDataBlock) / fs.sb.blocksPerGroup) none count) m d Q _ _
  rw [retryAlloc, wp_bind]
  refine search_wp h hdesc hs (fun ptr m1 h₁ => ?_) fun gr f m1 hgr hf => ?_
  · -- no group has a free block
    rcases ptr with - | bh
    · rw [wp_bind, brelsePtr, wp_stop]
      exact ⟨trivial, trivial⟩
    obtain ⟨b, hb⟩ := h₁
    rw [wp_bind, brelsePtr]
    refine hb.brelse_wp rfl (hs b) fun m2 h₂ => ?_
    exact .ret (hfail _ m2 (show (-1 : Int) ≠ 0 by decide))
  -- a run was found
  obtain ⟨hgroup, hfd, hnum, hbit, hfresh, hdesk⟩ := hf
  obtain ⟨hG, -⟩ := Fs.grant_spec hgr
  have hne : fs.descBlock ≠ fs.bitmapBlock D.V gr.group := hfresh _ hdesc
  have hV : ((D.hold f.bh (fs.bitmapBlock D.V gr.group)).put (fs.bitmapBlock D.V gr.group)
      gr.bitmap).V fs.descBlock = D.V fs.descBlock := Desk.put_of_ne _ hne
  have hmem : (fs.descBuf, fs.descBlock) ∈ (f.bh, fs.bitmapBlock D.V gr.group) :: D.held :=
    List.mem_cons_of_mem _ hdesc
  rw [wp_bind, hfd, hgroup, hnum, hbit]
  refine hdesk.getData_wp hmem ?_
  rw [hV]
  dsimp only
  split
  · -- the run meets a system zone
    have hslot : fs.bitmapBlock ((D.hold f.bh (fs.bitmapBlock D.V gr.group)).put
        (fs.bitmapBlock D.V gr.group) gr.bitmap).V gr.group = fs.bitmapBlock D.V gr.group := by
      unfold Fs.bitmapBlock at hV ⊢
      rw [hV]
    refine retryAlloc_stuck hdesk hmem (i := f.bh) ?_ ?_ _ _ _
    · rw [hslot]
      exact List.mem_cons_self
    unfold Fs.freeBlocks
    rw [hV]
    exact hG.free
  split
  · rw [wp_stop]
    exact ⟨trivial, trivial⟩
  next hlt =>
  unfold groupAdjustBlocks
  rw [if_pos (by have := hG.pos; omega), wp_bind, wp_bind]
  refine hdesk.modifyData_wp hmem _ fun m2 h₂ => ?_
  refine h₂.bwrite_wp hmem (Or.inr fun _ => trivial) fun m3 h3 => ?_
  refine .bind (h3.bwrite_wp List.mem_cons_self (Or.inr fun _ => trivial) fun m4 h4 => ?_)
  refine .bind (h4.brelse_wp rfl (fun hu => hu.2 rfl) fun m5 h5 => ?_)
  refine .ret (hQ gr m5 _ hgr (by omega) hfresh (h5.congr (fun b => ?_) rfl ?_ rfl) rfl)
  · show fs.grantV D.V gr b = if b = fs.descBlock then _ else if b = _ then gr.bitmap else D.V b
    unfold Fs.grantV
    by_cases hb : b = fs.descBlock
    · rw [if_pos hb, if_neg (by rw [hb]; exact hne), if_pos hb, hV]
      rfl
    · rw [if_neg hb, if_neg hb]
  · rintro b ⟨⟨(hu | hu) | hu, h1⟩, h2⟩
    · exact hu
    · exact absurd hu h2
    · exact absurd hu h1

end

end RpiOs.Ext2
