import RpiOs.V6.Blocks

/-!
# The block trees of files

A file reaches its blocks through 13 addresses in its inode: 11 of data blocks, one of an indirect
block and one of a doubly-indirect block. A `Slot` is a place of this tree that holds a block
number, and `Slot.val V a` the number it holds, when the blocks are `V` and the inode's addresses
`a`. `mapped` is the data block of a block index and `byte` the byte at a position; both see a
missing block as zeros.

`Forest` says that the trees of the live files share nothing: no block is in two slots, and every
block in a slot is marked in the bitmap. It is kept by the two ways in which code changes trees:

* `Forest.grow_top`, `Forest.grow_entry`: a free block is allocated and put into an empty slot. No
  byte of any file changes (`Grows`).
* `Forest.write_data`: a data block is overwritten. Only the bytes of that block change.
-/

namespace RpiOs.V6

open Lib Kernel Bio RedoLog

/-! ## Slots -/

/-- A place that holds a block number. -/
inductive Slot where
  /-- `addrs[i]`. -/
  | top (i : Nat)
  /-- Entry `j` of the indirect block. -/
  | ind (j : Nat)
  /-- Entry `i` of the doubly-indirect block. -/
  | mid (i : Nat)
  /-- Entry `j` of the block in `mid i`. -/
  | leaf (i j : Nat)
  deriving DecidableEq, Repr

/-- The indices are in range. -/
def Slot.Ok : Slot → Prop
  | top i => i < ndirect + 2
  | ind j => j < nindirect
  | mid i => i < nindirect
  | leaf i j => i < nindirect ∧ j < nindirect

/-- Entry `k` of the pointer block `p`; a missing block has no entries. -/
def entry (V : Nat → Block) (p k : Nat) : Nat := if p = 0 then 0 else word (V p) k

/-- The number a slot holds. -/
def Slot.val (V : Nat → Block) (a : Nat → Nat) : Slot → Nat
  | top i => a i
  | ind j => entry V (a ndirect) j
  | mid i => entry V (a (ndirect + 1)) i
  | leaf i j => entry V (entry V (a (ndirect + 1)) i) j

/-- The slots whose blocks hold block numbers. -/
inductive Ptr where
  | ind
  | dbl
  | mid (i : Nat)
  deriving DecidableEq

/-- The slot itself. -/
def Ptr.slot : Ptr → Slot
  | ind => .top ndirect
  | dbl => .top (ndirect + 1)
  | mid i => .mid i

/-- Entry `k` of its block. -/
def Ptr.at (k : Nat) : Ptr → Slot
  | ind => .ind k
  | dbl => .mid k
  | mid i => .leaf i k

variable (V : Nat → Block)

lemma Ptr.val_at (a : Nat → Nat) (q : Ptr) (k : Nat) :
    (q.at k).val V a = entry V (q.slot.val V a) k := by
  cases q <;> rfl

lemma Ptr.slot_inj {q q' : Ptr} (h : q.slot = q'.slot) : q = q' := by
  cases q <;> cases q' <;> simp_all [Ptr.slot]

lemma Ptr.at_inj {q q' : Ptr} {k k' : Nat} (h : q.at k = q'.at k') : q = q' ∧ k = k' := by
  cases q <;> cases q' <;> simp_all [Ptr.at]

/-- A pointer slot is in range. -/
def Ptr.Ok (q : Ptr) : Prop := q.slot.Ok

lemma Ptr.ind_ok : Ptr.ind.Ok := Nat.lt_add_of_pos_right (by decide)

lemma Ptr.dbl_ok : Ptr.dbl.Ok := Nat.lt_succ_self _

lemma Ptr.at_ok {q : Ptr} {k : Nat} : (q.at k).Ok ↔ q.Ok ∧ k < nindirect := by
  cases q <;> simp [Ptr.at, Ptr.Ok, Ptr.slot, Slot.Ok]

@[simp] lemma entry_zero (k : Nat) : entry V 0 k = 0 := if_pos rfl

lemma entry_of_ne {V : Nat → Block} {p k : Nat} (h : p ≠ 0) : entry V p k = word (V p) k := if_neg h

variable {V V' : Nat → Block}

lemma entry_congr {p : Nat} (k : Nat) (h : p ≠ 0 → V' p = V p) : entry V' p k = entry V p k := by
  unfold entry
  split
  · rfl
  · next hp => rw [h hp]

/-- The tree of a file depends on its pointer blocks. -/
lemma Slot.val_congr {a : Nat → Nat}
    (h : ∀ q : Ptr, q.Ok → q.slot.val V a ≠ 0 → V' (q.slot.val V a) = V (q.slot.val V a))
    {s : Slot} (hs : s.Ok) : s.val V' a = s.val V a := by
  have hind : ∀ k, entry V' (a ndirect) k = entry V (a ndirect) k :=
    fun k => entry_congr k (h .ind Ptr.ind_ok)
  have hdbl : ∀ k, entry V' (a (ndirect + 1)) k = entry V (a (ndirect + 1)) k :=
    fun k => entry_congr k (h .dbl Ptr.dbl_ok)
  cases s with
  | top i => rfl
  | ind j => exact hind j
  | mid i => exact hdbl i
  | leaf i j =>
    show entry V' (entry V' (a (ndirect + 1)) i) j = entry V (entry V (a (ndirect + 1)) i) j
    rw [hdbl i]
    exact entry_congr j (h (.mid i) hs.1)

/-! ## Files -/

/-- The slot of block `bn` of a file. -/
def dataSlot (bn : Nat) : Slot :=
  if bn < ndirect then .top bn
  else if bn - ndirect < nindirect then .ind (bn - ndirect)
  else .leaf ((bn - ndirect - nindirect) / nindirect) ((bn - ndirect - nindirect) % nindirect)

/-- The block that holds block `bn` of the file, or 0. -/
def mapped (V : Nat → Block) (a : Nat → Nat) (bn : Nat) : Nat := (dataSlot bn).val V a

/-- The byte at position `p`. -/
def byte (V : Nat → Block) (a : Nat → Nat) (p : Nat) : BitVec 8 :=
  if mapped V a (p / bsize) = 0 then 0 else V (mapped V a (p / bsize)) (p % bsize)

lemma dataSlot_ok {bn : Nat} (h : bn < maxfile) : (dataSlot bn).Ok := by
  unfold dataSlot
  split
  · next h1 => exact Nat.lt_add_right 2 h1
  split
  · next h2 => exact h2
  · next h1 h2 =>
    have hm : maxfile = ndirect + nindirect + nindirect * nindirect := rfl
    refine ⟨(Nat.div_lt_iff_lt_mul (by decide)).mpr (by omega), Nat.mod_lt _ (by decide)⟩

/-- Different blocks of a file have different slots. -/
lemma dataSlot_inj {bn bn' : Nat} (h : dataSlot bn = dataSlot bn') : bn = bn' := by
  have h0 := Nat.div_add_mod (bn - ndirect - nindirect) nindirect
  have h1 := Nat.div_add_mod (bn' - ndirect - nindirect) nindirect
  unfold dataSlot at h
  split_ifs at h
  · exact Slot.top.inj h
  · have := Slot.ind.inj h
    omega
  obtain ⟨hi, hj⟩ := Slot.leaf.inj h
  rw [hi, hj] at h0
  omega

lemma dataSlot_ne_slot (bn : Nat) (q : Ptr) : dataSlot bn ≠ q.slot := by
  unfold dataSlot
  split
  · next h =>
    cases q with
    | ind => exact fun he => absurd (Slot.top.inj he) (Nat.ne_of_lt h)
    | dbl => exact fun he => absurd (Slot.top.inj he) (Nat.ne_of_lt (Nat.lt_succ_of_lt h))
    | mid i => simp [Ptr.slot]
  · split <;> cases q <;> simp [Ptr.slot]

/-! ## Trees that share nothing -/

/-- The trees of the files `live`, whose inodes' addresses are `roots`. -/
structure Forest (fs : Fs) (live : Nat → Prop) (V : Nat → Block) (roots : Nat → Nat → Nat) :
    Prop where
  metadata : ∀ x < fs.dataStart, fs.bit V x = true
  data : ∀ f, live f → ∀ s : Slot, s.Ok → s.val V (roots f) ≠ 0 → fs.Data (s.val V (roots f))
  alloc : ∀ f, live f → ∀ s : Slot, s.Ok → s.val V (roots f) ≠ 0 →
    fs.bit V (s.val V (roots f)) = true
  inj : ∀ f, live f → ∀ f', live f' → ∀ s s' : Slot, s.Ok → s'.Ok → s.val V (roots f) ≠ 0 →
    s.val V (roots f) = s'.val V (roots f') → f = f' ∧ s = s'

/-- What may happen to the trees while file `f` gets new blocks. -/
structure Grows (fs : Fs) (live : Nat → Prop) (f : Nat) (V : Nat → Block) (roots : Nat → Nat → Nat)
    (V' : Nat → Block) (roots' : Nat → Nat → Nat) : Prop where
  forest : Forest fs live V' roots'
  mapped : ∀ f', live f' → ∀ bn < maxfile, mapped V (roots f') bn ≠ 0 →
    mapped V' (roots' f') bn = mapped V (roots f') bn
  byte : ∀ f', live f' → ∀ p, p / bsize < maxfile →
    byte V' (roots' f') p = byte V (roots f') p
  inodes : ∀ x < fs.sb.bmapstart, V' x = V x
  others : ∀ f', f' ≠ f → roots' f' = roots f'

section forest

variable {fs : Fs} {live : Nat → Prop} {f : Nat} {V V' V'' : Nat → Block}
  {roots roots' roots'' : Nat → Nat → Nat} {b x : Nat}

lemma Grows.refl (h : Forest fs live V roots) (f : Nat) : Grows fs live f V roots V roots :=
  ⟨h, fun _ _ _ _ _ => rfl, fun _ _ _ _ => rfl, fun _ _ => rfl, fun _ _ => rfl⟩

/-- Two steps in which one file grows. -/
lemma Grows.trans (h : Grows fs live f V roots V' roots')
    (h' : Grows fs live f V' roots' V'' roots'') :
    Grows fs live f V roots V'' roots'' where
  forest := h'.forest
  mapped := fun f' hf bn hbn hne => by
    have h1 := h.mapped f' hf bn hbn hne
    rw [h'.mapped f' hf bn hbn (h1 ▸ hne), h1]
  byte := fun f' hf p hp => (h'.byte f' hf p hp).trans (h.byte f' hf p hp)
  inodes := fun x hx => (h'.inodes x hx).trans (h.inodes x hx)
  others := fun f' hf => (h'.others f' hf).trans (h.others f' hf)

/-- The blocks after `b` was allocated. -/
def Fs.allocV (fs : Fs) (V : Nat → Block) (b : Nat) : Nat → Block := fun x =>
  if x = b then zeroBytes
  else if x = fs.sb.bblock b then setBit (V (fs.sb.bblock b)) (b % bpb)
  else V x

lemma Forest.used (hF : Forest fs live V roots) (hf : live f) {s : Slot} (hs : s.Ok)
    (hne : s.val V (roots f) ≠ 0) :
    fs.Data (s.val V (roots f)) ∧ fs.bit V (s.val V (roots f)) = true :=
  ⟨hF.data f hf s hs hne, hF.alloc f hf s hs hne⟩

lemma Forest.ne_free (hF : Forest fs live V roots) (hfree : fs.bit V b = false) (hf : live f)
    {s : Slot} (hs : s.Ok) (hne : s.val V (roots f) ≠ 0) : s.val V (roots f) ≠ b :=
  ne_of_apply_ne (fs.bit V) (by simp [hF.used hf hs hne, hfree])

/-- A free block at an empty slot keeps the trees apart. -/
lemma Forest.grow (hF : Forest fs live V roots) (hf : live f) {s : Slot} (hs : s.Ok)
    (hfree : fs.bit V b = false) (hb : fs.Data b) (hempty : s.val V (roots f) = 0)
    (hval : ∀ f', live f' → ∀ s' : Slot, s'.Ok →
      s'.val V' (roots' f') = if f' = f ∧ s' = s then b else s'.val V (roots f'))
    (hV : ∀ f', live f' → ∀ bn < maxfile, mapped V (roots f') bn ≠ 0 →
      V' (mapped V (roots f') bn) = V (mapped V (roots f') bn))
    (hVb : V' b = zeroBytes) (hbit : ∀ x < fs.sb.size, fs.bit V' x = (decide (x = b) || fs.bit V x))
    (hino : ∀ x < fs.sb.bmapstart, V' x = V x) (hoth : ∀ f', f' ≠ f → roots' f' = roots f') :
    Grows fs live f V roots V' roots' := by
  have hslot : ∀ f', live f' → ∀ s' : Slot, s'.Ok → s'.val V' (roots' f') ≠ 0 →
      (f' = f ∧ s' = s ∧ s'.val V' (roots' f') = b) ∨
        (s'.val V (roots f') ≠ 0 ∧ s'.val V' (roots' f') = s'.val V (roots f')) := by
    intro f' hf' s' hs' hne
    rw [hval f' hf' s' hs'] at hne ⊢
    split at hne
    · next h => exact Or.inl ⟨h.1, h.2, if_pos h⟩
    · next h => exact Or.inr ⟨hne, if_neg h⟩
  have hkeep : ∀ f', live f' → ∀ s' : Slot, s'.Ok → s'.val V (roots f') ≠ 0 →
      s'.val V' (roots' f') = s'.val V (roots f') := by
    intro f' hf' s' hs' hne
    rw [hval f' hf' s' hs']
    refine if_neg ?_
    rintro ⟨rfl, rfl⟩
    exact hne hempty
  refine ⟨⟨fun x hx => ?_, ?_, ?_, ?_⟩, ?_, ?_, hino, hoth⟩
  · rw [hbit x (Nat.lt_of_lt_of_le hx fs.dataStart_le), hF.metadata x hx, Bool.or_true]
  · intro f' hf' s' hs' hne
    rcases hslot f' hf' s' hs' hne with ⟨-, -, he⟩ | ⟨h0, he⟩ <;> rw [he]
    · exact hb
    · exact hF.data f' hf' s' hs' h0
  · intro f' hf' s' hs' hne
    rcases hslot f' hf' s' hs' hne with ⟨-, -, he⟩ | ⟨h0, he⟩
    · rw [he, hbit b hb.2]
      simp
    · rw [he, hbit _ (hF.data f' hf' s' hs' h0).2, hF.alloc f' hf' s' hs' h0, Bool.or_true]
  · intro f1 hf1 f2 hf2 s1 s2 hs1 hs2 hne heq
    rcases hslot f1 hf1 s1 hs1 hne with ⟨h1, h2, he⟩ | ⟨h0, he⟩ <;>
      rcases hslot f2 hf2 s2 hs2 (heq ▸ hne) with ⟨h1', h2', he'⟩ | ⟨h0', he'⟩
    · exact ⟨h1.trans h1'.symm, h2.trans h2'.symm⟩
    · rw [he, he'] at heq
      exact absurd heq.symm (hF.ne_free hfree hf2 hs2 h0')
    · rw [he, he'] at heq
      exact absurd heq (hF.ne_free hfree hf1 hs1 h0)
    · rw [he, he'] at heq
      exact hF.inj f1 hf1 f2 hf2 s1 s2 hs1 hs2 h0 heq
  · intro f' hf' bn hbn hne
    exact hkeep f' hf' _ (dataSlot_ok hbn) hne
  · intro f' hf' p hp
    unfold byte
    by_cases h0 : mapped V (roots f') (p / bsize) = 0
    · rw [if_pos h0]
      split
      · rfl
      · next h =>
        -- the block that was missing is the new one, and zero
        rcases hslot f' hf' _ (dataSlot_ok hp) h with ⟨-, -, he⟩ | ⟨hne, -⟩
        · unfold mapped
          rw [he, hVb]
          rfl
        · exact absurd h0 hne
    · have he : mapped V' (roots' f') (p / bsize) = mapped V (roots f') (p / bsize) :=
        hkeep f' hf' _ (dataSlot_ok hp) h0
      rw [he, if_neg h0, if_neg h0, hV f' hf' _ hp h0]

lemma Fs.Data.ne_zero (hb : fs.Data b) : b ≠ 0 := fun h0 => by
  have := hb.1
  have := fs.bmapstart_lt
  omega

/-! ### Allocation leaves every tree as it is -/

lemma Fs.allocV_self (V : Nat → Block) (b : Nat) : fs.allocV V b b = zeroBytes := if_pos rfl

lemma Fs.allocV_of_lt (hb : fs.Data b) (hx : x < fs.sb.bmapstart) : fs.allocV V b x = V x := by
  have hB := fs.bblock_ge b
  have hlt := fs.bmapstart_lt
  have hd := hb.1
  unfold Fs.allocV
  rw [if_neg (by omega), if_neg (by omega)]

lemma Fs.allocV_of_used (hfree : fs.bit V b = false) (hb : fs.Data b) (hx : fs.Data x)
    (hbit : fs.bit V x = true) : fs.allocV V b x = V x := by
  have hB := Fs.bblock_lt hb.2
  have hd := hx.1
  unfold Fs.allocV
  rw [if_neg (ne_of_apply_ne (fs.bit V) (by simp [hfree, hbit])), if_neg (by omega)]

/-- The bits after an allocation. -/
lemma Fs.bit_allocV (hb : fs.Data b) (hx : x < fs.sb.size) :
    fs.bit (fs.allocV V b) x = (decide (x = b) || fs.bit V x) := by
  have hlt := Fs.bblock_lt hx
  have hd := hb.1
  have hmark := fs.bit_mark (G := ⟨V, [], []⟩) (b := b) (c := x)
  rw [← hmark]
  refine Fs.bit_congr ?_
  show (if _ then _ else _) = _
  rw [if_neg (by omega)]
  rfl

lemma Forest.val_allocV (hF : Forest fs live V roots) {f' : Nat} (hfree : fs.bit V b = false)
    (hb : fs.Data b) (hf : live f') {s : Slot} (hs : s.Ok) :
    s.val (fs.allocV V b) (roots f') = s.val V (roots f') := by
  refine Slot.val_congr (fun q hq hne => ?_) hs
  exact (hF.used hf hq hne).elim (Fs.allocV_of_used hfree hb)

/-- The addresses of file `f` become `a`. -/
def setRoot (roots : Nat → Nat → Nat) (f : Nat) (a : Nat → Nat) : Nat → Nat → Nat := fun f' =>
  if f' = f then a else roots f'

lemma setRoot_of_ne {f' : Nat} {a : Nat → Nat} (h : f' ≠ f) :
    setRoot roots f a f' = roots f' := if_neg h

section

variable (roots)

@[simp] lemma setRoot_self (f : Nat) (a : Nat → Nat) : setRoot roots f a f = a := if_pos rfl

lemma setRoot_setRoot (f : Nat) (a b : Nat → Nat) :
    setRoot (setRoot roots f a) f b = setRoot roots f b := by
  funext f'
  unfold setRoot
  split <;> rfl

lemma setRoot_same (f : Nat) : setRoot roots f (roots f) = roots := by
  funext f'
  unfold setRoot
  split
  · next h => rw [h]
  · rfl

end

/-- The slots of an inode one of whose addresses is set to an empty block. -/
lemma Slot.val_setTop {a : Nat → Nat} {i : Nat} (hi : a i = 0) (hb : b ≠ 0)
    (hzero : V b = zeroBytes) (s : Slot) :
    s.val V (fun j => if j = i then b else a j) = if s = .top i then b else s.val V a := by
  have hent : ∀ j k, entry V (if j = i then b else a j) k = entry V (a j) k := by
    intro j k
    split
    · next h => rw [h, hi, entry_zero, entry_of_ne hb, hzero, word_zeroBytes]
    · rfl
  cases s with
  | top j =>
    show (if j = i then b else a j) = _
    by_cases h : j = i
    · rw [if_pos h, if_pos (by rw [h])]
    · rw [if_neg h, if_neg fun he => h (Slot.top.inj he)]
      rfl
  | ind j | mid j =>
    rw [if_neg (by simp)]
    exact hent _ j
  | leaf j k =>
    rw [if_neg (by simp)]
    show entry V (entry V _ j) k = _
    rw [hent]
    rfl

/-- **A free block becomes an address of the inode.** -/
theorem Forest.grow_top (hF : Forest fs live V roots) (hf : live f) {i : Nat}
    (hi : i < ndirect + 2) (hempty : roots f i = 0) (hfree : fs.bit V b = false) (hb : fs.Data b) :
    Grows fs live f V roots (fs.allocV V b)
      (setRoot roots f fun j => if j = i then b else roots f j) := by
  refine hF.grow hf (s := .top i) hi hfree hb hempty ?_ ?_ (Fs.allocV_self V b)
    (fun x hx => Fs.bit_allocV hb hx) (fun x hx => Fs.allocV_of_lt hb hx)
    fun f' hne => setRoot_of_ne hne
  · intro f' hf' s' hs'
    by_cases hff : f' = f
    · subst hff
      rw [setRoot_self, Slot.val_setTop hempty hb.ne_zero (Fs.allocV_self V b),
        hF.val_allocV hfree hb hf' hs']
      simp
    · rw [setRoot_of_ne hff, hF.val_allocV hfree hb hf' hs', if_neg fun h => hff h.1]
  · intro f' hf' bn hbn hne
    exact (hF.used hf' (dataSlot_ok hbn) hne).elim (Fs.allocV_of_used hfree hb)

/-- The blocks after `b` was allocated and stored as entry `k` of block `p`. -/
def Fs.linkV (fs : Fs) (V : Nat → Block) (b p k : Nat) : Nat → Block := fun x =>
  if x = p then setWord (fs.allocV V b p) k b else fs.allocV V b x

section

variable (hF : Forest fs live V roots)
include hF

section

variable {q : Ptr} {b k : Nat} (hf : live f) (hq : q.Ok) (hp : q.slot.val V (roots f) ≠ 0)
  (hempty : (q.at k).val V (roots f) = 0) (hfree : fs.bit V b = false) (hb : fs.Data b)
  (hb32 : b < 2 ^ 32)
include hf hq hp hempty hfree hb hb32

/-- The entries of pointer block `P` of file `f'` after entry `k` of the block of `q` was set. -/
lemma Forest.entry_linkV {f' : Nat} (hf' : live f') {q' : Ptr} (hq' : q'.Ok) {j : Nat} :
    entry (fs.linkV V b (q.slot.val V (roots f)) k) (q'.slot.val V (roots f')) j =
      if f' = f ∧ q'.at j = q.at k then b else entry V (q'.slot.val V (roots f')) j := by
  obtain ⟨hpd, hpb⟩ := hF.used hf hq hp
  by_cases h0 : q'.slot.val V (roots f') = 0
  · rw [h0, entry_zero, entry_zero, if_neg]
    rintro ⟨rfl, he⟩
    rw [(Ptr.at_inj he).1] at h0
    exact hp h0
  rw [entry_of_ne h0, entry_of_ne h0]
  unfold Fs.linkV
  by_cases hP : q'.slot.val V (roots f') = q.slot.val V (roots f)
  · obtain ⟨rfl, hs⟩ := hF.inj f' hf' f hf _ _ hq' hq h0 hP
    have hqq := Ptr.slot_inj hs
    subst hqq
    rw [if_pos rfl, Fs.allocV_of_used hfree hb hpd hpb, word_setWord]
    by_cases hjk : j = k
    · rw [if_pos hjk, if_pos ⟨rfl, by rw [hjk]⟩, Nat.mod_eq_of_lt hb32]
    · rw [if_neg hjk, if_neg fun h => hjk (Ptr.at_inj h.2).2]
  · obtain ⟨hd, hbit⟩ := hF.used hf' hq' h0
    rw [if_neg hP, Fs.allocV_of_used hfree hb hd hbit, if_neg]
    rintro ⟨rfl, he⟩
    rw [(Ptr.at_inj he).1] at hP
    exact hP rfl

/-- The slots after a block was entered into a pointer block. -/
lemma Forest.val_linkV {f' : Nat} (hf' : live f') {s : Slot} (hs : s.Ok) :
    s.val (fs.linkV V b (q.slot.val V (roots f)) k) (roots f') =
      if f' = f ∧ s = q.at k then b else s.val V (roots f') := by
  have hent := fun {r} (hr : Ptr.Ok r) {j} =>
    hF.entry_linkV hf hq hp hempty hfree hb hb32 hf' hr (j := j)
  cases s with
  | top i =>
    rw [if_neg (by cases q <;> simp [Ptr.at])]
    rfl
  | ind j => exact hent (r := .ind) Ptr.ind_ok
  | mid i => exact hent (r := .dbl) Ptr.dbl_ok
  | leaf i j => ?_
  show entry _ (entry _ (roots f' (ndirect + 1)) i) j = _
  have hmid : entry (fs.linkV V b (q.slot.val V (roots f)) k) (roots f' (ndirect + 1)) i = _ :=
    hent (r := .dbl) Ptr.dbl_ok
  rw [hmid]
  by_cases hself : f' = f ∧ Ptr.dbl.at i = q.at k
  · -- the middle block is the new one: it is empty, as the missing one was
    obtain ⟨rfl, he⟩ := hself
    have hzero : (Slot.mid i).val V (roots f') = 0 := by
      rw [← hempty, ← he]
      rfl
    rw [if_pos ⟨rfl, he⟩, entry_of_ne hb.ne_zero, if_neg]
    · show word (fs.linkV V b _ k b) j = entry V ((Slot.mid i).val V (roots f')) j
      unfold Fs.linkV
      rw [hzero, entry_zero, if_neg (hF.ne_free hfree hf hq hp).symm, Fs.allocV_self,
        word_zeroBytes]
    rintro ⟨-, he'⟩
    rw [← he] at he'
    simp [Ptr.at] at he'
  · rw [if_neg hself]
    exact hent (r := .mid i) hs.1

/-- **A free block becomes an entry of a pointer block.** -/
theorem Forest.grow_entry (hk : k < nindirect) :
    Grows fs live f V roots (fs.linkV V b (q.slot.val V (roots f)) k) roots ∧
      (q.at k).val (fs.linkV V b (q.slot.val V (roots f)) k) (roots f) = b := by
  have hpd := hF.data f hf _ hq hp
  have hok := Ptr.at_ok.mpr ⟨hq, hk⟩
  have hval := fun {f'} (hf' : live f') {s} =>
    hF.val_linkV hf hq hp hempty hfree hb hb32 hf' (s := s)
  refine ⟨hF.grow hf hok hfree hb hempty (fun f' hf' s hs => hval hf' hs) ?_ ?_ ?_ ?_
    fun _ _ => rfl, by rw [hval hf hok, if_pos ⟨rfl, rfl⟩]⟩
  · intro f' hf' bn hbn hne
    unfold Fs.linkV
    rw [if_neg fun he => ?_]
    · exact (hF.used hf' (dataSlot_ok hbn) hne).elim (Fs.allocV_of_used hfree hb)
    exact dataSlot_ne_slot bn q (hF.inj f' hf' f hf _ _ (dataSlot_ok hbn) hq hne he).2
  · unfold Fs.linkV
    rw [if_neg (hF.ne_free hfree hf hq hp).symm, Fs.allocV_self]
  · intro x hx
    rw [← Fs.bit_allocV hb hx]
    refine Fs.bit_congr ?_
    unfold Fs.linkV
    have := Fs.bblock_lt hx
    have := hpd.1
    rw [if_neg (by omega)]
  · intro x hx
    unfold Fs.linkV
    have := hpd.1
    have := fs.bmapstart_lt
    rw [if_neg (by omega), Fs.allocV_of_lt hb hx]

end

/-- Trees whose slots hold what they held, and the bitmap as it was. -/
lemma Forest.of_kept {live' : Nat → Prop} (hbit : ∀ x < fs.sb.size, fs.bit V' x = fs.bit V x)
    (hval : ∀ f, live' f → ∀ s : Slot, s.Ok → s.val V' (roots' f) ≠ 0 →
      live f ∧ s.val V' (roots' f) = s.val V (roots f)) : Forest fs live' V' roots' := by
  refine ⟨fun x hx => ?_, fun f hf s hs hne => ?_, fun f hf s hs hne => ?_,
    fun f hf f' hf' s s' hs hs' hne heq => ?_⟩
  · rw [hbit x (Nat.lt_of_lt_of_le hx fs.dataStart_le)]
    exact hF.metadata x hx
  all_goals obtain ⟨hl, he⟩ := hval f hf s hs hne; rw [he] at hne
  · rw [he]
    exact hF.data f hl s hs hne
  · rw [he, hbit _ (hF.data f hl s hs hne).2]
    exact hF.alloc f hl s hs hne
  · obtain ⟨hl', he'⟩ := hval f' hf' s' hs' (heq ▸ he ▸ hne)
    exact hF.inj f hl f' hl' s s' hs hs' hne (he.symm.trans (heq.trans he'))

/-- Changing blocks that are neither pointer blocks nor part of the bitmap keeps every slot. -/
lemma Forest.congr (hptr : ∀ f', live f' → ∀ q : Ptr, q.Ok → q.slot.val V (roots f') ≠ 0 →
      V' (q.slot.val V (roots f')) = V (q.slot.val V (roots f')))
    (hbit : ∀ x < fs.sb.size, fs.bit V' x = fs.bit V x) :
    Forest fs live V' roots ∧
      ∀ f', live f' → ∀ s : Slot, s.Ok → s.val V' (roots f') = s.val V (roots f') := by
  have hval : ∀ f', live f' → ∀ s : Slot, s.Ok → s.val V' (roots f') = s.val V (roots f') :=
    fun f' hf' s hs => Slot.val_congr (hptr f' hf') hs
  exact ⟨hF.of_kept hbit fun f' hf' s hs _ => ⟨hf', hval f' hf' s hs⟩, hval⟩

/-- **A data block is overwritten**: only the bytes in it change. -/
theorem Forest.write_data (hf : live f) {bn : Nat} (hbn : bn < maxfile)
    (hne : mapped V (roots f) bn ≠ 0) (y : Block)
    (hV' : V' = fun x => if x = mapped V (roots f) bn then y else V x) :
    Forest fs live V' roots ∧
      (∀ f', live f' → ∀ bn' < maxfile, mapped V' (roots f') bn' = mapped V (roots f') bn') ∧
      (∀ f', live f' → ∀ p, p / bsize < maxfile → byte V' (roots f') p =
        if f' = f ∧ p / bsize = bn then y (p % bsize) else byte V (roots f') p) ∧
      ∀ x < fs.dataStart, V' x = V x := by
  subst hV'
  have hd := hF.data f hf _ (dataSlot_ok hbn) hne
  have hlow : ∀ x < fs.dataStart, (if x = mapped V (roots f) bn then y else V x) = V x := by
    intro x hx
    have : fs.dataStart ≤ mapped V (roots f) bn := hd.1
    rw [if_neg (by omega)]
  have hptr : ∀ f', live f' → ∀ q : Ptr, q.Ok → q.slot.val V (roots f') ≠ 0 →
      (if q.slot.val V (roots f') = mapped V (roots f) bn then y else V (q.slot.val V (roots f'))) =
        V (q.slot.val V (roots f')) := by
    intro f' hf' q hq hne'
    refine if_neg fun he => ?_
    exact dataSlot_ne_slot bn q (hF.inj f' hf' f hf _ _ hq (dataSlot_ok hbn) hne' he).2.symm
  have hcongr : Forest fs live (fun x => if x = mapped V (roots f) bn then y else V x) roots ∧ _ :=
    hF.congr hptr fun x hx => Fs.bit_congr (hlow _ (Fs.bblock_lt hx))
  obtain ⟨hF', hval⟩ := hcongr
  refine ⟨hF', fun f' hf' bn' hbn' => hval f' hf' _ (dataSlot_ok hbn'), fun f' hf' p hp => ?_, hlow⟩
  have hm : mapped _ (roots f') (p / bsize) = mapped V (roots f') (p / bsize) :=
    hval f' hf' _ (dataSlot_ok hp)
  unfold byte
  rw [hm]
  by_cases h0 : mapped V (roots f') (p / bsize) = 0
  · rw [if_pos h0, if_pos h0, if_neg]
    rintro ⟨rfl, hp'⟩
    rw [hp'] at h0
    exact hne h0
  rw [if_neg h0, if_neg h0]
  beta_reduce
  by_cases he : mapped V (roots f') (p / bsize) = mapped V (roots f) bn
  · obtain ⟨h1, h2⟩ := hF.inj f' hf' f hf _ _ (dataSlot_ok hp) (dataSlot_ok hbn) h0 he
    rw [if_pos he, if_pos ⟨h1, dataSlot_inj h2⟩]
  rw [if_neg he, if_neg]
  rintro ⟨rfl, hp'⟩
  exact he (by rw [hp'])

/-- Writing inode blocks does not touch the trees. -/
lemma Forest.write_inodes (hV : ∀ x, fs.sb.bmapstart ≤ x → V' x = V x) : Forest fs live V' roots ∧
      (∀ f', live f' → ∀ bn < maxfile, mapped V' (roots f') bn = mapped V (roots f') bn) ∧
      ∀ f', live f' → ∀ p, p / bsize < maxfile → byte V' (roots f') p = byte V (roots f') p := by
  have hdata : ∀ x, fs.Data x → V' x = V x := fun x hx =>
    hV x (Nat.le_of_lt (Nat.lt_of_lt_of_le fs.bmapstart_lt hx.1))
  have hcongr : Forest fs live V' roots ∧ _ := hF.congr
    (fun f' hf' q hq hne => hdata _ (hF.used hf' hq hne).1)
    fun x _ => Fs.bit_congr (hV _ (fs.bblock_ge x))
  obtain ⟨hF', hval⟩ := hcongr
  refine ⟨hF', fun f' hf' bn hbn => hval f' hf' _ (dataSlot_ok hbn), fun f' hf' p hp => ?_⟩
  have hm : mapped V' (roots f') (p / bsize) = mapped V (roots f') (p / bsize) :=
    hval f' hf' _ (dataSlot_ok hp)
  unfold byte
  rw [hm]
  split
  · rfl
  · next h => exact congrFun (hdata _ (hF.data f' hf' _ (dataSlot_ok hp) h)) _

lemma Forest.add {live' : Nat → Prop}
    (hempty : ∀ s : Slot, s.val V (roots' f) = 0) (hroots : ∀ f', live f' → roots' f' = roots f')
    (hlive : ∀ f', live' f' → live f' ∨ f' = f) : Forest fs live' V roots' := by
  refine hF.of_kept (fun _ _ => rfl) fun f' hf' s _ hne => ?_
  rcases hlive f' hf' with hf' | rfl
  · exact ⟨hf', by rw [hroots f' hf']⟩
  · exact absurd (hempty s) hne

end

end forest

end RpiOs.V6
