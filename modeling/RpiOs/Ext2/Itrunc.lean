import RpiOs.Ext2.FreeBlocks

/-!
# Truncating an ext2 file

What `ext2_itrunc` does to the bitmaps, for the whole tree of pointer blocks of a file.

* **`itrunc_frees`**: the truncation returns, and clears the bits of the blocks of the file and of
  its inode.

The pointer blocks are given back with zeros in their buffers that are not on the card, so they are
stale afterwards. Each is read before it becomes stale, because no block is in the tree twice.
-/

namespace RpiOs.Ext2

open Lib Kernel Bio

/-! ## The blocks of a file -/

/-- The pointers that are not null. -/
def leaves (ptrs : List Nat) : List Nat := ptrs.filter (· ≠ 0)

namespace Fs

variable (fs : Fs) (V : Nat → Block)

/-- The pointers in a pointer block. -/
def pointers (nr : Nat) : List Nat := (List.range fs.sb.addrPerBlock).map (word (V nr))

/-- The blocks below an array of pointers with `depth` levels of pointer blocks, in the order in
which they are freed. -/
def tree : Nat → List Nat → List Nat
  | 0, ptrs => leaves ptrs
  | depth + 1, ptrs => (leaves ptrs).flatMap fun nr => tree depth (fs.pointers V nr) ++ [nr]

/-- A pointer block, after the blocks below it. -/
def branch (depth nr : Nat) : List Nat := fs.tree V depth (fs.pointers V nr) ++ [nr]

/-- All blocks of a file. -/
def fileBlocks (ip : Inode) : List Nat :=
  fs.tree V 0 ((List.range 12).map ip.block) ++ fs.tree V 1 [ip.block 12] ++ fs.tree V 2
    [ip.block 13] ++
    fs.tree V 3 [ip.block 14]

variable {fs V} {V' : Nat → Block} {depth nr : Nat} {ptrs : List Nat}

lemma tree_cons_zero (depth : Nat) (ptrs : List Nat) :
    fs.tree V depth (0 :: ptrs) = fs.tree V depth ptrs := by
  cases depth <;> rfl

lemma tree_cons (h : nr ≠ 0) (depth : Nat) (ptrs : List Nat) :
    fs.tree V (depth + 1) (nr :: ptrs) = fs.branch V depth nr ++ fs.tree V (depth + 1) ptrs := by
  simp [tree, branch, leaves, h]

lemma mem_branch (depth nr : Nat) : nr ∈ fs.branch V depth nr :=
    List.mem_append_right _ (List.mem_singleton.mpr rfl)

/-- The blocks of a tree depend on the contents of its own blocks only. -/
lemma tree_congr (h : ∀ c ∈ fs.tree V depth ptrs, V' c = V c) :
    fs.tree V' depth ptrs = fs.tree V depth ptrs := by
  induction depth generalizing ptrs with
  | zero => rfl
  | succ depth ih => ?_
  unfold tree at h ⊢
  refine List.flatMap_congr fun nr hnr => ?_
  have hsub : ∀ c ∈ fs.tree V depth (fs.pointers V nr) ++ [nr], V' c = V c :=
    fun c hc => h c (List.mem_flatMap.mpr ⟨nr, hnr, hc⟩)
  have hptrs : fs.pointers V' nr = fs.pointers V nr := by
    unfold pointers
    rw [hsub nr (by simp)]
  rw [hptrs, ih fun c hc => hsub c (List.mem_append_left _ hc)]

lemma branch_congr (h : ∀ c ∈ fs.branch V depth nr, V' c = V c) :
    fs.branch V' depth nr = fs.branch V depth nr := by
  unfold branch pointers
  rw [h nr (mem_branch depth nr)]
  exact congrArg (· ++ [nr]) (tree_congr fun c hc => h c (List.mem_append_left _ hc))

end Fs

/-! ## Blocks that are freed -/

/-- A block in use that holds no bitmap, inode table or descriptors. -/
structure Busy (fs : Fs) (V : Nat → Block) (b : Nat) : Prop where
  inside : fs.Inside b
  used : fs.used V b = true
  system : ¬ fs.System V b
  ne_desc : b ≠ fs.descBlock

/-- Its buffer is not in hand or stale. -/
structure InTree (fs : Fs) (D : Desk) (b : Nat) : Prop extends Busy fs D.V b where
  fresh : ¬ D.unsaved b
  free : D.Free b

/-- The blocks of one tree. -/
structure Owned (fs : Fs) (D : Desk) (xs : List Nat) : Prop where
  nodup : xs.Nodup
  each : ∀ b ∈ xs, InTree fs D b

/-- The bits of the blocks `xs` are cleared; of the other blocks only those in `T` and the
descriptors and bitmaps change. -/
structure Cleared (fs : Fs) (T : Nat → Prop) (V V' : Nat → Block) (xs : List Nat) :
    Prop extends Kept fs T V V' where
  used : ∀ b, fs.Inside b → fs.used V' b = (decide (b ∉ xs) && fs.used V b)

/-- The blocks in `T`, and those of a tree. -/
def also (T : Nat → Prop) (xs : List Nat) : Nat → Prop := fun b => T b ∨ b ∈ xs

/-- The desk after the blocks `xs` were freed: their buffers may be stale. -/
def freed (D : Desk) (V : Nat → Block) (xs : List Nat) : Desk :=
  { D with V := V, unsaved := also D.unsaved xs }

variable {fs : Fs} {D D' : Desk} {T T' : Nat → Prop} {V V' V'' : Nat → Block} {m m' : Mem}
  {d d' : Disk}
  {H : Stop → Prop} {ip : Inode} {p : Place} {nr block depth n b : Nat} {ptrs xs ys : List Nat}

lemma also_nil (T : Nat → Prop) : also T [] = T := by
  funext b
  simp [also]

lemma also_append (T : Nat → Prop) (xs ys : List Nat) :
    also (also T xs) ys = also T (xs ++ ys) := by
  funext b
  simp [also, or_assoc]

lemma freed_nil (D : Desk) (V : Nat → Block) : freed D V [] = { D with V := V } := by
  unfold freed
  rw [also_nil]

lemma Owned.sub (h : Owned fs D xs) (hs : ys.Sublist xs) : Owned fs D ys :=
  ⟨h.nodup.sublist hs, fun b hb => h.each b (hs.subset hb)⟩

lemma Owned.left (h : Owned fs D (xs ++ ys)) : Owned fs D xs :=
    h.sub (List.sublist_append_left xs ys)

lemma Owned.disjoint (h : Owned fs D (xs ++ ys)) (hb : b ∈ ys) : b ∉ xs :=
  fun hx => (List.nodup_append.mp h.nodup).2.2 b hx b hb rfl

lemma Busy.cleared (h : Busy fs V b) (hc : Cleared fs T V V' xs) (hb : b ∉ xs) : Busy fs V' b :=
  ⟨h.inside, by rw [hc.used b h.inside, decide_eq_true hb, Bool.true_and]; exact h.used,
    fun hs => h.system ((hc.system b).mp hs), h.ne_desc⟩

lemma Owned.right (h : Owned fs D (xs ++ ys)) (hc : Cleared fs T D.V V xs) :
    Owned fs (freed D V xs) ys := by
  refine ⟨(List.nodup_append.mp h.nodup).2.1, fun b hb => ?_⟩
  have ht := h.each b (List.mem_append_right _ hb)
  have hout := h.disjoint hb
  exact ⟨ht.toBusy.cleared hc hout, fun hs => hs.elim ht.fresh hout, ht.free⟩

lemma Owned.same (h : Owned fs D ys) (hc : Cleared fs T D.V V []) : Owned fs { D with V := V } ys :=
  freed_nil D V ▸ (show Owned fs D ([] ++ ys) from h).right hc

lemma Cleared.refl (fs : Fs) (T : Nat → Prop) (V : Nat → Block) : Cleared fs T V V [] :=
  ⟨⟨fun _ => rfl, fun _ => rfl, fun _ => rfl, fun _ _ _ _ => rfl, fun h => h⟩, fun b _ => by simp⟩

lemma Cleared.mono (h : Cleared fs T V V' xs) (hT : ∀ c, T c → T' c) : Cleared fs T' V V' xs :=
  ⟨h.toKept.mono hT, h.used⟩

lemma Cleared.trans (h : Cleared fs T V V' xs) (h' : Cleared fs T V' V'' ys) :
    Cleared fs T V V'' (xs ++ ys) := by
  refine ⟨h.toKept.trans h'.toKept, fun b hb => ?_⟩
  rw [h'.used b hb, h.used b hb, ← Bool.and_assoc, ← Bool.decide_and]
  congr 2
  rw [List.mem_append, not_or]
  exact propext and_comm

lemma Cleared.append (h : Cleared fs (also T xs) V V' xs) (h' : Cleared fs (also T ys) V' V'' ys) :
    Cleared fs (also T (xs ++ ys)) V V'' (xs ++ ys) :=
  (h.mono fun _ hc => hc.imp_right fun hx => List.mem_append_left _ hx).trans
    (h'.mono fun _ hc => hc.imp_right fun hy => List.mem_append_right _ hy)

lemma Marked.cleared (h : Marked fs false V V' block n) (T : Nat → Prop) :
    Cleared fs T V V' (List.range' block n) := by
  refine ⟨h.toKept.mono fun _ => False.elim, fun b hb => ?_⟩
  rw [h.used hb]
  by_cases hin : block ≤ b ∧ b < block + n
  · rw [if_pos hin, decide_eq_false (by simpa [List.mem_range'_1] using hin), Bool.false_and]
  · rw [if_neg hin, decide_eq_true (by rwa [List.mem_range'_1]), Bool.true_and]

/-- No bit changes if the descriptors and bitmaps say the same of blocks. -/
lemma cleared_nil (hword : ∀ j, j % 8 < 3 → word (V' fs.descBlock) j = word (V fs.descBlock) j)
    (hcount : ∀ g, bgFreeBlocksCount (V' fs.descBlock) g = bgFreeBlocksCount (V fs.descBlock) g)
    (hbm : ∀ g < fs.sb.groupsCount, V' (bgBlockBitmap (V fs.descBlock) g) =
    V (bgBlockBitmap (V fs.descBlock) g))
    (hother : ∀ c, ¬ T c → c ≠ fs.descBlock → V' c = V c) : Cleared fs T V V' [] := by
  have hbitmap : ∀ g, bgBlockBitmap (V' fs.descBlock) g = bgBlockBitmap (V fs.descBlock) g :=
    fun g => hword _ (by omega)
  refine ⟨⟨hbitmap, fun g => hword _ (by omega), fun g => hword _ (by omega),
    fun c hc hd _ => hother c hc hd, fun hA g hg => ?_⟩, fun b hb => ?_⟩
  · rw [hbitmap, hbm g hg, hcount]
    exact hA g hg
  unfold Fs.used
  rw [hbitmap, hbm _ (fs.groupOf_lt hb)]
  simp

/-- A block that is neither the descriptors nor a bitmap gets other contents. -/
lemma cleared_of_ne (hd : b ≠ fs.descBlock) (hno :
    ∀ g < fs.sb.groupsCount, b ≠ bgBlockBitmap (V fs.descBlock) g)
    (hT : T b) (hV : ∀ c, c ≠ b → V' c = V c) : Cleared fs T V V' [] := by
  have hdesc := hV _ hd.symm
  refine cleared_nil (fun j _ => by rw [hdesc]) (fun g => by rw [hdesc])
    (fun g hg => hV _ (hno g hg).symm)
    fun c hc _ => hV c ?_
  rintro rfl
  exact hc hT

/-! ## Arrays of pointers -/

/-- A mounted file system of which some blocks are stale, but not the descriptors or a bitmap. -/
structure Site (fs : Fs) (D : Desk) (m : Mem) (d : Disk) : Prop where
  desk : OnDesk fs.sb.minor D.unsaved D m d
  mounted : Mounted fs D.unsaved D (d.nsecs fs.sb.minor)
  desc_fresh : ¬ D.unsaved fs.descBlock
  on_card : fs.sb.blocksCount ≤ d.nsecs fs.sb.minor

/-- The pointer at a place: in the inode, or in a buffer whose block is stale. -/
def PointsTo (D : Desk) (ip : Inode) : Place → Nat → Prop
  | .inode i, nr => ip.block i = nr
  | .buf bh i, nr => ∃ b, (bh, b) ∈ D.held ∧ D.unsaved b ∧ word (D.V b) i = nr

/-- The places from `p` on hold `ptrs`. -/
def Holds (D : Desk) (ip : Inode) (p : Place) (ptrs : List Nat) : Prop :=
  ∀ k nr, ptrs[k]? = some nr → PointsTo D ip (p.add k) nr

/-- The block in which a place is. -/
def Within (held : List (Nat × Nat)) : Place → Nat → Prop
  | .inode _, _ => False
  | .buf bh _, b => (bh, b) ∈ held

/-- The inode after a null was put into a place. -/
def clearPlace (ip : Inode) : Place → Inode
  | .inode i => { ip with block := fun j => if j = i then 0 else ip.block j }
  | .buf _ _ => ip

/-- The inode after `n` places from `p` on were cleared. -/
def clearPlaces (ip : Inode) : Nat → Place → Inode
  | 0, _ => ip
  | n + 1, p => clearPlaces (clearPlace ip p) n (p.add 1)

/-- The program returns `r` and frees the blocks `xs`; other than these, only blocks in `T`
change. -/
def Frees (fs : Fs) (H : Stop → Prop) (T : Nat → Prop) (D : Desk) (m : Mem) (d : Disk)
    (xs : List Nat) {α : Type} (x : K α) (r : α)
    : Prop :=
  ∀ Q : α → Mem → Disk → Prop, (∀ V m' d', Site fs (freed D V xs) m' d' → d'.nsecs = d.nsecs →
    Cleared fs (also T xs) D.V V xs → Q r m' d') → Wp x m d Q (H := H)

variable {α β : Type}

/-- The state after some blocks were freed is one to go on from. -/
lemma Site.next (h : Site fs D m d) (hc : Cleared fs T D.V V ys) (hxs : ∀ b ∈ xs, Busy fs D.V b)
    (hd : OnDesk fs.sb.minor D.unsaved { D with V := V } m' d') (hn : d'.nsecs = d.nsecs) :
    Site fs (freed D V xs) m' d' := by
  have hM := h.mounted
  refine ⟨(hd.mono fun b hb => .inl hb).congr (fun _ => rfl) rfl (fun b hb => .inl hb) rfl, ?_,
    fun hs => ?_, by rw [hn]; exact h.on_card⟩
  · rw [hn]
    refine hM.congr hc.toKept hM.desc (fun g hg => ⟨fun hs => ?_, hM.free g hg⟩) hM.room
    exact hs.elim (hM.fresh g hg) fun hx => (hxs _ hx).system ⟨g, hg, .inl rfl⟩
  · exact hs.elim h.desc_fresh fun hx => (hxs _ hx).ne_desc rfl

lemma Site.same (h : Site fs D m d) (hc : Cleared fs T D.V V ys)
    (hd : OnDesk fs.sb.minor D.unsaved { D with V := V } m' d') (hn : d'.nsecs = d.nsecs) :
    Site fs { D with V := V } m' d' := by
  have h' : Site fs (freed D V []) m' d' := h.next hc (List.forall_mem_nil _) hd hn
  rwa [freed_nil] at h'

lemma Site.ne_of_stale (h : Site fs D m d) (hb : D.unsaved b) :
    b ≠ fs.descBlock ∧ ∀ g < fs.sb.groupsCount, b ≠ bgBlockBitmap (D.V fs.descBlock) g :=
  ⟨fun he => h.desc_fresh (he ▸ hb), fun g hg he => h.mounted.fresh g hg (he ▸ hb)⟩

lemma Busy.kept (h : Busy fs V b) (hc : Cleared fs T V V' ys) (hT : ¬ T b) : V' b = V b :=
  hc.other b hT h.ne_desc fun g hg he => h.system ⟨g, hg, .inl he⟩

lemma Owned.not_within (h : Owned fs D xs) (hmem : b ∈ xs) (p : Place) : ¬ Within D.held p b := by
  cases p with
  | inode i => exact id
  | buf bh i => exact fun hw => (h.each b hmem).free _ hw rfl

/-- Two parts of the work, the second on the blocks that the first leaves. -/
lemma Frees.bind {x : K α} {f : α → K β} {r : α} {r' : β} (h : Frees fs H ⊥ D m d xs x r)
    (hf : ∀ V m' d', Site fs (freed D V xs) m' d' → Cleared fs (also ⊥ xs) D.V V xs →
      Frees fs H T (freed D V xs) m' d' ys (f r) r') :
        Frees fs H T D m d (xs ++ ys) (x >>= f) r' := by
  intro Q hQ
  refine .bind (h _ fun V m' d' hsite hn hc =>
    hf V m' d' hsite hc _ fun V' m'' d'' hsite' hn' hc' => ?_)
  refine hQ V' m'' d'' ?_ (hn'.trans hn)
    (Cleared.append (hc.mono fun c hx => hx.imp_left False.elim) hc')
  rwa [freed, ← also_append]

lemma Frees.pure (hsite : Site fs D m d) (r : α) : Frees fs H T D m d [] (Pure.pure r) r := by
  intro Q hQ
  refine .ret (hQ D.V m d ?_ rfl (Cleared.refl fs _ D.V))
  rwa [freed_nil]

lemma Frees.mono {x : K α} {r : α} (h : Frees fs H T D m d xs x r)
    (hT : ∀ c, T c → also T' xs c) : Frees fs H T' D m d xs x r :=
  fun Q hQ => h Q fun V m' d' hsite hn hc =>
    hQ V m' d' hsite hn (hc.mono fun c hx => hx.elim (hT c) .inr)

lemma Place.add_succ (p : Place) (k : Nat) : (p.add 1).add k = p.add (k + 1) := by
  cases p <;> simp [Place.add, Nat.add_assoc, Nat.add_comm 1 k]

lemma Place.add_zero (p : Place) : p.add 0 = p := by cases p <;> rfl

lemma Within.of_add {held : List (Nat × Nat)} (h : Within held (p.add 1) b) : Within held p b := by
  cases p <;> exact h

lemma Holds.head (h : Holds D ip p (nr :: ptrs)) : PointsTo D ip p nr := p.add_zero ▸ h 0 nr rfl

lemma Holds.tail (h : Holds D ip p (nr :: ptrs)) : Holds D ip (p.add 1) ptrs := fun k x hx => by
  rw [Place.add_succ]
  exact h (k + 1) x hx

/-- The pointers at a place stay while blocks of other places are freed. -/
lemma Holds.cleared (h : Holds D ip p ptrs) (hsite : Site fs D m d)
    (hc : Cleared fs (also ⊥ xs) D.V V xs) (hown : Owned fs D xs) :
    Holds (freed D V xs) ip p ptrs := by
  intro k nr hk
  have hpt := h k nr hk
  revert hpt
  cases p.add k with
  | inode i => exact id
  | buf bh i =>
    rintro ⟨b, hb, hS, hw⟩
    obtain ⟨hd, hno⟩ := hsite.ne_of_stale hS
    have hout : ¬ also ⊥ xs b := fun hx => hx.elim id fun hx => (hown.each b hx).fresh hS
    exact ⟨b, hb, .inl hS, (congrArg (word · i) (hc.other b hout hd hno)).trans hw⟩

lemma load_wp (h : PointsTo D ip p nr) (hsite : Site fs D m d) {Q : Nat → Mem → Disk → Prop}
    (hQ : Q nr m d) :
    Wp (load ip p) m d Q (H := H) := by
  cases p with
  | inode i => exact .ret (show Q (ip.block i) m d from h.symm ▸ hQ)
  | buf bh i =>
    obtain ⟨b, hb, -, hw⟩ := h
    rw [load, wp_bind]
    exact hsite.desk.getData_wp hb (.ret (show Q (word (D.V b) i) m d from hw.symm ▸ hQ))

/-- `*p = 0` for the first of the pointers. -/
lemma store_wp (h : Holds D ip p (nr :: ptrs)) (hsite : Site fs D m d)
    {Q : Inode → Mem → Disk → Prop}
    (hQ : ∀ V m', Site fs { D with V := V } m' d → Cleared fs (Within D.held p) D.V V [] →
      Holds { D with V := V } (clearPlace ip p) (p.add 1) ptrs → Q (clearPlace ip p) m' d) :
    Wp (store ip 0 p) m d Q (H := H) := by
  have hhead := h.head
  have htail := h.tail
  cases p with
  | inode i =>
    refine .ret (hQ D.V m hsite (Cleared.refl fs _ _) fun k x hk => ?_)
    exact (if_neg (show i + 1 + k ≠ i by omega)).trans (htail k x hk)
  | buf bh i => ?_
  obtain ⟨b, hb, hS, -⟩ := hhead
  obtain ⟨hd, hno⟩ := hsite.ne_of_stale hS
  rw [store, wp_bind]
  refine hsite.desk.modifyData_wp hb _ fun m' h' => .ret ?_
  have hc : Cleared fs (Within D.held (.buf bh i)) D.V (D.put b (setWord (D.V b) i 0)).V [] :=
    cleared_of_ne hd hno hb fun c hcb => Desk.put_of_ne _ hcb
  refine hQ _ m' (hsite.same hc (h'.congr (fun _ => rfl) rfl (fun c hc => ?_) rfl) rfl) hc
    fun k x hk => ?_
  · exact hc.elim (fun h => h) fun he => he ▸ hS
  obtain ⟨c, hc, hSc, hw⟩ := htail k x hk
  refine ⟨c, hc, hSc, ?_⟩
  by_cases hcb : c = b
  · rw [hcb] at hw ⊢
    exact (congrArg (word · _) (Desk.put_self b _)).trans
      ((word_setWord_of_ne _ _ (by omega)).trans hw)
  · exact (congrArg (word · _) (Desk.put_of_ne _ hcb)).trans hw

lemma clearPlaces_dev (ip : Inode) (n : Nat) (p : Place) :
    (clearPlaces ip n p).dev = ip.dev ∧ (clearPlaces ip n p).inum = ip.inum := by
  induction n generalizing ip p with
  | zero => exact ⟨rfl, rfl⟩
  | succ n ih =>
    rw [clearPlaces, (ih _ _).1, (ih _ _).2]
    cases p <;> exact ⟨rfl, rfl⟩

lemma clearPlace_null (h : PointsTo D ip p 0) : clearPlace ip p = ip := by
  cases p with
  | inode i =>
    obtain ⟨dev, inum, block⟩ := ip
    show Inode.mk dev inum _ = Inode.mk dev inum _
    congr 1
    funext j
    exact ite_eq_right_iff.mpr fun hj => hj ▸ Eq.symm h
  | buf bh i => rfl

/-- A run of blocks that are in use. -/
lemma freeRun_wp (hsite : Site fs D m d) (hpos : 0 < n)
    (hrun : ∀ b ∈ List.range' block n, Busy fs D.V b) :
    Frees fs H ⊥ D m d (List.range' block n) (freeBlocks fs.sb block n) () := by
  intro Q hQ
  have hfirst := (hrun block (by rw [List.mem_range'_1]; omega)).inside.1
  have hlast := (hrun (block + n - 1) (by rw [List.mem_range'_1]; omega)).inside.2
  refine freeBlocks_wp hsite.mounted hsite.desk (fun _ hb => hb) hfirst hpos (by omega)
    (fun b h1 h2 => ?_)
    fun V m' d' hm hn h' => hQ V m' d' (hsite.next (hm.cleared ⊥) hrun h' hn) hn (hm.cleared _)
  have hb := hrun b (by rw [List.mem_range'_1]; omega)
  exact ⟨hb.used, hb.system⟩

/-- **`ext2_free_data` clears the bits of the run at hand and of the blocks the pointers lead to.**
The induction is on the pointers. -/
theorem freeData_wp (blockToFree count : Nat) (hsite : Site fs D m d) (hp : Holds D ip p ptrs)
    (hown : Owned fs D (List.range' blockToFree count ++ leaves ptrs)) :
    Frees fs H (Within D.held p) D m d (List.range' blockToFree count ++ leaves ptrs)
      (freeData fs.sb ptrs.length p blockToFree count ip) (clearPlaces ip ptrs.length p) := by
  induction ptrs generalizing D m d ip p blockToFree count with
  | nil =>
    rw [show leaves [] = [] from rfl] at hown ⊢
    rw [List.length_nil, freeData]
    split
    · next hpos =>
      exact (freeRun_wp hsite hpos fun b hb => (hown.left.each b hb).toBusy).bind
        fun V m' d' h' _ => Frees.pure h' ip
    · next hzero =>
      obtain rfl : count = 0 := by omega
      exact Frees.pure hsite ip
  | cons nr ptrs ih =>
    intro Q hQ
    rw [List.length_cons, freeData, wp_bind]
    refine load_wp hp.head hsite ?_
    have hstep : ∀ {ys : List Nat} (c : Nat), Within D.held (p.add 1) c →
        also (Within D.held p) ys c :=
      fun c hc => .inl hc.of_add
    by_cases hnr : nr = 0
    · subst hnr
      rw [if_pos rfl]
      rw [List.length_cons, clearPlaces, clearPlace_null hp.head] at hQ
      exact (ih _ _ hsite hp.tail hown).mono hstep Q hQ
    rw [if_neg hnr, wp_bind]
    have hleaves : leaves (nr :: ptrs) = nr :: leaves ptrs := by simp [leaves, hnr]
    rw [hleaves] at hown hQ
    refine store_wp hp hsite fun V1 m1 hsite1 hc1 hp1 => ?_
    have hown1 := hown.same hc1
    -- what is left to show once the blocks `ys` are freed
    have hdone : ∀ {ys : List Nat} {x : K Inode}, ys = List.range' blockToFree count ++ nr ::
      leaves ptrs →
        Frees fs H (Within D.held p) { D with V := V1 } m1 d ys x
          (clearPlaces (clearPlace ip p) ptrs.length (p.add 1)) → Wp x m1 d Q (H := H) := by
      rintro ys x rfl hx
      exact hx Q fun V' m' d' h' hn hc => hQ V' m' d' h' hn
        ((hc1.mono fun c hc => .inl hc).trans hc)
    by_cases hcount : count = 0
    · subst hcount
      rw [if_pos rfl]
      exact hdone rfl ((ih nr 1 hsite1 hp1 hown1).mono hstep)
    rw [if_neg hcount]
    by_cases hrun : blockToFree + count = nr
    · -- the block goes on with the run
      have hlist : List.range' blockToFree (count + 1) ++ leaves ptrs =
          List.range' blockToFree count ++ nr :: leaves ptrs := by
        rw [List.range'_concat, ← hrun]
        simp
      rw [if_pos hrun]
      exact hdone hlist ((ih _ _ hsite1 hp1 (hlist ▸ hown1)).mono hstep)
    · rw [if_neg hrun]
      refine hdone rfl
        ((freeRun_wp hsite1 (by omega) fun b hb => (hown1.left.each b hb).toBusy).bind
        fun V2 m2 d2 hsite2 hc2 => ?_)
      exact (ih nr 1 hsite2 (hp1.cleared hsite1 hc2 hown1.left) (hown1.right hc2)).mono hstep

/-! ## The tree -/

lemma clearPlaces_buf (ip : Inode) (n bh i : Nat) : clearPlaces ip n (.buf bh i) = ip := by
  induction n generalizing i with
  | zero => rfl
  | succ n ih => exact ih (i + 1)

lemma clearPlaces_inode (ip : Inode) (n i j : Nat) :
    (clearPlaces ip n (.inode i)).block j = if i ≤ j ∧ j < i + n then 0 else ip.block j := by
  induction n generalizing ip i with
  | zero => exact (if_neg (by omega)).symm
  | succ n ih =>
    refine (ih _ (i + 1)).trans ?_
    show (if i + 1 ≤ j ∧ j < i + 1 + n then 0 else if j = i then 0 else ip.block j) = _
    split_ifs <;> first | rfl | omega

/-- The desk with the buffer of a pointer block, whose pointers are cleared from then on. -/
def atBranch (D : Desk) (bh nr : Nat) : Desk :=
  { D with held := (bh, nr) :: D.held, unsaved := also D.unsaved [nr] }

/-- A pointer block of the tree in hand; its block is stale from now on. -/
lemma Site.hold (h : Site fs D m d) (hown : InTree fs D nr) (hroom : D.held.length + 1 < D.room)
    {bh : Nat} (h' : OnDesk fs.sb.minor D.unsaved (D.hold bh nr) m' d)
    : Site fs (atBranch D bh nr) m' d := by
  have hM := h.mounted
  have hbm : ∀ g < fs.sb.groupsCount, nr ≠ bgBlockBitmap (D.V fs.descBlock) g :=
    fun g hg he => hown.system ⟨g, hg, .inl he⟩
  refine ⟨(h'.mono fun b hb => .inl hb).congr (fun _ => rfl) rfl (fun b hb => .inl hb) rfl, ?_,
    fun hs => ?_, h.on_card⟩
  · refine hM.congr (Cleared.refl fs ⊥ D.V).toKept (List.mem_cons_of_mem _ hM.desc)
      (fun g hg => ⟨fun hs => ?_, fun q hq => ?_⟩) hroom
    · exact hs.elim (hM.fresh g hg) fun hx => hbm g hg (List.mem_singleton.mp hx).symm
    rcases List.mem_cons.mp hq with rfl | hq
    · exact hbm g hg
    · exact hM.free g hg q hq
  · exact hs.elim h.desc_fresh fun hx => hown.ne_desc (List.mem_singleton.mp hx).symm

lemma Site.release {bh : Nat} {held : List (Nat × Nat)}
    (h : Site fs { D with held := (bh, nr) :: held } m d) {m' : Mem}
    (h' : OnDesk fs.sb.minor D.unsaved { D with held := held } m' d) (hroom : held.length < D.room)
    (hdesc : (fs.descBuf, fs.descBlock) ∈ held) : Site fs { D with held := held } m' d :=
  ⟨h', h.mounted.congr (Cleared.refl fs ⊥ D.V).toKept hdesc (fun g hg => ⟨h.mounted.fresh g hg,
    fun q hq => h.mounted.free g hg q (List.mem_cons_of_mem _ hq)⟩) hroom, h.desc_fresh, h.on_card⟩

/-- What is said of `ext2_free_branches` with `depth` levels of pointer blocks. -/
def FreesBelow (fs : Fs) (depth : Nat) (H : Stop → Prop) : Prop :=
  ∀ {D : Desk} {m : Mem} {d : Disk} {ip : Inode} {p : Place} {ptrs : List Nat}, Site fs D m d →
    ip.dev = fs.sb.minor → Holds D ip p ptrs → Owned fs D (fs.tree D.V depth ptrs) →
      D.held.length + depth < D.room →
    Frees fs H (Within D.held p) D m d (fs.tree D.V depth ptrs)
      (freeBranches fs.sb depth ptrs.length p ip)
      (clearPlaces ip ptrs.length p)

/-- A branch: what is below it, then its own block. -/
lemma freeBranch_wp (hbelow : FreesBelow fs depth H) (hsite : Site fs D m d)
    (hdev : ip.dev = fs.sb.minor) (hown : Owned fs D (fs.branch D.V depth nr))
    (hroom : D.held.length + (depth + 1) < D.room) :
    Frees fs H ⊥ D m d (fs.branch D.V depth nr)
      (freeBranch fs.sb (freeBranches fs.sb depth fs.sb.addrPerBlock) nr ip) ip := by
  intro Q hQ
  have hnr := hown.each nr (Fs.mem_branch depth nr)
  unfold freeBranch
  rw [hdev, wp_bind]
  refine hsite.desk.bread_wp hnr.fresh (.inl ⟨hnr.free, show D.held.length < D.room by omega, ?_⟩)
    fun bh m1 _ h1 => ?_
  · exact Nat.lt_of_lt_of_le hnr.inside.2 hsite.on_card
  have hsite1 := hsite.hold hnr (by omega) h1
  have hp1 : Holds (atBranch D bh nr) ip (.buf bh 0) (fs.pointers D.V nr) := by
    intro k x hk
    refine ⟨nr, List.mem_cons_self, .inr (List.mem_singleton.mpr rfl), ?_⟩
    obtain ⟨hlt, rfl⟩ := List.getElem?_eq_some_iff.mp hk
    simp [Fs.pointers, atBranch]
  have hown1 : Owned fs (atBranch D bh nr) (fs.tree D.V depth (fs.pointers D.V nr)) := by
    refine ⟨hown.left.nodup, fun b hb => ?_⟩
    have ht := hown.left.each b hb
    have hne : b ≠ nr := fun he => hown.disjoint (List.mem_singleton.mpr he) hb
    refine ⟨ht.toBusy, fun hs => hs.elim ht.fresh fun hx => hne (List.mem_singleton.mp hx),
      fun q hq => ?_⟩
    rcases List.mem_cons.mp hq with rfl | hq
    · exact hne.symm
    · exact ht.free q hq
  have hlen : (fs.pointers D.V nr).length = fs.sb.addrPerBlock := by simp [Fs.pointers]
  have hrec := hbelow hsite1 hdev hp1 hown1 (show (D.held.length + 1) + depth < D.room by omega)
  rw [hlen, clearPlaces_buf] at hrec
  refine .bind (hrec _ fun V1 m2 d2 hsite2 hn2 hc2 => ?_)
  refine .bind (hsite2.desk.brelse_wp rfl (.inl (.inl (.inr (List.mem_singleton.mpr rfl))))
    fun m3 h3 => ?_)
  have hsite3 := Site.release (D := freed (atBranch D bh nr) V1 _) hsite2 h3
    (show D.held.length < D.room by omega)
    hsite.mounted.desc
  -- the only block in the buffer is `nr`
  have hbuf : ∀ c, Within (atBranch D bh nr).held (.buf bh 0) c → c = nr := by
    intro c hc
    rcases List.mem_cons.mp hc with he | hc
    · exact (Prod.mk.inj he).2
    · exact absurd (List.mem_map.mpr ⟨(bh, c), hc, rfl⟩) (List.nodup_cons.mp hsite1.desk.nodup).1
  have hc2' : Cleared fs (also ⊥ (fs.branch D.V depth nr)) D.V V1 _ := hc2.mono fun c hc =>
    .inr (hc.elim (fun hc => by rw [hbuf c hc]; exact Fs.mem_branch depth nr) fun hc =>
      List.mem_append_left _ hc)
  refine .bind (freeRun_wp hsite3 Nat.one_pos (fun b hb => ?_) _ fun V2 m4 d4 hsite4 hn4 hc4 =>
    .ret (hQ V2 m4 d4 ?_ (hn4.trans hn2) (hc2'.trans (hc4.mono fun c hc => ?_))))
  · obtain rfl : b = nr := by simpa using hb
    exact hnr.toBusy.cleared hc2 (hown.disjoint (List.mem_singleton.mpr rfl))
  · have hS : also (also (also D.unsaved [nr]) (fs.tree D.V depth (fs.pointers D.V nr)))
      (List.range' nr 1) =
        also D.unsaved (fs.branch D.V depth nr) := by
      funext b
      simp only [also, Fs.branch, List.mem_append, List.mem_singleton, List.range'_one]
      apply propext
      tauto
    show Site fs { D with V := V2, unsaved := also D.unsaved (fs.branch D.V depth nr) } m4 d4
    rw [← hS]
    exact hsite4
  · exact hc.imp_right fun hc => List.mem_append_right _ hc

/-- The loop over an array of pointers to pointer blocks. The induction is on the pointers; what is
left of the tree does not change while a part of it is freed. -/
lemma forEntries_wp (hbelow : FreesBelow fs depth H) (hsite : Site fs D m d)
    (hdev : ip.dev = fs.sb.minor) (hp : Holds D ip p ptrs)
    (hown : Owned fs D (fs.tree D.V (depth + 1) ptrs))
    (hroom : D.held.length + (depth + 1) < D.room) :
    Frees fs H (Within D.held p) D m d (fs.tree D.V (depth + 1) ptrs)
      (forEntries (freeBranch fs.sb (freeBranches fs.sb depth fs.sb.addrPerBlock)) ptrs.length p ip)
        (clearPlaces ip ptrs.length p) := by
  induction ptrs generalizing D m d ip p with
  | nil => exact Frees.pure hsite ip
  | cons nr ptrs ih => ?_
  intro Q hQ
  rw [List.length_cons, forEntries, wp_bind]
  refine load_wp hp.head hsite ?_
  by_cases hnr : nr = 0
  · subst hnr
    rw [if_pos rfl]
    rw [Fs.tree_cons_zero] at hown hQ
    rw [List.length_cons, clearPlaces, clearPlace_null hp.head] at hQ
    exact (ih hsite hdev hp.tail hown hroom).mono (fun c hc => .inl hc.of_add) Q hQ
  rw [if_neg hnr, wp_bind]
  rw [Fs.tree_cons hnr] at hown hQ
  refine store_wp hp hsite fun V1 m1 hsite1 hc1 hp1 => ?_
  have hown1 := hown.same hc1
  have hdev1 : (clearPlace ip p).dev = fs.sb.minor := (clearPlaces_dev ip 1 p).1.trans hdev
  -- the tree is not in the array that was changed
  have hkept1 : ∀ c ∈ fs.branch D.V depth nr ++ fs.tree D.V (depth + 1) ptrs, V1 c = D.V c :=
    fun c hc => (hown.each c hc).toBusy.kept hc1 (hown.not_within hc p)
  have hxs : fs.branch V1 depth nr = fs.branch D.V depth nr :=
    Fs.branch_congr fun c hc => hkept1 c (List.mem_append_left _ hc)
  have hbranch := freeBranch_wp hbelow hsite1 hdev1 (hxs.symm ▸ hown1.left) hroom
  rw [show (⟨V1, D.held, D.unsaved, D.room⟩ : Desk).V = V1 from rfl, hxs] at hbranch
  refine hbranch.bind (fun V2 m2 d2 hsite2 hc2 => ?_) Q fun V3 m3 d3 h3 hn3 hc3 =>
    hQ V3 m3 d3 h3 hn3 ((hc1.mono fun c hc => .inl hc).trans hc3)
  have hys : fs.tree V2 (depth + 1) ptrs = fs.tree D.V (depth + 1) ptrs := by
    refine Fs.tree_congr fun c hc => Eq.trans ?_ (hkept1 c (List.mem_append_right _ hc))
    exact (hown1.each c (List.mem_append_right _ hc)).toBusy.kept hc2
      fun hx => hx.elim id (hown1.disjoint hc)
  have hrest := ih hsite2 hdev1 (hp1.cleared hsite1 hc2 hown1.left) (hys ▸ hown1.right hc2) hroom
  rw [show (freed ⟨V1, D.held, D.unsaved, D.room⟩ V2 _).V = V2 from rfl, hys] at hrest
  exact hrest.mono fun c hc => .inl hc.of_add

/-- **`ext2_free_branches` clears the bits of all blocks of the trees.** The induction is on the
levels of pointer blocks. -/
theorem freeBranches_wp (fs : Fs) (depth : Nat) (H : Stop → Prop) : FreesBelow fs depth H := by
  induction depth with
  | zero => exact fun hsite _ hp hown _ => freeData_wp 0 0 hsite hp hown
  | succ depth ih => exact fun hsite hdev hp hown hroom => forEntries_wp ih hsite hdev hp hown hroom

/-- A subtree of the inode. -/
lemma freeTree_wp {slot : Nat} (hsite : Site fs D m d) (hdev : ip.dev = fs.sb.minor)
    (hxs : fs.tree D.V (depth + 1) [ip.block slot] = xs) (hown : Owned fs D xs)
    (hroom : D.held.length + (depth + 1) < D.room) :
    Frees fs H ⊥ D m d xs (freeTree fs.sb slot depth ip) (clearPlace ip (.inode slot)) := by
  intro Q hQ
  unfold freeTree
  refine .bind (.ret ?_)
  subst hxs
  split
  · next hnull =>
    rw [hnull] at hQ
    exact Frees.pure hsite _ Q hQ
  · next hnr =>
    rw [Fs.tree_cons hnr, show fs.tree D.V (depth + 1) [] = [] from rfl, List.append_nil] at hown hQ
    exact freeBranch_wp (freeBranches_wp fs depth H) hsite
      (show (clearPlace ip (.inode slot)).dev = _ from hdev) hown hroom Q hQ

/-! ## The inode -/

/-- A block on the card that is no block bitmap, not stale and in nobody's hands. -/
structure Spare (fs : Fs) (D : Desk) (nsecs b : Nat) : Prop where
  fresh : ¬ D.unsaved b
  free : D.Free b
  on_card : b < nsecs
  bitmap : ∀ g < fs.sb.groupsCount, b ≠ bgBlockBitmap (D.V fs.descBlock) g

namespace Fs

variable (fs : Fs) (V : Nat → Block) (ino : Nat)

/-- The group of an inode. -/
def inodeGroup : Nat := (ino - 1) / fs.sb.inodesPerGroup

/-- The block with the bit of an inode. -/
def inodeBitmapBlock : Nat := bgInodeBitmap (V fs.descBlock) (fs.inodeGroup ino)

/-- The block of the inode table with an inode. -/
def inodeBlock (it : InodeTable) : Nat :=
  bgInodeTable (V fs.descBlock) (fs.inodeGroup ino) +
    (ino - 1) % fs.sb.inodesPerGroup * it.inodeSize / 2 ^ fs.sb.blocksizeBits

/-- The bit of an inode. -/
def inodeUsed : Bool := bitAt (V (fs.inodeBitmapBlock V ino)) ((ino - 1) % fs.sb.inodesPerGroup)

end Fs

variable {it : InodeTable} {i : Meta} {ino mode : Nat} {Q : Unit → Mem → Disk → Prop}

lemma Spare.kept (h : Spare fs D n b) (hk : Kept fs T D.V V) (hb : b ∉ xs) :
    Spare fs (freed D V xs) n b :=
  ⟨fun hs => hs.elim h.fresh hb, h.free, h.on_card,
    fun g hg he => h.bitmap g hg (he.trans (hk.bitmap g))⟩

/-- Counting an inode free does not touch what a descriptor says of blocks. -/
lemma word_bgRelease (dir : Bool) (o : Nat) (x : Block) {j : Nat} (hj : j % 8 < 3) :
    word (bgRelease dir o x) j = word x j := by
  unfold bgRelease
  dsimp only
  split
  · rw [word_setHalf_of_ne _ _ (by omega), word_setHalf_of_ne _ _ (by omega)]
  · rw [word_setHalf_of_ne _ _ (by omega)]

lemma bgFreeBlocksCount_bgRelease (dir : Bool) (o : Nat) (x : Block) (g : Nat) :
    bgFreeBlocksCount (bgRelease dir o x) g = bgFreeBlocksCount x g := by
  unfold bgFreeBlocksCount bgRelease
  dsimp only
  split
  · rw [half_setHalf, if_neg (by omega), half_setHalf, if_neg (by omega)]
  · rw [half_setHalf, if_neg (by omega)]

/-- **`ext2_free_inode` clears the bit of the inode.** -/
theorem freeInode_wp (hsite : Site fs D m d) (hfirst : it.firstIno ≤ ino)
    (hlast : ino ≤ it.inodesCount) (hg : fs.inodeGroup ino < fs.sb.groupsCount)
    (hspare : Spare fs D (d.nsecs fs.sb.minor) (fs.inodeBitmapBlock D.V ino))
    (hused : fs.inodeUsed D.V ino = true)
    (hQ : ∀ V m' d', Site fs { D with V := V } m' d' → d'.nsecs = d.nsecs →
      Cleared fs (· = fs.inodeBitmapBlock D.V ino) D.V V [] → V (fs.inodeBitmapBlock D.V ino) =
        clearBit (D.V (fs.inodeBitmapBlock D.V ino)) ((ino - 1) % fs.sb.inodesPerGroup) →
          Q () m' d') :
    Wp (freeInode fs.sb it ino mode) m d Q (H := H) := by
  have hM := hsite.mounted
  have hslot := hM.slot hg
  obtain ⟨bm, hbm⟩ : ∃ bm, bm = fs.inodeBitmapBlock D.V ino := ⟨_, rfl⟩
  rw [← hbm] at hspare hQ
  have hne : fs.descBlock ≠ bm := hspare.free _ hM.desc
  unfold freeInode
  rw [if_neg (by omega), wp_bind]
  show Wp (readInodeBitmap fs.sb (fs.inodeGroup ino)) m d _ _ _
  unfold readInodeBitmap
  refine .bind (getGroupDesc_ok hg ?_)
  refine .bind (hsite.desk.getData_wp hM.desc ?_)
  rw [hslot, show bgInodeBitmap (D.V fs.descBlock) (fs.inodeGroup ino) = bm from hbm.symm]
  refine hsite.desk.bread_wp hspare.fresh (.inl ⟨hspare.free, hM.room, hspare.on_card⟩)
    fun bh m1 _ h₁ => ?_
  have hdesc : (fs.descBuf, fs.descBlock) ∈ (D.hold bh bm).held := List.mem_cons_of_mem _ hM.desc
  have hbit : bitAt (D.V bm) ((ino - 1) % fs.sb.inodesPerGroup) = true := hbm ▸ hused
  refine .bind (h₁.getData_wp List.mem_cons_self ?_)
  rw [if_neg (by rw [Desk.hold_V, hbit]; simp), wp_bind]
  refine h₁.modifyData_wp List.mem_cons_self _ fun m2 h₂ => ?_
  rw [wp_bind]
  show Wp (releaseInode fs.sb (fs.inodeGroup ino) (isDir mode)) m2 d _ _ _
  unfold releaseInode
  refine .bind (getGroupDesc_ok hg ?_)
  rw [wp_bind, hslot]
  refine h₂.modifyData_wp hdesc _ fun m3 h3 => ?_
  refine h3.bwrite_wp hdesc (.inl hM.desc_lt) fun m4 h4 => ?_
  refine .bind (h4.bwrite_wp List.mem_cons_self (.inl hspare.on_card) fun m5 h5 => ?_)
  refine h5.brelse_wp rfl (.inr fun hu => hu.2 rfl) fun m6 h6 => ?_
  -- the card: the bitmap of the inodes and the descriptors have changed
  obtain ⟨W, hW⟩ : ∃ W : Nat → Block, W =
    ((D.put bm (clearBit (D.V bm) ((ino - 1) % fs.sb.inodesPerGroup))).put
    fs.descBlock (bgRelease (isDir mode) (fs.inodeGroup ino) (D.V fs.descBlock))).V := ⟨_, rfl⟩
  have hWdesc : W fs.descBlock = bgRelease (isDir mode) (fs.inodeGroup ino) (D.V fs.descBlock) := by
    rw [hW, Desk.put_self]
  have hWother : ∀ c, c ≠ bm → c ≠ fs.descBlock → W c = D.V c := fun c h1 h2 => by
    rw [hW, Desk.put_of_ne _ h2, Desk.put_of_ne _ h1]
  have hc : Cleared fs (· = bm) D.V W [] := by
    refine cleared_nil (fun j hj => by rw [hWdesc, word_bgRelease _ _ _ hj])
      (fun g => by rw [hWdesc, bgFreeBlocksCount_bgRelease]) (fun g hg => ?_) hWother
    exact hWother _ (hspare.bitmap g hg).symm (hM.laid.desc g hg)
  refine hQ W m6 _ (hsite.same hc (h6.congr (fun c => ?_) rfl (fun c hu => ?_) rfl) rfl) rfl hc ?_
  · have hkeep : (D.put bm (clearBit (D.V bm) ((ino - 1) % fs.sb.inodesPerGroup))).V fs.descBlock =
        D.V fs.descBlock :=
      Desk.put_of_ne _ hne
    rw [hW, ← hkeep]
    rfl
  · obtain ⟨⟨(hu | hu) | hu, h1⟩, h2⟩ := hu
    · exact hu
    · exact absurd hu h2
    · exact absurd hu h1
  · rw [hW, Desk.put_of_ne _ hne.symm, Desk.put_self]

/-- **`ext2_iupdate` changes the inode table only.** -/
theorem iupdate_wp (hsite : Site fs D m d) (hfirst : it.firstIno ≤ ip.inum)
    (hlast : ip.inum ≤ it.inodesCount) (hg : fs.inodeGroup ip.inum < fs.sb.groupsCount)
    (hspare : Spare fs D (d.nsecs fs.sb.minor) (fs.inodeBlock D.V ip.inum it))
    (hQ : ∀ V m' d', Site fs { D with V := V } m' d' →
    Cleared fs (· = fs.inodeBlock D.V ip.inum it) D.V V [] →
      Q () m' d') :
    Wp (iupdate fs.sb it ip i) m d Q (H := H) := by
  have hM := hsite.mounted
  obtain ⟨b, hb⟩ : ∃ b, b = fs.inodeBlock D.V ip.inum it := ⟨_, rfl⟩
  rw [← hb] at hspare hQ
  unfold iupdate getInode
  rw [wp_bind, if_neg (by omega), wp_bind]
  refine getGroupDesc_ok hg ?_
  refine .bind (hsite.desk.getData_wp hM.desc ?_)
  rw [wp_bind, hM.slot hg]
  show Wp (bread fs.sb.minor (fs.inodeBlock D.V ip.inum it)) m d _ _ _
  rw [← hb]
  refine hsite.desk.bread_wp hspare.fresh (.inl ⟨hspare.free, hM.room, hspare.on_card⟩)
    fun bh m1 _ h₁ => ?_
  refine .ret ?_
  dsimp only
  refine .bind (h₁.modifyData_wp List.mem_cons_self _ fun m2 h2 => ?_)
  refine .bind (h2.bwrite_wp List.mem_cons_self (.inl hspare.on_card) fun m3 h3 => ?_)
  refine h3.brelse_wp rfl (.inr fun hu => hu.2 rfl) fun m4 h4 => ?_
  have hc : Cleared fs (· = b) D.V (D.put b (putInode ip i
      ((ip.inum - 1) % fs.sb.inodesPerGroup * it.inodeSize % fs.sb.blocksize / 4) (D.V b))).V [] :=
    cleared_of_ne (fun he => hspare.free _ hM.desc he.symm) hspare.bitmap rfl fun c hcb =>
      Desk.put_of_ne _ hcb
  refine hQ _ m4 _ (hsite.same hc (h4.congr (fun _ => rfl) rfl (fun c hu => ?_) rfl) rfl) hc
  obtain ⟨hu | hu, h1⟩ := hu
  · exact hu
  · exact absurd hu h1

/-! ## The truncation -/

/-- The inode is in use, and its places on the card are where they should be. -/
structure Filed (fs : Fs) (it : InodeTable) (D : Desk) (nsecs : Nat) (ip : Inode) : Prop where
  dev : ip.dev = fs.sb.minor
  first_le : it.firstIno ≤ ip.inum
  le_count : ip.inum ≤ it.inodesCount
  group : fs.inodeGroup ip.inum < fs.sb.groupsCount
  used : fs.inodeUsed D.V ip.inum = true
  bitmap : Spare fs D nsecs (fs.inodeBitmapBlock D.V ip.inum)
  table : Spare fs D nsecs (fs.inodeBlock D.V ip.inum it)
  table_mem : InRange (fs.inodeBlock D.V ip.inum it)
    (bgInodeTable (D.V fs.descBlock) (fs.inodeGroup ip.inum))
    fs.sb.itbPerGroup
  table_ne : fs.inodeBitmapBlock D.V ip.inum ≠ fs.inodeBlock D.V ip.inum it

/-- What is left of a file: its blocks `xs` and its inode are free, and no other block or inode is
touched. -/
structure Truncated (fs : Fs) (it : InodeTable) (V V' : Nat → Block) (xs : List Nat)
    (ip ip' : Inode) : Prop where
  used : ∀ b, fs.Inside b → fs.used V' b = (decide (b ∉ xs) && fs.used V b)
  inodes : ∀ j, bitAt (V' (fs.inodeBitmapBlock V' ip.inum)) j =
    (!decide (j = (ip.inum - 1) % fs.sb.inodesPerGroup) &&
      bitAt (V (fs.inodeBitmapBlock V ip.inum)) j)
  pointers : ∀ k < 15, ip'.block k = 0
  other : ∀ c, c ∉ xs → c ≠ fs.descBlock →
    (∀ g < fs.sb.groupsCount, c ≠ bgBlockBitmap (V fs.descBlock) g) →
    c ≠ fs.inodeBitmapBlock V ip.inum → c ≠ fs.inodeBlock V ip.inum it → V' c = V c
  accounted : fs.Accounted V → fs.Accounted V'

variable {d₀ : Disk} {jp : Inode}

/-- The inode after all pointers were cleared. -/
def clearAll (ip : Inode) : Inode :=
  clearPlace (clearPlace (clearPlace (clearPlaces ip 12 (.inode 0)) (.inode 12)) (.inode 13))
    (.inode 14)

lemma clearAll_block (ip : Inode) : ∀ k < 15, (clearAll ip).block k = 0 := by
  intro k hk
  show (if k = 14 then 0 else if k = 13 then 0 else if k =
    12 then 0 else (clearPlaces ip 12 (.inode 0)).block k) = 0
  rw [clearPlaces_inode]
  split_ifs <;> first | rfl | omega

lemma clearAll_inum (ip : Inode) : (clearAll ip).inum = ip.inum := by
  simp only [clearAll, clearPlace, (clearPlaces_dev _ _ _).2]

lemma Owned.rest (h : Owned fs D (xs ++ ys)) (hc : Cleared fs (also ⊥ xs) D.V V xs) :
    ∀ c ∈ ys, V c = D.V c := fun c hmem =>
  (h.each c (List.mem_append_right _ hmem)).toBusy.kept hc fun hx => hx.elim id (h.disjoint hmem)

/-- The four parts of the tree, as the truncation goes through them. -/
def freeAll (sb : SuperBlock) (ip : Inode) : K Inode := do
  let ip ← freeData sb 12 (.inode 0) 0 0 ip
  let ip ← freeTree sb 12 0 ip
  let ip ← freeTree sb 13 1 ip
  freeTree sb 14 2 ip

/-- All the blocks of a file, in the order of the source. -/
lemma freeAll_wp (hsite : Site fs D m d) (hdev : ip.dev = fs.sb.minor)
    (hown : Owned fs D (fs.fileBlocks D.V ip)) (hroom : D.held.length + 3 < D.room) :
    Frees fs H ⊥ D m d (fs.fileBlocks D.V ip) (freeAll fs.sb ip) (clearAll ip) := by
  have hlist : fs.fileBlocks D.V ip = fs.tree D.V 0 ((List.range 12).map ip.block) ++
    (fs.tree D.V 1 [ip.block 12] ++
      (fs.tree D.V 2 [ip.block 13] ++ fs.tree D.V 3 [ip.block 14])) := by simp [Fs.fileBlocks]
  have hp : Holds D ip (.inode 0) ((List.range 12).map ip.block) := by
    intro k x hk
    obtain ⟨hlt, rfl⟩ := List.getElem?_eq_some_iff.mp hk
    simp [Place.add, PointsTo]
  rw [hlist] at hown ⊢
  have hdata : Frees fs H ⊥ D m d _ (freeData fs.sb 12 (.inode 0) 0 0 ip)
    (clearPlaces ip 12 (.inode 0)) := freeBranches_wp fs 0 H hsite hdev hp hown.left (by omega)
  unfold clearAll
  obtain ⟨jp, hjp⟩ : ∃ jp, jp = clearPlaces ip 12 (.inode 0) := ⟨_, rfl⟩
  have hblock : ∀ k, 12 ≤ k → jp.block k = ip.block k := fun k hk => by
    rw [hjp, clearPlaces_inode, if_neg (by omega)]
  have hdev' : jp.dev = fs.sb.minor := by rw [hjp, (clearPlaces_dev _ _ _).1, hdev]
  rw [← hjp] at hdata ⊢
  rw [← hblock 12 (by omega), ← hblock 13 (by omega), ← hblock 14 (by omega)] at hown ⊢
  refine hdata.bind fun V1 m1 d1 h1 hc1 => ?_
  have hk1 := hown.rest hc1
  have hown1 := hown.right hc1
  have ht1 : fs.tree V1 1 [jp.block 12] = _ := Fs.tree_congr fun c hc => hk1 c (by simp [hc])
  refine (freeTree_wp h1 hdev' ht1 hown1.left (show D.held.length + 1 < D.room by omega)).bind
    fun V2 m2 d2 h2 hc2 => ?_
  have hk2 := hown1.rest hc2
  have hown2 := hown1.right hc2
  have hdev2 : (clearPlace jp (.inode 12)).dev = fs.sb.minor := hdev'
  have ht2 : fs.tree V2 2 [(clearPlace jp (.inode 12)).block 13] = fs.tree D.V 2 [jp.block 13] :=
    Fs.tree_congr fun c hc => (hk2 c (List.mem_append_left _ hc)).trans
      (hk1 c (List.mem_append_right _ (List.mem_append_left _ hc)))
  refine (freeTree_wp h2 hdev2 ht2 hown2.left (show D.held.length + 2 < D.room by omega)).bind
    fun V3 m3 d3 h3 hc3 => ?_
  have hdev3 : (clearPlace (clearPlace jp (.inode 12)) (.inode 13)).dev = fs.sb.minor := hdev'
  have ht3 : fs.tree V3 3 [(clearPlace (clearPlace jp (.inode 12)) (.inode 13)).block 14] =
      fs.tree D.V 3 [jp.block 14] := Fs.tree_congr fun c hc =>
    (hown2.rest hc3 c hc).trans ((hk2 c (List.mem_append_right _ hc)).trans
      (hk1 c (List.mem_append_right _ (List.mem_append_right _ hc))))
  exact freeTree_wp h3 hdev3 ht3 (hown2.right hc3) hroom

/-- The cases of `ext2_itrunc` come down to freeing everything. -/
lemma itrunc_wp {Q : Inode → Mem → Disk → Prop} (hbits : fs.sb.blocksize = 2 ^ fs.sb.blocksizeBits)
    (h : Wp (freeAll fs.sb ip) m d (fun ip m d => Wp (do
      freeInode fs.sb it ip.inum i.mode
      iupdate fs.sb it ip i
      pure ip) m d Q (H := H)) (H := H)) : Wp (itrunc fs.sb it ip i) m d Q (H := H) := by
  have hzero : (fs.sb.blocksize - 1) / 2 ^ fs.sb.blocksizeBits = 0 := by
    have := Nat.two_pow_pos fs.sb.blocksizeBits
    exact Nat.div_eq_of_lt (by omega)
  unfold freeAll at h
  simp only [wp_bind] at h
  unfold itrunc
  rw [hzero]
  show Wp (do
    let ip ← freeData fs.sb 12 (.inode 0) 0 0 ip
    let ip ← freeTree fs.sb 12 0 ip
    let ip ← freeTree fs.sb 13 1 ip
    let ip ← freeTree fs.sb 14 2 ip
    freeInode fs.sb it ip.inum i.mode
    iupdate fs.sb it ip i
    pure ip) m d Q _ H
  simpa only [wp_bind] using h

/-- The end: the bit of the inode, the counts, and the inode in its table. -/
lemma freeInode_iupdate_wp (hfile : Filed fs it D (d.nsecs fs.sb.minor) ip)
    (hs : ∀ b, ¬ D.unsaved b) (hown : Owned fs D xs) (hsite : Site fs (freed D V xs) m d)
    (hc : Cleared fs (also ⊥ xs) D.V V xs) (hinum : jp.inum = ip.inum)
    (hblock : ∀ k < 15, jp.block k = 0) :
    Wp (do
      freeInode fs.sb it jp.inum i.mode
      iupdate fs.sb it jp i
      pure jp) m d (fun ip' _ d' => Truncated fs it D.V (d'.block fs.sb.minor) xs ip ip')
        (H := H) := by
  have hout : ∀ {b}, fs.System D.V b → b ∉ xs := fun hsys hx => (hown.each _ hx).system hsys
  have hibm : fs.inodeBitmapBlock D.V ip.inum ∉ xs := hout ⟨_, hfile.group, .inr (.inl rfl)⟩
  have hitb : fs.inodeBlock D.V ip.inum it ∉ xs :=
    hout ⟨_, hfile.group, .inr (.inr hfile.table_mem)⟩
  have hdesc : fs.descBlock ∉ xs := fun hx => (hown.each _ hx).ne_desc rfl
  have hbm_ne : fs.inodeBitmapBlock D.V ip.inum ≠ fs.descBlock :=
    fun he => hfile.bitmap.free _ hsite.mounted.desc he.symm
  -- the blocks of the inode are as before
  have hib : fs.inodeBitmapBlock V ip.inum = fs.inodeBitmapBlock D.V ip.inum := hc.inodeBitmap _
  have hbitmap : V (fs.inodeBitmapBlock D.V ip.inum) = D.V (fs.inodeBitmapBlock D.V ip.inum) :=
    hc.other _ (fun hs => hs.elim id hibm) hbm_ne hfile.bitmap.bitmap
  have hused : fs.inodeUsed V ip.inum = true := by
    unfold Fs.inodeUsed
    rw [hib, hbitmap]
    exact hfile.used
  rw [wp_bind, hinum]
  refine freeInode_wp hsite hfile.first_le hfile.le_count hfile.group
    (hib ▸ hfile.bitmap.kept hc.toKept hibm) hused
    fun V1 m1 d1 hsite1 hn1 hc1 hbit1 => ?_
  have hbit1 : V1 (fs.inodeBitmapBlock D.V ip.inum) = _ := hib ▸ hbit1
  obtain ⟨T, hT⟩ : ∃ T : Nat → Prop, T = fun c => c ∈ xs ∨ c = fs.inodeBitmapBlock D.V ip.inum ∨
    c = fs.inodeBlock D.V ip.inum it := ⟨_, rfl⟩
  have hcT : Cleared fs T D.V V1 xs := by
    have h1 : Cleared fs T D.V V xs := hc.mono fun c hc => hT ▸ .inl (hc.elim False.elim id)
    have h2 : Cleared fs T V V1 [] := hc1.mono fun c hc => hT ▸ .inr (.inl (hc.trans hib))
    simpa using h1.trans h2
  have hit1 : fs.inodeBlock V1 jp.inum it = fs.inodeBlock D.V ip.inum it := by
    unfold Fs.inodeBlock
    rw [hinum, hcT.inodeTable]
  have hspare := hfile.table.kept hcT.toKept hitb
  rw [← hit1, ← hn1] at hspare
  refine .bind (iupdate_wp hsite1 (by rw [hinum]; exact hfile.first_le)
    (by rw [hinum]; exact hfile.le_count)
    (by rw [hinum]; exact hfile.group) hspare fun V2 m2 d2 hsite2 hc2 => .ret ?_)
  have hc2 : Cleared fs (· = fs.inodeBlock D.V ip.inum it) V1 V2 [] := hit1 ▸ hc2
  -- what is not stale is on the card
  have hW : ∀ c, c ∉ xs → d2.block fs.sb.minor c = V2 c := fun c hc =>
    hsite2.desk.saved c (fun h => h.elim (hs c) hc) fun h => h.elim (hs c) hc
  have hall : Cleared fs T D.V (d2.block fs.sb.minor) xs := by
    have h3 : Cleared fs T V1 V2 [] := hc2.mono fun c hc => hT ▸ .inr (.inr hc)
    have h4 : Cleared fs T V2 (d2.block fs.sb.minor) [] := by
      refine cleared_nil (fun j _ => by rw [hW _ hdesc]) (fun g => by rw [hW _ hdesc])
        (fun g hg => hW _ (hout ?_))
        fun c hc _ => hW c fun hx => hc (hT ▸ .inl hx)
      rw [h3.bitmap, hcT.bitmap]
      exact ⟨g, hg, .inl rfl⟩
    simpa using hcT.trans (h3.trans h4)
  have hbm : d2.block fs.sb.minor (fs.inodeBitmapBlock D.V ip.inum) =
      clearBit (D.V (fs.inodeBitmapBlock D.V ip.inum)) ((ip.inum - 1) % fs.sb.inodesPerGroup) := by
    rw [hW _ hibm, hc2.other _ hfile.table_ne hbm_ne fun g hg he => ?_, hbit1]
    · exact congrArg (clearBit · _) hbitmap
    · exact hfile.bitmap.bitmap g hg (he.trans (hcT.bitmap g))
  refine ⟨hall.used, fun j => ?_, hblock, fun c h1 h2 h3 h4 h5 => ?_, hall.accounted⟩
  · rw [show fs.inodeBitmapBlock (d2.block fs.sb.minor) ip.inum =
      fs.inodeBitmapBlock D.V ip.inum from hall.inodeBitmap _, hbm, bitAt_clearBit]
  · exact hall.other c (by rw [hT]; rintro (h | h | h); exacts [h1 h, h4 h, h5 h]) h2 h3

/-- **`ext2_itrunc` frees exactly the blocks of the file and its inode**: it returns, the bits of
the blocks of the tree and of the inode are cleared and no others, and no pointer is left in the
inode. -/
theorem itrunc_frees (h : AtDesk fs.sb.minor D m d)
    (hM : Mounted fs D.unsaved D (d.nsecs fs.sb.minor)) (hs : ∀ b, ¬ D.unsaved b)
    (hroom : D.held.length + 3 < D.room) (hcard : fs.sb.blocksCount ≤ d.nsecs fs.sb.minor)
    (hbits : fs.sb.blocksize = 2 ^ fs.sb.blocksizeBits)
    (hfile : Filed fs it D (d.nsecs fs.sb.minor) ip) (hown : Owned fs D (fs.fileBlocks D.V ip))
    (i : Meta) :
    ∃ ip' m', (itrunc fs.sb it ip i m d).result = .ok (ip', m') ∧
      Truncated fs it (d.block fs.sb.minor)
        ((applyAll d (itrunc fs.sb it ip i m d).writes).block fs.sb.minor)
        (fs.fileBlocks D.V ip) ip ip' := by
  have hV : d.block fs.sb.minor = D.V := funext fun b => h.saved b (hs b)
  have hsite : Site fs D m d := ⟨h.onDesk.mono fun _ => False.elim, hM, hs _, hcard⟩
  have hwp : Wp (itrunc fs.sb it ip i) m d
    (fun ip' _ d' => Truncated fs it D.V (d'.block fs.sb.minor)
      (fs.fileBlocks D.V ip) ip ip') (fun _ => True) (fun _ => False) :=
    itrunc_wp hbits (freeAll_wp hsite hfile.dev hown hroom _ fun V m' d' h' hn hc =>
      freeInode_iupdate_wp (by rw [hn]; exact hfile) hs hown h' hc (clearAll_inum ip)
        (clearAll_block ip))
  rw [hV]
  exact hwp.returns fun _ h => h

/-! ## A file with a pointer block -/

/-- Inode 11 is in use, and pointer block 13 leads to block 14. -/
def fileCard : Disk :=
  { evenCard with block := fun dev b i =>
      if b = 4 ∧ i = 1 then 4 else if b = 13 ∧ i = 0 then 14 else evenCard.block dev b i }

/-- Two direct blocks and a pointer block. -/
def fileInode : Inode :=
    ⟨2, 11, fun k => if k = 0 then 9 else if k = 1 then 10 else if k = 12 then 13 else 0⟩

/-- The blocks of the example file are its own. -/
lemma fileInode_owned : Owned tinyFs (tinyDesk fileCard)
    (tinyFs.fileBlocks (tinyDesk fileCard).V fileInode) := by
  rw [show tinyFs.fileBlocks (tinyDesk fileCard).V fileInode = [9, 10, 14, 13] by decide +kernel]
  have hused : ∀ b ∈ [9, 10, 14, 13], (tinyFs.sb.firstDataBlock ≤ b ∧ b < tinyFs.sb.blocksCount) ∧
      tinyFs.used (tinyDesk fileCard).V b = true ∧ b ≠ 1 := by decide +kernel
  refine ⟨by decide, fun b hb => ⟨⟨(hused b hb).1, (hused b hb).2.1, ?_, (hused b hb).2.2⟩,
    not_false, tinyDesk_free (hused b hb).2.2⟩⟩
  rintro ⟨g, hg, hsys⟩
  obtain rfl := Nat.lt_one_iff.mp hg
  revert b
  decide +kernel

lemma fileCard_spare (hb : b ≠ 1 ∧ b < 64 ∧ b ≠ 3) : Spare tinyFs (tinyDesk fileCard) 64 b := by
  refine ⟨not_false, tinyDesk_free hb.1, hb.2.1, tinyFs_all ?_⟩
  rw [show bgBlockBitmap ((tinyDesk fileCard).V tinyFs.descBlock) 0 = 3 by decide +kernel]
  exact hb.2.2

/-- Its inode is in use and in the table. -/
lemma fileInode_filed : Filed tinyFs ⟨11, 16, 256⟩ (tinyDesk fileCard)
    (fileCard.nsecs tinyFs.sb.minor) fileInode := by
  have hbm : tinyFs.inodeBitmapBlock (tinyDesk fileCard).V fileInode.inum = 4 := by decide +kernel
  have hit : tinyFs.inodeBlock (tinyDesk fileCard).V fileInode.inum ⟨11, 16, 256⟩ =
    5 := by decide +kernel
  refine ⟨rfl, by decide, by decide, by decide, by decide +kernel, ?_, ?_, by decide +kernel, ?_⟩
  · rw [hbm]
    exact fileCard_spare (by decide)
  · rw [hit]
    exact fileCard_spare (by decide)
  · rw [hbm, hit]
    decide

/-- A file with mode 0644, one link and 12 KiB. -/
def fileMeta : Meta := ⟨0o100644, 32, 1, 12288, 0, 0, 0, 0, 0⟩

/-- The file is truncated. -/
theorem itrunc_frees_fileCard : ∃ ip' m',
    (itrunc tinyFs.sb ⟨11, 16, 256⟩ fileInode fileMeta (tinyMem fileCard) fileCard).result = .ok
    (ip', m') ∧
      Truncated tinyFs ⟨11, 16, 256⟩ (fileCard.block tinyFs.sb.minor)
        ((applyAll fileCard (itrunc tinyFs.sb
        ⟨11, 16, 256⟩ fileInode fileMeta (tinyMem fileCard) fileCard).writes).block tinyFs.sb.minor)
          (tinyFs.fileBlocks (tinyDesk fileCard).V fileInode) fileInode ip' :=
  itrunc_frees (tinyMem_atDesk (by decide))
    (tinyFs_mounted (by decide) (tinyFs_inj (by decide +kernel)) (by decide +kernel))
      (fun _ => not_false) (by decide) (by decide) (by decide)
    fileInode_filed fileInode_owned fileMeta

end RpiOs.Ext2
