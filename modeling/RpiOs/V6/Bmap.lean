import RpiOs.V6.Tree

/-!
# `bmap` walks and extends the tree of a file

`bmap_wp`: `bmap` returns the block that the tree has for a block index, after putting the missing
blocks on the way there. What it does to the trees of all files is `Grows`: it adds empty blocks,
so no byte of any file changes. If nothing was missing, it changes nothing.

`topAddr_wp` and `indirectEntry_wp` say the same of its two steps, a slot of the inode and a slot
of a pointer block. `Supply` says what they may use; a step needs the allocator only if its slot is
empty, which happens only if `need` holds.
-/

namespace RpiOs.V6

open Lib Kernel Bio RedoLog

/-- The cache has room for two buffers; and, in case of `need`, the log takes `n` more blocks and
the allocator may fail. -/
structure Supply (l : Log) (H : Stop → Prop) (need : Prop) (lh : List Nat) (n : Nat) : Prop where
  room : lh.length + 1 < nbuf ∨ ∀ e, H e
  budget : need → Budget l lh H n
  full : need → H (.panic "balloc: out of blocks")

variable {l : Log} {H : Stop → Prop} {need : Prop} {lh : List Nat} {n k : Nat}

lemma Supply.mono (h : Supply l H need lh n) (hk : k ≤ n) : Supply l H need lh k :=
  ⟨h.room, fun hn => (h.budget hn).mono hk, h.full⟩

lemma Supply.of_budget (hb : Budget l lh H n) (hf : H (.panic "balloc: out of blocks")) :
    Supply l H need lh n :=
  ⟨hb.imp (fun h => by omega) id, fun _ => hb, fun _ => hf⟩

/-- The in-memory inode `ip` of a live file, among the trees `roots`. -/
structure Opened (fs : Fs) (live : Nat → Prop) (V : Nat → Block) (roots : Nat → Nat → Nat)
    (ip : Inode) : Prop where
  forest : Forest fs live V roots
  isLive : live ip.inum
  root : roots ip.inum = ip.addrs
  dev : ip.dev = fs.dev

variable {live : Nat → Prop} {need : Prop} {fs : Fs} {V V' : Nat → Block}
  {roots roots' : Nat → Nat → Nat} {lh lh' : List Nat} {ip : Inode}

lemma Opened.setRoot_eq (ho : Opened fs live V roots ip) :
    setRoot roots ip.inum ip.addrs = roots := by
  rw [← ho.root, setRoot_same]

lemma Opened.used (ho : Opened fs live V roots ip) {s : Slot} (hs : s.Ok)
    (hne : s.val V ip.addrs ≠ 0) :
    fs.Data (s.val V ip.addrs) ∧ fs.bit V (s.val V ip.addrs) = true := by
  rw [← ho.root] at hne ⊢
  exact ho.forest.used ho.isLive hs hne

/-- The result of a step that gives file `f` new blocks if `need` be. -/
structure Extended (fs : Fs) (live : Nat → Prop) (need : Prop) (f : Nat) (V : Nat → Block)
    (roots : Nat → Nat → Nat) (lh : List Nat) (V' : Nat → Block) (roots' : Nat → Nat → Nat)
    (lh' : List Nat) : Prop where
  grows : Grows fs live f V roots V' roots'
  same : ¬ need → V' = V ∧ roots' = roots ∧ lh' = lh

lemma Extended.trans {f : Nat} {V'' : Nat → Block} {roots'' : Nat → Nat → Nat} {lh'' : List Nat}
    (h : Extended fs live need f V roots lh V' roots' lh')
    (h' : Extended fs live need f V' roots' lh' V'' roots'' lh'') :
    Extended fs live need f V roots lh V'' roots'' lh'' := by
  refine ⟨h.grows.trans h'.grows, fun hn => ?_⟩
  obtain ⟨h1, h2, h3⟩ := h.same hn
  obtain ⟨h1', h2', h3'⟩ := h'.same hn
  exact ⟨h1'.trans h1, h2'.trans h2, h3'.trans h3⟩

variable {d : Disk} {m : Mem}

lemma Forest.allocates (hF : Forest fs live V roots) (held : List (Nat × Nat))
    (hheld : ∀ p ∈ held, fs.Data p.2 ∧ fs.bit V p.2 = true) :
    fs.Allocates { Scene.begin V lh with held := held } where
  clear := fun x hx p hp he => by
    have := (hheld p hp).1.1
    omega
  metadata := hF.metadata
  inHand := fun p hp => (hheld p hp).2

section

variable (h : Work fs.layout l d (Scene.begin V lh) m) (hon : fs.On d)
  (ho : Opened fs live V roots ip)
include h hon ho

/-- An address of the inode: there, or newly allocated. -/
lemma topAddr_wp {i : Nat} (hi : i < ndirect + 2)
    (hsup : Supply l H need lh (n + 2)) (hneed : ip.addrs i = 0 → need)
    {Q : Nat × Inode → Mem → Prop}
    (hQ : ∀ ip' V' lh' m', Work fs.layout l d (Scene.begin V' lh') m' →
      Extended fs live need ip.inum V roots lh V' (setRoot roots ip.inum ip'.addrs) lh' →
      Supply l H need lh' n → ip' = { ip with addrs := ip'.addrs } → ip'.addrs i ≠ 0 →
      Q (ip'.addrs i, ip') m') : Silent (topAddr fs.sb ip i) m d Q H := by
  have hroot := ho.setRoot_eq
  unfold topAddr
  split
  · next h0 =>
    have hn := hneed h0
    rw [ho.dev]
    refine .bind (balloc_wp h hon (ho.forest.allocates [] (by simp)) (Nat.zero_le 1)
      (hsup.budget hn) (fun _ => hsup.full hn) fun b m' hfree _ hb hw => ?_)
    rw [silent_pure]
    have hgrow := ho.forest.grow_top ho.isLive hi (by rw [ho.root]; exact h0) hfree hb
    have hset : (ip.setAddr i b).addrs i = b := if_pos rfl
    have key := hQ (ip.setAddr i b) (fs.allocV V b) _ m' hw ⟨?_, fun hnn => absurd hn hnn⟩
      (Supply.of_budget (((hsup.budget hn).log _).log _) (hsup.full hn)) rfl
      (by rw [hset]; exact hb.ne_zero)
    · rwa [hset] at key
    · rw [ho.root] at hgrow
      exact hgrow
  · next h0 =>
    rw [silent_pure]
    refine hQ ip V lh m h ⟨?_, fun _ => ⟨rfl, hroot, rfl⟩⟩ (hsup.mono (Nat.le_add_right n 2)) rfl h0
    rw [hroot]
    exact Grows.refl ho.forest _

/-- An entry of a pointer block, likewise. -/
lemma indirectEntry_wp {q : Ptr} (hq : q.Ok) (hk : k < nindirect)
    (hp : q.slot.val V ip.addrs ≠ 0) (hsup : Supply l H need lh (n + 3))
    (hneed : (q.at k).val V ip.addrs = 0 → need) {Q : Nat → Mem → Prop}
    (hQ : ∀ V' lh' m', Work fs.layout l d (Scene.begin V' lh') m' →
      Extended fs live need ip.inum V roots lh V' roots lh' → Supply l H need lh' n →
      (q.at k).val V' ip.addrs ≠ 0 → Q ((q.at k).val V' ip.addrs) m') :
    Silent (indirectEntry fs.sb fs.dev (q.slot.val V ip.addrs) k) m d Q H := by
  obtain ⟨hpd, hpb⟩ := ho.used hq hp
  have hval : (q.at k).val V ip.addrs = word (V (q.slot.val V ip.addrs)) k := by
    rw [Ptr.val_at, entry_of_ne hp]
  have hhome := hpd.home hon
  generalize hpe : q.slot.val V ip.addrs = p at *
  have hclean := h.settled (List.forall_mem_nil _) hhome.1
  unfold indirectEntry
  refine .bind (h.bread_wp hhome (List.forall_mem_nil _) ?_
    fun i m1 h1 => ?_)
  · exact hsup.room.imp (fun h => by simpa [Scene.begin] using Nat.lt_of_succ_lt h) id
  refine .bind (h1.getData_wp List.mem_cons_self hhome.1 ?_)
  show Silent (if word (V p) k = 0 then _ else _) m1 d Q H
  split
  · next h0 =>
    have hn := hneed (hval.trans h0)
    have hbud := hsup.budget hn
    have hal : fs.Allocates ((Scene.begin V lh).hold i p) :=
      ho.forest.allocates [(i, p)] (by simpa using ⟨hpd, hpb⟩)
    refine .bind (balloc_wp h1 hon hal (Nat.le_refl 1) (n := n + 1) hbud (fun _ => hsup.full hn)
      fun b m2 hfree _ hb h2 => ?_)
    refine .bind (h2.modifyData_wp List.mem_cons_self hhome.1 _ fun m3 h3 => ?_)
    have hbud' := (hbud.log (fs.sb.bblock b)).log b
    refine .bind (h3.logWrite_wp List.mem_cons_self hhome hbud'.accepts fun m4 h4 => ?_)
    refine .bind (h4.brelse_wp rfl hhome.1 (Or.inl ((mem_absorb _ _ _).mpr (Or.inl rfl)))
      fun m5 h5 => ?_)
    rw [silent_pure]
    have hb32 : b < 2 ^ 32 := by
      have := hb.2
      have := hon.1
      have := hon.2
      omega
    have hlinked := ho.forest.grow_entry ho.isLive hq (by rw [ho.root, hpe]; exact hp)
      (by rw [ho.root]; exact hval.trans h0) hfree hb hb32 hk
    rw [ho.root, hpe] at hlinked
    obtain ⟨hgrow, hnew⟩ := hlinked
    have key := hQ (fs.linkV V b p k) _ m5 h5 ⟨hgrow, fun hnn => absurd hn hnn⟩
      (Supply.of_budget (hbud'.log p) (hsup.full hn)) (by rw [hnew]; exact hb.ne_zero)
    rwa [hnew] at key
  · next h0 =>
    refine .bind (h1.brelse_wp rfl hhome.1 hclean fun m2 h2 => ?_)
    rw [silent_pure, Scene.hold_V]
    show Q (word (V p) k) m2
    rw [← hval]
    exact hQ V lh m2 h2 ⟨Grows.refl ho.forest _, fun _ => ⟨rfl, rfl, rfl⟩⟩
      (hsup.mono (Nat.le_add_right n 3)) (by rw [hval]; exact h0)

end

lemma Opened.extended (ho : Opened fs live V roots ip) {ip' : Inode}
    (he : ip' = { ip with addrs := ip'.addrs })
    (hx : Extended fs live need ip.inum V roots lh V' (setRoot roots ip.inum ip'.addrs) lh') :
    Opened fs live V' (setRoot roots ip.inum ip'.addrs) ip' := by
  have hi : ip'.inum = ip.inum := by rw [he]
  refine ⟨hx.grows.forest, hi ▸ ho.isLive, by rw [hi, setRoot_self], ?_⟩
  rw [he]
  exact ho.dev

/-- How far `bmap` has come: the inode with the addresses it has now, and the card and the log with
the blocks that were missing so far. -/
structure Reached (fs : Fs) (live : Nat → Prop) (need : Prop) (ip : Inode) (V : Nat → Block)
    (roots : Nat → Nat → Nat) (lh : List Nat) (ip' : Inode) (V' : Nat → Block) (lh' : List Nat) :
    Prop where
  extended : Extended fs live need ip.inum V roots lh V' (setRoot roots ip.inum ip'.addrs) lh'
  inode : ip' = { ip with addrs := ip'.addrs }

/-- **One level down**: from a pointer block that is there to one of its entries. -/
lemma Reached.entry_wp {ip' : Inode} {q : Ptr} {m' : Mem}
    (hr : Reached fs live need ip V roots lh ip' V' lh') (ho : Opened fs live V roots ip)
    (h : Work fs.layout l d (Scene.begin V' lh') m') (hon : fs.On d) (hq : q.Ok)
    (hk : k < nindirect) (hp : q.slot.val V' ip'.addrs ≠ 0) (hsup : Supply l H need lh' (n + 3))
    (hneed : (q.at k).val V ip.addrs = 0 → need) {Q : Nat → Mem → Prop}
    (hQ : ∀ V'' lh'' m'', Work fs.layout l d (Scene.begin V'' lh'') m'' →
      Reached fs live need ip V roots lh ip' V'' lh'' → Supply l H need lh'' n →
      (q.at k).val V'' ip'.addrs ≠ 0 → Q ((q.at k).val V'' ip'.addrs) m'') :
    Silent (indirectEntry fs.sb ip'.dev (q.slot.val V' ip'.addrs) k) m' d Q H := by
  have ho' := ho.extended hr.inode hr.extended
  have hi : ip'.inum = ip.inum := by rw [hr.inode]
  rw [ho'.dev]
  refine indirectEntry_wp h hon ho' hq hk hp hsup (fun h0 => ?_)
    fun V'' lh'' m'' h'' hx hs hne => ?_
  · -- if nothing was missing so far, the entry is the one at the start
    by_contra hn
    obtain ⟨rfl, hroots, -⟩ := hr.extended.same hn
    have ha : ip'.addrs = ip.addrs := by rw [← setRoot_self roots ip.inum ip'.addrs,
      hroots, ho.root]
    exact hn (hneed (ha ▸ h0))
  · rw [hi] at hx
    exact hQ V'' lh'' m'' h'' ⟨hr.extended.trans hx, hr.inode⟩ hs hne

/-- A pointer block that is missing has no entries. -/
lemma Ptr.at_eq_zero {q : Ptr} {a : Nat → Nat} (h : q.slot.val V a = 0) : (q.at k).val V a = 0 := by
  rw [Ptr.val_at, h, entry_zero]

/-- **`bmap` returns the block of an index, adding empty blocks where one is missing.** -/
theorem bmap_wp (h : Work fs.layout l d (Scene.begin V lh) m) (hon : fs.On d)
    (ho : Opened fs live V roots ip) {bn : Nat} (hbn : bn < maxfile)
    (hsup : Supply l H need lh (n + 8)) (hneed : mapped V ip.addrs bn = 0 → need)
    {Q : Nat × Inode → Mem → Prop}
    (hQ : ∀ ip' V' lh' m', Work fs.layout l d (Scene.begin V' lh') m' →
      Extended fs live need ip.inum V roots lh V' (setRoot roots ip.inum ip'.addrs) lh' →
      Supply l H need lh' n → ip' = { ip with addrs := ip'.addrs } → mapped V' ip'.addrs bn ≠ 0 →
      Q (mapped V' ip'.addrs bn, ip') m') : Silent (bmap fs.sb ip bn) m d Q H := by
  unfold mapped at hneed hQ
  unfold bmap
  split
  · next h1 =>
    -- a direct block
    rw [show dataSlot bn = .top bn from if_pos h1] at hneed hQ
    exact topAddr_wp h hon ho (Nat.lt_add_right 2 h1) (hsup.mono (by omega)) hneed hQ
  next h1 =>
  split
  · next h2 =>
    -- through the indirect block
    have hslot : dataSlot bn = Ptr.ind.at (bn - ndirect) := by
      unfold dataSlot
      rw [if_neg h1, if_pos h2]
      rfl
    rw [hslot] at hneed hQ
    refine .bind (topAddr_wp h hon ho Ptr.ind_ok (hsup.mono (k := n + 3 + 2) (by omega))
      (fun h0 => hneed (Ptr.at_eq_zero h0)) fun ip1 V1 lh1 m1 hw1 hx1 hs1 he1 hne1 => ?_)
    refine .bind (Reached.entry_wp (q := .ind) ⟨hx1, he1⟩ ho hw1 hon Ptr.ind_ok h2 hne1 hs1 hneed
      fun V2 lh2 m2 hw2 hr2 hs2 hne2 => ?_)
    rw [silent_pure]
    exact hQ ip1 V2 lh2 m2 hw2 hr2.extended hs2 he1 hne2
  next h2 =>
  have h3 : bn - ndirect - nindirect < nindirect * nindirect := by
    have : maxfile = ndirect + nindirect + nindirect * nindirect := rfl
    omega
  rw [if_pos h3]
  -- through the doubly-indirect block and one of its blocks
  have hdiv : (bn - ndirect - nindirect) / nindirect < nindirect :=
    (Nat.div_lt_iff_lt_mul (by decide)).mpr h3
  have hmod : (bn - ndirect - nindirect) % nindirect < nindirect := Nat.mod_lt _ (by decide)
  have hslot : dataSlot bn = (Ptr.mid ((bn - ndirect - nindirect) / nindirect)).at
      ((bn - ndirect - nindirect) % nindirect) := by
    unfold dataSlot
    rw [if_neg h1, if_neg h2]
    rfl
  rw [hslot] at hneed hQ
  refine .bind (topAddr_wp h hon ho Ptr.dbl_ok (hsup.mono (k := n + 6 + 2) (by omega))
    (fun h0 => hneed (Ptr.at_eq_zero (Ptr.at_eq_zero (q := .dbl) h0)))
      fun ip1 V1 lh1 m1 hw1 hx1 hs1 he1 hne1 => ?_)
  refine .bind (Reached.entry_wp (q := .dbl) (n := n + 3) ⟨hx1, he1⟩ ho hw1 hon Ptr.dbl_ok
    hdiv hne1 hs1 (fun h0 => hneed (Ptr.at_eq_zero h0)) fun V2 lh2 m2 hw2 hr2 hs2 hne2 => ?_)
  refine .bind (hr2.entry_wp (q := .mid _) ho hw2 hon hdiv hmod hne2 hs2 hneed
    fun V3 lh3 m3 hw3 hr3 hs3 hne3 => ?_)
  rw [silent_pure]
  exact hQ ip1 V3 lh3 m3 hw3 hr3.extended hs3 he1 hne3

end RpiOs.V6
