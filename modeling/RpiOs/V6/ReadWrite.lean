import RpiOs.V6.Bmap

/-!
# Reading and writing the bytes of a file

`readLoop_wp` and `writeLoop_wp` say what the loops of `readi` and `writei` do to the bytes of the
file, and that no byte of any other file changes (`Wrote`). Both go block by block: a round copies
the part of the range that lies in one block. `readi_wp` and `writei_wp` add the checks before the
loops and the update of the inode after them.

A round of `writei` logs at most nine blocks: up to three new blocks, a bitmap block for each, the
two pointer blocks and the data block.
-/

namespace RpiOs.V6

open Lib Kernel Bio RedoLog

/-! ## One round -/

/-- The part of `n` bytes from `off` that lies in the first block. -/
def chunk (off n : Nat) : Nat := min n (bsize - off % bsize)

lemma chunk_pos (off : Nat) {n : Nat} (hn : n ≠ 0) : 0 < chunk off n := by
  have := Nat.mod_lt off (show 0 < bsize by decide)
  unfold chunk
  omega

lemma chunk_le (off n : Nat) : chunk off n ≤ n := Nat.min_le_left _ _

/-- A position is in the first chunk if it is in the range and in the block of `off`. -/
lemma mem_chunk {off n p : Nat} :
    (off ≤ p ∧ p < off + chunk off n) ↔ (off ≤ p ∧ p < off + n ∧ p / bsize = off / bsize) := by
  unfold chunk
  have hb : bsize = 4096 := rfl
  rw [hb]
  omega

lemma mod_mem_chunk {off n p : Nat} (hp : p / bsize = off / bsize) :
    (off % bsize ≤ p % bsize ∧ p % bsize < off % bsize + chunk off n ↔
      off ≤ p ∧ p < off + chunk off n) ∧ (off ≤ p → p % bsize - off % bsize = p - off) := by
  have h1 := Nat.div_add_mod off bsize
  have h2 := Nat.div_add_mod p bsize
  rw [hp] at h2
  constructor <;> omega

/-- The number of blocks that `n` bytes from `off` on touch. -/
def rounds (off n : Nat) : Nat := if n = 0 then 0 else (off + n - 1) / bsize - off / bsize + 1

lemma rounds_chunk (off : Nat) {n : Nat} (hn : n ≠ 0) :
    rounds (off + chunk off n) (n - chunk off n) + 1 ≤ rounds off n := by
  unfold rounds chunk
  rw [if_neg hn]
  have hb : bsize = 4096 := rfl
  rw [hb]
  split <;> omega

/-! ## Reading -/

variable {fs : Fs} {l : Log} {d : Disk} {m : Mem} {H : Stop → Prop} {live : Nat → Prop}
  {V V' V'' : Nat → Block} {lh : List Nat} {ip ip' : Inode}

section loops

variable {roots roots' : Nat → Nat → Nat}

/-- Every position of the range has a block. -/
def Present (V : Nat → Block) (a : Nat → Nat) (off n : Nat) : Prop :=
  ∀ p, off ≤ p → p < off + n → mapped V a (p / bsize) ≠ 0

/-- `bmap` of a block that there is changes nothing. -/
lemma bmap_present_wp (h : Work fs.layout l d (Scene.begin V lh) m) (hon : fs.On d)
    (ho : Opened fs live V roots ip) {bn : Nat} (hbn : bn < maxfile) (hp : mapped V ip.addrs bn ≠ 0)
    (hroom : lh.length + 1 < nbuf ∨ ∀ e, H e) {Q : Nat × Inode → Mem → Prop}
    (hQ : ∀ m', Work fs.layout l d (Scene.begin V lh) m' → Q (mapped V ip.addrs bn, ip) m') :
    Silent (bmap fs.sb ip bn) m d Q H := by
  have hsup : Supply l H False lh (0 + 8) := ⟨hroom, False.elim, False.elim⟩
  refine bmap_wp h hon ho hbn hsup hp
    fun ip' V' lh' m' hw hx _ he _ => ?_
  obtain ⟨rfl, hr, rfl⟩ := hx.same not_false
  have ha : ip'.addrs = ip.addrs := by
    rw [← setRoot_self roots ip.inum ip'.addrs, hr, ho.root]
  have hip : ip' = ip := by
    rw [he, ha]
  subst hip
  exact hQ m' hw

/-- Copying the first chunk from its block and the rest from the file copies the range. -/
lemma splice_chunk {off n : Nat} (hne : mapped V ip.addrs (off / bsize) ≠ 0) (dst : Bytes)
    (doff : Nat) :
    splice (splice dst doff (V (mapped V ip.addrs (off / bsize))) (off % bsize) (chunk off n))
        (doff + chunk off n) (byte V ip.addrs) (off + chunk off n) (n - chunk off n) =
      splice dst doff (byte V ip.addrs) off n := by
  have hfirst : ∀ k < chunk off n,
      V (mapped V ip.addrs (off / bsize)) (off % bsize + k) = byte V ip.addrs (off + k) :=
        fun k hk => by
    have hb : (off + k) / bsize = off / bsize := ((mem_chunk (n := n)).mp ⟨by omega, by omega⟩).2.2
    have h1 := Nat.div_add_mod off bsize
    have h2 := Nat.div_add_mod (off + k) bsize
    rw [hb] at h2
    rw [byte, hb, if_neg hne, show (off + k) % bsize = off % bsize + k by omega]
  rw [splice_congr _ hfirst, splice_append, Nat.add_sub_cancel' (chunk_le off n)]

/-- **The loop of `readi` copies the bytes of the file.** -/
theorem readLoop_wp (hon : fs.On d) (ho : Opened fs live V roots ip)
    (hroom : lh.length + 1 < nbuf ∨ ∀ e, H e) (fuel off n : Nat) (dst : Bytes) (doff : Nat)
    (hfuel : n ≤ fuel) (hmax : off + n ≤ maxfile * bsize) (hp : Present V ip.addrs off n)
    (h : Work fs.layout l d (Scene.begin V lh) m) {Q : Bytes × Inode → Mem → Prop}
    (hQ : ∀ m', Work fs.layout l d (Scene.begin V lh) m' →
      Q (splice dst doff (byte V ip.addrs) off n, ip) m') :
    Silent (readLoop fs.sb fuel ip off n dst doff) m d Q H := by
  induction fuel generalizing m off n dst doff with
  | zero =>
    rw [readLoop, silent_pure]
    have := hQ m h
    rwa [Nat.le_zero.mp hfuel, splice_zero] at this
  | succ fuel ih => ?_
  rw [readLoop]
  split
  · next h0 =>
    rw [silent_pure]
    have := hQ m h
    rwa [h0, splice_zero] at this
  next h0 =>
  have hlt : off / bsize < maxfile := (Nat.div_lt_iff_lt_mul (by decide)).mpr (by omega)
  have hne := hp off (Nat.le_refl off) (by omega)
  have hd : fs.Data (mapped V ip.addrs (off / bsize)) := (ho.used (dataSlot_ok hlt) hne).1
  refine .bind (bmap_present_wp h hon ho hlt hne hroom fun m1 h₁ => ?_)
  dsimp only
  rw [ho.dev]
  have hroom' : 0 + lh.length < nbuf ∨ ∀ e, H e := hroom.imp (fun h => by omega) id
  have hfree : (Scene.begin V lh).Free (mapped V ip.addrs (off / bsize)) :=
    List.forall_mem_nil _
  refine .bind (h₁.bread_wp (hd.home hon) hfree hroom' fun i m2 h₂ => ?_)
  refine .bind (h₂.getData_wp List.mem_cons_self (hd.home hon).1 ?_)
  have hclean := h₁.settled hfree (hd.home hon).1
  refine .bind (h₂.brelse_wp rfl (hd.home hon).1 hclean fun m3 h3 => ?_)
  have hk := chunk_le off n
  have hkpos := chunk_pos off h0
  refine ih (off + chunk off n) (n - chunk off n) _ (doff + chunk off n) (by omega) (by omega)
    (fun p h1 h2 => hp p (by omega) (by omega)) h3 fun m' h' => ?_
  show Q (splice (splice dst doff (V (mapped V ip.addrs (off / bsize))) (off % bsize)
    (chunk off n)) _ _ _ _, ip) m'
  rw [splice_chunk hne]
  exact hQ m' h'

/-! ## Writing -/

/-- What writing `n` bytes of `src` to file `f` at `off` does to the files. -/
structure Wrote (fs : Fs) (live : Nat → Prop) (f : Nat) (off n : Nat) (src : Bytes) (soff : Nat)
    (V : Nat → Block) (roots : Nat → Nat → Nat) (V' : Nat → Block) (roots' : Nat → Nat → Nat) :
    Prop where
  forest : Forest fs live V' roots'
  mapped : ∀ f', live f' → ∀ bn < maxfile, mapped V (roots f') bn ≠ 0 →
    mapped V' (roots' f') bn ≠ 0
  present : Present V' (roots' f) off n
  byte : ∀ f', live f' → ∀ p, p / bsize < maxfile → byte V' (roots' f') p =
    if f' = f ∧ off ≤ p ∧ p < off + n then src (soff + (p - off)) else byte V (roots f') p
  inodes : ∀ x < fs.sb.bmapstart, V' x = V x
  others : ∀ f', f' ≠ f → roots' f' = roots f'

variable {V₁ V₂ : Nat → Block} {roots₁ : Nat → Nat → Nat} {f off n soff : Nat} {src : Bytes}

lemma Wrote.nil (hF : Forest fs live V roots) (f off : Nat) (src : Bytes) (soff : Nat) :
    Wrote fs live f off 0 src soff V roots V roots :=
  ⟨hF, fun _ _ _ _ h => h, fun p h1 h2 => absurd h2 (by omega), fun f' _ p _ =>
    (if_neg (by omega)).symm, fun _ _ => rfl, fun _ _ => rfl⟩

/-- A round: the block is there, the chunk is written into it, the rest is written. -/
lemma Wrote.cons (hf : live f) (hmax : off + n ≤ maxfile * bsize) (hn : n ≠ 0)
    (hg : Grows fs live f V roots V₁ roots₁) (hne : V6.mapped V₁ (roots₁ f) (off / bsize) ≠ 0)
    (hV2 : V₂ = fun x => if x = V6.mapped V₁ (roots₁ f) (off / bsize) then
      splice (V₁ (V6.mapped V₁ (roots₁ f) (off / bsize))) (off % bsize) src soff (chunk off n)
      else V₁ x)
    (h : Wrote fs live f (off + chunk off n) (n - chunk off n) src (soff + chunk off n) V₂ roots₁
      V' roots') : Wrote fs live f off n src soff V roots V' roots' := by
  have hk := chunk_le off n
  have hlt : off / bsize < maxfile := (Nat.div_lt_iff_lt_mul (by decide)).mpr (by omega)
  obtain ⟨hF2, hm2, hb2, hlow⟩ := hg.forest.write_data hf hlt hne _ hV2
  refine ⟨h.forest, ?_, ?_, ?_, ?_, fun f' hf' => (h.others f' hf').trans (hg.others f' hf')⟩
  · intro f' hf' bn hbn h0
    have h1 := hg.mapped f' hf' bn hbn h0
    refine h.mapped f' hf' bn hbn ?_
    rw [hm2 f' hf' bn hbn, h1]
    exact h0
  · intro p h1 h2
    by_cases hp : p < off + chunk off n
    · have hpb := (mem_chunk (n := n)).mp ⟨h1, hp⟩ |>.2.2
      rw [hpb]
      refine h.mapped f hf _ hlt ?_
      rw [hm2 f hf _ hlt]
      exact hne
    · exact h.present p (by omega) (by omega)
  · intro f' hf' p hp
    rw [h.byte f' hf' p hp, hb2 f' hf' p hp]
    by_cases hff : f' = f
    · subst hff
      by_cases h1 : off ≤ p ∧ p < off + chunk off n
      · have hpb := (mem_chunk (n := n)).mp h1 |>.2.2
        obtain ⟨hmod, hsub⟩ := mod_mem_chunk (n := n) hpb
        rw [if_neg (by omega), if_pos ⟨rfl, hpb⟩, if_pos ⟨rfl, h1.1, by omega⟩]
        unfold splice
        rw [if_pos (hmod.mpr h1), hsub h1.1]
      by_cases h2 : off ≤ p ∧ p < off + n
      · rw [if_pos (by omega), if_pos (by omega)]
        congr 1
        omega
      rw [if_neg (by omega), if_neg (c := _ ∧ off ≤ p ∧ _) (by omega), ← hg.byte f' hf' p hp]
      split
      · next hpb =>
        obtain ⟨hmod, -⟩ := mod_mem_chunk (n := n) hpb.2
        unfold splice
        rw [if_neg (mt hmod.mp h1)]
        unfold V6.byte
        rw [hpb.2, if_neg hne]
      · rfl
    · rw [if_neg fun h => hff h.1, if_neg fun h => hff h.1, if_neg fun h => hff h.1]
      exact hg.byte f' hf' p hp
  · intro x hx
    rw [h.inodes x hx, hlow x (Nat.lt_trans hx fs.bmapstart_lt), hg.inodes x hx]

/-- **The loop of `writei` writes the bytes of the range**, and touches no other file. -/
theorem writeLoop_wp (hon : fs.On d) {r : Nat} (fuel : Nat) (hfuel : n ≤ fuel)
    (hmax : off + n ≤ maxfile * bsize) (ho : Opened fs live V roots ip)
    (hsup : Supply l H True lh (r + 9 * rounds off n))
    (h : Work fs.layout l d (Scene.begin V lh) m) {Q : Inode → Mem → Prop}
    (hQ : ∀ ip' V' lh' m', Work fs.layout l d (Scene.begin V' lh') m' →
      Wrote fs live ip.inum off n src soff V roots V' (setRoot roots ip.inum ip'.addrs) →
      Supply l H True lh' r → ip' = { ip with addrs := ip'.addrs } → Q ip' m') :
    Silent (writeLoop fs.sb fuel ip src soff off n) m d Q H := by
  induction fuel generalizing m ip roots V lh soff off n with
  | zero =>
    have h0 := Nat.le_zero.mp hfuel
    subst h0
    rw [writeLoop, silent_pure]
    exact hQ ip V lh m h (by rw [ho.setRoot_eq]; exact Wrote.nil ho.forest _ _ _ _)
      (hsup.mono (Nat.le_add_right _ _)) rfl
  | succ fuel ih => ?_
  rw [writeLoop]
  split
  · next h0 =>
    subst h0
    rw [silent_pure]
    exact hQ ip V lh m h (by rw [ho.setRoot_eq]; exact Wrote.nil ho.forest _ _ _ _)
      (hsup.mono (Nat.le_add_right _ _)) rfl
  next h0 =>
  have hlt : off / bsize < maxfile := (Nat.div_lt_iff_lt_mul (by decide)).mpr (by omega)
  have hk := chunk_le off n
  have hkpos := chunk_pos off h0
  have hcost := rounds_chunk off h0
  -- the block of `off`
  refine .bind (bmap_wp h hon ho hlt
    (n := r + 9 * rounds (off + chunk off n) (n - chunk off n) + 1)
    (hsup.mono (by omega)) (fun _ => trivial) fun ip1 V₁ lh1 m1 hw1 hx1 hs1 he1 hne1 => ?_)
  have ho1 := ho.extended he1 hx1
  have hi : ip1.inum = ip.inum := by rw [he1]
  have hd : fs.Data (mapped V₁ ip1.addrs (off / bsize)) := (ho1.used (dataSlot_ok hlt) hne1).1
  have hbud := hs1.budget trivial
  dsimp only
  rw [ho1.dev]
  -- the chunk is written into it
  refine .bind (hw1.bread_wp (hd.home hon) (List.forall_mem_nil _)
    (hbud.room (Nat.zero_le 2)) fun i m2 hw2 => ?_)
  refine .bind (hw2.modifyData_wp List.mem_cons_self (hd.home hon).1 _
    fun m3 hw3 => ?_)
  refine .bind (hw3.logWrite_wp List.mem_cons_self (hd.home hon) hbud.accepts
    fun m4 hw4 => ?_)
  refine .bind (hw4.brelse_wp rfl (hd.home hon).1
    (Or.inl ((mem_absorb _ _ _).mpr (Or.inl rfl))) fun m5 hw5 => ?_)
  -- and the loop goes on from the end of the chunk
  obtain ⟨hF2, -, -, -⟩ := ho1.forest.write_data ho1.isLive hlt (by rw [ho1.root]; exact hne1) _ rfl
  rw [ho1.root] at hF2
  have ho2 := Opened.mk hF2 ho1.isLive ho1.root ho1.dev
  show Silent (writeLoop fs.sb fuel ip1 src (soff + chunk off n) (off + chunk off n)
    (n - chunk off n)) m5 d Q H
  refine ih (by omega) (by omega) ho2 (Supply.of_budget (hbud.log _) (hsup.full trivial)) hw5
    fun ip' V' lh' m' hw' hwr hs' he' => ?_
  have he : ip' = { ip with addrs := ip'.addrs } := by
    rw [he', he1]
  rw [hi, setRoot_setRoot] at hwr
  refine hQ ip' V' lh' m' hw' (Wrote.cons ho.isLive hmax h0 hx1.grows ?_ rfl ?_) hs' he
  · rw [setRoot_self]
    exact hne1
  · rw [setRoot_self]
    exact hwr

end loops

/-! ## The calls -/

/-- The addresses in the `struct dinode` of inode `f`. -/
def dinodeAddrs (sb : SuperBlock) (V : Nat → Block) (f i : Nat) : Nat :=
  if i < ndirect + 2 then dinodeWord sb V f (18 + i) else 0

/-- The roots of all trees: the inode in memory for file `ip`, the inodes on the card for the
others. -/
def Fs.roots (fs : Fs) (V : Nat → Block) (ip : Inode) : Nat → Nat → Nat :=
  setRoot (dinodeAddrs fs.sb V) ip.inum ip.addrs

/-- File `f` is the same, inode and bytes. -/
def SameFile (fs : Fs) (V V' : Nat → Block) (f : Nat) : Prop :=
  (∀ j < dinodeWords, dinodeWord fs.sb V' f j = dinodeWord fs.sb V f j) ∧
    ∀ p, p / bsize < maxfile →
      byte V' (dinodeAddrs fs.sb V' f) p = byte V (dinodeAddrs fs.sb V f) p

/-- An open file among the live files of the file system: every position below its size has a
block. -/
structure File (fs : Fs) (live : Nat → Prop) (V : Nat → Block) (ip : Inode) : Prop
    extends Opened fs live V (fs.roots V ip) ip where
  inums : ∀ f, live f → f < fs.sb.ninodes
  type : ip.type ≠ tDev
  size : ip.size < 2 ^ 32
  present : Present V ip.addrs 0 ip.size

/-- The addresses depend on the words of the inode. -/
lemma dinodeAddrs_congr {f : Nat}
    (h : ∀ j < dinodeWords, dinodeWord fs.sb V' f j = dinodeWord fs.sb V f j) :
    dinodeAddrs fs.sb V' f = dinodeAddrs fs.sb V f := by
  funext i
  unfold dinodeAddrs
  split
  · next hi =>
    have : ndirect + 2 = 13 := rfl
    have : dinodeWords = 32 := rfl
    exact h _ (by omega)
  · rfl

lemma length_words (ip : Inode) : ip.words.length = 31 := by
  simp [Inode.words, timeWords, ndirect]

/-- Writing one inode leaves the others as they are. -/
lemma dinodeWord_setWords {sb : SuperBlock} {inum f j : Nat} {ns : List Nat}
    (hlen : ns.length ≤ dinodeWords) (hf : f ≠ inum) (hj : j < dinodeWords)
    (hV : V' = fun x => if x = sb.iblock inum then setWords (V (sb.iblock inum))
      (dinodeWords * (inum % ipb)) ns else V x) :
    dinodeWord sb V' f j = dinodeWord sb V f j := by
  subst hV
  unfold dinodeWord
  beta_reduce
  by_cases hb : sb.iblock f = sb.iblock inum
  · rw [if_pos hb, hb]
    have hne : f % ipb ≠ inum % ipb := by
      intro hm
      unfold SuperBlock.iblock at hb
      have h1 := Nat.div_add_mod f ipb
      have h2 := Nat.div_add_mod inum ipb
      have hd : f / ipb = inum / ipb := by omega
      rw [hd, hm] at h1
      omega
    have hw : dinodeWords = 32 := rfl
    rw [hw] at hj hlen ⊢
    rcases Nat.lt_or_gt_of_ne hne with hlt | hgt
    · exact word_setWords_lt _ _ _ (by omega)
    · exact word_setWords_ge _ _ _ (by omega)
  · rw [if_neg hb]

variable (ip) in
lemma Forest.congr_roots {roots roots' : Nat → Nat → Nat} (hF : Forest fs live V roots)
    (h : ∀ f, live f → roots' f = roots f) : Forest fs live V roots' :=
  hF.of_kept (fun _ _ => rfl) fun f hf s _ _ => ⟨hf, by rw [h f hf]⟩

lemma lt_maxfile : 2 ^ 32 ≤ maxfile * bsize := by decide

/-- `v6_ilock` loads the inode from its block. -/
lemma ilock_wp (h : Work fs.layout l d (Scene.begin V lh) m) (hon : fs.On d) {inum : Nat}
    (hi : inum < fs.sb.ninodes) (htype : (loadInode fs.dev inum (dinodeWord fs.sb V inum)).type ≠ 0)
    (hroom : lh.length + 1 < nbuf ∨ ∀ e, H e) {Q : Inode → Mem → Prop}
    (hQ : ∀ m', Work fs.layout l d (Scene.begin V lh) m' →
      Q (loadInode fs.dev inum (dinodeWord fs.sb V inum)) m') :
    Silent (ilock fs.sb fs.dev inum) m d Q H := by
  have hhome := Fs.iblock_home hon hi
  have hfree : (Scene.begin V lh).Free (fs.sb.iblock inum) := List.forall_mem_nil _
  have hroom' : 0 + lh.length < nbuf ∨ ∀ e, H e := hroom.imp (fun h => by omega) id
  unfold ilock
  refine .bind (h.bread_wp hhome hfree hroom' fun i m1 h1 => ?_)
  refine .bind (h1.getData_wp List.mem_cons_self hhome.1 ?_)
  refine .bind (h1.brelse_wp rfl hhome.1 (h.settled hfree hhome.1) fun m2 h2 => ?_)
  show Silent (if (loadInode fs.dev inum (dinodeWord fs.sb V inum)).type = 0 then _ else pure
    (loadInode fs.dev inum (dinodeWord fs.sb V inum))) m2 d Q H
  rw [if_neg htype, silent_pure]
  exact hQ m2 h2

/-- **`readi` returns the bytes of the file** from `off` to its end or `n` bytes on. -/
theorem readi_wp (h : Work fs.layout l d (Scene.begin V lh) m) (hon : fs.On d)
    (hf : File fs live V ip) (sw : Devsw) (off n : Nat) (dst : Bytes) (hoff : off ≤ ip.size)
    (hn : off + n < 2 ^ 64) (hroom : lh.length + 1 < nbuf ∨ ∀ e, H e)
    {Q : Int × Bytes × Inode → Mem → Prop}
    (hQ : ∀ m', Work fs.layout l d (Scene.begin V lh) m' →
      Q ((min n (ip.size - off) : Nat), splice dst 0 (byte V ip.addrs) off (min n (ip.size - off)),
        ip) m') :
    Silent (readi fs.sb sw ip dst off n) m d Q H := by
  have hsize := hf.size
  have hmax := lt_maxfile
  unfold readi
  rw [if_neg hf.type, if_neg]
  · have hk : (if ip.size < off + n then ip.size - off else n) = min n (ip.size - off) := by
      split <;> omega
    dsimp only
    rw [hk]
    refine .bind (readLoop_wp hon hf.toOpened hroom _ off (min n (ip.size - off)) dst 0
      (Nat.le_refl _) (by omega) ?_ h fun m' h' => ?_)
    · exact fun p _ h2 => hf.present p (Nat.zero_le p) (by omega)
    rw [silent_pure]
    exact hQ m' h'
  · rw [Nat.mod_eq_of_lt hn]
    omega

/-- What an accepted `writei` leaves. -/
structure WroteFile (fs : Fs) (live : Nat → Prop) (off n : Nat) (src : Bytes) (V : Nat → Block)
    (ip : Inode) (V' : Nat → Block) (ip' : Inode) : Prop where
  file : File fs live V' ip'
  inum : ip'.inum = ip.inum
  size : ip'.size = max ip.size (off + n)
  byte : ∀ p, p / bsize < maxfile → byte V' ip'.addrs p =
    if off ≤ p ∧ p < off + n then src (p - off) else byte V ip.addrs p
  others : ∀ f, live f → f ≠ ip.inum → SameFile fs V V' f
  /-- `dip->size` in the inode block -/
  stored : dinodeWord fs.sb V' ip.inum 2 =
    if ip.size < off + n then off + n else dinodeWord fs.sb V ip.inum 2

/-- After the loop and `iupdate` the file has the new bytes, also on the card. -/
lemma Wrote.wroteFile (hf : File fs live V ip) {off n : Nat} {src : Bytes} (hn : off + n < 2 ^ 32)
    (hoff : off ≤ ip.size)
    (h : Wrote fs live ip.inum off n src 0 V (fs.roots V ip) V'
      (setRoot (fs.roots V ip) ip.inum ip'.addrs))
    (hV : ∀ x, fs.sb.bmapstart ≤ x → V'' x = V' x)
    (hw : ∀ f, live f → f ≠ ip.inum → ∀ j < dinodeWords,
      dinodeWord fs.sb V'' f j = dinodeWord fs.sb V' f j)
    (hst : dinodeWord fs.sb V'' ip.inum 2 =
      if ip.size < off + n then off + n else dinodeWord fs.sb V' ip.inum 2)
    (he : ip' = { ip with size := ip'.size, addrs := ip'.addrs })
    (hsz : ip'.size = max ip.size (off + n)) : WroteFile fs live off n src V ip V'' ip' := by
  have hi : ip'.inum = ip.inum := by rw [he]
  have hmax := lt_maxfile
  have hsize := hf.size
  have hword : ∀ f, live f → f ≠ ip.inum → ∀ j < dinodeWords,
      dinodeWord fs.sb V'' f j = dinodeWord fs.sb V f j := by
    intro f hlf hne j hj
    rw [hw f hlf hne j hj]
    unfold dinodeWord
    rw [h.inodes _ (Fs.iblock_lt (hf.inums f hlf))]
  have hadd : ∀ f, live f → f ≠ ip.inum → dinodeAddrs fs.sb V'' f = dinodeAddrs fs.sb V f :=
    fun f hlf hne => dinodeAddrs_congr (hword f hlf hne)
  have hroots : ∀ f, live f →
      fs.roots V'' ip' f = setRoot (fs.roots V ip) ip.inum ip'.addrs f := by
    intro f hlf
    unfold Fs.roots
    rw [hi]
    by_cases hne : f = ip.inum
    · rw [hne, setRoot_self, setRoot_self]
    · rw [setRoot_of_ne hne, setRoot_of_ne hne, setRoot_of_ne hne, hadd f hlf hne]
  obtain ⟨hF, hm, hb⟩ := h.forest.write_inodes hV
  have hself : setRoot (fs.roots V ip) ip.inum ip'.addrs ip.inum = ip'.addrs := setRoot_self _ _ _
  have hmself : ∀ bn < maxfile, V6.mapped V'' ip'.addrs bn = V6.mapped V' ip'.addrs bn := by
    intro bn hbn
    have := hm _ hf.isLive bn hbn
    rwa [hself] at this
  refine ⟨⟨⟨hF.congr_roots hroots, hi ▸ hf.isLive, ?_, ?_⟩, hf.inums, ?_, ?_, ?_⟩, hi, hsz,
    ?_, ?_, ?_⟩
  · unfold Fs.roots
    rw [setRoot_self]
  · rw [he]
    exact hf.dev
  · rw [he]
    exact hf.type
  · rw [hsz]
    omega
  · intro p _ hp
    have hpm : p / bsize < maxfile := (Nat.div_lt_iff_lt_mul (by decide)).mpr (by omega)
    rw [hmself _ hpm]
    by_cases hps : p < ip.size
    · have := h.mapped _ hf.isLive _ hpm
        (by rw [hf.root]; exact hf.present p (Nat.zero_le p) (by omega))
      rwa [hself] at this
    · have := h.present p (by omega) (by omega)
      rwa [hself] at this
  · intro p hp
    have h1 := hb _ hf.isLive p hp
    have h2 := h.byte _ hf.isLive p hp
    rw [hself] at h1 h2
    rw [h1, h2, hf.root]
    simp
  · intro f hlf hne
    refine ⟨hword f hlf hne, fun p hp => ?_⟩
    have h1 := hb f hlf p hp
    have h2 := h.byte f hlf p hp
    have hr : fs.roots V ip f = dinodeAddrs fs.sb V f := setRoot_of_ne hne
    rw [setRoot_of_ne hne, hr] at h1 h2
    rw [hadd f hlf hne, h1, h2, if_neg fun h => hne h.1]
  · rw [hst]
    unfold dinodeWord
    rw [h.inodes _ (Fs.iblock_lt (hf.inums _ hf.isLive))]

/-- **`writei` writes the bytes it is given** and nothing else, and returns their number. -/
theorem writei_wp (h : Work fs.layout l d (Scene.begin V lh) m) (hon : fs.On d)
    (hf : File fs live V ip) (sw : Devsw) (off n : Nat) {r : Nat} (src : Bytes)
    (hoff : off ≤ ip.size)
    (hn : off + n < 2 ^ 32) (hsup : Supply l H True lh (r + 1 + 9 * rounds off n))
    {Q : Int × Inode → Mem → Prop}
    (hQ : ∀ ip' V' lh' m', Work fs.layout l d (Scene.begin V' lh') m' →
      WroteFile fs live off n src V ip V' ip' → Q (n, ip') m') :
    Silent (writei fs.sb sw ip src off n) m d Q H := by
  have hmax := lt_maxfile
  unfold writei
  rw [if_neg hf.type, if_neg, if_neg (by omega)]
  · refine .bind (writeLoop_wp hon n (Nat.le_refl n) (by omega) hf.toOpened hsup h
      fun ip1 V₁ lh1 m1 hw1 hwr hs1 he1 => ?_)
    have hsz : ip1.size = ip.size := by rw [he1]
    have hin : ip1.inum = ip.inum := by rw [he1]
    split
    · next hgrow =>
      rw [hsz] at hgrow
      have hmod : (off + n) % 2 ^ 32 = off + n := Nat.mod_eq_of_lt hn
      dsimp only
      rw [hmod]
      refine .bind (iupdate_wp hw1 hon ?_ ?_ ?_ (Nat.zero_le 2) (hs1.budget trivial)
        fun m2 hw2 => ?_)
      · exact fun x _ => List.forall_mem_nil _
      · rw [he1]
        exact hf.dev
      · show ip1.inum < _
        rw [hin]
        exact hf.inums _ hf.isLive
      rw [silent_pure]
      refine hQ { ip1 with size := off + n } _ _ m2 hw2 (hwr.wroteFile hf hn hoff ?_ ?_ ?_ ?_ ?_)
      · intro x hx
        have := Fs.iblock_lt (hf.inums _ hf.isLive)
        refine Scene.put_of_ne _ ?_
        show x ≠ fs.sb.iblock ip1.inum
        rw [hin]
        omega
      · intro f _ hne j hj
        exact dinodeWord_setWords (by rw [length_words]; decide) (by rw [hin]; exact hne) hj rfl
      · rw [if_pos hgrow.2, ← hin]
        unfold dinodeWord
        dsimp only
        rw [Scene.put_self]
        exact (word_setWords _ _ _ 2 (by rw [length_words]; decide)).trans hmod
      · rw [he1]
      · show off + n = _
        omega
    · next hgrow =>
      rw [silent_pure]
      refine hQ ip1 V₁ lh1 m1 hw1
        (hwr.wroteFile hf hn hoff (fun _ _ => rfl) (fun _ _ _ _ _ => rfl) ?_ ?_ ?_)
      · rw [if_neg (by omega)]
      · rw [hsz]
        exact he1
      · rw [hsz] at hgrow ⊢
        omega
  · rw [Nat.mod_eq_of_lt (by omega)]
    omega

end RpiOs.V6
