import RpiOs.Bio.Coherence
import RpiOs.RedoLog.Model

/-!
# Block operations of the log and the file system, as the cache sees them

`Quiet S L m d`: the cache is coherent and exactly the buffers `L` are in somebody's hands.
From such a state the short sequences the kernel is made of come back to the same `L`:

* `look_wp`, `peek_wp`: read a block and release it;
* `store_wp`, `copyOut_wp`: write one block to the card, as `write_head`, `write_log` and
  `install_trans` do;
* `change_wp`: read a block, change it, pass it to `log_write` and release it, as the file system
  does. Nothing reaches the card.

Each says what happens to the view and to the dirty blocks. They stop only if a block is not on the
device, is held already, or the cache or the log has no room.
-/

namespace RpiOs.RedoLog

open Lib Kernel Bio

/-! ## Who holds what -/

/-- The cache is coherent, and `L` are the buffers in somebody's hands. -/
structure Quiet (S : Nat × Nat → Prop) (L : List Nat) (m : Mem) (d : Disk) : Prop where
  cache : Cache S m d
  busy : ∀ i ∈ m.head, (m.buf i).busy = true → i ∈ L
  inHand : ∀ i ∈ L, Held m i

/-- No held buffer carries block `k`. -/
def NotHeld (L : List Nat) (m : Mem) (k : Nat × Nat) : Prop := ∀ i ∈ L, (m.buf i).key ≠ k

lemma notHeld_nil (m : Mem) (k : Nat × Nat) : NotHeld [] m k := fun i hi => absurd hi (by simp)

variable {S : Nat × Nat → Prop} {L : List Nat} {m m' : Mem} {d d' : Disk} {i : Nat}
  {k : Nat × Nat} {C : Disk → Prop} {H : Stop → Prop} {Q : Unit → Mem → Disk → Prop}

lemma Quiet.not_busy (h : Quiet S L m d) (hk : NotHeld L m k) (hi : i ∈ m.head)
    (hik : (m.buf i).key = k) : (m.buf i).busy = false := by
  by_contra hb
  exact hk i (h.busy i hi (by simpa using hb)) hik

lemma Quiet.ne_of_idle (h : Quiet S L m d) (hi : (m.buf i).busy = false) : i ∉ L := by
  intro hmem
  rw [(h.inHand i hmem).busy] at hi
  exact absurd hi.symm Bool.false_ne_true

/-- A buffer just read is one more in hand. -/
lemma Quiet.of_bread (h : Quiet S L m d) (hb : Bread S m d k i m') (hk : k ≠ nullKey) :
    Quiet S (i :: L) m' d ∧ i ∉ L := by
  have hni := h.ne_of_idle hb.idle
  refine ⟨⟨hb.cache, fun j hj hjb => ?_, fun j hj => ?_⟩, hni⟩
  · by_cases hji : j = i
    · exact hji ▸ List.mem_cons_self
    · rw [hb.other j hji] at hjb
      exact List.mem_cons_of_mem _ (h.busy j ((hb.mem_head j).mp hj) hjb)
  · rcases List.mem_cons.mp hj with rfl | hj
    · exact hb.held hk
    · exact (h.inHand j hj).upd hb.toUpd fun he => hni (he ▸ hj)

/-- A change of a buffer in hand. -/
lemma Quiet.upd (h : Quiet S L m d) (hc : Cache S m' d') (hmem : ∀ j, j ∈ m'.head ↔ j ∈ m.head)
    (hother : ∀ j, j ≠ i → m'.buf j = m.buf j) (hi : i ∈ L) (hi' : Held m' i) :
    Quiet S L m' d' := by
  refine ⟨hc, fun j hj hjb => ?_, fun j hj => ?_⟩
  · by_cases hji : j = i
    · exact hji ▸ hi
    · rw [hother j hji] at hjb
      exact h.busy j ((hmem j).mp hj) hjb
  by_cases hji : j = i
  · exact hji ▸ hi'
  · obtain ⟨h1, h2, h3, h4⟩ := h.inHand j hj
    refine ⟨(hmem j).mpr h1, ?_, ?_, ?_⟩ <;> rwa [hother j hji]

lemma Quiet.released (h : Quiet S (i :: L) m d) (hi : i ∉ L) (hr : Released S m d i m') :
    Quiet S L m' d := by
  refine ⟨hr.cache, fun j hj hjb => ?_, fun j hj => ?_⟩
  · by_cases hji : j = i
    · rw [hji, hr.buf] at hjb
      exact absurd hjb Bool.false_ne_true
    · rw [hr.other j hji] at hjb
      exact List.mem_of_ne_of_mem hji (h.busy j ((hr.mem_head j).mp hj) hjb)
  · exact (h.inHand j (List.mem_cons_of_mem _ hj)).upd hr.toUpd fun he => hi (he ▸ hj)

/-- With room for one more buffer than are held, a block that is on the device can be read. -/
lemma Quiet.ready (h : Quiet S L m d) (hk : NotHeld L m k)
    (hroom : Room m (L.length + 1)) (hlt : k.2 < d.nsecs k.1) : Ready m d k :=
  ready_of_recyclable (h.cache.exists_recyclable hroom L h.busy (Nat.lt_succ_self _)) hlt
    fun _ hi hik => h.not_busy hk hi hik

lemma Quiet.setLog (h : Quiet S L m d) (n : Nat) (l : Log) : Quiet S L (m.setLog n l) d :=
  ⟨h.cache.setLog n l, h.busy, fun j hj => by
    obtain ⟨h1, h2, h3, h4⟩ := h.inHand j hj
    exact ⟨h1, h2, h3, h4⟩⟩

/-- With nothing held, a block that is neither dirty nor stale is seen as it is on the card. -/
lemma Quiet.view_clean (h : Quiet S [] m d) (hs : ¬ S k) (hd : ¬ Dirty m k) :
    Bio.view m d k = d.block k.1 k.2 :=
  h.cache.view_of_not_dirty (fun _ hj hjk => h.not_busy (notHeld_nil m k) hj hjk) hs hd

/-- A buffer just read agrees with the card unless it is dirty or stale. -/
lemma Quiet.clean_of_bread (h : Quiet S L m d) (hk : NotHeld L m k) (hn : k ≠ nullKey)
    (hb : Bread S m d k i m') (hd : (m'.buf i).dirty = false) (hs : ¬ S (m'.buf i).key) :
    (m'.buf i).data = d.block (m'.buf i).dev (m'.buf i).blockno := by
  have hkey := hb.key
  rw [hb.data, h.cache.view_of_not_dirty (fun j hj hjk => h.not_busy hk hj hjk) (hkey ▸ hs), ← hkey]
  · rfl
  · rw [← hb.dirty k, ← hkey, hb.cache.dirty_iff (hb.held hn).mem (hb.held hn).key_ne, hd]
    exact Bool.false_ne_true

/-! ## Reading -/

/-- What every short sequence leaves alone. -/
structure Kept (S : Nat × Nat → Prop) (L : List Nat) (m m' : Mem) (d' : Disk) : Prop
    extends Quiet S L m' d' where
  mem_head : ∀ j, j ∈ m'.head ↔ j ∈ m.head
  length : m'.head.length = m.head.length
  keep : ∀ j ∈ L, m'.buf j = m.buf j

/-- The state after a block was read and released, with the logs changed to `log'`. -/
structure Peeked (S : Nat × Nat → Prop) (L : List Nat) (m : Mem) (d : Disk) (log' : Nat → Log)
    (m' : Mem) : Prop extends Kept S L m m' d where
  log : m'.log = log'
  view : ∀ k, ¬ S k → view m' d k = view m d k
  dirty : ∀ k, Dirty m' k ↔ Dirty m k

section reading

variable (hq : Quiet S L m d) (hk : k ≠ nullKey) (hnh : NotHeld L m k)
include hq hk hnh

/-- Releasing a buffer that was just read, with the logs changed in between. -/
lemma Quiet.brelse_read_wp {m1 m2 : Mem} (hb : Bread S m d k i m1) (hbuf : m2.buf = m1.buf)
    (hhead : m2.head = m1.head) (hC : C d)
    (hQ : ∀ m', Peeked S L m d m2.log m' → Q () m' d) : Wp (brelse i) m2 d Q C H := by
  obtain ⟨hq1, hni⟩ := hq.of_bread hb hk
  have hview : ∀ x, Bio.view m2 d x = Bio.view m1 d x := fun x => by
    unfold Bio.view cached
    rw [hbuf, hhead]
  have hdirty : ∀ x, Dirty m2 x ↔ Dirty m1 x := fun x => by
    unfold Dirty
    rw [hbuf, hhead]
  have hc2 : Cache S m2 d := by
    obtain ⟨h0, h1, h2, h3, h4⟩ := hb.cache
    exact ⟨h0, hhead ▸ h1, by rwa [hbuf, hhead], by rwa [hbuf, hhead], by rwa [hbuf, hhead]⟩
  have hq2 : Quiet S (i :: L) m2 d := by
    refine ⟨hc2, by rw [hbuf, hhead]; exact hq1.busy, fun j hj => ?_⟩
    obtain ⟨h1, h2, h3, h4⟩ := hq1.inHand j hj
    exact ⟨hhead ▸ h1, by rwa [hbuf], by rwa [hbuf], by rwa [hbuf]⟩
  refine brelse_wp hc2 (hq2.inHand i List.mem_cons_self) ?_ hC fun m3 hr => hQ m3 ?_
  · rw [hbuf]
    exact hq.clean_of_bread hnh hk hb
  refine ⟨⟨hq2.released hni hr, fun j => ?_, ?_, fun j hj => ?_⟩, hr.log, fun x hx => ?_,
    fun x => ?_⟩
  · rw [hr.mem_head, hhead, hb.mem_head]
  · rw [hr.length, hhead, hb.length]
  · have hji : j ≠ i := fun he => hni (he ▸ hj)
    rw [hr.other j hji, hbuf, hb.other j hji]
  · rw [hr.view x hx, hview, hb.view x hx]
  · rw [hr.dirty, hdirty, hb.dirty]

lemma Quiet.look_wp (hC : C d) (hQ : ∀ m', Peeked S L m d m.log m' → Q () m' d)
    (hH : ¬ (Room m (L.length + 1) ∧ k.2 < d.nsecs k.1) → ∀ e, H e) :
    Wp (do let i ← bread k.1 k.2; brelse i) m d Q C H := by
  refine .bind (bread_wp hq.cache hk hC (fun i m1 hb => ?_) fun hnr => hH fun h =>
    hnr (hq.ready hnh h.1 h.2))
  refine hq.brelse_read_wp hk hnh hb rfl rfl hC fun m' hp => hQ m' ?_
  rwa [hb.log] at hp

/-- Read a block, take something from it into the log in memory, release it. -/
lemma Quiet.peek_wp (n : Nat) (g : Mem → Block → Log) (hC : C d)
    (hg : ∀ m' x, m'.log = m.log → g m' x = g m x)
    (hQ : ∀ m', Peeked S L m d (m.setLog n (g m (view m d k))).log m' → Q () m' d)
    (hH : ¬ (Room m (L.length + 1) ∧ k.2 < d.nsecs k.1) → ∀ e, H e) :
    Wp (do
      let i ← bread k.1 k.2
      let x ← getData i
      Prog.modify fun m => m.setLog n (g m x)
      brelse i) m d Q C H := by
  refine .bind (bread_wp hq.cache hk hC (fun i m1 hb => ?_) fun hnr => hH fun h =>
    hnr (hq.ready hnh h.1 h.2))
  simp only [getData, wp_bind, wp_get, wp_pure, wp_modify]
  refine ⟨hC, hC, hC, hq.brelse_read_wp hk hnh hb (Mem.setLog_buf _ _ _) (Mem.setLog_head _ _ _) hC
    fun m' hp => hQ m' ?_⟩
  have hlog : (m1.setLog n (g m1 (m1.buf i).data)).log = (m.setLog n (g m (view m d k))).log := by
    rw [hb.data, hg m1 _ hb.log]
    simp only [Mem.setLog, hb.log]
  rwa [hlog] at hp

end reading

/-! ## Writing to the card -/

/-- The state after block `k` was written to the card with contents `x`. -/
structure Stored (S : Nat × Nat → Prop) (L : List Nat) (m : Mem) (d : Disk) (k : Nat × Nat)
    (x : Block) (m' : Mem) (d' : Disk) : Prop extends Kept S L m m' d' where
  log : m'.log = m.log
  disk : d' = d.set k.1 k.2 x
  view : ∀ k', ¬ S k' → view m' d' k' = if k' = k then x else view m d k'
  dirty : ∀ k', Dirty m' k' ↔ k' ≠ k ∧ Dirty m k'

/-- Read a block, change it, write it to the card, release it. -/
lemma Quiet.store_wp (hq : Quiet S L m d) (hk : k ≠ nullKey) (hnh : NotHeld L m k)
    (f : Block → Block) (hC : C d)
    (hC' : C (d.set k.1 k.2 (f (view m d k))))
    (hQ : ∀ m' d', Stored S L m d k (f (view m d k)) m' d' → Q () m' d')
    (hH : ¬ (Room m (L.length + 1) ∧ k.2 < d.nsecs k.1) → ∀ e, H e) :
    Wp (do let i ← bread k.1 k.2; modifyData i f; bwrite i; brelse i) m d Q C H := by
  refine .bind (bread_wp hq.cache hk hC (fun i m1 hb => ?_) fun hnr => hH fun h =>
    hnr (hq.ready hnh h.1 h.2))
  obtain ⟨hq1, hni⟩ := hq.of_bread hb hk
  have hi : Held m1 i := hb.held hk
  refine .bind (modifyData_wp hb.cache hi f hC fun m2 hm => ?_)
  have hdev : (m2.buf i).dev = k.1 := by rw [hm.buf]; exact congrArg Prod.fst hb.key
  have hbno : (m2.buf i).blockno = k.2 := by rw [hm.buf]; exact congrArg Prod.snd hb.key
  have hx : (m2.buf i).data = f (view m d k) := by rw [hm.buf, hb.data]
  have hq2 := hq1.upd hm.cache hm.mem_head hm.other List.mem_cons_self (hm.held hi)
  refine .bind (bwrite_wp hm.cache (hm.held hi) hC ?_ (fun m3 d' hw => ?_) ?_)
  · rwa [hx, hdev, hbno]
  swap
  · rw [hdev, hbno]
    exact fun hlt => hH fun h => hlt h.2
  have hd' : d' = d.set k.1 k.2 (f (view m d k)) := by
    rw [hw.disk, hx, hdev, hbno]
  have hq3 := hq2.upd hw.cache hw.mem_head hw.other List.mem_cons_self (hw.held (hm.held hi))
  refine brelse_wp hw.cache (hw.held (hm.held hi)) ?_ (hd' ▸ hC') fun m4 hr =>
    hQ m4 d' ⟨⟨hq3.released hni hr, fun j => ?_, ?_, fun j hj => ?_⟩, ?_, hd', fun k' hk' => ?_,
      fun k' => ?_⟩
  · intro _ _
    rw [hw.buf, hd']
    simp [hx, hdev, hbno]
  · rw [hr.mem_head, hw.mem_head, hm.mem_head, hb.mem_head]
  · rw [hr.length, hw.length, hm.length, hb.length]
  · have hji : j ≠ i := fun he => hni (he ▸ hj)
    rw [hr.other j hji, hw.other j hji, hm.other j hji, hb.other j hji]
  · rw [hr.log, hw.log, hm.log, hb.log]
  · rw [hr.view k' hk', hw.view k' hk', hm.view k' hk', hb.view k' hk', hb.key, hb.data]
  · rw [hr.dirty, hw.dirty, hm.dirty, hb.dirty, show (m2.buf i).key = k from Prod.ext hdev hbno]

/-- Two buffers just read, and no other held. -/
structure Pair (S : Nat × Nat → Prop) (m : Mem) (d : Disk) (k l : Nat × Nat) (i j : Nat)
    (m' : Mem) : Prop where
  cache : Cache S m' d
  busy : ∀ x ∈ m'.head, (m'.buf x).busy = true → x = i ∨ x = j
  first : Held m' i
  second : Held m' j
  ne : i ≠ j
  mem_head : ∀ x, x ∈ m'.head ↔ x ∈ m.head
  length : m'.head.length = m.head.length
  log : m'.log = m.log
  key : (m'.buf i).key = k
  key' : (m'.buf j).key = l
  data : (m'.buf i).data = Bio.view m d k
  data' : (m'.buf j).data = Bio.view m d l
  view : ∀ x, ¬ S x → Bio.view m' d x = Bio.view m d x
  dirty : ∀ x, Dirty m' x ↔ Dirty m x

lemma Pair.symm {l : Nat × Nat} {j : Nat} (h : Pair S m d k l i j m') :
    Pair S m d l k j i m' :=
  ⟨h.cache, fun x hx hb => (h.busy x hx hb).symm, h.second, h.first, h.ne.symm,
    h.mem_head, h.length, h.log, h.key', h.key, h.data', h.data, h.view, h.dirty⟩

/-- Two blocks in hand at a time, as `install_trans` and `write_log` have them. -/
lemma Quiet.bread_pair_wp (hq : Quiet S [] m d) {l : Nat × Nat} (hk : ¬ S k) (hl : ¬ S l)
    (hne : k ≠ l) {f : Nat → Nat → K Unit} (hC : C d)
    (hQ : ∀ i j m', Pair S m d k l i j m' → Wp (f i j) m' d Q C H)
    (hH : ¬ (Room m 2 ∧ k.2 < d.nsecs k.1 ∧ l.2 < d.nsecs l.1) → ∀ e, H e) :
    Wp (do let i ← bread k.1 k.2; let j ← bread l.1 l.2; f i j) m d Q C H := by
  have hkn := hq.cache.ne_null hk
  have hln := hq.cache.ne_null hl
  refine .bind (bread_wp hq.cache hkn hC (fun i m1 hb => ?_) fun hnr => hH fun h =>
    hnr (hq.ready (notHeld_nil m k) (h.1.mono (by simp)) h.2.1))
  obtain ⟨hq1, -⟩ := hq.of_bread hb hkn
  have hnl : NotHeld [i] m1 l := by
    intro x hx
    rw [List.mem_singleton.mp hx, hb.key]
    exact hne
  refine .bind (bread_wp hb.cache hln hC (fun j m2 hb' => ?_) fun hnr => hH fun h =>
    hnr (hq1.ready hnl (h.1.congr (fun x => (hb.dirty x).mp) hb.length) h.2.2))
  obtain ⟨hq2, hnj⟩ := hq1.of_bread hb' hln
  have hij : i ≠ j := fun he => hnj (by simp [he])
  refine hQ i j m2 ⟨hb'.cache, fun x hx hxb => ?_, (hb.held hkn).upd hb'.toUpd hij,
    hb'.held hln, hij,
    fun x => ?_, hb'.length.trans hb.length, hb'.log.trans hb.log, ?_, hb'.key, ?_, ?_,
    fun x hx => ?_, fun x => ?_⟩
  · have := hq2.busy x hx hxb
    simp only [List.mem_cons, List.not_mem_nil, or_false] at this
    exact this.symm
  · rw [hb'.mem_head, hb.mem_head]
  · rw [hb'.other i hij, hb.key]
  · rw [hb'.other i hij, hb.data]
  · rw [hb'.data, hb.view l hl]
  · rw [hb'.view x hx, hb.view x hx]
  · rw [hb'.dirty, hb.dirty]

/-- **`copyOut` writes the block of `dst` with what is seen in the block of `src`.** -/
lemma Quiet.copyOut_wp (hq : Quiet S [] m d) {ks kd : Nat × Nat} {src dst : Nat} {m1 : Mem}
    (hp : Pair S m d ks kd src dst m1) (hne : ks ≠ kd) (hC : C d)
    (hC' : C (d.set kd.1 kd.2 (view m d ks)))
    (hQ : ∀ m' d', Stored S [] m d kd (view m d ks) m' d' → Q () m' d')
    (hH : ¬ kd.2 < d.nsecs kd.1 → ∀ e, H e) : Wp (copyOut src dst) m1 d Q C H := by
  rw [copyOut, getData]
  simp only [wp_bind, wp_get, wp_pure]
  refine ⟨hC, hC, modifyData_wp hp.cache hp.second _ hC fun m2 hm => ?_⟩
  have hdst : Held m2 dst := hm.held hp.second
  have hdev : (m2.buf dst).dev = kd.1 := by rw [hm.buf]; exact congrArg Prod.fst hp.key'
  have hbno : (m2.buf dst).blockno = kd.2 := by rw [hm.buf]; exact congrArg Prod.snd hp.key'
  have hx : (m2.buf dst).data = view m d ks := by rw [hm.buf]; exact hp.data
  refine bwrite_wp hm.cache hdst hC ?_ (fun m3 d' hw => ?_) ?_
  · rwa [hx, hdev, hbno]
  swap
  · rwa [hdev, hbno]
  have hd' : d' = d.set kd.1 kd.2 (view m d ks) := by
    rw [hw.disk, hx, hdev, hbno]
  have hsrc1 : m3.buf src = m1.buf src := (hw.other src hp.ne).trans (hm.other src hp.ne)
  have hsrc : Held m3 src := (hp.first.upd hm.toUpd hp.ne).upd hw.toUpd hp.ne
  refine brelse_wp hw.cache hsrc ?_ (hd' ▸ hC') fun m4 hr => ?_
  · -- the source buffer is as it was read
    rw [hsrc1]
    intro hclean hs
    have hnd : ¬ Dirty m ks := by
      rw [← hp.dirty, ← hp.key, hp.cache.dirty_iff hp.first.mem hp.first.key_ne, hclean]
      exact Bool.false_ne_true
    rw [hp.data, hq.cache.view_of_not_dirty (fun j hj hjk => hq.not_busy (notHeld_nil m ks) hj hjk)
      (hp.key ▸ hs) hnd, hd', Disk.set_block_of_ne, ← hp.key]
    · rfl
    · rintro ⟨h1, h2⟩
      exact hne (hp.key.symm.trans (Prod.ext h1 h2))
  have hdst4 : m4.buf dst = { m2.buf dst with dirty := false } :=
    (hr.other dst hp.ne.symm).trans hw.buf
  have hdst' : Held m4 dst := (hw.held hdst).upd hr.toUpd hp.ne.symm
  refine brelse_wp hr.cache hdst' ?_ (hd' ▸ hC') fun m5 hr' =>
    hQ m5 d' ⟨⟨⟨hr'.cache, ?_, ?_⟩, ?_, ?_, ?_⟩, ?_, hd', ?_, ?_⟩
  · intro _ _
    rw [hdst4, hd']
    simp [hx, hdev, hbno]
  · intro y hy hyb
    exfalso
    by_cases hyd : y = dst
    · rw [hyd, hr'.buf] at hyb
      exact absurd hyb Bool.false_ne_true
    rw [hr'.other y hyd] at hyb
    by_cases hys : y = src
    · rw [hys, hr.buf] at hyb
      exact absurd hyb Bool.false_ne_true
    rw [hr.other y hys, hw.other y hyd, hm.other y hyd] at hyb
    have hy1 : y ∈ m1.head := (hm.mem_head y).mp ((hw.mem_head y).mp ((hr.mem_head y).mp
      ((hr'.mem_head y).mp hy)))
    exact (hp.busy y hy1 hyb).elim hys hyd
  · exact fun j hj => absurd hj (by simp)
  · intro j
    rw [hr'.mem_head, hr.mem_head, hw.mem_head, hm.mem_head, hp.mem_head]
  · rw [hr'.length, hr.length, hw.length, hm.length, hp.length]
  · exact fun j hj => absurd hj (by simp)
  · rw [hr'.log, hr.log, hw.log, hm.log, hp.log]
  · intro k hk
    rw [hr'.view k hk, hr.view k hk, hw.view k hk, hm.view k hk, hp.view k hk, hp.key', hp.data]
  · intro k
    rw [hr'.dirty, hr.dirty, hw.dirty, hm.dirty, hp.dirty,
      show (m2.buf dst).key = kd from Prod.ext hdev hbno]

/-! ## Changing a block under the log's protection -/

/-- `log_write` accepts another block. -/
def Accepts (l : Log) : Prop :=
  l.lh.length < logsize ∧ l.lh.length + 1 < l.size ∧ 1 ≤ l.outstanding

/-- The logs after a block of device `k.1` was logged. -/
def loggedLog (m : Mem) (k : Nat × Nat) : Nat → Log :=
  (m.setLog k.1 { m.log k.1 with lh := absorb (m.log k.1).lh k.2 }).log

/-- The state after a held buffer was passed to `log_write`. -/
structure Logged (S : Nat × Nat → Prop) (m : Mem) (d : Disk) (i : Nat) (m' : Mem) : Prop where
  accepts : Accepts (m.log (m.buf i).dev)
  cache : Cache S m' d
  mem_head : ∀ j, j ∈ m'.head ↔ j ∈ m.head
  length : m'.head.length = m.head.length
  log : m'.log = loggedLog m (m.buf i).key
  other : ∀ j, j ≠ i → m'.buf j = m.buf j
  buf : m'.buf i = { m.buf i with dirty := true }
  view : ∀ k, ¬ S k → view m' d k = view m d k
  dirty : ∀ k, Dirty m' k ↔ k = (m.buf i).key ∨ Dirty m k

/-- `log_write`: the block is in the header, and its buffer stays in the cache. -/
lemma logWrite_wp (hc : Cache S m d) (hi : Held m i) (hact : Active m (m.buf i).dev)
    (hC : C d) (hQ : ∀ m', Logged S m d i m' → Q () m' d)
    (hH : ¬ Accepts (m.log (m.buf i).dev) → ∀ e, H e) : Wp (logWrite i) m d Q C H := by
  rw [logWrite, wp_bind, wp_get]
  refine ⟨hC, ?_⟩
  rw [if_neg (not_not.mpr hact)]
  split
  · next h =>
    rw [wp_stop]
    refine ⟨hC, hH (fun ha => ?_) _⟩
    obtain ⟨h1, h2, -⟩ := ha
    omega
  next hfull =>
  split
  · next h =>
    rw [wp_stop]
    refine ⟨hC, hH (fun ha => ?_) _⟩
    have := ha.2.2
    omega
  next hout =>
  have hacc : Accepts (m.log (m.buf i).dev) := ⟨by omega, by omega, by omega⟩
  have hfit : Fits m i { m.buf i with dirty := true } := hc.fits_same hi.mem rfl hi.key_ne hi.valid
  have hcl : { m.buf i with dirty := true }.busy = false →
      { m.buf i with dirty := true }.dirty = false → ¬ S (m.buf i).key →
      { m.buf i with dirty := true }.data = d.block (m.buf i).dev (m.buf i).blockno :=
    fun _ h => absurd h.symm Bool.false_ne_true
  have hc' := hc.setBuf hfit (fun _ _ => rfl) hcl
  rw [wp_modify]
  refine ⟨hC, hQ _ ⟨hacc, ⟨hc'.null, hc'.nodup, hc'.uniq, hc'.clean, hc'.dirty_valid⟩,
    fun _ => Iff.rfl, rfl, rfl,
    fun j hj => Mem.setBuf_of_ne hj, Mem.setBuf_self _ _ _, fun k hk => ?_, fun k => ?_⟩⟩
  · have := hc.view_setBuf hfit (fun _ _ => rfl) hcl hk
    refine (show view _ d k = _ from this).trans ?_
    split
    · next h =>
      subst h
      exact (hc.view_of_mem hi.mem rfl hi.key_ne hi.valid).symm
    · rfl
  · refine (show Dirty _ k ↔ _ from hfit.dirty_setBuf k).trans ?_
    change (if k = (m.buf i).key then true = true else Dirty m k) ↔ _
    split <;> simp_all

lemma Logged.held (h : Logged S m d i m') (hi : Held m i) : Held m' i :=
  ⟨(h.mem_head i).mpr hi.mem, h.buf ▸ hi.busy, h.buf ▸ hi.valid, h.buf ▸ hi.key_ne⟩

/-- The state after block `k` was changed to `x` and logged. -/
structure Changed (S : Nat × Nat → Prop) (L : List Nat) (m : Mem) (d : Disk) (k : Nat × Nat)
    (x : Block) (m' : Mem) : Prop extends Kept S L m m' d where
  accepts : Accepts (m.log k.1)
  log : m'.log = loggedLog m k
  view : ∀ k', ¬ S k' → view m' d k' = if k' = k then x else view m d k'
  dirty : ∀ k', Dirty m' k' ↔ k' = k ∨ Dirty m k'

/-- The end of a change: log the block and release it. -/
lemma Quiet.finish_wp (hq : Quiet S L m d) (hk : k ≠ nullKey) (hact : Active m k.1)
    {m1 m2 : Mem} {x : Block} (hb : Bread S m d k i m1) (hm : Modified S m1 d i x m2)
    (hC : C d) (hQ : ∀ m', Changed S L m d k x m' → Q () m' d)
    (hH : ¬ Accepts (m.log k.1) → ∀ e, H e) :
    Wp (do logWrite i; brelse i) m2 d Q C H := by
  obtain ⟨hq1, hni⟩ := hq.of_bread hb hk
  have hi : Held m1 i := hb.held hk
  have hkey : (m2.buf i).key = k := by rw [hm.buf]; exact hb.key
  have hdev : (m2.buf i).dev = k.1 := congrArg Prod.fst hkey
  have hlog : m2.log = m.log := hm.log.trans hb.log
  have hq2 := hq1.upd hm.cache hm.mem_head hm.other List.mem_cons_self (hm.held hi)
  refine .bind (logWrite_wp hm.cache (hm.held hi) ?_ hC (fun m3 hl => ?_) ?_)
  · rw [hdev, Active, hlog]
    exact hact
  swap
  · rwa [hdev, hlog]
  have hq3 := hq2.upd hl.cache hl.mem_head hl.other List.mem_cons_self (hl.held (hm.held hi))
  refine brelse_wp hl.cache (hl.held (hm.held hi)) ?_ hC fun m4 hr =>
    hQ m4 ⟨⟨hq3.released hni hr, fun j => ?_, ?_, fun j hj => ?_⟩, ?_, ?_, fun k' hk' => ?_,
      fun k' => ?_⟩
  · rw [hl.buf]
    exact fun h => absurd h.symm Bool.false_ne_true
  · rw [hr.mem_head, hl.mem_head, hm.mem_head, hb.mem_head]
  · rw [hr.length, hl.length, hm.length, hb.length]
  · have hji : j ≠ i := fun he => hni (he ▸ hj)
    rw [hr.other j hji, hl.other j hji, hm.other j hji, hb.other j hji]
  · have hacc := hl.accepts
    rwa [hdev, hlog] at hacc
  · rw [hr.log, hl.log, hkey]
    simp only [loggedLog, Mem.setLog, hlog]
  · rw [hr.view k' hk', hl.view k' hk', hm.view k' hk', hb.view k' hk', hb.key]
  · rw [hr.dirty, hl.dirty, hm.dirty, hb.dirty, hkey]

/-- **Read a block, change it, log it and release it.** Nothing reaches the card. -/
lemma Quiet.change_wp (hq : Quiet S L m d) (hk : k ≠ nullKey) (hnh : NotHeld L m k)
    (hact : Active m k.1) (f : Block → Block) (hC : C d)
    (hQ : ∀ m', Changed S L m d k (f (view m d k)) m' → Q () m' d)
    (hH : ¬ (Room m (L.length + 1) ∧ k.2 < d.nsecs k.1 ∧ Accepts (m.log k.1)) → ∀ e, H e) :
    Wp (do let i ← bread k.1 k.2; modifyData i f; logWrite i; brelse i) m d Q C H := by
  refine .bind (bread_wp hq.cache hk hC (fun i m1 hb => ?_) fun hnr => hH fun h =>
    hnr (hq.ready hnh h.1 h.2.1))
  refine .bind (modifyData_wp hb.cache (hb.held hk) f hC fun m2 hm => ?_)
  refine hq.finish_wp hk hact hb (hb.data ▸ hm) hC hQ fun hno => hH fun h => hno h.2.2

end RpiOs.RedoLog
