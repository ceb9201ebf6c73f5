import Mathlib.Data.List.GetD
import RpiOs.RedoLog.Block

/-!
# What a card promises, and how a commit keeps it

`Pending g d S` says that recovery from the card `d` gives the home blocks the contents `S`: every
block the header lists has its new contents in the log, every other home block has them already.
It is the crash condition of the whole development.

* `commit_wp`: at every write of a commit the card promises the old or the new contents, and when
  the commit has returned it holds the new ones.
-/

namespace RpiOs.RedoLog

open Lib Kernel Bio

/-! ## The header -/

variable (b : Block)

/-- A header that was written is read back. -/
lemma decodeHead_encodeHead (lh : List Nat) (hlen : lh.length < 2 ^ 31)
    (hlt : ∀ x ∈ lh, x < 2 ^ 32) : decodeHead (encodeHead b lh) = lh := by
  have hn : (int32 (word (encodeHead b lh) 0)).toNat = lh.length := by
    rw [encodeHead, word_setWords_lt _ _ _ (by omega), word_setWord_self,
      Nat.mod_eq_of_lt (by omega), int32, if_pos hlen]
    rfl
  rw [decodeHead, hn]
  refine List.ext_getElem (by simp) fun i h1 h2 => ?_
  have hw := word_setWords (setWord b 0 lh.length) 1 lh i h2
  rw [List.getElem_map, List.getElem_range, Nat.add_comm i 1]
  exact hw.trans (Nat.mod_eq_of_lt (hlt _ (List.getElem_mem h2)))

lemma decodeHead_encodeHead_nil : decodeHead (encodeHead b []) = [] :=
  decodeHead_encodeHead b [] (by simp) (by simp)

/-! ## Layout of a log -/

/-- Where a log lies. Device 0 is the boot partition, which is never mounted.
Source: `initlog`; `kern/file.c` `mount` -/
structure Layout where
  dev : Nat
  start : Nat
  size : Nat
  dev_ne : dev ≠ 0
  dev_lt : dev < nlog
  size_pos : 0 < size

lemma one_lt_nlog : 1 < nlog := by decide

namespace Layout

variable (g : Layout)

/-- The blocks of the log itself. -/
def InLog (b : Nat) : Prop := g.start ≤ b ∧ b < g.start + g.size

instance (b : Nat) : Decidable (g.InLog b) := inferInstanceAs (Decidable (_ ∧ _))

/-- The log fits on its device, and block numbers fit in 32 bits. -/
def On (d : Disk) : Prop := g.start + g.size ≤ d.nsecs g.dev ∧ d.nsecs g.dev < 2 ^ 32

/-- A block of the device outside the log. -/
def Home (d : Disk) (b : Nat) : Prop := ¬ g.InLog b ∧ b < d.nsecs g.dev

/-- The block numbers listed by the header on the card. -/
def header (d : Disk) : List Nat := decodeHead (d.block g.dev g.start)

variable {g} {b : Nat}

lemma key_ne (b : Nat) : (g.dev, b) ≠ nullKey := fun h => g.dev_ne (congrArg Prod.fst h)

lemma start_inLog : g.InLog g.start := ⟨Nat.le_refl _, Nat.lt_add_of_pos_right g.size_pos⟩

lemma body_inLog {j : Nat} (hj : j + 1 < g.size) : g.InLog (g.start + j + 1) :=
  ⟨by omega, by omega⟩

lemma Home.ne_start {d : Disk} (h : g.Home d b) : b ≠ g.start :=
  fun he => h.1 (he ▸ start_inLog)

lemma header_set_of_ne (d : Disk) (x : Block) (hb : b ≠ g.start) :
    g.header (d.set g.dev b x) = g.header d := by
  rw [header, header, Disk.set_block_of_ne]
  exact fun h => hb h.2.symm

lemma block_set_start (d : Disk) (x : Block) (hb : ¬ g.InLog b) :
    (d.set g.dev g.start x).block g.dev b = d.block g.dev b := by
  refine d.set_block_of_ne x fun he => hb ?_
  rw [he.2]
  exact start_inLog

end Layout

/-- Recovery from `d` gives the home blocks the contents `S`. -/
structure Pending (g : Layout) (d : Disk) (S : Nat → Block) : Prop where
  on : g.On d
  length : (g.header d).length < g.size
  home : ∀ b ∈ g.header d, g.Home d b
  logged : ∀ j, (hj : j < (g.header d).length) →
    d.block g.dev (g.start + j + 1) = S ((g.header d)[j])
  rest : ∀ b, ¬ g.InLog b → b ∉ g.header d → d.block g.dev b = S b

/-- The log in memory is the enabled one, and the only one. -/
structure Mounted (g : Layout) (m : Mem) : Prop where
  start : (m.log g.dev).start = g.start
  size : (m.log g.dev).size = g.size
  dev : (m.log g.dev).dev = g.dev
  enabled : (m.log g.dev).enabled = true
  others : ∀ i, i ≠ g.dev → (m.log i).enabled = false

variable {g : Layout} {m m' : Mem} {d d' : Disk} {S : Nat → Block} {C : Disk → Prop}
  {H : Stop → Prop} {Q : Unit → Mem → Disk → Prop}

lemma Mounted.active (h : Mounted g m) : Active m g.dev :=
  ⟨g.dev_lt, h.enabled⟩

lemma Mounted.of_log (h : Mounted g m) {n : Int} {c : Bool} {lh : List Nat}
    (hlog : m'.log g.dev = { m.log g.dev with outstanding := n, committing := c, lh := lh })
    (hothers : ∀ i, i ≠ g.dev → (m'.log i).enabled = (m.log i).enabled) : Mounted g m' := by
  refine ⟨?_, ?_, ?_, ?_, fun i hi => (hothers i hi).trans (h.others i hi)⟩ <;> rw [hlog]
  exacts [h.start, h.size, h.dev, h.enabled]

lemma Mounted.setLog (h : Mounted g m) (n : Int) (c : Bool) (lh : List Nat) :
    Mounted g (m.setLog g.dev { m.log g.dev with outstanding := n, committing := c, lh := lh }) :=
  h.of_log (Mem.setLog_self ..) fun i hi => by rw [Mem.setLog_of_ne hi]

lemma Mounted.congr (h : Mounted g m) (hl : m'.log = m.log) :
    Mounted g m' :=
  h.of_log (by rw [hl]) fun _ _ => by rw [hl]

/-- Installing one block of the header again changes nothing that is promised. -/
lemma Pending.set_home (h : Pending g d S) {b : Nat} (hb : b ∈ g.header d) :
    Pending g (d.set g.dev b (S b)) S := by
  obtain ⟨hin, -⟩ := h.home b hb
  have hh := Layout.header_set_of_ne d (S b) (h.home b hb).ne_start
  refine ⟨h.on, hh ▸ h.length, fun x hx => h.home x (hh ▸ hx), ?_, ?_⟩
  · intro j hj
    have hj' : j < (g.header d).length := by rwa [hh] at hj
    simp only [hh]
    rw [Disk.set_block_of_ne, h.logged j hj']
    rintro ⟨-, he⟩
    exact hin (he ▸ Layout.body_inLog (by have := h.length; omega))
  intro x hx hxb
  rw [hh] at hxb
  rw [Disk.set_block_of_ne, h.rest x hx hxb]
  rintro ⟨-, rfl⟩
  exact hxb hb

lemma pending_of_nil (hon : g.On d) (hnil : g.header d = [])
    (hrest : ∀ b, ¬ g.InLog b → d.block g.dev b = S b) : Pending g d S := by
  refine ⟨hon, ?_, ?_, ?_, fun b hb _ => hrest b hb⟩
  · rw [hnil]
    exact g.size_pos
  · simp [hnil]
  · intro j hj
    simp [hnil] at hj

lemma Pending.home_eq (h : Pending g d S) (hnil : g.header d = []) {b : Nat}
    (hb : ¬ g.InLog b) : d.block g.dev b = S b := h.rest b hb (by simp [hnil])

/-! ## Installing -/

section install

variable (hmt : Mounted g m) (hC : ∀ d', d'.nsecs = d.nsecs → Pending g d' S → C d')
  (hH : ¬ Room m 2 → ∀ e, H e)

/-- The invariant of the loop of `install_trans`, with `j` rounds done. -/
structure Installing (g : Layout) (m : Mem) (d : Disk) (S : Nat → Block) (j : Nat) (m' : Mem)
    (d' : Disk) : Prop extends Quiet unused [] m' d' where
  length : m'.head.length = m.head.length
  log : m'.log = m.log
  pending : Pending g d' S
  nsecs : d'.nsecs = d.nsecs
  header : g.header d' = (m.log g.dev).lh
  done : ∀ i, (hi : i < (m.log g.dev).lh.length) → i < j →
    d'.block g.dev ((m.log g.dev).lh[i]) = S ((m.log g.dev).lh[i])
  dirty : ∀ k, Dirty m' k → Dirty m k ∧
    ∀ i, (hi : i < (m.log g.dev).lh.length) → i < j → k ≠ (g.dev, (m.log g.dev).lh[i])

include hmt hC hH

/-- One round of `install_trans`. -/
lemma installBlock_wp (hdirty : ∀ k, Dirty m k → ∃ b, ¬ g.InLog b ∧ k = (g.dev, b)) {j : Nat}
    (hj : j < (m.log g.dev).lh.length) (h : Installing g m d S j m' d') :
    Wp (installBlock g.dev j) m' d' (fun _ => Installing g m d S (j + 1)) C H := by
  have hj' : j < (g.header d').length := by rwa [h.header]
  have hlast : (g.header d')[j] = (m.log g.dev).lh[j] := by simp [h.header]
  have hb := h.pending.home _ (List.getElem_mem hj')
  rw [hlast] at hb
  have hlen := h.pending.length
  have hin : g.InLog (g.start + j + 1) := Layout.body_inLog (by omega)
  have hne : (g.dev, g.start + j + 1) ≠ (g.dev, (m.log g.dev).lh[j]) := by
    intro he
    exact hb.1 ((Prod.mk.inj he).2 ▸ hin)
  have hlt : g.start + j + 1 < d'.nsecs g.dev := by
    have := h.pending.on.1
    have := hin.2
    omega
  -- the log block is clean, so the cache shows what the header promises
  have hview : view m' d' (g.dev, g.start + j + 1) = S ((m.log g.dev).lh[j]) := by
    rw [h.view_clean (Layout.key_ne _), h.pending.logged j hj', hlast]
    intro hd
    obtain ⟨b, hbin, he⟩ := hdirty _ (h.dirty _ hd).1
    exact hbin ((Prod.mk.inj he).2 ▸ hin)
  have hCd : C d' := hC d' h.nsecs h.pending
  have hset : Pending g (d'.set g.dev ((m.log g.dev).lh[j]) (S ((m.log g.dev).lh[j]))) S := by
    refine h.pending.set_home ?_
    rw [h.header]
    exact List.getElem_mem hj
  have hroom : ¬ (Room m' 2 ∧ g.start + j + 1 < d'.nsecs g.dev ∧
      (m.log g.dev).lh[j] < d'.nsecs g.dev) → ∀ e, H e := by
    intro hno
    refine hH fun hr => hno ⟨hr.congr (fun k hk => (h.dirty k hk).1) h.length, hlt, hb.2⟩
  rw [installBlock, wp_bind, wp_get]
  refine ⟨hCd, ?_⟩
  simp only [h.log, hmt.start, hmt.dev]
  rw [List.getD_eq_getElem _ _ hj]
  refine h.toQuiet.bread_pair_wp (k := (g.dev, g.start + j + 1)) (l := (g.dev, (m.log g.dev).lh[j]))
    (Layout.key_ne _) (Layout.key_ne _) hne hCd (fun i i' m1 hp => ?_) hroom
  refine h.toQuiet.copyOut_wp hp hne hCd ?_ (fun m2 d2 hs => ?_) fun hno => absurd hb.2 hno
  · rw [hview]
    exact hC _ h.nsecs hset
  rw [hview] at hs
  obtain rfl := hs.disk
  refine ⟨hs.toQuiet, hs.length.trans h.length, hs.log.trans h.log, hset, h.nsecs,
    (Layout.header_set_of_ne _ _ hb.ne_start).trans h.header, ?_, ?_⟩
  · intro i hi hij
    rw [Disk.set_block]
    split
    · next he => rw [he.2]
    · next he =>
      have : i ≠ j := by
        rintro rfl
        exact he ⟨rfl, rfl⟩
      exact h.done i hi (by omega)
  · intro k hk
    obtain ⟨hkj, hk⟩ := (hs.dirty k).mp hk
    refine ⟨(h.dirty k hk).1, fun i hi hij => ?_⟩
    by_cases he : i = j
    · subst he
      exact hkj
    · exact (h.dirty k hk).2 i hi (by omega)

/-- **Installing keeps the promise at every write and fulfils it.** -/
lemma installTrans_wp (hq : Quiet unused [] m d) (hp : Pending g d S)
    (hhead : g.header d = (m.log g.dev).lh)
    (hdirty : ∀ k, Dirty m k → ∃ b ∈ (m.log g.dev).lh, k = (g.dev, b))
    (hQ : ∀ m' d', Quiet unused [] m' d' → m'.head.length = m.head.length → m'.log = m.log →
      d'.nsecs = d.nsecs → Pending g d' S → (∀ b, ¬ g.InLog b → d'.block g.dev b = S b) →
      (∀ k, ¬ Dirty m' k) → Q () m' d') : Wp (installTrans g.dev) m d Q C H := by
  have hhome : ∀ k, Dirty m k → ∃ b, ¬ g.InLog b ∧ k = (g.dev, b) := by
    intro k hk
    obtain ⟨b, hb, rfl⟩ := hdirty k hk
    exact ⟨b, (hp.home b (hhead ▸ hb)).1, rfl⟩
  have h0 : Installing g m d S 0 m d :=
    ⟨hq, rfl, rfl, hp, rfl, hhead, fun i _ hi => absurd hi (Nat.not_lt_zero i),
      fun k hk => ⟨hk, fun i _ hi => absurd hi (Nat.not_lt_zero i)⟩⟩
  rw [installTrans, wp_bind, wp_get, if_pos hmt.active]
  refine ⟨hC d rfl hp, ?_⟩
  have hloop := wp_loop (v := m) (d := d) (C := C) (H := H) (installBlock g.dev)
    (Installing g m d S) 0 (m.log g.dev).lh.length (fun v d' h => hC d' h.nsecs h.pending)
    (fun j m' d' _ hj h => installBlock_wp hmt hC hH hhome (by omega) h) h0
  refine hloop.imp fun _ m' d' h => ?_
  rw [Nat.zero_add] at h
  refine hQ m' d' h.toQuiet h.length h.log h.nsecs h.pending ?_ ?_
  · intro b hb
    by_cases hbl : b ∈ (m.log g.dev).lh
    · obtain ⟨i, hi, rfl⟩ := List.getElem_of_mem hbl
      exact h.done i hi hi
    · exact h.pending.rest b hb (h.header ▸ hbl)
  intro k hk
  obtain ⟨hk, hno⟩ := h.dirty k hk
  obtain ⟨b, hb, rfl⟩ := hdirty k hk
  obtain ⟨i, hi, rfl⟩ := List.getElem_of_mem hb
  exact hno i hi hi rfl

end install

/-! ## Writing the log -/

/-- The invariant of the loop of `write_log`, with `j` rounds done. -/
structure Logging (g : Layout) (m : Mem) (d : Disk) (j : Nat) (m' : Mem) (d' : Disk) : Prop
    extends Quiet unused [] m' d' where
  length : m'.head.length = m.head.length
  log : m'.log = m.log
  nsecs : d'.nsecs = d.nsecs
  outside : ∀ b, ¬ g.InLog b ∨ b = g.start → d'.block g.dev b = d.block g.dev b
  done : ∀ i, (hi : i < (m.log g.dev).lh.length) → i < j →
    d'.block g.dev (g.start + i + 1) = view m d (g.dev, (m.log g.dev).lh[i])
  view : ∀ b, ¬ g.InLog b → view m' d' (g.dev, b) = view m d (g.dev, b)
  dirty : ∀ k, Dirty m' k ↔ Dirty m k

/-- As long as the header is empty, nothing in the body of the log matters. -/
lemma Logging.pending {j : Nat} (h : Logging g m d j m' d')
    (hp : Pending g d S) (hnil : g.header d = []) : g.header d' = [] ∧ Pending g d' S := by
  have hh : g.header d' = [] := by rw [Layout.header, h.outside _ (Or.inr rfl)]; exact hnil
  refine ⟨hh, pending_of_nil ?_ hh fun b hb => ?_⟩
  · rw [Layout.On, h.nsecs]
    exact hp.on
  · rw [h.outside b (Or.inl hb), hp.home_eq hnil hb]

/-- What a transaction has collected when it commits. -/
structure Collected (g : Layout) (m : Mem) (d : Disk) : Prop where
  length : (m.log g.dev).lh.length < g.size
  small : (m.log g.dev).lh.length ≤ logsize
  home : ∀ b ∈ (m.log g.dev).lh, g.Home d b
  dirty : ∀ k, Dirty m k ↔ ∃ b ∈ (m.log g.dev).lh, k = (g.dev, b)

lemma Collected.setLog (h : Collected g m d) (n : Int) (c : Bool) :
    Collected g (m.setLog g.dev { m.log g.dev with outstanding := n, committing := c }) d :=
  ⟨by simpa using h.length, by simpa using h.small, by simpa using h.home, by simpa using h.dirty⟩

lemma Collected.not_dirty_inLog (h : Collected g m d) {b : Nat} (hb : g.InLog b) :
    ¬ Dirty m (g.dev, b) := by
  intro hd
  obtain ⟨b', hb', he⟩ := (h.dirty _).mp hd
  exact (h.home b' hb').1 ((Prod.mk.inj he).2 ▸ hb)

section

variable (hmt : Mounted g m) (hcol : Collected g m d) (hp : Pending g d S) (hnil : g.header d = [])
  (hC : ∀ d', d'.nsecs = d.nsecs → Pending g d' S → C d') (hH : ¬ Room m 2 → ∀ e, H e)
include hmt hcol hp hnil hC hH

/-- One round of `write_log`. -/
lemma writeLogBlock_wp {j : Nat} (hj : j < (m.log g.dev).lh.length) (h : Logging g m d j m' d') :
    Wp (writeLogBlock g.dev j) m' d' (fun _ => Logging g m d (j + 1)) C H := by
  have hb := hcol.home _ (List.getElem_mem hj)
  have hlen := hcol.length
  have hin : g.InLog (g.start + j + 1) := Layout.body_inLog (by omega)
  have hne : (g.dev, (m.log g.dev).lh[j]) ≠ (g.dev, g.start + j + 1) := by
    intro he
    exact hb.1 ((Prod.mk.inj he).2 ▸ hin)
  have hlt : g.start + j + 1 < d'.nsecs g.dev := by
    have := hp.on.1
    have := hin.2
    rw [h.nsecs]
    omega
  have hview := h.view _ hb.1
  have hCd : C d' := hC d' h.nsecs (h.pending hp hnil).2
  -- the state after the write is one round further
  have hnext : ∀ m2 d2, Stored unused [] m' d' (g.dev, g.start + j + 1)
      (view m d (g.dev, (m.log g.dev).lh[j])) m2 d2 → Logging g m d (j + 1) m2 d2 := by
    intro m2 d2 hs
    obtain rfl := hs.disk
    refine ⟨hs.toQuiet, hs.length.trans h.length, hs.log.trans h.log, h.nsecs, ?_, ?_, ?_, ?_⟩
    · intro b hb
      rw [Disk.set_block_of_ne, h.outside b hb]
      rintro ⟨-, rfl⟩
      rcases hb with hb | hb
      · exact hb hin
      · omega
    · intro i hi hij
      rw [Disk.set_block]
      split
      · next he =>
        have : i = j := by
          have := he.2
          omega
        subst this
        rfl
      · next he =>
        have : i ≠ j := by
          rintro rfl
          exact he ⟨rfl, rfl⟩
        exact h.done i hi (by omega)
    · intro b hb
      rw [hs.view _ (Layout.key_ne b), if_neg, h.view b hb]
      intro he
      exact hb ((Prod.mk.inj he).2 ▸ hin)
    · intro k
      rw [hs.dirty, h.dirty]
      refine and_iff_right_of_imp fun hk he => hcol.not_dirty_inLog hin (he ▸ hk)
  have hset : C (d'.set g.dev (g.start + j + 1)
      (view m d (g.dev, (m.log g.dev).lh[j]))) := by
    refine hC _ h.nsecs
      (pending_of_nil (by rw [Layout.On, Disk.set_nsecs, h.nsecs]; exact hp.on) ?_ ?_)
    · rw [Layout.header_set_of_ne _ _ (by omega)]
      exact (h.pending hp hnil).1
    intro b hb
    rw [Disk.set_block_of_ne, h.outside b (Or.inl hb), hp.home_eq hnil hb]
    rintro ⟨-, rfl⟩
    exact hb hin
  have hroom : ¬ (Room m' 2 ∧ g.start + j + 1 < d'.nsecs g.dev ∧
      (m.log g.dev).lh[j] < d'.nsecs g.dev) → ∀ e, H e := by
    intro hno
    refine hH fun hr => hno ⟨hr.congr (fun k hk => (h.dirty k).mp hk) h.length, hlt, ?_⟩
    rw [h.nsecs]
    exact hb.2
  rw [writeLogBlock, wp_bind, wp_get]
  refine ⟨hCd, ?_⟩
  simp only [h.log, hmt.start, hmt.dev]
  rw [List.getD_eq_getElem _ _ hj]
  refine h.toQuiet.bread_pair_wp (k := (g.dev, g.start + j + 1)) (l := (g.dev, (m.log g.dev).lh[j]))
    (Layout.key_ne _) (Layout.key_ne _) hne.symm hCd (fun i i' m1 hp' => ?_) hroom
  refine h.toQuiet.copyOut_wp hp'.symm hne hCd ?_ (fun m2 d2 hs => ?_) fun hno => absurd hlt hno
  · rw [hview]
    exact hset
  · rw [hview] at hs
    exact hnext m2 d2 hs

/-- **Writing the log changes nothing the card promises.** -/
lemma writeLog_wp (hq : Quiet unused [] m d) (hQ :
    ∀ m' d', Logging g m d (m.log g.dev).lh.length m' d' → Q () m' d') :
    Wp (writeLog g.dev) m d Q C H := by
  have h0 : Logging g m d 0 m d :=
    ⟨hq, rfl, rfl, rfl, fun _ _ => rfl, fun i _ hi => absurd hi (Nat.not_lt_zero i),
      fun _ _ => rfl, fun _ => Iff.rfl⟩
  rw [writeLog, wp_bind, wp_get, if_pos hmt.active]
  refine ⟨hC d rfl hp, ?_⟩
  have hloop := wp_loop (v := m) (d := d) (C := C) (H := H) (writeLogBlock g.dev)
    (Logging g m d) 0 (m.log g.dev).lh.length
    (fun v d' h => hC d' h.nsecs (h.pending hp hnil).2)
    (fun j m' d' _ hj h => writeLogBlock_wp hmt hcol hp hnil hC hH (by omega) h) h0
  refine hloop.imp fun _ m' d' h => hQ m' d' ?_
  rwa [Nat.zero_add] at h

end

/-- `write_head` stores the header that is in memory. -/
lemma writeHead_wp (hq : Quiet unused [] m d) (hmt : Mounted g m) (hon : g.On d)
    (hclean : ¬ Dirty m (g.dev, g.start)) (hCd : C d)
    (hC : C (d.set g.dev g.start (encodeHead (d.block g.dev g.start) (m.log g.dev).lh)))
    (hH : ¬ Room m 1 → ∀ e, H e)
    (hQ : ∀ m' d', Stored unused [] m d (g.dev, g.start)
      (encodeHead (d.block g.dev g.start) (m.log g.dev).lh) m' d' → Q () m' d') :
    Wp (writeHead g.dev) m d Q C H := by
  have hview : view m d (g.dev, g.start) = d.block g.dev g.start :=
    hq.view_clean (Layout.key_ne _) hclean
  have hlt : g.start < d.nsecs g.dev := by
    have := hon.1
    have := g.size_pos
    omega
  rw [writeHead, wp_bind, wp_get, if_pos hmt.active, hmt.dev, hmt.start]
  refine ⟨hCd, hq.store_wp (k := (g.dev, g.start)) (Layout.key_ne _) (notHeld_nil _ _) _ hCd
    ?_ ?_ ?_⟩
  · rwa [hview]
  · rwa [hview]
  · exact fun hno => hH fun hr => hno ⟨hr, hlt⟩

/-! ## Commit -/

variable {old : Nat → Block}

/-- The state after a commit or a recovery: the log is empty in memory and on the card, the home
blocks have the contents `S`, nothing is dirty. -/
structure Settled (g : Layout) (m : Mem) (d : Disk) (S : Nat → Block) (m' : Mem) (d' : Disk) : Prop
    extends Quiet unused [] m' d' where
  length : m'.head.length = m.head.length
  nsecs : d'.nsecs = d.nsecs
  log : m'.log g.dev = { m.log g.dev with lh := [] }
  others : ∀ i, i ≠ g.dev → (m'.log i).enabled = (m.log i).enabled
  header : g.header d' = []
  pending : Pending g d' S
  clean : ∀ k, ¬ Dirty m' k

/-- Once the header lists the blocks of the transaction, the card promises the new contents. -/
lemma Logging.commit_point {new : Nat → Block} {x : Block}
    (h : Logging g m d (m.log g.dev).lh.length m' d') (hq : Quiet unused [] m d)
    (hcol : Collected g m d) (hp : Pending g d old)
    (hnew : ∀ b, ¬ g.InLog b → Bio.view m d (g.dev, b) = new b) :
    g.header (d'.set g.dev g.start (encodeHead x (m.log g.dev).lh)) = (m.log g.dev).lh ∧
      Pending g (d'.set g.dev g.start (encodeHead x (m.log g.dev).lh)) new := by
  have hlen := hcol.small
  have hh : g.header (d'.set g.dev g.start (encodeHead x (m.log g.dev).lh)) =
      (m.log g.dev).lh := by
    rw [Layout.header, Disk.set_block_self]
    refine decodeHead_encodeHead _ _ ?_ fun b hb => ?_
    · have : logsize < 2 ^ 31 := by decide
      omega
    · exact Nat.lt_trans (hcol.home b hb).2 hp.on.2
  refine ⟨hh, ?_, ?_, ?_, ?_, ?_⟩
  · rw [Layout.On, Disk.set_nsecs, h.nsecs]
    exact hp.on
  · rw [hh]
    exact hcol.length
  · intro b hb
    rw [hh] at hb
    rw [Layout.Home, Disk.set_nsecs, h.nsecs]
    exact hcol.home b hb
  · intro j hj
    simp only [hh]
    rw [hh] at hj
    rw [Disk.set_block_of_ne _ _ (by omega), h.done j hj hj]
    exact hnew _ (hcol.home _ (List.getElem_mem hj)).1
  intro b hb hbl
  rw [hh] at hbl
  rw [Layout.block_set_start _ _ hb, h.outside b (Or.inl hb),
    ← hnew b hb, hq.view_clean (Layout.key_ne _)]
  intro hd
  obtain ⟨b', hb', he⟩ := (hcol.dirty _).mp hd
  exact hbl ((Prod.mk.inj he).2 ▸ hb')

lemma Pending.clear (hp : Pending g d S)
    (hhome : ∀ b, ¬ g.InLog b → d.block g.dev b = S b) (x : Block) :
    g.header (d.set g.dev g.start (encodeHead x [])) = [] ∧
      Pending g (d.set g.dev g.start (encodeHead x [])) S := by
  have hh : g.header (d.set g.dev g.start (encodeHead x [])) = [] := by
    rw [Layout.header, Disk.set_block_self, decodeHead_encodeHead_nil]
  refine ⟨hh, pending_of_nil hp.on hh fun b hb => ?_⟩
  rw [Layout.block_set_start _ _ hb, hhome b hb]

/-- Installing a header's blocks and clearing the header: the common end of commit and recovery. -/
lemma installClear_wp (hq : Quiet unused [] m d) (hmt : Mounted g m) (hp : Pending g d S)
    (hhead : g.header d = (m.log g.dev).lh)
    (hdirty : ∀ k, Dirty m k → ∃ b ∈ (m.log g.dev).lh, k = (g.dev, b))
    (hC : ∀ d', d'.nsecs = d.nsecs → Pending g d' S → C d') (hH : ¬ Room m 2 → ∀ e, H e) :
    Wp (do installTrans g.dev; clearHead g.dev; writeHead g.dev) m d
      (fun _ => Settled g m d S) C H := by
  refine .bind (installTrans_wp hmt hC hH hq hp hhead hdirty
    fun m1 d1 hq1 hl1 hlog1 hns1 hp1 hhome1 hcl1 => ?_)
  rw [wp_bind, clearHead, wp_modify]
  refine ⟨hC d1 hns1 hp1, ?_⟩
  have hmt2 : Mounted g (m1.setLog g.dev { m1.log g.dev with lh := [] }) :=
    (hmt.congr hlog1).setLog _ _ _
  obtain ⟨hh, hp2⟩ := hp1.clear hhome1 (d1.block g.dev g.start)
  refine writeHead_wp (hq1.setLog _ _) hmt2 hp1.on (hcl1 _) (hC d1 hns1 hp1) ?_ ?_
    fun m3 d3 hs => ?_
  · simp only [Mem.setLog_self]
    exact hC _ hns1 hp2
  · refine fun hno => hH fun hr => hno ?_
    obtain ⟨ks, -, hlen⟩ := hr
    exact ⟨[], fun k hk => absurd hk (hcl1 k), by simp [hl1]; omega⟩
  simp only [Mem.setLog_self] at hs
  obtain rfl := hs.disk
  refine ⟨hs.toQuiet, hs.length.trans hl1, hns1, ?_, fun i hi => ?_, hh, hp2,
    fun k hk => hcl1 k ((hs.dirty k).mp hk).2⟩
  · rw [hs.log, Mem.setLog_self, hlog1]
  · rw [hs.log, Mem.setLog_of_ne hi, hlog1]

/-- **Commit.** At every write the card promises the contents before the transaction or those after
it; when `commit` returns it holds the latter. -/
theorem commit_wp (new : Nat → Block) (hq : Quiet unused [] m d) (hmt : Mounted g m)
    (hcol : Collected g m d) (hp : Pending g d old) (hnil : g.header d = [])
    (hnew : ∀ b, ¬ g.InLog b → view m d (g.dev, b) = new b)
    (hC : ∀ d', d'.nsecs = d.nsecs → Pending g d' old ∨ Pending g d' new → C d')
    (hH : ¬ Room m 2 → ∀ e, H e) :
    Wp (commit g.dev) m d (fun _ => Settled g m d new) C H := by
  have hCold : ∀ d', d'.nsecs = d.nsecs → Pending g d' old → C d' :=
    fun d' hn h => hC d' hn (Or.inl h)
  rw [commit, wp_bind, wp_get]
  refine ⟨hCold d rfl hp, ?_⟩
  by_cases hn : 0 < (m.log g.dev).lh.length
  swap
  · -- an empty transaction: nothing is dirty, so old and new contents agree
    have hlh : (m.log g.dev).lh = [] := by simpa using hn
    have hcl : ∀ k, ¬ Dirty m k := fun k hk => by simpa [hlh] using (hcol.dirty k).mp hk
    rw [if_neg fun h => hn h.2, wp_pure]
    refine ⟨hCold d rfl hp, hq, rfl, rfl, by simp [← hlh], fun _ _ => rfl, hnil,
      pending_of_nil hp.on hnil fun b hb => ?_, hcl⟩
    rw [← hnew b hb, hq.view_clean (Layout.key_ne _) (hcl _)]
  rw [if_pos ⟨hmt.active, hn⟩, wp_bind]
  refine writeLog_wp hmt hcol hp hnil hCold hH hq fun m1 d1 hl => ?_
  have hlog : m1.log g.dev = m.log g.dev := by rw [hl.log]
  obtain ⟨hh1, hp1⟩ := hl.pending hp hnil
  obtain ⟨hh, hpn⟩ := hl.commit_point (x := d1.block g.dev g.start) hq hcol hp hnew
  have hdirty : ∀ k, Dirty m1 k → ∃ b ∈ (m.log g.dev).lh, k = (g.dev, b) := fun k hk =>
    (hcol.dirty k).mp ((hl.dirty k).mp hk)
  refine .bind (writeHead_wp hl.toQuiet (hmt.congr hl.log) hp1.on
    (fun hd => hcol.not_dirty_inLog Layout.start_inLog ((hl.dirty _).mp hd))
      (hCold d1 hl.nsecs hp1) ?_
    ?_ fun m2 d2 hs => ?_)
  · rw [hlog]
    exact hC _ hl.nsecs (Or.inr hpn)
  · exact fun hno => hH fun hr =>
      hno ((hr.mono (by omega)).congr (fun k => (hl.dirty k).mp) hl.length)
  rw [hlog] at hs
  have hlog2 : m2.log = m.log := hs.log.trans hl.log
  obtain rfl := hs.disk
  refine (installClear_wp (S := new) hs.toQuiet (hmt.congr hlog2) hpn ?_ ?_
    (fun d' hn h => hC d' (hn.trans hl.nsecs) (Or.inr h)) ?_).imp fun _ m' d' h => ?_
  · rw [hlog2]
    exact hh
  · rw [hlog2]
    exact fun k hk => hdirty k ((hs.dirty k).mp hk).2
  · refine fun hno => hH fun hr => hno (hr.congr (fun k hk => ?_) (hs.length.trans hl.length))
    exact (hl.dirty k).mp ((hs.dirty k).mp hk).2
  refine ⟨h.toQuiet, h.length.trans (hs.length.trans hl.length), h.nsecs.trans hl.nsecs, ?_,
    fun i hi => ?_, h.header, h.pending, h.clean⟩
  · rw [h.log, hlog2]
  · rw [h.others i hi, hlog2]

end RpiOs.RedoLog
