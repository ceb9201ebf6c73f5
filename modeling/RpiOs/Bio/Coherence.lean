import Mathlib.Data.List.Nodup
import Mathlib.Data.List.Perm.Subperm
import RpiOs.Bio.Buffer

/-!
# The cache is transparent

`view m d dev b` is what the kernel sees as the contents of a block: the data of the valid buffer
that carries it, or the card's. `Cache S m d` is the invariant that makes this well defined: no two
buffers carry one block, and a clean buffer that nobody holds agrees with the card. The one
exceptions are the stale blocks `S`, whose contents nobody relies on; block 0 of device 0, the mark
of the buffers that were never used, is always among them.

* `bread_wp`: `bread` delivers the view and changes neither it nor the set of dirty blocks.
-/

namespace RpiOs.Bio

open Lib Kernel

/-! ## Blocks, views and the invariant -/

/-- The block that unused buffers carry. -/
def nullKey : Nat × Nat := (0, 0)

/-- What the kernel sees as the contents of a block. -/
def view (m : Mem) (d : Disk) (k : Nat × Nat) : Block :=
  match cached m k.1 k.2 with
  | some i => if (m.buf i).valid then (m.buf i).data else d.block k.1 k.2
  | none => d.block k.1 k.2

/-- Some buffer carries the block and is dirty. -/
def Dirty (m : Mem) (k : Nat × Nat) : Prop :=
  ∃ i ∈ m.head, (m.buf i).key = k ∧ (m.buf i).dirty = true

/-- Only the mark of unused buffers is stale. -/
def unused : Nat × Nat → Prop := fun k => k = nullKey

/-- The invariant of the cache, with stale blocks `S`. -/
structure Cache (S : Nat × Nat → Prop) (m : Mem) (d : Disk) : Prop where
  null : S nullKey
  nodup : m.head.Nodup
  uniq : ∀ i ∈ m.head, ∀ j ∈ m.head, (m.buf i).key = (m.buf j).key →
    (m.buf i).key ≠ nullKey → i = j
  clean : ∀ i ∈ m.head, (m.buf i).busy = false → (m.buf i).valid = true →
    (m.buf i).dirty = false → ¬ S (m.buf i).key →
      (m.buf i).data = d.block (m.buf i).dev (m.buf i).blockno
  dirty_valid : ∀ i ∈ m.head, (m.buf i).dirty = true → (m.buf i).valid = true

variable {S : Nat × Nat → Prop} {m : Mem} {d d' : Disk} {k : Nat × Nat} {i : Nat}

lemma Cache.ne_null (h : Cache S m d) (hk : ¬ S k) : k ≠ nullKey := fun he => hk (he ▸ h.null)

lemma Cache.mono {T : Nat × Nat → Prop} (h : Cache S m d) (hST : ∀ k, S k → T k) : Cache T m d :=
  ⟨hST _ h.null, h.nodup, h.uniq, fun i hi hb hv hd hk => h.clean i hi hb hv hd fun hs =>
    hk (hST _ hs), h.dirty_valid⟩

/-! The cache and the logs do not share anything. -/

lemma Cache.setLog (h : Cache S m d) (i : Nat) (l : Log) :
    Cache S (m.setLog i l) d := { h with null := h.null }

@[simp] lemma dirty_setLog (m : Mem) (i : Nat) (l : Log) (k : Nat × Nat) :
    Dirty (m.setLog i l) k ↔ Dirty m k := Iff.rfl

lemma cached_eq_some (h : cached m k.1 k.2 = some i) :
    i ∈ m.head ∧ (m.buf i).key = k := by
  have hp := List.find?_some h
  simp only [decide_eq_true_eq] at hp
  exact ⟨List.mem_of_find?_eq_some h, Prod.ext hp.1 hp.2⟩

lemma cached_eq_none : cached m k.1 k.2 = none ↔ ∀ i ∈ m.head, (m.buf i).key ≠ k := by
  simp [cached, List.find?_eq_none, Buf.key, Prod.ext_iff]

/-- A valid buffer shows its block. -/
lemma Cache.view_of_mem (hc : Cache S m d) (hi : i ∈ m.head)
    (hk : (m.buf i).key = k) (hn : k ≠ nullKey) (hv : (m.buf i).valid = true) :
    view m d k = (m.buf i).data := by
  rw [view]
  rcases h : cached m k.1 k.2 with - | j
  · exact absurd hk (cached_eq_none.mp h i hi)
  obtain ⟨hj, hjk⟩ := cached_eq_some h
  have : j = i := hc.uniq j hj i hi (hjk.trans hk.symm) (hjk ▸ hn)
  subst this
  simp [hv]

lemma view_of_not_mem (h : ∀ i ∈ m.head, (m.buf i).key = k → (m.buf i).valid = false) :
    view m d k = d.block k.1 k.2 := by
  rw [view]
  cases hc : cached m k.1 k.2 with
  | none => rfl
  | some i =>
    obtain ⟨hi, hik⟩ := cached_eq_some hc
    simp [h i hi hik]

/-- A block that is neither dirty nor in a busy buffer is seen as it is on the card. -/
lemma Cache.view_of_not_dirty (hc : Cache S m d)
    (hidle : ∀ i ∈ m.head, (m.buf i).key = k → (m.buf i).busy = false) (hn : ¬ S k)
    (hk : ¬ Dirty m k) : view m d k = d.block k.1 k.2 := by
  by_cases h : ∃ i ∈ m.head, (m.buf i).key = k ∧ (m.buf i).valid = true
  · obtain ⟨i, hi, hik, hv⟩ := h
    have hd : (m.buf i).dirty = false := by
      by_contra hd
      exact hk ⟨i, hi, hik, by simpa using hd⟩
    rw [hc.view_of_mem hi hik (hc.ne_null hn) hv, hc.clean i hi (hidle i hi hik) hv hd (hik ▸ hn),
      ← hik]
    rfl
  · refine view_of_not_mem fun i hi hik => ?_
    by_contra hv
    exact h ⟨i, hi, hik, by simpa using hv⟩

/-- What is seen depends on the blocks and the contents of the buffers, not on their order. -/
lemma Cache.view_congr {m' : Mem} (hc : Cache S m d) (hc' : Cache S m' d) (hn : k ≠ nullKey)
    (hmem : ∀ i, i ∈ m'.head ↔ i ∈ m.head)
    (hbuf : ∀ i ∈ m.head, (m'.buf i).key = (m.buf i).key ∧
      (m'.buf i).valid = (m.buf i).valid ∧ (m'.buf i).data = (m.buf i).data) :
    view m' d k = view m d k := by
  by_cases h : ∃ i ∈ m.head, (m.buf i).key = k ∧ (m.buf i).valid = true
  · obtain ⟨i, hi, hik, hv⟩ := h
    obtain ⟨hk', hv', hd'⟩ := hbuf i hi
    rw [hc.view_of_mem hi hik hn hv,
      hc'.view_of_mem ((hmem i).mpr hi) (hk'.trans hik) hn (hv'.trans hv), hd']
  have hno : ∀ i ∈ m.head, (m.buf i).key = k → (m.buf i).valid = false := fun i hi hik => by
    by_contra hv
    exact h ⟨i, hi, hik, by simpa using hv⟩
  rw [view_of_not_mem hno, view_of_not_mem]
  intro i hi hik
  have hi := (hmem i).mp hi
  obtain ⟨hk', hv', -⟩ := hbuf i hi
  exact hv'.trans (hno i hi (hk' ▸ hik))

/-! ## Replacing a buffer -/

section replace

/-- `b` may take the place of buffer `i`: no other buffer carries its block, and `i` either carries
it already or has nothing to lose. -/
structure Fits (m : Mem) (i : Nat) (b : Buf) : Prop where
  mem : i ∈ m.head
  valid : b.valid = true
  key_ne : b.key ≠ nullKey
  fresh : ∀ j ∈ m.head, j ≠ i → (m.buf j).key ≠ b.key
  old : (m.buf i).key = b.key ∨ ((m.buf i).busy = false ∧ (m.buf i).dirty = false)

variable {b : Buf}

lemma Cache.fits_same (hc : Cache S m d) (hi : i ∈ m.head) (hk : b.key = (m.buf i).key)
    (hn : b.key ≠ nullKey) (hv : b.valid = true) : Fits m i b where
  mem := hi
  valid := hv
  key_ne := hn
  fresh := fun j hj hji hjk => hji (hc.uniq j hj i hi (hjk.trans hk) (hjk ▸ hn))
  old := Or.inl hk.symm

section

variable (hc : Cache S m d)
  (hf : Fits m i b)
  (hd : ∀ k, k ≠ b.key → d'.block k.1 k.2 = d.block k.1 k.2)
  (hclean : b.busy = false → b.dirty = false → ¬ S b.key → b.data = d'.block b.dev b.blockno)
include hc hf hd hclean

/-- Replacing a buffer and writing at most its block keeps the invariant. -/
lemma Cache.setBuf : Cache S (m.setBuf i b) d' where
  null := hc.null
  nodup := hc.nodup
  uniq := by
    intro j hj j' hj' hjj' hn
    simp only [Mem.setBuf_head] at hj hj'
    by_cases h : j = i <;> by_cases h' : j' = i
    · exact h.trans h'.symm
    · subst h
      rw [Mem.setBuf_self] at hjj' hn
      rw [Mem.setBuf_of_ne h'] at hjj'
      exact absurd hjj'.symm (hf.fresh j' hj' h')
    · subst h'
      rw [Mem.setBuf_self, Mem.setBuf_of_ne h] at hjj'
      rw [Mem.setBuf_of_ne h] at hn
      exact absurd hjj' (hf.fresh j hj h)
    · rw [Mem.setBuf_of_ne h] at hjj' hn
      rw [Mem.setBuf_of_ne h'] at hjj'
      exact hc.uniq j hj j' hj' hjj' hn
  clean := by
    intro j hj hbusy hv hdirty hn
    simp only [Mem.setBuf_head] at hj
    by_cases h : j = i
    · subst h
      rw [Mem.setBuf_self] at hbusy hdirty hn ⊢
      exact hclean hbusy hdirty hn
    rw [Mem.setBuf_of_ne h] at hbusy hv hdirty hn ⊢
    rw [hc.clean j hj hbusy hv hdirty hn]
    exact (hd (m.buf j).key (hf.fresh j hj h)).symm
  dirty_valid := by
    rw [Mem.setBuf_buf]
    exact (Function.forall_update_iff m.buf fun j b => j ∈ m.head → b.dirty = true →
      b.valid = true).mpr
      ⟨fun _ _ => hf.valid, fun j _ => hc.dirty_valid j⟩

/-- The view after replacing a buffer: the new data at its block, unchanged elsewhere. -/
lemma Cache.view_setBuf (hs : ¬ S k) :
    view (m.setBuf i b) d' k = if k = b.key then b.data else view m d k := by
  have hc' := hc.setBuf hf hd hclean
  have hn := hc.ne_null hs
  by_cases hk : k = b.key
  · subst hk
    rw [if_pos rfl]
    have := hc'.view_of_mem (k := b.key) hf.mem (by simp) hn (by simpa using hf.valid)
    simpa using this
  rw [if_neg hk]
  by_cases h : ∃ j ∈ m.head, j ≠ i ∧ (m.buf j).key = k ∧ (m.buf j).valid = true
  · obtain ⟨j, hj, hji, hjk, hv⟩ := h
    rw [hc.view_of_mem hj hjk hn hv, hc'.view_of_mem hj (by rwa [Mem.setBuf_of_ne hji]) hn
      (by rwa [Mem.setBuf_of_ne hji]), Mem.setBuf_of_ne hji]
  -- no other buffer carries `k`; what `i` carried before agrees with the card
  have hnew : view (m.setBuf i b) d' k = d.block k.1 k.2 := by
    rw [← hd k hk]
    refine view_of_not_mem fun j hj hjk => ?_
    by_cases hji : j = i
    · subst hji
      rw [Mem.setBuf_self] at hjk
      exact absurd hjk.symm hk
    rw [Mem.setBuf_of_ne hji] at hjk ⊢
    by_contra hv
    exact h ⟨j, hj, hji, hjk, by simpa using hv⟩
  rw [hnew]
  by_cases hik : (m.buf i).key = k ∧ (m.buf i).valid = true
  · rw [hc.view_of_mem hf.mem hik.1 hn hik.2]
    rcases hf.old with hold | ⟨hbusy, hdirty⟩
    · exact absurd (hik.1.symm.trans hold) hk
    · rw [hc.clean i hf.mem hbusy hik.2 hdirty (hik.1 ▸ hs), ← hik.1]
      rfl
  refine (view_of_not_mem fun j hj hjk => ?_).symm
  by_contra hv
  by_cases hji : j = i
  · subst hji
    exact hik ⟨hjk, by simpa using hv⟩
  · exact h ⟨j, hj, hji, hjk, by simpa using hv⟩

end

/-- A new buffer for a block changes whether that block is dirty, and no other. -/
lemma Fits.dirty_setBuf (hf : Fits m i b) (k : Nat × Nat) :
    Dirty (m.setBuf i b) k ↔ if k = b.key then b.dirty = true else Dirty m k := by
  unfold Dirty
  rw [Mem.setBuf_buf, Mem.setBuf_head, Function.exists_update_iff m.buf fun j b => j ∈ m.head ∧
    b.key = k ∧ b.dirty = true]
  by_cases hk : k = b.key
  · rw [if_pos hk]
    constructor
    · rintro (⟨-, -, hd⟩ | ⟨j, hji, hj, hjk, -⟩)
      · exact hd
      · exact absurd (hjk.trans hk) (hf.fresh j hj hji)
    · exact fun hd => .inl ⟨hf.mem, hk.symm, hd⟩
  · rw [if_neg hk]
    constructor
    · rintro (⟨-, hbk, -⟩ | ⟨j, -, hj⟩)
      · exact absurd hbk.symm hk
      · exact ⟨j, hj⟩
    · rintro ⟨j, hj, hjk, hd⟩
      refine .inr ⟨j, ?_, hj, hjk, hd⟩
      rintro rfl
      rcases hf.old with hold | ⟨-, hdirty⟩
      · exact hk (hjk.symm.trans hold)
      · simp [hdirty] at hd

end replace

/-! ## The operations -/

section ops

variable {C : Disk → Prop} {H : Stop → Prop}

/-- What every operation on buffer `i` leaves alone. -/
structure Upd (S : Nat × Nat → Prop) (m : Mem) (d : Disk) (i : Nat) (m' : Mem) (d' : Disk) :
    Prop where
  cache : Cache S m' d'
  mem_head : ∀ j, j ∈ m'.head ↔ j ∈ m.head
  length : m'.head.length = m.head.length
  log : m'.log = m.log
  nsecs : d'.nsecs = d.nsecs
  other : ∀ j, j ≠ i → m'.buf j = m.buf j

/-- The state after a `bread` of block `k` that returned buffer `i`. -/
structure Bread (S : Nat × Nat → Prop) (m : Mem) (d : Disk) (k : Nat × Nat) (i : Nat) (m' : Mem) :
    Prop
    extends Upd S m d i m' d where
  mem : i ∈ m.head
  idle : (m.buf i).busy = false
  key : (m'.buf i).key = k
  busy : (m'.buf i).busy = true
  valid : (m'.buf i).valid = true
  data : (m'.buf i).data = view m d k
  view : ∀ k', ¬ S k' → view m' d k' = view m d k'
  dirty : ∀ k', Dirty m' k' ↔ Dirty m k'

/-- `bread` can go on: the block is in a buffer nobody holds, or there is a buffer to recycle; and
a block that has to be read exists. -/
def Ready (m : Mem) (d : Disk) (k : Nat × Nat) : Prop :=
  match cached m k.1 k.2 with
  | some i => (m.buf i).busy = false ∧ ((m.buf i).valid = true ∨ k.2 < d.nsecs k.1)
  | none => (∃ i, recyclable m = some i) ∧ k.2 < d.nsecs k.1

/-- Replacing buffer `i` by a busy one with the right contents is a `bread`. -/
lemma Cache.bread_setBuf (hc : Cache S m d) {b : Buf} (hf : Fits m i b) (hbusy : b.busy = true)
    (hidle : (m.buf i).busy = false) (hdata : b.data = view m d b.key)
    (hdirty : b.dirty = true ↔ Dirty m b.key) :
    Bread S m d b.key i (m.setBuf i b) where
  cache := hc.setBuf hf (fun _ _ => rfl) (by simp [hbusy])
  mem_head := fun _ => Iff.rfl
  length := rfl
  log := rfl
  nsecs := rfl
  other := fun j hj => Mem.setBuf_of_ne hj
  mem := hf.mem
  idle := hidle
  key := by simp
  busy := by simpa using hbusy
  valid := by simpa using hf.valid
  data := by simpa using hdata
  view := fun k' hn => by
    rw [hc.view_setBuf hf (fun _ _ => rfl) (by simp [hbusy]) hn]
    split
    · next h => rw [hdata, h]
    · rfl
  dirty := fun k' => by
    rw [hf.dirty_setBuf]
    split
    · next h => rw [hdirty, h]
    · exact Iff.rfl

lemma Cache.dirty_iff (hc : Cache S m d) (hi : i ∈ m.head) (hn : (m.buf i).key ≠ nullKey) :
    Dirty m (m.buf i).key ↔ (m.buf i).dirty = true := by
  constructor
  · rintro ⟨j, hj, hjk, hd⟩
    rwa [hc.uniq j hj i hi hjk (hjk ▸ hn)] at hd
  · intro hd
    exact ⟨i, hi, rfl, hd⟩

variable {dev blockno : Nat} {m' : Mem} {Q : Unit → Mem → Disk → Prop}

/-! ### `bread` -/

lemma bread_miss (hcd : cached m dev blockno = none) (hr : recyclable m = some i)
    (hlt : blockno < d.nsecs dev) :
    bread dev blockno m d =
      ⟨[], .ok (i, m.setBuf i ⟨true, true, false, dev, blockno, d.block dev blockno⟩)⟩ := by
  simp [bread, bget, devrw, Bind.bind, Prog.bind, Prog.get, Prog.durable, Prog.modify, pure, hcd,
    hr, hlt]

lemma recyclable_eq_some (h : recyclable m = some i) :
    i ∈ m.head ∧ (m.buf i).busy = false ∧ (m.buf i).dirty = false := by
  have hp := List.find?_some h
  simp only [decide_eq_true_eq] at hp
  exact ⟨List.mem_reverse.mp (List.mem_of_find?_eq_some h), hp⟩

/-- **`bread` delivers the view of the block** and leaves the view and the dirty blocks as they
are. -/
theorem bread_wp (hc : Cache S m d) (hn : (dev, blockno) ≠ nullKey) {Q : Nat → Mem → Disk → Prop}
    (hC : C d) (hQ : ∀ i m', Bread S m d (dev, blockno) i m' → Q i m' d)
    (hH : ¬ Ready m d (dev, blockno) → ∀ e, H e) : Wp (bread dev blockno) m d Q C H := by
  -- what the card has is read into a buffer if no valid one carries the block
  have hload : ∀ {i} (data : Block), Fits m i ⟨true, true, false, dev, blockno,
    d.block dev blockno⟩ →
      (m.buf i).busy = false →
        (∀ j ∈ m.head, (m.buf j).key = (dev, blockno) → (m.buf j).valid = false) →
      (blockno < d.nsecs dev ∨ ¬ Ready m d (dev, blockno)) →
      Wp (do devrw i; pure i) (m.setBuf i ⟨true, false, false, dev, blockno, data⟩) d Q C H := by
    intro i data hf hbusy hno hlt
    unfold devrw
    simp only [wp_bind, wp_get, wp_durable, Mem.setBuf_self]
    refine ⟨hC, hC, ?_⟩
    split
    · refine (wp_modify _).mpr ⟨hC, (wp_pure _).mpr ⟨hC, hQ i _ ?_⟩⟩
      rw [Mem.setBuf_setBuf]
      refine hc.bread_setBuf hf rfl hbusy (view_of_not_mem hno).symm ⟨by simp, ?_⟩
      rintro ⟨j, hj, hjk, hd⟩
      exact absurd ((hno j hj hjk).symm.trans (hc.dirty_valid j hj hd)) Bool.false_ne_true
    · next h => exact (wp_stop _).mpr ⟨hC, hH (hlt.resolve_left h) _⟩
  unfold bread bget
  simp only [wp_bind, wp_get]
  refine ⟨hC, ?_⟩
  cases hcd : cached m dev blockno with
  | some i =>
    obtain ⟨hi, hk⟩ := cached_eq_some (k := (dev, blockno)) hcd
    dsimp only
    split
    · next hbusy => exact (wp_stop _).mpr ⟨hC, hH (by simp [Ready, hcd, hbusy]) _⟩
    next hbusy =>
    have hbusy : (m.buf i).busy = false := by simpa using hbusy
    simp only [wp_bind, wp_modify, wp_pure, Mem.setBuf_self]
    refine ⟨hC, hC, hC, ?_⟩
    split
    · next hv =>
      have hb := hc.bread_setBuf (b := { m.buf i with busy := true })
        (hc.fits_same hi rfl (hk ▸ hn) hv) rfl hbusy
        (hc.view_of_mem hi rfl (hk ▸ hn) hv).symm (hc.dirty_iff hi (hk ▸ hn)).symm
      exact (wp_pure _).mpr ⟨hC, hQ i _ (hk ▸ hb)⟩
    · next hv =>
      have hv : (m.buf i).valid = false := by simpa using hv
      have hd : (m.buf i).dirty = false := by
        by_contra hd
        rw [hc.dirty_valid i hi (by simpa using hd)] at hv
        cases hv
      have hbuf : { m.buf i with busy := true } =
          ⟨true, false, false, dev, blockno, (m.buf i).data⟩ := by
        obtain ⟨hdev, hbno⟩ : (m.buf i).dev = dev ∧ (m.buf i).blockno = blockno := Prod.mk.inj hk
        simp [hv, hd, hdev, hbno]
      rw [hbuf]
      refine hload _ (hc.fits_same hi hk.symm hn rfl) hbusy (fun j hj hjk => ?_) ?_
      · rwa [hc.uniq j hj i hi (hjk.trans hk.symm) (hjk ▸ hn)]
      · by_cases hlt : blockno < d.nsecs dev
        · exact .inl hlt
        · exact .inr (by simp [Ready, hcd, hv, hlt])
  | none =>
    have hno := (cached_eq_none (k := (dev, blockno))).mp hcd
    dsimp only
    cases hr : recyclable m with
    | none => exact (wp_stop _).mpr ⟨hC, hH (by simp [Ready, hcd, hr]) _⟩
    | some i => ?_
    obtain ⟨hi, hbusy, hd⟩ := recyclable_eq_some hr
    simp only [wp_bind, wp_modify, wp_pure, Mem.setBuf_self]
    refine ⟨hC, hC, hC, hload _ ⟨hi, rfl, hn, fun j hj _ => hno j hj, .inr ⟨hbusy, hd⟩⟩ hbusy
      (fun j hj hjk => absurd hjk (hno j hj)) ?_⟩
    by_cases hlt : blockno < d.nsecs dev
    · exact .inl hlt
    · exact .inr (by simp [Ready, hcd, hlt])

/-! ### The other operations, on a buffer that is held -/

/-- A buffer in the hands of the running code. -/
structure Held (m : Mem) (i : Nat) : Prop where
  mem : i ∈ m.head
  busy : (m.buf i).busy = true
  valid : (m.buf i).valid = true
  key_ne : (m.buf i).key ≠ nullKey

lemma Bread.held (h : Bread S m d k i m') (hn : k ≠ nullKey) : Held m' i :=
  ⟨(h.mem_head i).mpr h.mem, h.busy, h.valid, by rwa [h.key]⟩

lemma Held.upd {j : Nat} (h : Held m j) (hu : Upd S m d i m' d')
    (hji : j ≠ i) : Held m' j := by
  refine ⟨(hu.mem_head j).mpr h.mem, ?_, ?_, ?_⟩ <;> rw [hu.other j hji]
  · exact h.busy
  · exact h.valid
  · exact h.key_ne

/-- The state after the data of a held buffer became `x`. -/
structure Modified (S : Nat × Nat → Prop) (m : Mem) (d : Disk) (i : Nat) (x : Block) (m' : Mem) :
    Prop
    extends Upd S m d i m' d where
  buf : m'.buf i = { m.buf i with data := x }
  view : ∀ k, ¬ S k → view m' d k = if k = (m.buf i).key then x else view m d k
  dirty : ∀ k, Dirty m' k ↔ Dirty m k

/-- Changing the bytes of a buffer in hand. -/
lemma modifyData_wp (hc : Cache S m d) (hi : Held m i) (f : Block → Block) (hC : C d)
    (hQ : ∀ m', Modified S m d i (f (m.buf i).data) m' → Q () m' d) :
    Wp (modifyData i f) m d Q C H := by
  have hfit : Fits m i { m.buf i with data := f (m.buf i).data } :=
    hc.fits_same hi.mem rfl hi.key_ne hi.valid
  have hbusy : ¬ (m.buf i).busy = false := by simp [hi.busy]
  rw [modifyData, wp_modify]
  refine ⟨hC, hQ _ ⟨⟨?_, fun _ => Iff.rfl, rfl, rfl, rfl, fun j hj => Mem.setBuf_of_ne hj⟩,
    Mem.setBuf_self _ _ _, ?_, ?_⟩⟩
  · exact hc.setBuf hfit (fun _ _ => rfl) (fun h => absurd h hbusy)
  · exact fun k hn => hc.view_setBuf hfit (fun _ _ => rfl) (fun h => absurd h hbusy) hn
  intro k
  rw [hfit.dirty_setBuf]
  split
  · next h =>
    subst h
    exact (hc.dirty_iff hi.mem hi.key_ne).symm
  · exact Iff.rfl

/-- The state after a held buffer was written to the card. -/
structure Written (S : Nat × Nat → Prop) (m : Mem) (d : Disk) (i : Nat) (m' : Mem) (d' : Disk) :
    Prop
    extends Upd S m d i m' d' where
  buf : m'.buf i = { m.buf i with dirty := false }
  disk : d' = d.set (m.buf i).dev (m.buf i).blockno (m.buf i).data
  view : ∀ k, ¬ S k → view m' d' k = view m d k
  dirty : ∀ k, Dirty m' k ↔ k ≠ (m.buf i).key ∧ Dirty m k

lemma Modified.held {x : Block} (h : Modified S m d i x m') (hi : Held m i) : Held m' i :=
  ⟨(h.mem_head i).mpr hi.mem, h.buf ▸ hi.busy, h.buf ▸ hi.valid, h.buf ▸ hi.key_ne⟩

lemma Written.held (h : Written S m d i m' d') (hi : Held m i) : Held m' i :=
  ⟨(h.mem_head i).mpr hi.mem, h.buf ▸ hi.busy, h.buf ▸ hi.valid, h.buf ▸ hi.key_ne⟩

/-- Writing a held buffer to the card changes neither the view nor any other block. -/
lemma Cache.written (hc : Cache S m d) (hi : Held m i) :
    Written S m d i (m.setBuf i { m.buf i with dirty := false })
      (d.set (m.buf i).dev (m.buf i).blockno (m.buf i).data) := by
  have hfit : Fits m i { m.buf i with dirty := false } := hc.fits_same hi.mem rfl hi.key_ne hi.valid
  have hbusy : ¬ (m.buf i).busy = false := by simp [hi.busy]
  have hoff : ∀ k, k ≠ (m.buf i).key →
      (d.set (m.buf i).dev (m.buf i).blockno (m.buf i).data).block k.1 k.2 = d.block k.1 k.2 :=
    fun k hk => d.set_block_of_ne _ fun h => hk (Prod.ext h.1 h.2)
  refine ⟨⟨hc.setBuf hfit hoff (fun h => absurd h hbusy), fun _ => Iff.rfl, rfl, rfl, rfl,
    fun j hj => Mem.setBuf_of_ne hj⟩, Mem.setBuf_self _ _ _, rfl, ?_, ?_⟩
  · intro k hn
    rw [hc.view_setBuf hfit hoff (fun h => absurd h hbusy) hn]
    split
    · next h =>
      subst h
      exact (hc.view_of_mem hi.mem rfl hi.key_ne hi.valid).symm
    · rfl
  · intro k
    rw [hfit.dirty_setBuf]
    change (if k = (m.buf i).key then false = true else Dirty m k) ↔ _
    split <;> simp_all

/-- Writing a buffer in hand; a crash finds the card before or after the transfer. -/
lemma bwrite_wp (hc : Cache S m d) (hi : Held m i) (hC : C d)
    (hC' : C (d.set (m.buf i).dev (m.buf i).blockno (m.buf i).data))
    (hQ : ∀ m' d', Written S m d i m' d' → Q () m' d')
    (hH : ¬ (m.buf i).blockno < d.nsecs (m.buf i).dev → ∀ e, H e) :
    Wp (bwrite i) m d Q C H := by
  unfold bwrite devrw
  simp only [wp_bind, wp_get, hi.busy, if_true, wp_modify, wp_durable, Mem.setBuf_self]
  refine ⟨hC, hC, hC, hC, ?_⟩
  split
  · simp only [wp_bind, wp_write, wp_modify, Mem.setBuf_setBuf]
    refine ⟨⟨hC, hC'⟩, hC', hQ _ _ ?_⟩
    have hw := hc.written hi
    simp only [hi.busy, hi.valid] at hw
    exact hw
  · next hlt => exact (wp_stop _).mpr ⟨hC, hH hlt _⟩

/-- The state after a held buffer was released. -/
structure Released (S : Nat × Nat → Prop) (m : Mem) (d : Disk) (i : Nat) (m' : Mem) : Prop
    extends Upd S m d i m' d where
  buf : m'.buf i = { m.buf i with busy := false }
  view : ∀ k, ¬ S k → view m' d k = view m d k
  dirty : ∀ k, Dirty m' k ↔ Dirty m k

/-- A buffer may be released once it is dirty, stale or agrees with the card. -/
lemma brelse_wp (hc : Cache S m d) (hi : Held m i)
    (hclean : (m.buf i).dirty = false → ¬ S (m.buf i).key →
      (m.buf i).data = d.block (m.buf i).dev (m.buf i).blockno)
    (hC : C d) (hQ : ∀ m', Released S m d i m' → Q () m' d) :
    Wp (brelse i) m d Q C H := by
  have hfit : Fits m i { m.buf i with busy := false } := hc.fits_same hi.mem rfl hi.key_ne hi.valid
  have hcs := hc.setBuf hfit (fun _ _ => rfl) (fun _ => hclean)
  have hmem : ∀ j, j ∈ m.head.erase i ++ [i] ↔ j ∈ m.head := by
    intro j
    by_cases h : j = i
    · simp [h, hi.mem]
    · simp [List.mem_erase_of_ne h, h]
  have hnodup : (m.head.erase i ++ [i]).Nodup := by
    rw [List.nodup_append]
    refine ⟨hc.nodup.erase i, by simp, fun a ha b hb => ?_⟩
    rintro rfl
    rw [List.mem_singleton] at hb
    exact (hc.nodup.mem_erase_iff.mp ha).1 hb
  have hc' : Cache S { m.setBuf i { m.buf i with busy := false } with head := m.head.erase i ++
      [i] } d :=
    { null := hc.null
      nodup := hnodup
      uniq := fun j hj j' hj' => hcs.uniq j ((hmem j).mp hj) j' ((hmem j').mp hj')
      clean := fun j hj => hcs.clean j ((hmem j).mp hj)
      dirty_valid := fun j hj => hcs.dirty_valid j ((hmem j).mp hj) }
  simp only [brelse, wp_bind, wp_get, hi.busy, if_true, wp_modify]
  refine ⟨hC, hC, hQ _ ⟨⟨hc', hmem, ?_, rfl, rfl, fun j hj => Mem.setBuf_of_ne hj⟩,
    Mem.setBuf_self _ _ _, ?_, ?_⟩⟩
  · simp [List.length_erase_of_mem hi.mem, Nat.sub_add_cancel (List.length_pos_of_mem hi.mem)]
  · intro k hn
    rw [hcs.view_congr hc' (hc.ne_null hn) hmem (fun _ _ => ⟨rfl, rfl, rfl⟩),
      hc.view_setBuf hfit (fun _ _ => rfl) (fun _ => hclean) hn]
    split
    · next h =>
      subst h
      exact (hc.view_of_mem hi.mem rfl hi.key_ne hi.valid).symm
    · rfl
  · intro k
    have : Dirty { m.setBuf i { m.buf i with busy := false } with head := m.head.erase i ++ [i] }
      k ↔
        Dirty (m.setBuf i { m.buf i with busy := false }) k := by
      simp only [Dirty, hmem]
      exact Iff.rfl
    rw [this, hfit.dirty_setBuf]
    split
    · next h =>
      subst h
      exact (hc.dirty_iff hi.mem hi.key_ne).symm
    · exact Iff.rfl

/-! ### When there is a buffer -/

/-- Beside the dirty blocks there is space for `n` more buffers. -/
def Room (m : Mem) (n : Nat) : Prop :=
  ∃ ks : List (Nat × Nat), (∀ k, Dirty m k → k ∈ ks ∧ k ≠ nullKey) ∧ n + ks.length ≤ m.head.length

lemma Room.congr {n : Nat} (h : Room m n) (hd : ∀ k, Dirty m' k → Dirty m k)
    (hl : m'.head.length = m.head.length) : Room m' n := by
  obtain ⟨ks, hks, hlen⟩ := h
  exact ⟨ks, fun k hk => hks k (hd k hk), by rwa [hl]⟩

lemma Room.mono {n n' : Nat} (h : Room m n) (hn : n' ≤ n) : Room m n' := by
  obtain ⟨ks, hks, hlen⟩ := h
  exact ⟨ks, hks, by omega⟩

/-- With space for more buffers than are held, there is one to recycle. -/
lemma Cache.exists_recyclable (hc : Cache S m d) {n : Nat} (hroom : Room m n) (held : List Nat)
    (hheld : ∀ i ∈ m.head, (m.buf i).busy = true → i ∈ held) (hlen : held.length < n) :
    ∃ i, recyclable m = some i := by
  obtain ⟨ks, hks, hle⟩ := hroom
  by_contra hno
  have hnone : recyclable m = none := by
    cases h : recyclable m with
    | none => rfl
    | some i => exact absurd ⟨i, h⟩ hno
  have hall : ∀ i ∈ m.head, (m.buf i).busy = true ∨ (m.buf i).dirty = true := by
    intro i hi
    have := List.find?_eq_none.mp hnone i (List.mem_reverse.mpr hi)
    cases hb : (m.buf i).busy <;> cases hd : (m.buf i).dirty <;> simp_all
  -- the busy buffers inject into `held`, the others into `ks`
  have hb : (m.head.filter fun i => (m.buf i).busy).length ≤ held.length := by
    refine ((hc.nodup.filter _).subperm fun i hi => ?_).length_le
    rw [List.mem_filter] at hi
    exact hheld i hi.1 hi.2
  have hdirty : ∀ i ∈ m.head.filter (fun i => !(m.buf i).busy),
      i ∈ m.head ∧ (m.buf i).dirty = true := by
    intro i hi
    rw [List.mem_filter] at hi
    exact ⟨hi.1, by simpa using (hall i hi.1).resolve_left (by simpa using hi.2)⟩
  have hd : (m.head.filter fun i => !(m.buf i).busy).length ≤ ks.length := by
    have hnd : ((m.head.filter fun i => !(m.buf i).busy).map fun i => (m.buf i).key).Nodup := by
      refine (List.nodup_map_iff_inj_on (hc.nodup.filter _)).mpr fun i hi j hj hij => ?_
      obtain ⟨hi, hid⟩ := hdirty i hi
      exact hc.uniq i hi j (hdirty j hj).1 hij (hks _ ⟨i, hi, rfl, hid⟩).2
    have hsub : ((m.head.filter fun i => !(m.buf i).busy).map fun i => (m.buf i).key) ⊆ ks := by
      intro k hk
      obtain ⟨i, hi, rfl⟩ := List.mem_map.mp hk
      obtain ⟨hi, hid⟩ := hdirty i hi
      exact (hks _ ⟨i, hi, rfl, hid⟩).1
    have hle := (hnd.subperm hsub).length_le
    rwa [List.length_map] at hle
  have hsum := List.length_eq_length_filter_add (l := m.head) (fun i => (m.buf i).busy)
  omega

/-- A block nobody holds can be read when there is a buffer to recycle. -/
lemma ready_of_recyclable (hr : ∃ i, recyclable m = some i)
    (hlt : k.2 < d.nsecs k.1) (hfree : ∀ i ∈ m.head, (m.buf i).key = k → (m.buf i).busy = false) :
    Ready m d k := by
  rw [Ready]
  cases hcd : cached m k.1 k.2 with
  | none => exact ⟨hr, hlt⟩
  | some i =>
    obtain ⟨hi, hk⟩ := cached_eq_some hcd
    exact ⟨hfree i hi hk, Or.inr hlt⟩

end ops

end RpiOs.Bio
