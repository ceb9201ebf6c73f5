import RpiOs.RedoLog.Block

/-!
# Working on a device without a log

The ext2 code reads blocks, keeps some of the buffers, changes them and writes them to the card
itself. `Desk` is what such code knows of the machine in terms of the blocks of its device, and
`OnDesk` relates the two. There is one rule for each thing the code does.

A block whose buffer is given back with changes that were not written is stale: nothing is known of
its contents from then on. `AtDesk` is the desk of code that does not do this, with the same rules.
-/

namespace RpiOs.Bio

open Lib Kernel RedoLog

/-- The blocks of one device as the code that works on it knows them. -/
structure Desk where
  /-- The contents of the blocks. -/
  V : Nat → Block
  /-- The buffers in hand, each with its block. -/
  held : List (Nat × Nat)
  /-- The blocks that were changed but not written. -/
  unsaved : Nat → Prop
  /-- The number of buffers that can be in hand at a time. -/
  room : Nat

namespace Desk

variable (D : Desk)

/-- Block `b` has contents `x` now, in memory. -/
def put (b : Nat) (x : Block) : Desk :=
  { D with V := fun c => if c = b then x else D.V c, unsaved := fun c => D.unsaved c ∨ c = b }

/-- Buffer `i` with block `b` is in hand now. -/
def hold (i b : Nat) : Desk := { D with held := (i, b) :: D.held }

/-- Block `b` is on the card now. -/
def save (b : Nat) : Desk := { D with unsaved := fun c => D.unsaved c ∧ c ≠ b }

/-- No buffer in hand carries block `b`. -/
def Free (b : Nat) : Prop := ∀ p ∈ D.held, p.2 ≠ b

variable {D}

@[simp] lemma hold_V (i b : Nat) : (D.hold i b).V = D.V := rfl

@[simp] lemma put_self (b : Nat) (x : Block) : (D.put b x).V b = x := if_pos rfl

lemma put_of_ne {b c : Nat} (x : Block) (h : c ≠ b) : (D.put b x).V c = D.V c := if_neg h

end Desk

/-- The blocks `S` of device `dev`, and the mark of unused buffers. -/
def stale (dev : Nat) (S : Nat → Prop) : Nat × Nat → Prop :=
    fun k => k = nullKey ∨ k.1 = dev ∧ S k.2

/-- The machine while code works on device `dev`, where the buffers of the blocks `S` may have been
given back with changes that are not on the card. -/
structure OnDesk (dev : Nat) (S : Nat → Prop) (D : Desk) (m : Mem) (d : Disk) : Prop where
  dev_ne : dev ≠ 0
  quiet : Quiet (stale dev S) (D.held.map Prod.fst) m d
  nodup : (D.held.map Prod.fst).Nodup
  blocks : ∀ p ∈ D.held, (m.buf p.1).key = (dev, p.2)
  clean : ∀ b, ¬ Dirty m (dev, b)
  view : ∀ b, ¬ S b → view m d (dev, b) = D.V b
  data : ∀ p ∈ D.held, (m.buf p.1).data = D.V p.2
  saved : ∀ b, ¬ S b → ¬ D.unsaved b → d.block dev b = D.V b
  room : Room m D.room

variable {dev : Nat} {S T : Nat → Prop} {D : Desk} {m : Mem} {d : Disk} {i b : Nat}
  {H : Stop → Prop}

section

variable (h : OnDesk dev S D m d) {Q : Unit → Mem → Disk → Prop}
include h

lemma OnDesk.key_ne (b : Nat) : (dev, b) ≠ nullKey :=
  fun he => h.dev_ne (congrArg Prod.fst he)

lemma OnDesk.not_stale (hb : ¬ S b) : ¬ stale dev S (dev, b) := by
  rintro (he | ⟨-, hs⟩)
  · exact h.key_ne b he
  · exact hb hs

lemma OnDesk.held (hp : (i, b) ∈ D.held) : Held m i :=
  h.quiet.inHand i (List.mem_map.mpr ⟨(i, b), hp, rfl⟩)

lemma OnDesk.notHeld (hf : D.Free b) : NotHeld (D.held.map Prod.fst) m (dev, b) := by
  intro j hj he
  obtain ⟨p, hp, rfl⟩ := List.mem_map.mp hj
  rw [h.blocks p hp] at he
  exact hf p hp (Prod.mk.inj he).2

lemma OnDesk.block_ne {p : Nat × Nat} (hp : (i, b) ∈ D.held) (hp' : p ∈ D.held)
    (hne : p.1 ≠ i) : p.2 ≠ b := by
  intro he
  have hkey : (m.buf p.1).key = (m.buf i).key := by
    rw [h.blocks p hp', h.blocks _ hp, he]
  have hmem := (h.held (i := p.1) (b := p.2) hp').mem
  exact hne (h.quiet.cache.uniq _ hmem i (h.held hp).mem hkey
    (h.held (i := p.1) (b := p.2) hp').key_ne)

lemma OnDesk.mono (hST : ∀ b, S b → T b) : OnDesk dev T D m d := by
  refine ⟨h.dev_ne, ⟨h.quiet.cache.mono ?_, h.quiet.busy, h.quiet.inHand⟩, h.nodup,
    h.blocks, h.clean,
    fun b hb => h.view b fun hs => hb (hST b hs), h.data,
      fun b hb => h.saved b fun hs => hb (hST b hs), h.room⟩
  exact fun k => Or.imp_right (And.imp_right (hST k.2))

/-- Another description of the same blocks; it may call more of them unsaved. -/
lemma OnDesk.congr {D' : Desk} (hV : ∀ b, D'.V b = D.V b)
    (hh : D'.held = D.held) (hu : ∀ b, D.unsaved b → D'.unsaved b) (hr : D'.room = D.room) :
    OnDesk dev S D' m d := by
  refine ⟨h.dev_ne, hh ▸ h.quiet, hh ▸ h.nodup, hh ▸ h.blocks, h.clean, fun b hb => ?_,
    fun p hp => ?_, fun b hb hub => ?_, hr ▸ h.room⟩
  · rw [hV]
    exact h.view b hb
  · rw [hV]
    exact h.data p (hh ▸ hp)
  · rw [hV]
    exact h.saved b hb fun hub' => hub (hu b hub')

/-- Take the buffer of a block. It cannot be in hand already, or the code would wait for itself. -/
lemma OnDesk.bread_wp (hb : ¬ S b)
    (hok : (D.Free b ∧ D.held.length < D.room ∧ b < d.nsecs dev) ∨ ∀ e, H e)
    {Q : Nat → Mem → Disk → Prop}
    (hQ : ∀ i m', D.Free b → OnDesk dev S (D.hold i b) m' d → Q i m' d) :
    Wp (bread dev b) m d Q (H := H) := by
  refine Bio.bread_wp h.quiet.cache (h.key_ne b) trivial (fun i m' hbr => ?_) fun hnr e => ?_
  · obtain ⟨hq, hni⟩ := h.quiet.of_bread hbr (h.key_ne b)
    have hne : ∀ p ∈ D.held, p.1 ≠ i := fun p hp he => hni (List.mem_map.mpr ⟨p, hp, he⟩)
    have hfree : D.Free b := by
      intro p hp he
      have hkey := h.blocks p hp
      rw [he, ← hbr.other _ (hne p hp), ← hbr.key] at hkey
      have hmem := (hbr.mem_head p.1).mpr (h.held (b := p.2) hp).mem
      refine hne p hp (hbr.cache.uniq _ hmem i ((hbr.mem_head i).mpr hbr.mem) hkey ?_)
      rw [hkey, hbr.key]
      exact h.key_ne b
    refine hQ i m' hfree ⟨h.dev_ne, hq, List.nodup_cons.mpr ⟨hni, h.nodup⟩, ?_, ?_, ?_, ?_,
      h.saved, ?_⟩
    · intro p hp
      rcases List.mem_cons.mp hp with rfl | hp
      · exact hbr.key
      · rw [hbr.other _ (hne p hp)]
        exact h.blocks p hp
    · intro c
      rw [hbr.dirty]
      exact h.clean c
    · intro c hc
      rw [hbr.view _ (h.not_stale hc)]
      exact h.view c hc
    · intro p hp
      rcases List.mem_cons.mp hp with rfl | hp
      · exact hbr.data.trans (h.view b hb)
      · rw [hbr.other _ (hne p hp)]
        exact h.data p hp
    · exact h.room.congr (fun k hk => (hbr.dirty k).mp hk) hbr.length
  · rcases hok with ⟨hf, hr, hlt⟩ | hH
    · refine absurd (h.quiet.ready (h.notHeld hf) (h.room.mono ?_) hlt) hnr
      rw [List.length_map]
      exact hr
    · exact hH e

lemma OnDesk.getData_wp (hp : (i, b) ∈ D.held)
    {Q : Block → Mem → Disk → Prop} (hQ : Q (D.V b) m d) :
    Wp (getData i) m d Q (H := H) := by
  simp only [getData, wp_bind, wp_get, wp_pure]
  rw [h.data _ hp]
  exact ⟨trivial, trivial, hQ⟩

/-- A change of a buffer on the desk puts the new contents on the desk. -/
lemma OnDesk.modifyData_wp (hp : (i, b) ∈ D.held) (f : Block → Block)
    (hQ : ∀ m', OnDesk dev S (D.put b (f (D.V b))) m' d → Q () m' d) :
    Wp (modifyData i f) m d Q (H := H) := by
  have himem : i ∈ D.held.map Prod.fst := List.mem_map.mpr ⟨(i, b), hp, rfl⟩
  have hi := h.held hp
  refine Bio.modifyData_wp h.quiet.cache hi f trivial fun m' hm => hQ m' ?_
  rw [h.data _ hp] at hm
  refine ⟨h.dev_ne, h.quiet.upd hm.cache hm.mem_head hm.other himem (hm.held hi), h.nodup, ?_, ?_,
    fun c hs => ?_, fun p hpp => ?_, fun c hs hc => ?_,
    h.room.congr (fun k hk => (hm.dirty k).mp hk) hm.length⟩
  · intro p hpp
    by_cases hpi : p.1 = i
    · rw [hpi, hm.buf]
      exact hpi ▸ h.blocks p hpp
    · rw [hm.other _ hpi]
      exact h.blocks p hpp
  · intro c
    rw [hm.dirty]
    exact h.clean c
  · rw [hm.view _ (h.not_stale hs), h.blocks _ hp]
    by_cases hcb : c = b
    · rw [if_pos (by rw [hcb]), hcb, Desk.put_self]
    · rw [if_neg fun he => hcb (Prod.mk.inj he).2, Desk.put_of_ne _ hcb]
      exact h.view c hs
  · by_cases hpi : p.1 = i
    · have hkey := h.blocks p hpp
      rw [hpi, h.blocks _ hp] at hkey
      rw [hpi, hm.buf, ← (Prod.mk.inj hkey).2, Desk.put_self]
    · rw [hm.other _ hpi, Desk.put_of_ne _ (h.block_ne hp hpp hpi)]
      exact h.data p hpp
  · have hcb : c ≠ b := fun he => hc (Or.inr he)
    rw [Desk.put_of_ne _ hcb]
    exact h.saved c hs fun hu => hc (Or.inl hu)

/-- A write of a buffer on the desk saves its block. -/
lemma OnDesk.bwrite_wp (hp : (i, b) ∈ D.held) (hok : b < d.nsecs dev ∨ ∀ e, H e)
    (hQ : ∀ m', OnDesk dev S (D.save b) m' (d.set dev b (D.V b)) → Q () m' (d.set dev b (D.V b))) :
    Wp (bwrite i) m d Q (H := H) := by
  have himem : i ∈ D.held.map Prod.fst := List.mem_map.mpr ⟨(i, b), hp, rfl⟩
  have hi := h.held hp
  have hkey := h.blocks _ hp
  have hdev : (m.buf i).dev = dev := congrArg Prod.fst hkey
  have hbno : (m.buf i).blockno = b := congrArg Prod.snd hkey
  refine Bio.bwrite_wp h.quiet.cache hi trivial trivial (fun m' d' hw => ?_) fun hno e => ?_
  · have hd' : d' = d.set dev b (D.V b) := by
      rw [hw.disk, hdev, hbno, h.data _ hp]
    subst hd'
    refine hQ m' ⟨h.dev_ne, h.quiet.upd hw.cache hw.mem_head hw.other himem (hw.held hi), h.nodup,
      ?_, ?_, fun c hs => ?_, fun p hpp => ?_, fun c hs hc => ?_, ?_⟩
    · intro p hpp
      by_cases hpi : p.1 = i
      · rw [hpi, hw.buf]
        exact hpi ▸ h.blocks p hpp
      · rw [hw.other _ hpi]
        exact h.blocks p hpp
    · intro c hc
      exact h.clean c ((hw.dirty _).mp hc).2
    · rw [hw.view _ (h.not_stale hs)]
      exact h.view c hs
    · by_cases hpi : p.1 = i
      · rw [hpi, hw.buf]
        exact hpi ▸ h.data p hpp
      · rw [hw.other _ hpi]
        exact h.data p hpp
    · by_cases hcb : c = b
      · rw [hcb, Disk.set_block_self]
        rfl
      · rw [Disk.set_block_of_ne _ _ fun he => hcb he.2]
        exact h.saved c hs fun hu => hc ⟨hu, hcb⟩
    · exact h.room.congr (fun k hk => ((hw.dirty k).mp hk).2) hw.length
  · rcases hok with hlt | hH
    · exact absurd (by rw [hdev, hbno]; exact hlt) hno
    · exact hH e

/-- Give the last buffer back; changes that are not on the card make its block stale. -/
lemma OnDesk.brelse_wp {hs : List (Nat × Nat)} (hheld : D.held = (i, b) :: hs)
    (hsaved : S b ∨ ¬ D.unsaved b) (hQ : ∀ m', OnDesk dev S { D with held := hs } m' d →
    Q () m' d) :
    Wp (brelse i) m d Q (H := H) := by
  have hp : (i, b) ∈ D.held := by
    rw [hheld]
    exact List.mem_cons_self
  have hi := h.held hp
  have hkey := h.blocks _ hp
  have hnd := h.nodup
  have hq := h.quiet
  rw [hheld] at hnd hq
  rw [List.map_cons, List.nodup_cons] at hnd
  have hrest : ∀ p ∈ hs, p ∈ D.held := fun p hp => by
    rw [hheld]
    exact List.mem_cons_of_mem _ hp
  refine Bio.brelse_wp h.quiet.cache hi (fun _ hns => ?_) trivial fun m' hr => hQ m' ?_
  · have hdev : (m.buf i).dev = dev := congrArg Prod.fst hkey
    have hbno : (m.buf i).blockno = b := congrArg Prod.snd hkey
    have hb : ¬ S b := fun hs => hns (Or.inr ⟨hdev, by rw [← hbno] at hs; exact hs⟩)
    rw [h.data _ hp, hdev, hbno, h.saved b hb (hsaved.resolve_left hb)]
  have hother : ∀ p ∈ hs, m'.buf p.1 = m.buf p.1 := fun p hpp =>
    hr.other _ fun he => hnd.1 (List.mem_map.mpr ⟨p, hpp, he⟩)
  refine ⟨h.dev_ne, hq.released hnd.1 hr, hnd.2, ?_, ?_, ?_, ?_, h.saved, ?_⟩
  · intro p hpp
    rw [hother p hpp]
    exact h.blocks p (hrest p hpp)
  · intro c
    rw [hr.dirty]
    exact h.clean c
  · intro c hc
    rw [hr.view _ (h.not_stale hc)]
    exact h.view c hc
  · intro p hpp
    rw [hother p hpp]
    exact h.data p (hrest p hpp)
  · exact h.room.congr (fun k hk => (hr.dirty k).mp hk) hr.length

end

/-! ## Without stale blocks -/

/-- The machine while code works on device `dev`. -/
structure AtDesk (dev : Nat) (D : Desk) (m : Mem) (d : Disk) : Prop where
  dev_ne : dev ≠ 0
  quiet : Quiet unused (D.held.map Prod.fst) m d
  nodup : (D.held.map Prod.fst).Nodup
  blocks : ∀ p ∈ D.held, (m.buf p.1).key = (dev, p.2)
  clean : ∀ b, ¬ Dirty m (dev, b)
  view : ∀ b, view m d (dev, b) = D.V b
  saved : ∀ b, ¬ D.unsaved b → d.block dev b = D.V b
  room : Room m D.room

lemma AtDesk.key_ne (h : AtDesk dev D m d) (b : Nat) : (dev, b) ≠ nullKey :=
  fun he => h.dev_ne (congrArg Prod.fst he)

lemma AtDesk.held (h : AtDesk dev D m d) (hp : (i, b) ∈ D.held) : Held m i :=
  h.quiet.inHand i (List.mem_map.mpr ⟨(i, b), hp, rfl⟩)

lemma AtDesk.data (h : AtDesk dev D m d) (hp : (i, b) ∈ D.held) : (m.buf i).data = D.V b := by
  have hi := h.held hp
  rw [← h.view b]
  exact (h.quiet.cache.view_of_mem hi.mem (h.blocks _ hp) (h.key_ne b) hi.valid).symm

lemma stale_none (dev : Nat) : stale dev ⊥ = unused := by
  funext k
  simp [stale, unused]

lemma AtDesk.onDesk (h : AtDesk dev D m d) : OnDesk dev ⊥ D m d :=
  ⟨h.dev_ne, (stale_none dev).symm ▸ h.quiet, h.nodup, h.blocks, h.clean, fun b _ => h.view b,
    fun _ hp => h.data hp, fun b _ => h.saved b, h.room⟩

lemma OnDesk.atDesk (h : OnDesk dev ⊥ D m d) : AtDesk dev D m d :=
  ⟨h.dev_ne, stale_none dev ▸ h.quiet, h.nodup, h.blocks, h.clean, fun b => h.view b not_false,
    fun b => h.saved b not_false, h.room⟩

section

variable (h : AtDesk dev D m d) {Q : Unit → Mem → Disk → Prop}
include h

lemma AtDesk.settle (hb : d.block dev b = D.V b) : AtDesk dev (D.save b) m d := by
  refine { h with saved := fun c hc => ?_ }
  by_cases hcb : c = b
  · rw [hcb]
    exact hb
  · exact h.saved c fun hu => hc ⟨hu, hcb⟩

lemma AtDesk.congr {D' : Desk} (hV : ∀ b, D'.V b = D.V b)
    (hh : D'.held = D.held) (hu : ∀ b, D.unsaved b → D'.unsaved b) (hr : D'.room = D.room) :
    AtDesk dev D' m d :=
  (h.onDesk.congr hV hh hu hr).atDesk

lemma AtDesk.bread_wp (hok : (D.Free b ∧ D.held.length < D.room ∧ b < d.nsecs dev) ∨ ∀ e, H e)
    {Q : Nat → Mem → Disk → Prop}
    (hQ : ∀ i m', D.Free b → AtDesk dev (D.hold i b) m' d → Q i m' d) :
    Wp (bread dev b) m d Q (H := H) :=
  h.onDesk.bread_wp not_false hok fun i m' hf h' => hQ i m' hf h'.atDesk

lemma AtDesk.getData_wp (hp : (i, b) ∈ D.held)
    {Q : Block → Mem → Disk → Prop} (hQ : Q (D.V b) m d) :
    Wp (getData i) m d Q (H := H) :=
  h.onDesk.getData_wp hp hQ

lemma AtDesk.modifyData_wp (hp : (i, b) ∈ D.held) (f : Block → Block)
    (hQ : ∀ m', AtDesk dev (D.put b (f (D.V b))) m' d → Q () m' d) :
    Wp (modifyData i f) m d Q (H := H) :=
  h.onDesk.modifyData_wp hp f fun m' h' => hQ m' h'.atDesk

lemma AtDesk.bwrite_wp (hp : (i, b) ∈ D.held) (hok : b < d.nsecs dev ∨ ∀ e, H e)
    (hQ : ∀ m', AtDesk dev (D.save b) m' (d.set dev b (D.V b)) → Q () m' (d.set dev b (D.V b))) :
    Wp (bwrite i) m d Q (H := H) :=
  h.onDesk.bwrite_wp hp hok fun m' h' => hQ m' h'.atDesk

lemma AtDesk.brelse_wp {hs : List (Nat × Nat)} (hheld : D.held = (i, b) :: hs)
    (hsaved : ¬ D.unsaved b) (hQ : ∀ m', AtDesk dev { D with held := hs } m' d → Q () m' d) :
    Wp (brelse i) m d Q (H := H) :=
  h.onDesk.brelse_wp hheld (Or.inr hsaved) fun m' h' => hQ m' h'.atDesk

end

end RpiOs.Bio
