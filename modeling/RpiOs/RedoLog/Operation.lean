import RpiOs.Lib.Silent
import RpiOs.RedoLog.CrashAtomicity

/-!
# Inside a file-system operation

Between `begin_op` and `end_op` an operation only works on the cache: it reads blocks, keeps some
of the buffers in its hands, changes them and passes them to `log_write`. `Scene` is what it knows
of the machine meanwhile, in terms of blocks: their contents, the blocks logged so far, the buffers
it holds. `Work` relates the two, and there is one rule for each thing an operation does.

`Running.work` and `Work.running` connect this to the relation between two steps of the kernel.
-/

namespace RpiOs.RedoLog

open Lib Kernel Bio

/-! ## What an operation knows -/

/-- The machine in terms of the blocks of one device. -/
structure Scene where
  /-- The contents of the blocks. -/
  V : Nat → Block
  /-- The blocks logged so far. -/
  lh : List Nat
  /-- The buffers in hand, each with its block. -/
  held : List (Nat × Nat)

namespace Scene

variable (G : Scene)

/-- Block `b` has contents `x` now. -/
def put (b : Nat) (x : Block) : Scene := { G with V := fun c => if c = b then x else G.V c }

/-- Buffer `i` with block `b` is in hand now. -/
def hold (i b : Nat) : Scene := { G with held := (i, b) :: G.held }

/-- Block `b` is logged now. -/
def log (b : Nat) : Scene := { G with lh := absorb G.lh b }

/-- No buffer in hand carries block `b`. -/
def Free (b : Nat) : Prop := ∀ p ∈ G.held, p.2 ≠ b

variable {G}

@[simp] lemma hold_V (i b : Nat) : (G.hold i b).V = G.V := rfl

@[simp] lemma put_self (b : Nat) (x : Block) : (G.put b x).V b = x := if_pos rfl

lemma put_of_ne {b c : Nat} (x : Block) (h : c ≠ b) : (G.put b x).V c = G.V c := if_neg h

end Scene

/-- The machine inside an operation; `l` is the device's log as it was when the operation began. -/
structure Work (g : Layout) (l : Log) (d : Disk) (G : Scene) (m : Mem) : Prop where
  quiet : Quiet unused (G.held.map Prod.fst) m d
  nodup : (G.held.map Prod.fst).Nodup
  blocks : ∀ p ∈ G.held, (m.buf p.1).key = (g.dev, p.2)
  length : m.head.length = nbuf
  mounted : Mounted g m
  log : m.log g.dev = { l with lh := G.lh }
  collected : Collected g m d
  view : ∀ b, ¬ g.InLog b → view m d (g.dev, b) = G.V b

variable {g : Layout} {l : Log} {d : Disk} {G : Scene} {m : Mem} {i b : Nat} {H : Stop → Prop}

lemma key_of_other {m' : Mem} (hother : ∀ j, j ≠ i → m'.buf j = m.buf j)
    (hkey : (m'.buf i).key = (m.buf i).key) (j : Nat) : (m'.buf j).key = (m.buf j).key := by
  by_cases hji : j = i
  · rw [hji, hkey]
  · rw [hother j hji]

section

variable (h : Work g l d G m) {hs : List (Nat × Nat)} {Q : Unit → Mem → Prop}
include h

lemma Work.lh_eq : (m.log g.dev).lh = G.lh := by rw [h.log]

lemma Work.room {n : Nat} (hn : n + G.lh.length ≤ nbuf) : Room m n := by
  refine ⟨G.lh.map fun b => (g.dev, b), fun k hk => ?_, by simpa [h.length] using hn⟩
  obtain ⟨b, hb, rfl⟩ := (h.collected.dirty k).mp hk
  rw [h.lh_eq] at hb
  exact ⟨List.mem_map.mpr ⟨b, hb, rfl⟩, Layout.key_ne b⟩

lemma Work.dirty_iff (b : Nat) : Dirty m (g.dev, b) ↔ b ∈ G.lh := by
  rw [h.collected.dirty, h.lh_eq]
  constructor
  · rintro ⟨c, hc, he⟩
    rw [(Prod.mk.inj he).2]
    exact hc
  · intro hb
    exact ⟨b, hb, rfl⟩

lemma Work.notHeld (hf : G.Free b) : NotHeld (G.held.map Prod.fst) m (g.dev, b) := by
  intro j hj he
  obtain ⟨p, hp, rfl⟩ := List.mem_map.mp hj
  rw [h.blocks p hp] at he
  exact hf p hp (Prod.mk.inj he).2

/-- A block that is not in hand is logged or as on the card. -/
lemma Work.settled (hf : G.Free b) (hin : ¬ g.InLog b) :
    b ∈ G.lh ∨ G.V b = d.block g.dev b := by
  by_cases hlh : b ∈ G.lh
  · exact Or.inl hlh
  refine Or.inr ?_
  rw [← h.view b hin]
  refine h.quiet.cache.view_of_not_dirty (k := (g.dev, b)) ?_ (Layout.key_ne b)
    fun hd => hlh ((h.dirty_iff b).mp hd)
  exact fun j hj hjk => h.quiet.not_busy (h.notHeld hf) hj hjk

lemma Work.data (hp : (i, b) ∈ G.held) (hin : ¬ g.InLog b) : (m.buf i).data = G.V b := by
  have hi := h.quiet.inHand i (List.mem_map.mpr ⟨(i, b), hp, rfl⟩)
  rw [← h.view b hin]
  exact (h.quiet.cache.view_of_mem hi.mem (h.blocks _ hp) (Layout.key_ne b) hi.valid).symm

/-- What a change of one buffer leaves of a log: its blocks are dirty as before. -/
lemma Work.collected_of {m' : Mem} (hlog : m'.log = m.log) (hd : ∀ k, Dirty m' k ↔ Dirty m k) :
    Collected g m' d := by
  obtain ⟨h1, h2, h3, h4⟩ := h.collected
  refine ⟨by rwa [hlog], by rwa [hlog], by rwa [hlog], fun k => ?_⟩
  rw [hd, hlog]
  exact h4 k

/-! ## The rules -/

/-- Read a block: one more buffer in hand. -/
lemma Work.bread_wp (hb : g.Home d b) (hf : G.Free b)
    (hroom : G.held.length + G.lh.length < nbuf ∨ ∀ e, H e)
    {Q : Nat → Mem → Prop} (hQ : ∀ i m', Work g l d (G.hold i b) m' → Q i m') :
    Silent (bread g.dev b) m d Q H := by
  refine Bio.bread_wp h.quiet.cache (Layout.key_ne b) rfl (fun i m' hbr => ⟨rfl, hQ i m' ?_⟩) ?_
  · obtain ⟨hq, hni⟩ := h.quiet.of_bread hbr (Layout.key_ne b)
    have hne : ∀ p ∈ G.held, p.1 ≠ i := fun p hp he => hni (List.mem_map.mpr ⟨p, hp, he⟩)
    refine ⟨hq, List.nodup_cons.mpr ⟨hni, h.nodup⟩, ?_, hbr.length.trans h.length,
      h.mounted.congr hbr.log, by rw [hbr.log, h.log]; rfl, ?_, ?_⟩
    · intro p hp
      rcases List.mem_cons.mp hp with rfl | hp
      · exact hbr.key
      · rw [hbr.other _ (hne p hp)]
        exact h.blocks p hp
    · exact h.collected_of hbr.log hbr.dirty
    · intro c hin
      rw [hbr.view _ (Layout.key_ne c)]
      exact h.view c hin
  · intro hnr e
    rcases hroom with hroom | hH
    · refine absurd (h.quiet.ready (h.notHeld hf) (h.room ?_) hb.2) hnr
      rw [List.length_map]
      omega
    · exact hH e

section

variable (hp : (i, b) ∈ G.held) {Q : Unit → Mem → Prop}
include hp

lemma Work.getData_wp (hin : ¬ g.InLog b) {Q : Block → Mem → Prop} (hQ : Q (G.V b) m) :
    Silent (getData i) m d Q H := by
  unfold getData
  refine .bind (silent_get.mpr ?_)
  rw [silent_pure, h.data hp hin]
  exact hQ

/-- Change a buffer in hand. -/
lemma Work.modifyData_wp (hin : ¬ g.InLog b) (f : Block → Block)
    (hQ : ∀ m', Work g l d (G.put b (f (G.V b))) m' → Q () m') :
    Silent (modifyData i f) m d Q H := by
  have himem : i ∈ G.held.map Prod.fst := List.mem_map.mpr ⟨(i, b), hp, rfl⟩
  have hi := h.quiet.inHand i himem
  refine Bio.modifyData_wp h.quiet.cache hi f rfl fun m' hm => ⟨rfl, hQ m' ?_⟩
  rw [h.data hp hin] at hm
  have hkeys := key_of_other hm.other (by rw [hm.buf]; rfl)
  refine ⟨h.quiet.upd hm.cache hm.mem_head hm.other himem (hm.held hi), h.nodup, ?_,
    hm.length.trans h.length, h.mounted.congr hm.log, by rw [hm.log, h.log]; rfl, ?_, ?_⟩
  · exact fun p hpp => (hkeys p.1).trans (h.blocks p hpp)
  · exact h.collected_of hm.log hm.dirty
  · intro c hinc
    rw [hm.view _ (Layout.key_ne c), h.blocks _ hp]
    by_cases hcb : c = b
    · rw [if_pos (by rw [hcb]), hcb, Scene.put_self]
    · rw [if_neg fun he => hcb (Prod.mk.inj he).2, Scene.put_of_ne _ hcb]
      exact h.view c hinc

/-- Log a buffer in hand. -/
lemma Work.logWrite_wp (hb : g.Home d b) (hacc : Accepts { l with lh := G.lh } ∨ ∀ e, H e)
    (hQ : ∀ m', Work g l d (G.log b) m' → Q () m') : Silent (logWrite i) m d Q H := by
  have himem : i ∈ G.held.map Prod.fst := List.mem_map.mpr ⟨(i, b), hp, rfl⟩
  have hi := h.quiet.inHand i himem
  have hkey := h.blocks _ hp
  have hdev : (m.buf i).dev = g.dev := congrArg Prod.fst hkey
  refine RedoLog.logWrite_wp h.quiet.cache hi ?_ rfl (fun m' hl => ⟨rfl, hQ m' ?_⟩) ?_
  · rw [hdev]
    exact h.mounted.active
  swap
  · intro hno e
    rw [hdev, h.log] at hno
    rcases hacc with hacc | hH
    · exact absurd hacc hno
    · exact hH e
  have hkeys := key_of_other hl.other (by rw [hl.buf]; rfl)
  have hlog : m'.log = loggedLog m (g.dev, b) := by rw [hl.log, hkey]
  have hself : m'.log g.dev = { l with lh := absorb G.lh b } := by
    rw [hlog, loggedLog, Mem.setLog_self, h.log]
  have hother : ∀ j, j ≠ g.dev → m'.log j = m.log j := fun j hj => by
    rw [hlog, loggedLog, Mem.setLog_of_ne hj]
  refine ⟨h.quiet.upd hl.cache hl.mem_head hl.other himem (hl.held hi), h.nodup, ?_,
    hl.length.trans h.length, ?_, hself, ?_, ?_⟩
  · exact fun p hpp => (hkeys p.1).trans (h.blocks p hpp)
  · obtain ⟨h1, h2, h3, h4, h5⟩ := h.mounted
    rw [h.log] at h1 h2 h3 h4
    refine ⟨by rw [hself]; exact h1, by rw [hself]; exact h2, by rw [hself]; exact h3,
      by rw [hself]; exact h4, fun j hj => ?_⟩
    rw [hother j hj]
    exact h5 j hj
  · have hacc := hl.accepts
    rw [hdev, h.log] at hacc
    obtain ⟨ha1, ha2, -⟩ := hacc
    have hsize := h.mounted.size
    rw [h.log] at hsize
    have hlen := length_absorb G.lh b
    dsimp only at ha1 ha2 hsize
    refine ⟨?_, ?_, ?_, fun k => ?_⟩
    · rw [hself]
      show (absorb G.lh b).length < g.size
      omega
    · rw [hself]
      show (absorb G.lh b).length ≤ logsize
      omega
    · rw [hself]
      intro c hc
      rcases (mem_absorb _ _ _).mp hc with rfl | hc
      · exact hb
      · exact h.collected.home c (by rwa [h.lh_eq])
    rw [hl.dirty, h.collected.dirty, hself, hkey, h.lh_eq]
    simp only [mem_absorb]
    constructor
    · rintro (rfl | ⟨c, hc, rfl⟩)
      · exact ⟨b, Or.inl rfl, rfl⟩
      · exact ⟨c, Or.inr hc, rfl⟩
    rintro ⟨c, rfl | hc, rfl⟩
    · exact Or.inl rfl
    · exact Or.inr ⟨c, hc, rfl⟩
  · intro c hinc
    rw [hl.view _ (Layout.key_ne c)]
    exact h.view c hinc

/-- A buffer in hand may be given back if its block is logged or as on the card. -/
lemma Work.releasable (hin : ¬ g.InLog b) (hclean : b ∈ G.lh ∨ G.V b = d.block g.dev b)
    (hd : (m.buf i).dirty = false) : (m.buf i).data = d.block (m.buf i).dev (m.buf i).blockno := by
  have hi := h.quiet.inHand i (List.mem_map.mpr ⟨(i, b), hp, rfl⟩)
  have hkey := h.blocks _ hp
  rcases hclean with hb | hb
  · have := (h.dirty_iff b).mpr hb
    rw [← hkey, h.quiet.cache.dirty_iff hi.mem hi.key_ne, hd] at this
    exact absurd this Bool.false_ne_true
  · have hdev : (m.buf i).dev = g.dev := congrArg Prod.fst hkey
    have hbno : (m.buf i).blockno = b := congrArg Prod.snd hkey
    rw [h.data hp hin, hb, hdev, hbno]

end

/-- What an operation knows after it gave a buffer back. -/
lemma Work.released (hheld : G.held = (i, b) :: hs)
    {m' : Mem} (hr : Released unused m d i m') : Work g l d { G with held := hs } m' := by
  have hnd := h.nodup
  have hq := h.quiet
  rw [hheld] at hnd hq
  rw [List.map_cons, List.nodup_cons] at hnd
  refine ⟨hq.released hnd.1 hr, hnd.2, ?_, hr.length.trans h.length, h.mounted.congr hr.log,
    by rw [hr.log, h.log], ?_, ?_⟩
  · intro p hpp
    have hpi : p.1 ≠ i := fun he => hnd.1 (List.mem_map.mpr ⟨p, hpp, he⟩)
    rw [hr.other _ hpi]
    refine h.blocks p ?_
    rw [hheld]
    exact List.mem_cons_of_mem _ hpp
  · exact h.collected_of hr.log hr.dirty
  · intro c hinc
    rw [hr.view _ (Layout.key_ne c)]
    exact h.view c hinc

/-- Give the last buffer back. -/
lemma Work.brelse_wp (hheld : G.held = (i, b) :: hs)
    (hin : ¬ g.InLog b) (hclean : b ∈ G.lh ∨ G.V b = d.block g.dev b)
    (hQ : ∀ m', Work g l d { G with held := hs } m' → Q () m') :
    Silent (brelse i) m d Q H := by
  have hp : (i, b) ∈ G.held := by
    rw [hheld]
    exact List.mem_cons_self
  have hi := h.quiet.inHand i (List.mem_map.mpr ⟨(i, b), hp, rfl⟩)
  exact Bio.brelse_wp h.quiet.cache hi (fun hd _ => h.releasable hp hin hclean hd) rfl
    fun m' hr => ⟨rfl, hQ m' (h.released hheld hr)⟩

/-- **Change one block**: read it, change it, log it and release it. -/
lemma Work.change_wp (hb : g.Home d b) (hf : G.Free b)
    (hroom : G.held.length + G.lh.length < nbuf ∨ ∀ e, H e)
    (hacc : Accepts { l with lh := G.lh } ∨ ∀ e, H e) (f : Block → Block)
    (hQ : ∀ m', Work g l d ((G.put b (f (G.V b))).log b) m' → Q () m') :
    Silent (do let i ← bread g.dev b; modifyData i f; logWrite i; brelse i) m d Q H := by
  refine .bind (h.bread_wp hb hf hroom fun i m1 h1 => ?_)
  refine .bind (h1.modifyData_wp List.mem_cons_self hb.1 f fun m2 h2 => ?_)
  refine .bind (h2.logWrite_wp List.mem_cons_self hb hacc fun m3 h3 => ?_)
  refine h3.brelse_wp rfl hb.1 (Or.inl ?_) hQ
  exact (mem_absorb _ _ _).mpr (Or.inl rfl)

end

/-! ## From the relation between two steps and back -/

variable {m' : Mem} {t : Tx}

/-- What an operation knows when it begins. -/
def Scene.begin (V : Nat → Block) (lh : List Nat) : Scene where
  V := V
  lh := lh
  held := []

/-- Between two steps an operation may begin. -/
theorem Running.work (h : Running g m d t) :
    Work g (m.log g.dev) d (Scene.begin t.current (m.log g.dev).lh) m where
  quiet := h.toQuiet
  nodup := List.nodup_nil
  blocks := List.forall_mem_nil _
  length := h.length
  mounted := h.mounted
  log := rfl
  collected := h.collected
  view := h.view

/-- An operation that has given its buffers back has changed the current state. -/
theorem Work.running {V : Nat → Block} {lh : List Nat} (h : Running g m d t)
    (hw : Work g (m.log g.dev) d (Scene.begin V lh) m') :
    Running g m' d { t with current := V } where
  toQuiet := hw.quiet
  length := hw.length
  mounted := hw.mounted
  committing := by
    rw [hw.log]
    exact h.committing
  outstanding := by
    rw [hw.log]
    exact h.outstanding
  collected := hw.collected
  header := h.header
  pending := h.pending
  view := hw.view

end RpiOs.RedoLog
