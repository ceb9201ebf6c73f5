import RpiOs.RedoLog.Operation
import RpiOs.V6.Model

/-!
# The disk layout of v6 and its block allocator

`Fs` is a v6 file system on a device: a super block whose areas lie one after the other, as `mkfs`
lays them out. `Fs.bit V b` is the bit of block `b` in the bitmap, when the blocks of the device
are `V`.

* `balloc_wp`: `balloc` returns a block whose bit was clear, with the bit set and the block zeroed,
  or panics because the bits that it looks at are set.

`Budget` says how many blocks an operation can still log.
-/

namespace RpiOs.V6

open Lib Kernel Bio RedoLog

/-! ## The layout -/

/-- A v6 file system on device `dev`: [boot, super, log, inodes, bitmap, data].
Source: `inc/v6.h`; `usr/src/mkfs/main.c` -/
structure Fs where
  sb : SuperBlock
  dev : Nat
  dev_ne : dev ≠ 0
  dev_lt : dev < nlog
  log_pos : 0 < sb.nlog
  log_le : sb.logstart + sb.nlog ≤ sb.inodestart
  inodes_le : sb.inodestart + (sb.ninodes / ipb + 1) ≤ sb.bmapstart
  bmap_le : sb.bmapstart + (sb.size / bpb + 1) ≤ sb.size
  ninodes_le : sb.ninodes ≤ sb.size

namespace Fs

variable (fs : Fs)

/-- Where the log is. -/
def layout : Layout := ⟨fs.dev, fs.sb.logstart, fs.sb.nlog, fs.dev_ne, fs.dev_lt, fs.log_pos⟩

/-- The first block after the bitmap. -/
def dataStart : Nat := fs.sb.bmapstart + (fs.sb.size / bpb + 1)

/-- The file system fits on the device. -/
def On (d : Disk) : Prop := fs.sb.size ≤ d.nsecs fs.dev ∧ d.nsecs fs.dev < 2 ^ 32

/-- A block of the data area. -/
def Data (b : Nat) : Prop := fs.dataStart ≤ b ∧ b < fs.sb.size

/-- The bit of block `b` in the bitmap. -/
def bit (V : Nat → Block) (b : Nat) : Bool := bitAt (V (fs.sb.bblock b)) (b % bpb)

variable {fs} {d : Disk} {b c : Nat}

lemma dataStart_le : fs.dataStart ≤ fs.sb.size := fs.bmap_le

lemma inodestart_lt : fs.sb.inodestart < fs.sb.bmapstart :=
  Nat.lt_of_lt_of_le (Nat.lt_add_of_pos_right (Nat.succ_pos _)) fs.inodes_le

lemma bmapstart_lt : fs.sb.bmapstart < fs.dataStart := Nat.lt_add_of_pos_right (Nat.succ_pos _)

lemma home (hon : fs.On d) (h1 : fs.sb.inodestart ≤ b) (h2 : b < fs.sb.size) :
    fs.layout.Home d b := by
  have := fs.log_le
  refine ⟨fun hin => ?_, Nat.lt_of_lt_of_le h2 hon.1⟩
  have := hin.2
  dsimp only [layout] at this
  omega

lemma Data.home (h : fs.Data b) (hon : fs.On d) : fs.layout.Home d b := by
  have := fs.inodestart_lt
  have := fs.bmapstart_lt
  have := h.1
  exact Fs.home hon (by omega) h.2

lemma bblock_lt (hb : b < fs.sb.size) : fs.sb.bblock b < fs.dataStart := by
  have := Nat.div_le_div_right (c := bpb) (Nat.le_of_lt hb)
  unfold SuperBlock.bblock dataStart
  omega

lemma bblock_ge (b : Nat) : fs.sb.bmapstart ≤ fs.sb.bblock b := Nat.le_add_left _ _

lemma bblock_home (hon : fs.On d) (hb : b < fs.sb.size) : fs.layout.Home d (fs.sb.bblock b) := by
  have := fs.inodestart_lt
  have := fs.bblock_ge b
  have := bblock_lt hb
  have := fs.dataStart_le
  exact Fs.home hon (by omega) (by omega)

lemma iblock_lt (hb : b < fs.sb.ninodes) : fs.sb.iblock b < fs.sb.bmapstart := by
  have := Nat.div_le_div_right (c := ipb) (Nat.le_of_lt hb)
  have := fs.inodes_le
  unfold SuperBlock.iblock
  omega

lemma iblock_home (hon : fs.On d) (hb : b < fs.sb.ninodes) : fs.layout.Home d (fs.sb.iblock b) := by
  have := iblock_lt hb
  have := fs.bmapstart_lt
  have := fs.dataStart_le
  exact Fs.home hon (Nat.le_add_left _ _) (by omega)

lemma bblock_inj (h : fs.sb.bblock c = fs.sb.bblock b) (hm : c % bpb = b % bpb) : c = b := by
  unfold SuperBlock.bblock at h
  have hc := Nat.div_add_mod c bpb
  have hb := Nat.div_add_mod b bpb
  have : c / bpb = b / bpb := by omega
  rw [this, hm] at hc
  omega

lemma bit_congr {V V' : Nat → Block} (h : V' (fs.sb.bblock c) = V (fs.sb.bblock c)) :
    fs.bit V' c = fs.bit V c := by
  unfold bit
  rw [h]

end Fs

/-- Setting a bit in the bitmap. -/
def Fs.mark (fs : Fs) (G : Scene) (b : Nat) : Scene :=
  (G.put (fs.sb.bblock b) (setBit (G.V (fs.sb.bblock b)) (b % bpb))).log (fs.sb.bblock b)

variable {fs : Fs} {G : Scene} {b c : Nat}

/-- The bits after one was set. -/
lemma Fs.bit_mark : fs.bit (fs.mark G b).V c = (decide (c = b) || fs.bit G.V c) := by
  show bitAt ((G.put _ _).V _) _ = _
  unfold Fs.bit
  by_cases hB : fs.sb.bblock c = fs.sb.bblock b
  · rw [hB, Scene.put_self, bitAt_setBit]
    by_cases hcb : c = b
    · simp [hcb]
    · have : c % bpb ≠ b % bpb := fun hm => hcb (Fs.bblock_inj hB hm)
      simp [hcb, this]
  · have hcb : c ≠ b := fun he => hB (by rw [he])
    rw [Scene.put_of_ne _ hB]
    simp [hcb]

/-! ## The operations -/

/-- None of the blocks before the data area is in hand. -/
def Fs.Clear (fs : Fs) (G : Scene) : Prop :=
  ∀ x < fs.dataStart, G.Free x

/-- The log takes `n` more blocks, and the cache has room for two buffers in hand meanwhile; or the
operation may stop. -/
def Budget (l : Log) (lh : List Nat) (H : Stop → Prop) (n : Nat) : Prop :=
  (lh.length + n + 3 ≤ nbuf ∧ lh.length + n < l.size ∧ 1 ≤ l.outstanding) ∨ ∀ e, H e

variable {l : Log} {lh : List Nat} {H : Stop → Prop} {n : Nat}

lemma Budget.accepts (h : Budget l lh H (n + 1)) : Accepts { l with lh := lh } ∨ ∀ e, H e := by
  refine h.imp (fun ⟨h1, h2, h3⟩ => ⟨?_, ?_, h3⟩) id
  · show lh.length < logsize
    have : nbuf = logsize := rfl
    omega
  · show lh.length + 1 < l.size
    omega

lemma Budget.log (h : Budget l lh H (n + 1)) (b : Nat) : Budget l (absorb lh b) H n := by
  have := length_absorb lh b
  refine h.imp (fun ⟨h1, h2, h3⟩ => ⟨by omega, by omega, h3⟩) id

lemma Budget.mono {k : Nat} (h : Budget l lh H n) (hk : k ≤ n) : Budget l lh H k :=
  h.imp (fun ⟨h1, h2, h3⟩ => ⟨by omega, by omega, h3⟩) id

lemma Budget.room (h : Budget l lh H n) {k : Nat} (hk : k ≤ 2) :
    k + lh.length < nbuf ∨ ∀ e, H e := h.imp (fun ⟨h1, _, _⟩ => by omega) id

variable {d : Disk} {m : Mem} {Q : Unit → Mem → Prop}

/-- The scene after block `b` was allocated. -/
def Fs.allocated (fs : Fs) (G : Scene) (b : Nat) : Scene :=
  ((fs.mark G b).put b zeroBytes).log b

/-- What an operation must know to allocate: the bits of the blocks before the data area are set,
and so are those of the blocks in hand. -/
structure Fs.Allocates (fs : Fs) (G : Scene) : Prop where
  clear : fs.Clear G
  metadata : ∀ x < fs.dataStart, fs.bit G.V x = true
  inHand : ∀ p ∈ G.held, fs.bit G.V p.2 = true

lemma Fs.Allocates.free (h : fs.Allocates G) (hb : fs.bit G.V b = false) : G.Free b := by
  intro p hp he
  have := h.inHand p hp
  rw [he, hb] at this
  exact absurd this Bool.false_ne_true

lemma Fs.Allocates.data (h : fs.Allocates G) (hb : fs.bit G.V b = false) (hlt : b < fs.sb.size) :
    fs.Data b := by
  refine ⟨Nat.le_of_not_lt fun hd => ?_, hlt⟩
  rw [h.metadata b hd] at hb
  exact absurd hb.symm Bool.false_ne_true

/-- The bits of the first `k` groups are set. -/
def Fs.FullTo (fs : Fs) (V : Nat → Block) (k : Nat) : Prop :=
    ∀ b < fs.sb.size, b < k * bpb → fs.bit V b = true

/-- The block of bit `bi` of group `k`. -/
lemma Fs.bit_group (V : Nat → Block) {k bi : Nat} (hbi : bi < bpb) :
    fs.sb.bblock (k * bpb + bi) = fs.sb.bblock (k * bpb) ∧ (k * bpb + bi) % bpb = bi ∧
      fs.bit V (k * bpb + bi) = bitAt (V (fs.sb.bblock (k * bpb))) bi := by
  have hdiv : fs.sb.bblock (k * bpb + bi) = fs.sb.bblock (k * bpb) := by
    unfold SuperBlock.bblock
    rw [Nat.mul_comm k, Nat.mul_add_div (by decide), Nat.div_eq_of_lt hbi,
      Nat.mul_div_cancel_left _ (by decide)]
    omega
  have hmod : (k * bpb + bi) % bpb = bi := by
    rw [Nat.mul_comm k, Nat.mul_add_mod, Nat.mod_eq_of_lt hbi]
  exact ⟨hdiv, hmod, by rw [Fs.bit, hdiv, hmod]⟩

/-- One more group without a free block. -/
lemma Fs.FullTo.succ {k : Nat} (hfull : fs.FullTo G.V k)
    (hnone : firstClear (G.V (fs.sb.bblock (k * bpb))) 0 (min bpb (fs.sb.size - k * bpb)) = none) :
    fs.FullTo G.V (k + 1) := by
  intro b hb hlt
  rw [Nat.succ_mul] at hlt
  by_cases hbk : b < k * bpb
  · exact hfull b hb hbk
  obtain ⟨bi, rfl⟩ : ∃ bi, b = k * bpb + bi := ⟨b - k * bpb, by omega⟩
  rw [(Fs.bit_group G.V (by omega)).2.2]
  exact firstClear_eq_none hnone (Nat.zero_le _) (by omega)

/-- The loop over the bitmap blocks: those before the current one are full. -/
lemma ballocFrom_wp (hon : fs.On d) (hal : fs.Allocates G) (hheld : G.held.length ≤ 1)
    (hbud : Budget l G.lh H (n + 2)) {Q : Nat → Mem → Prop} (k r : Nat)
    (hpanic : fs.FullTo G.V (k + r) → H (.panic "balloc: out of blocks"))
    (hQ : ∀ b m', fs.bit G.V b = false → b < (k + r) * bpb → fs.Data b →
      Work fs.layout l d (fs.allocated G b) m' → Q b m') (hfull : fs.FullTo G.V k)
    (hr : r = 0 ∨ (k + r - 1) * bpb < fs.sb.size) (h : Work fs.layout l d G m) :
    Silent (ballocFrom fs.sb fs.dev k r) m d Q H := by
  induction r generalizing k m with
  | zero =>
    unfold ballocFrom
    rw [silent_stop]
    exact hpanic hfull
  | succ r ih => ?_
  have hk : k * bpb < fs.sb.size := by
    have h1 := hr.resolve_left (Nat.succ_ne_zero r)
    have h2 : k * bpb ≤ (k + (r + 1) - 1) * bpb := Nat.mul_le_mul_right _ (by omega)
    omega
  have hhome := Fs.bblock_home hon hk
  have hfr := hal.clear _ (Fs.bblock_lt hk)
  have hclean := h.settled hfr hhome.1
  unfold ballocFrom
  refine .bind (h.bread_wp hhome hfr (hbud.room (by omega)) fun i m1 h₁ => ?_)
  refine .bind (h₁.getData_wp List.mem_cons_self hhome.1 ?_)
  rw [Scene.hold_V]
  cases hfind : firstClear (G.V (fs.sb.bblock (k * bpb))) 0 (min bpb (fs.sb.size - k * bpb)) with
  | none =>
    refine .bind (h₁.brelse_wp rfl hhome.1 hclean fun m2 h₂ => ?_)
    have hsum : k + 1 + r = k + (r + 1) := by omega
    refine ih (k + 1) (by rwa [hsum]) (by rwa [hsum]) (hfull.succ hfind) ?_ h₂
    rw [hsum]
    exact Or.inr (hr.resolve_left (Nat.succ_ne_zero r))
  | some bi => ?_
  obtain ⟨-, hlt, hclear, -⟩ := firstClear_eq_some hfind
  have hbi : bi < bpb := by omega
  obtain ⟨hdiv, hmod, hbit⟩ := fs.bit_group G.V (k := k) hbi
  rw [hclear] at hbit
  have hdata := hal.data hbit (by omega)
  refine .bind (h₁.modifyData_wp List.mem_cons_self hhome.1 _ fun m2 h₂ => ?_)
  refine .bind (h₂.logWrite_wp List.mem_cons_self hhome hbud.accepts fun m3 h3 => ?_)
  refine .bind (h3.brelse_wp rfl hhome.1 (Or.inl ?_) fun m4 h4 => ?_)
  · exact (mem_absorb _ _ _).mpr (Or.inl rfl)
  have h4' : Work fs.layout l d (fs.mark G (k * bpb + bi)) m4 := by
    unfold Fs.mark
    rw [hdiv, hmod]
    exact h4
  have hlog := hbud.log (fs.sb.bblock (k * bpb + bi))
  refine .bind (h4'.change_wp (hdata.home hon) (hal.free hbit)
    (hlog.room (Nat.le_succ_of_le hheld)) hlog.accepts _ fun m5 h5 => ?_)
  rw [silent_pure]
  refine hQ _ m5 hbit ?_ hdata h5
  have hle : (k + 1) * bpb ≤ (k + (r + 1)) * bpb := Nat.mul_le_mul_right _ (by omega)
  rw [Nat.succ_mul] at hle
  omega

/-- **`balloc` returns a block that was free**, marked and zeroed, unless it finds none. -/
theorem balloc_wp (h : Work fs.layout l d G m) (hon : fs.On d) (hal : fs.Allocates G)
    (hheld : G.held.length ≤ 1) (hbud : Budget l G.lh H (n + 2))
    (hpanic : fs.FullTo G.V fs.sb.groups → H (.panic "balloc: out of blocks"))
    {Q : Nat → Mem → Prop}
    (hQ : ∀ b m', fs.bit G.V b = false → b < fs.sb.groups * bpb → fs.Data b →
      Work fs.layout l d (fs.allocated G b) m' → Q b m') :
    Silent (balloc fs.sb fs.dev) m d Q H := by
  rw [← Nat.zero_add fs.sb.groups] at hpanic hQ
  refine ballocFrom_wp hon hal hheld hbud 0 fs.sb.groups hpanic hQ (fun b _ hlt => by omega) ?_ h
  by_cases hg : fs.sb.groups = 0
  · exact Or.inl hg
  refine Or.inr ?_
  have hn := fs.ninodes_le
  have : fs.sb.groups * bpb ≤ fs.sb.ninodes + (bpb - 1) := Nat.div_mul_le_self _ _
  rw [Nat.zero_add, Nat.sub_one_mul]
  have hb : bpb = 32768 := rfl
  have : bpb ≤ fs.sb.groups * bpb := Nat.le_mul_of_pos_left _ (Nat.pos_of_ne_zero hg)
  have := fs.bmap_le
  omega

/-- **`iupdate` writes the words of its inode.** -/
theorem iupdate_wp (h : Work fs.layout l d G m) (hon : fs.On d) (hcl : fs.Clear G) {ip : Inode}
    (hdev : ip.dev = fs.dev) (hi : ip.inum < fs.sb.ninodes) (hheld : G.held.length ≤ 2)
    (hbud : Budget l G.lh H (n + 1)) (hQ :
    ∀ m', Work fs.layout l d ((G.put (fs.sb.iblock ip.inum) (setWords
      (G.V (fs.sb.iblock ip.inum)) (dinodeWords * (ip.inum % ipb)) ip.words)).log
        (fs.sb.iblock ip.inum)) m' → Q () m') : Silent (iupdate fs.sb ip) m d Q H := by
  have hlt := Fs.iblock_lt hi
  have hfr := hcl _ (Nat.lt_trans hlt fs.bmapstart_lt)
  unfold iupdate
  rw [hdev]
  exact h.change_wp (Fs.iblock_home hon hi) hfr (hbud.room hheld) hbud.accepts _ hQ

/-! ## A cache with nothing in it -/

/-- An operation is under way, and the log and the cache have room for the bitmap and an inode. -/
structure Reserved (fs : Fs) (m : Mem) : Prop where
  outstanding : 1 ≤ (m.log fs.dev).outstanding
  cache : (m.log fs.dev).lh.length + fs.sb.size / bpb + 5 ≤ nbuf
  log : (m.log fs.dev).lh.length + fs.sb.size / bpb + 2 < fs.sb.nlog

/-- The log can hold the bitmap and an inode. -/
structure Fs.Ample (fs : Fs) : Prop where
  size : fs.sb.size < 2 ^ 32
  cache : fs.sb.size / bpb + 5 ≤ nbuf
  log : fs.sb.size / bpb + 2 < fs.sb.nlog

variable {V : Nat → Block}

/-- Nothing is cached and one operation has begun. -/
def coldMem (fs : Fs) : Mem := (bootLog fs.layout).setLog fs.dev
  { (bootLog fs.layout).log fs.dev with outstanding := 1 }

/-- A card with the contents `V` and an empty log. -/
def coldCard (fs : Fs) (V : Nat → Block) : Disk where
  nsecs := fun _ => fs.sb.size
  block := fun _ b => if fs.layout.InLog b then zeroBytes else V b

lemma coldMem_log (fs : Fs) : (coldMem fs).log fs.dev =
    ⟨fs.sb.logstart, fs.sb.nlog, 1, false, fs.dev, true, []⟩ := by
  simp [coldMem, bootLog, Mem.boot, Fs.layout]

/-- The kernel runs with an empty cache. -/
lemma coldMem_running (ha : fs.Ample) :
    Running fs.layout (coldMem fs) (coldCard fs V) ⟨1, V, V⟩ := by
  obtain ⟨hq, hcl⟩ := quiet_boot (coldCard fs V)
  have hl := coldMem_log fs
  have hdirty : ∀ k, ¬ Dirty (coldMem fs) k := hcl
  have hnil : fs.layout.header (coldCard fs V) = [] := by
    have hz : (coldCard fs V).block fs.layout.dev fs.layout.start = zeroBytes :=
      if_pos Layout.start_inLog
    unfold Layout.header
    rw [hz]
    decide +kernel
  have hhome : ∀ b, ¬ fs.layout.InLog b → (coldCard fs V).block fs.layout.dev b = V b :=
    fun b hb => if_neg hb
  have hpend : Pending fs.layout (coldCard fs V) V := by
    refine pending_of_nil ⟨?_, ha.size⟩ hnil hhome
    have h1 := fs.log_le
    have h2 := fs.inodestart_lt
    have h3 := fs.bmapstart_lt
    have h4 := fs.dataStart_le
    show fs.sb.logstart + fs.sb.nlog ≤ fs.sb.size
    omega
  have hempty : ((coldMem fs).log fs.layout.dev).lh = [] := by
    show ((coldMem fs).log fs.dev).lh = []
    rw [hl]
  exact {
    toQuiet := (hq.setLog _ _).setLog _ _
    length := List.length_range
    mounted := by
      refine ⟨congrArg Log.start hl, congrArg Log.size hl, congrArg Log.dev hl,
        congrArg Log.enabled hl, fun i hi => ?_⟩
      have hi' : i ≠ fs.dev := hi
      rw [coldMem, Mem.setLog_of_ne hi']
      exact (bootLog_mounted fs.layout).others i hi
    committing := congrArg Log.committing hl
    outstanding := congrArg Log.outstanding hl
    collected := by
      refine ⟨?_, ?_, ?_, fun k => ⟨fun hk => absurd hk (hdirty k), ?_⟩⟩
      · rw [hempty]
        exact fs.log_pos
      · rw [hempty]
        exact Nat.zero_le _
      · rw [hempty]
        exact List.forall_mem_nil _
      rw [hempty]
      rintro ⟨b, hb, -⟩
      exact absurd hb List.not_mem_nil
    header := hnil
    pending := hpend
    view := fun b hb => by
      rw [view_of_not_mem fun i _ _ => rfl]
      exact hhome b hb }

lemma coldMem_reserved (ha : fs.Ample) : Reserved fs (coldMem fs) := by
  have hl := coldMem_log fs
  have hlh : ((coldMem fs).log fs.dev).lh = [] := congrArg Log.lh hl
  refine ⟨Int.le_of_eq (congrArg Log.outstanding hl).symm, ?_, ?_⟩
  · rw [hlh, List.length_nil, Nat.zero_add]
    exact ha.cache
  · rw [hlh, List.length_nil, Nat.zero_add]
    exact ha.log

end RpiOs.V6
