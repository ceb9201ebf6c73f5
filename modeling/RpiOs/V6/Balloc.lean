import RpiOs.Mkfs.Layout
import RpiOs.V6.Tree

/-!
# Which free blocks `balloc` finds

The outer loop of `balloc` runs over the bitmap blocks as far as the number of inodes goes, not the
number of blocks: with the super block of `mkfs` it reads the first bitmap block only.

* `balloc_serves_iff` (main): `balloc` does what it has to exactly if no block is free, or one that
  the loop reaches.
-/

namespace RpiOs.V6

open Lib Kernel Bio RedoLog

/-- Return a free block, with its bit set, no other bit changed and this block zeroed; stop only if
there is none. -/
def Fs.Serves (fs : Fs) (t : Tx) (m : Mem) (d : Disk) : Prop :=
  Silent (balloc fs.sb fs.dev) m d
    (fun b m' => b < fs.sb.size ∧ fs.bit t.current b = false ∧
      ∃ V', Running fs.layout m' d { t with current := V' } ∧
        (∀ c < fs.sb.size, fs.bit V' c = (decide (c = b) || fs.bit t.current c)) ∧
          V' b = zeroBytes ∧
        ∀ x, x ≠ b → x ≠ fs.sb.bblock b → V' x = t.current x)
    fun e => e = .panic "balloc: out of blocks" ∧ ∀ b < fs.sb.size, fs.bit t.current b = true

section serves

variable {fs : Fs} {t : Tx} {m : Mem} {d : Disk} {H : Stop → Prop} {Q : Nat → Mem → Prop}

section

variable (hrun : Running fs.layout m d t) (hon : fs.On d) (hres : Reserved fs m)
  (hmeta : ∀ x < fs.dataStart, fs.bit t.current x = true)
include hrun hon hres hmeta

/-- `balloc` between two steps of the kernel. -/
lemma balloc_running (hpanic : fs.FullTo t.current fs.sb.groups →
    H (.panic "balloc: out of blocks"))
    (hQ : ∀ b m', fs.bit t.current b = false → b < fs.sb.groups * bpb → fs.Data b →
      Running fs.layout m' d { t with current := fs.allocV t.current b } → Q b m') :
    Silent (balloc fs.sb fs.dev) m d Q H := by
  have hbud : Budget (m.log fs.layout.dev) (m.log fs.layout.dev).lh H (0 + 2) := by
    have hsize : (m.log fs.layout.dev).size = fs.sb.nlog := hrun.mounted.size
    have hcache : (m.log fs.layout.dev).lh.length + fs.sb.size / bpb + 5 ≤ nbuf := hres.cache
    have hlog : (m.log fs.layout.dev).lh.length + fs.sb.size / bpb + 2 < fs.sb.nlog := hres.log
    generalize fs.sb.size / bpb = n at hcache hlog
    exact .inl ⟨by omega, by omega, hres.outstanding⟩
  have hal : fs.Allocates (Scene.begin t.current (m.log fs.layout.dev).lh) :=
    ⟨fun x _ => List.forall_mem_nil _, hmeta, List.forall_mem_nil _⟩
  exact balloc_wp hrun.work hon hal (Nat.zero_le 1) hbud hpanic fun b m' hfree hlt hb hw =>
    hQ b m' hfree hlt hb (Work.running hrun hw)

lemma balloc_full (hfull : fs.FullTo t.current fs.sb.groups) :
    Silent (balloc fs.sb fs.dev) m d ⊥ fun e => e = .panic "balloc: out of blocks" :=
  balloc_running hrun hon hres hmeta (fun _ => rfl) fun b _ hfree hlt hb _ =>
    absurd (hfull b hb.2 hlt) (by simp [hfree])

end

/-- **`balloc` serves exactly if the blocks that its loop reaches are not all in use, or all blocks
are.** -/
theorem balloc_serves_iff (hrun : Running fs.layout m d t) (hon : fs.On d) (hres : Reserved fs m)
    (hmeta : ∀ x < fs.dataStart, fs.bit t.current x = true) :
    fs.Serves t m d ↔ (fs.FullTo t.current fs.sb.groups →
      ∀ b < fs.sb.size, fs.bit t.current b = true) := by
  constructor
  · intro h hfull
    obtain ⟨e, -, -, hall⟩ := (balloc_full hrun hon hres hmeta hfull).stops h
    exact hall
  intro hcond
  refine balloc_running hrun hon hres hmeta (fun hfull => ⟨rfl, hcond hfull⟩)
    fun b m' hfree _ hb hr => ?_
  refine ⟨hb.2, hfree, _, hr, fun c hc => Fs.bit_allocV hb hc, Fs.allocV_self _ b,
    fun x hne hnb => ?_⟩
  unfold Fs.allocV
  rw [if_neg hne, if_neg hnb]

end serves

/-! ## On the image of `mkfs` -/

/-- A bitmap in which the blocks below `n` are in use. -/
@[irreducible] def onesTo (n : Nat) (x : Nat) : Block :=
    Mkfs.ones (min bpb (n - bpb * (x - Mkfs.sb.bmapstart)))

lemma bit_onesTo (n b : Nat) : Mkfs.rootFs.bit (onesTo n) b = decide (b < n) := by
  have hlt : b % bpb < bpb := Nat.mod_lt _ (by decide)
  have hdiv := Nat.div_add_mod b bpb
  show bitAt (onesTo n (b / bpb + Mkfs.sb.bmapstart)) (b % bpb) = _
  unfold onesTo
  rw [Mkfs.bitAt_ones, Nat.add_sub_cancel, decide_eq_decide]
  omega

lemma onesTo_metadata {n : Nat} (hn : Mkfs.rootFs.dataStart ≤ n) (x : Nat)
    (hx : x < Mkfs.rootFs.dataStart) :
    Mkfs.rootFs.bit (onesTo n) x = true := by
  rw [bit_onesTo]
  exact decide_eq_true (by omega)

lemma rootFs_ample : Mkfs.rootFs.Ample := ⟨by decide, by decide, by decide⟩

/-- The first 20000 blocks are in use, and the next one is free. -/
theorem balloc_serves_iff_partly : Mkfs.rootFs.Serves ⟨1, onesTo 20000, onesTo 20000⟩
    (coldMem Mkfs.rootFs) (coldCard Mkfs.rootFs (onesTo 20000)) := by
  have hstart : Mkfs.rootFs.dataStart ≤ 20000 := by decide +kernel
  refine (balloc_serves_iff (coldMem_running (V := onesTo 20000) rootFs_ample)
    ⟨Nat.le_refl _, rootFs_ample.size⟩ (coldMem_reserved rootFs_ample) (onesTo_metadata hstart)).mpr
    fun hfull => ?_
  have hclear : Mkfs.rootFs.bit (onesTo 20000) 20000 = false :=
    (bit_onesTo 20000 20000).trans (decide_eq_false (Nat.lt_irrefl _))
  exact absurd (hclear.symm.trans (hfull 20000 (by decide) (by decide))) Bool.false_ne_true

/-- The first 32768 blocks are in use, and block 40000 is free; `balloc` panics. -/
theorem balloc_misses_block : Mkfs.rootFs.bit (onesTo 32768) 40000 = false ∧
    40000 < Mkfs.rootFs.sb.size ∧
    Silent (balloc Mkfs.rootFs.sb 1) (coldMem Mkfs.rootFs) (coldCard Mkfs.rootFs (onesTo 32768))
      (fun _ _ => False) fun e => e = .panic "balloc: out of blocks" := by
  have hstart : Mkfs.rootFs.dataStart ≤ 32768 := by decide +kernel
  refine ⟨(bit_onesTo 32768 40000).trans (decide_eq_false (by omega)), by decide, ?_⟩
  refine balloc_full (coldMem_running (V := onesTo 32768) rootFs_ample)
    ⟨Nat.le_refl _, rootFs_ample.size⟩
    (coldMem_reserved rootFs_ample) (onesTo_metadata hstart) fun b _ hlt => ?_
  exact (bit_onesTo 32768 b).trans (decide_eq_true (Nat.lt_of_lt_of_le hlt (by decide)))

end RpiOs.V6
