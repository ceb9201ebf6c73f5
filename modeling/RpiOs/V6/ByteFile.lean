import RpiOs.V6.ReadWrite

/-!
# v6 files are byte arrays

The specification of a file is a list of bytes. `overwrite L off data` puts `data` over the bytes
from `off` on, extending the list if it is too short; a write that would start beyond the end is
refused. `Step` is what a process does with a file it holds open: it begins and ends transactions
and writes.

* `steps_refine`: after any steps, `readi` returns exactly the bytes of the list obtained by
  applying the writes in order, in the direct, the indirect and the doubly-indirect range alike;
  every call of `writei` returned what the specification says; no other file has changed; and the
  next `writei` returns as soon as the log and the cache have room and the allocator finds blocks.
-/

namespace RpiOs.V6

open Lib Kernel Bio RedoLog

/-! ## The specification -/

/-- `data` in place of the bytes from `off` on. -/
def overwrite (L : List (BitVec 8)) (off : Nat) (data : List (BitVec 8)) : List (BitVec 8) :=
  L.take off ++ data ++ L.drop (off + data.length)

/-- The bytes of a list by position. -/
def bytesOf (L : List (BitVec 8)) : Bytes := fun i => L.getD i 0

variable {L data : List (BitVec 8)}

lemma length_overwrite {off : Nat} (h : off ≤ L.length) :
    (overwrite L off data).length = max L.length (off + data.length) := by
  unfold overwrite
  simp only [List.length_append, List.length_take, List.length_drop]
  omega

/-- The bytes of an overwritten list. -/
lemma bytesOf_overwrite {off : Nat} (h : off ≤ L.length) (i : Nat) :
    bytesOf (overwrite L off data) i =
      if off ≤ i ∧ i < off + data.length then bytesOf data (i - off) else bytesOf L i := by
  have hlen : (L.take off).length = off := List.length_take_of_le h
  unfold bytesOf overwrite
  simp only [List.getD_eq_getElem?_getD]
  by_cases h1 : i < off
  · rw [if_neg (by omega), List.append_assoc, List.getElem?_append_left (by omega),
      List.getElem?_take_of_lt h1]
  by_cases h2 : i < off + data.length
  · rw [if_pos (by omega), List.append_assoc, List.getElem?_append_right (by omega), hlen,
      List.getElem?_append_left (by omega)]
  rw [if_neg (by omega), List.getElem?_append_right (by simp; omega), List.getElem?_drop]
  congr 2
  simp
  omega

/-- What a process does with an open file. -/
inductive Step where
  | beginOp
  | endOp
  | write (off : Nat) (data : List (BitVec 8))

/-- The results of the writes and the bytes afterwards. -/
def applySteps (L : List (BitVec 8)) : List Step → List Int × List (BitVec 8)
  | [] => ([], L)
  | .beginOp :: ss => applySteps L ss
  | .endOp :: ss => applySteps L ss
  | .write off data :: ss =>
    if off ≤ L.length then
      let (rs, L') := applySteps (overwrite L off data) ss
      (data.length :: rs, L')
    else
      let (rs, L') := applySteps L ss
      (-1 :: rs, L')

/-- A file does not become shorter. -/
lemma length_le_applySteps (L : List (BitVec 8)) (ss : List Step) :
    L.length ≤ (applySteps L ss).2.length := by
  induction ss generalizing L with
  | nil => exact Nat.le_refl _
  | cons s ss ih => ?_
  cases s with
  | beginOp | endOp => exact ih L
  | write off data => ?_
  unfold applySteps
  split
  · next h =>
    have h1 := ih (overwrite L off data)
    rw [length_overwrite h] at h1
    exact Nat.le_trans (Nat.le_max_left _ _) h1
  · exact ih L

/-! ## The code -/

/-- The code of the steps. -/
def performSteps (sb : SuperBlock) (sw : Devsw) : List Step → Inode → K (List Int × Inode)
  | [], ip => pure ([], ip)
  | .beginOp :: ss, ip => do
    beginOp
    performSteps sb sw ss ip
  | .endOp :: ss, ip => do
    endOp
    performSteps sb sw ss ip
  | .write off data :: ss, ip => do
    let (r, ip) ← writei sb sw ip (bytesOf data) off data.length
    let (rs, ip) ← performSteps sb sw ss ip
    pure (r :: rs, ip)

/-- The file contains the bytes `L`. -/
structure Contains (fs : Fs) (live : Nat → Prop) (V : Nat → Block) (ip : Inode)
    (L : List (BitVec 8)) : Prop extends File fs live V ip where
  length : ip.size = L.length
  bytes : ∀ i < L.length, byte V ip.addrs i = bytesOf L i

/-- `readi` returns the bytes of `L`, given two buffers beside the logged blocks. -/
def Reads (fs : Fs) (sw : Devsw) (ip : Inode) (L : List (BitVec 8)) (m : Mem) (d : Disk) : Prop :=
  ∀ (dst : Bytes) (off n : Nat), off ≤ L.length → off + n < 2 ^ 64 →
    (m.log fs.dev).lh.length + 1 < nbuf →
    ∃ m', (readi fs.sb sw ip dst off n m d).result =
      .ok (((min n (L.length - off) : Nat),
        splice dst 0 (bytesOf L) off (min n (L.length - off)), ip), m')

/-- `writei` returns the number of bytes, given a transaction with room for the blocks; only the
allocator can fail. -/
def Writes (fs : Fs) (sw : Devsw) (ip : Inode) (L : List (BitVec 8)) (m : Mem) (d : Disk) : Prop :=
  ∀ (off : Nat) (data : List (BitVec 8)), off ≤ L.length → off + data.length < 2 ^ 32 →
    1 ≤ (m.log fs.dev).outstanding →
    (m.log fs.dev).lh.length + (1 + 9 * rounds off data.length) + 3 ≤ nbuf →
    (m.log fs.dev).lh.length + (1 + 9 * rounds off data.length) < (m.log fs.dev).size →
    Wp (writei fs.sb sw ip (bytesOf data) off data.length) m d (fun r _ _ => r.1 = data.length)
      (fun d' => d' = d) (fun e => e = .panic "balloc: out of blocks")

section refine

variable {fs : Fs} {d : Disk} {m : Mem} {live : Nat → Prop} {t : Tx} {ip : Inode}
  {V V' : Nat → Block} {L : List (BitVec 8)}

lemma Contains.splice_eq (h : Contains fs live V ip L) (dst : Bytes) {off n : Nat}
    (hn : off + n ≤ L.length) :
    splice dst 0 (byte V ip.addrs) off n = splice dst 0 (bytesOf L) off n :=
  splice_congr _ fun _ _ => h.bytes _ (by omega)

section

variable (h : Contains fs live t.current ip L) (hr : Running fs.layout m d t) (hon : fs.On d)
  (sw : Devsw)
include h hr hon sw

lemma Contains.reads : Reads fs sw ip L m d := by
  intro dst off n hoff hn hroom
  refine Silent.result_eq (readi_wp hr.work hon h.toFile sw off n dst
    (by rw [h.length]; exact hoff) hn (Or.inl hroom) fun m' _ => ?_)
  rw [h.length, h.splice_eq dst (by omega)]

/-- A write that finds room returns what the specification says. -/
lemma Contains.writes : Writes fs sw ip L m d := by
  intro off data hoff hn hout hbuf hlog
  have hbud : Budget (m.log fs.dev) (m.log fs.dev).lh
      (fun e => e = .panic "balloc: out of blocks") (0 + 1 + 9 * rounds off data.length) :=
    Or.inl ⟨by omega, by omega, hout⟩
  have hwp := writei_wp hr.work hon h.toFile sw off data.length (bytesOf data)
    (by rw [h.length]; exact hoff) hn (Supply.of_budget hbud rfl) (Q :=
      fun r _ => r.1 = data.length)
    fun _ _ _ _ _ _ => rfl
  exact Wp.imp hwp fun _ _ _ hq => hq.2

end

/-- After a write the file contains the new bytes. -/
lemma Contains.wrote (h : Contains fs live V ip L) {off : Nat}
    (hoff : off ≤ L.length) {ip' : Inode}
    (hw : WroteFile fs live off data.length (bytesOf data) V ip V' ip') :
    Contains fs live V' ip' (overwrite L off data) := by
  have hlen : ip'.size = (overwrite L off data).length := by
    rw [length_overwrite hoff, hw.size, h.length]
  refine ⟨hw.file, hlen, fun i hi => ?_⟩
  have hmax := lt_maxfile
  have hsz := hw.file.size
  rw [hw.byte i ((Nat.div_lt_iff_lt_mul (by decide)).mpr (by omega)), bytesOf_overwrite hoff]
  split
  · rfl
  · next hno =>
    rw [length_overwrite hoff] at hi
    exact h.bytes i (by omega)

lemma SameFile.refl (V : Nat → Block) (f : Nat) : SameFile fs V V f :=
  ⟨fun _ _ => rfl, fun _ _ => rfl⟩

lemma SameFile.trans {V'' : Nat → Block} {f : Nat} (h : SameFile fs V V' f)
    (h' : SameFile fs V' V'' f) : SameFile fs V V'' f :=
  ⟨fun j hj => (h'.1 j hj).trans (h.1 j hj), fun p hp => (h'.2 p hp).trans (h.2 p hp)⟩

/-- What holds after some steps. -/
def Refines (fs : Fs) (sw : Devsw) (live : Nat → Prop) (inum : Nat) (V : Nat → Block)
    (spec : List Int × List (BitVec 8)) (r : List Int × Inode) (m : Mem) (d : Disk) : Prop :=
  r.1 = spec.1 ∧ Reads fs sw r.2 spec.2 m d ∧ Writes fs sw r.2 spec.2 m d ∧
    ∃ t, Running fs.layout m d t ∧ ∀ f, live f → f ≠ inum → SameFile fs V t.current f

/-- **v6 files refine byte arrays.** -/
theorem steps_refine (sw : Devsw) (steps : List Step) (h : Running fs.layout m d t) (hon : fs.On d)
    (hc : Contains fs live t.current ip L) (hlen : (applySteps L steps).2.length < 2 ^ 32) :
    Wp (performSteps fs.sb sw steps ip) m d
      (Refines fs sw live ip.inum t.current (applySteps L steps)) := by
  induction steps generalizing m d t ip L with
  | nil =>
    rw [performSteps, wp_pure]
    exact ⟨trivial, rfl, hc.reads h hon sw, hc.writes h hon sw, t, h,
      fun f _ _ => SameFile.refl _ f⟩
  | cons s ss ih => ?_
  cases s with
  | beginOp =>
    rw [performSteps, wp_bind]
    refine (beginOp_wp h).mono (fun _ m₁ d₁ hd₁ => ?_) (fun _ _ => trivial) fun _ _ => trivial
    have hon₁ : fs.On d₁ := by
      unfold Fs.On
      rw [hd₁.1]
      exact hon
    exact ih (t := t.step .beginOp) hd₁.2 hon₁ hc hlen
  | endOp =>
    have hcur : (t.step .endOp).current = t.current := by
      unfold Tx.step
      dsimp only
      split <;> rfl
    rw [performSteps, wp_bind]
    refine (endOp_wp h).mono (fun _ m₁ d₁ hd₁ => ?_) (fun _ _ => trivial) fun _ _ => trivial
    have hon₁ : fs.On d₁ := by
      unfold Fs.On
      rw [hd₁.1]
      exact hon
    have key := ih hd₁.2 hon₁ (by rw [hcur]; exact hc) hlen
    rwa [hcur] at key
  | write off data =>
    rw [performSteps, wp_bind]
    by_cases hoff : off ≤ L.length
    · have happ : applySteps L (.write off data :: ss) =
          ((data.length : Int) :: (applySteps (overwrite L off data) ss).1,
            (applySteps (overwrite L off data) ss).2) := by
        rw [applySteps, if_pos hoff]
      rw [happ] at hlen ⊢
      have hle := length_le_applySteps (overwrite L off data) ss
      rw [length_overwrite hoff] at hle
      dsimp only at hlen
      refine ((writei_wp (H := fun _ => True) (r := 0) h.work hon hc.toFile sw off data.length
        (bytesOf data) (by rw [hc.length]; exact hoff) (by omega)
        (Supply.of_budget (Or.inr fun _ => trivial) trivial)
        (Q := fun r m' => r.1 = data.length ∧ ∃ V' lh', WroteFile fs live off data.length
          (bytesOf data) t.current ip V' r.2 ∧
          Work fs.layout (m.log fs.dev) d (Scene.begin V' lh') m')
        fun ip' V' lh' m' hw hwf => ⟨rfl, V', lh', hwf, hw⟩).wp (C := fun _ => True) trivial).imp
          ?_
      rintro r m₁ d₁ ⟨rfl, hr1, V₁, lh₁, hwf, hw⟩
      refine .bind ((ih (Work.running h hw) hon (hc.wrote hoff hwf) hlen).imp
        fun r' m₂ d₂ hq' => ?_)
      obtain ⟨hrs, hrd, hwr, t', hrun, hsame⟩ := hq'
      rw [wp_pure]
      refine ⟨trivial, ?_, hrd, hwr, t', hrun, fun f hlf hne => ?_⟩
      · rw [hr1, hrs]
      · exact (hwf.others f hlf hne).trans (hsame f hlf (by rw [hwf.inum]; exact hne))
    · have happ : applySteps L (.write off data :: ss) =
          (-1 :: (applySteps L ss).1, (applySteps L ss).2) := by
        rw [applySteps, if_neg hoff]
      rw [happ] at hlen ⊢
      have hrefuse : writei fs.sb sw ip (bytesOf data) off data.length = pure (-1, ip) := by
        unfold writei
        rw [if_neg hc.type, if_pos (Or.inl (by rw [hc.length]; omega))]
      rw [hrefuse, wp_pure, wp_bind]
      refine ⟨trivial, (ih h hon hc hlen).imp fun r' m₂ d₂ hq' => ?_⟩
      obtain ⟨hrs, hrest⟩ := hq'
      rw [wp_pure]
      exact ⟨trivial, by rw [hrs], hrest⟩

/-! ### A first file -/

/-- A file system of 200 blocks on device 1. -/
def smallFs : Fs where
  sb := ⟨200, 31, 40, 2, 42, 43⟩
  dev := 1
  dev_ne := Nat.one_ne_zero
  dev_lt := one_lt_nlog
  log_pos := by decide
  log_le := by decide
  inodes_le := by decide
  bmap_le := by decide
  ninodes_le := by decide

/-- A card with only the bits of the first 44 blocks set. -/
def smallCard : Disk where
  nsecs := fun _ => 200
  block := fun dev b i => if dev = 1 ∧ b = 43 ∧ i < 6 then (if i = 5 then 15 else 255) else 0

/-- The inode of an empty file. -/
def emptyInode : Inode :=
  ⟨1, 1, 2, 0, 0, 1, 0, 0, 0, 0, ⟨0, 0⟩, ⟨0, 0⟩, ⟨0, 0⟩, fun _ => 0⟩

/-- No device drivers. -/
def noDrivers : Devsw := ⟨fun _ => none, fun _ => none⟩

/-- The memory after booting from the card. -/
def smallBoot : Mem :=
  match (initlog 1 2 40 Mem.boot smallCard).result with
  | .ok (_, m) => m
  | .error _ => Mem.boot

/-- One transaction that writes three bytes. -/
def threeBytes : List Step := [.beginOp, .write 0 [1, 2, 3], .endOp]

/-- The file of the example is empty. -/
lemma emptyInode_contains :
    Contains smallFs (fun f => f = 1) (smallCard.block 1) emptyInode [] := by
  have hval : ∀ f, f = 1 → ∀ s : Slot, s.val (smallCard.block 1)
      (smallFs.roots (smallCard.block 1) emptyInode f) = 0 := by
    rintro f rfl s
    have : smallFs.roots (smallCard.block 1) emptyInode 1 = fun _ => 0 := setRoot_self _ _ _
    rw [this]
    cases s <;> simp [Slot.val]
  refine ⟨⟨⟨⟨by decide +kernel, ?_, ?_, ?_⟩, rfl, setRoot_self _ _ _, rfl⟩,
    ?_, by decide, by decide,
    fun p _ hp => absurd hp (Nat.not_lt_zero p)⟩, rfl, fun i hi => absurd hi (Nat.not_lt_zero i)⟩
  iterate 2 exact fun f hf s _ hne => absurd (hval f hf s) hne
  · exact fun f hf _ _ s _ _ _ hne => absurd (hval f hf s) hne
  · rintro f rfl
    decide

/-- The kernel runs after booting from its card. -/
lemma smallBoot_running : Running smallFs.layout smallBoot (recovered smallFs.layout smallCard)
      (Tx.init (smallCard.block 1)) := by
  have hp : Pending smallFs.layout smallCard (smallCard.block 1) :=
    pending_of_nil ⟨by decide, by decide⟩ (by decide +kernel) fun _ _ => rfl
  obtain ⟨m1, hres, -, hrun⟩ := boot_running hp
  have : smallBoot = m1 := by
    unfold smallBoot
    rw [show (initlog 1 2 40 Mem.boot smallCard).result = _ from hres]
  rw [this]
  exact hrun

/-- Three bytes written to an empty file can be read back. -/
theorem threeBytes_refine :
    ∃ ip m, (performSteps smallFs.sb noDrivers threeBytes emptyInode smallBoot
        (recovered smallFs.layout smallCard)).result = .ok (([3], ip), m) ∧
      Reads smallFs noDrivers ip [1, 2, 3] m (applyAll (recovered smallFs.layout smallCard)
        (performSteps smallFs.sb noDrivers threeBytes emptyInode smallBoot
          (recovered smallFs.layout smallCard)).writes) := by
  have hwp := steps_refine noDrivers threeBytes smallBoot_running ⟨by decide, by decide⟩
    emptyInode_contains (by decide)
  obtain ⟨⟨rs, ip⟩, m, hres, -⟩ := Prog.exists_of_any (p := fun _ _ => True)
    (r := (performSteps smallFs.sb noDrivers threeBytes emptyInode smallBoot
      (recovered smallFs.layout smallCard)).result) (by decide +kernel)
  obtain ⟨hrs, hread, -, -⟩ := hwp.post hres
  obtain rfl : rs = [3] := hrs
  exact ⟨ip, m, hres, hread⟩

end refine

end RpiOs.V6
