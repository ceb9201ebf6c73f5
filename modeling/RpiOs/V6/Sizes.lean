import RpiOs.V6.ByteFile

/-!
# The size of a file

`writei` compares with `MAXFILE * BSIZE`, which is more than 4 GiB, and stores the new size in 32
bits.

* `writei_size_iff`: after a write the size, in memory and in the inode block, is the larger of the
  old size and the end of the write exactly if that end is below 4 GiB.
-/

namespace RpiOs.V6

open Lib Kernel Bio RedoLog

/-- What every value that the program returns satisfies. -/
def Yields {α : Type} (p : K α) (P : α → Prop) : Prop :=
    ∀ v d a v', (p v d).result = .ok (a, v') → P a

section size

variable {α β : Type} {p : K α} {f : α → K β} {P : α → Prop} {R : β → Prop} {sb : SuperBlock}
  {ip ip' : Inode}

lemma yields_pure {a : α} (h : P a) : Yields (pure a) P := by
  rintro v d _ _ ⟨⟩
  exact h

lemma Yields.bind (hp : Yields p P) (hf : ∀ a, P a → Yields (f a) R) : Yields (p >>= f) R := by
  intro v d b w hr
  cases h : (p v d).result with
  | error e =>
    rw [bind_of_error f h] at hr
    cases hr
  | ok r =>
    rw [bind_of_ok f h] at hr
    exact hf r.1 (hp v d r.1 r.2 h) _ _ b w hr

lemma yields_then (hf : ∀ a, Yields (f a) R) : Yields (p >>= f) R :=
  Yields.bind (P := fun _ => True) (fun _ _ _ _ _ => trivial) fun a _ => hf a

lemma topAddr_size (i : Nat) : Yields (topAddr sb ip i) fun r => r.2.size = ip.size := by
  unfold topAddr
  split
  · exact yields_then fun _ => yields_pure rfl
  · exact yields_pure rfl

lemma bmap_size (bn : Nat) : Yields (bmap sb ip bn) fun r => r.2.size = ip.size := by
  unfold bmap
  split
  · exact topAddr_size bn
  split
  · exact (topAddr_size ndirect).bind fun r hr => yields_then fun _ => yields_pure hr
  split
  · exact (topAddr_size _).bind fun r hr => yields_then fun _ => yields_then fun _ => yields_pure hr
  · rintro v d _ _ ⟨⟩

/-- The loop of `writei` does not change the size. -/
lemma writeLoop_size (src : Bytes) (fuel soff off n : Nat) :
    Yields (writeLoop sb fuel ip src soff off n) fun ip' => ip'.size = ip.size := by
  induction fuel generalizing ip soff off n with
  | zero => exact yields_pure rfl
  | succ fuel ih => ?_
  rw [writeLoop]
  split
  · exact yields_pure rfl
  refine (bmap_size _).bind fun r hr => yields_then fun bp => yields_then fun _ =>
    yields_then fun _ =>
    yields_then fun _ => ?_
  rw [← hr]
  exact ih _ _ _

/-- The size that a call which returns `n` leaves in memory. -/
lemma writei_size {sw : Devsw} {src : Bytes} {off n : Nat} (hn : 0 < n) (htype : ip.type ≠ tDev) :
    Yields (writei sb sw ip src off n) fun r => r.1 = n →
      off ≤ ip.size ∧ r.2.size = if ip.size < off + n then (off + n) % 2 ^ 32 else ip.size := by
  unfold writei
  rw [if_neg htype]
  split
  · exact yields_pure fun h => by omega
  next hoff =>
  split
  · exact yields_pure fun h => by omega
  have hle : off ≤ ip.size := not_lt.mp fun h => hoff (.inl h)
  refine (writeLoop_size src n 0 off n).bind fun ip₁ h₁ => ?_
  rw [h₁]
  split
  · next h => exact yields_then fun _ => yields_pure fun _ => ⟨hle, (if_pos h.2).symm⟩
  · next h => exact yields_pure fun _ => ⟨hle, by rw [if_neg fun h' => h ⟨hn, h'⟩, h₁]⟩

end size

section stored

variable {fs : Fs} {live : Nat → Prop} {ip ip' : Inode} {sw : Devsw} {src : Bytes} {off n : Nat}
  {m m' : Mem} {d : Disk} {t : Tx}

/-- `dip->size` of a file, in the inode block as the kernel sees it: in its buffer, if it has
one. -/
def storedSize (fs : Fs) (m : Mem) (d : Disk) (inum : Nat) : Nat :=
  dinodeWord fs.sb (fun b => view m d (fs.dev, b)) inum 2

/-- A write below 4 GiB leaves the size in the inode block. -/
lemma writei_stored (h : Running fs.layout m d t) (hon : fs.On d) (hf : File fs live t.current ip)
    (hstored : storedSize fs m d ip.inum = ip.size) (hoff : off ≤ ip.size) (hlt : off + n < 2 ^ 32)
    (hret : (writei fs.sb sw ip src off n m d).result = .ok (((n : Int), ip'), m')) :
    storedSize fs m' d ip.inum = max ip.size (off + n) := by
  have hhome := Fs.iblock_home hon (hf.inums _ hf.isLive)
  have hwp : Silent (writei fs.sb sw ip src off n) m d
      (fun _ m' => storedSize fs m' d ip.inum = max ip.size (off + n)) fun _ => True := by
    refine writei_wp (r := 0) h.work hon hf sw off n src hoff hlt
      (Supply.of_budget (Or.inr fun _ => trivial) trivial) fun ip' V' lh' m' hw hwrote => ?_
    have hview : view m' d (fs.dev, fs.sb.iblock ip.inum) = V' (fs.sb.iblock ip.inum) :=
      (Work.running h hw).view _ hhome.1
    have hbefore : view m d (fs.dev, fs.sb.iblock ip.inum) = t.current (fs.sb.iblock ip.inum) :=
      h.view _ hhome.1
    have hword := hwrote.stored
    simp only [storedSize, dinodeWord] at hstored ⊢
    simp only [dinodeWord] at hword
    rw [hbefore] at hstored
    rw [hview, hword, hstored]
    split <;> omega
  exact (Wp.post hwp hret).2

/-- **A write that succeeds leaves the right size, in memory and in the inode block, iff it ends
below 4 GiB**: for every file of a mounted file system whose size is stored before. -/
theorem writei_size_iff (h : Running fs.layout m d t) (hon : fs.On d)
    (hf : File fs live t.current ip) (hstored : storedSize fs m d ip.inum = ip.size)
    (hret : (writei fs.sb sw ip src off n m d).result = .ok (((n : Int), ip'), m')) (hn : 0 < n) :
    (ip'.size = max ip.size (off + n) ∧ storedSize fs m' d ip.inum = max ip.size (off + n)) ↔
      off + n < 2 ^ 32 := by
  obtain ⟨hoff, hnew⟩ := writei_size hn hf.type m d _ m' hret rfl
  have hsize := hf.size
  dsimp only at hnew
  constructor
  · rintro ⟨hmem, -⟩
    rw [hnew] at hmem
    split at hmem <;> omega
  · intro hlt
    refine ⟨?_, writei_stored h hon hf hstored hoff hlt hret⟩
    rw [hnew]
    split <;> omega

end stored

/-- Three bytes at the start of an empty file: the size is 3 in memory and in the inode block. -/
theorem writei_size_iff_three : let d := coldCard smallFs (smallCard.block 1)
    ∃ ip' m', (writei smallFs.sb noDrivers emptyInode (bytesOf [1, 2, 3]) 0 3
        (coldMem smallFs) d).result = .ok ((((3 : Nat) : Int), ip'), m') ∧ ip'.size = 3 ∧
          storedSize smallFs m' d 1 = 3 := by
  have ha : smallFs.Ample := ⟨by decide, by decide, by decide⟩
  obtain ⟨⟨_, ip'⟩, m', hres, rfl⟩ := Prog.exists_of_any (p := fun x _ => x.1 = 3)
    (r := (writei smallFs.sb noDrivers emptyInode (bytesOf [1, 2, 3]) 0 3 (coldMem smallFs)
      (coldCard smallFs (smallCard.block 1))).result) (by decide +kernel)
  obtain ⟨hmem, hcard⟩ := (writei_size_iff (coldMem_running ha) ⟨by decide, by decide⟩
    emptyInode_contains.toFile (by decide +kernel) hres (by decide)).mpr (by decide)
  exact ⟨ip', m', hres, hmem, hcard⟩

/-- A card on which block 100 lists the blocks from 101 on, and each of these lists 1024 more. -/
def bigCard : Disk where
  nsecs := fun _ => 2 ^ 21
  block := fun _ b i => BitVec.ofNat 8
    ((if b = 100 then 101 + i / 4
      else if 101 ≤ b ∧ b < 1125 then 2000 + 1024 * (b - 101) + i / 4
      else 0) / 256 ^ (i % 4))

/-- A file of 4 GiB less one byte. -/
def bigInode : Inode :=
  { emptyInode with
    size := 2 ^ 32 - 1
    addrs := fun i => if i = ndirect + 1 then 100 else 1200 + i }

/-- A file system of 2^21 blocks. -/
def bigFs : Fs :=
  { smallFs with
    sb := ⟨2 ^ 21, 31, 40, 2, 42, 43⟩
    log_le := by decide
    inodes_le := by decide
    bmap_le := by decide
    ninodes_le := by decide }

/-- One more byte, and the size is 0, in memory and in the inode block. -/
theorem writei_wraps : ((writei bigFs.sb noDrivers bigInode (bytesOf [7]) (2 ^ 32 - 1) 1
    (coldMem smallFs) bigCard).result.toOption.map
      fun r => (r.1.1, r.1.2.size, storedSize bigFs r.2 bigCard 1)) = some (1, 0, 0) := by
  decide +kernel

end RpiOs.V6
