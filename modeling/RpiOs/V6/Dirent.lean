import RpiOs.V6.ByteFile
import RpiOs.V6.Getdents
import RpiOs.Vfs.Entries

/-!
# Directory entries as bytes

`v6_dirlookup`, `generic_dirlink`, `v6_unlink` and `v6_isdirempty` over the bytes of the directory:
loops that read 64 bytes at a time, compare names with `strncmp` and write entries made with
`strncpy`. The bytes are the byte array that `v6_readi` and `v6_writei` refine (`ByteFile`); inodes
and their locks are those of the inode cache (`Vfs.Inode`).

* `entries`: the entries that the bytes hold, as the rest of the file-system model has them;
  `entries_overwrite`: writing a slot is writing the entry.
-/

namespace RpiOs.V6.Directory

open Lib Kernel
open V6.Getdents (Dirent direntSize dirsiz le leNat strncpy Holds)

/-! ## Strings and entries -/

/-- `strncmp`. -/
def strncmp (p q : Bytes) : Nat → Int
  | 0 => 0
  | n + 1 =>
    if p 0 ≠ 0 ∧ p 0 = q 0 then strncmp (fun i => p (i + 1)) (fun i => q (i + 1)) n
    else (p 0).toNat - (q 0).toNat

def v6Namecmp (s t : Bytes) : Int := strncmp s t dirsiz

/-- The `struct dirent` at an offset. -/
def direntAt (b : Bytes) (off : Nat) : Dirent where
  inum := BitVec.ofNat 32 (leNat b off 4)
  type := BitVec.ofNat 16 (leNat b (off + 4) 2)
  name := (List.range dirsiz).map fun i => b (off + 6 + i)
  name_length := by simp

/-- The bytes of a `struct dirent`. -/
def bytesOfDirent (de : Dirent) : List (BitVec 8) :=
    le 4 de.inum.toNat ++ le 2 de.type.toNat ++ de.name

/-- `inc/linux/stat.h` `T_DIR`, `T_FILE`, `T_DEV`, `T_MOUNT`, `T_SYMLINK`. -/
def ftype (type : BitVec 16) : Vfs.FType :=
  match type.toNat with
  | 1 => .dir
  | 2 => .file
  | 3 => .dev
  | 4 => .mount
  | 5 => .symlink
  | _ => .free

/-! ## The operations -/

/-- The bytes of the directory, and the inodes. -/
structure State where
  sys : Vfs.Sys
  content : List (BitVec 8)
  /-- `balloc` finds the blocks that an append needs. -/
  space : Bool

/-- What works on one directory. -/
abbrev D := EStateM Vfs.Stop State

/-- A computation on the inodes. -/
def onSys {α : Type} (x : Vfs.V α) : D α := fun st =>
  match x st.sys with
  | .ok a s => .ok a { st with sys := s }
  | .error e s => .error e { st with sys := s }

/-- How many bytes are read, or -1. -/
def readi (L : List (BitVec 8)) (off n : Nat) : Int :=
  if L.length < off ∨ (off + n) % 2 ^ 64 < off then -1 else (min n (L.length - off) : Nat)

/-- How many bytes are written, or -1. The size field has 32 bits. -/
def writei (dp : Vfs.Ino) (data : List (BitVec 8)) (off : Nat) : D Int := do
  let st ← get
  let L := st.content
  if L.length < off ∨ (off + data.length) % 2 ^ 64 < off then pure (-1)
  else if maxfile * bsize < off + data.length then pure (-1)
  else if L.length < off + data.length then
    if st.space then do
      set { st with content := (overwrite L off data).take ((off + data.length) % 2 ^ 32) }
      onSys (Vfs.iupdate dp)
      pure data.length
    else throw (.panic "balloc: out of blocks")
  else do
    set { st with content := overwrite L off data }
    pure data.length

/-- The loop of `v6_dirlookup`. Its last argument is `free`; the result is the entry and its offset,
or `free`. A round moves on by one entry, so the size is enough. -/
def lookupLoop (L : List (BitVec 8)) (name : Bytes) : Nat → Nat → Int →
    Except Vfs.Stop (Option Dirent × Int)
  | 0, _, _ => .error .hang
  | fuel + 1, off, free =>
    if off < L.length then
      if readi L off direntSize ≠ direntSize then .error (.panic "dirlookup read")
      else
        let de := direntAt (bytesOf L) off
        if de.inum = 0 then
          lookupLoop L name fuel (off + direntSize) (if free = -1 then off else free)
        else if v6Namecmp name (bytesOf de.name) = 0 then .ok (some de, off)
        else lookupLoop L name fuel (off + direntSize) free
    else .ok (none, free)

/-- Stop where the loop stopped. -/
def liftExcept {α : Type} : Except Vfs.Stop α → D α
  | .error e => throw e
  | .ok a => pure a

/-- The inode and what is stored in `*poff`. -/
def dirlookup (dp : Vfs.Ino) (name : Bytes) : D (Option Vfs.Ino × Option Int) := do
  let st ← get
  if (st.sys.icache dp).attrs.type = .mount then
    match st.sys.mtablertinode dp with
    | none => throw (.panic "v6_dirlookup: Invalid inode on mount table")
    | some r => do
      let r ← onSys (Vfs.idup r)
      pure (some r, none)
  else if (st.sys.icache dp).attrs.type ≠ .dir then
    throw (.panic "dirlookup not DIR")
  else do
    let r ← liftExcept (lookupLoop st.content name (st.content.length + 1) 0 (-1))
    match r with
    | (none, free) => pure (none, some free)
    | (some de, off) => do
      let ip ← onSys (Vfs.iget ⟨dp.dev, de.inum.toNat⟩ (ftype de.type))
      pure (some ip, some off)

/-- The offset of the first free entry, or the size. Source: `generic_dirlink`. -/
def freeLoop (L : List (BitVec 8)) : Nat → Nat → Except Vfs.Stop Nat
  | 0, _ => .error .hang
  | fuel + 1, off =>
    if off < L.length then
      if readi L off direntSize ≠ direntSize then .error (.panic "read error")
      else if (direntAt (bytesOf L) off).inum = 0 then .ok off
      else freeLoop L fuel (off + direntSize)
    else .ok off

/-- `-EEXIST`. -/
lemma strncpy_length (t : Bytes) (n : Nat) : (strncpy t n).length = n := by
  induction n generalizing t with
  | zero => rfl
  | succ n ih =>
    rw [strncpy, List.length_cons]
    split
    · rw [ih]
    · rw [List.length_replicate]

/-- `generic_dirlink`. -/
def dirlink (dp : Vfs.Ino) (name : Bytes) (inum : BitVec 32) (type : BitVec 16) : D Int := do
  match ← dirlookup dp name with
  | (some ip, _) => do
    onSys (Vfs.iput ip)
    pure (-eexist)
  | (none, _) => do
    let st ← get
    let off ← liftExcept (freeLoop st.content (st.content.length + 1) 0)
    let de : Dirent := ⟨inum, type, strncpy name dirsiz, strncpy_length name dirsiz⟩
    let n ← writei dp (bytesOfDirent de) off
    if n ≠ direntSize then throw (.panic "write error") else pure 0

/-- The offset is a `uint32_t`. -/
def unlink (dp : Vfs.Ino) (off : Nat) : D Int := do
  let n ← writei dp (List.replicate direntSize 0) (off % 2 ^ 32)
  if n ≠ direntSize then pure (-1) else pure 0

/-- The loop of `v6_isdirempty`. The offset is an `int`: compared with the size it is unsigned, as
an offset to read from it is extended by its sign. -/
def emptyLoop (L : List (BitVec 8)) : Nat → BitVec 32 → Except Vfs.Stop Int
  | 0, _ => .error .hang
  | fuel + 1, off =>
    if off.toNat < L.length then
      let pos := (off.signExtend 64).toNat
      if readi L pos direntSize ≠ direntSize then .error (.panic "readi")
      else if (direntAt (bytesOf L) pos).inum ≠ 0 then .ok 0
      else emptyLoop L fuel (off + BitVec.ofNat 32 direntSize)
    else .ok 1

/-- `v6_isdirempty`. -/
def isdirempty : D Int := do
  let st ← get
  liftExcept (emptyLoop st.content (st.content.length + 1) (BitVec.ofNat 32 (2 * direntSize)))

/-! ## Strings -/

/-- The string in the first `n` bytes. -/
def cstr (p : Bytes) : Nat → List (BitVec 8)
  | 0 => []
  | n + 1 => if p 0 = 0 then [] else p 0 :: cstr (fun i => p (i + 1)) n

/-- The comparison is that of the strings up to the zero byte. -/
lemma strncmp_eq_zero_iff (p q : Bytes) (n : Nat) : strncmp p q n = 0 ↔ cstr p n = cstr q n := by
  induction n generalizing p q with
  | zero => simp [strncmp, cstr]
  | succ n ih => ?_
  have hdiff : ((p 0).toNat : Int) - (q 0).toNat = 0 ↔ p 0 = q 0 := by
    rw [Int.sub_eq_zero, Int.natCast_inj, BitVec.toNat_inj]
  rw [strncmp, cstr, cstr]
  by_cases heq : p 0 = q 0
  · rw [← heq]
    by_cases hp : p 0 = 0
    · simp [hp]
    · rw [if_pos ⟨hp, rfl⟩, if_neg hp, if_neg hp, ih, List.cons_inj_right]
  rw [if_neg fun h => heq h.2, hdiff]
  refine iff_of_false heq ?_
  split_ifs with hp hq hq
  · exact absurd (hp.trans hq.symm) heq
  · exact nofun
  · exact nofun
  · exact fun h => heq (List.cons.inj h).1

/-- The string in a list of bytes. -/
lemma cstr_bytesOf (l : List (BitVec 8)) (n : Nat) :
    cstr (bytesOf l) n = (l.take n).takeWhile (· ≠ 0) := by
  induction n generalizing l with
  | zero => rfl
  | succ n ih => ?_
  rcases l with - | ⟨a, l⟩
  · rfl
  have hfirst : bytesOf (a :: l) 0 = a := rfl
  have hrest : (fun i => bytesOf (a :: l) (i + 1)) = bytesOf l := rfl
  rw [cstr, hfirst, hrest, ih, List.take_succ_cons, List.takeWhile_cons]
  by_cases ha : a = 0 <;> simp [ha]

/-- A name as an argument: one to `DIRSIZ` bytes, none of them 0. -/
structure IsName (name : List (BitVec 8)) : Prop where
  pos : 0 < name.length
  le : name.length ≤ dirsiz
  ne_zero : ∀ c ∈ name, c ≠ 0

section names

variable {name : List (BitVec 8)} (h : IsName name)

include h

lemma IsName.takeWhile : name.takeWhile (· ≠ 0) = name :=
  List.takeWhile_eq_self_iff.mpr fun c hc => by simpa using h.ne_zero c hc

lemma IsName.cstr : cstr (bytesOf name) dirsiz = name := by
  rw [cstr_bytesOf, List.take_of_length_le h.le, h.takeWhile]

/-- The names that are found are those of the entries, also where they fill the field. -/
lemma v6Namecmp_eq_zero_iff (de : Dirent) :
    v6Namecmp (bytesOf name) (bytesOf de.name) = 0 ↔ de.cname = name := by
  rw [v6Namecmp, strncmp_eq_zero_iff, h.cstr, cstr_bytesOf,
    List.take_of_length_le de.name_length.le]
  exact eq_comm

/-- A name that was copied is read back. -/
lemma strncpy_takeWhile : (strncpy (bytesOf name) dirsiz).takeWhile (· ≠ 0) = name := by
  have hcopy : ∀ (n : Nat) (l : List (BitVec 8)), l.length ≤ n → (∀ c ∈ l, c ≠ 0) →
      (strncpy (bytesOf l) n).takeWhile (· ≠ 0) = l := by
    intro n
    induction n with
    | zero =>
      intro l hl _
      rw [List.length_eq_zero_iff.mp (Nat.le_zero.mp hl)]
      rfl
    | succ n ih => ?_
    intro l hl hne
    rcases l with - | ⟨a, l⟩
    · simp [strncpy, bytesOf]
    have hfirst : bytesOf (a :: l) 0 = a := rfl
    have hrest : (fun i => bytesOf (a :: l) (i + 1)) = bytesOf l := rfl
    have ha : a ≠ 0 := hne a List.mem_cons_self
    have hl' := ih l (Nat.le_of_succ_le_succ hl) fun c hc => hne c (List.mem_cons_of_mem a hc)
    rw [strncpy, hfirst, if_pos ha, hrest, List.takeWhile_cons, if_pos (by simpa using ha), hl']
  exact hcopy dirsiz name h.le h.ne_zero

end names

/-! ## The entries that the bytes hold -/

/-- A name of bytes as a name of characters. -/
def chars (s : List (BitVec 8)) : Vfs.Name := s.map fun c => Char.ofNat c.toNat

lemma chars_injective : Function.Injective chars := by
  refine List.map_injective_iff.mpr fun a b hab => ?_
  have hval : ∀ c : BitVec 8, (Char.ofNat c.toNat).toNat = c.toNat := by decide +kernel
  have := congrArg Char.toNat hab
  rw [hval, hval] at this
  exact BitVec.eq_of_toNat_eq this

/-- An entry as the file-system model has it. -/
def toVfs (de : Dirent) : Vfs.Dirent := ⟨de.inum.toNat, ftype de.type, chars de.cname⟩

/-- The entry in a slot. -/
def slot (L : List (BitVec 8)) (k : Nat) : Dirent := direntAt (bytesOf L) (direntSize * k)

/-- The entries of a directory. -/
def entries (L : List (BitVec 8)) : List Vfs.Dirent :=
  (List.range (L.length / direntSize)).map fun k => toVfs (slot L k)

section slots

variable {L : List (BitVec 8)} {b b' : Bytes} {off k n : Nat} {de : Dirent}

lemma bytesOfDirent_length (de : Dirent) : (bytesOfDirent de).length = direntSize := by
  simp [bytesOfDirent, de.name_length, direntSize, dirsiz]

/-- An entry depends on its 64 bytes. -/
lemma direntAt_congr (h : ∀ i < direntSize, b' (off + i) = b (off + i)) :
    direntAt b' off = direntAt b off := by
  unfold direntSize at h
  have hlow : leNat b' off 4 = leNat b off 4 := Getdents.leNat_congr fun i hi => h i (by omega)
  have hhigh : ∀ k i, k + i < 64 → b' (off + k + i) = b (off + k + i) := fun k i hi => by
    rw [Nat.add_assoc]
    exact h _ hi
  have htype : leNat b' (off + 4) 2 = leNat b (off + 4) 2 :=
    Getdents.leNat_congr fun i hi => hhigh 4 i (by omega)
  have hname : (List.range dirsiz).map (fun i => b' (off + 6 + i)) =
      (List.range dirsiz).map fun i => b (off + 6 + i) := List.map_congr_left fun i hi =>
    hhigh 6 i (Nat.add_lt_add_left (List.mem_range.mp hi) 6)
  unfold direntAt
  simp only [hlow, htype, hname]

/-- An entry that was written is read back. -/
lemma direntAt_of_holds (h : Holds b off (bytesOfDirent de)) : direntAt b off = de := by
  rw [bytesOfDirent, Getdents.holds_append, Getdents.holds_append] at h
  obtain ⟨⟨hinum, htype⟩, hname⟩ := h
  replace hname := hname.map_range
  rw [List.length_append, Getdents.le_length, Getdents.le_length, de.name_length] at hname
  rw [Getdents.le_length] at htype
  have h32 := de.inum.isLt
  have h16 := de.type.isLt
  unfold direntAt
  obtain ⟨inum, type, name, hlength⟩ := de
  dsimp only at hinum htype hname h32 h16
  simp only [Getdents.leNat_of_holds hinum, Getdents.leNat_of_holds htype, hname, Dirent.mk.injEq,
    and_true]
  constructor <;> rw [Nat.mod_eq_of_lt (by omega), BitVec.ofNat_toNat, BitVec.setWidth_eq]

lemma entries_getElem? (L : List (BitVec 8)) (k : Nat) :
    (entries L)[k]? = if k < L.length / direntSize then some (toVfs (slot L k)) else none := by
  unfold entries
  split
  · next hk => rw [List.getElem?_map, List.getElem?_range hk]; rfl
  · next hk => rw [List.getElem?_eq_none (by simpa using hk)]

lemma entries_getElem?_eq_some {e : Vfs.Dirent} :
    (entries L)[k]? = some e ↔ k < L.length / direntSize ∧ toVfs (slot L k) = e := by
  rw [entries_getElem?, Option.ite_none_right_eq_some, Option.some_inj]

@[simp] lemma entries_length (L : List (BitVec 8)) :
    (entries L).length = L.length / direntSize := by
  simp [entries]

/-- Writing an entry over a slot, in terms of the entries. -/
lemma entries_overwrite (hn : L.length = direntSize * n) (hk : k ≤ n) (de : Dirent) :
    entries (overwrite L (direntSize * k) (bytesOfDirent de)) = Vfs.putEntry (entries L) k
      (toVfs de) := by
  have hle : direntSize * k ≤ L.length := by rw [hn]; exact Nat.mul_le_mul_left _ hk
  have hlen : (overwrite L (direntSize * k) (bytesOfDirent de)).length / direntSize = max n
      (k + 1) := by
    rw [length_overwrite hle, bytesOfDirent_length, hn]
    unfold direntSize
    omega
  have hn' : L.length / direntSize = n := by rw [hn]; exact Nat.mul_div_cancel_left _ (by decide)
  refine List.ext_getElem? fun i => ?_
  rw [entries_getElem?, hlen, Vfs.putEntry_getElem? (by rw [entries_length, hn']; exact hk),
    entries_getElem?, hn']
  by_cases hi : i = k
  · subst hi
    rw [if_pos (by omega), if_pos rfl, slot, direntAt_of_holds]
    intro j hj
    rw [bytesOfDirent_length] at hj
    rw [bytesOf_overwrite hle, if_pos (by rw [bytesOfDirent_length]; omega),
      Nat.add_sub_cancel_left]
    rfl
  rw [if_neg hi]
  have hbound : (i < max n (k + 1)) ↔ i < n := by omega
  simp only [hbound]
  have hslot : slot (overwrite L (direntSize * k) (bytesOfDirent de)) i = slot L i := by
    refine direntAt_congr fun j hj => ?_
    rw [bytesOf_overwrite hle, if_neg]
    rw [bytesOfDirent_length]
    unfold direntSize at hj ⊢
    omega
  rw [hslot]

end slots

/-! ## What the loops find -/

section loops

variable {L : List (BitVec 8)} {name : List (BitVec 8)} {k n fuel : Nat}

lemma slot_lt (hn : L.length = direntSize * n) (hk : k < n) : direntSize * k < L.length := by
  rw [hn]
  exact Nat.mul_lt_mul_of_pos_left hk (by decide)

lemma slot_le (hn : L.length = direntSize * n) (hk : k < n) :
    direntSize * k + direntSize ≤ L.length := by
  rw [hn, ← Nat.mul_succ]
  exact Nat.mul_le_mul_left _ hk

lemma readi_slot (hn : L.length = direntSize * n) (hlt : L.length < 2 ^ 32) (hk : k < n) :
    readi L (direntSize * k) direntSize = direntSize := by
  have hoff := slot_le hn hk
  unfold readi
  rw [if_neg (by unfold direntSize at *; omega), Nat.min_eq_left (by omega)]

/-- A slot that is in use and has the name. -/
def Matches (L : List (BitVec 8)) (name : List (BitVec 8)) (k : Nat) : Prop :=
  (slot L k).inum ≠ 0 ∧ (slot L k).cname = name

/-- What the loop of `v6_dirlookup` may return from slot `k` on. -/
def Looked (L : List (BitVec 8)) (name : List (BitVec 8)) (k n : Nat)
    (r : Except Vfs.Stop (Option Dirent × Int)) : Prop :=
  (∃ j, k ≤ j ∧ j < n ∧ Matches L name j ∧ r = .ok (some (slot L j), (direntSize * j : Nat))) ∨
    ∃ free, (∀ j, k ≤ j → j < n → ¬ Matches L name j) ∧ r = .ok (none, free)

/-- A slot that does not match is passed. -/
lemma Looked.skip {r : Except Vfs.Stop (Option Dirent × Int)} (hno : ¬ Matches L name k)
    (h : Looked L name (k + 1) n r) : Looked L name k n r := by
  refine h.imp ?_ ?_
  · rintro ⟨j, hj, hrest⟩
    exact ⟨j, by omega, hrest⟩
  rintro ⟨free, hnone, hr⟩
  refine ⟨free, fun j hj hj' => ?_, hr⟩
  rcases Nat.eq_or_lt_of_le hj with rfl | hlt
  · exact hno
  · exact hnone j hlt hj'

section

variable (hn : L.length = direntSize * n) (hlt : L.length < 2 ^ 32)
include hn hlt

/-- One round of the loop of `dirlookup`. -/
lemma lookupLoop_step (hname : IsName name)
    (hk : k < n) (free : Int) : lookupLoop L (bytesOf name) (fuel + 1) (direntSize * k) free =
      if (slot L k).inum = 0 then lookupLoop L (bytesOf name) fuel (direntSize * (k + 1))
        (if free = -1 then (direntSize * k : Nat) else free)
      else if (slot L k).cname = name then .ok (some (slot L k), (direntSize * k : Nat))
      else lookupLoop L (bytesOf name) fuel (direntSize * (k + 1)) free := by
  rw [lookupLoop, if_pos (slot_lt hn hk), if_neg (by rw [readi_slot hn hlt hk]; simp),
    ← Nat.mul_succ]
  simp only [← v6Namecmp_eq_zero_iff hname (slot L k)]
  rfl

/-- The loop from slot `k` on. -/
lemma lookupLoop_spec (hname : IsName name) (hk : k ≤ n) (hfuel : n - k < fuel) (free : Int) :
    Looked L name k n (lookupLoop L (bytesOf name) fuel (direntSize * k) free) := by
  -- on the number of rounds left
  induction fuel generalizing k free with
  | zero => exact absurd hfuel (Nat.not_lt_zero _)
  | succ fuel ih => ?_
  by_cases hend : k = n
  · rw [lookupLoop, if_neg (by rw [hn, hend]; exact lt_irrefl _)]
    exact .inr ⟨free, fun j hj hj' => absurd hj' (by omega), rfl⟩
  have hkn : k < n := Nat.lt_of_le_of_ne hk hend
  have hnext := fun free => ih hkn (by omega) free
  rw [lookupLoop_step hn hlt hname hkn]
  by_cases hzero : (slot L k).inum = 0
  · rw [if_pos hzero]
    exact (hnext _).skip fun h => h.1 hzero
  rw [if_neg hzero]
  by_cases hmatch : (slot L k).cname = name
  · rw [if_pos hmatch]
    exact .inl ⟨k, le_refl k, hkn, ⟨hzero, hmatch⟩, rfl⟩
  · rw [if_neg hmatch]
    exact (hnext _).skip fun h => hmatch h.2

/-- The loop of `generic_dirlink` finds the first free slot, or the end. -/
lemma freeLoop_spec (hk : k ≤ n)
    (hfuel : n - k < fuel) : ∃ j ≤ n, freeLoop L fuel (direntSize * k) = .ok (direntSize * j) ∧
      (∀ i, k ≤ i → i < j → (slot L i).inum ≠ 0) ∧ (j < n → (slot L j).inum = 0) := by
  induction fuel generalizing k with
  | zero => exact absurd hfuel (Nat.not_lt_zero _)
  | succ fuel ih => ?_
  rw [freeLoop]
  by_cases hend : k = n
  · rw [if_neg (by rw [hn, hend]; exact lt_irrefl _)]
    exact ⟨k, hk, rfl, fun i hi hi' => absurd hi' (by omega), fun h => absurd h (by omega)⟩
  have hkn : k < n := Nat.lt_of_le_of_ne hk hend
  rw [if_pos (slot_lt hn hkn), if_neg (by rw [readi_slot hn hlt hkn]; simp)]
  by_cases hzero : (slot L k).inum = 0
  · unfold slot at hzero
    rw [if_pos hzero]
    exact ⟨k, hk, rfl, fun i hi hi' => absurd hi' (by omega), fun _ => hzero⟩
  obtain ⟨j, hjn, hrun, hbefore, hfree⟩ := ih hkn (by omega)
  refine ⟨j, hjn, ?_, fun i hi hi' => ?_, hfree⟩
  · unfold slot at hzero
    rw [if_neg hzero]
    exact hrun
  rcases Nat.eq_or_lt_of_le hi with rfl | hlt'
  · exact hzero
  · exact hbefore i hlt' hi'

end

/-- The bound below which the `int` of `v6_isdirempty` is not negative. -/
def intEntries : Nat := 2 ^ 31 / direntSize

/-- The loop of `v6_isdirempty` returns 0 at the first slot in use and 1 at the end; where the
offset becomes negative before that, the read fails. -/
lemma emptyLoop_spec (hn : L.length = direntSize * n) (hlt : L.length < 2 ^ 32) (hk : k ≤ max n 2)
    (hk' : k ≤ intEntries) (hfuel : n - k < fuel) :
    let r := emptyLoop L fuel (BitVec.ofNat 32 (direntSize * k))
    (∃ j, k ≤ j ∧ j < n ∧ j < intEntries ∧ (slot L j).inum ≠ 0 ∧ r = .ok 0) ∨
    ((∀ j, k ≤ j → j < n → j < intEntries → (slot L j).inum = 0) ∧
      r = if n ≤ intEntries then .ok 1 else .error (.panic "readi")) := by
  induction fuel generalizing k with
  | zero => exact absurd hfuel (Nat.not_lt_zero _)
  | succ fuel ih => ?_
  have hbound : direntSize * k ≤ 2 ^ 31 := by
    unfold intEntries at hk'
    unfold direntSize at hk' ⊢
    omega
  have hoff : (BitVec.ofNat 32 (direntSize * k)).toNat = direntSize * k := by
    rw [BitVec.toNat_ofNat]
    exact Nat.mod_eq_of_lt (by omega)
  dsimp only
  rw [emptyLoop, hoff]
  by_cases hend : n ≤ k
  · have hnot : ¬ direntSize * k < L.length := by
      rw [hn]
      exact Nat.not_lt.mpr (Nat.mul_le_mul_left _ hend)
    rw [if_neg hnot, if_pos (le_trans hend hk')]
    exact .inr ⟨fun j hj hj' => absurd hj' (by omega), rfl⟩
  have hkn : k < n := Nat.lt_of_not_le hend
  rw [if_pos (slot_lt hn hkn)]
  by_cases hlast : k = intEntries
  · -- the offset is -2^31, which is beyond every size
    have hneg : ((BitVec.ofNat 32 (direntSize * k)).signExtend 64).toNat = 2 ^ 64 - 2 ^ 31 := by
      rw [hlast]
      decide
    have hread : readi L (2 ^ 64 - 2 ^ 31) direntSize = -1 := by
      unfold readi
      rw [if_pos (.inl (by omega))]
    refine .inr ⟨fun j hj _ hj' => absurd hj' (by omega), ?_⟩
    dsimp only
    rw [hneg, hread, if_pos (by decide), if_neg (by omega)]
  · have hklt : k < intEntries := Nat.lt_of_le_of_ne hk' hlast
    have hpos : ((BitVec.ofNat 32 (direntSize * k)).signExtend 64).toNat = direntSize * k := by
      have hlt31 : direntSize * k < 2 ^ 31 := by
        unfold intEntries at hklt
        unfold direntSize at hklt ⊢
        omega
      have hmsb : (BitVec.ofNat 32 (direntSize * k)).msb = false := by
        rw [BitVec.msb_eq_false_iff_two_mul_lt, hoff]
        omega
      rw [BitVec.signExtend_eq_setWidth_of_msb_false hmsb, BitVec.toNat_setWidth, hoff]
      exact Nat.mod_eq_of_lt (by omega)
    have hnext : BitVec.ofNat 32 (direntSize * k) + BitVec.ofNat 32 direntSize =
        BitVec.ofNat 32 (direntSize * (k + 1)) := by
      rw [Nat.mul_succ, BitVec.ofNat_add]
    dsimp only
    rw [hpos, readi_slot hn hlt hkn, if_neg (by simp), hnext]
    by_cases hzero : (slot L k).inum = 0
    · have hif : ¬ (direntAt (bytesOf L) (direntSize * k)).inum ≠ 0 := not_not.mpr hzero
      rw [if_neg hif]
      refine (ih (by omega) hklt (by omega)).imp ?_ ?_
      · rintro ⟨j, hj, hrest⟩
        exact ⟨j, by omega, hrest⟩
      rintro ⟨hall, hrun⟩
      refine ⟨fun j hj hj' hj'' => ?_, hrun⟩
      rcases Nat.eq_or_lt_of_le hj with rfl | hlt'
      · exact hzero
      · exact hall j hlt' hj' hj''
    · have hif : (direntAt (bytesOf L) (direntSize * k)).inum ≠ 0 := hzero
      rw [if_pos hif]
      exact .inl ⟨k, le_refl k, hkn, hklt, hzero, rfl⟩

end loops

end RpiOs.V6.Directory
