import Mathlib.Data.List.GetD
import Mathlib.Data.List.TakeWhile
import RpiOs.Lib.Bytes

/-!
# Listing a directory

`kern/v6.c` `v6_getdents`, called again and again until it returns 0. A directory is a list of
entries of 64 bytes each, which `fileread` hands out one by one; the buffer is an array of bytes,
and every write to it is recorded. What lies on the stack behind the local `de` is arbitrary:
`strlen` and `strncpy` look at it if the name fills its field.

A listing reads the records back as a program would do it, from one `d_reclen` to the next.

* `listed_iff` (main): a listing is complete exactly if everything fits into one buffer, every entry
  is of the type of the directory itself, and behind each name that fills its field there is a 0 on
  the stack.
-/

namespace RpiOs.V6.Getdents

open Lib

/-! ## The directory -/

/-- `DIRSIZ`. -/
def dirsiz : Nat := 58

/-- An entry as it is on the card. -/
structure Dirent where
  inum : BitVec 32
  type : BitVec 16
  name : List (BitVec 8)
  name_length : name.length = dirsiz

/-- `sizeof(struct dirent)`. -/
def direntSize : Nat := 64

/-- Where `d_name` begins in `struct dirent64`. -/
def nameOffset : Nat := 19

/-- `sizeof(struct dirent64)`. -/
def headSize : Nat := 24

/-- `ALIGN(p, 3)`. -/
def align8 (p : Nat) : Nat := (p + 7) / 8 * 8

/-- `IFTODT`. -/
def iftodt (mode : Nat) : BitVec 8 := BitVec.ofNat 8 (mode / 4096 % 16)

/-- The name up to the first 0. -/
def Dirent.cname (de : Dirent) : List (BitVec 8) := de.name.takeWhile (· ≠ 0)

/-- `namelen`, with `MIN(strlen(de.name), DIRSIZ)`. -/
def Dirent.namelen (de : Dirent) : Nat := de.cname.length + 1

def Dirent.reclen (de : Dirent) : Nat := align8 (nameOffset + de.namelen)

/-- The name and what follows it on the stack. -/
def Dirent.stream (de : Dirent) (after : Bytes) : Bytes := fun i =>
  if i < dirsiz then de.name.getD i 0 else after (i - dirsiz)

/-- The open directory, and what is on the stack behind `de` after entry `i` has been read. -/
structure Dir where
  entries : List Dirent
  /-- `f->ip->mode` -/
  mode : Nat
  after : Nat → Bytes

/-! ## One call -/

/-- The buffer, and where it has been written. -/
structure Out where
  buf : Bytes
  writes : List (Nat × Nat)

def Out.put (o : Out) (off : Nat) (bytes : List (BitVec 8)) : Out :=
  ⟨splice o.buf off (fun i => bytes.getD i 0) 0 bytes.length, (off, bytes.length) :: o.writes⟩

/-- The low `n` bytes of a number, lowest first. -/
def le : Nat → Nat → List (BitVec 8)
  | 0, _ => []
  | n + 1, v => BitVec.ofNat 8 v :: le n (v / 256)

def strncpy (t : Bytes) : Nat → List (BitVec 8)
  | 0 => []
  | n + 1 => t 0 :: if t 0 ≠ 0 then strncpy (fun i => t (i + 1)) n else List.replicate n 0

/-- `int` to `off64_t`. -/
def off64 (off : Nat) : Nat := ((BitVec.ofNat 32 off).signExtend 64).toNat

/-- One record. Source: `v6_getdents`. -/
def Out.record (o : Out) (r : Nat) (de : Dirent) (after : Bytes) (off mode : Nat) : Out :=
  let o := o.put r (List.replicate headSize 0)
  let o := o.put r (le 8 de.inum.toNat)
  let o := o.put (r + 8) (le 8 (off64 off))
  let o := o.put (r + 16) (le 2 de.reclen)
  let o := o.put (r + 18) [iftodt mode]
  o.put (r + nameOffset) (strncpy (de.stream after) de.namelen)

/-- From entry `i` on; an entry that does not fit has been read all the same. The result is what is
returned, the next entry, and the buffer. Source: `v6_getdents`. -/
def getdentsLoop (d : Dir) (size : Nat) : List Dirent → Nat → Nat → Nat → Out → Nat × Nat × Out
  | [], i, _, r, o => (r, i, o)
  | de :: rest, i, off, r, o =>
    if de.inum = 0 then getdentsLoop d size rest (i + 1) off r o
    else if size < r + de.reclen then (r, i + 1, o)
    else getdentsLoop d size rest (i + 1) (direntSize * (i + 1)) (r + de.reclen)
      (o.record r de (d.after i) off d.mode)

/-- With `f->off` at entry `i`. -/
def v6Getdents (d : Dir) (size i : Nat) (data : Bytes) : Nat × Nat × Out :=
  getdentsLoop d size (d.entries.drop i) i 0 0 ⟨data, []⟩

/-! ## A listing -/

/-- What a program reads of a record; no name if there is no 0 in the record. -/
structure Record where
  ino : Nat
  type : BitVec 8
  name : Option (List (BitVec 8))
  deriving DecidableEq

/-- A number of `n` bytes. -/
def leNat (b : Bytes) (pos : Nat) : Nat → Nat
  | 0 => 0
  | n + 1 => (b pos).toNat + 256 * leNat b (pos + 1) n

/-- The bytes up to a 0, in the next `n`. -/
def cstring (b : Bytes) (pos : Nat) : Nat → Option (List (BitVec 8))
  | 0 => none
  | n + 1 => if b pos = 0 then some [] else (cstring b (pos + 1) n).map (b pos :: ·)

/-- The records from `pos` to `stop`. -/
def parse (b : Bytes) : Nat → Nat → Nat → List Record
  | 0, _, _ => []
  | fuel + 1, pos, stop =>
    if pos < stop then
      let reclen := leNat b (pos + 16) 2
      ⟨leNat b pos 8, b (pos + 18), cstring b (pos + nameOffset) (reclen - nameOffset)⟩ ::
        parse b fuel (pos + reclen) stop
    else []

/-- A call of a listing: what it returned, and the buffer. -/
structure Reply where
  ret : Nat
  out : Out

def Reply.records (a : Reply) : List Record := parse a.out.buf a.ret 0 a.ret

/-- Calls until one returns 0; `data k` is what is in the buffer before call `k`. -/
def listing (d : Dir) (size : Nat) (data : Nat → Bytes) : Nat → Nat → Nat → Option (List Reply)
  | 0, _, _ => none
  | fuel + 1, k, i =>
    match v6Getdents d size i (data k) with
    | (0, _, o) => some [⟨0, o⟩]
    | (ret + 1, j, o) => (listing d size data fuel (k + 1) j).map (⟨ret + 1, o⟩ :: ·)

/-- Entries in use. -/
def Dir.live (d : Dir) : List Dirent := d.entries.filter (·.inum ≠ 0)

/-- The record an entry should have; `modes` are those of the inodes. -/
def Dirent.wanted (modes : BitVec 32 → Nat) (de : Dirent) : Record :=
  ⟨de.inum.toNat, iftodt (modes de.inum), some de.cname⟩

/-- The listing from the start ends, has each live entry once and in order, and stays in its
buffers. -/
def Listed (d : Dir) (modes : BitVec 32 → Nat) (size : Nat) (data : Nat → Bytes) : Prop :=
  ∃ replies, listing d size data (d.entries.length + 1) 0 0 = some replies ∧
    replies.flatMap Reply.records = d.live.map (Dirent.wanted modes) ∧
    ∀ a ∈ replies, ∀ w ∈ a.out.writes, w.1 + w.2 ≤ size

/-! ## Bytes in a buffer -/

/-- These bytes are at `pos`. -/
def Holds (b : Bytes) (pos : Nat) (bytes : List (BitVec 8)) : Prop :=
  ∀ i < bytes.length, b (pos + i) = bytes.getD i 0

section bytes

variable {b : Bytes} {o : Out} {pos off n v k : Nat} {bytes bytes' : List (BitVec 8)}

lemma put_holds : Holds (o.put off bytes).buf off bytes := by
  intro i hi
  simp only [Out.put, splice]
  rw [if_pos (by omega), Nat.zero_add, Nat.add_sub_cancel_left]

lemma put_of_lt (h : k < off) : (o.put off bytes).buf k = o.buf k := if_neg (by omega)

lemma Holds.put (h : Holds o.buf pos bytes)
    (hne : pos + bytes.length ≤ off ∨ off + bytes'.length ≤ pos) :
    Holds (o.put off bytes').buf pos bytes := by
  intro i hi
  rcases hne with hne | hne
  · rw [put_of_lt (by omega)]
    exact h i hi
  · exact (if_neg (by omega)).trans (h i hi)

@[simp] lemma le_length (n v : Nat) : (le n v).length = n := by
  induction n generalizing v with
  | zero => rfl
  | succ n ih => rw [le, List.length_cons, ih]

lemma holds_cons {a : BitVec 8} : Holds b pos (a :: bytes) ↔
    b pos = a ∧ Holds b (pos + 1) bytes := by
  simp only [Holds, List.length_cons, Nat.forall_lt_succ_left', Nat.add_assoc, Nat.add_comm 1]
  rfl

lemma holds_append : Holds b pos (bytes ++ bytes') ↔
    Holds b pos bytes ∧ Holds b (pos + bytes.length) bytes' := by
  induction bytes generalizing pos with
  | nil => simp [Holds]
  | cons a bytes ih => simp [holds_cons, ih, and_assoc, Nat.add_assoc, Nat.add_comm 1]

lemma Holds.map_range (h : Holds b pos bytes) :
    (List.range bytes.length).map (fun i => b (pos + i)) = bytes := by
  refine List.ext_getElem (by simp) fun i _ hi => ?_
  rw [List.getElem_map, List.getElem_range, h i hi, List.getD_eq_getElem _ _ hi]

lemma leNat_of_holds (h : Holds b pos (le n v)) : leNat b pos n = v % 256 ^ n := by
  induction n generalizing pos v with
  | zero => simp [leNat, Nat.mod_one]
  | succ n ih =>
    obtain ⟨hfirst, hrest⟩ := holds_cons.mp h
    have hpow : 256 ^ (n + 1) = 256 * 256 ^ n := Nat.pow_succ'
    rw [leNat, ih hrest, hfirst, BitVec.toNat_ofNat, hpow, Nat.mod_mul]

lemma strncpy_eq {t : Bytes} (h : ∀ i < k, t i ≠ 0) :
    strncpy t (k + 1) = (List.range (k + 1)).map t := by
  induction k generalizing t with
  | zero => simp [strncpy]
  | succ k ih =>
    have hrest := ih (t := fun i => t (i + 1)) fun i hi => h (i + 1) (by omega)
    rw [strncpy, if_pos (h 0 (Nat.succ_pos k)), hrest, List.range_succ_eq_map (n := k + 1),
      List.map_cons, List.map_map]
    rfl

/-- What is read as a string: bytes up to a zero, within the limit. -/
lemma cstring_eq_some {s : List (BitVec 8)} : cstring b pos n = some s ↔
    s.length < n ∧ Holds b pos s ∧ 0 ∉ s ∧ b (pos + s.length) = 0 := by
  induction n generalizing pos s with
  | zero => simp [cstring]
  | succ n ih => ?_
  rw [cstring]
  cases s with
  | nil => by_cases hzero : b pos = 0 <;> simp [hzero, Holds]
  | cons a s =>
    have hadd : pos + (s.length + 1) = pos + 1 + s.length := by omega
    rw [holds_cons, List.length_cons, List.mem_cons, Nat.add_lt_add_iff_right, hadd, not_or]
    split
    · next hzero => simpa [hzero] using fun _ h _ h' => absurd h h'
    · next hzero =>
      rw [Option.map_eq_some_iff]
      simp only [List.cons.injEq, exists_eq_right_right, ih]
      constructor
      · rintro ⟨⟨hlen, hholds, hne, hend⟩, rfl⟩
        exact ⟨hlen, ⟨rfl, hholds⟩, ⟨Ne.symm hzero, hne⟩, hend⟩
      · rintro ⟨hlen, ⟨ha, hholds⟩, ⟨-, hne⟩, hend⟩
        exact ⟨⟨hlen, hholds, hne, hend⟩, ha⟩

end bytes

/-! ## Records -/

section records

variable {d : Dir} (o : Out) {r : Nat} (de : Dirent) (after : Bytes) (off mode : Nat)

lemma Dirent.cname_length_le : de.cname.length ≤ dirsiz := by
  rw [← de.name_length]
  exact (List.takeWhile_prefix _).length_le

lemma Dirent.reclen_bounds :
    headSize ≤ de.reclen ∧ nameOffset + de.namelen ≤ de.reclen ∧ de.reclen < 65536 := by
  have hle := de.cname_length_le
  unfold dirsiz at hle
  unfold Dirent.reclen Dirent.namelen align8 nameOffset headSize
  omega

/-- The bytes of a name. -/
lemma Dirent.cname_getD {i : Nat} (hi : i < de.cname.length) :
    de.name.getD i 0 = de.cname.getD i 0 ∧ de.cname.getD i 0 ≠ 0 := by
  have hget : de.cname.getD i 0 = de.cname[i] := List.getD_eq_getElem _ _ hi
  have hinit : de.cname <+: de.name := List.takeWhile_prefix _
  refine ⟨?_, ?_⟩
  · rw [hget, List.getD_eq_getElem _ _ (hi.trans_le hinit.length_le)]
    exact (hinit.getElem hi).symm
  rw [hget]
  have hmem := List.mem_takeWhile_imp (List.getElem_mem hi)
  simpa using hmem

/-- And the zero after them. -/
lemma Dirent.cname_end : de.name.getD de.cname.length 0 = 0 := by
  have hsplit : de.cname ++ de.name.dropWhile (· ≠ 0) = de.name := List.takeWhile_append_dropWhile
  have hhead := List.head?_dropWhile_not (fun x : BitVec 8 => decide (x ≠ 0)) de.name
  refine (congrArg (List.getD · de.cname.length 0) hsplit).symm.trans ?_
  rw [List.getD_append_right _ _ _ _ (le_refl _), Nat.sub_self]
  cases hrest : de.name.dropWhile (· ≠ 0) with
  | nil => rfl
  | cons a rest =>
    rw [hrest] at hhead
    simpa using hhead

lemma Dirent.stream_name {i : Nat} (hi : i < de.cname.length) :
    de.stream after i = de.cname.getD i 0 := by
  rw [Dirent.stream, if_pos (hi.trans_le de.cname_length_le)]
  exact (de.cname_getD hi).1

/-- A name of full length ends where the next byte on the stack is zero. -/
lemma Dirent.stream_end : de.stream after de.cname.length = 0 ↔
    (de.cname.length = dirsiz → after 0 = 0) := by
  have hle := de.cname_length_le
  unfold Dirent.stream
  by_cases hlt : de.cname.length < dirsiz
  · rw [if_pos hlt]
    exact iff_of_true de.cname_end fun h => by omega
  have heq : de.cname.length = dirsiz := by omega
  rw [if_neg hlt, heq, Nat.sub_self]
  exact ⟨fun h _ => h, fun h => h rfl⟩

lemma Dirent.strncpy_eq : strncpy (de.stream after) de.namelen =
    (List.range de.namelen).map (de.stream after) :=
  Getdents.strncpy_eq fun i hi => by
    rw [de.stream_name after hi]
    exact (de.cname_getD hi).2

@[simp] lemma Dirent.strncpy_length :
    (strncpy (de.stream after) de.namelen).length = de.namelen := by
  rw [de.strncpy_eq, List.length_map, List.length_range]

/-- What the program finds at the place of a record. -/
structure RecordAt (b : Bytes) (r : Nat) (de : Dirent) (after : Bytes) (mode : Nat) : Prop where
  ino : leNat b r 8 = de.inum.toNat
  reclen : leNat b (r + 16) 2 = de.reclen
  type : b (r + 18) = iftodt mode
  name : ∀ i < de.namelen, b (r + nameOffset + i) = de.stream after i

/-- **A record is found again.** -/
lemma record_at : RecordAt (o.record r de after off mode).buf r de after mode := by
  have hino : Holds (o.record r de after off mode).buf r (le 8 de.inum.toNat) := by
    refine Holds.put (Holds.put (Holds.put (Holds.put put_holds ?_) ?_) ?_) ?_
    all_goals simp [nameOffset]
  have hreclen : Holds (o.record r de after off mode).buf (r + 16) (le 2 de.reclen) := by
    refine Holds.put (Holds.put put_holds ?_) ?_
    all_goals simp [nameOffset]
  have htype : Holds (o.record r de after off mode).buf (r + 18) [iftodt mode] := by
    refine Holds.put put_holds ?_
    simp [nameOffset]
  refine ⟨?_, ?_, htype 0 Nat.one_pos, fun i hi => ?_⟩
  · rw [leNat_of_holds hino]
    have := de.inum.isLt
    exact Nat.mod_eq_of_lt (by omega)
  · rw [leNat_of_holds hreclen]
    exact Nat.mod_eq_of_lt de.reclen_bounds.2.2
  have hname : (o.record r de after off mode).buf (r + nameOffset + i) = _ :=
    put_holds i (by rw [de.strncpy_length]; exact hi)
  rw [hname, de.strncpy_eq, List.getD_eq_getElem _ _ (by simpa using hi)]
  simp

/-- A record has the name of its entry exactly if there is a 0 behind it. -/
lemma RecordAt.name_iff {b : Bytes} {de : Dirent} {after : Bytes} {mode : Nat}
    (h : RecordAt b r de after mode) :
    cstring b (r + nameOffset) (de.reclen - nameOffset) = some de.cname ↔
      (de.cname.length = dirsiz → after 0 = 0) := by
  have hlen : de.cname.length < de.namelen := Nat.lt_succ_self _
  have hbounds := de.reclen_bounds
  rw [cstring_eq_some, h.name _ hlen, de.stream_end after]
  constructor
  · exact fun hstring => hstring.2.2.2
  intro hend
  refine ⟨by omega, fun i hi => ?_, fun h => by simpa using List.mem_takeWhile_imp h, hend⟩
  rw [h.name i (by omega), de.stream_name after hi]

/-- A record is written in its own bytes. -/
lemma record_writes :
    ∀ w ∈ (o.record r de after off mode).writes, w ∈ o.writes ∨ w.1 + w.2 ≤ r + de.reclen := by
  intro w hw
  have hbounds := de.reclen_bounds
  unfold headSize nameOffset at hbounds
  simp only [Out.record, Out.put, List.mem_cons, List.length_replicate, le_length,
    List.length_singleton, Dirent.strncpy_length, headSize, nameOffset] at hw
  rcases hw with rfl | rfl | rfl | rfl | rfl | rfl | hw
  all_goals first
    | exact .inl hw
    | right; dsimp only; omega

lemma record_below {k : Nat} (hk : k < r) :
    (o.record r de after off mode).buf k = o.buf k := by
  unfold Out.record
  rw [put_of_lt (by omega), put_of_lt (by omega), put_of_lt (by omega), put_of_lt (by omega),
    put_of_lt hk, put_of_lt hk]

end records

/-! ## What a call takes -/

/-- The entries a call makes records of, with their index. -/
def taken (size : Nat) : List Dirent → Nat → Nat → List (Nat × Dirent)
  | [], _, _ => []
  | de :: rest, i, r =>
    if de.inum = 0 then taken size rest (i + 1) r
    else if size < r + de.reclen then []
    else (i, de) :: taken size rest (i + 1) (r + de.reclen)

/-- How many entries a call reads. -/
def reads (size : Nat) : List Dirent → Nat → Nat
  | [], _ => 0
  | de :: rest, r =>
    if de.inum = 0 then reads size rest r + 1
    else if size < r + de.reclen then 1
    else reads size rest (r + de.reclen) + 1

/-- An entry in use, with its index. -/
def liveAt (x : Dirent × Nat) : Option (Nat × Dirent) :=
    if x.1.inum = 0 then none else some (x.2, x.1)

/-- The entries in use, numbered from `i` on. -/
def indexed (es : List Dirent) (i : Nat) : List (Nat × Dirent) := (es.zipIdx i).filterMap liveAt

/-- The entries in use. -/
def live (es : List Dirent) : List Dirent := es.filter (·.inum ≠ 0)

/-- What the program gets from a call. -/
def reply (d : Dir) (size i : Nat) (data : Bytes) : Reply :=
  ⟨(v6Getdents d size i data).1, (v6Getdents d size i data).2.2⟩

/-- The length of the records. -/
def total (l : List (Nat × Dirent)) : Nat := (l.map fun x => x.2.reclen).sum

/-- The records of these entries, one after the other. -/
def RecordsAt (d : Dir) (b : Bytes) : Nat → List (Nat × Dirent) → Prop
  | _, [] => True
  | r, (i, de) :: rest => RecordAt b r de (d.after i) d.mode ∧ RecordsAt d b (r + de.reclen) rest

/-- The records as they are read. -/
def recordsOf (d : Dir) (b : Bytes) : Nat → List (Nat × Dirent) → List Record
  | _, [] => []
  | r, (_, de) :: rest =>
    ⟨de.inum.toNat, iftodt d.mode, cstring b (r + nameOffset) (de.reclen - nameOffset)⟩ ::
      recordsOf d b (r + de.reclen) rest

section calls

variable {d : Dir} {size : Nat} {b b' : Bytes} {de : Dirent} {l : List (Nat × Dirent)}
  (es : List Dirent)

lemma indexed_cons_free (h : de.inum = 0) (rest : List Dirent) (i : Nat) :
    indexed (de :: rest) i = indexed rest (i + 1) := by
  have hnone : liveAt (de, i) = none := if_pos h
  rw [indexed, List.zipIdx_cons, List.filterMap_cons_none hnone]
  rfl

lemma indexed_cons_live (h : de.inum ≠ 0) (rest : List Dirent) (i : Nat) :
    indexed (de :: rest) i = (i, de) :: indexed rest (i + 1) := by
  have hsome : liveAt (de, i) = some (i, de) := if_neg h
  rw [indexed, List.zipIdx_cons, List.filterMap_cons_some hsome]
  rfl

lemma live_cons_free (h : de.inum = 0) (rest : List Dirent) : live (de :: rest) = live rest :=
  List.filter_cons_of_neg (by simpa using h)

lemma live_cons (h : de.inum ≠ 0) (rest : List Dirent) : live (de :: rest) = de :: live rest :=
  List.filter_cons_of_pos (by simpa using h)

lemma leNat_congr {pos n : Nat} (h : ∀ i < n, b' (pos + i) = b (pos + i)) :
    leNat b' pos n = leNat b pos n := by
  induction n generalizing pos with
  | zero => rfl
  | succ n ih =>
    have hrest := @ih (pos + 1) fun i hi => by
      rw [Nat.add_assoc, Nat.add_comm 1]
      exact h (i + 1) (by omega)
    rw [leNat, leNat, hrest, show b' pos = b pos from h 0 (by omega)]

/-- A record depends on the bytes before its end. -/
lemma RecordAt.congr {r mode : Nat} {after : Bytes} (h : RecordAt b r de after mode)
    (hb : ∀ k < r + de.reclen, b' k = b k) : RecordAt b' r de after mode := by
  have hbounds := de.reclen_bounds
  unfold headSize at hbounds
  refine ⟨?_, ?_, ?_, fun i hi => ?_⟩
  · rw [leNat_congr fun i hi => hb _ (by omega)]
    exact h.ino
  · rw [leNat_congr fun i hi => hb _ (by omega)]
    exact h.reclen
  · rw [hb (r + 18) (by omega)]
    exact h.type
  · rw [hb _ (by omega)]
    exact h.name i hi

/-- **What a call does.** -/
lemma loop_spec (i off r : Nat) (o : Out) (hr : r ≤ size) :
    (getdentsLoop d size es i off r o).1 = r + total (taken size es i r) ∧
      (getdentsLoop d size es i off r o).2.1 = i + reads size es r ∧
      (∀ w ∈ (getdentsLoop d size es i off r o).2.2.writes, w ∈ o.writes ∨ w.1 + w.2 ≤ size) ∧
      (∀ k < r, (getdentsLoop d size es i off r o).2.2.buf k = o.buf k) ∧
      RecordsAt d (getdentsLoop d size es i off r o).2.2.buf r (taken size es i r) := by
  induction es generalizing i off r o with
  | nil => exact ⟨rfl, rfl, fun w hw => .inl hw, fun _ _ => rfl, trivial⟩
  | cons de rest ih => ?_
  rw [getdentsLoop, taken, reads]
  by_cases hfree : de.inum = 0
  · simp only [if_pos hfree]
    obtain ⟨hret, hnext, hwrites, hbelow, hrecords⟩ := ih (i + 1) off r o hr
    exact ⟨hret, by rw [hnext]; omega, hwrites, hbelow, hrecords⟩
  simp only [if_neg hfree]
  by_cases hfull : size < r + de.reclen
  · rw [if_pos hfull, if_pos hfull, if_pos hfull]
    exact ⟨rfl, rfl, fun w hw => .inl hw, fun _ _ => rfl, trivial⟩
  simp only [if_neg hfull]
  obtain ⟨hret, hnext, hwrites, hbelow, hrecords⟩ := ih (i + 1) (direntSize * (i + 1))
    (r + de.reclen) (o.record r de (d.after i) off d.mode) (by omega)
  refine ⟨?_, by rw [hnext]; omega, fun w hw => ?_, fun k hk => ?_, ?_, hrecords⟩
  · rw [hret]
    simp only [total, List.map_cons, List.sum_cons]
    omega
  · rcases hwrites w hw with hw | hw
    · rcases record_writes o de (d.after i) off d.mode w hw with hw | hw
      · exact .inl hw
      · exact .inr (by omega)
    · exact .inr hw
  · rw [hbelow k (by omega), record_below _ _ _ _ _ hk]
  · exact (record_at o de (d.after i) off d.mode).congr hbelow

/-- A reader finds the records one after the other. -/
lemma loop_parse {r fuel : Nat} (h : RecordsAt d b r l) (hfuel : total l ≤ fuel) :
    parse b fuel r (r + total l) = recordsOf d b r l := by
  induction l generalizing r fuel with
  | nil =>
    rw [show r + total [] = r from rfl]
    cases fuel with
    | zero => rfl
    | succ fuel => rw [parse, if_neg (lt_irrefl r)]; rfl
  | cons x rest ih => ?_
  obtain ⟨i, de⟩ := x
  have hpos := de.reclen_bounds.1
  have hsum : total ((i, de) :: rest) = de.reclen + total rest := by
    simp only [total, List.map_cons, List.sum_cons]
  unfold headSize at hpos
  obtain ⟨fuel, rfl⟩ : ∃ fuel', fuel = fuel' + 1 := ⟨fuel - 1, by omega⟩
  have hrest := @ih _ fuel h.2 (by omega)
  rw [parse, if_pos (by omega)]
  simp only [h.1.ino, h.1.reclen, h.1.type]
  rw [recordsOf, ← hrest, hsum, Nat.add_assoc]

lemma recordsOf_length (r : Nat) (l : List (Nat × Dirent)) :
    (recordsOf d b r l).length = l.length := by
  induction l generalizing r with
  | nil => rfl
  | cons x rest ih => rw [recordsOf, List.length_cons, List.length_cons, ih]

/-- They are what is wanted exactly if types and ends are right. -/
lemma recordsOf_eq_iff {r : Nat} (modes : BitVec 32 → Nat) (h : RecordsAt d b r l) :
    recordsOf d b r l = l.map (fun x => x.2.wanted modes) ↔
      ∀ x ∈ l, iftodt (modes x.2.inum) = iftodt d.mode ∧
        (x.2.cname.length = dirsiz → d.after x.1 0 = 0) := by
  induction l generalizing r with
  | nil => simp [recordsOf]
  | cons x rest ih =>
    obtain ⟨i, de⟩ := x
    rw [recordsOf, List.map_cons, List.cons_eq_cons, ih h.2, List.forall_mem_cons, ← h.1.name_iff]
    refine and_congr ?_ Iff.rfl
    simp only [Dirent.wanted, Record.mk.injEq, true_and]
    exact and_congr eq_comm Iff.rfl

/-- A call makes at most one record for an entry in use; a full buffer loses one. -/
lemma taken_length (i r : Nat) (hr : r ≤ size) :
    (taken size es i r).length + (live (es.drop (reads size es r))).length ≤ (live es).length ∧
      (size < r + ((live es).map Dirent.reclen).sum →
        (taken size es i r).length + (live (es.drop (reads size es r))).length <
        (live es).length) := by
  induction es generalizing i r with
  | nil => exact ⟨le_refl _, fun h => absurd hr (not_le.mpr h)⟩
  | cons de rest ih => ?_
  rw [taken, reads]
  by_cases hfree : de.inum = 0
  · simp only [if_pos hfree, List.drop_succ_cons, live_cons_free hfree]
    exact ih (i + 1) r hr
  simp only [if_neg hfree, live_cons hfree]
  by_cases hfull : size < r + de.reclen
  · simp only [if_pos hfull, List.drop_succ_cons, List.drop_zero, List.length_nil, List.length_cons]
    omega
  simp only [if_neg hfull, List.drop_succ_cons, List.length_cons, List.map_cons, List.sum_cons]
  have := ih (i + 1) (r + de.reclen) (by omega)
  omega

/-- A buffer that is large enough takes all entries. -/
lemma taken_all (i r : Nat) (h : r + ((live es).map Dirent.reclen).sum ≤ size) :
    taken size es i r = indexed es i ∧ reads size es r = es.length := by
  induction es generalizing i r with
  | nil => exact ⟨rfl, rfl⟩
  | cons de rest ih => ?_
  rw [taken, reads]
  by_cases hfree : de.inum = 0
  · rw [live_cons_free hfree] at h
    obtain ⟨htaken, hreads⟩ := ih (i + 1) r h
    rw [if_pos hfree, if_pos hfree, htaken, hreads, indexed_cons_free hfree]
    exact ⟨rfl, rfl⟩
  rw [live_cons hfree, List.map_cons, List.sum_cons] at h
  obtain ⟨htaken, hreads⟩ := ih (i + 1) (r + de.reclen) (by omega)
  rw [if_neg hfree, if_neg (by omega), if_neg hfree, if_neg (by omega), htaken, hreads,
    indexed_cons_live hfree]
  exact ⟨rfl, rfl⟩

lemma indexed_snd (i : Nat) : (indexed es i).map Prod.snd = live es := by
  induction es generalizing i with
  | nil => rfl
  | cons de rest ih =>
    by_cases hfree : de.inum = 0
    · rw [indexed_cons_free hfree, live_cons_free hfree]
      exact ih (i + 1)
    · rw [indexed_cons_live hfree, live_cons hfree, List.map_cons]
      exact congrArg (de :: ·) (ih (i + 1))

/-- The entries in use, with their places. -/
lemma mem_indexed {es : List Dirent} {i : Nat} :
    (i, de) ∈ indexed es 0 ↔ es[i]? = some de ∧ de.inum ≠ 0 := by
  unfold indexed
  rw [List.mem_filterMap]
  constructor
  · rintro ⟨⟨de', j⟩, hmem, hlive⟩
    unfold liveAt at hlive
    split at hlive
    · cases hlive
    · next hne =>
      cases hlive
      exact ⟨List.mem_zipIdx_iff_getElem?.mp hmem, hne⟩
  · rintro ⟨hget, hne⟩
    exact ⟨(de, i), List.mem_zipIdx_iff_getElem?.mpr hget, if_neg hne⟩

/-- What one call puts into the buffer. -/
lemma reply_records (i : Nat) (data : Bytes) :
    RecordsAt d (reply d size i data).out.buf 0 (taken size (d.entries.drop i) i 0) ∧
      (reply d size i data).records =
        recordsOf d (reply d size i data).out.buf 0 (taken size (d.entries.drop i) i 0) := by
  obtain ⟨hret, -, -, -, hrecords⟩ :=
    loop_spec (d := d) (d.entries.drop i) i 0 0 ⟨data, []⟩ (Nat.zero_le size)
  refine ⟨hrecords, ?_⟩
  have hparse := loop_parse hrecords (le_refl _)
  rw [Nat.zero_add] at hret hparse
  rw [← hret] at hparse
  exact hparse

end calls

/-! ## The whole listing -/

section listing

variable {d : Dir} {size : Nat} {data : Nat → Bytes} {fuel k i : Nat} {replies : List Reply}

lemma listing_eq : listing d size data (fuel + 1) k i =
    if (reply d size i (data k)).ret = 0 then some [reply d size i (data k)]
    else (listing d size data fuel (k + 1) (v6Getdents d size i (data k)).2.1).map
      (reply d size i (data k) :: ·) := by
  rw [listing, reply]
  split
  · next hcall => simp [hcall]
  · next hcall => simp [hcall]

/-- A listing is a call and the rest of the listing. -/
lemma listing_succ (h : listing d size data (fuel + 1) k i = some replies) :
    ∃ rest, replies = reply d size i (data k) :: rest ∧
      (rest = [] ∨ listing d size data fuel (k + 1) (v6Getdents d size i (data k)).2.1 =
      some rest) := by
  rw [listing_eq] at h
  split at h
  · cases h
    exact ⟨[], rfl, .inl rfl⟩
  · obtain ⟨rest, hrest, rfl⟩ := Option.map_eq_some_iff.mp h
    exact ⟨rest, rfl, .inr hrest⟩

/-- No call writes beyond the buffer. -/
lemma listing_writes (h : listing d size data fuel k i = some replies) :
    ∀ a ∈ replies, ∀ w ∈ a.out.writes, w.1 + w.2 ≤ size := by
  induction fuel generalizing k i replies with
  | zero => cases h
  | succ fuel ih => ?_
  obtain ⟨rest, rfl, hrest⟩ := listing_succ h
  intro a ha
  rcases List.mem_cons.mp ha with rfl | ha
  · intro w hw
    obtain ⟨-, -, hwrites, -⟩ :=
      loop_spec (d := d) (d.entries.drop i) i 0 0 ⟨data k, []⟩ (Nat.zero_le size)
    rcases hwrites w hw with hw | hw
    · cases hw
    · exact hw
  · rcases hrest with rfl | hrest
    · cases ha
    · exact ih hrest a ha

/-- A call gives some of the entries, and leaves the others for later calls. -/
lemma reply_length (i : Nat) (data : Bytes) :
    (reply d size i data).records.length +
        (live (d.entries.drop (v6Getdents d size i data).2.1)).length ≤
        (live (d.entries.drop i)).length ∧
    (size < ((live (d.entries.drop i)).map Dirent.reclen).sum →
      (reply d size i data).records.length +
        (live (d.entries.drop (v6Getdents d size i data).2.1)).length <
        (live (d.entries.drop i)).length) := by
  obtain ⟨-, hnext, -⟩ := loop_spec (d := d) (d.entries.drop i) i 0 0 ⟨data, []⟩ (Nat.zero_le size)
  have hdrop : d.entries.drop (v6Getdents d size i data).2.1 =
      (d.entries.drop i).drop (reads size (d.entries.drop i) 0) := by
    rw [List.drop_drop]
    exact congrArg d.entries.drop hnext
  have htaken := @taken_length size (d.entries.drop i) i 0 (Nat.zero_le size)
  rw [Nat.zero_add] at htaken
  rwa [(reply_records i data).2, recordsOf_length, hdrop]

/-- A listing has at most the entries in use, and loses one if they do not fit into the first
buffer. -/
lemma listing_length (h : listing d size data fuel k i = some replies) :
    (replies.flatMap Reply.records).length ≤ (live (d.entries.drop i)).length ∧
      (size < ((live (d.entries.drop i)).map Dirent.reclen).sum →
        (replies.flatMap Reply.records).length < (live (d.entries.drop i)).length) := by
  induction fuel generalizing k i replies with
  | zero => cases h
  | succ fuel ih => ?_
  obtain ⟨rest, rfl, hrest⟩ := listing_succ h
  have hfirst := @reply_length d size i (data k)
  have hlater : (rest.flatMap Reply.records).length ≤
      (live (d.entries.drop (v6Getdents d size i (data k)).2.1)).length := by
    rcases hrest with rfl | hrest
    · exact Nat.zero_le _
    · exact (ih hrest).1
  rw [List.flatMap_cons, List.length_append]
  omega

/-- If everything fits, the first call takes it all and the second finds nothing. -/
lemma listing_fits (hfits : (d.live.map Dirent.reclen).sum ≤ size) :
    ∃ replies, listing d size data (d.entries.length + 1) 0 0 = some replies ∧
      replies.flatMap Reply.records =
        recordsOf d (reply d size 0 (data 0)).out.buf 0 (indexed d.entries 0) := by
  have hall := @taken_all size d.entries 0 0 (by rw [Nat.zero_add]; exact hfits)
  obtain ⟨-, hrecords⟩ := @reply_records d size 0 (data 0)
  obtain ⟨-, hnext, -⟩ := loop_spec (d := d) (d.entries.drop 0) 0 0 0 ⟨data 0, []⟩
    (Nat.zero_le size)
  rw [List.drop_zero] at hrecords hnext
  rw [hall.1] at hrecords
  rw [Nat.zero_add, hall.2] at hnext
  rw [listing_eq]
  split
  · exact ⟨_, rfl, by simpa using hrecords⟩
  next hcall =>
  -- a record was made, so there is an entry, and fuel for another call
  obtain ⟨n, hn⟩ : ∃ n, d.entries.length = n + 1 := by
    refine Nat.exists_eq_succ_of_ne_zero fun hnil => hcall ?_
    rw [reply, v6Getdents, List.length_eq_zero_iff.mp hnil]
    rfl
  have hlast : reply d size d.entries.length (data 1) = ⟨0, ⟨data 1, []⟩⟩ := by
    rw [reply, v6Getdents, List.drop_length]
    rfl
  have hstop : (v6Getdents d size 0 (data 0)).2.1 = d.entries.length := hnext
  refine ⟨[reply d size 0 (data 0), ⟨0, ⟨data 1, []⟩⟩], ?_, ?_⟩
  · rw [hstop, hn, listing_eq, ← hn, Nat.zero_add, hlast, if_pos rfl, Option.map_some]
  · rw [List.flatMap_cons, hrecords]
    simp [Reply.records, parse]

/-- **When a listing is complete.** -/
theorem listed_iff (d : Dir) (modes : BitVec 32 → Nat) (size : Nat) (data : Nat → Bytes) :
    Listed d modes size data ↔ (d.live.map Dirent.reclen).sum ≤ size ∧
      ∀ i de, d.entries[i]? = some de → de.inum ≠ 0 →
        iftodt (modes de.inum) = iftodt d.mode ∧ (de.cname.length = dirsiz → d.after i 0 = 0) := by
  have hwanted : d.live.map (Dirent.wanted modes) = (indexed d.entries 0).map fun x =>
      x.2.wanted modes := by
    rw [show d.live = live d.entries from rfl, ← indexed_snd d.entries 0, List.map_map]
    rfl
  by_cases hfits : (d.live.map Dirent.reclen).sum ≤ size
  · obtain ⟨replies, hlisting, hrecords⟩ := @listing_fits d size data hfits
    have hat := (@reply_records d size 0 (data 0)).1
    rw [List.drop_zero, (taken_all d.entries 0 0 (by rw [Nat.zero_add]; exact hfits)).1] at hat
    have hiff := recordsOf_eq_iff modes hat
    rw [← hrecords, ← hwanted] at hiff
    constructor
    · rintro ⟨replies', hlisting', heq, -⟩
      cases hlisting.symm.trans hlisting'
      exact ⟨hfits, fun i de hget hne => hiff.mp heq (i, de) (mem_indexed.mpr ⟨hget, hne⟩)⟩
    rintro ⟨-, hentries⟩
    refine ⟨replies, hlisting, hiff.mpr fun x hx => ?_, listing_writes hlisting⟩
    obtain ⟨hget, hne⟩ := mem_indexed.mp (show (x.1, x.2) ∈ indexed d.entries 0 from hx)
    exact hentries x.1 x.2 hget hne
  · constructor
    · rintro ⟨replies, hlisting, heq, -⟩
      have hlost := (listing_length hlisting).2 (not_le.mp hfits)
      rw [heq, List.length_map] at hlost
      exact absurd hlost (lt_irrefl _)
    · exact fun h => absurd h.1 hfits

end listing

/-- An entry with a short name. -/
def entry (inum : BitVec 32) (type : BitVec 16) (c : BitVec 8) : Dirent where
  inum := inum
  type := type
  name := c :: List.replicate 57 0
  name_length := rfl

/-- A directory with itself as `.` and a file `a`. -/
def oneFile : Dir := ⟨[entry 1 1 0x2e, entry 2 2 0x61], 0o40755, fun _ _ => 0⟩

def oneFileModes (inum : BitVec 32) : Nat := if inum = 1 then 0o40755 else 0o100644

lemma not_listed_of {d : Dir} {modes : BitVec 32 → Nat} {size : Nat} {data : Nat → Bytes}
    {l : List Record}
    (h : (listing d size data (d.entries.length + 1) 0 0).map (·.flatMap Reply.records) = some l)
    (hne : l ≠ d.live.map (Dirent.wanted modes)) : ¬Listed d modes size data := by
  rintro ⟨replies, hlisting, heq, -⟩
  rw [hlisting, Option.map_some, heq] at h
  exact hne (Option.some.inj h).symm

/-- With room for one record at a time the file is not listed; with enough room it is listed as a
directory. -/
theorem listing_incomplete : (∀ de ∈ oneFile.live, de.reclen ≤ 24) ∧
    (listing oneFile 24 (fun _ _ => 0) 3 0 0).map (·.flatMap Reply.records) = some
    [⟨1, 4, some [0x2e]⟩] ∧
    ¬Listed oneFile oneFileModes 24 (fun _ _ => 0) ∧
    (listing oneFile 4096 (fun _ _ => 0) 3 0 0).map (·.flatMap Reply.records) =
      some [⟨1, 4, some [0x2e]⟩, ⟨2, 4, some [0x61]⟩] ∧
    ¬Listed oneFile oneFileModes 4096 (fun _ _ => 0) := by
  refine ⟨by decide, by decide +kernel, ?_, by decide +kernel, ?_⟩
  · exact not_listed_of (l := [⟨1, 4, some [0x2e]⟩]) (by decide +kernel) (by decide)
  · exact not_listed_of (l := [⟨1, 4, some [0x2e]⟩, ⟨2, 4, some [0x61]⟩]) (by decide +kernel)
      (by decide)

end RpiOs.V6.Getdents
