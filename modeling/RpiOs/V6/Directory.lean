import RpiOs.Lib.Run
import RpiOs.V6.Dirent

/-!
# A v6 directory is a finite map

What the four directory operations of `Dirent` do, called by a process that has locked the
directory.

* `directory_map_iff` (main): the four operations are those of a finite map exactly under a
  condition (`Fits`).
-/

namespace RpiOs.V6.Directory

open Lib Kernel Function
open V6.Getdents (Dirent direntSize dirsiz le leNat strncpy Holds)

/-! ## The inode cache -/

/-- The caller holds the directory `dp` locked and nothing else; nothing is mounted, and the inode
cache has a free slot. -/
structure Holding (dp : Vfs.Ino) (s : Vfs.Sys) : Prop where
  dir : (s.icache dp).attrs.type = .dir
  locked : ∀ p, (s.icache p).locked = true ↔ p = dp
  ref_nonneg : ∀ p, 0 ≤ (s.icache p).ref
  mount : ∀ p, (s.icache p).attrs.type ≠ .mount
  room : s.inUse < Vfs.ninode
  vfs : s.getvfsentry Vfs.sdmajor dp.dev = true

/-- What `iget` leaves behind: one more reference, and an inode that is not loaded if it had
none. -/
structure Taken (p : Vfs.Ino) (s t : Vfs.Sys) : Prop where
  card : t.card = s.card
  ref : (t.icache p).ref = (s.icache p).ref + 1
  fresh : (t.icache p).ref = 1 → (t.icache p).valid = false
  locked : ∀ q, (t.icache q).locked = (s.icache q).locked
  other : ∀ q, q ≠ p → (t.icache q).ref = (s.icache q).ref

section cache

variable {dp p : Vfs.Ino} {s t : Vfs.Sys}

/-- One reference more on an inode, and nothing else. -/
lemma Taken.of_update {c : Vfs.Inode} (hcard : t.card = s.card)
    (ht : t.icache = update s.icache p c) (href : c.ref = (s.icache p).ref + 1)
    (hfresh : c.ref = 1 → c.valid = false) (hlocked : c.locked = (s.icache p).locked)
    : Taken p s t := by
  refine ⟨hcard, ?_, ?_, fun q => ?_, fun q hq => ?_⟩ <;> rw [ht]
  · rw [update_self, href]
  · rw [update_self]
    exact hfresh
  · by_cases hq : q = p
    · rw [hq, update_self, hlocked]
    · rw [update_of_ne hq]
  · rw [update_of_ne hq]

/-- `iget` while a directory is locked. -/
lemma Holding.iget (h : Holding dp s) (hdev : p.dev = dp.dev) (type : Vfs.FType) :
    Ends (Vfs.iget p type) s (fun q t => q = p ∧ Taken p s t) := by
  have href := h.ref_nonneg p
  unfold Vfs.iget
  simp only [ends_bind, ends_get]
  by_cases hpos : 0 < (s.icache p).ref
  · rw [if_pos hpos, if_neg (h.mount p)]
    unfold Vfs.idup Vfs.modifyInode
    simp only [ends_bind, ends_modify, ends_pure, true_and]
    exact .of_update rfl rfl rfl (fun h1 => by dsimp only at h1; omega) rfl
  · rw [if_neg hpos, if_neg (Nat.not_le.mpr h.room), hdev, if_pos h.vfs]
    unfold Vfs.modifyInode
    simp only [ends_bind, ends_modify, ends_pure, true_and]
    exact .of_update rfl rfl (by dsimp only; omega) (fun _ => rfl) rfl

/-- `iput` right after `iget` returns if nobody holds the lock, and then nothing has changed. -/
lemma Taken.iput (h : Taken p s t) (hs : 0 ≤ (s.icache p).ref)
    (hfree : (s.icache p).locked = false) :
    Ends (Vfs.iput p) t (fun _ u => u.card = s.card ∧
      ∀ q, (u.icache q).ref = (s.icache q).ref) := by
  have hlocked : ¬ (t.icache p).locked = true := by rw [h.locked, hfree]; simp
  have hkeep : ¬ ((t.icache p).valid = true ∧ (t.icache p).attrs.nlink = 0 ∧
      (t.icache p).ref = 1) := by
    rintro ⟨hv, -, h1⟩
    rw [h.fresh h1] at hv
    cases hv
  unfold Vfs.iput Vfs.acquiresleep Vfs.releasesleep Vfs.dropRef Vfs.inode Vfs.modifyInode Vfs.stopIf
    Vfs.onlyIf
  simp only [ends_bind, ends_get, ends_modify, ends_pure, if_neg hlocked]
  simp only [Vfs.Sys.setInode, update_self]
  rw [if_neg hkeep]
  simp only [ends_pure, update_self]
  refine ⟨h.card, fun q => ?_⟩
  by_cases hq : q = p
  · subst hq
    simp [h.ref]
  · simp [hq, h.other q hq]

lemma Taken.iput_deadlock (h : Taken p s t) (hheld : (s.icache p).locked = true) :
    Ends (Vfs.iput p) t (fun _ _ => False) fun e _ => e = .deadlock := by
  have hlocked : (t.icache p).locked = true := by rw [h.locked, hheld]
  unfold Vfs.iput Vfs.acquiresleep Vfs.inode Vfs.stopIf
  simp only [ends_bind, ends_get, ends_pure, if_pos hlocked, ends_throw]

end cache

/-! ## The operations return -/

/-- The bytes of a directory: whole slots, no name twice, `.` and `..` first. -/
structure IsDir (L : List (BitVec 8)) : Prop where
  size : L.length % direntSize = 0
  lt : L.length < 2 ^ 32
  unique : Vfs.Unique (entries L)
  dot : ∃ e, (entries L)[0]? = some e ∧ e.inum ≠ 0 ∧ e.name = Vfs.dot
  dotdot : ∃ e, (entries L)[1]? = some e ∧ e.inum ≠ 0 ∧ e.name = Vfs.dotdot

/-- The entry of a name and its slot. -/
def find (L : List (BitVec 8)) (name : List (BitVec 8)) : Option (Vfs.Dirent × Nat) :=
  Vfs.findEntry (entries L) (chars name)

@[simp] lemma ends_onSys {α : Type} {x : Vfs.V α} {st : State} {Q : α → State → Prop}
    {R : Vfs.Stop → State → Prop} : Ends (onSys x) st Q R ↔
      Ends x st.sys (fun a s => Q a { st with sys := s }) fun e s => R e { st with sys := s } := by
  unfold Ends onSys
  cases x st.sys <;> rfl

section operations

variable {dp : Vfs.Ino} {st : State} {L name : List (BitVec 8)} {n k : Nat} {data : List (BitVec 8)}

lemma IsDir.length_eq (h : IsDir L) : L.length = direntSize * (L.length / direntSize) := by
  have := h.size
  unfold direntSize at *
  omega

lemma toVfs_inum_ne_zero (de : Dirent) : (toVfs de).inum ≠ 0 ↔ de.inum ≠ 0 := by
  rw [toVfs, ne_eq, ne_eq, not_iff_not]
  exact BitVec.toNat_inj (y := 0)

lemma matches_iff (L name : List (BitVec 8)) (k : Nat) :
    Matches L name k ↔ (toVfs (slot L k)).inum ≠ 0 ∧ (toVfs (slot L k)).name = chars name := by
  rw [toVfs_inum_ne_zero]
  exact and_congr_right' chars_injective.eq_iff.symm

/-- The loop of `dirlookup` finds what `find` says. -/
lemma IsDir.lookupLoop (h : IsDir L) (hname : IsName name) : ∃ free,
    lookupLoop L (bytesOf name) (L.length + 1) 0 (-1) =
      .ok ((find L name).elim (none, free) fun x => (some (slot L x.2), (direntSize * x.2 : Nat))) ∧
    ∀ x, find L name = some x → x.1 = toVfs (slot L x.2) ∧ x.2 < L.length / direntSize := by
  have hfuel : L.length / direntSize - 0 < L.length + 1 :=
    Nat.lt_succ_of_le (Nat.div_le_self _ _)
  have hentry : ∀ x, find L name = some x → x.1 = toVfs (slot L x.2) ∧
      x.2 < L.length / direntSize := by
    rintro ⟨e, j⟩ hx
    obtain ⟨hj, he⟩ := entries_getElem?_eq_some.mp ((Vfs.findEntry_iff h.unique).mp hx).1
    exact ⟨he.symm, hj⟩
  rcases lookupLoop_spec h.length_eq h.lt hname (Nat.zero_le _) hfuel (-1) with
    ⟨j, -, hj, hmatch, hrun⟩ | ⟨free, hnone, hrun⟩
  · have hfind : find L name = some (toVfs (slot L j), j) := (Vfs.findEntry_iff h.unique).mpr
      ⟨entries_getElem?_eq_some.mpr ⟨hj, rfl⟩, (matches_iff L name j).mp hmatch⟩
    exact ⟨0, by rw [hfind]; exact hrun, hentry⟩
  have hfind : find L name = none := by
    refine Vfs.findEntry_eq_none.mpr fun e he hmatch => ?_
    obtain ⟨j, hget⟩ := List.getElem?_of_mem he
    obtain ⟨hj, rfl⟩ := entries_getElem?_eq_some.mp hget
    exact hnone j (Nat.zero_le j) hj ((matches_iff L name j).mpr hmatch)
  exact ⟨free, by rw [hfind]; exact hrun, hentry⟩

/-- `v6_dirlookup` returns the inode of the entry, with a reference, and its offset. -/
lemma dirlookup_ends (hdir : IsDir st.content) (hs : Holding dp st.sys) (hname : IsName name) :
    Ends (dirlookup dp (bytesOf name)) st (fun r st' =>
      st'.content = st.content ∧ st'.space = st.space ∧
      r.1 = (find st.content name).map (fun x => ⟨dp.dev, x.1.inum⟩) ∧
      (∀ x, find st.content name = some x → r.2 = some ((direntSize * x.2 : Nat) : Int) ∧
        Taken ⟨dp.dev, x.1.inum⟩ st.sys st'.sys) ∧
      (find st.content name = none → st' = st)) := by
  obtain ⟨free, hloop, hentry⟩ := hdir.lookupLoop hname
  unfold dirlookup
  simp only [ends_bind, ends_get]
  rw [if_neg (hs.mount dp), if_neg (not_not.mpr hs.dir), hloop]
  rcases hfind : find st.content name with - | x
  · simp [liftExcept]
  obtain ⟨e, j⟩ := x
  have he : e = toVfs (slot st.content j) := (hentry _ hfind).1
  subst he
  simp only [liftExcept, Option.elim_some, ends_bind, ends_pure, ends_onSys]
  refine (hs.iget (p := ⟨dp.dev, (slot st.content j).inum.toNat⟩) rfl _).imp ?_
  rintro q t ⟨rfl, htaken⟩
  refine ⟨trivial, trivial, rfl, ?_, ?_⟩
  · rintro x hx
    obtain rfl := Option.some.inj hx
    exact ⟨rfl, htaken⟩
  · intro hx
    cases hx

/-- A write over a slot. -/
lemma writei_slot (hdir : IsDir st.content) (hdata : data.length = direntSize)
    (hk : k < st.content.length / direntSize) :
    Ends (writei dp data (direntSize * k)) st (fun r st' => r = direntSize ∧
      st' = { st with content := overwrite st.content (direntSize * k) data }) := by
  have hlt := hdir.lt
  have hmax := lt_maxfile
  have hle := slot_le hdir.length_eq hk
  unfold writei
  simp only [ends_bind, ends_get, hdata]
  rw [if_neg (by unfold direntSize at *; omega), if_neg (by omega), if_neg (by omega)]
  simp only [ends_bind, ends_set, ends_pure]
  exact ⟨trivial, trivial⟩

/-- A write of a new slot; the size has 32 bits. -/
lemma writei_end (hdir : IsDir st.content) (hspace : st.space = true)
    (hdata : data.length = direntSize) :
    Ends (writei dp data st.content.length) st (fun r st' => r = direntSize ∧ st'.content =
      (overwrite st.content st.content.length data).take
      ((st.content.length + direntSize) % 2 ^ 32)) := by
  have hlt := hdir.lt
  have hsize := hdir.size
  have hmax := lt_maxfile
  have hle : st.content.length + direntSize ≤ 2 ^ 32 := by
    unfold direntSize at *
    omega
  unfold writei
  simp only [ends_bind, ends_get, hdata]
  rw [if_neg (by unfold direntSize at *; omega), if_neg (by omega),
    if_pos (by unfold direntSize; omega), if_pos hspace]
  unfold Vfs.iupdate Vfs.inode
  simp only [ends_bind, ends_set, ends_pure, ends_onSys, ends_get, ends_modify]
  exact ⟨trivial, trivial⟩

/-- The loop of `dirlink` finds the first free slot, or the end. -/
lemma IsDir.freeLoop (h : IsDir L) :
    freeLoop L (L.length + 1) 0 = .ok (direntSize * Vfs.freeEntry (entries L)) := by
  have hfuel : L.length / direntSize - 0 < L.length + 1 := Nat.lt_succ_of_le (Nat.div_le_self _ _)
  obtain ⟨j, hj, hrun, hbefore, hfree⟩ := freeLoop_spec h.length_eq h.lt (Nat.zero_le _) hfuel
  have heq : Vfs.freeEntry (entries L) = j := by
    have hzero : ∀ i, i < L.length / direntSize →
        ((toVfs (slot L i)).inum = 0 ↔ (slot L i).inum = 0) :=
      fun i _ => not_iff_not.mp (toVfs_inum_ne_zero (slot L i))
    unfold Vfs.freeEntry
    rcases Nat.lt_or_ge j (L.length / direntSize) with hlt | hge
    · have hidx : (entries L).findIdx? (fun e => e.inum = 0) = some j := by
        rw [List.findIdx?_eq_some_iff_getElem]
        refine ⟨by rw [entries_length]; exact hlt, ?_, fun i hi => ?_⟩
        · simpa [entries] using (hzero j hlt).mpr (hfree hlt)
        · simpa [entries] using fun h0 => hbefore i (Nat.zero_le i) hi ((hzero i (by omega)).mp h0)
      rw [hidx, Option.getD_some]
    have hidx : (entries L).findIdx? (fun e => e.inum = 0) = none := by
      rw [List.findIdx?_eq_none_iff]
      intro e he
      obtain ⟨i, hi, rfl⟩ := List.mem_map.mp he
      have hi := List.mem_range.mp hi
      simpa using fun h0 => hbefore i (Nat.zero_le i) (by omega) ((hzero i hi).mp h0)
    rw [hidx, Option.getD_none, entries_length]
    omega
  rw [heq]
  exact hrun

/-- A directory with a new entry is one still. -/
lemma IsDir.put (h : IsDir L) {e : Vfs.Dirent} {L' : List (BitVec 8)}
    (hL' : entries L' = Vfs.putEntry (entries L) k e) (hk : k ≤ (entries L).length)
    (hlength : L'.length % direntSize = 0 ∧ L'.length < 2 ^ 32) (hfresh : Vfs.Fresh (entries L) k e)
    (h0 : k ≠ 0) (h1 : k ≠ 1) : IsDir L' := by
  refine ⟨hlength.1, hlength.2, ?_, ?_, ?_⟩
  · rw [hL']
    exact h.unique.put hk hfresh
  · rw [hL', Vfs.putEntry_getElem? hk, if_neg h0.symm]
    exact h.dot
  · rw [hL', Vfs.putEntry_getElem? hk, if_neg h1.symm]
    exact h.dotdot

lemma freeEntry_ne {es : List Vfs.Dirent} {x : Vfs.Name} (h :
    ∃ e, es[k]? = some e ∧ e.inum ≠ 0 ∧ e.name = x) :
    Vfs.freeEntry es ≠ k := by
  rintro rfl
  obtain ⟨e, hget, hinum, -⟩ := h
  exact hinum (Vfs.freeEntry_free hget)

end operations

/-! ## The map -/

/-- The inode number of a name. -/
def inumOf (L : List (BitVec 8)) (name : Vfs.Name) : Option Nat :=
  (Vfs.findEntry (entries L) name).map fun x => x.1.inum

/-- The operations are those of a finite map from names to inode numbers: for one name, and one
inode that is to be linked. -/
structure MapOps (dp : Vfs.Ino) (st : State) (name : List (BitVec 8)) (inum : BitVec 32)
    (type : BitVec 16) :
    Prop where
  lookup : Ends (dirlookup dp (bytesOf name)) st (fun r st' => st'.content = st.content ∧
    r.1 = (inumOf st.content (chars name)).map (fun i => ⟨dp.dev, i⟩) ∧
    ∀ x, find st.content name = some x → r.2 = some ((direntSize * x.2 : Nat) : Int))
  /-- An absent name is added, in the first free slot or in a new one. -/
  add : find st.content name = none → Ends (dirlink dp (bytesOf name) inum type) st (fun r st' =>
    r = 0 ∧ IsDir st'.content ∧
    entries st'.content = Vfs.putEntry (entries st.content) (Vfs.freeEntry (entries st.content))
      ⟨inum.toNat, ftype type, chars name⟩ ∧
    ∀ other, inumOf st'.content other =
      if other = chars name then some inum.toNat else inumOf st.content other)
  /-- A present name is refused. -/
  refuse : find st.content name ≠ none → Ends (dirlink dp (bytesOf name) inum type) st (fun r st' =>
    r = -eexist ∧ st'.content = st.content ∧ st'.sys.card = st.sys.card ∧
    ∀ p, (st'.sys.icache p).ref = (st.sys.icache p).ref)
  /-- The entry at the offset found is removed. -/
  remove : ∀ e k, find st.content name = some (e, k) →
    Ends (unlink dp (direntSize * k)) st (fun r st' =>
    r = 0 ∧ Vfs.Unique (entries st'.content) ∧ st'.content.length = st.content.length ∧
    (chars name ≠ Vfs.dot → chars name ≠ Vfs.dotdot → IsDir st'.content) ∧
    ∀ other, inumOf st'.content other = if other = chars name then none else inumOf
      st.content other)
  empty : Ends isdirempty st (fun r st' => st' = st ∧ (r = 0 ∨ r = 1) ∧
    (r = 1 ↔ ∀ e ∈ entries st.content, e.inum ≠ 0 → e.name = Vfs.dot ∨ e.name = Vfs.dotdot))

/-- The condition: a present name does not lead to the directory that the caller has locked, there
is a free slot or room below 4 GiB for an absent one, and a slot in use or the end comes before the
offset 2^31. -/
structure Fits (dp : Vfs.Ino) (L : List (BitVec 8)) (name : List (BitVec 8)) : Prop where
  present : ∀ i, inumOf L (chars name) = some i → (⟨dp.dev, i⟩ : Vfs.Ino) ≠ dp
  absent : inumOf L (chars name) = none →
    Vfs.freeEntry (entries L) < (entries L).length ∨ L.length + direntSize < 2 ^ 32
  int : L.length ≤ 2 ^ 31 ∨
    ∃ k e, 2 ≤ k ∧ k < intEntries ∧ (entries L)[k]? = some e ∧ e.inum ≠ 0

section map

variable {dp : Vfs.Ino} {st : State} {name : List (BitVec 8)} {L : List (BitVec 8)} {k : Nat}
  {e : Vfs.Dirent} {inum : BitVec 32}

lemma inumOf_eq_none : inumOf L (chars name) = none ↔ find L name = none := Option.map_eq_none_iff

/-- The entry that `generic_dirlink` writes. -/
def newDirent (name : List (BitVec 8)) (inum : BitVec 32) (type : BitVec 16) : Dirent :=
  ⟨inum, type, strncpy (bytesOf name) dirsiz, strncpy_length _ _⟩

lemma toVfs_newDirent (hname : IsName name) (inum : BitVec 32) (type : BitVec 16) :
    toVfs (newDirent name inum type) = ⟨inum.toNat, ftype type, chars name⟩ := by
  unfold toVfs Getdents.Dirent.cname newDirent
  rw [strncpy_takeWhile hname]

/-- What the names lead to after an entry was put. -/
lemma inumOf_put {L' : List (BitVec 8)} (hu : Vfs.Unique (entries L))
    (hL' : entries L' = Vfs.putEntry (entries L) k e) (hk : k ≤ (entries L).length)
    (hfresh : Vfs.Fresh (entries L) k e) (hnew : e.inum ≠ 0 → e.name = chars name)
    (hold : ∀ e', (entries L)[k]? = some e' → e'.inum ≠ 0 → e'.name = chars name)
    {other : Vfs.Name} (hne : other ≠ chars name) : inumOf L' other = inumOf L other := by
  unfold inumOf
  rw [hL', Vfs.findEntry_put hu hk hfresh, if_neg, if_neg]
  · intro hany
    obtain ⟨e', hget, hinum, hname⟩ := by simpa [Option.any_eq_true] using hany
    exact hne (hname.symm.trans (hold e' hget hinum))
  · rintro ⟨hinum, hname⟩
    exact hne (hname.symm.trans (hnew hinum))

lemma IsDir.freeEntry_end (h : IsDir L) (hno : ¬ Vfs.freeEntry (entries L) < (entries L).length) :
    direntSize * Vfs.freeEntry (entries L) = L.length := by
  rw [(Vfs.freeEntry_le _).antisymm (not_lt.mp hno), entries_length, ← h.length_eq]

/-- The bytes after an absent name has been linked. -/
def linked (L : List (BitVec 8)) (de : Dirent) : List (BitVec 8) :=
  if Vfs.freeEntry (entries L) < (entries L).length then
    overwrite L (direntSize * Vfs.freeEntry (entries L)) (bytesOfDirent de)
  else (overwrite L L.length (bytesOfDirent de)).take ((L.length + direntSize) % 2 ^ 32)

/-- `dirlink` of a name that is not there. -/
lemma dirlink_absent (hdir : IsDir st.content) (hs : Holding dp st.sys) (hspace : st.space = true)
    (hname : IsName name) (hnone : find st.content name = none) (inum : BitVec 32)
    (type : BitVec 16) :
    Ends (dirlink dp (bytesOf name) inum type) st (fun r st' => r = 0 ∧ st'.content =
      linked st.content (newDirent name inum type)) := by
  unfold dirlink
  refine (dirlookup_ends hdir hs hname).step ?_
  rintro ⟨ip, off⟩ st1 ⟨-, -, hip, -, hst⟩
  obtain rfl := (hst hnone).symm
  rw [hnone, Option.map_none] at hip
  dsimp only at hip
  subst hip
  simp only [ends_bind, ends_get, hdir.freeLoop, liftExcept, ends_pure]
  have hlen := bytesOfDirent_length (newDirent name inum type)
  unfold linked
  by_cases hfree : Vfs.freeEntry (entries st.content) < (entries st.content).length
  · rw [if_pos hfree]
    rw [entries_length] at hfree
    refine (writei_slot hdir hlen hfree).imp ?_
    rintro r st' ⟨rfl, rfl⟩
    rw [if_neg (by simp)]
    exact ⟨rfl, rfl⟩
  rw [if_neg hfree]
  rw [hdir.freeEntry_end hfree]
  refine (writei_end hdir hspace hlen).imp ?_
  rintro r st' ⟨rfl, hcontent⟩
  rw [if_neg (by simp)]
  exact ⟨rfl, hcontent⟩

section

variable (hdir : IsDir L) (de : Dirent)
  (hroom : Vfs.freeEntry (entries L) < (entries L).length ∨ L.length + direntSize < 2 ^ 32)
include hdir

lemma IsDir.freeEntry_off : direntSize * Vfs.freeEntry (entries L) ≤ L.length := by
  have hle := Vfs.freeEntry_le (entries L)
  rw [entries_length] at hle
  rw [hdir.length_eq]
  exact Nat.mul_le_mul_left _ hle

include hroom

/-- If there is room, the entry is written where the free slot is. -/
lemma linked_eq :
    linked L de = overwrite L (direntSize * Vfs.freeEntry (entries L)) (bytesOfDirent de) := by
  unfold linked
  split
  · rfl
  · next hfree =>
    rw [Nat.mod_eq_of_lt (hroom.resolve_left hfree), hdir.freeEntry_end hfree]
    refine List.take_of_length_le ?_
    rw [length_overwrite (le_refl _), bytesOfDirent_length]
    omega

/-- The entries after an absent name has been linked, if there is room. -/
lemma entries_linked :
    entries (linked L de) = Vfs.putEntry (entries L) (Vfs.freeEntry (entries L)) (toVfs de) ∧
      (linked L de).length % direntSize = 0 ∧ (linked L de).length < 2 ^ 32 := by
  have hle := Vfs.freeEntry_le (entries L)
  have hsize := hdir.size
  have hlt := hdir.lt
  rw [linked_eq hdir de hroom]
  rw [entries_length] at hle hroom
  refine ⟨entries_overwrite hdir.length_eq hle de, ?_⟩
  rw [length_overwrite hdir.freeEntry_off, bytesOfDirent_length]
  unfold direntSize at *
  omega

end

/-- A linked name is mapped to its inode number, and no other name is touched. -/
lemma linked_map (hdir : IsDir L) (hname : IsName name) (hnone : find L name = none)
    (hinum : inum ≠ 0) (type : BitVec 16)
    (hroom : Vfs.freeEntry (entries L) < (entries L).length ∨ L.length + direntSize < 2 ^ 32) :
    IsDir (linked L (newDirent name inum type)) ∧
      ∀ other, inumOf (linked L (newDirent name inum type)) other =
      if other = chars name then some inum.toNat else inumOf L other := by
  have hle := Vfs.freeEntry_le (entries L)
  obtain ⟨hentries, hsize⟩ := entries_linked hdir (newDirent name inum type) hroom
  rw [toVfs_newDirent hname] at hentries
  have hfresh := Vfs.fresh_of_none hnone (Vfs.freeEntry (entries L)) inum.toNat (ftype type)
  have hnz : inum.toNat ≠ 0 := fun h => hinum (BitVec.eq_of_toNat_eq h)
  refine ⟨hdir.put hentries hle hsize hfresh (freeEntry_ne hdir.dot) (freeEntry_ne hdir.dotdot),
    fun other => ?_⟩
  split_ifs with hother
  · rw [hother, inumOf, hentries, Vfs.findEntry_put hdir.unique hle hfresh, if_pos ⟨hnz, rfl⟩]
    rfl
  · exact inumOf_put hdir.unique hentries hle hfresh (fun _ => rfl)
      (fun e' hget hne => absurd (Vfs.freeEntry_free hget) hne) hother

/-- It adds the name exactly if a slot is free or the size does not wrap around. -/
lemma add_iff (hdir : IsDir st.content) (hs : Holding dp st.sys) (hspace : st.space = true)
    (hname : IsName name) (hnone : find st.content name = none) (hinum : inum ≠ 0)
    (type : BitVec 16) : Ends (dirlink dp (bytesOf name) inum type) st (fun r st' =>
      r = 0 ∧ IsDir st'.content ∧
      entries st'.content = Vfs.putEntry (entries st.content) (Vfs.freeEntry (entries st.content))
        ⟨inum.toNat, ftype type, chars name⟩ ∧
      ∀ other, inumOf st'.content other =
        if other = chars name then some inum.toNat else inumOf st.content other) ↔
    (Vfs.freeEntry (entries st.content) < (entries st.content).length ∨
      st.content.length + direntSize < 2 ^ 32) := by
  have hrun := dirlink_absent hdir hs hspace hname hnone inum type
  constructor
  · intro h
    by_contra hno
    rw [not_or] at hno
    -- the size field has become 0, and with it every name is gone
    obtain ⟨r, st', hok, -, hcontent⟩ := hrun.returns
    obtain ⟨-, -, -, hmap⟩ := (ends_of_ok hok).mp h
    have hwrap : (st.content.length + direntSize) % 2 ^ 32 = 0 := by
      have := hdir.lt
      have := hdir.size
      unfold direntSize at *
      omega
    rw [linked, if_neg hno.1, hwrap, List.take_zero] at hcontent
    have := hmap (chars name)
    rw [if_pos rfl, hcontent] at this
    cases this
  · intro hroom
    refine hrun.imp ?_
    rintro r st' ⟨hr, hcontent⟩
    obtain ⟨hnew, hmap⟩ := linked_map hdir hname hnone hinum type hroom
    have hentries := (entries_linked hdir (newDirent name inum type) hroom).1
    rw [toVfs_newDirent hname, ← hcontent] at hentries
    rw [← hcontent] at hnew hmap
    exact ⟨hr, hnew, hentries, hmap⟩

/-- A name that is there is refused, with nothing changed, exactly if it does not lead to the
directory itself. -/
lemma refuse_iff (hdir : IsDir st.content) (hs : Holding dp st.sys) (hname : IsName name)
    {x : Vfs.Dirent × Nat} (hsome : find st.content name = some x) (inum : BitVec 32)
    (type : BitVec 16) :
    Ends (dirlink dp (bytesOf name) inum type) st (fun r st' =>
      r = -eexist ∧ st'.content = st.content ∧ st'.sys.card = st.sys.card ∧
      ∀ p, (st'.sys.icache p).ref = (st.sys.icache p).ref) ↔
    (⟨dp.dev, x.1.inum⟩ : Vfs.Ino) ≠ dp := by
  obtain ⟨⟨ip, off⟩, st1, hlookup, hcontent, -, hip, hfound, -⟩ :=
    (dirlookup_ends hdir hs hname).returns
  have htaken := (hfound x hsome).2
  rw [hsome, Option.map_some] at hip
  dsimp only at hip
  subst hip
  unfold dirlink
  rw [ends_bind, ends_of_ok hlookup]
  simp only [ends_bind, ends_onSys, ends_pure]
  constructor
  · intro h heq
    have hlocked := (hs.locked ⟨dp.dev, x.1.inum⟩).mpr heq
    have := (h.and (htaken.iput_deadlock hlocked)).mono (fun _ _ q => q.2) fun _ _ he => he.1
    obtain ⟨-, -, -, hfalse⟩ := this.returns
    exact hfalse
  intro hne
  have hfree : (st.sys.icache ⟨dp.dev, x.1.inum⟩).locked = false := by
    rw [Bool.eq_false_iff]
    exact fun h => hne ((hs.locked _).mp h)
  refine (htaken.iput (hs.ref_nonneg _) hfree).imp ?_
  rintro _ u ⟨hcard, href⟩
  exact ⟨trivial, hcontent, hcard, href⟩

/-- The entry of 64 zero bytes. Source: `v6_unlink`. -/
def zeroDirent : Dirent := ⟨0, 0, List.replicate dirsiz 0, List.length_replicate⟩

lemma bytesOf_zeroDirent : bytesOfDirent zeroDirent = List.replicate direntSize
    0 := by decide +kernel

/-- The bytes with a slot cleared. -/
def cleared (L : List (BitVec 8)) (k : Nat) : List (BitVec 8) :=
  overwrite L (direntSize * k) (bytesOfDirent zeroDirent)

/-- What the names lead to after a slot was cleared. -/
lemma cleared_map (hdir : IsDir L) (hfind : find L name = some (e, k)) :
    Vfs.Unique (entries (cleared L k)) ∧ (cleared L k).length = L.length ∧
      (chars name ≠ Vfs.dot → chars name ≠ Vfs.dotdot → IsDir (cleared L k)) ∧
      ∀ other, inumOf (cleared L k) other = if other = chars name then none else inumOf L
        other := by
  obtain ⟨hget, hinum, hname⟩ := (Vfs.findEntry_iff hdir.unique).mp hfind
  have hk := (entries_getElem?_eq_some.mp hget).1
  have hin := slot_le hdir.length_eq hk
  have hentries : entries (cleared L k) = Vfs.putEntry (entries L) k (toVfs zeroDirent) :=
    entries_overwrite hdir.length_eq hk.le zeroDirent
  have hlength : (cleared L k).length = L.length := by
    rw [cleared, length_overwrite (by omega), bytesOfDirent_length, Nat.max_eq_left hin]
  have hle : k ≤ (entries L).length := by rw [entries_length]; exact hk.le
  have hfresh : Vfs.Fresh (entries L) k (toVfs zeroDirent) := fun h => absurd rfl h
  -- the slot belongs to this name and to no other
  have hslot : ∀ {x : Vfs.Name}, (∃ e', (entries L)[k]? = some e' ∧ e'.inum ≠ 0 ∧ e'.name = x) →
      chars name = x := by
    rintro x ⟨e', hget', -, hname'⟩
    rw [hget] at hget'
    obtain rfl := Option.some.inj hget'
    exact hname.symm.trans hname'
  refine ⟨?_, hlength, fun hdot hdotdot => ?_, fun other => ?_⟩
  · rw [hentries]
    exact hdir.unique.put hle hfresh
  · refine hdir.put hentries hle (by rw [hlength]; exact ⟨hdir.size, hdir.lt⟩) hfresh ?_ ?_
    · rintro rfl
      exact hdot (hslot hdir.dot)
    · rintro rfl
      exact hdotdot (hslot hdir.dotdot)
  split_ifs with hother
  · rw [inumOf, Option.map_eq_none_iff, Vfs.findEntry_eq_none]
    intro e' he' hmatch
    rw [hentries] at he'
    obtain ⟨i, hi⟩ := List.getElem?_of_mem he'
    rw [Vfs.putEntry_getElem? hle] at hi
    split at hi
    · rw [← Option.some.inj hi] at hmatch
      exact hmatch.1 rfl
    · next hik =>
      exact hik (hdir.unique i k e' e hi hget hmatch.1 hinum
        (hmatch.2.trans (hother.trans hname.symm)))
  · refine inumOf_put hdir.unique hentries hle hfresh (fun h => absurd rfl h) ?_ hother
    intro e' hget' hne
    exact (hslot ⟨e', hget', hne, rfl⟩).symm

/-- `v6_unlink` clears the slot. -/
lemma unlink_ends (hdir : IsDir st.content)
    (hfind : find st.content name = some (e, k)) : Ends (unlink dp (direntSize * k)) st
      (fun r st' => r = 0 ∧ st'.content = cleared st.content k) := by
  obtain ⟨hk, -⟩ := entries_getElem?_eq_some.mp ((Vfs.findEntry_iff hdir.unique).mp hfind).1
  have hmod : direntSize * k % 2 ^ 32 = direntSize * k :=
    Nat.mod_eq_of_lt ((slot_lt hdir.length_eq hk).trans hdir.lt)
  unfold unlink
  rw [hmod, ends_bind]
  refine (writei_slot hdir (List.length_replicate) hk).imp ?_
  rintro r st' ⟨rfl, rfl⟩
  rw [if_neg (by simp), ends_pure, ← bytesOf_zeroDirent]
  exact ⟨rfl, rfl⟩

/-- No other names means no entry from the third slot on. -/
lemma IsDir.others_iff (h : IsDir L) :
    (∀ e ∈ entries L, e.inum ≠ 0 → e.name = Vfs.dot ∨ e.name = Vfs.dotdot) ↔
      ∀ j, 2 ≤ j → j < L.length / direntSize → (slot L j).inum = 0 := by
  have hslot : ∀ j, j < L.length / direntSize → (entries L)[j]? = some (toVfs (slot L j)) :=
    fun j hj => entries_getElem?_eq_some.mpr ⟨hj, rfl⟩
  obtain ⟨d, hd, hdnz, hdname⟩ := h.dot
  obtain ⟨dd, hdd, hddnz, hddname⟩ := h.dotdot
  constructor
  · intro hall j hj hlt
    by_contra hne
    have hlive := (toVfs_inum_ne_zero (slot L j)).mpr hne
    rcases hall _ (List.mem_of_getElem? (hslot j hlt)) hlive with hname | hname
    · have := h.unique j 0 _ d (hslot j hlt) hd hlive hdnz (hname.trans hdname.symm)
      omega
    · have := h.unique j 1 _ dd (hslot j hlt) hdd hlive hddnz (hname.trans hddname.symm)
      omega
  · intro hall e he hinum
    obtain ⟨j, hj⟩ := List.getElem?_of_mem he
    match j with
    | 0 =>
      rw [hd] at hj
      rw [← Option.some.inj hj]
      exact .inl hdname
    | 1 =>
      rw [hdd] at hj
      rw [← Option.some.inj hj]
      exact .inr hddname
    | j + 2 =>
      obtain ⟨hlt, rfl⟩ := entries_getElem?_eq_some.mp hj
      exact absurd (hall (j + 2) (by omega) hlt) ((toVfs_inum_ne_zero _).mp hinum)

/-- `v6_isdirempty` is right exactly if its `int` offset reaches the slots that matter. -/
lemma empty_iff (hdir : IsDir st.content) :
    Ends isdirempty st (fun r st' => st' = st ∧ (r = 0 ∨ r = 1) ∧
      (r = 1 ↔ ∀ e ∈ entries st.content, e.inum ≠ 0 → e.name = Vfs.dot ∨ e.name = Vfs.dotdot)) ↔
    (st.content.length ≤ 2 ^ 31 ∨
      ∃ k e, 2 ≤ k ∧ k < intEntries ∧ (entries st.content)[k]? = some e ∧ e.inum ≠ 0) := by
  have hfuel : st.content.length / direntSize - 2 < st.content.length + 1 := by
    have := Nat.div_le_self st.content.length direntSize
    omega
  have hsmall : st.content.length / direntSize ≤ intEntries ↔ st.content.length ≤ 2 ^ 31 := by
    have := hdir.size
    unfold intEntries direntSize at *
    omega
  rw [hdir.others_iff]
  unfold isdirempty
  rw [ends_bind, ends_get]
  have hstart : direntSize * 2 = 2 * direntSize := Nat.mul_comm _ _
  have hspec := emptyLoop_spec hdir.length_eq hdir.lt (Nat.le_max_right _ 2) (by decide) hfuel
  rw [hstart] at hspec
  rcases hspec with ⟨j, hj, hjn, hji, hne, hrun⟩ | ⟨hall, hrun⟩
  · rw [hrun]
    refine iff_of_true ⟨rfl, .inl rfl, ?_⟩
      (.inr ⟨j, _, hj, hji, ?_, (toVfs_inum_ne_zero _).mpr hne⟩)
    · exact iff_of_false (by decide) fun h => hne (h j hj hjn)
    · exact entries_getElem?_eq_some.mpr ⟨hjn, rfl⟩
  rw [hrun]
  by_cases hint : st.content.length / direntSize ≤ intEntries
  · rw [if_pos hint]
    refine iff_of_true ⟨rfl, .inr rfl, ?_⟩ (.inl (hsmall.mp hint))
    exact iff_of_true rfl fun j hj hjn => hall j hj hjn (by omega)
  rw [if_neg hint]
  refine iff_of_false (fun h => h) ?_
  rintro (h | ⟨j, e, hj, hji, hget, hinum⟩)
  · exact hint (hsmall.mpr h)
  obtain ⟨hjn, rfl⟩ := entries_getElem?_eq_some.mp hget
  exact (toVfs_inum_ne_zero _).mp hinum (hall j hj hjn hji)

/-- **A v6 directory is a finite map exactly under this condition**: for every directory that the
caller has locked, every name of one to `DIRSIZ` bytes and every inode number to be linked.
-/
theorem directory_map_iff (dp : Vfs.Ino) (st : State) (name : List (BitVec 8)) (inum : BitVec 32)
    (type : BitVec 16) (hdir : IsDir st.content) (hs : Holding dp st.sys) (hspace : st.space = true)
    (hname : IsName name) (hinum : inum ≠ 0) :
    MapOps dp st name inum type ↔ Fits dp st.content name := by
  constructor
  · intro h
    refine ⟨fun i hi => ?_, fun hnone => ?_, (empty_iff hdir).mp h.empty⟩
    · obtain ⟨x, hx, rfl⟩ := Option.map_eq_some_iff.mp hi
      have hsome : find st.content name = some x := hx
      exact (refuse_iff hdir hs hname hsome inum type).mp
        (h.refuse (by rw [hsome]; exact Option.some_ne_none x))
    · have hnone := inumOf_eq_none.mp hnone
      exact (add_iff hdir hs hspace hname hnone hinum type).mp (h.add hnone)
  · intro h
    refine ⟨?_, fun hnone => ?_, fun hne => ?_, fun e k hfind => ?_, (empty_iff hdir).mpr h.int⟩
    · refine (dirlookup_ends hdir hs hname).imp ?_
      rintro r st' ⟨hcontent, -, hr, hfound, -⟩
      refine ⟨hcontent, ?_, fun x hx => (hfound x hx).1⟩
      rw [hr, inumOf, Option.map_map]
      rfl
    · exact (add_iff hdir hs hspace hname hnone hinum type).mpr
        (h.absent (inumOf_eq_none.mpr hnone))
    · obtain ⟨x, hx⟩ := Option.ne_none_iff_exists'.mp hne
      refine (refuse_iff hdir hs hname hx inum type).mpr (h.present x.1.inum ?_)
      rw [inumOf]
      exact Option.map_eq_some_iff.mpr ⟨x, hx, rfl⟩
    refine (unlink_ends hdir hfind).imp ?_
    rintro r st' ⟨hr, hcontent⟩
    rw [hcontent]
    exact ⟨hr, cleared_map hdir hfind⟩

end map

/-! ### The root directory of a small card -/

/-- `.`, `..` and a file `a`. -/
def rootBytes : List (BitVec 8) :=
  bytesOfDirent (newDirent [0x2e] 1 1) ++ bytesOfDirent (newDirent [0x2e, 0x2e] 1 1) ++
    bytesOfDirent (newDirent [0x61] 2 2)

/-- The root is in use and locked, nothing else is. -/
def lockedRoot : Vfs.Sys where
  card _ := ⟨.zero .free, [], []⟩
  ninodes _ := 8
  icache p := if p = ⟨1, 1⟩ then ⟨.zero .dir, 1, true, true⟩ else ⟨.zero .free, 0, false, false⟩
  inUse := 1
  mpoint _ := ⟨none, none, none, false⟩
  vfsmlist := [(Vfs.sdmajor, 1)]
  logEnabled i := i = 1
  outstanding _ := 0
  ops := 0
  file _ := ⟨.none, 0, ⟨0, 0⟩, false, false⟩
  proc _ := ⟨⟨1, 1⟩, fun _ => none, 0, 0, 0, 0, 0, [], 0, false, false⟩
  thisproc := 0

def rootState : State := ⟨lockedRoot, rootBytes, true⟩

lemma rootBytes_entries : entries rootBytes =
    [⟨1, .dir, Vfs.dot⟩, ⟨1, .dir, Vfs.dotdot⟩, ⟨2, .file, ['a']⟩] := by decide +kernel

lemma rootBytes_isDir : IsDir rootBytes := by
  refine ⟨by decide +kernel, by decide +kernel, ?_, ?_, ?_⟩
  · rw [rootBytes_entries]
    exact Vfs.Unique.of_nodup (by decide)
  all_goals
    rw [rootBytes_entries]
    exact ⟨_, rfl, by decide, rfl⟩

lemma lockedRoot_holding : Holding ⟨1, 1⟩ lockedRoot := by
  refine ⟨rfl, fun p => ?_, fun p => ?_, fun p => ?_, by decide, by decide⟩ <;>
  · unfold lockedRoot
    dsimp only
    split_ifs with hp <;> simp [hp, Vfs.Attrs.zero]

/-- The hypotheses and the condition hold for the name `a` in that directory. -/
theorem rootState_map : MapOps ⟨1, 1⟩ rootState [0x61] 3 2 := by
  refine (directory_map_iff ⟨1, 1⟩ rootState [0x61] 3 2 rootBytes_isDir lockedRoot_holding rfl
    ⟨by decide, by decide, by decide⟩ (by decide)).mpr ⟨?_, ?_, .inl (by decide +kernel)⟩
  · intro i hi
    rw [inumOf, rootState, rootBytes_entries] at hi
    obtain rfl : 2 = i := Option.some.inj hi
    decide
  · intro hnone
    rw [inumOf, rootState, rootBytes_entries] at hnone
    cases hnone

/-- **Linking `.` does not return**: the name is present, and the lock that `iput` waits for is the
one that the caller holds on the directory. The name `a`, which is present too, is refused as it
should be. -/
theorem link_dot_deadlocks : find rootBytes [0x2e] = some (⟨1, .dir, Vfs.dot⟩, 0) ∧
    Ends (dirlink ⟨1, 1⟩ (bytesOf [0x2e]) 2 2) rootState (fun _ _ => False)
      (fun e _ => e = .deadlock) ∧
    Ends (dirlink ⟨1, 1⟩ (bytesOf [0x61]) 2 2) rootState (fun r _ => r = -eexist) := by
  refine ⟨?_, by decide +kernel, by decide +kernel⟩
  rw [find, rootBytes_entries]
  rfl

end RpiOs.V6.Directory
