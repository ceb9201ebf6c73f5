import Mathlib.Data.Finset.Card
import RpiOs.Vfs.Walk

/-!
# The inode cache does not fail

The specifications of `Walk` say what a function does if it returns. Here are the conditions under
which the functions of the inode cache do return: a lock that is free, a reference, a slot of the
cache.

* `Counted`: `inUse` is the number of inodes with references; the functions keep it so.
-/

namespace RpiOs.Vfs

open Lib

/-- `inUse` counts the inodes with references. -/
def Counted (s : Sys) : Prop :=
  ∃ S : Finset Ino, (∀ p, p ∈ S ↔ 0 < (s.icache p).ref) ∧ s.inUse = S.card

/-- The locks that are held: none, or that of one inode. -/
def Locks (s : Sys) (o : Option Ino) : Prop := ∀ q, (s.icache q).locked = true ↔ o = some q

variable {s t : Sys} {p : Ino} {o : Option Ino} {ip : Inode}

lemma setInode_locks (hip : ip.locked = (s.icache p).locked) :
    ∀ q, ((s.setInode p ip).icache q).locked = (s.icache q).locked :=
  forall_setInode (P := fun q j => j.locked = (s.icache q).locked) hip fun _ _ => rfl

/-- The inode keeps a reference, or has none as before. -/
lemma Counted.setInode (h : Counted s) (hip : 0 < (s.icache p).ref ↔ 0 < ip.ref) :
    Counted (s.setInode p ip) := by
  obtain ⟨S, hmem, hcard⟩ := h
  exact ⟨S, forall_setInode (P := fun q j => q ∈ S ↔ 0 < j.ref) ((hmem p).trans hip) fun q _ =>
    hmem q, hcard⟩

lemma Counted.insert (h : Counted s) (hzero : ¬ 0 < (s.icache p).ref) (hpos : 0 < ip.ref) :
    Counted { s.setInode p ip with inUse := s.inUse + 1 } := by
  obtain ⟨S, hmem, hcard⟩ := h
  have hp : p ∉ S := fun h => hzero ((hmem p).mp h)
  refine ⟨Insert.insert p S, forall_setInode (P :=
    fun q j => q ∈ Insert.insert p S ↔ 0 < j.ref) (by simp [hpos])
    fun q hq => by simp [hq, hmem], ?_⟩
  rw [Finset.card_insert_of_notMem hp, ← hcard]

/-- One reference less keeps the count of cached inodes. -/
lemma Counted.drop (h : Counted s) (href : 0 < (s.icache p).ref)
    (hip : ip.ref = (s.icache p).ref - 1) :
    Counted { s.setInode p ip with inUse :=
      if (s.icache p).ref = 1 then s.inUse - 1 else s.inUse } := by
  by_cases hlast : (s.icache p).ref = 1
  · obtain ⟨S, hmem, hcard⟩ := h
    refine ⟨S.erase p, forall_setInode (P := fun q j => q ∈ S.erase p ↔ 0 < j.ref)
      (by simp [hip, hlast]) fun q hq => by simp [hq, hmem], ?_⟩
    dsimp only
    rw [if_pos hlast, Finset.card_erase_of_mem ((hmem p).mpr href), hcard]
  · rw [if_neg hlast]
    exact h.setInode (by omega)

/-- The slots in use, if all but a few inodes with references are those of another state. -/
lemma Counted.inUse_le (hs : Counted s) (ht : Counted t) (l : List Ino)
    (h : ∀ q, 0 < (t.icache q).ref → 0 < (s.icache q).ref ∨ q ∈ l) :
    t.inUse ≤ s.inUse + l.length := by
  obtain ⟨S, hS, hcS⟩ := hs
  obtain ⟨T, hT, hcT⟩ := ht
  have hsub : T ⊆ S ∪ l.toFinset := by
    intro q hq
    rw [Finset.mem_union, hS, List.mem_toFinset]
    exact h q ((hT q).mp hq)
  calc t.inUse = T.card := hcT
    _ ≤ (S ∪ l.toFinset).card := Finset.card_le_card hsub
    _ ≤ S.card + l.toFinset.card := Finset.card_union_le _ _
    _ ≤ s.inUse + l.length := by rw [hcS]; exact Nat.add_le_add_left (List.toFinset_card_le l) _

lemma Locks.of_locked (h : Locks s o) (hlocked : ∀ q, (t.icache q).locked = (s.icache q).locked) :
    Locks t o :=
  fun q => by rw [hlocked q, h q]

lemma Locks.lock (h : Locks s none) (hip : ip.locked = true) : Locks (s.setInode p ip) (some p) :=
  forall_setInode (P := fun q j => j.locked = true ↔ some p = some q) (by simp [hip])
    fun q hq => (h q).trans (by simp [Ne.symm hq])

lemma Locks.unlock (h : Locks s (some p)) (hip : ip.locked = false) :
    Locks (s.setInode p ip) none :=
  forall_setInode (P := fun q j => j.locked = true ↔ none = some q) (by simp [hip])
    fun q hq => (h q).trans (by simp [Ne.symm hq])

lemma ends_of_post {α : Type} {x : V α} {Q Q' : α → Sys → Prop}
    (h : Ends x s Q) (hpost : Post x s Q') :
    Ends x s (fun a t => Q' a t ∧ Q a t) := by
  obtain ⟨a, t, hx, hQ⟩ := h.returns
  exact (ends_of_ok hx).mpr ⟨hpost a t hx, hQ⟩

section

variable (hcount : Counted s)
include hcount

lemma idup_total (hlocks : Locks s o) (href : 0 < (s.icache p).ref) :
    Ends (idup p) s (fun _ t => Counted t ∧ Locks t o) := by
  unfold idup modifyInode
  simp only [ends_bind, ends_modify, ends_pure]
  exact ⟨hcount.setInode (by simp only; omega), hlocks.of_locked (setInode_locks rfl)⟩

/-- `iget` returns if the cache has room. -/
lemma iget_total (hlocks : Locks s o) (type : FType)
    (hmount : 0 < (s.icache p).ref → (s.icache p).attrs.type ≠ .mount)
    (hroom : 0 < (s.icache p).ref ∨ s.inUse < ninode) (hvfs : s.getvfsentry sdmajor p.dev = true) :
    Ends (iget p type) s (fun _ t => Counted t ∧ Locks t o) := by
  unfold iget
  simp only [ends_bind, ends_get]
  by_cases hpos : 0 < (s.icache p).ref
  · rw [if_pos hpos, if_neg (hmount hpos)]
    exact idup_total hcount hlocks hpos
  rw [if_neg hpos, if_neg (Nat.not_le.mpr (hroom.resolve_left hpos)), if_pos hvfs]
  unfold modifyInode
  simp only [ends_bind, ends_modify, ends_pure]
  exact ⟨hcount.insert hpos Int.one_pos, hlocks.of_locked (setInode_locks rfl)⟩

/-- `ilock` returns if no inode is locked. -/
lemma ilock_total (hlocks : Locks s none) (href : 0 < (s.icache p).ref)
    (htype : (s.card p).attrs.type ≠ .free) :
    Ends (ilock p) s (fun _ t => Counted t ∧ Locks t (some p)) := by
  have hfree : ¬ (s.icache p).locked = true := (hlocks p).not.mpr (by simp)
  unfold ilock acquiresleep load inode modifyInode stopIf onlyIf
  simp only [ends_bind, ends_get, ends_pure]
  rw [if_neg (by omega)]
  simp only [ends_pure, if_neg hfree, ends_modify]
  by_cases hvalid : (s.icache p).valid = false
  · rw [if_pos hvalid]
    simp only [ends_bind, ends_get, ends_modify, setInode_setInode, setInode_icache_self]
    have hcard : ∀ ip : Inode, ((s.setInode p ip).card p).attrs.type ≠ .free := fun _ => htype
    rw [if_neg (hcard _)]
    exact ⟨hcount.setInode Iff.rfl, hlocks.lock rfl⟩
  · rw [if_neg hvalid]
    exact ⟨hcount.setInode Iff.rfl, hlocks.lock rfl⟩

lemma iunlock_total (hlocks : Locks s (some p)) (href : 0 < (s.icache p).ref) :
    Ends (iunlock p) s (fun _ t => Counted t ∧ Locks t none) := by
  have hheld : (s.icache p).locked = true := (hlocks p).mpr rfl
  unfold iunlock releasesleep inode modifyInode stopIf
  simp only [ends_bind, ends_get, ends_pure]
  rw [if_neg (by rw [hheld]; simp; omega)]
  simp only [ends_pure, ends_modify]
  exact ⟨hcount.setInode Iff.rfl, hlocks.unlock rfl⟩

/-- So does `iput`, of another inode than the locked one. -/
lemma iput_total (hlocks : Locks s o) (hfree : o ≠ some p) (href : 0 < (s.icache p).ref)
    (hkeep : ¬ s.Frees p) : Ends (iput p) s (fun _ t => Counted t ∧ Locks t o) := by
  have hunlocked : ¬ (s.icache p).locked = true := (hlocks p).not.mpr hfree
  have hkeep' : ¬ ((s.icache p).valid = true ∧ (s.icache p).attrs.nlink = 0 ∧
    (s.icache p).ref = 1) := hkeep
  unfold iput acquiresleep releasesleep dropRef inode modifyInode stopIf onlyIf
  simp only [ends_bind, ends_get, ends_pure, if_neg hunlocked, ends_modify, setInode_icache_self,
    setInode_setInode]
  rw [if_neg hkeep']
  simp only [ends_pure, setInode_setInode, setInode_icache_self]
  refine ⟨hcount.drop href rfl, ?_⟩
  exact hlocks.of_locked (setInode_locks (Bool.eq_false_iff.mpr hunlocked).symm)

/-- And `iunlockput` of the locked one. -/
lemma iunlockput_total (hlocks : Locks s (some p)) (hs : Coherent s)
    (href : 0 < (s.icache p).ref) (hlink : (s.card p).attrs.nlink ≠ 0) :
    Ends (iunlockput p) s (fun _ t => Counted t ∧ Locks t none) := by
  unfold iunlockput
  refine (ends_of_post (iunlock_total hcount hlocks href) (iunlock_spec hs)).step ?_
  rintro - t ⟨⟨hcached, -⟩, hcount', hlocks'⟩
  have href' : 0 < (t.icache p).ref := by
    rw [hcached.ref_eq, at1_self]
    omega
  exact iput_total hcount' hlocks' (by simp) href'
    (hcached.coherent.not_frees href' (by rwa [hcached.card_eq]))

end

/-- A lookup in a loaded directory returns. -/
lemma dirlookup_total (name : Name) (hcount : Counted s) (hlocks : Locks s o) (hs : Coherent s)
    (hp : Loaded s p) (hdir : (s.card p).attrs.type = .dir) (hroom : s.inUse < ninode)
    (hvfs : s.getvfsentry sdmajor p.dev = true) :
    Ends (dirlookup p name) s (fun _ t => Counted t ∧ Locks t o) := by
  unfold dirlookup
  simp only [ends_bind, ends_get]
  rw [hs.attrs_of_loaded hp, if_neg (hs.card_type_ne p), if_pos hdir]
  cases findEntry (s.card p).entries name with
  | none => exact (ends_pure _).mpr ⟨hcount, hlocks⟩
  | some found =>
    dsimp only
    simp only [ends_bind, ends_pure]
    exact iget_total hcount hlocks _ (hs.type_ne _) (.inr hroom) hvfs

end RpiOs.Vfs
