import RpiOs.Vfs.Balance
import RpiOs.Vfs.Walk

/-!
# What the calls do to the card

`fileunlink` and the parts of `filerename`, as changes of directories and link counts. The states
are calm: nothing is mounted, and no walk frees an inode.

* `fileunlink_spec` (main): which of them the call makes, and which references it leaves behind.
-/

namespace RpiOs.Vfs

open Lib

/-! ## Changes of the card -/

def Card.setEntry (c : Card) (d : Ino) (off : Nat) (e : Dirent) : Card :=
  Function.update c d { c d with entries := putEntry (c d).entries off e }

def Card.setAttrs (c : Card) (p : Ino) (f : Attrs → Attrs) : Card :=
  Function.update c p { c p with attrs := f (c p).attrs }

def Card.free (c : Card) (p : Ino) : Card := Function.update c p (.freed (c p).attrs)

variable {c : Card} {d p q : Ino} {off : Nat} {e : Dirent} {f : Attrs → Attrs}

@[simp] lemma Card.setEntry_attrs : (c.setEntry d off e q).attrs = (c q).attrs := by
  unfold Card.setEntry
  by_cases hq : q = d
  · simp [hq]
  · simp [hq]

@[simp] lemma Card.setEntry_self :
    (c.setEntry d off e d).entries = putEntry (c d).entries off e := by
  simp [Card.setEntry]

@[simp] lemma Card.setEntry_of_ne (h : q ≠ d) : c.setEntry d off e q = c q := by
  simp [Card.setEntry, h]

@[simp] lemma Card.setAttrs_entries : (c.setAttrs p f q).entries = (c q).entries := by
  unfold Card.setAttrs
  by_cases hq : q = p
  · simp [hq]
  · simp [hq]

@[simp] lemma Card.setAttrs_self : (c.setAttrs p f p).attrs = f (c p).attrs := by
  simp [Card.setAttrs]

@[simp] lemma Card.setAttrs_of_ne (h : q ≠ p) : c.setAttrs p f q = c q := by
  simp [Card.setAttrs, h]

@[simp] lemma Card.free_self : c.free p p = .freed (c p).attrs := by
  simp [Card.free]

@[simp] lemma Card.free_of_ne (h : q ≠ p) : c.free p q = c q := by
  simp [Card.free, h]

lemma putEntry_mem {es : List Dirent} {e' : Dirent} (h : e' ∈ putEntry es off e) :
    e' ∈ es ∨ e' = e := by
  unfold putEntry at h
  split at h
  · exact (List.mem_or_eq_of_mem_set h)
  · simpa using h

@[simp] lemma decLink_type (a : Attrs) : (decLink a).type = a.type := by
  simp only [decLink]

lemma decLink_nlink {a : Attrs} (h : a.nlink ≠ 0) (hlt : a.nlink < 65536) :
    (decLink a).nlink = a.nlink - 1 := by
  simp only [decLink]
  omega

/-! ## Steps -/

variable {s : Sys} {dp : Ino}

@[simp] lemma setInode_same : s.setInode p (s.icache p) = s := by
  simp [Sys.setInode]

lemma addOps_cached (hs : Coherent s) (n : Int) : Cached s (s.addOps n) fun _ => 0 :=
  ⟨rfl, rfl, { hs with nomount := hs.nomount }, fun _ => (Int.add_zero _).symm⟩

lemma beginOp_spec (hs : Coherent s) : Post beginOp s fun _ t => Cached s t fun _ => 0 :=
  (post_modify _).mpr (addOps_cached hs 1)

lemma endOp_spec (hs : Coherent s) : Post endOp s fun _ t => Cached s t fun _ => 0 :=
  (post_modify _).mpr (addOps_cached hs (-1))

lemma iupdate_same (h : (s.icache p).attrs = (s.card p).attrs) :
    Post (iupdate p) s fun _ t => t = s := by
  refine .bind (.get (.pure ((post_modify _).mpr ?_)))
  rw [h]
  simp [Sys.setCard]

/-- Writing an entry changes the card there and nothing in the cache. -/
lemma writeEntry_spec (hs : Coherent s) (hdp : Loaded s dp) (off : Nat) (he : e.type ≠ .mount) :
    Post (writeEntry dp off e) s fun _ t =>
      Effect s t (s.card.setEntry dp off e) (fun _ => 0) ∧ t.icache = s.icache := by
  let i := { s.card dp with entries := putEntry (s.card dp).entries off e }
  have heffect : Effect s (s.setCard dp i) (s.card.setEntry dp off e) (fun _ => 0) := by
    have h := hs.effect_set (p := dp) i (s.icache dp) 0 s.inUse (Int.add_zero _).symm
      (hs.ref_nonneg dp) hs.loaded
      (hs.type_ne dp) (hs.card_type_ne dp) fun e' he' => ?_
    · have h' : Effect s _ (s.card.setEntry dp off e) fun _ => 0 := h.congr (by simp)
      rwa [show (s.icache dp) = (s.setCard dp _).icache dp from rfl, setInode_same] at h'
    rcases putEntry_mem he' with he' | rfl
    · exact hs.entry_type_ne dp e' he'
    · exact he
  refine .bind (.get (.pure ?_))
  refine .modify ?_
  refine post_onlyIf (fun _ => ?_) fun _ => ⟨heffect, rfl⟩
  refine (iupdate_same ?_).mono fun _ t ht => ?_
  · exact (hs.attrs_of_loaded hdp).trans (by simp [Sys.setCard])
  · rw [ht]
    exact ⟨heffect, rfl⟩

section

variable (hs : Coherent s) (hp : Loaded s p)
include hs hp

/-- Writing the attributes of a loaded inode. -/
lemma writeAttrs_spec (hf : (f (s.card p).attrs).type = (s.card p).attrs.type) :
    Post (writeAttrs p f) s fun _ t =>
      Effect s t (s.card.setAttrs p f) (fun _ => 0) ∧ Elsewhere p s t ∧ Loaded t p := by
  have hattrs : (s.icache p).attrs = (s.card p).attrs := hs.attrs_of_loaded hp
  have hrun : Post (writeAttrs p f) s fun _ t =>
      t = { (s.setCard p { s.card p with attrs := f (s.card p).attrs }).setInode p
        { s.icache p with attrs := f (s.card p).attrs } with inUse := s.inUse } := by
    refine .modify (.bind ?_)
    refine .get (.pure ((post_modify _).mpr ?_))
    simp [Sys.setCard, Sys.setInode, hattrs]
  refine hrun.mono ?_
  rintro _ t rfl
  refine ⟨?_, elsewhere_setInode _ _, ?_⟩
  · refine (hs.effect_set { s.card p with attrs := f (s.card p).attrs }
      { s.icache p with attrs := f (s.card p).attrs } 0 s.inUse (Int.add_zero _).symm
      (hs.ref_nonneg p) (fun _ _ => ⟨rfl, ?_⟩) (fun _ => ?_) ?_ (hs.entry_type_ne p)).congr
        (by simp)
    · rw [hf, ← hattrs]
      exact hs.live p hp.1 hp.2
    · rw [hf]
      exact hs.card_type_ne p
    · rw [hf]
      exact hs.card_type_ne p
  · simpa [Loaded, Sys.setInode] using hp

lemma dropLink_spec : Post (dropLink p) s fun _ t =>
    Effect s t (s.card.setAttrs p decLink) (fun _ => 0) ∧ Elsewhere p s t ∧ Loaded t p :=
  writeAttrs_spec hs hp (decLink_type _)

/-- The card after the last reference is given back. -/
def Sys.put (s : Sys) (p : Ino) : Card :=
  if (s.card p).attrs.nlink = 0 ∧ (s.icache p).ref = 1 then s.card.free p else s.card

/-- `iput`: one reference less, and an inode without links is freed. -/
lemma iput_effect : Post (iput p) s fun _ t =>
    Effect s t (s.put p) (at1 p (-1)) ∧ Elsewhere p s t := by
  have hattrs : (s.icache p).attrs = (s.card p).attrs := hs.attrs_of_loaded hp
  have href := hp.1
  refine iput_run.mono ?_
  rintro _ t ⟨m, rfl⟩
  have hfrees : s.Frees p ↔ (s.card p).attrs.nlink = 0 ∧ (s.icache p).ref = 1 := by
    unfold Sys.Frees
    rw [hattrs]
    simp [hp.2]
  unfold Sys.put
  by_cases h : (s.card p).attrs.nlink = 0 ∧ (s.icache p).ref = 1
  · rw [if_pos (hfrees.mpr h), if_pos h, hattrs]
    refine ⟨hs.effect_set (.freed (s.card p).attrs) _ (-1) m ?_ (by simp) (by simp) (by simp)
      (by simp [Dinode.freed]) (by simp [Dinode.freed]), elsewhere_setInode _ m⟩
    rw [h.2]
    rfl
  rw [if_neg (mt hfrees.mp h), if_neg h]
  refine ⟨hs.cached_setInode rfl ?_ (fun _ => hs.loaded href) fun _ => hs.type_ne p href,
    elsewhere_setInode _ m⟩
  show 0 ≤ (s.icache p).ref - 1
  omega

/-- The same for a locked inode. -/
lemma iunlockput_effect : Post (iunlockput p) s fun _ t =>
    Effect s t (s.put p) (at1 p (-1)) ∧ Elsewhere p s t := by
  refine (iunlock_spec hs).step fun _ t ht => ?_
  have hput : t.put p = s.put p := by
    unfold Sys.put
    rw [ht.1.card_eq, ht.1.ref_eq]
    simp
  refine (iput_effect ht.1.coherent (ht.2.2.2.1 hp)).mono fun _ u hu => ⟨?_, fun q hq => ?_⟩
  · rw [hput] at hu
    exact (ht.1.trans hu.1).congr (by simp)
  · rw [hu.2 q hq, ht.2.1 q hq]

end

/-! ## Unlinking -/

/-- The entry is cleared and the inode, a directory also its parent, has one link less. -/
def Card.unlinked (c : Card) (dp ip : Ino) (off : Nat) : Card :=
  (if (c ip).attrs.type = .dir then (c.setEntry dp off .empty).setAttrs dp decLink
    else c.setEntry dp off .empty).setAttrs ip decLink

variable {t : Sys} {ip : Ino} {δ : Ino → Int} {path : List Char}

@[simp] lemma gained_some (p : Ino) : gained (some p) = at1 p 1 := by
  funext q
  unfold gained at1
  by_cases hq : q = p
  · simp [hq]
  · simp [hq, Ne.symm hq]

@[simp] lemma gained_none (q : Ino) : gained none q = 0 := by
  simp [gained]

lemma Cached.resolve_eq (h : Cached s t δ) (path : List Char) :
    t.resolve path = s.resolve path := by
  unfold Sys.resolve Sys.start
  rw [h.card_eq, h.me_eq]

lemma Cached.resolveParent_eq (h : Cached s t δ) (path : List Char) :
    t.resolveParent path = s.resolveParent path := by
  unfold Sys.resolveParent Sys.start
  rw [h.card_eq, h.me_eq]

lemma Cached.leaks_eq (h : Cached s t δ) (parent : Bool) (path : List Char) :
    t.leaks parent path = s.leaks parent path := by
  unfold Sys.leaks Sys.start
  rw [h.card_eq, h.me_eq]

/-- Paths lead to inodes with links. -/
lemma resolve_linked {card : Card} (h : Linked card) {names : List Name}
    (hd : (card d).attrs.nlink ≠ 0) (hq : resolve card d names = some q) :
    (card q).attrs.nlink ≠ 0 := by
  induction names generalizing d with
  | nil =>
    cases hq
    exact hd
  | cons name names ih =>
    obtain ⟨d', hd', hq'⟩ := Option.bind_eq_some_iff.mp hq
    exact ih (lookup_linked h hd').1 hq'

lemma Calm.start_linked (hs : Calm s) (path : List Char) :
    (s.card (s.start path)).attrs.nlink ≠ 0 := by
  unfold Sys.start
  split
  · exact hs.root_linked
  · exact hs.cwd_linked

lemma Calm.resolve_linked (hs : Calm s) (h : s.resolve path = some q) :
    (s.card q).attrs.nlink ≠ 0 :=
  Vfs.resolve_linked hs.linked (hs.start_linked path) h

/-- The parent of a path is a directory with links. -/
lemma Calm.resolveParent_dir (hs : Calm s) {name : Name}
    (h : s.resolveParent path = some (dp, name)) :
    (s.card dp).attrs.type = .dir ∧ (s.card dp).attrs.nlink ≠ 0 := by
  obtain ⟨last, -, h⟩ := Option.bind_eq_some_iff.mp h
  obtain ⟨q, hq, h⟩ := Option.bind_eq_some_iff.mp h
  split at h
  · next hdir =>
    cases h
    exact ⟨hdir, Vfs.resolve_linked hs.linked (hs.start_linked path) hq⟩
  · cases h

/-- What `unlinkFind` has found. -/
structure Target (s : Sys) (path : List Char) (dp ip : Ino) (off : Nat) (name : Name) (e : Dirent) :
    Prop where
  parent : s.resolveParent path = some (dp, name)
  not_dots : ¬(name = dot ∨ name = dotdot)
  entry : findEntry (s.card dp).entries name = some (e, off)
  inode : ip = ⟨dp.dev, e.inum⟩

/-- `fileunlink` finds the entry of the last name. -/
lemma unlinkFind_spec (hs : Calm s) (path : List Char) : Post (unlinkFind path) s fun r t =>
    match r with
    | .error _ => Cached s t (s.leaks true path)
    | .ok (dp, ip, off) => ∃ name e, Target s path dp ip off name e ∧ Loaded t dp ∧ Loaded t ip ∧
        Cached s t fun q => at1 dp 1 q + at1 ip 1 q + s.leaks true path q := by
  refine (beginOp_spec hs.coherent).step fun _ t ht => ?_
  have hcalm : Calm t := hs.of_cached ht fun _ => le_refl 0
  refine (nameiparent_spec hcalm path).step fun r u hu => ?_
  rw [ht.resolveParent_eq, ht.leaks_eq] at hu
  have hcached := ht.cached hu.2.2
  rcases r with - | r
  · refine (endOp_spec hcached.coherent).step fun _ w hw => .pure ?_
    exact (hcached.cached hw).congr fun q => by simp
  obtain ⟨dp, name⟩ := r
  obtain ⟨hdir, hlink⟩ := hs.resolveParent_dir hu.1.symm
  -- every error gives the directory back
  have hbad : ∀ w : Sys, Cached s w (fun q => at1 dp 1 q + s.leaks true path q) →
      Post (unlinkBad dp) w fun _ x => Cached s x (s.leaks true path) := by
    intro w hw
    refine (iunlockput_spec hw.coherent (by rwa [hw.card_eq])).step fun _ x hx => ?_
    refine (endOp_spec hx.1.coherent).mono fun _ y hy => ?_
    refine ((hw.cached hx.1).cached hy).congr fun q => ?_
    simp only [at1]
    split <;> omega
  refine (ilock_spec hcached.coherent).step fun _ w hw => ?_
  have hcached' : Cached s w fun q => at1 dp 1 q + s.leaks true path q :=
    (hcached.cached hw.1).congr fun q => by simp
  split
  · exact (hbad w hcached').step fun _ x hx => .pure hx
  · next hdots =>
    refine (dirlookup_spec hcached'.coherent hw.2.1).step fun r x hx => ?_
    rw [hcached'.card_eq] at hx
    rcases r with - | r
    · obtain ⟨-, rfl, -⟩ := hx
      exact (hbad x hcached').step fun _ y hy => .pure hy
    obtain ⟨ip, off⟩ := r
    obtain ⟨-, e, hfind, hip, hget, hkeeps⟩ := hx
    refine (ilock_spec hget.coherent).step fun _ y hy => .pure ?_
    have hloaded : Loaded y dp := by
      by_cases hne : dp = ip
      · rw [hne]
        exact hy.2.1
      unfold Loaded
      rw [hy.2.2 dp hne]
      exact hkeeps dp hw.2.1
    refine ⟨name, e, ⟨hu.1.symm, hdots, hfind, hip⟩, hloaded, hy.2.1, ?_⟩
    refine ((hcached'.cached hget).cached hy.1).congr fun q => ?_
    simp only [at1_zero]
    omega

/-- The inode is freed with its last link if nobody else refers to it. -/
def Sys.unlinkCard (s : Sys) (dp ip : Ino) (off : Nat) : Card :=
  if (s.card ip).attrs.nlink = 1 ∧ (s.icache ip).ref = 1 then (s.card.unlinked dp ip off).free ip
  else s.card.unlinked dp ip off

/-- The directory keeps a link. -/
def KeepsParent (c : Card) (dp ip : Ino) : Prop :=
  (c dp).attrs.nlink ≠ 0 ∧ ((c ip).attrs.type = .dir → (decLink (c dp).attrs).nlink ≠ 0)

/-- Taking the entry away: the counts of the inode and, for a directory, of its parent. -/
lemma unlinkFound_spec (hs : Coherent s) (off : Nat) (hdp : Loaded s dp) (hip : Loaded s ip)
    (hne : ip ≠ dp) (hparent : KeepsParent s.card dp ip) (hlink : (s.card ip).attrs.nlink ≠ 0)
    (hlt : (s.card ip).attrs.nlink < 65536) : Post (unlinkFound dp ip off) s fun _ t =>
      Effect s t (s.unlinkCard dp ip off) fun q => at1 dp (-1) q + at1 ip (-1) q := by
  refine .bind (.get (.pure ?_))
  rw [hs.attrs_of_loaded hip]
  refine (writeEntry_spec hs hdp off (by simp [Dirent.empty])).step fun _ t ht => ?_
  have hdp' : Loaded t dp := by
    unfold Loaded
    rwa [ht.2]
  -- the parent of a directory loses a link
  have hdrop : Post (onlyIf ((s.card ip).attrs.type = .dir) (dropLink dp)) t fun _ u =>
    Elsewhere dp t u ∧ Loaded u dp ∧
      Effect s u (if (s.card ip).attrs.type = .dir then (s.card.setEntry dp off .empty).setAttrs
        dp decLink
        else s.card.setEntry dp off .empty) fun _ => 0 := by
    refine post_onlyIf (fun hdir => ?_) fun hdir => ⟨fun _ _ => rfl, hdp', ?_⟩
    · refine (dropLink_spec ht.1.coherent hdp').mono fun _ u hu => ⟨hu.2.1, hu.2.2, ?_⟩
      rw [if_pos hdir]
      have htrans := ht.1.trans hu.1
      rw [ht.1.card_eq] at htrans
      exact htrans.congr fun q => rfl
    · rw [if_neg hdir]
      exact ht.1
  refine hdrop.step ?_
  rintro - u ⟨helse, hdp'', heffect⟩
  have hip' : Loaded u ip := by
    unfold Loaded
    rw [helse ip hne, ht.2]
    exact hip
  have hkeep : (u.card dp).attrs.nlink ≠ 0 := by
    rw [heffect.card_eq]
    split
    · next hdir =>
      rw [Card.setAttrs_self, Card.setEntry_attrs]
      exact hparent.2 hdir
    · rw [Card.setEntry_attrs]
      exact hparent.1
  refine (iunlockput_effect heffect.coherent hdp'').step fun _ w hw => ?_
  rw [Sys.put, if_neg fun h => hkeep h.1] at hw
  have hip'' : Loaded w ip := by
    unfold Loaded
    rw [hw.2 ip hne]
    exact hip'
  refine (dropLink_spec hw.1.coherent hip'').step fun _ x hx => ?_
  have heffect' : Effect s x (s.card.unlinked dp ip off) (at1 dp (-1)) := by
    have htrans := (heffect.cached hw.1).trans hx.1
    rw [hw.1.card_eq, heffect.card_eq] at htrans
    exact htrans.congr fun q => by simp
  refine (iunlockput_effect heffect'.coherent hx.2.2).step fun _ y hy => ?_
  have hput : x.put ip = s.unlinkCard dp ip off := by
    have hlinks : (x.card ip).attrs.nlink = (s.card ip).attrs.nlink - 1 := by
      rw [heffect'.card_eq]
      unfold Card.unlinked
      rw [Card.setAttrs_self]
      split
      · rw [Card.setAttrs_of_ne hne, Card.setEntry_attrs, decLink_nlink hlink hlt]
      · rw [Card.setEntry_attrs, decLink_nlink hlink hlt]
    have href : (x.icache ip).ref = (s.icache ip).ref := by
      rw [heffect'.ref_eq, at1_ne hne, Int.add_zero]
    unfold Sys.put Sys.unlinkCard
    rw [hlinks, href, heffect'.card_eq]
    refine if_congr (and_congr_left fun _ => ?_) rfl rfl
    omega
  rw [hput] at hy
  refine (endOp_spec hy.1.coherent).mono fun _ z hz => ?_
  exact ((heffect'.trans hy.1).cached hz).congr fun q => by simp

/-- Why the call does not fail. -/
def Removable (c : Card) (ip : Ino) (removedir : Bool) : Prop :=
  if removedir then (c ip).attrs.type = .dir ∧ ∀ e ∈ (c ip).entries.drop 2, e.inum = 0
  else (c ip).attrs.type ≠ .dir

/-- The tests before a removal. -/
lemma removeError_spec (hs : Coherent s) (hip : Loaded s ip) (removedir : Bool) :
    Post (removeError ip removedir) s fun r t => t = s ∧
      (r = none → Removable s.card ip removedir) := by
  unfold removeError isdirempty inode entriesOf
  simp only [post_bind, post_get, post_pure]
  rw [hs.attrs_of_loaded hip]
  refine ⟨trivial, fun h => ?_⟩
  unfold Removable
  cases removedir with
  | true =>
    by_cases hdir : (s.card ip).attrs.type = .dir
    · simpa [hdir] using h
    · simp [hdir] at h
  | false => simpa using h

/-- **What `fileunlink` does.** An error changes nothing on the card. -/
theorem fileunlink_spec (hs : Calm s) (path : List Char) (removedir : Bool)
    (hlt : ∀ p, (s.card p).attrs.nlink < 65536)
    (hparent : ∀ dp ip off name e, Target s path dp ip off name e → Removable s.card ip removedir →
      KeepsParent s.card dp ip) :
    Post (fileunlink path removedir) s fun r t =>
      match r with
      | .error _ => Cached s t (s.leaks true path)
      | .ok () => ∃ dp ip off name e, Target s path dp ip off name e ∧ ip ≠ dp ∧
          Removable s.card ip removedir ∧
          Effect s t (if (s.card ip).attrs.nlink = 1 ∧
            (s.icache ip).ref + s.leaks true path ip = 0 then
              (s.card.unlinked dp ip off).free ip
            else s.card.unlinked dp ip off) (s.leaks true path) := by
  refine ((unlinkFind_spec hs path).and (Gives.unlinkFind path s rfl)).step ?_
  rintro r t ⟨hspec, hview⟩
  cases r with
  | error e => exact .pure hspec
  | ok found => ?_
  obtain ⟨dp, ip, off⟩ := found
  obtain ⟨name, e, htarget, hdp, hip, hcached⟩ := hspec
  obtain ⟨-, -, hne, -⟩ := hview
  have hlink : (s.card ip).attrs.nlink ≠ 0 := by
    obtain ⟨hget, hinum, -⟩ := findEntry_some htarget.entry
    rw [htarget.inode]
    exact hs.linked dp (hs.resolveParent_dir htarget.parent).1 e (List.mem_of_getElem? hget) hinum
  refine .bind (.get (.pure ?_))
  rw [hcached.coherent.attrs_of_loaded hip, hcached.card_eq, if_neg (by omega)]
  refine (removeError_spec hcached.coherent hip removedir).step ?_
  rintro r u ⟨rfl, hremovable⟩
  rw [hcached.card_eq] at hremovable
  cases r with
  | some error =>
    refine (iunlockput_spec hcached.coherent (by rwa [hcached.card_eq])).step fun _ w hw => ?_
    have hlink' : (w.card dp).attrs.nlink ≠ 0 := by
      rw [hw.1.card_eq, hcached.card_eq]
      exact (hs.resolveParent_dir htarget.parent).2
    refine .bind ((iunlockput_spec hw.1.coherent hlink').step fun _ x hx => ?_)
    refine (endOp_spec hx.1.coherent).mono fun _ y hy => .pure ?_
    refine (((hcached.cached hw.1).cached hx.1).cached hy).congr fun q => ?_
    simp only [at1]
    split_ifs <;> omega
  | none =>
    have hcard := hcached.card_eq
    refine (unlinkFound_spec hcached.coherent off hdp hip hne ?_ (by rwa [hcard])
      (by rw [hcard]; exact hlt ip)).step fun _ w hw => .pure ?_
    · rw [hcard]
      exact hparent dp ip off name e htarget (hremovable rfl)
    refine ⟨dp, ip, off, name, e, htarget, hne, hremovable rfl, ?_⟩
    have href : (u.icache ip).ref = (s.icache ip).ref + 1 + s.leaks true path ip := by
      rw [hcached.ref_eq, at1_self, at1_ne hne]
      omega
    have hunlink : u.unlinkCard dp ip off = if (s.card ip).attrs.nlink = 1 ∧
        (s.icache ip).ref + s.leaks true path ip = 0 then (s.card.unlinked dp ip off).free ip
        else s.card.unlinked dp ip off := by
      unfold Sys.unlinkCard
      rw [hcard, href]
      refine if_congr (and_congr_right fun _ => ?_) rfl rfl
      omega
    rw [hunlink] at hw
    refine (hcached.trans hw).congr fun q => ?_
    simp only [at1]
    split_ifs <;> omega

/-! ## New entries -/

variable {name : Name}

/-- `dirlink` puts the name at the first free place. -/
lemma dirlink_spec (hs : Coherent s) (hdp : Loaded s dp) (inum : Nat) {type : FType}
    (htype : type ≠ .mount) :
    Post (dirlink dp name inum type) s fun r t => r.toBool = true →
      (s.card dp).attrs.type = .dir ∧ findEntry (s.card dp).entries name = none ∧
        Effect s t (s.card.setEntry dp (freeEntry (s.card dp).entries) ⟨inum, type, name⟩)
          fun _ => 0 := by
  refine (dirlookup_spec hs hdp).step ?_
  rintro r t ⟨hdir, ht⟩
  cases r with
  | none =>
    obtain ⟨rfl, hnone⟩ := ht
    refine .bind (.get (.pure ?_))
    refine .bind (post_stopIf fun _ => ?_)
    exact (writeEntry_spec hs hdp _ htype).step fun _ u hu => .pure fun _ => ⟨hdir, hnone, hu.1⟩
  | some r => exact post_of_run fun _ u _ => .pure nofun

/-- A change of attributes that is not one of the type leaves the names alone. -/
lemma lookup_setAttrs (hf : ∀ a, (f a).type = a.type) (p d : Ino) (name : Name) :
    lookup (c.setAttrs p f) d name = lookup c d name := by
  unfold lookup
  rw [Card.setAttrs_entries]
  by_cases hd : d = p
  · subst hd
    rw [Card.setAttrs_self, hf]
  · rw [Card.setAttrs_of_ne hd]

end RpiOs.Vfs
