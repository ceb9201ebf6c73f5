import Mathlib.Data.List.DropRight
import Mathlib.Tactic.SplitIfs
import Mathlib.Tactic.NormNum
import RpiOs.Vfs.Calls

/-!
# The walk along a path

What a path means, and what the walk along it does to the inode cache. Here nothing is mounted.

* `namei_spec`, `nameiparent_spec` (main): the walk returns what the path means and leaves the card
  alone. Beside the reference it returns it leaves one on the root directory for every element it
  has looked up.
-/

namespace RpiOs.Vfs

open Lib Function

/-! ## The meaning of a path -/

section meaning

variable (card : Card)

/-- The inode of a name in a directory. -/
def lookup (d : Ino) (name : Name) : Option Ino :=
  if (card d).attrs.type = .dir then
    (findEntry (card d).entries name).map fun e => ⟨d.dev, e.1.inum⟩
  else none

/-- The elements of a path, at most `n` of them. -/
def elementsIn : Nat → List Char → List Name
  | 0, _ => []
  | n + 1, path =>
    match skipelem path with
    | none => []
    | some (name, rest) => name :: elementsIn n rest

/-- The elements of a path. -/
def elements (path : List Char) : List Name := elementsIn (path.length + 1) path

/-- Where the elements lead. -/
def resolve : Ino → List Name → Option Ino
  | d, [] => some d
  | d, name :: names => (lookup card d name).bind fun q => resolve q names

/-- The directory of the last element, and that element. -/
def resolveParent (d : Ino) (names : List Name) : Option (Ino × Name) :=
  names.getLast?.bind fun name => (resolve card d names.dropLast).bind fun q =>
    if (card q).attrs.type = .dir then some (q, name) else none

/-- How many elements are found. -/
def found : Ino → List Name → Nat
  | _, [] => 0
  | d, name :: names =>
    match lookup card d name with
    | none => 0
    | some q => found q names + 1

variable {card} {card' : Card}

end meaning

/-- Where the walk begins. -/
def Sys.start (s : Sys) (path : List Char) : Ino :=
  if path.head? = some '/' then ⟨rootdev, rootino⟩ else s.me.cwd

/-- The inode of a path. -/
def Sys.resolve (s : Sys) (path : List Char) : Option Ino :=
  Vfs.resolve s.card (s.start path) (elements path)

/-- The directory of a path and its last element. -/
def Sys.resolveParent (s : Sys) (path : List Char) : Option (Ino × Name) :=
  Vfs.resolveParent s.card (s.start path) (elements path)

variable {path rest : List Char} {name : Name}

lemma head_dropWhile_slash {c : Char} {p : List Char} (h : path.dropWhile (· = '/') = c :: p) :
    c ≠ '/' := by
  have hhead := List.head?_dropWhile_not (· = '/') path
  rw [h] at hhead
  simpa using hhead

/-- Every element makes the path shorter. -/
lemma skipelem_length (h : skipelem path = some (name, rest)) : rest.length < path.length := by
  have hle : (path.dropWhile (· = '/')).length ≤ path.length := (List.dropWhile_suffix _).length_le
  unfold skipelem at h
  rcases hdrop : path.dropWhile (· = '/') with - | ⟨c, p⟩
  · rw [hdrop] at h
    cases h
  rw [hdrop] at h hle
  cases h
  have hrest : (((c :: p).dropWhile (· ≠ '/')).dropWhile (· = '/')).length ≤ p.length := by
    refine (List.dropWhile_suffix _).length_le.trans ?_
    rw [List.dropWhile_cons_of_pos (by simpa using head_dropWhile_slash hdrop)]
    exact (List.dropWhile_suffix _).length_le
  simp only [List.length_cons] at hle
  omega

/-- What is left is empty, or has another element. -/
lemma skipelem_rest (h : skipelem path = some (name, rest)) : skipelem rest = none ↔ rest = [] := by
  have hrest : rest.dropWhile (· = '/') = rest := by
    unfold skipelem at h
    split at h
    · cases h
    · cases h
      exact List.dropWhile_idempotent _ _
  unfold skipelem
  rw [hrest]
  cases rest <;> simp

/-! ## The cache -/

/-- The cached inodes that have been read are those of the card, and nothing is mounted. -/
structure Coherent (s : Sys) : Prop where
  nomount : ∀ i, (s.mpoint i).mInode = none ∧ (s.mpoint i).mRtinode = none
  ref_nonneg : ∀ p, 0 ≤ (s.icache p).ref
  attrs_eq : ∀ p, 0 < (s.icache p).ref → (s.icache p).valid = true →
    (s.icache p).attrs = (s.card p).attrs
  live : ∀ p, 0 < (s.icache p).ref → (s.icache p).valid = true → (s.icache p).attrs.type ≠ .free
  type_ne : ∀ p, 0 < (s.icache p).ref → (s.icache p).attrs.type ≠ .mount
  card_type_ne : ∀ p, (s.card p).attrs.type ≠ .mount
  entry_type_ne : ∀ p, ∀ e ∈ (s.card p).entries, e.type ≠ .mount

lemma Coherent.isinoderoot {s : Sys} (hs : Coherent s) (p : Ino) : s.isinoderoot p = false := by
  unfold Sys.isinoderoot
  rw [List.any_eq_false]
  intro i _
  simp [(hs.nomount i).2]

/-- The inode has been read and is referenced. -/
def Loaded (s : Sys) (p : Ino) : Prop := 0 < (s.icache p).ref ∧ (s.icache p).valid = true

/-- The card is now `c`, the references changed by `δ`, and nothing else but cache and logs. -/
structure Effect (s t : Sys) (c : Card) (δ : Ino → Int) : Prop where
  frame : t = { s with
    card := t.card, icache := t.icache, inUse := t.inUse, ops := t.ops, outstanding :=
      t.outstanding }
  card_eq : t.card = c
  coherent : Coherent t
  ref_eq : ∀ p, (t.icache p).ref = (s.icache p).ref + δ p

/-- The card is as it was. -/
abbrev Cached (s t : Sys) (δ : Ino → Int) : Prop := Effect s t s.card δ

/-- One more, or one less, at `p`. -/
def at1 (p : Ino) (n : Int) : Ino → Int := fun q => if q = p then n else 0

@[simp] lemma at1_self (p : Ino) (n : Int) : at1 p n p = n := if_pos rfl

@[simp] lemma at1_zero (p q : Ino) : at1 p 0 q = 0 := ite_self 0

@[simp] lemma at1_ne {p q : Ino} (h : q ≠ p) (n : Int) : at1 p n q = 0 := if_neg h

variable {s t u : Sys} {c c' : Card} {p q : Ino} {δ ε : Ino → Int}

lemma Coherent.loaded (h : Coherent s) (hp : 0 < (s.icache p).ref)
    (hvalid : (s.icache p).valid = true) :
    (s.icache p).attrs = (s.card p).attrs ∧ (s.icache p).attrs.type ≠ .free :=
  ⟨h.attrs_eq p hp hvalid, h.live p hp hvalid⟩

lemma Coherent.attrs_of_loaded (h : Coherent s) (hp : Loaded s p) :
    (s.icache p).attrs = (s.card p).attrs :=
  h.attrs_eq p hp.1 hp.2

lemma Effect.me_eq (h : Effect s t c δ) : t.me = s.me := by
  rw [h.frame]
  rfl

lemma Cached.refl (h : Coherent s) : Cached s s fun _ => 0 :=
    ⟨rfl, rfl, h, fun _ => (Int.add_zero _).symm⟩

lemma Effect.trans (h : Effect s t c δ) (h' : Effect t u c' ε) :
    Effect s u c' fun p => δ p + ε p where
  frame := by
    rw [h'.frame, h.frame]
  card_eq := h'.card_eq
  coherent := h'.coherent
  ref_eq p := by rw [h'.ref_eq, h.ref_eq, Int.add_assoc]

lemma Effect.cached (h : Effect s t c δ) (h' : Cached t u ε) : Effect s u c fun p => δ p + ε p := by
  have htrans := h.trans h'
  rwa [h.card_eq] at htrans

lemma Effect.congr (h : Effect s t c δ) (hδ : ∀ p, δ p = ε p) : Effect s t c ε where
  frame := h.frame
  card_eq := h.card_eq
  coherent := h.coherent
  ref_eq p := by rw [h.ref_eq, hδ]

/-- What has to be shown when one inode changed, on the card and in the cache. -/
lemma Coherent.effect_set (hs : Coherent s) (din : Dinode) (ip : Inode) (n : Int) (m : Nat)
    (href : ip.ref = (s.icache p).ref + n) (hnonneg : 0 ≤ ip.ref)
    (hattrs : 0 < ip.ref → ip.valid = true → ip.attrs = din.attrs ∧ ip.attrs.type ≠ .free)
    (htype : 0 < ip.ref → ip.attrs.type ≠ .mount) (hcard : din.attrs.type ≠ .mount)
    (hentries : ∀ e ∈ din.entries, e.type ≠ .mount) :
    Effect s { (s.setCard p din).setInode p ip with inUse := m } (update s.card p din)
      (at1 p n) := by
  have hcache : ∀ q, ({ (s.setCard p din).setInode p ip with inUse := m } : Sys).icache q =
      if q = p then ip else s.icache q := fun q => update_apply ..
  have hcards : ∀ q, ({ (s.setCard p din).setInode p ip with inUse := m } : Sys).card q =
      if q = p then din else s.card q := fun q => update_apply ..
  refine ⟨rfl, rfl, ⟨hs.nomount, fun q => ?_, fun q => ?_, fun q => ?_, fun q => ?_, fun q => ?_,
    fun q => ?_⟩, fun q => ?_⟩
  · rw [hcache]
    split
    · exact hnonneg
    · exact hs.ref_nonneg q
  · rw [hcache, hcards]
    split
    · exact fun href hvalid => (hattrs href hvalid).1
    · exact hs.attrs_eq q
  · rw [hcache]
    split
    · exact fun href hvalid => (hattrs href hvalid).2
    · exact hs.live q
  · rw [hcache]
    split
    · exact htype
    · exact hs.type_ne q
  · rw [hcards]
    split
    · exact hcard
    · exact hs.card_type_ne q
  · rw [hcards]
    split
    · exact hentries
    · exact hs.entry_type_ne q
  rw [hcache]
  split
  · next hq =>
    subst hq
    rw [href, at1_self]
  · next hq => rw [at1_ne hq, Int.add_zero]

lemma Coherent.cached_setInode (hs : Coherent s) {ip : Inode} {n : Int} {m : Nat}
    (href : ip.ref = (s.icache p).ref + n) (hnonneg : 0 ≤ ip.ref)
    (hattrs : 0 < ip.ref → ip.valid = true → ip.attrs = (s.card p).attrs ∧ ip.attrs.type ≠ .free)
    (htype : 0 < ip.ref → ip.attrs.type ≠ .mount) :
    Cached s { s.setInode p ip with inUse := m } (at1 p n) := by
  have heffect := hs.effect_set (s.card p) ip n m href hnonneg hattrs htype (hs.card_type_ne p)
    (hs.entry_type_ne p)
  simpa [Sys.setCard] using heffect

/-- The other slots stay as they are. -/
def Elsewhere (p : Ino) (s t : Sys) : Prop := ∀ q, q ≠ p → t.icache q = s.icache q

/-- What has been read stays. -/
def Keeps (s t : Sys) : Prop := ∀ q, Loaded s q → Loaded t q

lemma elsewhere_setInode (ip : Inode) (m : Nat) :
    Elsewhere p s { s.setInode p ip with inUse := m } :=
  fun _ hq => update_of_ne hq _ _

lemma forall_setInode {ip : Inode} {P : Ino → Inode → Prop} (hp : P p ip)
    (hne : ∀ q, q ≠ p → P q (s.icache q)) :
    ∀ q, P q ((s.setInode p ip).icache q) := (forall_update_iff _ _).mpr ⟨hp, hne⟩

lemma Elsewhere.keeps (h : Elsewhere p s t) (hp : Loaded s p → Loaded t p) : Keeps s t := by
  intro q hq
  by_cases hne : q = p
  · subst hne
    exact hp hq
  · unfold Loaded
    rwa [h q hne]

/-! ## What the functions of the cache do -/

@[simp] lemma setInode_icache_self (ip : Inode) : (s.setInode p ip).icache p = ip :=
  update_self ..

@[simp] lemma setInode_setInode (a b : Inode) : (s.setInode p a).setInode p b = s.setInode p b := by
  simp [Sys.setInode]

lemma acquiresleep_run : Post (acquiresleep p) s fun _ t =>
    t = s.setInode p { s.icache p with locked := true } := by
  refine .bind (.get (.pure ?_))
  exact .bind (post_stopIf fun _ => (post_modify _).mpr rfl)

/-- What `ilock` does when it returns. -/
lemma ilock_run : Post (ilock p) s fun _ t => 1 ≤ (s.icache p).ref ∧ ∃ attrs,
    ((s.icache p).valid = true ∧ attrs = (s.icache p).attrs ∨
      (s.icache p).valid = false ∧ attrs = (s.card p).attrs ∧ attrs.type ≠ .free) ∧
      t = s.setInode p { s.icache p with attrs := attrs, locked := true, valid := true } := by
  refine .bind (.get (.pure ?_))
  refine .bind (post_stopIf fun href => ?_)
  refine acquiresleep_run.step fun _ t ht => ?_
  subst ht
  refine post_onlyIf (fun hvalid => ?_) fun hvalid => ?_
  · refine .get (.modify ?_)
    refine post_stopIf fun htype => ⟨by omega, _, .inr ⟨hvalid, rfl, htype⟩, ?_⟩
    simp only [setInode_setInode, setInode_icache_self]
    rfl
  · have hvalid' : (s.icache p).valid = true := by simpa using hvalid
    refine ⟨by omega, _, .inl ⟨hvalid', rfl⟩, ?_⟩
    rw [← hvalid']

lemma iunlock_run : Post (iunlock p) s fun _ t => 1 ≤ (s.icache p).ref ∧
    t = s.setInode p { s.icache p with locked := false } := by
  refine .bind (.get (.pure ?_))
  refine .bind (post_stopIf fun href => (post_modify _).mpr ⟨?_, rfl⟩)
  rw [not_or] at href
  omega

/-- Where `iput` frees the inode. -/
def Sys.Frees (s : Sys) (p : Ino) : Prop :=
  (s.icache p).valid = true ∧ (s.icache p).attrs.nlink = 0 ∧ (s.icache p).ref = 1

instance (s : Sys) (p : Ino) : Decidable (s.Frees p) := inferInstanceAs (Decidable (_ ∧ _ ∧ _))

/-- What is left on the card of an inode that was freed. -/
def Dinode.freed (a : Attrs) : Dinode := ⟨{ a with type := .free }, [], []⟩

lemma freeInode_run : Post (freeInode p) s fun _ t =>
    t = (s.setCard p (.freed (s.icache p).attrs)).setInode p
      { s.icache p with attrs := { (s.icache p).attrs with type := .free }, valid := false } := by
  unfold freeInode itrunc iupdate modifyAttrs modifyInode inode
  simp only [post_bind, post_modify, post_get, post_pure]
  simp [Sys.setInode, Sys.setCard, Dinode.freed]

lemma dropRef_run : Post (dropRef p) s fun _ t =>
    t = { s.setInode p { s.icache p with ref := (s.icache p).ref - 1 } with
      inUse := if (s.icache p).ref = 1 then s.inUse - 1 else s.inUse } := by
  unfold dropRef inode modifyInode
  simp only [post_bind, post_modify, post_get, post_pure]
  rfl

/-- What `iput` does when it returns. -/
lemma iput_run : Post (iput p) s fun _ t => ∃ m, t = { (if s.Frees p then
        (s.setCard p (.freed (s.icache p).attrs)).setInode p
          ⟨{ (s.icache p).attrs with type := .free }, 0, false, false⟩
      else s.setInode p { s.icache p with ref := (s.icache p).ref - 1, locked := false }) with
      inUse := m } := by
  refine acquiresleep_run.step fun _ t ht => ?_
  subst ht
  refine .bind (.get (.pure ?_))
  rw [setInode_icache_self]
  have hlast : ∀ u : Sys, Post (do releasesleep p; dropRef p) u fun _ t => ∃ m,
      t = { u.setInode p { u.icache p with ref := (u.icache p).ref - 1, locked := false } with
        inUse := m } := by
    intro u
    refine .modify (dropRef_run.mono fun _ t ht => ?_)
    refine ⟨if (u.icache p).ref = 1 then u.inUse - 1 else u.inUse, ?_⟩
    simp only [ht, setInode_setInode, setInode_icache_self]
    rfl
  refine .bind (post_onlyIf (fun hfree => ?_) fun hkeep => ?_)
  · refine freeInode_run.mono fun _ u hu => (hlast u).mono ?_
    rintro _ t ⟨m, rfl⟩
    refine ⟨m, ?_⟩
    have hfree' : s.Frees p := hfree
    rw [if_pos hfree', hu]
    simp [Sys.setInode, Sys.setCard, hfree'.2.2]
  refine (hlast _).mono ?_
  rintro _ t ⟨m, rfl⟩
  refine ⟨m, ?_⟩
  have hkeep' : ¬s.Frees p := hkeep
  rw [if_neg hkeep', setInode_setInode, setInode_icache_self]

/-- `iget` takes a reference on the inode, or on what is mounted there, or reads the inode in. -/
lemma iget_run {type : FType} : Post (iget p type) s fun r t =>
    (0 < (s.icache p).ref ∧ ((s.icache p).attrs.type = .mount ∧ s.mtablertinode p = some r ∨
        (s.icache p).attrs.type ≠ .mount ∧ r = p) ∧
      t = s.setInode r { s.icache r with ref := (s.icache r).ref + 1 }) ∨
    (¬ 0 < (s.icache p).ref ∧ r = p ∧
      t = { s.setInode p ⟨{ (s.icache p).attrs with type := type }, 1,
      (s.icache p).locked, false⟩ with inUse := s.inUse + 1 }) := by
  refine .get ?_
  split
  · next hpos =>
    split
    · next hmount =>
      cases hr : s.mtablertinode p with
      | none => exact post_throw _
      | some r => exact .modify (.pure (.inl ⟨hpos, .inl ⟨hmount, rfl⟩, rfl⟩))
    · next hmount => exact .modify (.pure (.inl ⟨hpos, .inr ⟨hmount, rfl⟩, rfl⟩))
  · next hpos =>
    split
    · exact post_throw _
    split
    · exact .modify (.bind ((post_modify _).mpr (.pure (.inr ⟨hpos, rfl, rfl⟩))))
    · exact post_throw _

section

variable (hs : Coherent s)
include hs

/-- The inode is loaded, and nothing else has changed. -/
lemma ilock_spec : Post (ilock p) s fun _ t =>
    Cached s t (at1 p 0) ∧ Loaded t p ∧ Elsewhere p s t := by
  refine ilock_run.mono ?_
  rintro _ t ⟨href, attrs, hattrs, rfl⟩
  have hcard : attrs = (s.card p).attrs ∧ attrs.type ≠ .free := by
    rcases hattrs with ⟨hvalid, rfl⟩ | ⟨-, hattrs⟩
    · exact hs.loaded (by omega) hvalid
    · exact hattrs
  refine ⟨?_, ⟨?_, ?_⟩, elsewhere_setInode _ s.inUse⟩
  · refine hs.cached_setInode (m := s.inUse) (by simp) (hs.ref_nonneg p) (fun _ _ => hcard)
      fun _ => ?_
    rw [hcard.1]
    exact hs.card_type_ne p
  · rw [setInode_icache_self]
    show 0 < (s.icache p).ref
    omega
  · rw [setInode_icache_self]

/-- `iunlock` changes the lock only. -/
lemma iunlock_spec : Post (iunlock p) s fun _ t =>
    Cached s t (at1 p 0) ∧ Elsewhere p s t ∧ 0 < (s.icache p).ref ∧ (Loaded s p → Loaded t p) ∧
      (t.icache p).attrs = (s.icache p).attrs := by
  refine iunlock_run.mono ?_
  rintro _ t ⟨href, rfl⟩
  refine ⟨?_, elsewhere_setInode _ s.inUse, by omega, fun h => ?_, by simp⟩
  · exact hs.cached_setInode (m := s.inUse) (by simp) (hs.ref_nonneg p) hs.loaded (hs.type_ne p)
  unfold Loaded
  rw [setInode_icache_self]
  exact h

lemma Coherent.not_frees (href : 0 < (s.icache p).ref) (hlink : (s.card p).attrs.nlink ≠ 0) :
    ¬s.Frees p := by
  rintro ⟨hvalid, hnlink, -⟩
  rw [hs.attrs_eq p href hvalid] at hnlink
  exact hlink hnlink

/-- One reference less, for an inode with links. -/
lemma iput_spec (href : 0 < (s.icache p).ref) (hlink : (s.card p).attrs.nlink ≠ 0) :
    Post (iput p) s fun _ t => Cached s t (at1 p (-1)) ∧ Elsewhere p s t ∧
      (t.icache p).attrs = (s.icache p).attrs := by
  refine iput_run.mono ?_
  rintro _ t ⟨m, rfl⟩
  rw [if_neg (hs.not_frees href hlink)]
  refine ⟨hs.cached_setInode rfl ?_ (fun _ => hs.loaded href) fun _ => hs.type_ne p href,
    elsewhere_setInode _ m, by simp [Sys.setInode]⟩
  show 0 ≤ (s.icache p).ref - 1
  omega

/-- The same for a locked one. -/
lemma iunlockput_spec (hlink : (s.card p).attrs.nlink ≠ 0) :
    Post (iunlockput p) s fun _ t => Cached s t (at1 p (-1)) ∧ Elsewhere p s t ∧
      (t.icache p).attrs = (s.icache p).attrs := by
  refine (iunlock_spec hs).step fun _ t ht => ?_
  have href : 0 < (t.icache p).ref := by
    have := ht.1.ref_eq p
    simp only [at1_self] at this
    omega
  refine (iput_spec ht.1.coherent href (by rwa [ht.1.card_eq])).mono fun _ u hu =>
    ⟨?_, ?_, hu.2.2.trans ht.2.2.2.2⟩
  · refine (ht.1.cached hu.1).congr fun q => ?_
    by_cases hq : q = p
    · simp [hq]
    · simp [hq]
  · intro q hq
    rw [hu.2.1 q hq, ht.2.1 q hq]

/-- One reference more. -/
lemma Coherent.idup (href : 0 < (s.icache p).ref)
    (ht : t = s.setInode p { s.icache p with ref := (s.icache p).ref + 1 }) :
    Cached s t (at1 p 1) ∧ Keeps s t := by
  subst ht
  have hpos : 0 < (s.icache p).ref + 1 := by omega
  refine ⟨hs.cached_setInode (m := s.inUse) rfl hpos.le (fun _ => hs.loaded href) fun _ =>
    hs.type_ne p href, (elsewhere_setInode _ s.inUse).keeps fun hp => ?_⟩
  unfold Loaded
  rw [setInode_icache_self]
  exact ⟨hpos, hp.2⟩

lemma idup_spec (href : 0 < (s.icache p).ref) :
    Post (idup p) s fun q t => q = p ∧ Cached s t (at1 p 1) ∧ Keeps s t :=
  .modify (.pure ⟨rfl, hs.idup href rfl⟩)

lemma iget_spec {type : FType} (htype : type ≠ .mount) :
    Post (iget p type) s fun q t => q = p ∧ Cached s t (at1 p 1) ∧ Keeps s t := by
  refine iget_run.mono ?_
  rintro r t (⟨href, ⟨hmount, -⟩ | ⟨-, rfl⟩, ht⟩ | ⟨href, rfl, rfl⟩)
  · exact absurd hmount (hs.type_ne p href)
  · exact ⟨rfl, hs.idup href ht⟩
  have hzero := le_antisymm (not_lt.mp href) (hs.ref_nonneg r)
  exact ⟨rfl, hs.cached_setInode (by simp [hzero]) (by simp) (fun _ => nofun) fun _ => htype,
    (elsewhere_setInode _ _).keeps fun hr => absurd hr.1 href⟩

end

/-! ## Looking names up -/

variable {dp ip : Ino} {es : List Dirent}

/-- The entry that is found is the first with the name. -/
lemma findEntry_some {e : Dirent} {off : Nat} (h : findEntry es name = some (e, off)) :
    es[off]? = some e ∧ e.inum ≠ 0 ∧ e.name = name ∧
      ∀ i < off, ∀ e', es[i]? = some e' → ¬(e'.inum ≠ 0 ∧ e'.name = name) := by
  unfold findEntry at h
  rw [Option.bind_eq_some_iff] at h
  obtain ⟨i, hi, h⟩ := h
  rw [Option.map_eq_some_iff] at h
  obtain ⟨e', he', heq⟩ := h
  cases heq
  rw [List.findIdx?_eq_some_iff_getElem] at hi
  obtain ⟨hlt, hmatch, hfirst⟩ := hi
  have hget : es[off] = e := by
    rw [List.getElem?_eq_getElem hlt] at he'
    exact Option.some.inj he'
  rw [hget] at hmatch
  refine ⟨he', by simpa using (by simpa using hmatch : e.inum ≠ 0 ∧ e.name = name).1,
    (by simpa using hmatch : e.inum ≠ 0 ∧ e.name = name).2, fun j hj e'' hget' => ?_⟩
  have hj' := hfirst j hj
  rw [List.getElem?_eq_getElem (by omega)] at hget'
  rw [Option.some.inj hget'] at hj'
  simpa using hj'

/-- None is found exactly if no entry has the name. -/
lemma findEntry_eq_none : findEntry es name = none ↔ ∀ e ∈ es, ¬(e.inum ≠ 0 ∧ e.name = name) := by
  have hnone : findEntry es name = none ↔
      es.findIdx? (fun e => e.inum ≠ 0 ∧ e.name = name) = none := by
    unfold findEntry
    cases hi : es.findIdx? (fun e => e.inum ≠ 0 ∧ e.name = name) with
    | none => simp
    | some i =>
      obtain ⟨hlt, -⟩ := List.findIdx?_eq_some_iff_getElem.mp hi
      simp [List.getElem?_eq_getElem hlt]
  rw [hnone, List.findIdx?_eq_none_iff]
  simp

/-- `dirlookup` in a loaded directory finds what the card has. -/
lemma dirlookup_spec (hs : Coherent s) (hdp : Loaded s dp) :
    Post (dirlookup dp name) s fun r t => (s.card dp).attrs.type = .dir ∧
      match r with
      | none => t = s ∧ findEntry (s.card dp).entries name = none
      | some (ip, off) => ∃ e, findEntry (s.card dp).entries name = some (e, off) ∧
          ip = ⟨dp.dev, e.inum⟩ ∧ Cached s t (at1 ip 1) ∧ Keeps s t := by
  refine .get ?_
  rw [hs.attrs_of_loaded hdp, if_neg (hs.card_type_ne dp)]
  split
  · next hdir =>
    split
    · next hnone => exact .pure ⟨hdir, rfl, hnone⟩
    · next e off hsome =>
      have htype : e.type ≠ .mount :=
        hs.entry_type_ne dp e (List.mem_of_getElem? (findEntry_some hsome).1)
      refine (iget_spec hs htype).step fun q t ht => .pure ⟨hdir, e, hsome, ?_⟩
      obtain ⟨rfl, hcached, hkeeps⟩ := ht
      exact ⟨rfl, hcached, hkeeps⟩
  · exact post_throw _

/-! ## The walk -/

/-- Every inode that a directory names has links. -/
def Linked (card : Card) : Prop :=
  ∀ d, (card d).attrs.type = .dir → ∀ e ∈ (card d).entries, e.inum ≠ 0 →
    (card ⟨d.dev, e.inum⟩).attrs.nlink ≠ 0

/-- The reference that comes with a result. -/
def gained (r : Option Ino) : Ino → Int := fun q => if r = some q then 1 else 0

variable {card : Card}

lemma entry_of_lookup {d : Ino} (hq : lookup card d name = some q) : (card d).attrs.type = .dir ∧
    ∃ e ∈ (card d).entries, e.inum ≠ 0 ∧ ⟨d.dev, e.inum⟩ = q := by
  unfold lookup at hq
  split at hq
  · next hdir =>
    obtain ⟨⟨e, off⟩, hfind, rfl⟩ := Option.map_eq_some_iff.mp hq
    obtain ⟨hget, hinum, -⟩ := findEntry_some hfind
    exact ⟨hdir, e, List.mem_of_getElem? hget, hinum, rfl⟩
  · cases hq

lemma lookup_linked (h : Linked card) {d : Ino} (hq : lookup card d name = some q) :
    (card q).attrs.nlink ≠ 0 ∧ q.dev = d.dev := by
  obtain ⟨hdir, e, he, hinum, rfl⟩ := entry_of_lookup hq
  exact ⟨h d hdir e he hinum, rfl⟩

/-- Without mounts the search is one lookup; a reference stays on the root directory. -/
lemma componentSearch_spec (hs : Coherent s) (hip : Loaded s ip)
    (hlink : (s.card ip).attrs.nlink ≠ 0) (n : Nat)
    : Post (componentSearch name (n + 1) ip) s fun r t =>
      match r with
      | none => lookup s.card ip name = none ∧ Cached s t (at1 ip (-1))
      | some (ip', next) => ip' = ip ∧ lookup s.card ip name = some next ∧ Loaded t ip ∧
          Cached s t fun q => at1 next 1 q + at1 ⟨ip.dev, rootino⟩ 1 q := by
  refine (dirlookup_spec hs hip).step ?_
  rintro r t ⟨hdir, ht⟩
  cases r with
  | none =>
    obtain ⟨rfl, hnone⟩ := ht
    refine (iunlockput_spec hs hlink).step fun _ u hu => .pure ⟨?_, hu.1⟩
    unfold lookup
    rw [if_pos hdir, hnone]
    rfl
  | some r => ?_
  obtain ⟨next, off⟩ := r
  obtain ⟨e, hfind, rfl, hcached, hkeeps⟩ := ht
  refine (iget_spec hcached.coherent (by simp)).step ?_
  rintro ir u ⟨rfl, hroot, hkeeps'⟩
  refine .get ?_
  rw [if_neg (by simp [hroot.coherent.isinoderoot])]
  refine .pure ⟨rfl, ?_, hkeeps' _ (hkeeps _ hip), hcached.cached hroot⟩
  unfold lookup
  rw [if_pos hdir, hfind]
  rfl

/-- What the walk returns. -/
def walkResult (parent : Bool) (card : Card) (d : Ino) (names : List Name) (name : Name) :
    Option (Ino × Name) :=
  if parent then resolveParent card d names
  else (resolve card d names).map fun q => (q, names.getLast?.getD name)

/-- The elements that the walk looks up. -/
def walked (parent : Bool) (names : List Name) : List Name :=
    if parent then names.dropLast else names

section

variable (parent : Bool) (d : Ino) (first : Name) (names : List Name)
include parent d first names

lemma walkResult_not_dir (hdir : (card d).attrs.type ≠ .dir) :
    walkResult parent card d (first :: names) name = none := by
  have hlookup : ∀ n, lookup card d n = none := fun n => if_neg hdir
  cases parent with
  | false => simp [walkResult, resolve, hlookup]
  | true => cases names <;> simp [walkResult, resolveParent, resolve, hlookup, hdir]

/-- A walk goes on from what the first name leads to. -/
lemma walkResult_cons (h : parent = true → names ≠ []) :
    walkResult parent card d (first :: names) name =
      (lookup card d first).bind fun q => walkResult parent card q names first := by
  cases parent with
  | false =>
    rcases hq : lookup card d first with - | q
    · simp [walkResult, resolve, hq]
    cases names with
    | nil => simp [walkResult, resolve, hq]
    | cons second names =>
      simp [walkResult, resolve, hq, List.getLast?_eq_some_getLast (List.cons_ne_nil second names)]
  | true =>
    obtain ⟨second, names, rfl⟩ := List.exists_cons_of_ne_nil (h rfl)
    cases hq : lookup card d first with
    | none => simp [walkResult, resolveParent, resolve, hq]
    | some q => simp [walkResult, resolveParent, resolve, hq]

/-- The number of directories that a walk passes. -/
lemma found_walked_cons (h : parent = true → names ≠ []) :
    found card d (walked parent (first :: names)) =
      match lookup card d first with
      | none => 0
      | some q => found card q (walked parent names) + 1 := by
  cases parent with
  | false => rfl
  | true =>
    obtain ⟨second, names, rfl⟩ := List.exists_cons_of_ne_nil (h rfl)
    rfl

lemma found_walked_not_dir (hdir : (card d).attrs.type ≠ .dir) :
    found card d (walked parent (first :: names)) = 0 := by
  have hlookup : ∀ n, lookup card d n = none := fun n => if_neg hdir
  cases parent with
  | false => simp [walked, found, hlookup]
  | true => cases names <;> simp [walked, found, hlookup]

end

lemma elementsIn_nil (n : Nat) : elementsIn n [] = [] := by
  cases n <;> rfl

/-- What is left after an element has an element, unless it is empty. -/
lemma elementsIn_rest_ne_nil {n : Nat} {path rest : List Char} {first : Name}
    (hskip : skipelem path = some (first, rest)) (hn : rest.length < n) (hrest : rest ≠ []) :
    elementsIn n rest ≠ [] := by
  obtain ⟨m, rfl⟩ : ∃ m, n = m + 1 := ⟨n - 1, by omega⟩
  unfold elementsIn
  split
  · next h => exact absurd ((skipelem_rest hskip).mp h) hrest
  · exact List.cons_ne_nil _ _

/-- What a walk over `names` from `ip` comes to: its result, and the references it moves. -/
structure Walked (parent : Bool) (s : Sys) (ip : Ino) (names : List Name) (name : Name)
    (r : Option (Ino × Name)) (t : Sys) : Prop where
  result : r = walkResult parent s.card ip names name
  loaded : parent = true → ∀ q name, r = some (q, name) → Loaded t q
  cached : Cached s t fun q => at1 ip (-1) q + gained (r.map Prod.fst) q +
    at1 ⟨ip.dev, rootino⟩ (found s.card ip (walked parent names)) q

section

variable {parent : Bool} {names : List Name} {first : Name} {r : Option (Ino × Name)} {w : Sys}

/-- The walk gives up the inode it is at. -/
lemma Walked.fails (hr : walkResult parent s.card ip names name = none)
    (hfound : found s.card ip (walked parent names) = 0) (h : Cached s t (at1 ip (-1))) :
    Walked parent s ip names name none t :=
  ⟨hr.symm, by simp, h.congr fun q => by simp [gained, hfound]⟩

/-- The walk ends at the inode it is at. -/
lemma Walked.stays {last : Name} (hr : walkResult parent s.card ip names name = some (ip, last))
    (hfound : found s.card ip (walked parent names) = 0) (hloaded : parent = true → Loaded t ip)
    (h : Cached s t fun _ => 0) : Walked parent s ip names name (some (ip, last)) t := by
  refine ⟨hr.symm, ?_, h.congr fun q => ?_⟩
  · rintro hparent q name ⟨⟩
    exact hloaded hparent
  · by_cases hq : q = ip
    · simp [gained, hfound, hq]
    · simp [gained, hfound, hq, Ne.symm hq]

/-- The walk goes on from the inode that an element leads to. -/
lemma Walked.next {next : Ino} (hnames : parent = true → names ≠ [])
    (hlookup : lookup s.card ip first = some next) (hdev : next.dev = ip.dev)
    (hw : Cached s w fun q => at1 next 1 q + at1 ⟨ip.dev, rootino⟩ 1 q + at1 ip (-1) q)
    (h : Walked parent w next names first r t) : Walked parent s ip (first :: names) name r t := by
  refine ⟨?_, h.loaded, (hw.cached h.cached).congr fun q => ?_⟩
  · rw [h.result, walkResult_cons _ _ _ _ hnames, hlookup, hw.card_eq]
    rfl
  · rw [found_walked_cons _ _ _ _ hnames, hlookup, hw.card_eq, hdev]
    simp only [at1]
    push_cast
    split_ifs <;> omega

end

/-- **The loop of `namex`**: the induction is on the rounds, which are more than the path has
characters. -/
lemma namexLoop_spec (parent : Bool) (n : Nat) (path : List Char) (hs : Coherent s)
    (hlinked : Linked s.card) (href : 0 < (s.icache ip).ref) (hlink : (s.card ip).attrs.nlink ≠ 0)
    (hn : path.length < n) : Post (namexLoop parent n ip path name) s
      (Walked parent s ip (elementsIn n path) name) := by
  induction n generalizing s ip path name with
  | zero => omega
  | succ n ih => ?_
  unfold namexLoop elementsIn
  cases hskip : skipelem path with
  | none =>
    cases parent with
    | true => exact (iput_spec hs href hlink).step fun _ t ht => .pure (.fails rfl rfl ht.1)
    | false => exact .pure (.stays rfl rfl (by simp) (Cached.refl hs))
  | some next =>
    obtain ⟨first, rest⟩ := next
    have hrest : rest.length < n := by
      have := skipelem_length hskip
      omega
    dsimp only
    refine (ilock_spec hs).step ?_
    rintro - t ⟨hcached, hloaded, -⟩
    have hlink' : (t.card ip).attrs.nlink ≠ 0 := by rwa [hcached.card_eq]
    refine .bind (.get (.pure ?_))
    rw [hcached.coherent.attrs_of_loaded hloaded, hcached.card_eq]
    split
    · next hdir =>
      exact (iunlockput_spec hcached.coherent hlink').step fun _ u hu =>
        .pure (.fails (walkResult_not_dir _ _ _ _ hdir) (found_walked_not_dir _ _ _ _ hdir)
          ((hcached.cached hu.1).congr fun q => by simp))
    next hdir =>
    rw [not_not] at hdir
    split
    · next hlast =>
      obtain ⟨rfl, rfl⟩ := hlast
      rw [elementsIn_nil]
      exact (iunlock_spec hcached.coherent).step fun _ u hu =>
        .pure (.stays (by simp [walkResult, resolveParent, resolve, hdir]) rfl
          (fun _ => hu.2.2.2.1 hloaded) ((hcached.cached hu.1).congr fun q => by simp))
    next hlast =>
    have hnames : parent = true → elementsIn n rest ≠ [] := fun hparent =>
      elementsIn_rest_ne_nil hskip hrest fun hnil => hlast ⟨hparent, hnil⟩
    refine (componentSearch_spec hcached.coherent hloaded hlink' _).step fun r u hu => ?_
    rw [hcached.card_eq] at hu
    rcases r with - | ⟨ip', next⟩
    · refine .pure (.fails ?_ ?_ ((hcached.cached hu.2).congr fun q => by simp))
      · rw [walkResult_cons _ _ _ _ hnames, hu.1]
        rfl
      · rw [found_walked_cons _ _ _ _ hnames, hu.1]
    obtain ⟨rfl, hlookup, -, hcached'⟩ := hu
    obtain ⟨hnext, hdev⟩ := lookup_linked hlinked hlookup
    refine (iunlockput_spec hcached'.coherent (by rwa [hcached'.card_eq])).step fun _ w hw => ?_
    have hsteps : Cached s w fun q => at1 next 1 q + at1 ⟨ip'.dev, rootino⟩ 1 q + at1 ip' (-1) q :=
      ((hcached.cached hcached').cached hw.1).congr fun q => by simp
    have href' : 0 < (w.icache next).ref := by
      have hnonneg := hs.ref_nonneg next
      rw [hsteps.ref_eq, at1_self]
      simp only [at1]
      by_cases hsame : next = ip'
      · rw [if_pos hsame, hsame]
        split <;> omega
      · rw [if_neg hsame]
        split <;> omega
    exact (ih rest hw.1.coherent (by rwa [hsteps.card_eq]) href' (by rwa [hsteps.card_eq])
      hrest).mono
      fun _ _ h => h.next hnames hlookup hdev hsteps

/-! ## Whole paths -/

/-- A state between calls in which no walk frees an inode. -/
structure Calm (s : Sys) : Prop where
  coherent : Coherent s
  linked : Linked s.card
  root_linked : (s.card ⟨rootdev, rootino⟩).attrs.nlink ≠ 0
  cwd_linked : (s.card s.me.cwd).attrs.nlink ≠ 0
  cwd_ref : 0 < (s.icache s.me.cwd).ref

/-- The references that a walk leaves on the root directory. -/
def Sys.leaks (s : Sys) (parent : Bool) (path : List Char) : Ino → Int :=
  at1 ⟨(s.start path).dev, rootino⟩ (found s.card (s.start path) (walked parent (elements path)))

lemma gained_nonneg (r : Option Ino) (q : Ino) : 0 ≤ gained r q := by
  unfold gained
  split <;> omega

lemma Sys.leaks_nonneg (parent : Bool) (path : List Char) (q : Ino) :
    0 ≤ s.leaks parent path q := by
  unfold Sys.leaks at1
  split <;> omega

/-- Taking references keeps the state calm. -/
lemma Calm.of_cached (hs : Calm s) (h : Cached s t δ) (hδ : ∀ q, 0 ≤ δ q) : Calm t where
  coherent := h.coherent
  linked := by
    rw [h.card_eq]
    exact hs.linked
  root_linked := by
    rw [h.card_eq]
    exact hs.root_linked
  cwd_linked := by
    rw [h.card_eq, h.me_eq]
    exact hs.cwd_linked
  cwd_ref := by
    rw [h.me_eq, h.ref_eq]
    have := hs.cwd_ref
    have := hδ s.me.cwd
    omega

/-- A whole walk is the fold over the names. -/
lemma namex_spec (hs : Calm s) (path : List Char) (parent : Bool) :
    Post (namex path parent) s fun r t =>
      r = walkResult parent s.card (s.start path) (elements path) [] ∧
        (parent = true → ∀ q name, r = some (q, name) → Loaded t q) ∧
        Cached s t fun q => gained (r.map Prod.fst) q + s.leaks parent path q := by
  -- the reference taken at the start is given up by the loop
  have hloop : ∀ {t : Sys}, Cached s t (at1 (s.start path) 1) →
    (s.card (s.start path)).attrs.nlink ≠ 0 →
      Post (namexLoop parent (path.length + 1) (s.start path) path []) t fun r u =>
        r = walkResult parent s.card (s.start path) (elements path) [] ∧
          (parent = true → ∀ q name, r = some (q, name) → Loaded u q) ∧
          Cached s u fun q => gained (r.map Prod.fst) q + s.leaks parent path q := by
    intro t ht hlink
    have href : 0 < (t.icache (s.start path)).ref := by
      rw [ht.ref_eq, at1_self]
      have := hs.coherent.ref_nonneg (s.start path)
      omega
    refine (namexLoop_spec parent (path.length + 1) path ht.coherent
      (by rw [ht.card_eq]; exact hs.linked) href
      (by rwa [ht.card_eq]) (by omega)).mono fun r u hu =>
        ⟨?_, hu.loaded, (ht.cached hu.cached).congr fun q => ?_⟩
    · rw [hu.result, ht.card_eq]
      rfl
    unfold Sys.leaks elements
    rw [ht.card_eq]
    simp only [at1]
    split_ifs <;> omega
  refine .get ?_
  split
  · next hslash =>
    have hstart : s.start path = ⟨rootdev, rootino⟩ := if_pos hslash
    refine (iget_spec hs.coherent (by simp)).step ?_
    rintro ip t ⟨rfl, hcached, -⟩
    rw [← hstart] at hcached ⊢
    exact hloop hcached (by rw [hstart]; exact hs.root_linked)
  · next hslash =>
    have hstart : s.start path = s.me.cwd := if_neg hslash
    refine (idup_spec hs.coherent hs.cwd_ref).step ?_
    rintro ip t ⟨rfl, hcached, -⟩
    rw [← hstart] at hcached ⊢
    exact hloop hcached (by rw [hstart]; exact hs.cwd_linked)

/-- **`namei` returns the inode of the path.** -/
theorem namei_spec (hs : Calm s) (path : List Char) : Post (namei path) s fun r t =>
    r = s.resolve path ∧ Cached s t fun q => gained r q + s.leaks false path q := by
  refine (namex_spec hs path false).step fun r t ht => .pure ⟨?_, ht.2.2⟩
  rw [ht.1]
  simp [walkResult, Sys.resolve, Function.comp_def]

/-- **`nameiparent` returns the directory of the path and its last element.** -/
theorem nameiparent_spec (hs : Calm s) (path : List Char) : Post (nameiparent path) s fun r t =>
    r = s.resolveParent path ∧ (∀ dp name, r = some (dp, name) → Loaded t dp) ∧
      Cached s t fun q => gained (r.map Prod.fst) q + s.leaks true path q :=
  (namex_spec hs path true).mono fun _ _ ht => ⟨ht.1, ht.2.1 rfl, ht.2.2⟩

end RpiOs.Vfs
