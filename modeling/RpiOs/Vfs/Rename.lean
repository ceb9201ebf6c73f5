import RpiOs.Vfs.Entries

/-!
# Renaming

`filerename` looks both paths up and then either renames an entry, or adds one and unlinks the old
path, or, if there is a target, makes its entry name the other inode and unlinks the *target*: what
was moved is gone again, and the old name stays.

* `renamed_iff_absent` (main): a call that returns 0 has moved the name exactly if there was no
  target, and the way to the new name does not lead through the old one.
-/

namespace RpiOs.Vfs

open Lib

/-! ## The steps -/

variable {s t : Sys} {dp ip : Ino} {δ : Ino → Int}

/-- What `renameFind` has found, and the references it holds. -/
structure Args (s t : Sys) (path1 path2 : List Char) (a : RenameArgs) : Prop where
  ip1 : s.resolve path1 = some a.ip1
  dn1 : a.dn1 = s.resolveParent path1
  ip2 : a.ip2 = s.resolve path2
  dn2 : a.dn2 = s.resolveParent path2
  loaded : ∀ dp name, a.dn2 = some (dp, name) → Loaded t dp
  cached : ∃ δ, (∀ q, at1 a.ip1 1 q + gained (a.dn1.map Prod.fst) q + gained a.ip2 q +
    gained (a.dn2.map Prod.fst) q ≤ δ q) ∧ Cached s t δ

/-- What `filerename` looks up before it changes anything. -/
lemma renameFind_spec (hs : Calm s) (path1 path2 : List Char) :
    Post (renameFind path1 path2) s fun r t => (r = none → s.resolve path1 = none) ∧
      ∀ a, r = some a → Args s t path1 path2 a := by
  refine (beginOp_spec hs.coherent).step fun _ t ht => ?_
  have hcalm : Calm t := hs.of_cached ht fun _ => le_refl 0
  refine (namei_spec hcalm path1).step fun r u hu => ?_
  rw [ht.resolve_eq, ht.leaks_eq] at hu
  have h1 : Cached s u _ := ht.cached hu.2
  rcases r with - | ip1
  · exact (endOp_spec h1.coherent).step fun _ w hw => .pure ⟨fun _ => hu.1.symm, nofun⟩
  have hnonneg : ∀ (r : Option Ino) (parent : Bool) (path : List Char) (q : Ino),
      0 ≤ gained r q + s.leaks parent path q := fun r parent path q =>
    Int.add_nonneg (gained_nonneg r q) (s.leaks_nonneg parent path q)
  have hcalm1 : Calm u := hs.of_cached h1 fun q => by simpa using hnonneg (some ip1) false path1 q
  refine (nameiparent_spec hcalm1 path1).step fun dn1 w hw => ?_
  rw [h1.resolveParent_eq, h1.leaks_eq] at hw
  have h2 : Cached s w _ := h1.cached hw.2.2
  have hcalm2 : Calm w := hcalm1.of_cached hw.2.2 (hnonneg _ true path1)
  refine (namei_spec hcalm2 path2).step fun ip2 x hx => ?_
  rw [h2.resolve_eq, h2.leaks_eq] at hx
  have h3 : Cached s x _ := h2.cached hx.2
  have hcalm3 : Calm x := hcalm2.of_cached hx.2 (hnonneg _ false path2)
  refine (nameiparent_spec hcalm3 path2).step fun dn2 y hy => .pure ⟨nofun, ?_⟩
  rw [h3.resolveParent_eq, h3.leaks_eq] at hy
  rintro _ ⟨⟩
  refine ⟨hu.1.symm, hw.1, hx.1, hy.1, hy.2.1, _, fun q => ?_, h3.cached hy.2.2⟩
  have l1 := s.leaks_nonneg false path1 q
  have l2 := s.leaks_nonneg true path1 q
  have l3 := s.leaks_nonneg false path2 q
  have l4 := s.leaks_nonneg true path2 q
  simp only [gained_some]
  omega

lemma iupdate_loaded (hs : Coherent t) (h : t.icache = s.icache) (hip : Loaded s ip) :
    Post (iupdate ip) t fun _ u => u = t := by
  refine iupdate_same (hs.attrs_of_loaded ?_)
  unfold Loaded
  rwa [h]

/-- Renaming inside a directory overwrites the entry. -/
lemma rename_spec (hs : Coherent s) (hlinked : Linked s.card) (hdp : (s.card dp).attrs.nlink ≠ 0)
    (name1 name2 : Name) : Post (rename dp name1 name2) s fun r t => r.toBool = true →
      ∃ e off, (s.card dp).attrs.type = .dir ∧ findEntry (s.card dp).entries name1 = some (e, off) ∧
        Effect s t (s.card.setEntry dp off ⟨e.inum, (s.card ⟨dp.dev, e.inum⟩).attrs.type, name2⟩)
          (at1 dp (-1)) := by
  refine (ilock_spec hs).step fun _ t ht => ?_
  refine (dirlookup_spec ht.1.coherent ht.2.1).step ?_
  rintro r u ⟨hdir, hu⟩
  rw [ht.1.card_eq] at hdir hu
  rcases r with - | r
  · exact .pure nofun
  obtain ⟨ip, off⟩ := r
  obtain ⟨e, hfind, hip, hget, hkeeps⟩ := hu
  have hlink : (s.card ip).attrs.nlink ≠ 0 := by
    obtain ⟨hmem, hinum, -⟩ := findEntry_some hfind
    rw [hip]
    exact hlinked dp hdir e (List.mem_of_getElem? hmem) hinum
  refine (ilock_spec hget.coherent).step fun _ w hw => ?_
  have hlock : Cached s w (at1 ip 1) :=
    ((ht.1.cached hget).cached hw.1).congr fun q => by simp
  have hloaded : Loaded w dp := hw.2.2.keeps (fun _ => hw.2.1) dp (hkeeps dp ht.2.1)
  refine .bind (.get (.pure ?_))
  rw [hlock.coherent.attrs_of_loaded hw.2.1, hlock.card_eq]
  refine (writeEntry_spec hlock.coherent hloaded off (hs.card_type_ne ip)).step fun _ x hx => ?_
  rw [hlock.card_eq] at hx
  have hwrite := hlock.trans hx.1
  refine (iupdate_loaded hwrite.coherent hx.2 hloaded).step ?_
  rintro _ _ rfl
  refine (iupdate_loaded hwrite.coherent hx.2 hw.2.1).step ?_
  rintro _ _ rfl
  refine (iunlockput_spec hwrite.coherent ?_).step fun _ z hz => ?_
  · rwa [hwrite.card_eq, Card.setEntry_attrs]
  have hput := hwrite.cached hz.1
  refine (iunlockput_spec hput.coherent ?_).step fun _ a ha => .pure fun _ => ?_
  · rwa [hput.card_eq, Card.setEntry_attrs]
  refine ⟨e, off, hdir, hfind, ?_⟩
  have hall := hput.cached ha.1
  rw [hip] at hall
  refine hall.congr fun q => ?_
  simp only [at1]
  split_ifs <;> omega

/-- The search for an inode number in a directory. -/
lemma direntlookup_spec (hs : Coherent s) (hdp : Loaded s dp) (inum : Nat) :
    Post (direntlookup dp inum) s fun r t => t = s ∧ (s.card dp).attrs.type = .dir ∧
      ∀ de off, r = some (de, off) → (s.card dp).entries[off]? = some de ∧ de.inum = inum := by
  refine .get ?_
  rw [hs.attrs_of_loaded hdp]
  split
  · next hdir =>
    refine .pure ⟨rfl, hdir, fun de off h => ?_⟩
    obtain ⟨i, hi, h⟩ := Option.bind_eq_some_iff.mp h
    obtain ⟨e, he, heq⟩ := Option.map_eq_some_iff.mp h
    cases heq
    obtain ⟨hlt, hinum, -⟩ := List.findIdx?_eq_some_iff_getElem.mp hi
    refine ⟨he, ?_⟩
    rw [List.getElem?_eq_getElem hlt] at he
    rw [← Option.some.inj he]
    simpa using hinum
  · exact post_throw _

/-- The first entry for the old inode names the new one; the type that was read stays known. -/
lemma reinode_spec {oldIp newIp : Ino} (hs : Coherent s) (hdp : (s.card dp).attrs.nlink ≠ 0)
    (hold : (s.card oldIp).attrs.nlink ≠ 0) (hnew : (s.card newIp).attrs.nlink ≠ 0) :
    Post (reinode dp oldIp newIp) s fun r t => r.toBool = true →
      ∃ de off, (s.card dp).attrs.type = .dir ∧ (s.card dp).entries[off]? = some de ∧
        de.inum = oldIp.inum ∧ (t.icache oldIp).attrs.type = (s.card oldIp).attrs.type ∧
        Effect s t (s.card.setEntry dp off { de with inum := newIp.inum })
          fun q => at1 oldIp (-1) q + at1 newIp (-1) q + at1 dp (-1) q := by
  refine (ilock_spec hs).step fun _ t ht => ?_
  refine (ilock_spec ht.1.coherent).step fun _ u hu => ?_
  refine (ilock_spec hu.1.coherent).step fun _ w hw => ?_
  have hlock : Cached s w fun _ => 0 := ((ht.1.cached hu.1).cached hw.1).congr fun q => by simp
  have hkeeps := hw.2.2.keeps fun _ => hw.2.1
  have hloadedDp : Loaded w dp := hkeeps dp (hu.2.2.keeps (fun _ => hu.2.1) dp ht.2.1)
  have hloadedOld : Loaded w oldIp := hkeeps oldIp hu.2.1
  refine (direntlookup_spec hlock.coherent hloadedDp oldIp.inum).step ?_
  rintro r x ⟨rfl, hdir, hfound⟩
  rw [hlock.card_eq] at hdir hfound
  rcases r with - | r
  · exact .pure nofun
  obtain ⟨de, off⟩ := r
  obtain ⟨hget, hinum⟩ := hfound de off rfl
  have htype : ({ de with inum := newIp.inum } : Dirent).type ≠ .mount :=
    hs.entry_type_ne dp de (List.mem_of_getElem? hget)
  refine (writeEntry_spec hlock.coherent hloadedDp off htype).step fun _ y hy => ?_
  rw [hlock.card_eq] at hy
  have hwrite := hlock.trans hy.1
  refine (iupdate_loaded hwrite.coherent hy.2 hloadedDp).step ?_
  rintro _ _ rfl
  refine (iupdate_loaded hwrite.coherent hy.2 hloadedOld).step ?_
  rintro _ _ rfl
  refine (iupdate_loaded hwrite.coherent hy.2 hw.2.1).step ?_
  rintro _ z rfl
  -- giving an inode back keeps what was read of it
  have hput : ∀ (q : Ino) (a : Sys), Coherent a → (a.card q).attrs.nlink ≠ 0 →
      Post (iunlockput q) a fun _ b => Cached a b (at1 q (-1)) ∧
        (b.icache oldIp).attrs = (a.icache oldIp).attrs := by
    intro q a ha hlink
    refine (iunlockput_spec ha hlink).mono fun _ b hb => ⟨hb.1, ?_⟩
    by_cases hq : oldIp = q
    · rw [hq]
      exact hb.2.2
    · rw [hb.2.1 oldIp hq]
  refine (hput oldIp z hwrite.coherent (by rwa [hwrite.card_eq, Card.setEntry_attrs])).step
    fun _ a ha => ?_
  have h1 := hwrite.cached ha.1
  refine (hput newIp a h1.coherent (by rwa [h1.card_eq, Card.setEntry_attrs])).step fun _ b hb => ?_
  have h2 := h1.cached hb.1
  refine (hput dp b h2.coherent (by rwa [h2.card_eq, Card.setEntry_attrs])).step fun _ c hc =>
    .pure fun _ => ⟨de, off, hdir, hget, hinum, ?_, ?_⟩
  · rw [hc.2, hb.2, ha.2, hy.2, hlock.coherent.attrs_of_loaded hloadedOld, hlock.card_eq]
  · exact (h2.cached hc.1).congr fun q => by simp

/-! ## A name that is moved -/

/-- The names that a path looks up. -/
def Sys.way (s : Sys) (path : List Char) : List (Ino × Name) :=
    Vfs.way s.card (s.start path) (elements path)

/-- The new path leads to the inode, the old one nowhere, and every path that uses neither of the
two names to where it did. -/
structure Moved (s t : Sys) (path1 path2 : List Char) (ip : Ino) : Prop where
  new : t.resolve path2 = some ip
  old : t.resolve path1 = none
  others : ∀ path, (∀ dn ∈ s.resolveParent path1, dn ∉ s.way path) →
    (∀ dn ∈ s.resolveParent path2, dn ∉ s.way path) → t.resolve path = s.resolve path

/-- A state between calls whose paths all lead to inodes of the root device. -/
structure Rooted (s : Sys) : Prop where
  calm : Calm s
  cwd_dev : s.me.cwd.dev = rootdev

/-- A directory tree: the kernel's own rules, and no name twice. -/
structure Tree (s : Sys) : Prop extends Rooted s where
  small : ∀ p, (s.card p).attrs.nlink < 65536
  unique : ∀ d, (s.card d).attrs.type = .dir → Unique (s.card d).entries
  /-- a directory has a link for each directory in it, and one more -/
  children : ∀ d, (s.card d).attrs.type = .dir → ∀ e ∈ (s.card d).entries, e.inum ≠ 0 →
    ¬(e.name = dot ∨ e.name = dotdot) → (s.card ⟨d.dev, e.inum⟩).attrs.type = .dir →
    2 ≤ (s.card d).attrs.nlink

variable {path1 path2 : List Char} {dn1 dn2 : Ino × Name} {off : Nat} {e : Dirent} {c : Card}
  {names : List Name} {path : List Char} {name : Name} {a : RenameArgs}

/-- One name is taken away and another one given. -/
def MovesName (c c' : Card) (dn1 dn2 : Ino × Name) (ip : Ino) : Prop :=
  ∀ d n, lookup c' d n = if (d, n) = dn1 then none else if (d, n) =
    dn2 then some ip else lookup c d n

lemma lookup_last (hdn : s.resolveParent path = some (dp, name)) :
    lookup s.card dp name = s.resolve path := by
  obtain ⟨hnames, hdp, -⟩ := resolveParent_split hdn
  unfold Sys.resolve
  rw [hnames, resolve_append, hdp]
  simp [resolve]

/-- **From names to paths.** -/
lemma moved_iff (hme : t.me = s.me) (h1 : s.resolve path1 = some ip)
    (hdn1 : s.resolveParent path1 = some dn1) (hdn2 : s.resolveParent path2 = some dn2)
    (h2 : s.resolve path2 = none) (hmoves : MovesName s.card t.card dn1 dn2 ip) :
    Moved s t path1 path2 ip ↔ dn1 ∉ Vfs.way s.card (s.start path2) (elements path2).dropLast := by
  obtain ⟨dp1, name1⟩ := dn1
  obtain ⟨dp2, name2⟩ := dn2
  obtain ⟨hnames1, hdp1, -⟩ := resolveParent_split hdn1
  obtain ⟨hnames2, hdp2, -⟩ := resolveParent_split hdn2
  have hstart : ∀ path, t.start path = s.start path := by
    intro path
    unfold Sys.start
    rw [hme]
  have hfound1 := (lookup_last hdn1).trans h1
  have hfound2 := (lookup_last hdn2).trans h2
  have hne : (dp1, name1) ≠ (dp2, name2) := by
    rintro ⟨⟩
    rw [hfound1] at hfound2
    cases hfound2
  -- away from the two names nothing changes, and a path that resolves does not use the second
  have hother : ∀ x : Ino × Name, x ≠ (dp1, name1) → x ≠ (dp2, name2) →
      lookup t.card x.1 x.2 = lookup s.card x.1 x.2 := by
    intro x hx1 hx2
    rw [hmoves, if_neg hx1, if_neg hx2]
  have hgone : lookup t.card dp1 name1 = none := by
    rw [hmoves, if_pos rfl]
  have hnew : lookup t.card dp2 name2 = some ip := by
    rw [hmoves, if_neg hne.symm, if_pos rfl]
  have hresolved : ∀ {d q : Ino} {names : List Name}, resolve s.card d names = some q →
      ∀ x ∈ Vfs.way s.card d names, x ≠ (dp2, name2) := by
    rintro d q names hq x hx rfl
    exact lookup_ne_none_of_way hq hx hfound2
  have hsub : ∀ {d q : Ino} {names : List Name}, resolve s.card d names = some q →
      ∀ x ∈ Vfs.way s.card d names, lookup t.card x.1 x.2 = none ∨
        lookup t.card x.1 x.2 = lookup s.card x.1 x.2 := by
    intro d q names hq x hx
    by_cases hx1 : x = (dp1, name1)
    · left
      rw [hx1, hgone]
    · right
      exact hother x hx1 (hresolved hq x hx)
  have hpath2 : t.resolve path2 = (resolve t.card (s.start path2) (elements path2).dropLast).bind
    fun q =>
      lookup t.card q name2 := by
    unfold Sys.resolve
    rw [hstart]
    conv_lhs => rw [hnames2, resolve_append]
    refine Option.bind_congr fun q _ => ?_
    show (lookup t.card q name2).bind _ = _
    cases lookup t.card q name2 <;> rfl
  constructor
  · intro hmoved hmem
    have hnone : resolve t.card (s.start path2) (elements path2).dropLast = none :=
      resolve_eq_none hmem hgone (hsub hdp2)
    have hnew' := hmoved.new
    rw [hpath2, hnone] at hnew'
    cases hnew'
  intro hmem
  refine ⟨?_, ?_, fun path hpath1 hpath2 => ?_⟩
  · rw [hpath2, resolve_of_avoids fun x hx =>
      hother x (fun h => hmem (h ▸ hx)) (hresolved hdp2 x hx), hdp2]
    exact hnew
  · unfold Sys.resolve
    rw [hstart]
    refine resolve_eq_none (x := (dp1, name1)) ?_ hgone (hsub h1)
    have hlast := last_mem_way hdp1 name1
    rwa [← hnames1] at hlast
  unfold Sys.resolve
  rw [hstart]
  refine resolve_of_avoids fun x hx => hother x ?_ ?_
  · rintro rfl
    exact hpath1 _ hdn1 hx
  · rintro rfl
    exact hpath2 _ hdn2 hx

/-- After a `fileunlink` that succeeds the path leads nowhere. -/
lemma fileunlink_gone (hs : Calm s) (path : List Char) (removedir : Bool)
    (hlt : ∀ p, (s.card p).attrs.nlink < 65536)
    (hunique : ∀ d, (s.card d).attrs.type = .dir → Unique (s.card d).entries)
    (hparent : ∀ dp ip off name e, Target s path dp ip off name e → Removable s.card ip removedir →
      KeepsParent s.card dp ip) :
    Post (fileunlink path removedir) s fun r t => r.toBool = true → t.resolve path = none := by
  refine (fileunlink_spec hs path removedir hlt hparent).mono fun r t ht hok => ?_
  cases r with
  | error e => cases hok
  | ok _ => ?_
  obtain ⟨dp, ip, off, name, e, htarget, -, -, heffect⟩ := ht
  obtain ⟨hnames, hdp, hdir⟩ := resolveParent_split htarget.parent
  have hunlinked := lookup_unlinked (hunique dp hdir) hdir htarget.entry ip
  have hlookup : ∀ d n, lookup t.card d n = none ∨
      lookup t.card d n = if d = dp ∧ n = name then none else lookup s.card d n := by
    intro d n
    rw [heffect.card_eq]
    split
    · rw [lookup_free]
      split
      · exact .inl rfl
      · exact .inr (hunlinked d n)
    · exact .inr (hunlinked d n)
  unfold Sys.resolve Sys.start
  rw [heffect.me_eq]
  refine @resolve_eq_none _ s.card _ _ (dp, name) ?_ ?_ fun y _ => ?_
  · have hlast := last_mem_way hdp name
    rwa [← hnames] at hlast
  · rcases hlookup dp name with h | h
    · exact h
    · rwa [if_pos ⟨rfl, rfl⟩] at h
  rcases hlookup y.1 y.2 with h | h
  · exact .inl h
  split at h
  · exact .inl h
  · exact .inr h

/-- A new entry for an inode with links keeps the state calm. -/
lemma Calm.of_setEntry {d : Ino} (hs : Calm s)
    (h : Effect s t (s.card.setEntry d off e) δ)
    (he : e.inum ≠ 0 → (s.card ⟨d.dev, e.inum⟩).attrs.nlink ≠ 0) (hδ : 0 ≤ δ s.me.cwd) :
    Calm t := by
  refine ⟨h.coherent, ?_, ?_, ?_, ?_⟩
  · rw [h.card_eq]
    intro d' hd' e' he' hinum
    rw [Card.setEntry_attrs] at hd' ⊢
    by_cases hd : d' = d
    · subst hd
      rw [Card.setEntry_self] at he'
      rcases putEntry_mem he' with he' | rfl
      · exact hs.linked d' hd' e' he' hinum
      · exact he hinum
    · rw [Card.setEntry_of_ne hd] at he'
      exact hs.linked d' hd' e' he' hinum
  · rw [h.card_eq, Card.setEntry_attrs]
    exact hs.root_linked
  · rw [h.card_eq, h.me_eq, Card.setEntry_attrs]
    exact hs.cwd_linked
  · rw [h.me_eq, h.ref_eq]
    have := hs.cwd_ref
    omega

/-- A fresh name keeps the names of all directories unique. -/
lemma unique_setEntry {d : Ino}
    (hunique : ∀ d, (c d).attrs.type = .dir → Unique (c d).entries)
    (hoff : off ≤ (c d).entries.length) (hnew : Fresh (c d).entries off e) :
    ∀ d', (c.setEntry d off e d').attrs.type = .dir → Unique (c.setEntry d off e d').entries := by
  intro d' hd'
  rw [Card.setEntry_attrs] at hd'
  by_cases hd : d' = d
  · subst hd
    rw [Card.setEntry_self]
    exact (hunique d' hd').put hoff hnew
  · rw [Card.setEntry_of_ne hd]
    exact hunique d' hd'

lemma resolve_dev (h : Linked c) {d q : Ino} (hq : resolve c d names = some q) : q.dev = d.dev := by
  induction names generalizing d with
  | nil =>
    cases hq
    rfl
  | cons name names ih =>
    obtain ⟨d', hd', hq'⟩ := Option.bind_eq_some_iff.mp hq
    rw [ih hq', (lookup_linked h hd').2]

lemma Rooted.start_dev (hs : Rooted s) (path : List Char) : (s.start path).dev = rootdev := by
  unfold Sys.start
  split
  · rfl
  · exact hs.cwd_dev

/-- All paths lead to inodes of one device. -/
lemma Rooted.inode_eq (hs : Rooted s) (h : s.resolve path1 = some ip)
    (hdn : s.resolveParent path2 = some dn2) :
    (⟨dn2.1.dev, ip.inum⟩ : Ino) = ip := by
  rw [resolve_dev hs.calm.linked (resolveParent_split hdn).2.1, hs.start_dev, ← hs.start_dev path1,
    ← resolve_dev hs.calm.linked h]

lemma Tree.keepsParent (hs : Tree s) (hdir : (s.card dp).attrs.type = .dir)
    (hlink : (s.card dp).attrs.nlink ≠ 0) (he : e ∈ (s.card dp).entries) (hinum : e.inum ≠ 0)
    (hdots : ¬(e.name = dot ∨ e.name = dotdot)) : KeepsParent s.card dp ⟨dp.dev, e.inum⟩ := by
  refine ⟨hlink, fun htype => ?_⟩
  have htwo := hs.children dp hdir e he hinum hdots htype
  rw [decLink_nlink hlink (hs.small dp)]
  omega

lemma inum_ne_zero_of_resolve (h : s.resolve path = some ip)
    (hdn : s.resolveParent path = some (dp, name)) : ip.inum ≠ 0 := by
  obtain ⟨-, e, -, hinum, rfl⟩ := entry_of_lookup ((lookup_last hdn).trans h)
  exact hinum

/-- **In the same directory, without a target, the name is moved.** -/
lemma renameHere_moves (hs : Tree s) (ha : Args s t path1 path2 a)
    (hsame : a.dn1.map Prod.fst = a.dn2.map Prod.fst) (hip2 : s.resolve path2 = none) :
    Post (renameHere a) t fun r u => r.toBool = true → ∃ dn1 dn2, s.resolveParent path1 = some dn1 ∧
      s.resolveParent path2 = some dn2 ∧ u.me = s.me ∧ MovesName s.card u.card dn1 dn2 a.ip1 := by
  obtain ⟨δ, -, hcached⟩ := ha.cached
  unfold renameHere
  rcases hdn1 : a.dn1 with - | dn1
  · exact .bind (post_throw _)
  rcases hdn2 : a.dn2 with - | dn2
  · rw [hdn1, hdn2] at hsame; cases hsame
  obtain ⟨dp, name1⟩ := dn1
  obtain ⟨dp', name2⟩ := dn2
  have hdp : dp = dp' := by
    rw [hdn1, hdn2] at hsame
    exact Option.some.inj hsame
  subst hdp
  have hpar1 : s.resolveParent path1 = some (dp, name1) := ha.dn1.symm.trans hdn1
  have hpar2 : s.resolveParent path2 = some (dp, name2) := ha.dn2.symm.trans hdn2
  obtain ⟨hdir, hlink⟩ := hs.calm.resolveParent_dir hpar1
  refine .bind (.pure (.bind (.pure ?_)))
  refine (rename_spec hcached.coherent (by rw [hcached.card_eq]; exact hs.calm.linked)
    (by rwa [hcached.card_eq]) name1 name2).step fun r u hu => ?_
  refine post_of_run fun _ w hw => .pure fun hok => ?_
  obtain ⟨e, off, -, hfind, heffect⟩ := hu hok
  rw [hcached.card_eq] at hfind heffect
  have hend := hcached.trans (heffect.cached (endOp_spec heffect.coherent _ w hw))
  have hfree : findEntry (s.card dp).entries name2 = none := by
    have hnone := (lookup_last hpar2).trans hip2
    rw [lookup_dir hdir] at hnone
    simpa using hnone
  have hinode : (⟨dp.dev, e.inum⟩ : Ino) = a.ip1 := by
    have hsome := (lookup_last hpar1).trans ha.ip1
    rw [lookup_dir hdir, hfind] at hsome
    exact Option.some.inj hsome
  refine ⟨_, _, hpar1, hpar2, hend.me_eq, fun d n => ?_⟩
  rw [hend.card_eq, lookup_rename (hs.unique dp hdir) hdir _ hfind hfree, hinode]
  simp only [Prod.mk.injEq]

/-- A path that resolves is empty or has a parent. -/
lemma resolveParent_some {d q : Ino} (h : resolve c d names = some q) :
    names = [] ∨ ∃ dp name, resolveParent c d names = some (dp, name) := by
  rcases List.eq_nil_or_concat names with rfl | ⟨first, last, rfl⟩
  · exact .inl rfl
  right
  rw [List.concat_eq_append, resolve_append] at h
  obtain ⟨dp, hdp, hlast⟩ := Option.bind_eq_some_iff.mp h
  obtain ⟨q', hq', -⟩ := Option.bind_eq_some_iff.mp hlast
  refine ⟨dp, last, ?_⟩
  unfold resolveParent
  simp [hdp, (entry_of_lookup hq').1]

/-- A name that was free does not lead to the parent of a path that resolves. -/
lemma resolveParent_setEntry {d q : Ino}
    (h : resolve c d names = some q) (hfree : lookup c dp name = none)
    (hnew : ∀ x : Ino × Name, x ≠ (dp, name) →
    lookup (c.setEntry dp off e) x.1 x.2 = lookup c x.1 x.2) :
    resolveParent (c.setEntry dp off e) d names = resolveParent c d names := by
  unfold resolveParent
  refine Option.bind_congr fun last hlast => ?_
  have hnames : names = names.dropLast ++ [last] := (List.dropLast_append_getLast? last hlast).symm
  rw [hnames, resolve_append] at h
  obtain ⟨q', hq', -⟩ := Option.bind_eq_some_iff.mp h
  rw [resolve_of_avoids fun x hx => hnew x fun hx' => lookup_ne_none_of_way hq' hx (hx' ▸ hfree)]
  simp only [Card.setEntry_attrs]

/-- Without a target: a link under the new name. -/
lemma renameLink_spec (hs : Coherent t) (href : 0 < (t.icache a.ip1).ref)
    (hloaded : ∀ dp name, a.dn2 = some (dp, name) → Loaded t dp) :
    Post (renameLink a) t fun r u => ∀ removedir, r = .ok removedir →
      ∃ dp name type, a.dn2 = some (dp, name) ∧
      (t.card dp).attrs.type = .dir ∧ findEntry (t.card dp).entries name = none ∧
      Effect t u (t.card.setEntry dp (freeEntry (t.card dp).entries) ⟨a.ip1.inum, type, name⟩)
        fun _ => 0 := by
  unfold renameLink
  rcases hdn2 : a.dn2 with - | dn2
  · exact .bind (post_throw _)
  obtain ⟨dp, name⟩ := dn2
  refine .bind (.pure ?_)
  refine .bind (.get (.pure ?_))
  refine (dirlink_spec hs (hloaded dp name hdn2) a.ip1.inum (hs.type_ne a.ip1 href)).step
    fun r u hu => ?_
  refine post_of_run fun _ w hw => ?_
  refine .bind (.bind (.get (.pure
    (.pure (.pure fun removedir hok => ?_)))))
  cases r with
  | error e => cases hok
  | ok _ =>
    obtain ⟨hdir, hfree, heffect⟩ := hu rfl
    exact ⟨dp, name, _, rfl, hdir, hfree,
      (heffect.cached (endOp_spec heffect.coherent _ w hw)).congr fun q => by simp⟩

lemma Args.holds (ha : Args s t path1 path2 a) : ∃ δ, Cached s t δ ∧ ∀ q, at1 a.ip1 1 q ≤ δ q := by
  obtain ⟨δ, hδ, hcached⟩ := ha.cached
  refine ⟨δ, hcached, fun q => ?_⟩
  have h1 := gained_nonneg (a.dn1.map Prod.fst) q
  have h2 := gained_nonneg a.ip2 q
  have h3 := gained_nonneg (a.dn2.map Prod.fst) q
  have := hδ q
  omega

lemma Args.ref_pos (hs : Calm s) (ha : Args s t path1 path2 a) : 0 < (t.icache a.ip1).ref := by
  obtain ⟨δ, hcached, hδ⟩ := ha.holds
  have hheld := hδ a.ip1
  have href := hs.coherent.ref_nonneg a.ip1
  rw [at1_self] at hheld
  rw [hcached.ref_eq]
  omega

/-- The new name leads to an inode that has links. -/
lemma Args.calm (hs : Rooted s) (ha : Args s t path1 path2 a) {u : Sys}
    (hpar2 : s.resolveParent path2 = some (dp, name)) (he : e.inum = a.ip1.inum)
    (hall : Effect s u (s.card.setEntry dp off e) δ) (hδ : 0 ≤ δ s.me.cwd) : Calm u := by
  refine hs.calm.of_setEntry hall (fun _ => ?_) hδ
  rw [he, hs.inode_eq ha.ip1 hpar2]
  exact hs.calm.resolve_linked ha.ip1

lemma renameLink_calm (hs : Rooted s) (ha : Args s t path1 path2 a) :
    Post (renameLink a) t fun r u => ∀ removedir, r = .ok removedir → Calm u := by
  obtain ⟨δ, hcached, hδ⟩ := ha.holds
  refine (renameLink_spec hcached.coherent (ha.ref_pos hs.calm) ha.loaded).mono
    fun r u hu removedir hok => ?_
  obtain ⟨dp2, name2, type, hdn2, -, -, hadd⟩ := hu removedir hok
  rw [hcached.card_eq] at hadd
  have hcwd := (gained_nonneg (some a.ip1) s.me.cwd).trans (by simpa using hδ s.me.cwd)
  exact ha.calm hs (ha.dn2.symm.trans hdn2) rfl (hcached.trans hadd) (by simpa using hcwd)

/-- **Into another directory, without a target, the name is moved.** -/
lemma renameLink_moves (hs : Tree s) (ha : Args s t path1 path2 a)
    (hother : a.dn1.map Prod.fst ≠ a.dn2.map Prod.fst) (hip2 : s.resolve path2 = none) :
    Post (thenUnlink (renameLink a) path1) t fun r u => r.toBool = true → ∃ dn1 dn2,
      s.resolveParent path1 = some dn1 ∧ s.resolveParent path2 = some dn2 ∧ u.me = s.me ∧
      MovesName s.card u.card dn1 dn2 a.ip1 := by
  obtain ⟨δ, hcached, hδ⟩ := ha.holds
  refine ((renameLink_spec hcached.coherent (ha.ref_pos hs.calm) ha.loaded).and
    (renameLink_calm hs.toRooted ha)).step ?_
  rintro r u ⟨hu, hcalm⟩
  cases r with
  | error e => exact .pure nofun
  | ok removedir =>
  replace hcalm := hcalm removedir rfl
  obtain ⟨dp2, name2, type, hdn2, hdir2, hfree, hadd⟩ := hu removedir rfl
  rw [hcached.card_eq] at hdir2 hfree hadd
  have hpar2 : s.resolveParent path2 = some (dp2, name2) := ha.dn2.symm.trans hdn2
  have hall := hcached.trans hadd
  have hip : (⟨dp2.dev, a.ip1.inum⟩ : Ino) = a.ip1 := hs.inode_eq ha.ip1 hpar2
  have hpath : elements path1 = [] ∨ u.resolveParent path1 = s.resolveParent path1 := by
    rcases resolveParent_some ha.ip1 with hnil | ⟨dp1, name1, hpar1⟩
    · exact .inl hnil
    right
    unfold Sys.resolveParent Sys.start
    rw [hall.me_eq, hall.card_eq]
    refine resolveParent_setEntry ha.ip1 ((lookup_last hpar2).trans hip2) fun x hx => ?_
    rw [lookup_add (hs.unique dp2 hdir2) hdir2 type (inum_ne_zero_of_resolve ha.ip1 hpar1) hfree,
      if_neg fun h => hx (Prod.ext h.1 h.2)]
  have htarget : ∀ dp ip off name e, Target u path1 dp ip off name e → dp ≠ dp2 ∧
      Target s path1 dp ip off name e := by
    intro dp ip off name e htarget
    have hpar1 : s.resolveParent path1 = some (dp, name) := by
      rcases hpath with h | h
      · have hpar := htarget.parent
        unfold Sys.resolveParent at hpar
        rw [h] at hpar
        cases hpar
      · exact h.symm.trans htarget.parent
    have hne : dp ≠ dp2 := by
      rintro rfl
      rw [ha.dn1, hpar1, hdn2] at hother
      exact hother rfl
    have hentry := htarget.entry
    rw [hall.card_eq, Card.setEntry_of_ne hne] at hentry
    exact ⟨hne, hpar1, htarget.not_dots, hentry, htarget.inode⟩
  refine (fileunlink_spec hcalm path1 removedir ?_ ?_).mono fun r w hw hok => ?_
  · intro p
    rw [hall.card_eq, Card.setEntry_attrs]
    exact hs.small p
  · intro dp ip off name e h _
    obtain ⟨-, h⟩ := htarget dp ip off name e h
    obtain ⟨hdir, hlink⟩ := hs.calm.resolveParent_dir h.parent
    obtain ⟨hget, hinum, hname, -⟩ := findEntry_some h.entry
    have hkeeps := hs.keepsParent hdir hlink (List.mem_of_getElem? hget) hinum (hname ▸ h.not_dots)
    rw [← h.inode] at hkeeps
    unfold KeepsParent at hkeeps ⊢
    rw [hall.card_eq, Card.setEntry_attrs, Card.setEntry_attrs]
    exact hkeeps
  cases r with
  | error e => cases hok
  | ok _ =>
  obtain ⟨dp1, ip, off, name1, e, h, -, -, heffect⟩ := hw
  obtain ⟨hne, h⟩ := htarget dp1 ip off name1 e h
  have hdir1 := (hs.calm.resolveParent_dir h.parent).1
  have hinum := inum_ne_zero_of_resolve ha.ip1 h.parent
  have hsame : ip = a.ip1 := by
    have hfound := (lookup_last h.parent).trans ha.ip1
    rw [lookup_dir hdir1, h.entry] at hfound
    rw [h.inode]
    exact Option.some.inj hfound
  -- it is still held, so losing a link does not free it
  rw [if_neg] at heffect
  · refine ⟨_, _, h.parent, hpar2, heffect.me_eq.trans hall.me_eq, fun d n => ?_⟩
    have hentries : (u.card dp1).entries = (s.card dp1).entries := by
      rw [hall.card_eq, Card.setEntry_of_ne hne]
    have htype : (u.card dp1).attrs.type = .dir := by
      rw [hall.card_eq, Card.setEntry_attrs]
      exact hdir1
    rw [heffect.card_eq, lookup_unlinked (by rw [hentries]; exact hs.unique dp1 hdir1) htype
      (by rw [hentries]; exact h.entry), hall.card_eq,
      lookup_add (hs.unique dp2 hdir2) hdir2 type hinum hfree, hip]
    simp only [Prod.mk.injEq]
  · rintro ⟨-, hzero⟩
    have hheld := ha.ref_pos hs.calm
    have hleaks := u.leaks_nonneg true path1 ip
    rw [hsame, hadd.ref_eq] at hzero
    rw [hsame] at hleaks
    omega

/-- With a target: its entry is made to lead to the inode. -/
lemma renameReplace_spec {B : Ino} (hs : Coherent t)
    (hdp : ∀ dp name, a.dn2 = some (dp, name) → (t.card dp).attrs.nlink ≠ 0)
    (hB : (t.card B).attrs.nlink ≠ 0) (hA : (t.card a.ip1).attrs.nlink ≠ 0) :
    Post (renameReplace a B) t fun r u => ∀ removedir, r = .ok removedir → ∃ dp name de off,
      a.dn2 = some (dp, name) ∧ (t.card dp).attrs.type = .dir ∧
        (t.card dp).entries[off]? = some de ∧
      de.inum = B.inum ∧ (removedir = true → (t.card B).attrs.type = .dir) ∧
      Effect t u (t.card.setEntry dp off { de with inum := a.ip1.inum })
        fun q => at1 B (-1) q + at1 a.ip1 (-1) q + at1 dp (-1) q := by
  unfold renameReplace
  rcases hdn2 : a.dn2 with - | dn2
  · exact .bind (post_throw _)
  obtain ⟨dp, name⟩ := dn2
  refine .bind (.pure ?_)
  refine (reinode_spec hs (hdp dp name hdn2) hB hA).step fun r u hu => ?_
  have hend : Post (onlyIf (a.sameDir = false ∨ r.toBool = false) endOp) u fun _ w =>
      w.icache = u.icache ∧ (Coherent u → Cached u w fun _ => 0) := by
    refine post_onlyIf (fun _ => ?_) fun _ => ⟨rfl, Cached.refl⟩
    exact (post_modify _).mpr ⟨rfl, fun hu => addOps_cached hu (-1)⟩
  refine hend.step fun _ w hw => ?_
  refine .bind (.bind (.get (.pure
    (.pure (.pure fun removedir hok => ?_)))))
  cases r with
  | error e => cases hok
  | ok _ => ?_
  obtain ⟨de, off, hdir, hget, hinum, htype, heffect⟩ := hu rfl
  refine ⟨dp, name, de, off, rfl, hdir, hget, hinum, fun hremove => ?_,
    (heffect.cached (hw.2 heffect.coherent)).congr fun q => by simp⟩
  cases hok
  rw [hw.1, htype] at hremove
  simpa using hremove

/-- The same, in terms of the state before the call. -/
lemma Args.renameReplace_spec (hs : Rooted s) (ha : Args s t path1 path2 a) {B : Ino}
    (hB : a.ip2 = some B) :
    Post (renameReplace a B) t fun r u => ∀ removedir, r = .ok removedir → Calm u ∧
      ∃ dp name de off,
      s.resolveParent path2 = some (dp, name) ∧ (s.card dp).attrs.type = .dir ∧
      (s.card dp).entries[off]? = some de ∧ de.inum = B.inum ∧
      (removedir = true → (s.card B).attrs.type = .dir) ∧
      ∃ ε, Effect s u (s.card.setEntry dp off { de with inum := a.ip1.inum }) ε := by
  obtain ⟨δ, hδ, hcached⟩ := ha.cached
  have hres2 : s.resolve path2 = some B := ha.ip2.symm.trans hB
  have hspec := Vfs.renameReplace_spec (a := a) (B := B) hcached.coherent
    (fun dp name h => by
      rw [hcached.card_eq]
      exact (hs.calm.resolveParent_dir (ha.dn2.symm.trans h)).2)
    (by rw [hcached.card_eq]; exact hs.calm.resolve_linked hres2)
    (by rw [hcached.card_eq]; exact hs.calm.resolve_linked ha.ip1)
  refine hspec.mono fun r u hu removedir hok => ?_
  obtain ⟨dp2, name2, de, off, hdn2, hdir2, hget, hinum, hremove, hset⟩ := hu removedir hok
  rw [hcached.card_eq] at hdir2 hget hremove hset
  have hpar2 : s.resolveParent path2 = some (dp2, name2) := ha.dn2.symm.trans hdn2
  refine ⟨ha.calm hs hpar2 rfl (hcached.trans hset) ?_, dp2, name2, de, off, hpar2, hdir2, hget,
    hinum, hremove, _, hcached.trans hset⟩
  have hcwd := hδ s.me.cwd
  have hgain := gained_nonneg (a.dn1.map Prod.fst) s.me.cwd
  rw [hB, hdn2] at hcwd
  simp only [Option.map_some, gained_some, at1] at hcwd ⊢
  split_ifs at hcwd ⊢ <;> omega

/-- **With a target, it is the new name that is taken away.** -/
lemma renameReplace_gone (hs : Tree s) (ha : Args s t path1 path2 a) {B : Ino}
    (hB : a.ip2 = some B) :
    Post (thenUnlink (renameReplace a B) path2) t fun r u => r.toBool = true →
      u.resolve path2 = none := by
  have hres2 : s.resolve path2 = some B := ha.ip2.symm.trans hB
  refine (ha.renameReplace_spec hs.toRooted hB).step fun r u hu => ?_
  cases r with
  | error e => exact .pure nofun
  | ok removedir =>
  obtain ⟨hcalm, dp2, name2, de, off, hpar2, hdir2, hget, hinum, hremove, ε, hall⟩ :=
    hu removedir rfl
  have hBinum := inum_ne_zero_of_resolve hres2 hpar2
  have hdevB : (⟨dp2.dev, de.inum⟩ : Ino) = B := by
    rw [hinum]
    exact hs.inode_eq hres2 hpar2
  have hunique : ∀ d, (u.card d).attrs.type = .dir → Unique (u.card d).entries := by
    rw [hall.card_eq]
    refine unique_setEntry hs.unique (List.getElem?_eq_some_iff.mp hget).1.le ?_
    intro _ i e' hi he' hinum' hname
    exact hi (hs.unique dp2 hdir2 i off e' de he' hget hinum' (by rwa [hinum]) hname)
  refine fileunlink_gone hcalm path2 removedir ?_ hunique ?_
  · intro p
    rw [hall.card_eq, Card.setEntry_attrs]
    exact hs.small p
  intro dp ip off' name e h hremovable
  obtain ⟨hdir, hlink⟩ := hcalm.resolveParent_dir h.parent
  refine ⟨hlink, fun htype => ?_⟩
  obtain ⟨hget', hinum', hname, -⟩ := findEntry_some h.entry
  rw [h.inode] at htype hremovable
  rw [hall.card_eq, Card.setEntry_attrs] at htype hdir hlink ⊢
  have htwo : 2 ≤ (s.card dp).attrs.nlink := by
    have hmem := List.mem_of_getElem? hget'
    rw [hall.card_eq] at hmem
    by_cases hd : dp = dp2
    · subst hd
      rw [Card.setEntry_self] at hmem
      rcases putEntry_mem hmem with hmem | hnew
      · exact hs.children dp hdir e hmem hinum' (hname ▸ h.not_dots) htype
      -- the moved inode is a directory, so the one it replaces was one too
      have hremovedir : removedir = true := by
        cases removedir with
        | true => rfl
        | false =>
          unfold Removable at hremovable
          rw [if_neg Bool.false_ne_true, hall.card_eq, Card.setEntry_attrs] at hremovable
          exact absurd htype hremovable
      refine hs.children dp hdir de (List.mem_of_getElem? hget) (by rwa [hinum]) ?_ ?_
      · have hsame : e.name = de.name := by rw [hnew]
        rw [← hsame, hname]
        exact h.not_dots
      · rw [hdevB]
        exact hremove hremovedir
    · rw [Card.setEntry_of_ne hd] at hmem
      exact hs.children dp hdir e hmem hinum' (hname ▸ h.not_dots) htype
  rw [decLink_nlink hlink (hs.small dp)]
  omega

/-- The two ways in which a rename succeeds. -/
lemma filerename_done (hs : Tree s) (h1 : s.resolve path1 = some ip)
    (hne : s.resolve path2 ≠ some ip) :
    Post (filerename path1 path2) s fun r t => r.toBool = true →
      (s.resolve path2 = none ∧ ∃ dn1 dn2, s.resolveParent path1 = some dn1 ∧
        s.resolveParent path2 = some dn2 ∧ t.me = s.me ∧ MovesName s.card t.card dn1 dn2 ip) ∨
      (s.resolve path2 ≠ none ∧ t.resolve path2 = none) := by
  refine (renameFind_spec hs.calm path1 path2).step fun r t ht => ?_
  rcases r with - | a
  · exact .pure nofun
  have ha := ht.2 a rfl
  obtain rfl : a.ip1 = ip := Option.some.inj (ha.ip1.symm.trans h1)
  show Post (if a.ip2 = some a.ip1 then _ else _) t _
  rw [if_neg (by rwa [ha.ip2])]
  cases hip2 : a.ip2 with
  | none =>
    have habsent : s.resolve path2 = none := ha.ip2.symm.trans hip2
    show Post (if a.sameDir = true then _ else _) t _
    split
    · next hsame =>
      exact (renameHere_moves hs ha (by simpa [RenameArgs.sameDir] using hsame) habsent).mono
        fun _ _ hmoves hok => .inl ⟨habsent, hmoves hok⟩
    · next hsame =>
      exact (renameLink_moves hs ha (by simpa [RenameArgs.sameDir] using hsame) habsent).mono
        fun _ _ hmoves hok => .inl ⟨habsent, hmoves hok⟩
  | some B =>
    have hpresent : s.resolve path2 ≠ none := by
      rw [← ha.ip2, hip2]
      exact Option.some_ne_none B
    exact (renameReplace_gone hs ha hip2).mono fun _ _ hgone hok => .inr ⟨hpresent, hgone hok⟩

/-- **A rename moves the name exactly if there is no target**, and the new name is not to be found
through the old one. -/
theorem renamed_iff_absent (hs : Tree s) (h1 : s.resolve path1 = some ip)
    (hne : s.resolve path2 ≠ some ip) (hrun : filerename path1 path2 s = .ok (.ok ()) t) :
    Moved s t path1 path2 ip ↔ s.resolve path2 = none ∧
      ∀ dn1 ∈ s.resolveParent path1, dn1 ∉ Vfs.way s.card (s.start path2)
        (elements path2).dropLast := by
  rcases filerename_done hs h1 hne _ t hrun rfl with ⟨habsent, dn1, dn2, hdn1, hdn2, hme,
    hmoves⟩ | ⟨hpresent, hgone⟩
  · rw [moved_iff hme h1 hdn1 hdn2 habsent hmoves, hdn1]
    simp [habsent]
  constructor
  · intro hmoved
    rw [hmoved.new] at hgone
    cases hgone
  · exact fun h => absurd h.1 hpresent

/-! ## Two files -/

/-- A root directory with two files, `a` and `b`. -/
def twoFiles : Sys :=
  { tiny with
    card p :=
      if p = ⟨1, 1⟩ then
        ⟨⟨.dir, 0, 0, 1, 0o755, 0, 0⟩,
          [⟨1, .dir, dot⟩, ⟨1, .dir, dotdot⟩, ⟨2, .file, ['a']⟩, ⟨3, .file, ['b']⟩], []⟩
      else if p = ⟨1, 2⟩ ∨ p = ⟨1, 3⟩ then ⟨⟨.file, 0, 0, 1, 0o644, 0, 0⟩, [], []⟩
      else ⟨.zero .free, [], []⟩ }

lemma twoFiles_all {Q : Ino → Prop} (h1 : Q ⟨1, 1⟩) (h2 : ∀ p, (twoFiles.card p).attrs.type ≠ .dir ∧
      (twoFiles.card p).attrs.type ≠ .mount ∧ (twoFiles.card p).entries = [] ∧
      (twoFiles.card p).attrs.nlink ≤ 1 ∧ (twoFiles.icache p).ref = 0 → Q p) (p : Ino) : Q p := by
  by_cases hp : p = ⟨1, 1⟩
  · rwa [hp]
  refine h2 p ?_
  by_cases h : p = ⟨1, 2⟩ ∨ p = ⟨1, 3⟩
  · simp [twoFiles, tiny, hp, h]
  · simp [twoFiles, tiny, hp, h, Attrs.zero]

/-- The example is a tree. -/
lemma twoFiles_tree : Tree twoFiles := by
  have hinvalid : ∀ p, ¬ (twoFiles.icache p).valid = true := fun p => by
    unfold twoFiles tiny
    dsimp only
    split <;> decide
  refine ⟨⟨⟨⟨fun _ => ⟨rfl, rfl⟩, twoFiles_all (by decide) fun p h => by omega,
    fun p _ hvalid => absurd hvalid (hinvalid p), fun p _ hvalid => absurd hvalid (hinvalid p),
    twoFiles_all (by decide) fun p h href => by omega, twoFiles_all (by decide) fun p h => h.2.1,
    twoFiles_all (by decide) fun p h e he => by rw [h.2.2.1] at he; cases he⟩,
    twoFiles_all (by decide) fun p h hdir => absurd hdir h.1, by decide, by decide, by decide⟩,
      rfl⟩,
    twoFiles_all (by decide) fun p h => by omega,
    twoFiles_all (fun _ => Unique.of_nodup (by decide)) fun p h hdir => absurd hdir h.1,
    twoFiles_all (by decide) fun p h hdir => absurd hdir h.1⟩

/-- `rename("/a", "/c")`. -/
theorem renamed_iff_absent_new : ∃ t, filerename ['/', 'a'] ['/', 'c'] twoFiles = .ok (.ok ()) t ∧
      Moved twoFiles t ['/', 'a'] ['/', 'c'] ⟨1, 2⟩ :=
  have hrun := eq_ok_of_valueOf (a := .ok ()) (s := twoFiles)
    (x := filerename ['/', 'a'] ['/', 'c']) (by decide +kernel)
  ⟨_, hrun, (renamed_iff_absent twoFiles_tree (by decide) (by decide) hrun).mpr
    ⟨by decide, by decide⟩⟩

/-- `rename("/a", "/b")` returns 0: the new name is gone, and the old one stays. -/
theorem rename_removes_target :
    Tree twoFiles ∧ twoFiles.resolve ['/', 'a'] = some ⟨1, 2⟩ ∧
      twoFiles.resolve ['/', 'b'] = some ⟨1, 3⟩ ∧
      ∃ t, filerename ['/', 'a'] ['/', 'b'] twoFiles = .ok (.ok ()) t ∧
        t.resolve ['/', 'b'] = none ∧ t.resolve ['/', 'a'] = some ⟨1, 2⟩ :=
  ⟨twoFiles_tree, by decide, by decide, _, eq_ok_of_valueOf (by decide +kernel), by decide +kernel,
    by decide +kernel⟩

end RpiOs.Vfs
