import RpiOs.Vfs.Rename
import RpiOs.Vfs.Total

/-!
# Paths

What `namei` and `nameiparent` return, with the meaning of the path read off the string and not off
the loop that takes it apart.

* `components`: the non-empty parts between slashes, each cut to `DIRSIZ`; `elements_eq` is the
  tokenizer.
* **`namei_folds`**: the two functions return, with the fold of the lookups.
-/

namespace RpiOs.Vfs

open Lib

/-! ## The string -/

/-- The non-empty parts of a path, each cut to `DIRSIZ`. -/
def components (path : List Char) : List Name :=
  ((path.splitOn '/').filter (· ≠ [])).map (·.take dirsiz)

variable {path rest word : List Char}

lemma components_slash (path : List Char) : components ('/' :: path) = components path := by
  unfold components List.splitOn
  rw [show '/' :: path = [] ++ '/' :: path from rfl, List.splitOnP_append_cons [] path (by simp)]
  simp

lemma components_dropWhile (path : List Char) :
    components (path.dropWhile (· = '/')) = components path := by
  induction path with
  | nil => rfl
  | cons c path ih =>
    by_cases hc : c = '/'
    · subst hc
      rw [List.dropWhile_cons_of_pos (by simp), ih, components_slash]
    · rw [List.dropWhile_cons_of_neg (by simpa using hc)]

/-- The first component, cut to `DIRSIZ` characters. -/
lemma components_word (hword : ∀ c ∈ word, c ≠ '/') (hne : word ≠ [])
    (hrest : rest.head?.all (· = '/')) :
    components (word ++ rest) = word.take dirsiz :: components rest := by
  have hsingle : word.splitOnP (· == '/') = [word] :=
    List.splitOnP_eq_singleton fun c hc => by simpa using hword c hc
  rcases rest with - | ⟨c, rest⟩
  · rw [List.append_nil]
    unfold components List.splitOn
    rw [hsingle]
    simp [hne]
  obtain rfl : c = '/' := by simpa using hrest
  rw [components_slash]
  unfold components List.splitOn
  rw [List.splitOnP_append_cons word rest (by simp), hsingle]
  simp [hne]

/-- `skipelem` takes the components one by one. -/
lemma components_skipelem (path : List Char) : components path = match skipelem path with
      | none => []
      | some (name, rest) => name :: components rest := by
  unfold skipelem
  rw [← components_dropWhile path]
  rcases hdrop : path.dropWhile (· = '/') with - | ⟨c, p⟩
  · rfl
  dsimp only
  rw [components_dropWhile]
  have hsplit := List.takeWhile_append_dropWhile (p := (· ≠ '/')) (l := c :: p)
  conv_lhs => rw [← hsplit]
  refine components_word (fun x hx => by simpa using List.mem_takeWhile_imp hx) ?_ ?_
  · rw [List.takeWhile_cons_of_pos (by simpa using head_dropWhile_slash hdrop)]
    exact List.cons_ne_nil _ _
  have hhead := List.head?_dropWhile_not (· ≠ '/') (c :: p)
  cases hd : ((c :: p).dropWhile (· ≠ '/')).head? with
  | none => rfl
  | some x =>
    rw [hd] at hhead
    simpa using hhead

/-- **The elements that the loop takes off are the components.** -/
lemma elements_eq (path : List Char) : elements path = components path := by
  suffices h : ∀ n (path : List Char), path.length < n → elementsIn n path = components path from
    h _ path (Nat.lt_succ_self _)
  intro n
  induction n with
  | zero => intro path h; omega
  | succ n ih => ?_
  intro path h
  unfold elementsIn
  rw [components_skipelem]
  rcases hskip : skipelem path with - | next
  · rfl
  obtain ⟨name, rest⟩ := next
  have := skipelem_length hskip
  dsimp only
  rw [ih rest (by omega)]

/-! ## The fold -/

variable {card : Card}

lemma resolve_eq_foldlM (d : Ino) (names : List Name) :
    resolve card d names = names.foldlM (lookup card) d := by
  induction names generalizing d with
  | nil => rfl
  | cons name names ih =>
    rw [List.foldlM_cons]
    unfold resolve
    exact Option.bind_congr fun q _ => ih q

/-- A path is the last name in its parent. -/
lemma resolve_parent {names : List Name} (hne : names ≠ []) (d : Ino) :
    ((resolveParent card d names).bind fun x => lookup card x.1 x.2) = resolve card d names := by
  obtain ⟨init, last, rfl⟩ : ∃ init last, names = init ++ [last] :=
    ⟨_, _, (List.dropLast_append_getLast hne).symm⟩
  rw [resolve_eq_foldlM, List.foldlM_append, ← resolve_eq_foldlM]
  unfold resolveParent
  rw [List.getLast?_append_of_ne_nil _ (by simp), List.dropLast_concat]
  show ((resolve card d init).bind _).bind _ = _
  rw [Option.bind_assoc]
  refine Option.bind_congr fun q _ => ?_
  by_cases hdir : (card q).attrs.type = .dir
  · simp [hdir]
  · simp [hdir, lookup]

/-! ## The walk ends -/

/-- The references of a walk that is at `ip`, with `k` left on the root directory. -/
def walking (ip : Ino) (k : Int) : Ino → Int := fun q => at1 ip 1 q + at1 ⟨ip.dev, rootino⟩ k q

/-- Every inode that a directory names is in use. -/
def Typed (card : Card) : Prop :=
  ∀ d, (card d).attrs.type = .dir → ∀ e ∈ (card d).entries, e.inum ≠ 0 →
    (card ⟨d.dev, e.inum⟩).attrs.type ≠ .free

variable {s₀ s : Sys} {ip : Ino} {name : Name} {k : Int}

lemma lookup_typed (h : Typed card) {d q : Ino} (hq : lookup card d name = some q) :
    (card q).attrs.type ≠ .free := by
  obtain ⟨hdir, e, he, hinum, rfl⟩ := entry_of_lookup hq
  exact h d hdir e he hinum

/-- A walk takes slots for the inode it is at and for the root directory. -/
lemma inUse_walking (hcount0 : Counted s₀) (hcount : Counted s) (h : Cached s₀ s (walking ip k)) :
    s.inUse ≤ s₀.inUse + 2 ∧ (0 < (s.icache ⟨ip.dev, rootino⟩).ref ∨ s.inUse ≤ s₀.inUse + 1) := by
  have hsupport : ∀ q, 0 < (s.icache q).ref → 0 < (s₀.icache q).ref ∨ q = ip ∨
      q = ⟨ip.dev, rootino⟩ := by
    intro q hq
    rw [h.ref_eq] at hq
    by_cases h1 : q = ip
    · exact .inr (.inl h1)
    by_cases h2 : q = ⟨ip.dev, rootino⟩
    · exact .inr (.inr h2)
    · rw [walking, at1_ne h1, at1_ne h2] at hq
      exact .inl (by omega)
  refine ⟨hcount0.inUse_le hcount [ip, ⟨ip.dev, rootino⟩] fun q hq => by simpa using hsupport q hq,
    ?_⟩
  by_cases hroot : 0 < (s.icache ⟨ip.dev, rootino⟩).ref
  · exact .inl hroot
  refine .inr (hcount0.inUse_le hcount [ip] fun q hq => ?_)
  rcases hsupport q hq with h0 | rfl | rfl
  · exact .inl h0
  · exact .inr (by simp)
  · exact absurd hq hroot

/-- The search of an element returns if there are slots for the inode found and for the root
directory. -/
lemma componentSearch_total (hcount : Counted s) (hlocks : Locks s (some ip)) (hs : Coherent s)
    (hip : Loaded s ip) (hdir : (s.card ip).attrs.type = .dir) (hlink : (s.card ip).attrs.nlink ≠ 0)
    (hroom : s.inUse < ninode) (hroot : 0 < (s.icache ⟨ip.dev, rootino⟩).ref ∨ s.inUse + 1 < ninode)
    (hvfs : s.getvfsentry sdmajor ip.dev = true) (name : Name) (n : Nat) :
    Ends (componentSearch name (n + 1) ip) s
      (fun r t => Counted t ∧ Locks t (r.map fun _ => ip)) := by
  unfold componentSearch
  refine (ends_of_post (dirlookup_total name hcount hlocks hs hip hdir hroom hvfs)
    (dirlookup_spec hs hip)).step ?_
  rintro r t ⟨⟨-, hr⟩, hcount', hlocks'⟩
  rcases r with - | r
  · obtain ⟨rfl, -⟩ := hr
    simp only [ends_bind, ends_pure]
    exact iunlockput_total hcount' hlocks' hs hip.1 hlink
  obtain ⟨next, off⟩ := r
  obtain ⟨e, -, rfl, hcached, -⟩ := hr
  -- the inode found may have taken the last slot but one
  have hinUse : t.inUse ≤ s.inUse + 1 := by
    refine hcount.inUse_le hcount' [⟨ip.dev, e.inum⟩] fun q hq => ?_
    by_cases h : q = ⟨ip.dev, e.inum⟩
    · exact .inr (by simp [h])
    · rw [hcached.ref_eq, at1_ne h] at hq
      exact .inl (by omega)
  have hroot' : 0 < (t.icache ⟨ip.dev, rootino⟩).ref ∨ t.inUse < ninode := by
    refine hroot.imp (fun h => ?_) (by omega)
    rw [hcached.ref_eq]
    simp only [at1]
    split <;> omega
  have hvfs' : t.getvfsentry sdmajor ip.dev = true := by
    rw [hcached.frame]
    exact hvfs
  refine (ends_of_post (iget_total hcount' hlocks' .dir (hcached.coherent.type_ne _) hroot' hvfs')
    (iget_spec hcached.coherent (by simp))).step ?_
  rintro ir u ⟨⟨rfl, hroot'', -⟩, hcount'', hlocks''⟩
  simp only [ends_bind, ends_get]
  rw [if_neg (by simp [hroot''.coherent.isinoderoot])]
  exact (ends_pure _).mpr ⟨hcount'', hlocks''⟩

/-- **The walk ends.** The induction is on the rounds; each starts without locks, and with the
references of `s₀` and those of a walk that is at `ip`. -/
lemma namexLoop_total (hcount0 : Counted s₀) (hlinked : Linked s₀.card) (htyped : Typed s₀.card)
    (hroom : s₀.inUse + 2 < ninode) (parent : Bool) (n : Nat) (path : List Char)
    (h : Cached s₀ s (walking ip k)) (hs0 : Coherent s₀) (hk : 0 ≤ k) (hcount : Counted s)
    (hlocks : Locks s none) (hlink : (s₀.card ip).attrs.nlink ≠ 0)
    (htype : (s₀.card ip).attrs.type ≠ .free) (hvfs : s₀.getvfsentry sdmajor ip.dev = true)
    (hn : path.length < n) :
    Ends (namexLoop parent n ip path name) s ⊤ := by
  induction n generalizing s ip path name k with
  | zero => omega
  | succ n ih => ?_
  have href : 0 < (s.icache ip).ref := by
    have := hs0.ref_nonneg ip
    rw [h.ref_eq, walking, at1_self]
    simp only [at1]
    split <;> omega
  rw [← h.card_eq] at hlink htype
  unfold namexLoop
  cases hskip : skipelem path with
  | none =>
    rcases parent with - | -
    · exact (ends_pure _).mpr trivial
    simp only [if_pos, ends_bind, ends_pure]
    exact (iput_total hcount hlocks (by simp) href (h.coherent.not_frees href hlink)).imp
      (fun _ _ _ => trivial)
  | some next =>
    obtain ⟨first, rest⟩ := next
    have hrest : rest.length < n := by
      have := skipelem_length hskip
      omega
    refine (ends_of_post (ilock_total hcount hlocks href htype) (ilock_spec h.coherent)).step ?_
    rintro - t ⟨⟨hcached, hloaded, -⟩, hcount', hlocks'⟩
    have hlink' : (t.card ip).attrs.nlink ≠ 0 := by rwa [hcached.card_eq]
    unfold inode
    simp only [ends_bind, ends_get, ends_pure]
    rw [hcached.coherent.attrs_of_loaded hloaded]
    by_cases hdir : (t.card ip).attrs.type = .dir
    · rw [if_neg (by simpa using hdir)]
      by_cases hlast : parent = true ∧ rest = []
      · rw [if_pos hlast]
        simp only [ends_bind, ends_pure]
        exact (iunlock_total hcount' hlocks' hloaded.1).imp (fun _ _ _ => trivial)
      rw [if_neg hlast]
      have hwalking : Cached s₀ t (walking ip k) := (h.cached hcached).congr fun q => by simp
      obtain ⟨hinUse, hinUse'⟩ := inUse_walking hcount0 hcount' hwalking
      have hvfs' : t.getvfsentry sdmajor ip.dev = true := by
        rw [hwalking.frame]
        exact hvfs
      refine (ends_of_post (componentSearch_total hcount' hlocks' hcached.coherent hloaded
        hdir hlink'
          (by omega) (by omega) hvfs' first mountsize)
        (componentSearch_spec hcached.coherent hloaded hlink' _)).step ?_
      rintro r u ⟨hr, hcount'', hlocks''⟩
      rcases r with - | r
      · exact (ends_pure _).mpr trivial
      obtain ⟨ip', next⟩ := r
      obtain ⟨rfl, hlookup, hloaded', hcached'⟩ := hr
      rw [hwalking.card_eq] at hlookup
      obtain ⟨hnext, hdev⟩ := lookup_linked hlinked hlookup
      have hlink'' : (u.card ip').attrs.nlink ≠ 0 := by rwa [hcached'.card_eq]
      refine (ends_of_post (iunlockput_total hcount'' hlocks'' hcached'.coherent hloaded'.1 hlink'')
        (iunlockput_spec hcached'.coherent hlink'')).step ?_
      rintro - w ⟨⟨hput, -⟩, hcountw, hlocksw⟩
      -- the reference on the directory is given up, that on the root stays
      have hwalking' : Cached s₀ w (walking next (k + 1)) :=
        ((hwalking.cached hcached').cached hput).congr fun q => by
          unfold walking
          rw [hdev]
          simp only [at1]
          split_ifs <;> omega
      exact ih rest hwalking' (by omega) hcountw hlocksw hnext (lookup_typed htyped hlookup)
        (by rwa [hdev]) hrest
    · rw [if_pos hdir]
      simp only [ends_bind, ends_pure]
      exact (iunlockput_total hcount' hlocks' hcached.coherent hloaded.1 hlink').imp
        fun _ _ _ => trivial

/-! ## Whole paths -/

/-- A state between calls in which a walk ends. -/
structure Ready (s : Sys) : Prop extends Calm s where
  typed : Typed s.card
  root_typed : (s.card ⟨rootdev, rootino⟩).attrs.type ≠ .free
  cwd_typed : (s.card s.me.cwd).attrs.type ≠ .free
  counted : Counted s
  unlocked : Locks s none
  room : s.inUse + 2 < ninode
  root_vfs : s.getvfsentry sdmajor rootdev = true
  cwd_vfs : s.getvfsentry sdmajor s.me.cwd.dev = true

/-- A walk returns. -/
lemma namex_total (hs : Ready s) (path : List Char) (parent : Bool) :
    Ends (namex path parent) s ⊤ := by
  -- the walk starts with one reference more
  have hloop : ∀ {t : Sys} {ip : Ino}, Cached s t (at1 ip 1) → Counted t → Locks t none →
      (s.card ip).attrs.nlink ≠ 0 → (s.card ip).attrs.type ≠ .free →
        s.getvfsentry sdmajor ip.dev = true →
      Ends (namexLoop parent (path.length + 1) ip path []) t ⊤ := by
    intro t ip ht hcount hlocks hlink htype hvfs
    have hwalking : Cached s t (walking ip 0) := ht.congr fun q => by simp [walking, at1]
    exact namexLoop_total hs.counted hs.linked hs.typed hs.room parent _ path hwalking hs.coherent
      (le_refl 0)
      hcount hlocks hlink htype hvfs (Nat.lt_succ_self _)
  have hroom := hs.room
  unfold namex
  rw [ends_bind, ends_get]
  split
  · refine (ends_of_post (iget_total (p := ⟨rootdev, rootino⟩) hs.counted hs.unlocked .dir
      (hs.coherent.type_ne _) (.inr (by omega)) hs.root_vfs) (iget_spec hs.coherent (by simp))).step
        ?_
    rintro ip t ⟨⟨rfl, hcached, -⟩, hcount, hlocks⟩
    exact hloop hcached hcount hlocks hs.root_linked hs.root_typed hs.root_vfs
  refine (ends_of_post (idup_total hs.counted hs.unlocked hs.cwd_ref)
    (idup_spec hs.coherent hs.cwd_ref)).step ?_
  rintro ip t ⟨⟨rfl, hcached, -⟩, hcount, hlocks⟩
  exact hloop hcached hcount hlocks hs.cwd_linked hs.cwd_typed hs.cwd_vfs

lemma resolveParent_eq {names : List Name} (h : names.getLast? = some name)
    (d : Ino) : resolveParent card d names = (names.dropLast.foldlM (lookup card) d).bind fun q =>
      if (card q).attrs.type = .dir then some (q, name) else none := by
  unfold resolveParent
  rw [h, resolve_eq_foldlM]
  rfl

/-- **`namei` returns the fold of the lookups over the components of the path**, and for a path with
components `nameiparent` returns the directory of the last one and its name; looking that name up in
the directory is the rest of `namei`. -/
theorem namei_folds (hs : Ready s) (path : List Char) : Ends (namei path) s
      (fun r t => t.card = s.card ∧ r = (components path).foldlM (lookup s.card) (s.start path)) ∧
    ∀ name, (components path).getLast? = some name →
      Ends (nameiparent path) s
        (fun r t => t.card = s.card ∧
          (r = ((components path).dropLast.foldlM (lookup s.card) (s.start path)).bind fun q =>
            if (s.card q).attrs.type = .dir then some (q, name) else none) ∧
          (r.bind fun x => lookup s.card x.1 x.2) =
            (components path).foldlM (lookup s.card) (s.start path)) := by
  constructor
  · have hends : Ends (namei path) s ⊤ := by
      unfold namei
      simp only [ends_bind, ends_pure]
      exact namex_total hs path false
    refine (ends_of_post hends (namei_spec hs.toCalm path)).imp ?_
    rintro r t ⟨⟨hr, hcached⟩, -⟩
    refine ⟨hcached.card_eq, ?_⟩
    rw [hr, Sys.resolve, resolve_eq_foldlM, elements_eq]
  · intro name hname
    refine (ends_of_post (namex_total hs path true) (nameiparent_spec hs.toCalm path)).imp ?_
    rintro r t ⟨⟨hr, -, hcached⟩, -⟩
    have hne : components path ≠ [] := by
      rintro h
      simp [h] at hname
    rw [Sys.resolveParent, elements_eq] at hr
    refine ⟨hcached.card_eq, ?_, ?_⟩
    · rw [hr, resolveParent_eq hname]
    · rw [hr, resolve_parent hne, resolve_eq_foldlM]

/-- The example has what a walk needs. -/
lemma twoFiles_ready : Ready twoFiles := by
  have hinodes : ∀ p, (twoFiles.icache p).locked = false ∧
      (0 < (twoFiles.icache p).ref ↔ p = ⟨1, 1⟩) := by
    intro p
    by_cases hp : p = ⟨1, 1⟩ <;> simp [twoFiles, tiny, hp]
  refine ⟨twoFiles_tree.calm, ?_, by decide, by decide, ⟨{⟨1, 1⟩}, ?_, rfl⟩,
    ?_, by decide, rfl, rfl⟩
  · exact twoFiles_all (by decide) fun d h hdir => absurd hdir h.1
  · intro p
    rw [(hinodes p).2, Finset.mem_singleton]
  · intro p
    simp [(hinodes p).1]

/-- The path `//a/` leads to the file `a`. -/
theorem namei_folds_slashes :
    Ends (namei ['/', '/', 'a', '/']) twoFiles
      (fun r t => t.card = twoFiles.card ∧ r = some ⟨1, 2⟩) :=
  (namei_folds twoFiles_ready ['/', '/', 'a', '/']).1

end RpiOs.Vfs
