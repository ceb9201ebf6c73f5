import RpiOs.Vfs.Names

/-!
# Names in directories

The entries of a directory as a finite map from names: no name is used twice. What clearing, writing
and adding an entry does to that map, and to the meaning of paths.

* `way`: the names that a path looks up; `resolve_of_avoids`: a path that does not use a changed
  name keeps its meaning.
-/

namespace RpiOs.Vfs

open Lib

/-- No two entries in use have the same name. -/
def Unique (es : List Dirent) : Prop :=
  ∀ (i j : Nat) (e e' : Dirent), es[i]? = some e → es[j]? = some e' → e.inum ≠ 0 → e'.inum ≠ 0 →
    e.name = e'.name → i = j

lemma Unique.of_nodup {es : List Dirent} (h : (es.map Dirent.name).Nodup) : Unique es := by
  intro i j e e' he he' _ _ hname
  have hlt : i < (es.map Dirent.name).length := by
    rw [List.length_map]
    exact (List.getElem?_eq_some_iff.mp he).1
  refine (List.getElem?_inj hlt h).mp ?_
  rw [List.getElem?_map, List.getElem?_map, he, he', Option.map_some, Option.map_some, hname]

/-- The name of an entry in use is not used elsewhere. -/
def Fresh (es : List Dirent) (off : Nat) (e : Dirent) : Prop :=
  e.inum ≠ 0 → ∀ (i : Nat) (e' : Dirent), i ≠ off → es[i]? = some e' → e'.inum ≠ 0 →
    e'.name ≠ e.name

variable {es : List Dirent} {e e' : Dirent} {name : Name} {i off : Nat}

/-- With unique names the entry that is found is the one there is. -/
lemma findEntry_iff (hu : Unique es) :
    findEntry es name = some (e, i) ↔ es[i]? = some e ∧ e.inum ≠ 0 ∧ e.name = name := by
  constructor
  · intro h
    obtain ⟨hget, hinum, hname, -⟩ := findEntry_some h
    exact ⟨hget, hinum, hname⟩
  rintro ⟨hget, hinum, hname⟩
  rcases hfind : findEntry es name with - | r
  · exact absurd ⟨hinum, hname⟩ (findEntry_eq_none.mp hfind e (List.mem_of_getElem? hget))
  obtain ⟨e', j⟩ := r
  obtain ⟨hget', hinum', hname', -⟩ := findEntry_some hfind
  have hij : i = j := hu i j e e' hget hget' hinum hinum' (hname.trans hname'.symm)
  subst hij
  rw [hget] at hget'
  rw [Option.some.inj hget']

lemma freeEntry_le (es : List Dirent) : freeEntry es ≤ es.length := by
  unfold freeEntry
  cases h : es.findIdx? fun e => e.inum = 0 with
  | none => exact le_refl _
  | some i =>
    obtain ⟨hlt, -⟩ := List.findIdx?_eq_some_iff_getElem.mp h
    exact hlt.le

lemma freeEntry_free (h : es[freeEntry es]? = some e) : e.inum = 0 := by
  unfold freeEntry at h
  rcases hi : es.findIdx? fun e => e.inum = 0 with - | i
  · rw [hi] at h
    simp at h
  obtain ⟨hlt, hzero, -⟩ := List.findIdx?_eq_some_iff_getElem.mp hi
  rw [hi, Option.getD_some, List.getElem?_eq_getElem hlt] at h
  rw [← Option.some.inj h]
  simpa using hzero

/-- The entries after one was put. -/
lemma putEntry_getElem? (h : off ≤ es.length) :
    (putEntry es off e)[i]? = if i = off then some e else es[i]? := by
  unfold putEntry
  split
  · next hlt =>
    rw [List.getElem?_set]
    by_cases hi : i = off
    · simp [hi, hlt]
    · simp [hi, Ne.symm hi]
  · next hlt =>
    have hoff : off = es.length := by omega
    rw [List.getElem?_append]
    by_cases hi : i = off
    · simp [hi, hoff]
    rw [if_neg hi]
    split
    · rfl
    · rw [List.getElem?_eq_none (by simp; omega), List.getElem?_eq_none (by omega)]

/-- A fresh name keeps the names unique. -/
lemma Unique.put (hu : Unique es) (h : off ≤ es.length) (hnew : Fresh es off e) :
    Unique (putEntry es off e) := by
  intro i j a b ha hb hainum hbinum hname
  rw [putEntry_getElem? h] at ha hb
  by_cases hi : i = off
  · by_cases hj : j = off
    · rw [hi, hj]
    rw [if_pos hi] at ha
    rw [if_neg hj] at hb
    cases ha
    exact absurd hname.symm (hnew hainum j b hj hb hbinum)
  by_cases hj : j = off
  · rw [if_neg hi] at ha
    rw [if_pos hj] at hb
    cases hb
    exact absurd hname (hnew hbinum i a hi ha hainum)
  · rw [if_neg hi] at ha
    rw [if_neg hj] at hb
    exact hu i j a b ha hb hainum hbinum hname

/-- Writing an entry: its name is found there, and the name that was there no more. -/
lemma findEntry_put (hu : Unique es) (h : off ≤ es.length) (hnew : Fresh es off e) (n : Name) :
    findEntry (putEntry es off e) n = if e.inum ≠ 0 ∧ e.name = n then some (e, off)
      else if es[off]?.any (fun e' => e'.inum ≠ 0 ∧ e'.name = n) then none else findEntry es n := by
  have hiff : ∀ a i, findEntry (putEntry es off e) n = some (a, i) ↔
      (if i = off then some e else es[i]?) = some a ∧ a.inum ≠ 0 ∧ a.name = n := fun a i => by
    rw [findEntry_iff (hu.put h hnew), putEntry_getElem? h]
  split_ifs with hmatch hold
  · rw [hiff, if_pos rfl]
    exact ⟨rfl, hmatch⟩
  · obtain ⟨e', he', hinum', hname'⟩ : ∃ e', es[off]? = some e' ∧ e'.inum ≠ 0 ∧ e'.name = n := by
      simpa [Option.any_eq_true] using hold
    refine Option.eq_none_iff_forall_ne_some.mpr fun ⟨a, i⟩ ha => ?_
    obtain ⟨ha, hinum, hname⟩ := (hiff a i).mp ha
    split_ifs at ha with hi
    · cases ha
      exact hmatch ⟨hinum, hname⟩
    · exact hi (hu i off a e' ha he' hinum hinum' (hname.trans hname'.symm))
  · ext ⟨a, i⟩
    rw [hiff, findEntry_iff hu]
    split_ifs with hi
    · refine iff_of_false (fun ⟨ha, hm⟩ => ?_) fun ⟨ha, hm⟩ => hold ?_
      · cases ha
        exact hmatch hm
      · rw [← hi, ha]
        simpa using hm
    · rfl

lemma fresh_of_none (hfree : findEntry es name = none) (off inum : Nat) (type : FType) :
    Fresh es off ⟨inum, type, name⟩ := fun _ _ e' _ he' hinum heq =>
  findEntry_eq_none.mp hfree e' (List.mem_of_getElem? he') ⟨hinum, heq⟩

/-! ## Directories -/

variable {c : Card} {d : Ino} {name1 name2 : Name}

lemma lookup_dir (hdir : (c d).attrs.type = .dir) (n : Name) :
    lookup c d n = (findEntry (c d).entries n).map fun e => ⟨d.dev, e.1.inum⟩ := if_pos hdir

lemma findEntry_lt (h : findEntry (c d).entries name = some (e, off)) :
    off < (c d).entries.length :=
  (List.getElem?_eq_some_iff.mp (findEntry_some h).1).1

section

variable (hu : Unique (c d).entries) (hdir : (c d).attrs.type = .dir)
include hu hdir

/-- What the names lead to after an entry was put. -/
lemma lookup_put (h : off ≤ (c d).entries.length) (hnew : Fresh (c d).entries off e) (d' : Ino)
    (n : Name) :
    lookup (c.setEntry d off e) d' n = if d' = d ∧ e.inum ≠ 0 ∧ e.name = n then some ⟨d.dev, e.inum⟩
      else if d' = d ∧ (c d).entries[off]?.any (fun e' => e'.inum ≠ 0 ∧ e'.name = n) then none
      else lookup c d' n := by
  by_cases hd : d' = d
  · subst hd
    rw [lookup_dir (by simpa), Card.setEntry_self]
    simp only [lookup_dir hdir, findEntry_put hu h hnew, true_and]
    split_ifs <;> rfl
  · rw [if_neg fun h => hd h.1, if_neg fun h => hd h.1, lookup, lookup, Card.setEntry_of_ne hd]

/-- **An entry is cleared.** -/
lemma lookup_clear (h : findEntry (c d).entries name = some (e, off)) (d' : Ino) (n : Name) :
    lookup (c.setEntry d off .empty) d' n = if d' = d ∧ n = name then none else lookup c d' n := by
  obtain ⟨hget, hinum, rfl, -⟩ := findEntry_some h
  rw [lookup_put hu hdir (findEntry_lt h).le fun h => absurd rfl h]
  simp [hget, hinum, Dirent.empty, eq_comm]

/-- **An entry is given another name.** -/
lemma lookup_rename (type : FType)
    (h : findEntry (c d).entries name1 = some (e, off))
    (hfree : findEntry (c d).entries name2 = none) (d' : Ino) (n : Name) :
    lookup (c.setEntry d off ⟨e.inum, type, name2⟩) d' n =
      if d' = d ∧ n = name1 then none else if d' = d ∧ n = name2 then some ⟨d.dev, e.inum⟩
      else lookup c d' n := by
  obtain ⟨hget, hinum, rfl, -⟩ := findEntry_some h
  have hne : e.name ≠ name2 := by
    rintro rfl
    rw [h] at hfree
    cases hfree
  rw [lookup_put hu hdir (findEntry_lt h).le (fresh_of_none hfree _ _ _)]
  by_cases hn : n = name2
  · simp [hn, hget, hinum, hne, hne.symm]
  · simp [hget, hinum, hn, Ne.symm hn, eq_comm]

/-- **An entry is added.** -/
lemma lookup_add {inum : Nat} (type : FType)
    (hinum : inum ≠ 0) (hfree : findEntry (c d).entries name = none) (d' : Ino) (n : Name) :
    lookup (c.setEntry d (freeEntry (c d).entries) ⟨inum, type, name⟩) d' n =
      if d' = d ∧ n = name then some ⟨d.dev, inum⟩ else lookup c d' n := by
  have hslot : (c d).entries[freeEntry (c d).entries]?.any
      (fun e' => e'.inum ≠ 0 ∧ e'.name = n) = false := by
    cases hget : (c d).entries[freeEntry (c d).entries]? with
    | none => rfl
    | some e' => simp [freeEntry_free hget]
  rw [lookup_put hu hdir (freeEntry_le _) (fresh_of_none hfree _ _ _)]
  simp only [hslot, hinum, Bool.false_eq_true, and_false, if_false, ne_eq,
    not_false_eq_true, true_and, @eq_comm _ name n]

/-- **An entry is unlinked.** -/
lemma lookup_unlinked (h : findEntry (c d).entries name = some (e, off)) (ip d' : Ino) (n : Name) :
    lookup (c.unlinked d ip off) d' n = if d' = d ∧ n = name then none else lookup c d' n := by
  unfold Card.unlinked
  rw [lookup_setAttrs decLink_type]
  split
  · rw [lookup_setAttrs decLink_type, lookup_clear hu hdir h]
  · rw [lookup_clear hu hdir h]

end

lemma lookup_free (ip d' : Ino) (n : Name) :
    lookup (c.free ip) d' n = if d' = ip then none else lookup c d' n := by
  unfold lookup
  by_cases hd : d' = ip
  · simp [hd, Dinode.freed]
  · simp [hd]

/-! ## Paths -/

/-- The names that a path looks up, with their directories. -/
def way (card : Card) : Ino → List Name → List (Ino × Name)
  | _, [] => []
  | d, name :: names => (d, name) ::
      match lookup card d name with
      | none => []
      | some q => way card q names

variable {card card' : Card} {q : Ino} {names rest : List Name} {x : Ino × Name}

lemma way_cons_some (h : lookup card d name = some q) (names : List Name) :
    way card d (name :: names) = (d, name) :: way card q names := by
  simp only [way, h]

lemma resolve_append : resolve card d (names ++ rest) =
    (resolve card d names).bind fun q => resolve card q rest := by
  induction names generalizing d with
  | nil => rfl
  | cons name names ih =>
    show (lookup card d name).bind _ = ((lookup card d name).bind _).bind _
    rw [Option.bind_assoc]
    exact Option.bind_congr fun q _ => ih

/-- **A path that uses no changed name keeps its meaning.** -/
lemma resolve_of_avoids (h : ∀ x ∈ way card d names, lookup card' x.1 x.2 = lookup card x.1 x.2) :
    resolve card' d names = resolve card d names := by
  induction names generalizing d with
  | nil => rfl
  | cons name names ih => ?_
  have hfirst : lookup card' d name = lookup card d name := h (d, name) (List.mem_cons_self ..)
  show (lookup card' d name).bind _ = (lookup card d name).bind _
  rw [hfirst]
  refine Option.bind_congr fun q hq => ih fun x hx => h x ?_
  rw [way_cons_some hq]
  exact List.mem_cons_of_mem _ hx

/-- A path whose way has lost a name leads nowhere. -/
lemma resolve_eq_none (hx : x ∈ way card d names) (hgone : lookup card' x.1 x.2 = none)
    (h : ∀ y ∈ way card d names, lookup card' y.1 y.2 = none ∨
    lookup card' y.1 y.2 = lookup card y.1 y.2) :
    resolve card' d names = none := by
  induction names generalizing d with
  | nil => cases hx
  | cons name names ih => ?_
  show (lookup card' d name).bind _ = none
  rcases h (d, name) (List.mem_cons_self ..) with hnone | hsame
  · rw [show lookup card' d name = none from hnone]
    rfl
  replace hsame : lookup card' d name = lookup card d name := hsame
  rcases hq : lookup card d name with - | q
  · rw [hsame, hq]
    rfl
  rw [way_cons_some hq] at hx h
  rw [hsame, hq]
  rcases List.mem_cons.mp hx with rfl | hx
  · rw [hsame, hq] at hgone
    cases hgone
  · exact ih hx fun y hy => h y (List.mem_cons_of_mem _ hy)

/-- On the way of a path that resolves every name is there. -/
lemma lookup_ne_none_of_way (h : resolve card d names = some q) (hx : x ∈ way card d names) :
    lookup card x.1 x.2 ≠ none := by
  induction names generalizing d with
  | nil => cases hx
  | cons name names ih => ?_
  obtain ⟨d', hd', hq⟩ := Option.bind_eq_some_iff.mp h
  rw [way_cons_some hd'] at hx
  rcases List.mem_cons.mp hx with rfl | hx
  · rw [hd']
    exact Option.some_ne_none d'
  · exact ih hq hx

/-- The last name is on the way. -/
lemma last_mem_way (h : resolve card d names = some q) (name : Name) :
    (q, name) ∈ way card d (names ++ [name]) := by
  induction names generalizing d with
  | nil =>
    cases h
    exact List.mem_cons_self ..
  | cons first names ih =>
    obtain ⟨d', hd', hq⟩ := Option.bind_eq_some_iff.mp h
    rw [List.cons_append, way_cons_some hd']
    exact List.mem_cons_of_mem _ (ih hq)

/-- A path is its directory and its last name. -/
lemma resolveParent_split (h : resolveParent card d names = some (q, name)) :
    names = names.dropLast ++ [name] ∧ resolve card d names.dropLast = some q ∧
      (card q).attrs.type = .dir := by
  obtain ⟨last, hlast, h⟩ := Option.bind_eq_some_iff.mp h
  obtain ⟨q', hq', h⟩ := Option.bind_eq_some_iff.mp h
  split at h
  · next hdir =>
    cases h
    exact ⟨(List.dropLast_append_getLast? name hlast).symm, hq', hdir⟩
  · cases h

end RpiOs.Vfs
