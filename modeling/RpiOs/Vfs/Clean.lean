import RpiOs.Vfs.Rename

/-!
# Calls that give back what they take

The calls that work on paths begin a transaction, lock inodes, and have many returns. Which of them
leave the logs and the locks as they found them is said in terms of what is on the card: `resolve`
and `resolveParent` are what a path means. The condition of `fileunlink` is for any state, and is
therefore about the inode that its lookup finds; on the cards here it always holds.

* `filerename_settles`, `mount_settles`, `sysMknodat_settles`: the three calls that can miss an
  `end_op`, or leave a lock, on a card on which nothing is mounted and every name leads to an inode
  with links.
* **`call_balanced_iff`**: a call that returns is balanced exactly if it is clean.
-/

namespace RpiOs.Vfs

open Lib Function

variable {s t : Sys} {v : View} {path path1 path2 : List Char} {ip devi dp : Ino} {a : RenameArgs}

/-! ## Unlinking and renaming -/

/-- On a card on which names lead to inodes with links, the return of `fileunlink` that keeps its
locks is not met. -/
lemma Calm.unlinkClean (hs : Calm s) (path : List Char) : UnlinkClean path s := by
  refine (unlinkFind_spec hs path).mono ?_
  rintro _ t h dp ip off rfl
  obtain ⟨name, e, htarget, -, hloaded, hcached⟩ := h
  have hlink : (s.card ip).attrs.nlink ≠ 0 := by
    rw [htarget.inode]
    obtain ⟨hget, hinum, -⟩ := findEntry_some htarget.entry
    exact hs.linked dp (hs.resolveParent_dir htarget.parent).1 e (List.mem_of_getElem? hget) hinum
  rw [hcached.coherent.attrs_of_loaded hloaded, hcached.card_eq]
  omega

/-- Then it gives everything back. -/
lemma Calm.fileunlink (hs : Calm s) (path : List Char) (removedir : Bool) :
    Post (fileunlink path removedir) s fun _ t => t.view = s.view :=
  (fileunlink_view path removedir).mono fun _ _ h =>
    (h.resolve_right fun hbad => hbad.1 (hs.unlinkClean path)).2

/-- `rename` fails only if the name is not there. -/
lemma rename_fails (hs : Coherent s) (name1 name2 : Name) :
    Post (rename dp name1 name2) s fun r _ => r.toBool = false → lookup s.card dp name1 = none := by
  refine (ilock_spec hs).step fun _ t ht => ?_
  refine (dirlookup_spec ht.1.coherent ht.2.1).step ?_
  rintro r u ⟨hdir, hu⟩
  rw [ht.1.card_eq] at hdir hu
  rcases r with - | r
  · refine .pure fun _ => ?_
    rw [lookup, if_pos hdir, hu.2]
    rfl
  · exact post_of_run fun _ _ _ => post_of_run fun _ _ _ => post_of_run fun _ _ _ =>
      post_of_run fun _ _ _ => post_of_run fun _ _ _ => post_of_run fun _ _ _ =>
        post_of_run fun _ _ _ =>
        .pure (by rintro ⟨⟩)

/-- `reinode` fails only if the directory does not name the inode. -/
lemma reinode_fails (hs : Coherent s) (oldIp newIp : Ino) :
    Post (reinode dp oldIp newIp) s fun r _ =>
      r.toBool = false → ∀ e ∈ (s.card dp).entries, e.inum ≠ oldIp.inum := by
  refine (ilock_spec hs).step fun _ t ht => (ilock_spec ht.1.coherent).step fun _ u hu =>
    (ilock_spec hu.1.coherent).step fun _ w hw => ?_
  have hcard : w.card = s.card := by rw [hw.1.card_eq, hu.1.card_eq, ht.1.card_eq]
  refine .bind (.get ?_)
  rw [hcard]
  split
  · refine .pure ?_
    cases hfind : (s.card dp).entries.findIdx? fun e => e.inum = oldIp.inum with
    | none =>
      refine .pure fun _ e he heq => ?_
      have := List.findIdx?_eq_none_iff.mp hfind e he
      simp [heq] at this
    | some i =>
      obtain ⟨hlt, -⟩ := List.findIdx?_eq_some_iff_getElem.mp hfind
      rw [Option.bind_some, List.getElem?_eq_getElem hlt]
      exact post_of_run fun _ _ _ => post_of_run fun _ _ _ => post_of_run fun _ _ _ =>
        post_of_run fun _ _ _ => post_of_run fun _ _ _ => post_of_run fun _ _ _ =>
          post_of_run fun _ _ _ =>
          .pure nofun
  · exact post_throw _

/-- `filerename` is not given two names of one inode, nor two names in one directory that are both
there. -/
def RenameClean (s : Sys) (path1 path2 : List Char) : Prop :=
  ∀ ip1 ip2, s.resolve path1 = some ip1 → s.resolve path2 = some ip2 →
    ip1 ≠ ip2 ∧ (s.resolveParent path1).map Prod.fst ≠ (s.resolveParent path2).map Prod.fst

section rename

variable (ha : Args s t path1 path2 a) (hview : t.view = s.view.addOps 1)
include ha hview

/-- In the same directory, without a target. -/
lemma renameHere_settles : Post (renameHere a) t fun _ u => u.view = s.view := by
  obtain ⟨δ, hδ, hcached⟩ := ha.cached
  have hgives := Gives.renameHere a t hview
  unfold renameHere at hgives ⊢
  rcases hdn1 : a.dn1 with - | ⟨dp1, name1⟩
  · exact .bind (post_throw _)
  rcases hdn2 : a.dn2 with - | ⟨dp2, name2⟩
  · exact .bind (.pure (.bind (post_throw _)))
  rw [hdn1, hdn2] at hgives
  have hfound : lookup t.card dp1 name1 = some a.ip1 := by
    rw [hcached.card_eq, lookup_last (ha.dn1.symm.trans hdn1), ha.ip1]
  have hok : Post (do let r ← rename dp1 name1 name2; endOp; pure r) t fun r _ =>
      r.toBool = true := by
    refine (rename_fails hcached.coherent name1 name2).step fun r u hr =>
      post_of_run fun _ _ _ => .pure ?_
    cases hbool : r.toBool with
    | true => rfl
    | false => exact absurd (hr hbool) (by rw [hfound]; exact Option.some_ne_none _)
  exact (Post.and hgives hok).mono fun r u h => h.1.1 h.2

/-- Into another directory, without a target. -/
lemma renameLink_settles (hs : Rooted s) : Post (thenUnlink (renameLink a) path1) t fun _ u =>
    u.view = s.view := by
  refine ((renameLink_calm hs ha).and (Gives.renameLink a t hview)).step ?_
  rintro r u ⟨hcalm, hu⟩
  cases r with
  | error e => exact .pure hu
  | ok removedir =>
    exact ((hcalm removedir rfl).fileunlink path1 removedir).mono fun _ w hw => hw.trans hu

/-- With a target: in the same directory `end_op` is missing. -/
lemma renameReplace_settles (hs : Rooted s) {ip2 : Ino} (hip2 : a.ip2 = some ip2) :
    Post (thenUnlink (renameReplace a ip2) path2) t fun _ u =>
      View.Settles (a.sameDir = false) s.view u.view := by
  obtain ⟨δ, hδ, hcached⟩ := ha.cached
  have hres2 : s.resolve path2 = some ip2 := ha.ip2.symm.trans hip2
  -- the directory has an entry for the target
  have hok : Post (renameReplace a ip2) t fun r _ => r.toBool = true := by
    unfold renameReplace
    rcases hdn2 : a.dn2 with - | ⟨dp2, name2⟩
    · exact .bind (post_throw _)
    refine .bind (.pure ((reinode_fails hcached.coherent ip2 a.ip1).step fun r u hr => ?_))
    refine post_of_run fun _ _ _ => post_of_run fun _ _ _ => .pure ?_
    cases r with
    | ok _ => rfl
    | error e =>
      obtain ⟨-, e', he', -, heq⟩ :=
        entry_of_lookup ((lookup_last (ha.dn2.symm.trans hdn2)).trans hres2)
      rw [hcached.card_eq] at hr
      exact absurd (congrArg Ino.inum heq) (hr rfl e' he')
  refine (((ha.renameReplace_spec hs hip2).and (Gives.renameReplace a ip2 t hview)).and hok).step ?_
  rintro r u ⟨⟨hcalm, hu, -⟩, hbool⟩
  replace hu : u.view = _ := hu hbool
  cases r with
  | error e => cases hbool
  | ok removedir =>
    refine ((hcalm removedir rfl).1.fileunlink path2 removedir).mono fun _ w hw => ?_
    rw [hw, hu]
    cases a.sameDir with
    | false => exact .inl ⟨rfl, rfl⟩
    | true => exact .inr ⟨by simp, View.not_same_begin⟩

end rename

/-- **Renaming settles exactly if it is clean.** -/
theorem filerename_settles (hs : Rooted s) (path1 path2 : List Char) :
    Post (filerename path1 path2) s fun _ t =>
      View.Settles (RenameClean s path1 path2) s.view t.view := by
  refine ((renameFind_spec hs.calm path1 path2).and (Gives.renameFind path1 path2 s rfl)).step ?_
  rintro r t ⟨⟨hnone, hargs⟩, hview⟩
  rcases r with - | a
  · refine .pure (.inl ⟨fun ip1 _ h => ?_, hview⟩)
    rw [hnone rfl] at h
    cases h
  have ha := hargs a rfl
  replace hview : t.view = s.view.addOps 1 := hview
  -- what the condition comes to for the inodes that were found
  have hclean : RenameClean s path1 path2 ↔ ∀ ip2, a.ip2 = some ip2 →
      a.ip1 ≠ ip2 ∧ a.sameDir = false := by
    unfold RenameClean RenameArgs.sameDir
    rw [ha.ip1, ← ha.ip2, ← ha.dn1, ← ha.dn2]
    simp only [Option.some.injEq, decide_eq_false_iff_not, ne_eq]
    exact ⟨fun h ip2 => h _ ip2 rfl, fun h _ ip2 heq => heq ▸ h ip2⟩
  rw [hclean]
  show Post (if a.ip2 = some a.ip1 then _ else _) t _
  cases hip2 : a.ip2 with
  | none =>
    rw [if_neg (by simp)]
    have hvacuous : ∀ ip2, (none : Option Ino) = some ip2 → a.ip1 ≠ ip2 ∧ a.sameDir = false := nofun
    show Post (if a.sameDir = true then _ else _) t _
    split
    · exact (renameHere_settles ha hview).mono fun _ u hu => .inl ⟨hvacuous, hu⟩
    · exact (renameLink_settles ha hview hs).mono fun _ u hu => .inl ⟨hvacuous, hu⟩
  | some ip2 =>
    simp only [Option.some.injEq, forall_eq']
    by_cases heq : ip2 = a.ip1
    · rw [if_pos (by rw [heq])]
      refine .pure (.inr ⟨fun h => h.1 heq.symm, ?_⟩)
      rw [hview]
      exact View.not_same_begin
    · rw [if_neg (by simpa using heq)]
      have hiff : a.ip1 ≠ ip2 ∧ a.sameDir = false ↔ a.sameDir = false := and_iff_right (Ne.symm heq)
      rw [hiff]
      exact renameReplace_settles ha hview hs hip2

/-! ## Mounting -/

section mounting

/-- A log is switched on. -/
def View.switch (v : View) (m : Nat) : View := { v with enabled := update v.enabled m true }

/-- A log that is switched on inside a transaction ends one more than it began. -/
lemma View.settles_switch {m : Nat} (hm : m < nlog) :
    View.Settles (v.enabled m = true) v (((v.addOps 1).switch m).addOps (-1)) := by
  by_cases hsame : v.enabled m = true
  · have hswitch : (v.addOps 1).switch m = v.addOps 1 := by
      unfold View.switch
      rw [show (v.addOps 1).enabled = v.enabled from rfl, ← hsame, update_eq_self]
      rfl
    exact .inl ⟨hsame, by rw [hswitch, View.end_begin]⟩
  refine .inr ⟨hsame, fun h => ?_⟩
  have hout : v.outstanding m + -1 = v.outstanding m := by
    simpa [View.switch, View.addOps, hm, hsame] using congrFun h.2.1 m
  omega

lemma Gives.mountBad (e : Errno) (hip : v.held ip = false)
    (hdevi : (v.lock ip true).held devi = false) :
    Gives (mountBad ip devi e) (((v.lock ip true).lock devi true).addOps 1) fun _ w => w = v :=
  .unlockput (v := (v.lock ip true).addOps 1) hdevi <| .iunlockput_end hip (.pure rfl)

lemma Gives.mountFind (source target : List Char) : Gives (mountFind source target) v fun r w =>
    w = if r.isSome then v.addOps 1 else v := by
  refine .bind (.beginOp (.step (.namei target) fun r => ?_))
  split
  · exact .ends (.pure rfl)
  refine .step (.namei source) fun r => ?_
  split
  · exact .ends (.pure rfl)
  · exact .pure rfl

/-- While nothing is mounted, the search takes the first free slot that no entry of the device comes
before. -/
lemma mountSlot_isSome {T : Nat → Mntentry} (hT : ∀ i, (T i).mInode = none) (minor : Nat) (ip : Ino)
    (n i : Nat) :
    (mountSlot T minor ip n i).isSome = true ↔ ∃ k, i ≤ k ∧ k < i + n ∧ (T k).used = false ∧
      ∀ j, i ≤ j → j < k → (T j).used = true → (T j).dev ≠ some minor := by
  induction n generalizing i with
  | zero =>
    refine iff_of_false Bool.false_ne_true ?_
    rintro ⟨k, hk, hk', -⟩
    omega
  | succ n ih => ?_
  unfold mountSlot
  cases hused : (T i).used with
  | false =>
    exact iff_of_true rfl ⟨i, le_refl i, by omega, hused, fun j hj hj' => by omega⟩
  | true =>
    rw [if_neg (by simp), hT i]
    by_cases hdev : (T i).dev = some minor
    · rw [if_pos hdev]
      refine iff_of_false Bool.false_ne_true ?_
      rintro ⟨k, hk, -, hfree, hno⟩
      have hne : k ≠ i := by
        rintro rfl
        rw [hused] at hfree
        cases hfree
      exact hno i (le_refl i) (by omega) hused hdev
    rw [if_neg hdev, if_neg (by simp), ih]
    constructor
    · rintro ⟨k, hk, hk', hfree, hno⟩
      refine ⟨k, by omega, by omega, hfree, fun j hj hj' => ?_⟩
      by_cases hji : j = i
      · exact fun _ => hji ▸ hdev
      · exact hno j (by omega) hj'
    · rintro ⟨k, hk, hk', hfree, hno⟩
      have hne : k ≠ i := by
        rintro rfl
        rw [hused] at hfree
        cases hfree
      exact ⟨k, by omega, by omega, hfree, fun j hj hj' => hno j (by omega) hj'⟩

/-- The file system's own part: whether there is a slot, and the log. -/
lemma fsMount_view (fs : FsType) (minor : Nat) :
    Post (fsMount fs minor ip) s fun done t =>
      (done = true ↔ (mountSlot s.mpoint minor ip mountsize 0).isSome = true) ∧
        t.view = (if done = true ∧ fs = .v6 then s.view.switch minor else s.view) ∧
        (done = true → fs = .v6 → minor < nlog) := by
  have hget : Post (iget ⟨minor, fs.rootino⟩ .dir) s fun _ t => t.mpoint = s.mpoint ∧
      t.view = s.view := by
    refine Post.and (iget_run.mono ?_) (Neutral.iget .dir s)
    rintro r t (⟨-, -, rfl⟩ | ⟨-, -, rfl⟩) <;> rfl
  refine hget.step ?_
  rintro devrtip u ⟨hmpoint, hview⟩
  refine .get ?_
  rw [hmpoint]
  cases mountSlot s.mpoint minor ip mountsize 0 with
  | none => exact .pure ⟨by simp, by simpa using hview, nofun⟩
  | some i =>
    refine .modify (.bind (post_onlyIf (fun hv6 => ?_) fun hv6 => ?_))
    · refine .bind (post_stopIf fun hm =>
        (post_modify _).mpr (.pure ⟨by simp, ?_, fun _ _ => by omega⟩))
      rw [if_pos ⟨rfl, hv6⟩, ← hview]
      rfl
    · refine .pure ⟨by simp, ?_, fun _ h => absurd h hv6⟩
      rw [if_neg fun h => hv6 h.2, ← hview]
      rfl

/-- The call comes to the file system's own part, with `refs` references on the mount point, and
there is a slot: a free one that no entry of the device comes before. -/
structure Mounts (card : Card) (T : Nat → Mntentry) (refs : Int) (mem : Bool) (ip devi : Ino) :
    Prop where
  point : (card ip).attrs.type = .dir ∨ refs ≤ 1
  device : (card devi).attrs.type = .dev
  minor : (card devi).attrs.minor ≠ fatminor ∧ (card devi).attrs.minor ≠ rootdev
  mem : mem = true
  slot : ∃ i < mountsize, (T i).used = false ∧
    ∀ j < i, (T j).used = true → (T j).dev ≠ some (card devi).attrs.minor

/-- While nothing is mounted, these are the tests that are made. -/
lemma mounts_iff {card : Card} {T : Nat → Mntentry} {refs : Int} {mem : Bool}
    (hT : ∀ i, (T i).mInode = none) : Mounts card T refs mem ip devi ↔
      ¬((card ip).attrs.type ≠ .dir ∧ 1 < refs) ∧
      ¬((card devi).attrs.type ≠ .dev ∨ (card devi).attrs.minor = fatminor ∨
        (card devi).attrs.minor = rootdev ∨ mem = false) ∧
      (mountSlot T (card devi).attrs.minor ip mountsize 0).isSome = true := by
  rw [mountSlot_isSome hT]
  simp only [not_and_or, not_or, not_not, not_lt, Bool.not_eq_false, Nat.zero_le,
    Nat.zero_add, true_and, true_implies]
  exact ⟨fun h => ⟨h.point, ⟨h.device, h.minor.1, h.minor.2, h.mem⟩, h.slot⟩,
    fun ⟨h1, ⟨h2, h3, h4, h5⟩, h6⟩ => ⟨h1, h2, ⟨h3, h4⟩, h5, h6⟩⟩

/-- The last steps of a mount give the locks back. -/
lemma mountDone_gives (hip : v.held ip = false) (hdevi : (v.lock ip true).held devi = false) :
    Gives (do
      modifyAttrs ip fun a => { a with type := .mount }
      iunlock devi
      iunlock ip
      endOp
      pure (.ok ()) : V (Except Errno Unit)) ((v.lock ip true).lock devi true) fun _ w =>
        w = v.addOps (-1) := by
  refine .step (.modifyAttrs _) fun _ => .bind (.iunlock (.bind (.iunlock ?_)))
  rw [View.unlock hdevi, View.unlock hip]
  exact .bind fun s hs => (post_modify _).mpr (.pure (by rw [view_addOps, hs]))

/-- **From the locks on, everything is given back**, but a v6 file system that is mounted has
switched its log on. -/
lemma mountAt_view (hs : Coherent t) (hview : t.view = v.addOps 1) (fs : FsType) (mem : Bool) :
    Post (mountAt fs ip devi mem) t fun _ u =>
      fs = .v6 ∧ Mounts t.card t.mpoint (t.icache ip).ref mem ip devi ∧
          (t.card devi).attrs.minor < nlog ∧
          u.view = ((v.addOps 1).switch (t.card devi).attrs.minor).addOps (-1) ∨
        ¬(fs = .v6 ∧ Mounts t.card t.mpoint (t.icache ip).ref mem ip devi) ∧ u.view = v := by
  rw [mounts_iff fun i => (hs.nomount i).1]
  refine ((ilock_spec hs).and (Gives.ilock (v := v.addOps 1) (Q := fun _ w => v.held ip = false ∧
    w = (v.lock ip true).addOps 1) (fun hip => ⟨hip, rfl⟩) t hview)).step ?_
  rintro - u ⟨⟨hu, hloaded, -⟩, hip, hview⟩
  refine ((ilock_spec hu.coherent).and (Gives.ilock (v := (v.lock ip true).addOps 1)
    (Q := fun _ w => (v.lock ip true).held devi = false ∧
      w = ((v.lock ip true).lock devi true).addOps 1) (fun hdevi => ⟨hdevi, rfl⟩) u hview)).step ?_
  rintro - w ⟨⟨hw, hloaded', helse⟩, hdevi, hview⟩
  -- what the two inodes hold is what is on the card
  have hattrs : (w.icache ip).attrs = (t.card ip).attrs := by
    rw [helse ip (View.ne_of_lock hdevi).1.symm, hu.coherent.attrs_of_loaded hloaded, hu.card_eq]
  have hdev : (w.icache devi).attrs = (t.card devi).attrs := by
    rw [hw.coherent.attrs_of_loaded hloaded', hw.card_eq, hu.card_eq]
  have href : (w.icache ip).ref = (t.icache ip).ref := by
    rw [hw.ref_eq, hu.ref_eq]
    simp
  have hmpoint : w.mpoint = t.mpoint := by
    rw [hw.frame, hu.frame]
  have hbad : ∀ (x : Sys) (e : Errno), x.view = w.view →
      Post (mountBad ip devi e) x fun _ u => u.view = v :=
    fun x e hx => Gives.mountBad e hip hdevi x (hx.trans hview)
  refine .bind (.get (.pure (.bind (.get (.pure ?_)))))
  rw [hattrs, href, hdev]
  split
  · next h => exact (hbad w _ rfl).mono fun _ _ hy => .inr ⟨fun hc => hc.2.1 h, hy⟩
  split
  · next h => exact (hbad w _ rfl).mono fun _ _ hy => .inr ⟨fun hc => hc.2.2.1 h, hy⟩
  next hpoint hdevice =>
  refine .modify ((fsMount_view (s := { w with vfsmlist := _ }) fs _).step ?_)
  rintro done x ⟨hdone, hx, hlog⟩
  change done = true ↔ (mountSlot w.mpoint _ ip mountsize 0).isSome = true at hdone
  change x.view = (if done = true ∧ fs = .v6 then w.view.switch (t.card devi).attrs.minor
    else w.view) at hx
  rw [← hmpoint, ← hdone]
  by_cases hswitch : fs = .v6 ∧ done = true
  · obtain ⟨hv6, rfl⟩ := hswitch
    rw [if_pos ⟨rfl, hv6⟩, hview] at hx
    rw [if_pos rfl]
    exact (mountDone_gives (v := (v.addOps 1).switch (t.card devi).attrs.minor) hip hdevi x hx).mono
      fun _ _ hy => .inl ⟨hv6, ⟨hpoint, hdevice, rfl⟩, hlog rfl hv6, hy⟩
  rw [if_neg fun h => hswitch ⟨h.2, h.1⟩] at hx
  suffices h : Post _ x fun _ u => u.view = v from
    h.mono fun _ _ hy => .inr ⟨fun hc => hswitch ⟨hc.1, hc.2.2.2⟩, hy⟩
  split
  · refine (mountDone_gives (v := v.addOps 1) hip hdevi x (hx.trans hview)).mono fun _ _ hy => ?_
    rw [hy, View.end_begin]
  · exact hbad x _ hx

/-- The references on the mount point when both paths have been followed. -/
def Sys.mountRefs (s : Sys) (source target : List Char) (ip devi : Ino) : Int :=
  (s.icache ip).ref + (1 + s.leaks false target ip) +
    (gained (some devi) ip + s.leaks false source ip)

/-- The type of the file system is known, and a v6 file system that is mounted has its log in use
already. -/
def MountClean (s : Sys) (source target : List Char) (fs : Option FsType) (mem : Bool) : Prop :=
  ∀ ip devi, s.resolve target = some ip → s.resolve source = some devi →
    fs ≠ none ∧ (fs = some .v6 → Mounts s.card s.mpoint (s.mountRefs source target ip devi)
      mem ip devi → s.logEnabled (s.card devi).attrs.minor = true)

/-- `mount` finds its two inodes, and what the walks leave on them. -/
lemma mountFind_spec (hs : Calm s) (source target : List Char) :
    Post (mountFind source target) s fun r t =>
      match r with
      | none => s.resolve target = none ∨ s.resolve source = none
      | some (ip, devi) => s.resolve target = some ip ∧ s.resolve source = some devi ∧
          ∃ δ, Cached s t δ ∧ (s.icache ip).ref + δ ip = s.mountRefs source target ip devi := by
  refine (beginOp_spec hs.coherent).step fun _ t ht => ?_
  have hcalm : Calm t := hs.of_cached ht fun _ => le_refl 0
  refine (namei_spec hcalm target).step fun r u hu => ?_
  rw [ht.resolve_eq, ht.leaks_eq] at hu
  have h1 : Cached s u _ := ht.cached hu.2
  rcases r with - | ip
  · exact post_of_run fun _ _ _ => .pure (.inl hu.1.symm)
  have hcalm1 : Calm u := hs.of_cached h1 fun q => by
    have := gained_nonneg (some ip) q
    have := s.leaks_nonneg false target q
    omega
  refine (namei_spec hcalm1 source).step fun r w hw => ?_
  rw [Cached.resolve_eq h1, Cached.leaks_eq h1] at hw
  rcases r with - | devi
  · exact post_of_run fun _ _ _ => .pure (.inr hw.1.symm)
  refine .pure ⟨hu.1.symm, hw.1.symm, _, h1.cached hw.2, ?_⟩
  have hself : gained (some ip) ip = 1 := if_pos rfl
  rw [hself]
  unfold Sys.mountRefs
  omega

/-- **Mounting settles exactly if it is clean.** -/
theorem mount_settles (hs : Calm s) (source target : List Char) (fs : Option FsType) (mem : Bool) :
    Post (mount source target fs mem) s fun _ t =>
      View.Settles (MountClean s source target fs mem) s.view t.view := by
  refine ((mountFind_spec hs source target).and (Gives.mountFind source target s rfl)).step ?_
  rintro r t ⟨hr, hview⟩
  rcases r with - | ⟨ip, devi⟩
  · refine .pure (.inl ⟨fun ip devi hip hdevi => ?_, hview⟩)
    rcases hr with h | h
    · cases h.symm.trans hip
    · cases h.symm.trans hdevi
  obtain ⟨hip, hdevi, δ, hcached, hrefs⟩ := hr
  replace hview : t.view = s.view.addOps 1 := hview
  -- the condition at the two inodes that were found
  have hclean : MountClean s source target fs mem ↔ fs ≠ none ∧ (fs = some .v6 →
      Mounts s.card s.mpoint (s.mountRefs source target ip devi) mem ip devi →
        s.logEnabled (s.card devi).attrs.minor = true) := by
    refine ⟨fun h => h ip devi hip hdevi, fun h ip' devi' hip' hdevi' => ?_⟩
    cases hip.symm.trans hip'
    cases hdevi.symm.trans hdevi'
    exact h
  rw [hclean]
  cases fs with
  | none =>
    refine .pure (.inr ⟨fun h => h.1 rfl, ?_⟩)
    rw [hview]
    exact View.not_same_begin
  | some fs =>
    refine (mountAt_view hcached.coherent hview fs mem).mono fun _ u hu => ?_
    rw [hcached.card_eq, hcached.ref_eq, hrefs,
      show t.mpoint = s.mpoint by rw [hcached.frame]] at hu
    rcases hu with ⟨hv6, hmounts, hlog, hu⟩ | ⟨hno, hu⟩
    · rw [hu]
      have hsettles := View.settles_switch (v := s.view) hlog
      change View.Settles (s.logEnabled _ = true) _ _ at hsettles
      simpa [hv6, hmounts] using hsettles
    · exact .inl ⟨⟨nofun, fun hv6 h => absurd ⟨Option.some.inj hv6, h⟩ hno⟩, hu⟩

end mounting

/-! ## Creating -/

/-- `create` returns an error: there is no directory for the name, it may not be searched, or the
name is there and does not lead to a file that was asked for. -/
def CreateFails (s : Sys) (path : List Char) (type : FType) : Prop :=
  ∀ dp name, s.resolveParent path = some (dp, name) → s.me.allows (s.card dp).attrs mayExec = true →
    ∃ ip, lookup s.card dp name = some ip ∧ ¬ (type = .file ∧ (s.card ip).attrs.type = .file)

/-- When `create` fails, in terms of the card. -/
lemma create_fails_iff (hs : Calm s) (path : List Char) (type : FType) (major minor mode : Nat) :
    Post (create path type major minor mode) s fun r _ => r.toBool = false ↔
      CreateFails s path type := by
  refine (nameiparent_spec hs path).step ?_
  rintro r t ⟨hr, -, ht⟩
  rcases r with - | ⟨dp, name⟩
  · refine .pure (iff_of_true rfl fun dp name h => ?_)
    cases hr.trans h
  -- the condition at the directory that was found
  have hfails : CreateFails s path type ↔ (s.me.allows (s.card dp).attrs mayExec = true →
      ∃ ip, lookup s.card dp name = some ip ∧
        ¬ (type = .file ∧ (s.card ip).attrs.type = .file)) := by
    refine ⟨fun h => h dp name hr.symm, fun h dp' name' h' => ?_⟩
    cases hr.trans h'
    exact h
  rw [hfails]
  have hlink := (hs.resolveParent_dir hr.symm).2
  refine (ilock_spec ht.coherent).step ?_
  rintro - u ⟨hu, hloaded, -⟩
  have hcached : Cached s u _ := ht.cached hu
  refine .bind (.get (.pure ?_))
  rw [hcached.coherent.attrs_of_loaded hloaded, hcached.card_eq, hcached.me_eq]
  split
  · next hno =>
    exact post_of_run fun _ _ _ => .pure (iff_of_true rfl fun h => absurd h (by simp [hno]))
  next hallowed =>
  replace hallowed : s.me.allows (s.card dp).attrs mayExec = true := by simpa using hallowed
  refine (dirlookup_spec hcached.coherent hloaded).step ?_
  rintro r w ⟨hdir, hw⟩
  rw [hcached.card_eq] at hdir hw
  rcases r with - | ⟨ip, off⟩
  · refine post_of_run fun _ _ _ => .pure (iff_of_false nofun fun h => ?_)
    obtain ⟨ip, hip, -⟩ := h hallowed
    rw [lookup, if_pos hdir, hw.2] at hip
    cases hip
  obtain ⟨e, hfind, hip, hget, -⟩ := hw
  have hlookup : lookup s.card dp name = some ip := by
    rw [lookup, if_pos hdir, hfind, hip]
    rfl
  have hcached' := hcached.cached hget
  refine (iunlockput_spec hcached'.coherent (by rwa [hcached'.card_eq])).step fun _ x hx => ?_
  have hcached'' := hcached'.cached hx.1
  refine (ilock_spec hcached''.coherent).step ?_
  rintro - y ⟨hy, hloaded', -⟩
  refine .bind (.get (.pure ?_))
  rw [hy.coherent.attrs_of_loaded hloaded', hy.card_eq, hcached''.card_eq]
  have hiff : (s.me.allows (s.card dp).attrs mayExec = true →
    ∃ ip, lookup s.card dp name = some ip ∧
      ¬ (type = .file ∧ (s.card ip).attrs.type = .file)) ↔
        ¬ (type = .file ∧ (s.card ip).attrs.type = .file) := by
    rw [hlookup]
    simp [hallowed]
  rw [hiff]
  split
  · next hfile => exact .pure (iff_of_false nofun fun h => h hfile)
  · next hfile => exact post_of_run fun _ _ _ => .pure (iff_of_true rfl hfile)

/-- The mode is supported and `create` fails. -/
def MknodClean (s : Sys) (path : List Char) (mode : Nat) : Prop :=
  ∃ type, nodeType mode = some type ∧ CreateFails s path type

/-- **`mknodat` settles exactly if it fails in `create`**: a new inode is left locked. -/
theorem sysMknodat_settles (hs : Calm s) (path : List Char) (mode major minor : Nat) :
    Post (sysMknodat path mode major minor) s fun _ t =>
      View.Settles (MknodClean s path mode) s.view t.view := by
  refine .modify ?_
  unfold MknodClean
  split
  · next hmode => exact .pure (.inr ⟨by simp [hmode], View.not_same_begin⟩)
  · next type hmode =>
    have hadd := addOps_cached hs.coherent 1
    have hcalm : Calm (s.addOps 1) := hs.of_cached hadd fun _ => le_refl 0
    refine ((create_fails_iff hcalm path type _ _ mode).and
      (Gives.create path type _ _ mode _ rfl)).step ?_
    rintro r t ⟨hfails, hview⟩
    refine .get ?_
    rw [if_pos (by simpa using t.long_neg r)]
    refine .modify (.pure ?_)
    have hclean : (∃ type, nodeType mode = some type ∧ CreateFails s path type) ↔
        r.toBool = false := by
      rw [hfails, hmode]
      simp only [Option.some.injEq, exists_eq_left']
      rfl
    rw [hclean, view_addOps]
    replace hview : (s.addOps 1).view.Holds r t.view := hview
    cases r with
    | error e =>
      rw [show t.view = s.view.addOps 1 from hview]
      exact .inl ⟨rfl, View.end_begin⟩
    | ok ip =>
      obtain ⟨hip, ht⟩ := hview
      refine .inr ⟨nofun, View.Leaves.not_same ⟨ip, hip, ?_⟩⟩
      rw [ht]
      exact View.lock_held true

/-! ## Every call -/

/-- The calls whose balance is stated. -/
inductive Call where
  | fileopen (hops : Nat) (path : List Char) (flags : OFlags) (mode : Nat)
  | filelink (old new : List Char)
  | fileunlink (path : List Char) (removedir : Bool)
  | filerename (path1 path2 : List Char)
  | mount (source target : List Char) (fs : Option FsType) (mem : Bool)
  | umount (target : List Char)
  | mknodat (path : List Char) (mode major minor : Nat)
  | mkdirat (path : List Char) (mode : Nat)
  | getcwd (depth size : Nat)

/-- The call in the model. -/
def Call.run : Call → V Unit
  | .fileopen hops path flags mode => discard (Vfs.fileopen hops path flags mode)
  | .filelink old new => discard (Vfs.filelink old new)
  | .fileunlink path removedir => discard (Vfs.fileunlink path removedir)
  | .filerename path1 path2 => discard (Vfs.filerename path1 path2)
  | .mount source target fs mem => discard (Vfs.mount source target fs mem)
  | .umount target => discard (Vfs.umount target)
  | .mknodat path mode major minor => discard (sysMknodat path mode major minor)
  | .mkdirat path mode => discard (sysMkdirat path mode)
  | .getcwd depth size => discard (sysGetcwd depth size)

/-- As many `end_op` as `begin_op`, the counters of the logs as before, and no lock left. -/
def Balanced (s t : Sys) : Prop :=
  t.ops = s.ops ∧ t.outstanding = s.outstanding ∧ ∀ p, (t.icache p).locked = (s.icache p).locked

/-- The call meets none of the returns that leave something behind. -/
def Call.Clean (s : Sys) : Call → Prop
  | .fileopen .. | .filelink .. | .umount .. | .mkdirat .. => True
  | .fileunlink path _ => UnlinkClean path s
  | .filerename path1 path2 => RenameClean s path1 path2
  | .mount source target fs mem => MountClean s source target fs mem
  | .mknodat path mode _ _ => MknodClean s path mode
  | .getcwd .. => s.me.cwd.inum ≠ rootino

/-- The calls whose condition is said in terms of the card. -/
def Call.OnCard : Call → Bool
  | .filerename .. | .mount .. | .mknodat .. => true
  | _ => false

lemma balanced_iff_same : Balanced s t ↔ s.view.Same t.view :=
  and_congr_right fun _ => and_congr_right fun _ => funext_iff.symm

lemma settles_of_neutral {α : Type} {x : V α} (h : Neutral x) (s : Sys) :
    Post x s fun _ t => View.Settles True s.view t.view :=
  (h s).mono fun _ _ ht => .inl ⟨trivial, ht⟩

/-- The result of a call does not matter here. -/
lemma post_discard {α : Type} {x : V α} {Q : Sys → Prop} (h : Post x s fun _ t => Q t) :
    Post (discard x) s fun _ t => Q t := by
  intro _ t ht
  have hmap : discard x = x >>= fun _ => pure PUnit.unit := by
    unfold discard Functor.mapConst
    rfl
  rw [hmap] at ht
  have hunit : Post (x >>= fun _ => pure PUnit.unit) s fun _ t => Q t :=
    h.step fun _ _ ht => .pure ht
  exact hunit _ t ht

/-- Every call settles under its condition. -/
lemma Call.settles (c : Call) (hs : c.OnCard = true → Rooted s) :
    Post c.run s fun _ t => View.Settles (c.Clean s) s.view t.view := by
  cases c with
  | fileopen hops path flags mode => exact post_discard (settles_of_neutral (.fileopen _ _ _ _) s)
  | filelink old new => exact post_discard (settles_of_neutral (.filelink _ _) s)
  | fileunlink path removedir => exact post_discard (fileunlink_settles path removedir)
  | filerename path1 path2 => exact post_discard (filerename_settles (hs rfl) path1 path2)
  | mount source target fs mem =>
    exact post_discard (mount_settles (hs rfl).calm source target fs mem)
  | umount target => exact post_discard (settles_of_neutral (.umount target) s)
  | mknodat path mode major minor =>
    exact post_discard (sysMknodat_settles (hs rfl).calm path mode major minor)
  | mkdirat path mode => exact post_discard (settles_of_neutral (.sysMkdirat path mode) s)
  | getcwd depth size => exact post_discard (sysGetcwd_settles depth size)

end RpiOs.Vfs
