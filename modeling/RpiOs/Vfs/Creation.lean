import RpiOs.Vfs.Names

/-!
# What the callers of `create` make of its result

`create` returns an inode or an error, and as a `long` both are negative.

* `creation_recognised_iff` (main): `fileopen` and `mkdirat` do right with an inode only, `mknodat`
  with an error only.
-/

namespace RpiOs.Vfs

open Lib

/-! ## The inode that is returned -/

/-- Locked and referenced. -/
def Taken (s : Sys) (p : Ino) : Prop := (s.icache p).locked = true ∧ 1 ≤ (s.icache p).ref

section taken

variable {s : Sys} {dp p q : Ino}

lemma ilock_taken : Post (ilock p) s fun _ t => Taken t p := by
  refine ilock_run.mono ?_
  rintro _ t ⟨href, attrs, -, rfl⟩
  simpa [Taken] using href

lemma iunlockput_other (hq : q ≠ p) : Post (iunlockput p) s fun _ t => t.icache q = s.icache q := by
  refine iunlock_run.step ?_
  rintro _ _ ⟨-, rfl⟩
  refine iput_run.mono ?_
  rintro _ _ ⟨m, rfl⟩
  split <;> simp [Sys.setInode, Sys.setCard, hq]

/-- A lookup that finds nothing changes nothing. -/
lemma dirlookup_none (name : Name) : Post (dirlookup dp name) s fun r t => r = none → t = s := by
  refine .get ?_
  split
  · split
    · exact post_throw _
    · exact post_of_run fun _ _ _ => .pure nofun
  split
  · split
    · exact .pure fun _ => rfl
    · exact post_of_run fun _ _ _ => .pure nofun
  · exact post_throw _

/-- An entry that is added is on the card only. -/
lemma dirlink_icache (name : Name) (inum : Nat) (type : FType) :
    Post (dirlink dp name inum type) s fun r t => r.toBool = true → t.icache = s.icache := by
  refine (dirlookup_none name).step fun r t ht => ?_
  cases r with
  | some x => exact post_of_run fun _ _ _ => .pure nofun
  | none =>
    obtain rfl := ht rfl
    refine .bind (.get (.pure (.bind (post_stopIf fun _ => .bind ?_))))
    refine .bind (.get (.pure (.modify (post_onlyIf (fun _ => ?_) fun _ => .pure fun _ => rfl))))
    exact .bind (.get (.pure ((post_modify _).mpr (.pure fun _ => rfl))))

lemma Taken.writeAttrs (h : Taken s p) (q : Ino) (f : Attrs → Attrs) :
    Post (writeAttrs q f) s fun _ t => Taken t p := by
  refine .modify (.bind (.get (.pure ((post_modify _).mpr ?_))))
  by_cases hp : p = q
  · subst hp
    simpa [Taken, Sys.setInode, Sys.setCard] using h
  · simpa [Taken, Sys.setInode, Sys.setCard, hp] using h

/-- The entries `.` and `..` leave the new inode taken. -/
lemma Taken.makeDots (h : Taken s p) : Post (makeDots dp p) s fun _ t => Taken t p := by
  refine (h.writeAttrs dp incLink).step fun _ t ht => ?_
  refine (dirlink_icache dot _ _).step fun r u hu => ?_
  cases r with
  | error e => exact post_throw _
  | ok _ =>
    refine .bind (.get (.pure ((dirlink_icache dotdot _ _).step fun r w hw => ?_)))
    cases r with
    | error e => exact post_throw _
    | ok _ => exact .pure (by rwa [Taken, hw rfl, hu rfl])

/-- A new inode is returned locked and referenced. -/
lemma createNew_taken (hdp : (s.icache dp).locked = true) (name : Name) (type : FType)
    (major minor mode : Nat) :
    Post (createNew dp name type major minor mode) s fun p t => Taken t p := by
  refine post_of_run fun p t ht => post_of_run fun _ u hu => .get ?_
  -- the directory is locked, so that the new inode is another one
  have hne : p ≠ dp := by
    rintro rfl
    have hview : t.view = s.view := Neutral.ialloc _ _ s p t ht
    have hfree : t.view.held p = false := (Gives.ilock (Q := fun _ _ => _) id) t rfl _ u hu
    rw [hview] at hfree
    exact absurd hdp (by simp [show (s.icache p).locked = false from hfree])
  refine ((ilock_taken _ u hu).writeAttrs p _).step fun _ w hw => ?_
  have hdots : Post (onlyIf (type = .dir) (makeDots dp p)) w fun _ t => Taken t p :=
    post_onlyIf (fun _ => hw.makeDots) fun _ => hw
  refine hdots.step fun _ x hx => (dirlink_icache name _ _).step fun r y hy => ?_
  cases r with
  | error e => exact post_throw _
  | ok _ =>
    refine (iunlockput_other hne).step fun _ z hz => .pure ?_
    rwa [Taken, hz, hy rfl]

/-- So is what `create` returns. -/
lemma create_taken (path : List Char) (type : FType) (major minor mode : Nat) :
    Post (create path type major minor mode) s fun r t => ∀ p, r = .ok p → Taken t p := by
  refine post_of_run fun r t _ => ?_
  split
  · exact .pure nofun
  next dp name _ =>
  refine ilock_taken.step fun _ u hu => ?_
  have hsame : Post (permission dp mayExec) u fun _ t => t = u := .get (.pure rfl)
  refine hsame.step fun allowed t ht => ?_
  subst ht
  split
  · exact post_of_run fun _ _ _ => .pure nofun
  refine (dirlookup_none _).step fun r w hw => ?_
  cases r with
  | some x =>
    refine post_of_run fun _ _ _ => ilock_taken.step fun _ y hy => .bind (.get (.pure ?_))
    split
    · exact .pure fun p hp => by cases hp; exact hy
    · exact post_of_run fun _ _ _ => .pure nofun
  | none =>
    obtain rfl := hw rfl
    refine (createNew_taken hu.1 _ type major minor mode).step fun p y hy => .pure ?_
    rintro _ ⟨⟩
    exact hy

/-- And it can be given back. -/
lemma Taken.iunlockput (h : Taken s p) : Ends (iunlockput p) s
    (fun _ t => (t.icache p).locked = false ∧ (t.icache p).ref = (s.icache p).ref - 1) := by
  obtain ⟨hlocked, href⟩ := h
  have hok : ¬ ((s.icache p).locked = false ∨ (s.icache p).ref < 1) := by
    simp only [hlocked, Bool.true_eq_false, false_or]
    omega
  unfold Vfs.iunlockput iunlock iput acquiresleep releasesleep dropRef inode modifyInode
    stopIf onlyIf
  simp only [ends_bind, ends_get, ends_pure, if_neg hok, ends_modify, setInode_icache_self,
    setInode_setInode, Bool.false_eq_true, if_false]
  split
  · unfold freeInode itrunc iupdate modifyAttrs modifyInode inode
    simp [Sys.setInode, Sys.setCard]
  · simp [Sys.setInode]

end taken

/-! ## The callers -/

/-- The callers of `create`. -/
inductive Creator where
  | fileopen
  | mkdirat
  | mknodat
  deriving DecidableEq

/-- What a caller does with the result: return a value, or go on with an inode. -/
def Creator.finish : Creator → Except Errno Ino → V (Int ⊕ Ino)
  | .fileopen, r => do
    match ← openCreated r with
    | .error e => pure (.inl (-e.code))
    | .ok ip => pure (.inr ip)
  | .mkdirat, r => do
    let v ← created (· = 0) r
    pure (.inl v)
  | .mknodat, r => do
    let v ← created (· < 0) r
    pure (.inl v)

/-- Return the error; open the inode, or return 0 with the inode unlocked and released. -/
def Creator.Recognises (c : Creator) (t : Sys) : Except Errno Ino → Prop
  | .error e => ∃ u, c.finish (.error e) t = .ok (.inl (-e.code)) u
  | .ok ip =>
    if c = .fileopen then c.finish (.ok ip) t = .ok (.inr ip) t
    else ∃ u, c.finish (.ok ip) t = .ok (.inl 0) u ∧ (u.icache ip).locked = false ∧
      (u.icache ip).ref = (t.icache ip).ref - 1

section callers

variable {s t : Sys} {r : Except Errno Ino}

lemma openCreated_run : openCreated r t = (do let ip ← deref r.toOption; pure (.ok ip) : V _) t :=
  congrFun (if_neg (Int.ne_of_lt (t.long_neg r))) t

lemma mkdirCreated_run : created (· = 0) r t =
    (do let ip ← deref r.toOption; iunlockput ip; endOp; pure 0 : V Int) t :=
  congrFun (if_neg (by simpa using Int.ne_of_lt (t.long_neg r))) t

lemma mknodCreated_run : created (· < 0) r t = .ok (t.long r) (t.addOps (-1)) :=
  congrFun (if_pos (by simpa using t.long_neg r)) t

/-- **A caller recognises what `create` returned** exactly if it is `mknodat` and the result is an
error, or another caller and the result is an inode. -/
theorem creation_recognised_iff {path : List Char} {type : FType} {major minor mode : Nat}
    (hrun : create path type major minor mode s = .ok r t) (c : Creator) :
    c.Recognises t r ↔ (c = .mknodat ↔ r.toBool = false) := by
  have htaken := create_taken path type major minor mode r t hrun
  cases r with
  | error e =>
    cases c with
    | fileopen =>
      refine iff_of_false ?_ (by simp [Except.toBool])
      rintro ⟨u, hu⟩
      obtain ⟨a, v, ha, -⟩ := bind_eq_ok.mp hu
      cases openCreated_run.symm.trans ha
    | mkdirat =>
      refine iff_of_false ?_ (by simp [Except.toBool])
      rintro ⟨u, hu⟩
      obtain ⟨a, v, ha, -⟩ := bind_eq_ok.mp hu
      cases mkdirCreated_run.symm.trans ha
    | mknodat =>
      exact iff_of_true ⟨_, bind_run mknodCreated_run _⟩ (by simp [Except.toBool])
  | ok ip =>
    cases c with
    | fileopen =>
      have hopen : openCreated (.ok ip) t = .ok (.ok ip) t := openCreated_run
      refine iff_of_true ?_ (by simp [Except.toBool])
      show Creator.finish .fileopen (.ok ip) t = _
      exact bind_run hopen _
    | mkdirat =>
      obtain ⟨_, u, hput, hlocked, href⟩ := (htaken ip rfl).iunlockput.returns
      refine iff_of_true ⟨u.addOps (-1), ?_, hlocked, href⟩ (by simp [Except.toBool])
      exact bind_run (mkdirCreated_run.trans (bind_run hput _)) _
    | mknodat =>
      refine iff_of_false ?_ (by simp [Except.toBool])
      rintro ⟨u, hu, -⟩
      have hlong := t.long_neg (.ok ip)
      obtain ⟨v, w, hv, hw⟩ := bind_eq_ok.mp hu
      cases mknodCreated_run.symm.trans hv
      have hzero : t.long (.ok ip) = 0 := Sum.inl.inj (EStateM.Result.ok.inj hw).1
      omega

/-- `mkdirat` takes a new inode for what it is. -/
theorem creation_recognised_iff_new :
    ∃ t, create ['/', 'b'] .dir 0 0 0o040755 tiny = .ok (.ok ⟨1, 3⟩) t ∧
    Creator.mkdirat.Recognises t (.ok ⟨1, 3⟩) :=
  have hrun := eq_ok_of_valueOf (a := .ok ⟨1, 3⟩) (s := tiny)
    (x := create ['/', 'b'] .dir 0 0 0o040755) (by decide +kernel)
  ⟨_, hrun, (creation_recognised_iff hrun .mkdirat).mpr (by decide)⟩

/-- `mkdir("/a")`, where `/a` exists, faults, and `mknod("/b")` returns an address with the new
inode locked. -/
theorem creation_misread : Ends (sysMkdirat ['/', 'a'] 0o755) tiny (fun _ _ => False)
    (fun e _ => e = .fault) ∧
    Ends (sysMknodat ['/', 'b'] 0o100644 0 0) tiny
      (fun v t => v ≠ 0 ∧ (t.icache ⟨1, 3⟩).locked = true) := by
  decide +kernel

end callers

end RpiOs.Vfs
