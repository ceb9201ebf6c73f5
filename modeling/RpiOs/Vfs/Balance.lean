import RpiOs.Vfs.Calls

/-!
# Transactions and locks

What the functions of the file system do to the logs and to the inode locks, in any state: with
mounted file systems, unlinked inodes and whatever other calls have left behind. `Neutral` functions
leave both as they found them, and `Gives` says of the others what they leave.
-/

namespace RpiOs.Vfs

open Lib Function

/-! ## Logs and locks -/

/-- What a call has to give back. -/
@[ext]
structure View where
  enabled : Nat → Bool
  outstanding : Nat → Int
  ops : Int
  held : Ino → Bool

def Sys.view (s : Sys) : View := ⟨s.logEnabled, s.outstanding, s.ops, fun p => (s.icache p).locked⟩

def View.lock (v : View) (p : Ino) (b : Bool) : View := { v with held := update v.held p b }

/-- `n` operations more, in all logs in use. -/
def View.addOps (v : View) (n : Int) : View :=
  { v with
    ops := v.ops + n
    outstanding := fun i =>
      if i < nlog ∧ v.enabled i = true then v.outstanding i + n else v.outstanding i }

variable {s : Sys} {v : View} {p q dp ip : Ino}

section view

variable (n : Int)

@[simp] lemma view_addOps : (s.addOps n).view = s.view.addOps n := rfl

@[simp] lemma view_setInode (ip : Inode) : (s.setInode p ip).view = s.view.lock p ip.locked := by
  unfold Sys.view Sys.setInode View.lock
  congr 1
  funext q
  by_cases hq : q = p
  · subst hq
    simp
  · simp [hq]

lemma View.lock_same {b : Bool} (h : v.held p = b) : v.lock p b = v := by
  unfold View.lock
  rw [← h, update_eq_self]

@[simp] lemma View.lock_lock (b c : Bool) : (v.lock p b).lock p c = v.lock p c := by
  simp [View.lock]

@[simp] lemma View.lock_held (b : Bool) : (v.lock p b).held p = b := by
  simp [View.lock]

lemma View.lock_held_ne (h : q ≠ p) (b : Bool) : (v.lock p b).held q = v.held q := by
  simp [View.lock, h]

lemma View.ne_of_lock (h : (v.lock p true).held q = false) : q ≠ p ∧ v.held q = false := by
  have hne : q ≠ p := by
    rintro rfl
    simp at h
  exact ⟨hne, by rwa [View.lock_held_ne hne] at h⟩

lemma View.unlock_first (hp : v.held p = false) (hne : q ≠ p) :
    ((v.lock p true).lock q true).lock p false = v.lock q true := by
  simp [View.lock, update_comm hne, ← hp]

lemma View.unlock (hp : v.held p = false) : (v.lock p true).lock p false = v := by
  rw [View.lock_lock, View.lock_same hp]

@[simp] lemma View.addOps_lock (b : Bool) : (v.addOps n).lock p b = (v.lock p b).addOps n := rfl

@[simp] lemma View.end_begin : (v.addOps 1).addOps (-1) = v := by
  unfold View.addOps
  ext i
  · rfl
  · dsimp only
    split <;> omega
  · show v.ops + 1 + -1 = v.ops
    omega
  · rfl

end view

/-! ## Computations that give back what they take -/

def Neutral {α : Type} (x : V α) : Prop := ∀ s, Post x s fun _ t => t.view = s.view

section neutral

variable {α β : Type} (e : Stop)

lemma Neutral.pure (a : α) : Neutral (pure a : V α) := by
  intro s
  simp

lemma Neutral.throw : Neutral (throw e : V α) := by
  intro s
  simp

lemma Neutral.get : Neutral (get : V Sys) := by
  intro s
  simp

lemma Neutral.modify {f : Sys → Sys} (h : ∀ s, (f s).view = s.view) :
    Neutral (modify f : V PUnit) := by
  intro s
  simpa using h s

/-- What is known of the value and of the view if `x`, run with the view `v`, returns. -/
def Gives (x : V α) (v : View) (Q : α → View → Prop) : Prop :=
  ∀ s, s.view = v → Post x s fun a t => Q a t.view

variable {Q Q' : α → View → Prop} {x : V α} {f : α → V β} {c : Prop}

lemma Gives.mono (h : Gives x v Q) (hQ : ∀ a w, Q a w → Q' a w) : Gives x v Q' :=
  fun s hs => (h s hs).mono fun a _ => hQ a _

lemma Gives.bind {Q : β → View → Prop}
    (h : Gives x v fun a w => Gives (f a) w Q) : Gives (x >>= f) v Q :=
  fun s hs => (h s hs).step fun _ t ht => ht t rfl

lemma Gives.pure {a : α} (h : Q a v) : Gives (pure a) v Q := by
  rintro s rfl
  exact (post_pure a).mpr h

lemma Gives.throw : Gives (throw e : V α) v Q := fun _ _ => post_throw e

lemma Neutral.gives (hx : Neutral x) (h : ∀ a, Q a v) : Gives x v Q := by
  rintro s rfl
  exact (hx s).mono fun a t ht => ht.symm ▸ h a

lemma Gives.step {Q : β → View → Prop} (hx : Neutral x) (h : ∀ a, Gives (f a) v Q) :
    Gives (x >>= f) v Q :=
  .bind (hx.gives h)

lemma Neutral.of_gives (h : ∀ v, Gives x v fun _ w => w = v) : Neutral x :=
  fun s => h s.view s rfl

lemma Neutral.bind (hx : Neutral x) (hf : ∀ a, Neutral (f a)) : Neutral (x >>= f) :=
  .of_gives fun _ => .step hx fun a => (hf a).gives fun _ => rfl

lemma Neutral.stopIf [Decidable c] : Neutral (stopIf c e) := by
  unfold Vfs.stopIf
  split
  · exact .throw e
  · exact .pure ()

lemma Neutral.onlyIf [Decidable c] {x : V Unit} (hx : Neutral x) : Neutral (onlyIf c x) := by
  unfold Vfs.onlyIf
  split
  · exact hx
  · exact .pure ()

lemma Neutral.ite [Decidable c] {y : V α} (hx : Neutral x) (hy : Neutral y) :
    Neutral (if c then x else y) := by
  split
  · exact hx
  · exact hy

end neutral

/-! ## Inodes -/

variable {Q : Unit → View → Prop}

lemma Neutral.inode : Neutral (inode p) := .bind .get fun _ => .pure _

lemma Neutral.modifyInode {f : Inode → Inode} (h : ∀ ip, (f ip).locked = ip.locked) :
    Neutral (modifyInode p f) := by
  refine .modify fun s => ?_
  rw [view_setInode, h]
  exact View.lock_same rfl

lemma Neutral.modifyAttrs (f : Attrs → Attrs) : Neutral (modifyAttrs p f) :=
  .modifyInode fun _ => rfl

lemma Neutral.entriesOf : Neutral (entriesOf p) := .bind .get fun _ => .pure _

lemma Neutral.setEntries (es : List Dirent) : Neutral (setEntries p es) := .modify fun _ => rfl

lemma Neutral.iupdate : Neutral (iupdate p) := .bind .inode fun _ => .modify fun _ => rfl

lemma Neutral.itrunc : Neutral (itrunc p) :=
  .bind (.modify fun _ => rfl) fun _ => .iupdate

lemma Gives.idup {Q : Ino → View → Prop} (h : Q p v) : Gives (idup p) v Q :=
  .step (.modifyInode fun _ => rfl) fun _ => .pure h

lemma Neutral.idup : Neutral (idup p) := .of_gives fun _ => .idup rfl

lemma Gives.acquiresleep (h : v.held p = false → Q () (v.lock p true)) :
    Gives (acquiresleep p) v Q := by
  rintro s rfl
  unfold acquiresleep inode
  simp only [post_bind, post_get, post_pure]
  refine post_stopIf fun hp => ?_
  unfold modifyInode
  rw [post_modify, view_setInode]
  exact h (by simpa [Sys.view] using hp)

lemma Gives.releasesleep (h : Q () (v.lock p false)) : Gives (releasesleep p) v Q := by
  rintro s rfl
  simpa [releasesleep, modifyInode] using h

lemma Neutral.load : Neutral (load p) :=
  .bind .get fun _ => .bind (.modifyInode fun _ => rfl) fun _ =>
    .stopIf _

lemma Gives.ilock (h : v.held p = false → Q () (v.lock p true)) : Gives (ilock p) v Q :=
  .step .inode fun _ => .step (.stopIf _) fun _ =>
    .bind (.acquiresleep fun hp => (Neutral.onlyIf .load).gives fun _ => h hp)

lemma Gives.iunlock (h : Q () (v.lock p false)) : Gives (iunlock p) v Q :=
  .step .inode fun _ => .step (.stopIf _) fun _ => .releasesleep h

lemma Neutral.freeInode : Neutral (freeInode p) :=
  .bind .itrunc fun _ => .bind (.modifyAttrs _) fun _ =>
    .bind .iupdate fun _ => .modifyInode fun _ => rfl

lemma Neutral.dropRef : Neutral (dropRef p) :=
  .bind .inode fun _ => .bind (.modifyInode fun _ => rfl) fun _ =>
    .modify fun _ => rfl

lemma Neutral.iput : Neutral (iput p) := by
  refine .of_gives fun v => .bind (.acquiresleep fun hp => ?_)
  refine .step .inode fun _ => .step (.onlyIf .freeInode) fun _ => ?_
  exact .bind (.releasesleep (Neutral.dropRef.gives fun _ => View.unlock hp))

lemma Gives.iunlockput (h : Q () (v.lock p false)) : Gives (iunlockput p) v Q :=
  .bind (.iunlock (Neutral.iput.gives fun _ => h))

/-- What was locked and is given back. -/
lemma Gives.unlockput {α : Type} {y : V α} {Q : α → View → Prop} (hp : v.held p = false)
    (hy : Gives y v Q) : Gives (do Vfs.iunlockput p; y) (v.lock p true) Q :=
  .bind (.iunlockput (by rwa [View.unlock hp]))

/-- `iget` locks nothing. -/
lemma Neutral.iget (type : FType) : Neutral (iget p type) := by
  refine .bind .get fun s => ?_
  split
  · refine .ite ?_ .idup
    split
    · exact .throw _
    · exact .idup
  · refine .ite (.throw _) (.ite ?_ (.throw _))
    exact .bind (.modifyInode fun _ => rfl) fun _ =>
      .bind (.modify fun _ => rfl) fun _ => .pure _

lemma Neutral.getroot (minor : Nat) : Neutral (getroot minor) := .iget _

lemma Neutral.ialloc (dev : Nat) (type : FType) : Neutral (ialloc dev type) := by
  refine .bind .get fun s => ?_
  split
  · exact .throw _
  · exact .bind (.modify fun _ => rfl) fun _ => .iget _

lemma Neutral.dirlookup (name : Name) : Neutral (dirlookup p name) := by
  refine .bind .get fun s => .ite ?_ (.ite ?_ (.throw _))
  · split
    · exact .throw _
    · exact .bind .idup fun _ => .pure _
  split
  · exact .pure _
  · exact .bind (.iget _) fun _ => .pure _

lemma Neutral.writeEntry (off : Nat) (e : Dirent) : Neutral (writeEntry p off e) :=
  .bind .entriesOf fun _ => .bind (.setEntries _) fun _ =>
    .onlyIf .iupdate

lemma Neutral.dirlink (name : Name) (inum : Nat) (type : FType) :
    Neutral (dirlink p name inum type) := by
  refine .bind (.dirlookup _) fun r => ?_
  split
  · exact .bind .iput fun _ => .pure _
  exact .bind .entriesOf fun _ =>
    .bind (.stopIf _) fun _ =>
      .bind (.writeEntry _ _) fun _ => .pure _

lemma Neutral.direntlookup (inum : Nat) : Neutral (direntlookup p inum) :=
  .bind .get fun _ => .ite (.pure _) (.throw _)

lemma Neutral.permission (mask : Nat) : Neutral (permission p mask) :=
  .bind .get fun _ => .pure _

/-! ## Paths -/

section paths

variable (path : List Char)

/-- The search over mount points hands the lock on to the inode it ends at. -/
lemma Gives.componentSearch (name : Name) (n : Nat) (hip : v.held ip = false) :
    Gives (componentSearch name n ip) (v.lock ip true) fun r w =>
      match r with
      | none => w = v
      | some (ip', _) => v.held ip' = false ∧ w = v.lock ip' true := by
  induction n generalizing ip with
  | zero => exact .throw _
  | succ n ih => ?_
  refine .step (.dirlookup name) fun r => ?_
  rcases r with - | next
  · exact .unlockput hip (.pure rfl)
  refine .step (.getroot _) fun ir => .step .get fun s' => ?_
  split
  · split
    · exact .throw _
    · refine .unlockput hip (.bind (.ilock fun hmnt => ?_))
      exact .step (.modifyInode fun _ => rfl) fun _ => ih hmnt
  · exact .pure ⟨hip, rfl⟩

/-- A walk gives its locks back. -/
lemma Neutral.namexLoop (parent : Bool) (n : Nat) (path : List Char) (name : Name) :
    Neutral (namexLoop parent n ip path name) := by
  induction n generalizing ip path name with
  | zero => exact .throw _
  | succ n ih => ?_
  unfold namexLoop
  split
  · exact .ite (.bind .iput fun _ => .pure _) (.pure _)
  · next name path _ =>
    refine .of_gives fun v => .bind (.ilock fun hip => ?_)
    refine .step .inode fun i => ?_
    split
    · exact .unlockput hip (.pure rfl)
    split
    · exact .bind (.iunlock (.pure (View.unlock hip)))
    refine .bind ((Gives.componentSearch name _ hip).mono fun r w hw => ?_)
    cases r with
    | none => exact .pure hw
    | some r =>
      obtain ⟨hfree, rfl⟩ := hw
      exact .bind (.iunlockput ((ih path name).gives fun _ => View.unlock hfree))

lemma Neutral.namex (parent : Bool) : Neutral (namex path parent) := by
  refine .bind .get fun s => ?_
  split
  · exact .bind (.getroot _) fun _ => .namexLoop _ _ _ _
  · exact .bind .idup fun _ => .namexLoop _ _ _ _

lemma Neutral.namei : Neutral (namei path) :=
  .bind (.namex path false) fun _ => .pure _

lemma Neutral.nameiparent : Neutral (nameiparent path) := .namex path true

end paths

/-! ## Creating and opening -/

section opening

variable {Q : PUnit → View → Prop} (path : List Char)

/-- An inode is returned locked, an error without locks. -/
def View.Holds (v : View) : Except Errno Ino → View → Prop
  | .error _, w => w = v
  | .ok ip, w => v.held ip = false ∧ w = v.lock ip true

lemma Neutral.writeAttrs (f : Attrs → Attrs) : Neutral (writeAttrs ip f) :=
  .bind (.modifyAttrs f) fun _ => .iupdate

lemma Neutral.makeDots : Neutral (makeDots dp ip) := by
  refine .bind (.writeAttrs _) fun _ => .bind (.dirlink _ _ _) fun r => ?_
  split
  · exact .throw _
  refine .bind .inode fun _ => .bind (.dirlink _ _ _) fun r => ?_
  split
  · exact .throw _
  · exact .pure _

/-- A new inode is returned locked, and its directory unlocked. -/
lemma Gives.createNew (name : Name) (type : FType) (major minor mode : Nat)
    (hdp : v.held dp = false) :
    Gives (createNew dp name type major minor mode) (v.lock dp true) fun ip w =>
      v.held ip = false ∧ w = v.lock ip true := by
  refine .step (.ialloc _ _) fun ip => .bind (.ilock fun hip => ?_)
  obtain ⟨hne, hfree⟩ := View.ne_of_lock hip
  refine .step .get fun s' => .step (.writeAttrs _) fun _ => ?_
  refine .step (.onlyIf .makeDots) fun _ => ?_
  refine .step (.dirlink _ _ _) fun r => ?_
  split
  · exact .throw _
  · exact .bind (.iunlockput (.pure ⟨hfree, View.unlock_first hdp hne⟩))

/-- `create` returns a locked inode, or has given everything back. -/
lemma Gives.create (type : FType) (major minor mode : Nat) :
    Gives (create path type major minor mode) v v.Holds := by
  refine .step (.nameiparent path) fun r => ?_
  split
  · exact .pure rfl
  · next dp name =>
    refine .bind (.ilock fun hdp => .step (.permission _) fun allowed => ?_)
    split
    · exact .unlockput hdp (.pure rfl)
    refine .step (.dirlookup name) fun r => ?_
    split
    · next ip off =>
      refine .unlockput hdp (.bind (.ilock fun hip => .step .inode fun i => ?_))
      split
      · exact .pure ⟨hip, rfl⟩
      · exact .unlockput hip (.pure rfl)
    · exact .bind ((Gives.createNew name type major minor mode hdp).mono fun _ _ h => .pure h)

lemma Neutral.filealloc : Neutral filealloc := by
  refine .bind .get fun s => ?_
  split
  · exact .pure _
  · exact .bind (.modify fun _ => rfl) fun _ => .pure _

lemma Neutral.fdalloc (f start : Nat) : Neutral (fdalloc f start) := by
  refine .bind .get fun s => ?_
  split
  · exact .pure _
  · exact .bind (.modify fun _ => rfl) fun _ => .pure _

lemma Gives.beginOp (h : Q ⟨⟩ (v.addOps 1)) : Gives beginOp v Q := by
  rintro s rfl
  exact (post_modify _).mpr h

lemma Gives.endOp (h : Q ⟨⟩ v) : Gives endOp (v.addOps 1) Q := by
  intro s hs
  refine (post_modify _).mpr ?_
  rw [view_addOps, hs, View.end_begin]
  exact h

lemma Neutral.fileclose (f : Nat) : Neutral (fileclose f) := by
  refine .bind .get fun s => .bind (.stopIf _) fun _ => ?_
  refine .ite (.modify fun _ => rfl) ?_
  refine .bind (.modify fun _ => rfl) fun _ => .onlyIf (.of_gives fun v => ?_)
  exact .bind (.beginOp (.step .iput fun _ => .endOp rfl))

/-- Inside a transaction an inode is returned locked, an error after `end_op`. -/
def View.Opened (v : View) : Except Errno Ino → View → Prop
  | .error _, w => w = v
  | .ok ip, w => v.held ip = false ∧ w = (v.lock ip true).addOps 1

section release

variable {α : Type} {y : V α} {Q : α → View → Prop}

lemma Gives.ends (hy : Gives y v Q) : Gives (do Vfs.endOp; y) (v.addOps 1) Q := .bind (.endOp hy)

lemma Gives.iunlock_end (hip : v.held ip = false) (hy : Gives y v Q) :
    Gives (do Vfs.iunlock ip; Vfs.endOp; y) ((v.lock ip true).addOps 1) Q := by
  refine .bind (.iunlock ?_)
  rw [View.addOps_lock, View.unlock hip]
  exact .ends hy

lemma Gives.iunlockput_end (hip : v.held ip = false) (hy : Gives y v Q) :
    Gives (do Vfs.iunlockput ip; Vfs.endOp; y) ((v.lock ip true).addOps 1) Q := by
  exact .unlockput (v := v.addOps 1) hip (.ends hy)

end release

/-- The loop over symbolic links of `fileopen`. -/
lemma Gives.openLoop (flags : OFlags) (n : Nat) (path : List Char) :
    Gives (openLoop flags n path) (v.addOps 1) v.Opened := by
  induction n generalizing path with
  | zero => exact .throw _
  | succ n ih => ?_
  refine .step (.namei path) fun r => ?_
  split
  · exact .ends (.pure rfl)
  · next ip =>
    refine .bind (.ilock fun hip => .step .get fun s' => ?_)
    split
    · exact .iunlockput_end hip (.pure rfl)
    split
    · split
      · exact .iunlockput_end hip (.pure rfl)
      · exact .unlockput hip (ih _)
    · exact .pure ⟨hip, rfl⟩

/-- The branch of `fileopen` with `O_CREAT`. -/
lemma Gives.openCreate (flags : OFlags) (mode : Nat) :
    Gives (openCreate path flags mode) (v.addOps 1) v.Opened := by
  refine .step (.namei path) fun r => ?_
  split
  · split
    · exact .step .iput fun _ => .ends (.pure rfl)
    · exact .bind (.ilock fun hip => .pure ⟨hip, rfl⟩)
  refine .bind ((Gives.create path .file 0 0 _).mono fun r w hw => .step .get fun s => ?_)
  rw [if_neg (Int.ne_of_lt (s.long_neg r))]
  cases r with
  | error e => exact .bind (.throw _)
  | ok ip => exact .bind (.pure (.pure hw))

/-- **Opening a file is balanced.** -/
theorem Neutral.fileopen (hops : Nat) (path : List Char) (flags : OFlags) (mode : Nat) :
    Neutral (fileopen hops path flags mode) := by
  refine .of_gives fun v => .bind (.beginOp ?_)
  have hopen : Gives (openInode hops path flags mode) (v.addOps 1) v.Opened := by
    unfold openInode
    split
    · exact .openCreate path flags mode
    · exact .openLoop flags _ path
  refine .bind (hopen.mono fun r w hw => ?_)
  split
  · exact .pure hw
  · next ip =>
    obtain ⟨hip, rfl⟩ := hw
    refine .step (.permission mayRead) fun _ => ?_
    refine .step (.permission mayWrite) fun _ => ?_
    split
    · exact .iunlockput_end hip (.pure rfl)
    refine .step .filealloc fun f => ?_
    split
    · exact .iunlock_end hip (.pure rfl)
    · next f =>
      refine .step (.fdalloc f 0) fun fd => ?_
      split
      · exact .iunlock_end hip (.step (.fileclose f) fun _ => .pure rfl)
      · exact .iunlock_end hip (.step (.modify fun _ => rfl) fun _ => .pure rfl)

end opening

/-! ## Names -/

section names

variable (path path1 path2 : List Char)

lemma Neutral.dropLink : Neutral (dropLink ip) := .writeAttrs decLink

lemma Gives.linkBad (e : Errno) : Gives (linkBad ip e) (v.addOps 1) fun _ w => w = v :=
  .bind (.ilock fun hip => .step .dropLink fun _ =>
    .iunlockput_end hip (.pure rfl))

/-- **Linking is balanced.** -/
theorem Neutral.filelink (old new : List Char) : Neutral (filelink old new) := by
  refine .of_gives fun v => .bind (.beginOp (.step (.namei old) fun r => ?_))
  split
  · exact .ends (.pure rfl)
  · next ip =>
    refine .bind (.ilock fun hip => .step .inode fun i => ?_)
    split
    · exact .iunlockput_end hip (.pure rfl)
    refine .step (.writeAttrs _) fun _ => .bind (.iunlock ?_)
    rw [View.unlock hip]
    refine .step (.nameiparent new) fun r => ?_
    split
    · exact .linkBad _
    · next dp name =>
      refine .bind (.ilock fun hdp => ?_)
      split
      · exact .unlockput hdp (.linkBad _)
      refine .step .inode fun i => .step (.dirlink _ _ _) fun r => ?_
      -- whatever happens to the entry, the directory is released in the same way
      split <;> refine .unlockput hdp ?_
      · exact .linkBad _
      · exact .step .iput fun _ => .ends (.pure rfl)

/-- Directory and inode are locked, an error has given everything back. -/
def View.Found (v : View) : Except Errno (Ino × Ino × Nat) → View → Prop
  | .error _, w => w = v
  | .ok (dp, ip, _), w => v.held dp = false ∧ v.held ip = false ∧ ip ≠ dp ∧
      w = ((v.lock dp true).lock ip true).addOps 1

lemma Gives.unlinkBad (hdp : v.held dp = false) :
    Gives (unlinkBad dp) ((v.lock dp true).addOps 1) fun _ w => w = v := by
  exact .unlockput (v := v.addOps 1) hdp (.endOp rfl)

/-- What `fileunlink` has locked when it has found its inode. -/
lemma Gives.unlinkFind : Gives (unlinkFind path) v v.Found := by
  refine .bind (.beginOp (.step (.nameiparent path) fun r => ?_))
  split
  · exact .ends (.pure rfl)
  · next dp name =>
    refine .bind (.ilock fun hdp => ?_)
    split
    · exact .bind ((Gives.unlinkBad (v := v) hdp).mono fun _ _ hw => .pure hw)
    refine .step (.dirlookup name) fun r => ?_
    split
    · exact .bind ((Gives.unlinkBad (v := v) hdp).mono fun _ _ hw => .pure hw)
    refine .bind (.ilock fun hip => .pure ?_)
    obtain ⟨hne, hip⟩ := View.ne_of_lock hip
    exact ⟨hdp, hip, hne, rfl⟩

lemma Gives.unlinkFound (off : Nat) (hdp : v.held dp = false) (hip : v.held ip = false)
    (hne : ip ≠ dp) :
    Gives (unlinkFound dp ip off) (((v.lock dp true).lock ip true).addOps 1) fun _ w => w = v := by
  refine .step .inode fun i => .step (.writeEntry off .empty) fun _ => ?_
  refine .step (.onlyIf .dropLink) fun _ => .bind (.iunlockput ?_)
  rw [View.addOps_lock, View.unlock_first hdp hne]
  refine .step .dropLink fun _ => .bind (.iunlockput ?_)
  rw [View.addOps_lock, View.unlock hip]
  exact .endOp rfl

/-- What `fileunlink` finds has links. -/
def UnlinkClean (path : List Char) (s : Sys) : Prop :=
  Post (unlinkFind path) s fun r t => ∀ dp ip off, r = .ok (dp, ip, off) →
    1 ≤ (t.icache ip).attrs.nlink

/-- Some lock is left behind. -/
def View.Leaves (v w : View) : Prop := ∃ p, v.held p = false ∧ w.held p = true

/-- `fileunlink` gives everything back exactly if the inode has links. -/
lemma fileunlink_view (removedir : Bool) :
    Post (fileunlink path removedir) s fun _ t =>
      UnlinkClean path s ∧ t.view = s.view ∨ ¬UnlinkClean path s ∧ s.view.Leaves t.view := by
  refine post_of_run fun r t hr => ?_
  have hview : s.view.Found r t.view := Gives.unlinkFind path s rfl r t hr
  have hclean : UnlinkClean path s ↔ _ := post_iff_of_ok hr
  rw [hclean]
  split
  · exact .pure (.inl ⟨by simp, hview⟩)
  · next dp ip off =>
    obtain ⟨hdp, hip, hne, ht⟩ := hview
    refine post_of_run fun i u hi => ?_
    obtain ⟨rfl, rfl⟩ : i = t.icache ip ∧ u = t := by
      cases hi
      exact ⟨rfl, rfl⟩
    split
    · next hlink =>
      refine .pure (.inr ⟨fun h => ?_, dp, hdp, ?_⟩)
      · have := h dp ip off rfl
        omega
      rw [ht]
      show ((s.view.lock dp true).lock ip true).held dp = true
      rw [View.lock_held_ne hne.symm, View.lock_held]
    · next hlink =>
      have hlinks : ∀ dp' ip' off', (Except.ok (dp, ip, off) : Except Errno _) = .ok
        (dp', ip', off') →
          1 ≤ (u.icache ip').attrs.nlink := by
        rintro _ _ _ ⟨⟩
        omega
      have herror : Neutral (removeError ip removedir) :=
        .bind .inode fun _ => .bind (.bind .entriesOf fun _ => .pure _)
          fun _ => .pure _
      refine Post.mono (Gives.bind (Q := fun _ w => w = s.view) (herror.gives fun r => ?_) u ht)
        fun _ _ hw =>
        .inl ⟨hlinks, hw⟩
      split
      · refine .bind (.iunlockput ?_)
        rw [View.addOps_lock, View.unlock (by rwa [View.lock_held_ne hne])]
        exact .bind ((Gives.unlinkBad hdp).mono fun _ _ hw => .pure hw)
      · exact .bind ((Gives.unlinkFound off hdp hip hne).mono fun _ _ hw => .pure hw)

lemma Gives.rename (name1 name2 : Name) : Gives (rename dp name1 name2) v fun r w =>
    v.held dp = false ∧ w = if r.toBool then v else v.lock dp true := by
  refine .bind (.ilock fun hdp => .step (.dirlookup name1) fun r => ?_)
  split
  · exact .pure ⟨hdp, rfl⟩
  refine .bind (.ilock fun hip => .step .inode fun i => ?_)
  refine .step (.writeEntry _ _) fun _ => .step .iupdate fun _ => ?_
  exact .step .iupdate fun _ => .unlockput hip (.unlockput hdp (.pure ⟨hdp, rfl⟩))

/-- `reinode` leaves a lock when it fails. -/
lemma Gives.reinode (oldIp newIp : Ino) : Gives (reinode dp oldIp newIp) v fun r w =>
    (r.toBool = true → w = v) ∧ (r.toBool = false → v.Leaves w) := by
  refine .bind (.ilock fun hdp => .bind (.ilock fun hold => .bind (.ilock fun hnew => ?_)))
  obtain ⟨hne, hnew⟩ := View.ne_of_lock hnew
  refine .step (.direntlookup _) fun r => ?_
  split
  · refine .pure ⟨nofun, fun _ => ⟨newIp, ?_, View.lock_held _⟩⟩
    exact (View.ne_of_lock hnew).2
  refine .step (.writeEntry _ _) fun _ => .step .iupdate fun _ => ?_
  refine .step .iupdate fun _ => .step .iupdate fun _ => ?_
  refine .bind (.iunlockput ?_)
  rw [View.unlock_first hold hne]
  exact .unlockput hnew (.unlockput hdp (.pure ⟨fun _ => rfl, nofun⟩))

lemma Gives.renameFind : Gives (renameFind path1 path2) v fun r w =>
    w = if r.isSome then v.addOps 1 else v := by
  refine .bind (.beginOp (.step (.namei path1) fun r => ?_))
  split
  · exact .ends (.pure rfl)
  · refine .step (.nameiparent path1) fun dn1 => .step (.namei path2) fun ip2 => ?_
    exact .step (.nameiparent path2) fun dn2 => .pure rfl

lemma Neutral.deref {α : Type} (a : Option α) : Neutral (deref a) := by
  cases a
  · exact .throw _
  · exact .pure _

lemma Neutral.removedirFor : Neutral (removedirFor ip) := .bind .inode fun _ => .pure _

/-- As many `end_op` as `begin_op`, the logs' counters and the locks as before. -/
def View.Same (v w : View) : Prop := w.ops = v.ops ∧ w.outstanding = v.outstanding ∧ w.held = v.held

lemma View.Leaves.not_same {w : View} (h : v.Leaves w) : ¬v.Same w := by
  obtain ⟨p, hfree, hheld⟩ := h
  rintro ⟨-, -, h⟩
  rw [h, hfree] at hheld
  cases hheld

lemma View.not_same_begin : ¬v.Same (v.addOps 1) := by
  rintro ⟨h, -⟩
  have hops : v.ops + 1 = v.ops := h
  omega

/-- `rename` in one directory. -/
lemma Gives.renameHere (a : RenameArgs) : Gives (renameHere a) (v.addOps 1) fun r w =>
    (r.toBool = true → w = v) ∧ (r.toBool = false → ¬v.Same w) := by
  refine .step (.deref _) fun dn1 => .step (.deref _) fun dn2 => ?_
  refine .bind ((Gives.rename _ _).mono fun r w hw => ?_)
  obtain ⟨hdp, rfl⟩ := hw
  cases r with
  | error e =>
    refine .ends (v := v.lock dn1.1 true) (.pure ⟨nofun, fun _ => ?_⟩)
    exact View.Leaves.not_same ⟨dn1.1, hdp, View.lock_held _⟩
  | ok _ => exact .ends (.pure ⟨fun _ => rfl, nofun⟩)

lemma Gives.renameLink (a : RenameArgs) : Gives (renameLink a) (v.addOps 1) fun _ w => w = v :=
  .step (.deref _) fun _ => .step .inode fun _ =>
    .step (.dirlink _ _ _) fun _ => .ends
      (.step .removedirFor fun _ => .pure rfl)

/-- The branch for a target that exists: it misses `end_op` in one directory. -/
lemma Gives.renameReplace (a : RenameArgs) (ip2 : Ino) :
    Gives (renameReplace a ip2) (v.addOps 1) fun r w =>
    (r.toBool = true → w = if a.sameDir then v.addOps 1 else v) ∧
    (r.toBool = false → v.Leaves w) := by
  refine .step (.deref _) fun dn2 => .bind ((Gives.reinode _ _).mono fun r w hw => ?_)
  cases r with
  | error e =>
    obtain ⟨p, hfree, hheld⟩ := hw.2 rfl
    have hend : Gives
      (onlyIf (a.sameDir = false ∨ (Except.error e : Except Errno Unit).toBool = false) Vfs.endOp) w
        fun _ x => x.held = w.held := by
      rintro s rfl
      unfold onlyIf
      simp only [Except.toBool, or_true, if_true]
      exact (post_modify _).mpr rfl
    refine .bind (hend.mono fun _ x hx => .step .removedirFor fun _ => .pure ?_)
    exact ⟨nofun, fun _ => ⟨p, hfree, by rw [hx, hheld]⟩⟩
  | ok _ =>
    rw [hw.1 rfl]
    have hend : Gives
      (onlyIf (a.sameDir = false ∨ (Except.ok () : Except Errno Unit).toBool = false) Vfs.endOp)
        (v.addOps 1) fun _ x => x = if a.sameDir then v.addOps 1 else v := by
      unfold onlyIf
      cases a.sameDir with
      | false => exact .endOp rfl
      | true => exact .pure rfl
    refine .bind (hend.mono fun _ x hx => .step .removedirFor fun _ => .pure ?_)
    exact ⟨fun _ => hx, nofun⟩

/-- Balanced if `c`, and only then. -/
def View.Settles (c : Prop) (v w : View) : Prop := c ∧ w = v ∨ ¬c ∧ ¬v.Same w

lemma View.Settles.iff {c : Prop} {w : View} (h : View.Settles c v w) : v.Same w ↔ c := by
  rcases h with ⟨hc, rfl⟩ | ⟨hc, hdiff⟩
  · exact ⟨fun _ => hc, fun _ => ⟨rfl, rfl, rfl⟩⟩
  · exact ⟨fun h => (hdiff h).elim, fun h => (hc h).elim⟩

lemma fileunlink_settles (removedir : Bool) :
    Post (fileunlink path removedir) s fun _ t => View.Settles (UnlinkClean path s) s.view t.view :=
  (fileunlink_view path removedir).mono fun _ _ h => h.imp_right fun h => ⟨h.1, h.2.not_same⟩

end names

/-! ## Mounting -/

section mounting

variable {devi : Ino} (source target : List Char)

lemma Neutral.fsUnmount (dev : Nat) : Neutral (fsUnmount dev) := by
  refine .bind .get fun s => ?_
  split
  · exact .pure _
  · exact .bind (.modify fun _ => rfl) fun _ => .pure _

lemma Neutral.umountLocked : Neutral (umountLocked ip devi) := by
  refine .bind .get fun s => .ite (.pure _) ?_
  refine .bind (.fsUnmount _) fun _ => .ite (.pure _) ?_
  exact .bind (.modify fun _ => rfl) fun _ => .bind (.modifyInode fun _ => rfl) fun _ =>
    .bind (.modifyAttrs _) fun _ => .pure _

/-- **Unmounting is balanced.** -/
theorem Neutral.umount (target : List Char) : Neutral (umount target) := by
  refine .of_gives fun v => .bind (.beginOp (.step (.namei target) fun r => ?_))
  split
  · exact .ends (.pure rfl)
  · next devi =>
    refine .bind (.ilock fun hdevi => .step .get fun s' => ?_)
    split
    · exact .iunlockput_end hdevi (.pure rfl)
    · next ip _ =>
      refine .bind (.ilock fun hip => .step .umountLocked fun r => ?_)
      exact .unlockput hip (.iunlockput_end hdevi (.pure rfl))

end mounting

/-! ## Calls of `sysfile.c` -/

section sysfile

variable (path : List Char)

/-- **`mkdirat` is balanced.** -/
theorem Neutral.sysMkdirat (mode : Nat) : Neutral (sysMkdirat path mode) := by
  refine .of_gives fun v => .bind
    (.beginOp (.bind ((Gives.create path .dir 0 0 _).mono fun r w hw => ?_)))
  refine .step .get fun s => ?_
  rw [if_neg (by simpa using Int.ne_of_lt (s.long_neg r))]
  cases r with
  | error e => exact .bind (.throw _)
  | ok ip =>
    obtain ⟨hip, rfl⟩ := hw
    exact .bind (.pure (.iunlockput_end hip (.pure rfl)))

lemma Gives.getcwdBad {cwd : Ino} (hdp : v.held dp = false) :
    Gives (getcwdBad cwd dp) ((v.lock dp true).addOps 1) fun _ w => w = v :=
  .step .iput fun _ => .iunlockput_end hdp (.pure rfl)

/-- The loop of `getcwd` ends the operation on every way out. -/
lemma Gives.getcwdLoop (size n : Nat) (cwd : Ino) (buf : List Char) :
    Gives (getcwdLoop size n cwd buf) (v.addOps 1) fun _ w => w = v := by
  induction n generalizing cwd buf with
  | zero => exact .throw _
  | succ n ih => ?_
  refine .step (.dirlookup _) fun r => .step (.deref _) fun d => ?_
  obtain ⟨dp, off⟩ := d
  refine .bind (.ilock fun hdp => .step (.direntlookup _) fun r => ?_)
  split
  · exact .getcwdBad hdp
  split
  · exact .getcwdBad hdp
  refine .step .iput fun _ => .bind (.iunlock ?_)
  rw [View.unlock hdp]
  split
  · exact .step .iput fun _ => .ends (.pure rfl)
  · exact .step .idup fun _ => .step .iput fun _ => ih _ _

/-- **`getcwd` settles exactly if it is not called at a root.** -/
theorem sysGetcwd_settles (depth size : Nat) : Post (sysGetcwd depth size) s fun _ t =>
    View.Settles (s.me.cwd.inum ≠ rootino) s.view t.view := by
  refine .modify (.get ?_)
  refine Gives.bind (v := s.view.addOps 1) (Q := fun _ w => View.Settles _ s.view w)
    (.idup ?_) (s.addOps 1) rfl
  split
  · next hroot => exact .pure (.inr ⟨fun h => h hroot, View.not_same_begin⟩)
  · next hroot => exact (Gives.getcwdLoop size _ _ []).mono fun _ w hw => .inl ⟨hroot, hw⟩

end sysfile

/-! ## A card -/

/-- A root directory with one file, and a process in it. -/
def tiny : Sys where
  card p :=
    if p = ⟨1, 1⟩ then
      ⟨⟨.dir, 0, 0, 1, 0o755, 0, 0⟩, [⟨1, .dir, dot⟩, ⟨1, .dir, dotdot⟩, ⟨2, .file, ['a']⟩], []⟩
    else if p = ⟨1, 2⟩ then ⟨⟨.file, 0, 0, 1, 0o644, 0, 0⟩, [], []⟩
    else ⟨.zero .free, [], []⟩
  ninodes _ := 8
  icache p := if p = ⟨1, 1⟩ then ⟨.zero .dir, 1, false, false⟩ else ⟨.zero .free, 0, false, false⟩
  inUse := 1
  mpoint _ := ⟨none, none, none, false⟩
  vfsmlist := [(sdmajor, 1)]
  logEnabled i := i = 1
  outstanding _ := 0
  ops := 0
  file _ := ⟨.none, 0, ⟨0, 0⟩, false, false⟩
  proc _ := ⟨⟨1, 1⟩, fun _ => none, 0, 0, 0, 0, 0, [], 0o22, true, true⟩
  thisproc := 0

end RpiOs.Vfs
