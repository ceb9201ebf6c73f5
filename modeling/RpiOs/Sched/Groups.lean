import RpiOs.Kernel.Shared
import RpiOs.Sched.Table

/-!
# Process groups

`setpgid` of kern/proc.c. It looks for the first entry of the table with the pid, used or not, and
for some entry of the caller's session; then it sets the group of the caller, whichever process it
has found. An entry keeps its pid and its parent when its process has been waited for, so what it
finds need not be a process any more.

* `setpgid_joins_iff`: which calls do what they should.
-/

namespace RpiOs.Sched

open Function

section setpgid

variable (sid : Nat → Int) (proc : Nat → Proc) (current : Nat) (pid pgid : Int)

/-- `p`, which has no value if the loop does not find the pid. -/
def findPid : Option Nat :=
  if pid = (proc current).pid then some current
  else (List.range nproc).find? fun p => (proc p).pid = pid

/-- After the defaults. Undefined if `p` is read without a value. -/
def setpgidOf : Option (Int × (Nat → Proc)) :=
  if pgid < 0 then some (-einval, proc)
  else (findPid proc current pid).map fun p =>
    if (proc p).parent = some current ∧ sid p ≠ sid current then (-eperm, proc)
    else if (proc p).parent ≠ some current ∧ p ≠ current then (-esrch, proc)
    else if pgid ≠ pid ∧ ∀ pp < nproc, sid pp ≠ sid current then
      (if (proc p).parent = some current then -eperm else -esrch, proc)
    else (0, update proc current { proc current with pgid })

def pidOf : Int := if pid = 0 then (proc current).pid else pid

def pgidOf : Int := if pgid = 0 then pidOf proc current pid else pgid

def setpgid : Option (Int × (Nat → Proc)) :=
  setpgidOf sid proc current (pidOf proc current pid) (pgidOf proc current pid pgid)

/-- The entry is that of a process with the pid. -/
def IsProcess (p : Nat) : Prop := p < nproc ∧ (proc p).state ≠ .unused ∧ (proc p).pid = pid

instance (p : Nat) : Decidable (IsProcess proc pid p) := inferInstanceAs (Decidable (_ ∧ _))

/-- The caller, or a child of it in the same session. -/
def MayMove (p : Nat) : Prop := p = current ∨ (proc p).parent = some current ∧ sid p = sid current

/-- A process of the caller's session is in the group. -/
def InSession : Prop :=
  ∃ q < nproc, (proc q).state ≠ .unused ∧ (proc q).pgid = pgid ∧ sid q = sid current

/-- What `setpgid` should return: a success has moved the process with the pid, and no other; a pid
that no process has is refused with `-ESRCH`. -/
structure Joined (r : Int × (Nat → Proc)) : Prop where
  moved : r.1 = 0 → ∃ p, IsProcess proc pid p ∧ MayMove sid proc current p ∧ (r.2 p).pgid = pgid ∧
    (∀ q, q ≠ p → (r.2 q).pgid = (proc q).pgid) ∧ (pgid ≠ pid → InSession sid proc current pgid)
  refused : (∀ q, ¬ IsProcess proc pid q) → r.1 = -esrch

/-- A process with the pid may be moved, and is the caller, or both are in the group already; and
the group is in the session. -/
def Movable : Prop :=
  (∃ q, IsProcess proc pid q ∧ MayMove sid proc current q ∧
      (q = current ∨ (proc q).pgid = pgid ∧ (proc current).pgid = pgid)) ∧
    (pgid ≠ pid → InSession sid proc current pgid)

/-- What the entry that is found must be: one that may not be moved, unless a process is there to be
moved; and if no process has the pid, a negative group is not asked for and the entry is not one of
a child. -/
structure Fits (p : Nat) : Prop where
  moves : 0 ≤ pgid → MayMove sid proc current p → Movable sid proc current pid pgid
  refuses : (∀ q, ¬ IsProcess proc pid q) → 0 ≤ pgid ∧ (proc p).parent ≠ some current

end setpgid

variable {sid : Nat → Int} {proc : Nat → Proc} {current : Nat}

lemma findPid_eq_none {pid : Int} (h : findPid proc current pid = none) (q : Nat) :
    ¬ IsProcess proc pid q := by
  unfold findPid at h
  split at h
  · cases h
  · rintro ⟨hq, -, hpid⟩
    exact absurd hpid (by simpa using List.find?_eq_none.mp h q (List.mem_range.mpr hq))

/-- **The group that `setpgid` sets is that of the caller**, when it sets one. -/
lemma setpgidOf_of_mayMove {pid pgid : Int} {p : Nat} (hcur : current < nproc)
    (hp : findPid proc current pid = some p) (hpos : ¬ pgid < 0)
    (hmay : MayMove sid proc current p) :
    setpgidOf sid proc current pid pgid =
      some (0, update proc current { proc current with pgid }) := by
  have hsid : ¬ ∀ pp < nproc, sid pp ≠ sid current := fun h => h current hcur rfl
  unfold MayMove at hmay
  simp only [setpgidOf, if_neg hpos, hp, Option.map_some, Option.some.injEq]
  rw [if_neg (by grind), if_neg (by grind), if_neg fun h => hsid h.2]

/-- An entry that may not be moved is refused: with `-EPERM` for a child, and else with `-ESRCH`. -/
lemma setpgidOf_of_not_mayMove {pid pgid : Int} {p : Nat} (hp : findPid proc current pid = some p)
    (hpos : ¬ pgid < 0) (hmay : ¬ MayMove sid proc current p) :
    setpgidOf sid proc current pid pgid =
      some (if (proc p).parent = some current then -(eperm : Int) else -esrch, proc) := by
  unfold MayMove at hmay
  simp only [setpgidOf, if_neg hpos, hp, Option.map_some, Option.some.injEq]
  by_cases hchild : (proc p).parent = some current
  · rw [if_pos (by grind), if_pos hchild]
  · rw [if_neg (by grind), if_pos (by grind), if_neg hchild]

/-- The move of the caller is what was asked exactly if it is movable. -/
lemma joined_of_mayMove (pid pgid : Int) :
    Joined sid proc current pid pgid (0, update proc current { proc current with pgid }) ↔
      Movable sid proc current pid pgid := by
  have hgroup : ∀ q, (update proc current { proc current with pgid } q).pgid =
      if q = current then pgid else (proc q).pgid := by
    intro q
    by_cases hq : q = current
    · subst hq
      simp
    · simp [hq]
  constructor
  · rintro ⟨hmoved, -⟩
    obtain ⟨p, hpid, hmay, hin, hothers, hsession⟩ := hmoved rfl
    refine ⟨⟨p, hpid, hmay, ?_⟩, hsession⟩
    by_cases heq : p = current
    · exact .inl heq
    · have hcaller := hothers current (Ne.symm heq)
      simp only [hgroup, if_neg heq, if_true] at hin hcaller
      exact .inr ⟨hin, hcaller.symm⟩
  · rintro ⟨⟨p, hpid, hmay, hin⟩, hsession⟩
    refine ⟨fun _ => ⟨p, hpid, hmay, ?_, fun q hq => ?_, hsession⟩, fun h => absurd hpid (h p)⟩
    · simp only [hgroup]
      grind
    · simp only [hgroup]
      grind

/-- The cases of `setpgid`, in the order of its tests. -/
lemma joined_iff (hcur : current < nproc) (pid pgid : Int) :
    (∃ r ∈ setpgidOf sid proc current pid pgid, Joined sid proc current pid pgid r) ↔
      ∃ p ∈ findPid proc current pid, Fits sid proc current pid pgid p := by
  have hesrch : ∀ r : Int, r = -einval ∨ r = -eperm ∨ r = 0 → r ≠ -esrch := by
    rintro r (rfl | rfl | rfl) <;> decide
  cases hp : findPid proc current pid with
  | none =>
    -- `p` has no value, or the call is refused before it would be read
    refine iff_of_false ?_ (by simp)
    rintro ⟨r, hr, -, hrefused⟩
    unfold setpgidOf at hr
    split at hr
    · cases hr
      exact hesrch _ (.inl rfl) (hrefused (findPid_eq_none hp))
    · rw [hp] at hr
      cases hr
  | some p => ?_
  simp only [Option.mem_some_iff, exists_eq_left']
  by_cases hneg : pgid < 0
  · have hset : setpgidOf sid proc current pid pgid = some (-(einval : Int), proc) := by
      simp only [setpgidOf, if_pos hneg]
    rw [hset]
    simp only [Option.mem_some_iff, exists_eq_left']
    constructor
    · rintro ⟨-, hrefused⟩
      exact ⟨fun hpos => absurd hneg (by omega),
        fun hno => absurd (hrefused hno) (hesrch _ (.inl rfl))⟩
    · rintro ⟨-, hrefuses⟩
      exact ⟨fun h => absurd h (by simp [einval]),
        fun hno => absurd hneg (not_lt.mpr (hrefuses hno).1)⟩
  by_cases hmay : MayMove sid proc current p
  · rw [setpgidOf_of_mayMove hcur hp hneg hmay]
    simp only [Option.mem_some_iff, exists_eq_left']
    rw [joined_of_mayMove]
    constructor
    · intro hmovable
      obtain ⟨q, hq, -⟩ := hmovable.1
      exact ⟨fun _ _ => hmovable, fun hno => absurd hq (hno q)⟩
    · rintro ⟨hmoves, -⟩
      exact hmoves (by omega) hmay
  · rw [setpgidOf_of_not_mayMove hp hneg hmay]
    simp only [Option.mem_some_iff, exists_eq_left']
    constructor
    · rintro ⟨-, hrefused⟩
      refine ⟨fun _ h => absurd h hmay, fun hno => ⟨by omega, fun hchild => ?_⟩⟩
      have heq := hrefused hno
      rw [if_pos hchild] at heq
      exact hesrch _ (.inr (.inl rfl)) heq
    · rintro ⟨-, hrefuses⟩
      refine ⟨fun h => ?_, fun hno => if_neg (hrefuses hno).2⟩
      split at h
      · cases h
      · cases h

/-- **`setpgid` does what it should exactly if it finds an entry that fits.** -/
theorem setpgid_joins_iff (hcur : current < nproc) (pid pgid : Int) :
    (∃ r ∈ setpgid sid proc current pid pgid,
      Joined sid proc current (pidOf proc current pid) (pgidOf proc current pid pgid) r) ↔
    ∃ p ∈ findPid proc current (pidOf proc current pid),
      Fits sid proc current (pidOf proc current pid) (pgidOf proc current pid pgid) p :=
  joined_iff hcur _ _

/-- Process 1 runs and its child 2 sleeps, in slots 0 and 1, each in the group of its pid, in one
session. Slot 2 is that of a child 3 that has been waited for. -/
def family (p : Nat) : Proc :=
  if p = 0 then { Proc.zero with state := .running, pid := 1, pgid := 1 }
  else if p = 1 then { Proc.zero with state := .sleeping, pid := 2, pgid := 2, parent := some 0 }
  else if p = 2 then { Proc.zero with pid := 3, pgid := 1, parent := some 0 } else .zero

/-- The caller goes into the group of its child. -/
theorem setpgid_joins_family :
    ∃ r ∈ setpgid (fun _ => 0) family 0 0 2, Joined (fun _ => 0) family 0 1 2 r :=
  (setpgid_joins_iff (by decide) 0 2).mpr ⟨0, rfl,
    fun _ _ => ⟨⟨0, by decide, .inl rfl, .inl rfl⟩, fun _ => ⟨1, by decide, by decide, rfl, rfl⟩⟩,
    fun hno => absurd (show IsProcess family 1 0 by decide) (hno 0)⟩

/-- **The caller is moved in place of its child**, into a group that does not exist, and also for a
child that has been waited for; and a pid that no entry has leads to the use of `p` without a
value. -/
theorem setpgid_moves_caller :
    (∃ r ∈ setpgid (fun _ => 0) family 0 2 7, r.1 = 0 ∧ (r.2 0).pgid = 7 ∧
      (r.2 1).pgid = 2 ∧ ∀ q < nproc, (family q).pgid ≠ 7) ∧
    (∃ r ∈ setpgid (fun _ => 0) family 0 3 0, r.1 = 0 ∧ (r.2 0).pgid = 3) ∧
    setpgid (fun _ => 0) family 0 9 0 = none := by
  refine ⟨⟨_, rfl, by decide +kernel⟩, ⟨_, rfl, by decide +kernel⟩, by decide +kernel⟩

end RpiOs.Sched
