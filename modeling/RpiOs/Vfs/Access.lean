import Mathlib.Data.Nat.Bitwise
import RpiOs.Vfs.Rename

/-!
# `access` and `open`

`faccess` checks the permissions on its own, on the inode in memory, which it does not load. It
refuses only a caller that has both ids of the file, and only a bit that none of the classes has.

* `faccess_agrees_iff`: when the answer is that of `generic_permission` for the inode on the card.
-/

namespace RpiOs.Vfs

open Lib

/-- `AT_EACCESS`. -/
def atEaccess : Nat := 0x200

/-- One check, with the bits it looks at. -/
def refuses (a : Attrs) (uid gid usr grp oth : Nat) : Bool :=
  (a.uid = uid ∧ a.mode &&& usr = 0) ∧ (a.gid = gid ∧ a.mode &&& grp = 0) ∧ a.mode &&& oth = 0

/-- `egid` is that of the process, which no other call of this model reads. -/
def faccess (egid : Nat) (path : List Char) (mode flags : Nat) : V (Except Errno Unit) := do
  if clearBits mode 7 ≠ 0 then return .error .EINVAL
  else
    beginOp
    match ← namei path with
    | none => do
      endOp
      return .error .ENOENT
    | some ip => do
      let a := (← inode ip).attrs
      iput ip
      endOp
      let me := (← get).me
      let (uid, gid) := if flags &&& atEaccess ≠ 0 then (me.euid, egid) else (me.uid, me.gid)
      if mode = 0 then return .ok ()
      else if me.uid = 0 then
        if mode &&& mayExec ≠ 0 ∧ a.mode &&& sIxugo =
          0 then return .error .EACCES else return .ok ()
      else if mode &&& mayRead ≠ 0 ∧ refuses a uid gid 0o400 0o040 0o004 then return .error .EACCES
      else if mode &&& mayWrite ≠ 0 ∧ refuses a uid gid 0o200 0o020 0o002 then return .error .EACCES
      -- the bit of the group is that of the others
      else if mode &&& mayExec ≠ 0 ∧ refuses a uid gid 0o100 0o001 0o001 then return .error .EACCES
      else return .ok ()

/-- Where the three bits for the caller are. -/
def classOf (me : Proc) (a : Attrs) : Nat :=
    if me.uid = a.uid then 6 else if me.gid = a.gid then 3 else 0

/-- Every bit that is asked for is set in the class of the caller. -/
def Grants (me : Proc) (c : Attrs) (mask : Nat) : Prop :=
  ∀ b ∈ [2, 1, 0], mask.testBit b → c.mode.testBit (classOf me c + b)

/-- `faccess` refuses a file that has both ids of the caller, if a bit asked for is missing for the
owner, for the others and, but for execution, for the group. -/
def Refused (a : Attrs) (uid gid mask : Nat) : Prop :=
  a.uid = uid ∧ a.gid = gid ∧ ∃ b ∈ [2, 1, 0], mask.testBit b ∧ ¬ a.mode.testBit (b + 6) ∧
    (b = 0 ∨ ¬ a.mode.testBit (b + 3)) ∧ ¬ a.mode.testBit b

instance (me : Proc) (c : Attrs) (mask : Nat) : Decidable (Grants me c mask) :=
  inferInstanceAs (Decidable (∀ b ∈ _, _))

instance (a : Attrs) (uid gid mask : Nat) : Decidable (Refused a uid gid mask) :=
  inferInstanceAs (Decidable (_ ∧ _))

/-- When the two agree, for an inode with `a` in memory and `c` on the card. If it is loaded,
everything asked for is granted to the class of the caller, or the caller owns the file and a bit is
granted to nobody. If what is in memory is that of another inode, it must by chance lead to the same
answer. -/
def AccessAgrees (me : Proc) (a c : Attrs) (mask : Nat) : Prop :=
  if a = c then Grants me c mask ∨ Refused c me.uid me.gid mask
  else Grants me c mask ∧ ¬ Refused a me.uid me.gid mask ∨
    ¬ Grants me c mask ∧ Refused a me.uid me.gid mask

instance (me : Proc) (a c : Attrs) (mask : Nat) : Decidable (AccessAgrees me a c mask) :=
  inferInstanceAs (Decidable (if a = c then (_ : Prop) else _))

section bits

variable {m : Nat} {a : Attrs} {uid gid : Nat}

lemma and_bit {x b : Nat} : x &&& 2 ^ b = 0 ↔ ¬ x.testBit b := by
  rw [Nat.and_two_pow]
  cases x.testBit b <;> simp

lemma refuses_iff {i j k : Nat} : refuses a uid gid (2 ^ i) (2 ^ j) (2 ^ k) = true ↔
    (a.uid = uid ∧ ¬ a.mode.testBit i) ∧ (a.gid = gid ∧ ¬ a.mode.testBit j) ∧
    ¬ a.mode.testBit k := by
  simp only [refuses, decide_eq_true_eq, and_bit]

/-- The three tests of `faccess`, bit by bit. -/
lemma refused_iff : (m &&& mayRead ≠ 0 ∧ refuses a uid gid 0o400 0o040 0o004) ∨
    (m &&& mayWrite ≠ 0 ∧ refuses a uid gid 0o200 0o020 0o002) ∨
    (m &&& mayExec ≠ 0 ∧ refuses a uid gid 0o100 0o001 0o001) ↔ Refused a uid gid m := by
  have hr : refuses a uid gid 0o400 0o040 0o004 = true ↔ _ := refuses_iff (i := 8) (j := 5) (k := 2)
  have hw : refuses a uid gid 0o200 0o020 0o002 = true ↔ _ := refuses_iff (i := 7) (j := 4) (k := 1)
  have hx : refuses a uid gid 0o100 0o001 0o001 = true ↔ _ := refuses_iff (i := 6) (j := 0) (k := 0)
  have h4 : m &&& mayRead = 0 ↔ _ := and_bit (b := 2)
  have h2 : m &&& mayWrite = 0 ↔ _ := and_bit (b := 1)
  have h1 : m &&& mayExec = 0 ↔ _ := and_bit (b := 0)
  simp only [Refused, ne_eq, h4, h2, h1, hr, hw, hx, List.mem_cons, List.not_mem_nil,
    exists_eq_or_imp, or_false, exists_eq_left]
  grind

/-- The test of `generic_permission`, bit by bit. -/
lemma grants_iff {me : Proc} (hm : m < 8) :
    a.mode >>> classOf me a &&& m = m ↔ Grants me a m := by
  have hhigh : ∀ b, 3 ≤ b → m.testBit b = false := fun b hb =>
    Nat.testBit_lt_two_pow (hm.trans_le (Nat.pow_le_pow_right (by decide) hb : 2 ^ 3 ≤ 2 ^ b))
  constructor
  · intro heq b _ hbit
    rw [← heq, Nat.testBit_and, Nat.testBit_shiftRight, Bool.and_eq_true] at hbit
    exact hbit.1
  · intro hgrants
    refine Nat.eq_of_testBit_eq fun b => ?_
    rw [Nat.testBit_and, Nat.testBit_shiftRight]
    cases hbit : m.testBit b with
    | false => simp
    | true =>
      have hlow : b < 3 := by
        by_contra hge
        rw [hhigh b (by omega)] at hbit
        cases hbit
      rw [hgrants b (by simp; omega) hbit]
      rfl

/-- A loaded file that is refused is not granted: the caller is its owner. -/
lemma Refused.not_grants {me : Proc} (h : Refused a me.uid me.gid m) : ¬ Grants me a m := by
  obtain ⟨huid, -, b, hb, hask, hmissing, -⟩ := h
  intro hgrants
  have hset := hgrants b hb hask
  rw [classOf, if_pos huid.symm, Nat.add_comm] at hset
  exact hmissing hset

lemma accessAgrees_iff {me : Proc} {c : Attrs} :
    AccessAgrees me a c m ↔ (¬ Refused a me.uid me.gid m ↔ Grants me c m) := by
  unfold AccessAgrees
  split
  · next heq =>
    subst heq
    have hnot : Refused a me.uid me.gid m → ¬ Grants me a m := Refused.not_grants
    tauto
  · tauto

end bits

/-- **When `access` agrees with `open`**, for a user without capabilities whose file-system ids are
the real ones: `t` is the state in which the inode is found, and `u` the one in which the ids are
read. -/
theorem faccess_agrees_iff {s t u : Sys} {path : List Char} {ip : Ino} {m flags : Nat} (egid : Nat)
    (hnamei : namei path (s.addOps 1) = .ok (some ip) t) (hput : iput ip t = .ok () u) (hm : m < 8)
    (hpos : 0 < m) (hflags : flags &&& atEaccess = 0) (huid : u.me.uid ≠ 0)
    (hfsuid : u.me.fsuid = u.me.uid) (hfsgid : u.me.fsgid = u.me.gid)
    (hcap : u.me.dacOverride = false) :
    ∃ r v, faccess egid path m flags s = .ok r v ∧
      ((r.toBool = true ↔ valueOf (permission ip m)
          (u.setInode ip { u.icache ip with attrs := (t.card ip).attrs }) = some true) ↔
        AccessAgrees u.me (t.icache ip).attrs (t.card ip).attrs m) := by
  have hclear := (by decide : ∀ m < 8, clearBits m 7 = 0) m hm
  obtain ⟨r, v, hrun, hr⟩ : ∃ r v, faccess egid path m flags s = .ok r v ∧
      (r.toBool = true ↔ ¬ Refused (t.icache ip).attrs u.me.uid u.me.gid m) := by
    unfold faccess
    rw [if_neg (not_not.mpr hclear), bind_run (x := beginOp) (s := s) rfl, bind_run hnamei]
    dsimp only
    rw [bind_run (x := inode ip) (s := t) rfl, bind_run hput, bind_run (x := endOp) (s := u) rfl,
      bind_run (x := get) (s := u.addOps (-1)) rfl, if_neg (not_not.mpr hflags), if_neg hpos.ne']
    have hme : (u.addOps (-1)).me = u.me := rfl
    dsimp only
    rw [hme, if_neg huid]
    rw [← refused_iff]
    split_ifs with h4 h2 h1 <;> exact ⟨_, _, rfl, by simp_all [Except.toBool]⟩
  have hperm : valueOf (permission ip m)
    (u.setInode ip { u.icache ip with attrs := (t.card ip).attrs }) =
      some true ↔ Grants u.me (t.card ip).attrs m := by
    rw [← grants_iff hm, show valueOf (permission ip m) _ = some _ from rfl, Option.some.injEq,
      Proc.allows, decide_eq_true_eq]
    have hme : (u.setInode ip { u.icache ip with attrs := (t.card ip).attrs }).me = u.me := rfl
    rw [hme, setInode_icache_self, hfsuid, hfsgid, hcap]
    simp only [huid, Bool.false_eq_true, and_false, or_false, false_or]
    rw [Nat.and_assoc, (by decide : ∀ m < 8, m &&& (mayRead ||| mayWrite ||| mayExec) = m) m hm]
    unfold classOf
    split_ifs <;> rfl
  exact ⟨r, v, hrun, by rw [hr, hperm, accessAgrees_iff]⟩

/-- Root owns the file `a`, with this mode, and the process is a user without capabilities. -/
def asUser (mode : Nat) : Sys :=
  { tiny with
    card := fun p => if p = ⟨1, 2⟩ then ⟨⟨.file, 0, 0, 1, mode, 0, 0⟩, [], []⟩ else tiny.card p
    proc := fun _ => ⟨⟨1, 1⟩, fun _ => none, 5, 5, 5, 5, 5, [], 0o22, false, false⟩ }

/-- A file that everybody may read, in a cache without it. -/
theorem faccess_agrees_readable : let t := stateOf (namei ['/', 'a']) ((asUser 0o644).addOps 1)
    let u := stateOf (iput ⟨1, 2⟩) t
    ∃ r v, faccess 5 ['/', 'a'] 4 0 (asUser 0o644) = .ok r v ∧
      (r.toBool = true ↔ valueOf (permission ⟨1, 2⟩ 4)
        (u.setInode ⟨1, 2⟩ { u.icache ⟨1, 2⟩ with attrs := (t.card ⟨1, 2⟩).attrs }) =
          some true) := by
  obtain ⟨r, v, hrun, hiff⟩ := faccess_agrees_iff (m := 4) 5
    (eq_ok_of_valueOf (x := namei ['/', 'a']) (s := (asUser 0o644).addOps 1) (by decide +kernel))
    (eq_ok_of_valueOf (x := iput ⟨1, 2⟩) (by decide +kernel)) (by decide) (by decide)
    (rfl : 0 &&& atEaccess = 0) (by decide +kernel) (by decide +kernel) (by decide +kernel)
      (by decide +kernel)
  exact ⟨r, v, hrun, hiff.mpr (by decide +kernel)⟩

/-- **A file that only its owner may read is readable to all others**, whether its inode is in the
cache or not. -/
theorem faccess_lets_others_in : let s := asUser 0o600
    let s' := s.setInode ⟨1, 2⟩ ⟨(s.card ⟨1, 2⟩).attrs, 1, false, true⟩
    (valueOf (faccess 5 ['/', 'a'] 4 0) s).map Except.toBool = some true ∧
      (valueOf (faccess 5 ['/', 'a'] 4 0) s').map Except.toBool = some true ∧
      valueOf (permission ⟨1, 2⟩ 4) s' = some false := by
  decide +kernel

end RpiOs.Vfs
