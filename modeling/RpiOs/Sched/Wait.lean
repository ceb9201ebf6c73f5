import RpiOs.Sched.Table

/-!
# What `wait4` reaps

A round of `wait4` reaps the first of the selected children that passes the test for reaping. With
`WNOHANG` every child passes it, and with `WUNTRACED` every sleeping one, so that a child that is
still alive can lose its kernel stack, its page table and its entry.

* `wait4_spares_live_iff`: no live child is touched iff a zombie comes before every selected child
  that the options let through.
-/

namespace RpiOs.Sched

open Lib

/-- The list of children of `cp`. -/
structure Children (s : Sys) (cp : Nat) (kids : List Nat) : Prop where
  linked : s.links.Linked (.child cp) (kids.map .clink) (.child cp)
  nodup : kids.Nodup
  length_le : kids.length ≤ nproc

/-- The child is `wait4`'s to look at. -/
def Selected (s : Sys) (cp : Nat) (pid : Int) (p : Nat) : Prop :=
  (s.proc p).parent = some cp ∧ selects (s.proc cp) (s.proc p) pid = true

/-- Beyond zombies, the options let the child through. -/
def LetsThrough (options : BitVec 32) (st : ProcState) : Prop :=
  options &&& wnohang ≠ 0 ∨ (options &&& wuntraced ≠ 0 ∧ st = .sleeping)

/-- The test that a round of `wait4` makes on a child. -/
def takes (s : Sys) (cp : Nat) (pid : Int) (options : BitVec 32) (p : Nat) : Bool :=
  (s.proc p).parent = some cp && selects (s.proc cp) (s.proc p) pid
    && reapable options (s.proc p).state

variable {s : Sys} {cp p : Nat} {pid : Int} {options : BitVec 32} {kids : List Nat}

lemma reapable_iff {st : ProcState} :
    reapable options st = true ↔ st = .zombie ∨ LetsThrough options st := by
  simp only [reapable, LetsThrough, Bool.or_eq_true, Bool.and_eq_true, decide_eq_true_eq]
  tauto

lemma takes_iff : takes s cp pid options p = true ↔
    Selected s cp pid p ∧ ((s.proc p).state = .zombie ∨ LetsThrough options (s.proc p).state) := by
  simp only [takes, Selected, Bool.and_eq_true, decide_eq_true_eq, reapable_iff]

section

variable (hc : Children s cp kids)
include hc

/-- The loop over the children is a search for the first one that the test takes. -/
lemma forEach_wait4Body : forEach Sys.links (.child cp) (wait4Body cp pid options) (nproc + 1) s =
      some ((kids.find? (takes s cp pid options)).elim (.inl s) fun p => .inr (some p)) := by
  -- still to be visited: a rest of `kids`, after a part in which nothing was taken
  let I : List Node → Sys → Prop := fun xs s' => s' = s ∧ ∃ pre rest, kids = pre ++ rest ∧
    xs = rest.map .clink ∧ ∀ p ∈ pre, takes s cp pid options p = false
  let R : Option Nat → Prop := fun r => ∃ p, r = some p ∧
    kids.find? (takes s cp pid options) = some p
  obtain ⟨r, hr, hspec⟩ : ∃ r, forEach Sys.links (.child cp) (wait4Body cp pid options)
      (nproc + 1) s = some r ∧ Sum.elim (I []) R r := by
    refine forEach_spec I R ?_ ?_ (kids.map .clink) ⟨rfl, [], kids, rfl, rfl, by simp⟩
      (by simpa using Nat.lt_succ_of_le hc.length_le) hc.linked.next_head
    · rintro x xs s' ⟨rfl, pre, rest, hk, hx, -⟩
      obtain ⟨p, rest, rfl, rfl, rfl⟩ := List.map_eq_cons_iff.mp hx.symm
      have hl := hc.linked
      rw [hk, List.map_append, List.map_cons, Links.linked_append_cons] at hl
      exact ⟨by simp, hl.2.next_head⟩
    · rintro x xs s' ⟨rfl, pre, rest, hk, hx, hpre⟩
      obtain ⟨p, rest, rfl, rfl, rfl⟩ := List.map_eq_cons_iff.mp hx.symm
      rw [wait4Body, ← takes]
      cases ht : takes s' cp pid options p with
      | true =>
        refine ⟨p, rfl, ?_⟩
        rw [hk, List.find?_append, List.find?_eq_none.mpr (by simpa using hpre),
          List.find?_cons_of_pos (by exact ht), Option.none_or]
      | false =>
        refine ⟨rfl, pre ++ [p], rest, by simp [hk], rfl, fun q hq => ?_⟩
        rcases List.mem_append.mp hq with hq | hq
        · exact hpre q hq
        · rw [List.mem_singleton.mp hq, ht]
  rw [hr]
  cases r with
  | inl s' =>
    obtain ⟨rfl, pre, rest, hk, hx, hpre⟩ := hspec
    have hrest : rest = [] := List.map_eq_nil_iff.mp hx.symm
    rw [hrest, List.append_nil] at hk
    rw [hk, List.find?_eq_none.mpr (by simpa using hpre)]
    rfl
  | inr r =>
    obtain ⟨p, rfl, hp⟩ := hspec
    rw [hp]
    rfl

/-- **A round of `wait4`**: no children; none to reap yet; or the first that the test takes. -/
theorem wait4Pass_eq (pid : Int) (options : BitVec 32) : wait4Pass s cp pid options =
    some (if kids = [] then (.echild, s)
      else match kids.find? (takes s cp pid options) with
        | none => (.sleep, s)
        | some p => (.reaped p (s.proc p).pid ((s.proc p).xstate * 2 ^ 8), reap s p)) := by
  unfold wait4Pass
  have hfirst := hc.linked.next_head
  rcases kids with - | ⟨p, kids⟩
  · rw [if_pos (by simpa using hfirst), if_pos rfl]
  have hne : s.links.next (.child cp) ≠ .child cp := by
    rw [hfirst]
    simp
  rw [if_neg hne, if_neg (by simp), forEach_wait4Body hc]
  cases (p :: kids).find? (takes s cp pid options) <;> rfl

lemma Children.queue : s.queue (.child cp) = kids := by
  have hcol : s.links.collect (.child cp) nproc (s.links.next (.child cp)) = kids.map .clink :=
    hc.linked.collect (by simp) (by simpa using hc.length_le)
  rw [Sys.queue, hcol, List.filterMap_map]
  exact List.filterMap_some

/-- The children after one was reaped. -/
lemma Children.after_reap (hp : p ∈ kids) : Children (reap s p) cp (kids.erase p) := by
  have hmap : ∀ xs : List Nat, xs.Nodup → (xs.map Node.clink).Nodup := fun xs h =>
    h.map fun a b e => by cases e; rfl
  obtain ⟨pre, post, hk⟩ := List.append_of_mem hp
  have hnd := hc.nodup
  have herase : kids.erase p = pre ++ post := by
    rw [hk] at hnd ⊢
    rw [List.erase_append_right _ (by grind), List.erase_cons_head]
  have hl := hc.linked
  rw [hk, List.map_append, List.map_cons] at hl
  refine ⟨?_, hnd.erase p, Nat.le_trans List.length_erase_le hc.length_le⟩
  rw [herase, List.map_append]
  refine hl.drop (List.nodup_cons.mpr ⟨by simp, ?_⟩)
  have := hmap kids hnd
  rwa [hk, List.map_append, List.map_cons] at this

end

/-! ## Which states are safe -/

/-- What a round of `wait4` may do to the process table: a child that is not a zombie is not
returned, keeps its entry, stays linked and keeps its stack and page table. -/
structure SparesLive (s s' : Sys) (cp : Nat) (w : Wait) : Prop where
  returned : ∀ p pid status, w = .reaped p pid status → (s.proc p).state = .zombie
  entry : ∀ p, (s.proc p).state ≠ .zombie → s'.proc p = s.proc p
  linked : ∀ p ∈ s.queue (.child cp), (s.proc p).state ≠ .zombie → p ∈ s'.queue (.child cp)
  freed : ∀ a ∈ s'.freed, a ∈ s.freed ∨
    ∃ z, (s.proc z).state = .zombie ∧ (a = (s.proc z).kstack ∨ a = (s.proc z).pgdir)

/-- Before every selected live child that the options let through there is a selected zombie. -/
def ZombieFirst (s : Sys) (cp : Nat) (pid : Int) (options : BitVec 32) (kids : List Nat) : Prop :=
  ∀ pre p post, kids = pre ++ p :: post → Selected s cp pid p → (s.proc p).state ≠ .zombie →
    LetsThrough options (s.proc p).state →
    ∃ z ∈ pre, Selected s cp pid z ∧ (s.proc z).state = .zombie

lemma SparesLive.refl (s : Sys) (cp : Nat) {w : Wait} (hw :
    ∀ p pid status, w ≠ .reaped p pid status) :
    SparesLive s s cp w :=
  ⟨fun p pid status e => absurd e (hw p pid status), fun _ _ => rfl, fun _ hp _ => hp,
    fun _ ha => .inl ha⟩

/-- Reaping a zombie spares the others. -/
lemma Children.spares_reap (hc : Children s cp kids) {z : Nat} (hz : z ∈ kids)
    (hs : (s.proc z).state = .zombie) (pid status : Int) :
    SparesLive s (reap s z) cp (.reaped z pid status) := by
  refine ⟨?_, fun p hp => ?_, fun p hp hne => ?_, fun a ha => ?_⟩
  · rintro p pid' status' e
    cases e
    exact hs
  · have hpz : p ≠ z := fun e => hp (e ▸ hs)
    simp [reap, hpz]
  · rw [hc.queue] at hp
    rw [(hc.after_reap hz).queue]
    have hpz : p ≠ z := fun e => hne (e ▸ hs)
    exact (List.mem_erase_of_ne hpz).mpr hp
  simp only [reap, Sys.setState_freed, Sys.free_freed, Sys.setLinks_freed, List.mem_cons] at ha
  rcases ha with rfl | rfl | ha
  · exact .inr ⟨z, hs, .inr rfl⟩
  · exact .inr ⟨z, hs, .inl rfl⟩
  · exact .inl ha

/-- **When `wait4` reaps only dead children**: a round of `wait4` always ends, and it spares every
live child iff a selected zombie comes before every selected live child that the options let
through. With options 0 none is let through. -/
theorem wait4_spares_live_iff (hc : Children s cp kids) (pid : Int) (options : BitVec 32) :
    (∃ w s', wait4Pass s cp pid options = some (w, s') ∧ SparesLive s s' cp w) ↔
      ZombieFirst s cp pid options kids := by
  have hpass := wait4Pass_eq hc pid options
  constructor
  · rintro ⟨w, s', hw, hspare⟩ pre p post hk hsel hlive hlets
    by_contra hno
    have htakes : takes s cp pid options p = true := takes_iff.mpr ⟨hsel, .inr hlets⟩
    -- the child that is taken is `p` or one before it, and none of these is a zombie
    obtain ⟨q, hq⟩ : ∃ q, (pre ++ [p]).find? (takes s cp pid options) = some q :=
      Option.isSome_iff_exists.mp (List.find?_isSome.mpr ⟨p, by simp, htakes⟩)
    have hfind : kids.find? (takes s cp pid options) = some q := by
      rw [hk, List.append_cons, List.find?_append, hq, Option.some_or]
    rw [hpass, if_neg (by simp [hk]), hfind] at hw
    have hz : (s.proc q).state = .zombie :=
      hspare.returned q _ _ (congrArg Prod.fst (Option.some.inj hw)).symm
    rcases List.mem_append.mp (List.mem_of_find?_eq_some hq) with hmem | hmem
    · exact hno ⟨q, hmem, (takes_iff.mp (List.find?_some hq)).1, hz⟩
    · rw [List.mem_singleton.mp hmem] at hz
      exact hlive hz
  · intro hfirst
    by_cases hnil : kids = []
    · exact ⟨.echild, s, by rw [hpass, if_pos hnil], .refl s cp (by simp)⟩
    rw [if_neg hnil] at hpass
    rcases hfind : kids.find? (takes s cp pid options) with - | p
    · exact ⟨.sleep, s, by rw [hpass, hfind], .refl s cp (by simp)⟩
    obtain ⟨htakes, pre, post, hk, hpre⟩ := List.find?_eq_some_iff_append.mp hfind
    have hz : (s.proc p).state = .zombie := by
      by_contra hlive
      obtain ⟨hsel, hlets⟩ := takes_iff.mp htakes
      obtain ⟨z, hzm, hzsel, hz⟩ := hfirst pre p post hk hsel hlive (hlets.resolve_left hlive)
      have := hpre z hzm
      rw [takes_iff.mpr ⟨hzsel, .inl hz⟩] at this
      exact absurd this (by decide)
    exact ⟨_, _, by rw [hpass, hfind], hc.spares_reap (by simp [hk]) hz _ _⟩

/-! ## A parent that does not want to wait -/

/-- The first process forks a child, and a second CPU takes it up. -/
def forkedRun : List (Nat × Action) :=
  [(0, .start 2), (0, .schedule), (0, .fork (some 3)), (0, .forkEnd (some 4)), (1, .start 5),
    (1, .schedule)]

/-- The state after `forkedRun`: process 2 is a child of process 0. -/
def forkedSys : Sys := (run id (boot none 1) forkedRun).getD (boot none 1)

lemma forkedSys_children : Children forkedSys 0 [2] := by
  refine ⟨⟨⟨?_, ?_⟩, ?_, ?_⟩, by simp, by simp [nproc]⟩ <;> decide +kernel

/-- The theorem at a state where the child runs and the parent waits with options 0. -/
theorem wait4_spares_running_child :
    ∃ w s', wait4Pass forkedSys 0 (-1) 0 = some (w, s') ∧ SparesLive forkedSys s' 0 w :=
  (wait4_spares_live_iff forkedSys_children (-1) 0).mpr fun _ _ _ _ _ _ hlets =>
    (hlets.elim (fun h => h (by decide)) fun h => h.1 (by decide)).elim

/-- **A live child is reaped**: process 2 runs on CPU 1 when its parent calls `wait4` with
`WNOHANG`; its stack 3 and its page table 4 are freed, its entry is given up, and its pid is
returned. -/
theorem wait4_wnohang_reaps_running_child :
    (run id (boot none 1) forkedRun).isSome = true ∧ forkedSys.cpu 1 = .running 2 ∧
      (forkedSys.proc 2).state = .runnable ∧
      ∃ s', wait4Pass forkedSys 0 (-1) wnohang = some (.reaped 2 3 0, s') ∧
        s'.freed = [4, 3] ∧ (s'.proc 2).state = .unused ∧ s'.queue (.child 0) = [] ∧
        ¬ SparesLive forkedSys s' 0 (.reaped 2 3 0) := by
  refine ⟨by decide +kernel, by decide +kernel, by decide +kernel, reap forkedSys 2,
    ?_, by decide +kernel, by decide +kernel, by decide +kernel, fun hspare => ?_⟩
  · rw [wait4Pass_eq forkedSys_children, if_neg (by simp)]
    have hfind : [2].find? (takes forkedSys 0 (-1) wnohang) = some 2 := by decide +kernel
    have hpid : (forkedSys.proc 2).pid = 3 ∧ (forkedSys.proc 2).xstate * 2 ^ 8 = 0 := by
      decide +kernel
    rw [hfind, ← hpid.1, ← hpid.2]
  · exact absurd (hspare.returned 2 3 0 rfl) (by decide +kernel)

end RpiOs.Sched
