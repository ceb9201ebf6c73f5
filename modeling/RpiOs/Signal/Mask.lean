import RpiOs.Signal.Blocked

/-!
# The signal mask

The calls that write `signal.mask`, with the sets that the caller hands over in its memory.
`sigaction` installs the mask of the action at once. `sigprocmask` stores the old mask before it
reads the set, does not take `SIGKILL` and `SIGSTOP` out, and complements the caller's set in place
for `SIG_UNBLOCK`.

* **`mask_disciplined_iff`**: the runs of such calls that treat the mask as they should.
-/

namespace RpiOs.Signal

open Lib

/-- The set at an address. -/
def getSet (mem : Memory) (a : BitVec 64) : BitVec 64 := dword (mem.load a)

def putSet (mem : Memory) (a set : BitVec 64) : Memory := mem.store a 8 (dwordByte set)

lemma getSet_putSet (mem : Memory) (a set : BitVec 64) : getSet (putSet mem a set) a = set := by
  refine (dword_congr fun k hk => ?_).trans (dword_dwordByte set)
  exact mem.load_store a _ hk (by decide)

/-- A call of a process. Sets are passed by address, 0 for none, in the memory at the time. -/
inductive MaskCall where
  | sigaction (sig : Nat) (act : Option Sigaction)
  | sigprocmask (how : Int) (set oldset : BitVec 64) (mem : Memory)
  | sigsuspend (mask : BitVec 64) (mem : Memory)

/-- The memory when `sigprocmask` reads the set: `*oldset` is written first. -/
def withOldset (oldset mask : BitVec 64) (mem : Memory) : Memory :=
  if oldset = 0 then mem else putSet mem oldset mask

/-- The process after a call. -/
def runCall (g : Sig) : MaskCall → Sig
  | .sigaction sig act => (sigaction sig act g).1
  | .sigprocmask how set oldset mem =>
    let mem := withOldset oldset g.mask mem
    if set = 0 then { g with mem := mem }
    else { g with
      mask := (sigprocmask how (some (getSet mem set)) g.mask).1
      -- `signotset(set, set)`
      mem := if how = 1 then putSet mem set (~~~getSet mem set) else mem }
  | .sigsuspend mask mem =>
    { sigsuspend (getSet mem mask) g with
      mask := g.mask, mem := putSet mem mask (blockable (getSet mem mask)) }

/-- `SIGKILL` and `SIGSTOP` are not in the set. -/
def Proper (set : BitVec 64) : Prop :=
  sigismember set sigkill = false ∧ sigismember set sigstop = false

instance (set : BitVec 64) : Decidable (Proper set) := inferInstanceAs (Decidable (_ ∧ _))

/-- Union, difference and replacement. -/
def combine (how : Int) (set mask : BitVec 64) : BitVec 64 :=
  if how = 0 then mask ||| set else if how = 1 then mask &&& ~~~set else set

/-- **A call treats the mask as it should**: the mask stays proper, also during `sigsuspend`;
`sigaction` and `sigsuspend` leave it as it was; `sigprocmask` combines it with the set and leaves
the set. -/
def Disciplined (g : Sig) (c : MaskCall) : Prop :=
  Proper (runCall g c).mask ∧ match c with
    | .sigaction _ _ => (runCall g c).mask = g.mask
    | .sigprocmask how set _ mem => set ≠ 0 ∧ 0 ≤ how ∧ how ≤ 2 →
      (runCall g c).mask = combine how (getSet mem set) g.mask ∧
        getSet (runCall g c).mem set = getSet mem set
    | .sigsuspend mask mem =>
      Proper (sigsuspend (getSet mem mask) g).mask ∧ (runCall g c).mask = g.mask

/-- An action that is installed has the present mask; a set that is blocked or becomes the mask is
proper and not overwritten with the old mask. `SIG_UNBLOCK` leaves the caller's set only if the
empty mask, stored over it, had first complemented it. -/
def SparesMask (g : Sig) : MaskCall → Prop
  | .sigaction sig act => 1 ≤ sig ∧ sig < nsig ∧ sig ≠ sigstop ∧ sig ≠ sigkill →
    ∀ a ∈ act, blockable a.saMask = g.mask
  | .sigprocmask how set oldset mem => set ≠ 0 ∧ 0 ≤ how ∧ how ≤ 2 →
    if how = 1 then getSet (withOldset oldset g.mask mem) set = ~~~getSet mem set ∧ g.mask = 0
    else getSet (withOldset oldset g.mask mem) set = getSet mem set ∧ Proper (getSet mem set)
  | .sigsuspend _ _ => True

instance (g : Sig) : (c : MaskCall) → Decidable (SparesMask g c)
  | .sigaction _ _ | .sigprocmask _ _ _ _ => inferInstanceAs (Decidable (_ → _))
  | .sigsuspend _ _ => isTrue trivial

lemma proper_iff {set : BitVec 64} : Proper set ↔ set[8] = false ∧ set[18] = false := by
  rw [Proper, sigismember_eq (by decide) (by decide), sigismember_eq (by decide) (by decide)]
  rfl

lemma proper_blockable (mask : BitVec 64) : Proper (blockable mask) := by
  simp [proper_iff, blockable, sigdelset, sigkill, sigstop, nsig]

/-- A mask has the same in common with a set and its complement only if it is empty. -/
lemma eq_zero_of_and_eq {mask set : BitVec 64} (h : mask &&& set = mask &&& ~~~set) : mask = 0 := by
  ext i hi
  have hbit : (mask &&& set)[i] = (mask &&& ~~~set)[i] := by rw [h]
  cases hset : set[i] <;> simpa [hset] using hbit

/-- One call, in the order of its cases. -/
lemma disciplined_iff {g : Sig} (hg : Proper g.mask) (c : MaskCall) :
    Disciplined g c ↔ SparesMask g c := by
  cases c with
  | sigaction sig act =>
    simp only [Disciplined, SparesMask, runCall, sigaction]
    split
    · exact iff_of_true ⟨hg, rfl⟩ fun _ => by omega
    cases act with
    | none => exact iff_of_true ⟨hg, rfl⟩ fun _ => nofun
    | some act =>
      refine ⟨fun h _ a ha => ?_, fun h => ⟨proper_blockable _, h (by omega) act rfl⟩⟩
      obtain rfl := Option.some.inj ha
      exact h.2
  | sigprocmask how set oldset mem =>
    by_cases hargs : set ≠ 0 ∧ 0 ≤ how ∧ how ≤ 2
    swap
    · refine iff_of_true ⟨?_, (absurd · hargs)⟩ (absurd · hargs)
      -- without a set or with another `how` the mask stays
      simp only [runCall, sigprocmask]
      split_ifs
      all_goals first | exact hg | exact absurd ⟨‹_›, by omega⟩ hargs
    have hmask : ∀ x m, (sigprocmask how (some x) m).1 = combine how x m := fun x m => by
      unfold sigprocmask combine
      split_ifs
      all_goals first | rfl | omega
    simp only [Disciplined, SparesMask, imp_iff_right hargs, runCall, if_neg hargs.1, hmask]
    generalize hread : getSet (withOldset oldset g.mask mem) set = set'
    split
    · next h1 =>
      simp only [combine, h1, getSet_putSet]
      constructor
      · rintro ⟨-, hmask, hkept⟩
        rw [hkept] at hmask
        exact ⟨by rw [← hkept, BitVec.not_not], eq_zero_of_and_eq hmask⟩
      · rintro ⟨rfl, hmask⟩
        simp [hmask, proper_iff]
    · next h1 =>
      have hproper : Proper (combine how set' g.mask) ↔ Proper set' := by
        unfold combine
        split_ifs
        · rw [proper_iff] at hg
          simp [proper_iff, hg]
        · exact Iff.rfl
      rw [hproper, hread]
      constructor
      · rintro ⟨hprop, -, rfl⟩
        exact ⟨rfl, hprop⟩
      · rintro ⟨rfl, hprop⟩
        exact ⟨hprop, rfl, rfl⟩
  | sigsuspend mask mem => exact iff_of_true ⟨hg, proper_blockable _, rfl⟩ trivial

/-- **The calls that treat the mask as they should.** -/
theorem mask_disciplined_iff {g : Sig} (hg : Proper g.mask) (cs : List MaskCall) :
    RunOk runCall Disciplined g cs ↔ RunOk runCall SparesMask g cs := by
  have hkeep : ∀ g c, Proper g.mask → SparesMask g c → Proper (runCall g c).mask :=
    fun g c hg h => ((disciplined_iff hg c).mpr h).1
  constructor
  · exact RunOk.imp (P := fun g => Proper g.mask) (fun _ _ _ h => h.1)
      (fun _ c hg h => (disciplined_iff hg c).mp h) hg
  · exact RunOk.imp hkeep (fun _ c hg h => (disciplined_iff hg c).mpr h) hg

/-- The set that has only `SIGKILL`, at the address 8. -/
def killSet : Memory := putSet (fun _ => 0) 8 (sigaddset 0 sigkill)

/-- The theorem for a process that blocks `SIGUSR1` and then waits for a signal. -/
theorem mask_disciplined_iff_usr1 : RunOk runCall Disciplined freshSig
    [.sigprocmask 0 8 0 (putSet (fun _ => 0) 8 usr1), .sigsuspend 8 killSet] :=
  (mask_disciplined_iff (by decide) _).mpr (by decide +kernel)

/-- **The mask is not kept in order.** `SIG_SETMASK` blocks `SIGKILL`, `SIG_UNBLOCK` complements the
set of the caller, and `sigaction` changes the mask. -/
theorem mask_undisciplined : Proper freshSig.mask ∧
    ¬ Proper (runCall freshSig (.sigprocmask 2 8 0 killSet)).mask ∧
    getSet (runCall freshSig (.sigprocmask 1 8 0 killSet)).mem 8 ≠ getSet killSet 8 ∧
    (runCall freshSig (.sigaction 10 (some ⟨sigIgn, usr1, 0, 0⟩))).mask ≠ freshSig.mask := by
  decide +kernel

end RpiOs.Signal
