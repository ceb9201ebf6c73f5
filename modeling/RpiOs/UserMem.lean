import Mathlib.Data.List.Find
import RpiOs.Kernel.Shared
import RpiOs.Lib.Memory
import RpiOs.Vm.Model

/-!
# Pointers from user space

`kern/syscall.c` (`in_user`, `fetchstr`, `argint`, `argu64`, `argptr`) and the system calls of
`kern/sysfile.c` that hand buffers on to `fileread` and `filewrite`. Addresses and lengths are
64-bit words, and sums wrap around as in the source.

What `fileread` and `filewrite` do is given from outside (`Io`): what the memory holds when the loop
comes to an element of the vector, and what they return.

* `validated_iff`: the ranges handed on lie in the areas exactly if none wraps around into an area,
  no null pointer is given, and the elements of `readv`, of which only the first one is checked, lie
  in the areas.
* `fetchstr_ok_iff`: a string is fetched as it should be, unless it is one in a mapped region that
  does not end there.
-/

namespace RpiOs.UserMem

open Lib Vm

/-! ## The process -/

/-- `NOFILE`. -/
def nofile : Nat := 16

/-- `UIO_MAXIOV`. -/
def uioMaxiov : Int := 1024

/-- The fields of a process that bound its memory. -/
structure Proc where
  base : BitVec 64
  sz : BitVec 64
  stksz : BitVec 64
  regions : List Region
  /-- `tf->x` -/
  x : Nat → BitVec 64
  ofile : Nat → Option Nat

/-- `inc/linux/errno.h`; `EPERM` is also the `-1` of `sys_writev`. -/
inductive Errno where
  | EPERM
  | EBADF
  | EFAULT
  | EINVAL
  deriving DecidableEq, Repr

/-- `USERTOP - p->stksz`. -/
def Proc.stackStart (p : Proc) : BitVec 64 := BitVec.ofNat 64 usertop - p.stksz

def inUser (p : Proc) (s n : BitVec 64) : Bool :=
  if p.base ≤ s ∧ s + n ≤ p.sz then true
  else if p.stackStart ≤ s ∧ s + n ≤ BitVec.ofNat 64 usertop then true
  else p.regions.any fun r => r.addr ≤ s.toNat ∧ (s + n).toNat ≤ (r.addr + r.length) % 2 ^ 64

def argu64 (p : Proc) (n : Nat) : Option (BitVec 64) := if 5 < n then none else some (p.x n)

def argint (p : Proc) (n : Nat) : Option (BitVec 32) :=
    if 5 < n then none else some ((p.x n).setWidth 32)

/-- A null pointer is accepted with any size. -/
def argptr (p : Proc) (n : Nat) (size : BitVec 64) : Option (BitVec 64) := do
  let i ← argu64 p n
  if i = 0 then some 0 else if inUser p i size then some i else none

def argfd (p : Proc) (n : Nat) : Option Nat := do
  let fd ← argint p n
  if fd.toInt < 0 ∨ nofile ≤ fd.toInt then none else p.ofile fd.toInt.toNat

/-! ## Reading and writing -/

/-- A call of `fileread` or `filewrite`. -/
structure Passed where
  f : Nat
  buf : BitVec 64
  len : BitVec 64
  deriving DecidableEq

/-- What is not known here: the memory when the loop is at element `k`, and the results. -/
structure Io where
  mem : Nat → Memory
  ret : Nat → BitVec 64

/-- `struct iovec`. -/
structure Iovec where
  base : BitVec 64
  len : BitVec 64

/-- `iov[k]`. -/
def iovec (m : Memory) (iov : BitVec 64) (k : Nat) : Iovec :=
  ⟨dword (m.load (iov + BitVec.ofNat 64 (16 * k))),
    dword (m.load (iov + BitVec.ofNat 64 (16 * k + 8)))⟩

/-- The element that the loop is at, as the memory then has it. -/
def Io.elem (io : Io) (iov : BitVec 64) (k : Nat) : Iovec := iovec (io.mem k) iov k

/-- How often `for (ip = iov; ip < iov + iovcnt; ip++)` goes round. -/
def iovLoops (iov : BitVec 64) (iovcnt : BitVec 32) : Nat :=
  ((iov + iovcnt.signExtend 64 * 16).toNat - iov.toNat) / 16

/-- The buffers that were passed on, and the result. -/
abbrev Trace := List Passed × Except Errno (BitVec 64)

/-- The body that `sys_read` and `sys_write` share. -/
def transfer (p : Proc) (io : Io) : Trace :=
  match argfd p 0, argu64 p 2 with
  | some f, some n =>
    match argptr p 1 n with
    | some buf => ([⟨f, buf, n⟩], .ok (io.ret 0))
    | none => ([], .error .EINVAL)
  | _, _ => ([], .error .EINVAL)

def sysRead : Proc → Io → Trace := transfer

def sysWrite : Proc → Io → Trace := transfer

/-- What is checked is the first element, what is used the one the loop is at.
Source: `sys_readv`. -/
def readvLoop (p : Proc) (io : Io) (f : Nat) (iov : BitVec 64) : Nat → Nat → BitVec 64 → Trace
  | 0, _, tot => ([], .ok tot)
  | n + 1, k, tot =>
    -- `ip->iov_len < 0` is never true: the length is unsigned
    let first := iovec (io.mem k) iov 0
    let ip := io.elem iov k
    if inUser p first.base first.len = false then ([], .error .EFAULT)
    else
      let rest := readvLoop p io f iov n (k + 1) (tot + io.ret k)
      (⟨f, ip.base, ip.len⟩ :: rest.1, rest.2)

/-- The arguments that `readv` and `writev` fetch: the file, the number of elements, and the
vector. -/
def vectorArgs (p : Proc) : Option (Nat × BitVec 32 × BitVec 64) := do
  let f ← argfd p 0
  let iovcnt ← argint p 2
  let iov ← argptr p 1 (iovcnt.signExtend 64 * 16)
  some (f, iovcnt, iov)

/-- `sys_readv`. -/
def sysReadv (p : Proc) (io : Io) : Trace :=
  match vectorArgs p with
  | none => ([], .error .EINVAL)
  | some (f, iovcnt, iov) =>
    if iovcnt.toInt ≤ 0 ∨ uioMaxiov < iovcnt.toInt then ([], .error .EINVAL)
    else readvLoop p io f iov (iovLoops iov iovcnt) 0 0

/-- `sys_writev`. -/
def writevLoop (p : Proc) (io : Io) (f : Nat) (iov : BitVec 64) : Nat → Nat → BitVec 64 → Trace
  | 0, _, tot => ([], .ok tot)
  | n + 1, k, tot =>
    let ip := io.elem iov k
    if inUser p ip.base ip.len = false then
      if ip.base = 0 ∧ ip.len = 0 then writevLoop p io f iov n (k + 1) tot else ([], .error .EFAULT)
    else
      let rest := writevLoop p io f iov n (k + 1) (tot + io.ret k)
      (⟨f, ip.base, ip.len⟩ :: rest.1, rest.2)

/-- The number of elements is not checked. -/
def sysWritev (p : Proc) (io : Io) : Trace :=
  match vectorArgs p with
  | none => ([], .error .EPERM)
  | some (f, iovcnt, iov) => writevLoop p io f iov (iovLoops iov iovcnt) 0 0

/-! ## Areas -/

/-- From the first address to the one after the last. -/
abbrev Area := Nat × Nat

/-- Image, stack and mapped regions, in the order of the checks. -/
def Proc.areas (p : Proc) : List Area :=
  (p.base.toNat, p.sz.toNat) :: (usertop - p.stksz.toNat, usertop) ::
    p.regions.map fun r => (r.addr, r.addr + r.length)

def Inside (A : Area) (a : Nat) : Prop := A.1 ≤ a ∧ a < A.2

instance (A : Area) (a : Nat) : Decidable (Inside A a) := inferInstanceAs (Decidable (_ ∧ _))

/-- Stack and regions lie below `USERTOP`. -/
structure Layout (p : Proc) : Prop where
  stack : p.stksz.toNat ≤ usertop
  regions : ∀ r ∈ p.regions, r.addr + r.length ≤ usertop

/-- The range does not wrap and lies in one area. -/
def Valid (p : Proc) (s n : BitVec 64) : Prop :=
  s.toNat + n.toNat < 2 ^ 64 ∧ ∃ A ∈ p.areas, ∀ a, s.toNat ≤ a → a < s.toNat + n.toNat → Inside A a

variable {p : Proc} {s n : BitVec 64}

lemma usertop_eq : usertop = 2 ^ 48 := rfl

lemma usertop_toNat : (BitVec.ofNat 64 usertop).toNat = usertop := rfl

lemma Layout.stack_toNat (hp : Layout p) : p.stackStart.toNat = usertop - p.stksz.toNat :=
  BitVec.toNat_sub_of_le (BitVec.le_def.mpr hp.stack)

lemma Layout.region_mod (hp : Layout p) {r : Region} (hr : r ∈ p.regions) :
    (r.addr + r.length) % 2 ^ 64 = r.addr + r.length := by
  have hle := hp.regions r hr
  have htop := usertop_eq
  exact Nat.mod_eq_of_lt (by omega)

/-- The tests of `in_user`, which compares the sum as it wraps. -/
lemma inUser_iff (hp : Layout p) : inUser p s n = true ↔
    ∃ A ∈ p.areas, A.1 ≤ s.toNat ∧ (s + n).toNat ≤ A.2 := by
  unfold inUser Proc.areas
  simp only [BitVec.le_def, hp.stack_toNat, usertop_toNat, Bool.if_true_left, Bool.decide_and,
    Bool.or_eq_true, Bool.and_eq_true, decide_eq_true_eq, List.any_eq_true, List.mem_cons,
      List.mem_map,
    exists_eq_or_imp]
  refine or_congr Iff.rfl (or_congr Iff.rfl ⟨?_, ?_⟩)
  · rintro ⟨r, hr, hlo, hhi⟩
    rw [hp.region_mod hr] at hhi
    exact ⟨_, ⟨r, hr, rfl⟩, hlo, hhi⟩
  rintro ⟨_, ⟨r, hr, rfl⟩, hlo, hhi⟩
  refine ⟨r, hr, hlo, ?_⟩
  rw [hp.region_mod hr]
  exact hhi

/-- The range starts in or above an area and ends in or below it. -/
def LiesIn (p : Proc) (s n : BitVec 64) : Prop :=
  ∃ A ∈ p.areas, A.1 ≤ s.toNat ∧ s.toNat + n.toNat ≤ A.2

instance (p : Proc) (s n : BitVec 64) : Decidable (LiesIn p s n) :=
  inferInstanceAs (Decidable (∃ A ∈ p.areas, _))

/-- The range goes on beyond the last address, and what is left of it then ends in or below an area
that it starts in or above. -/
def WrapsInto (p : Proc) (s n : BitVec 64) : Prop :=
  2 ^ 64 ≤ s.toNat + n.toNat ∧ ∃ A ∈ p.areas, A.1 ≤ s.toNat ∧ s.toNat + n.toNat - 2 ^ 64 ≤ A.2

instance (p : Proc) (s n : BitVec 64) : Decidable (WrapsInto p s n) :=
  inferInstanceAs (Decidable (_ ∧ ∃ A ∈ p.areas, _))

/-- No area reaches beyond the last address. -/
lemma Layout.area_lt (hp : Layout p) {A : Area} (hA : A ∈ p.areas) : A.2 < 2 ^ 64 := by
  have htop := usertop_eq
  rcases List.mem_cons.mp hA with rfl | hA
  · exact p.sz.isLt
  rcases List.mem_cons.mp hA with rfl | hA
  · dsimp only
    omega
  · obtain ⟨r, hr, rfl⟩ := List.mem_map.mp hA
    have := hp.regions r hr
    dsimp only
    omega

/-- A range that is not empty is valid exactly if it lies in an area. -/
lemma valid_iff (hp : Layout p) (hn : n ≠ 0) : Valid p s n ↔ LiesIn p s n := by
  have hpos : 0 < n.toNat := by
    have hne : n.toNat ≠ 0 := fun h => hn (BitVec.eq_of_toNat_eq h)
    omega
  constructor
  · rintro ⟨-, A, hA, hall⟩
    have hfirst := hall s.toNat (le_refl _) (by omega)
    have hlast := (hall (s.toNat + n.toNat - 1) (by omega) (by omega)).2
    exact ⟨A, hA, hfirst.1, by omega⟩
  · rintro ⟨A, hA, hlo, hhi⟩
    have hlt := hp.area_lt hA
    exact ⟨by omega, A, hA, fun a ha ha' => ⟨by omega, by omega⟩⟩

/-- **What `in_user` decides**: that the range lies in an area, or wraps around into one. -/
lemma inUser_eq_true (hp : Layout p) : inUser p s n = true ↔ LiesIn p s n ∨ WrapsInto p s n := by
  rw [inUser_iff hp, BitVec.toNat_add]
  unfold LiesIn WrapsInto
  by_cases hwrap : s.toNat + n.toNat < 2 ^ 64
  · rw [Nat.mod_eq_of_lt hwrap]
    exact ⟨.inl, fun h => h.resolve_right fun hw => absurd hw.1 (by omega)⟩
  · have hsum : (s.toNat + n.toNat) % 2 ^ 64 = s.toNat + n.toNat - 2 ^ 64 := by
      have := s.isLt
      have := n.isLt
      omega
    rw [hsum]
    constructor
    · exact fun h => .inr ⟨by omega, h⟩
    · rintro (⟨A, hA, hlo, hhi⟩ | ⟨-, h⟩)
      · exact ⟨A, hA, hlo, by omega⟩
      · exact h

/-- A range that does not wrap into an area is accepted only if it lies in one, and conversely. -/
lemma lies_of_inUser_iff (hp : Layout p) :
    (inUser p s n = true → LiesIn p s n) ↔ ¬ WrapsInto p s n := by
  rw [inUser_eq_true hp]
  constructor
  · intro h hwrap
    obtain ⟨A, hA, -, hhi⟩ := h (.inr hwrap)
    have := hp.area_lt hA
    have := hwrap.1
    omega
  · exact fun hno h => h.resolve_right hno

lemma not_wrapsInto_zero : ¬ WrapsInto p s 0 := by
  rintro ⟨hle, -⟩
  have hs := s.isLt
  have hzero : (0 : BitVec 64).toNat = 0 := rfl
  omega

/-! ## What is handed on -/

/-- The check itself, and the calls that use it. -/
inductive Call where
  | check (s n : BitVec 64)
  | read
  | readv
  | write
  | writev

/-- What a system call hands on. -/
def Call.passed (p : Proc) (io : Io) : Call → List Passed
  | .check .. => []
  | .read => (sysRead p io).1
  | .readv => (sysReadv p io).1
  | .write => (sysWrite p io).1
  | .writev => (sysWritev p io).1

/-- Only ranges that lie in one area are accepted and handed on. -/
def Call.Validated (p : Proc) (io : Io) : Call → Prop
  | .check s n => inUser p s n = true → Valid p s n
  | c => ∀ q ∈ c.passed p io, q.len ≠ 0 → Valid p q.buf q.len

/-- The condition for one buffer: a null pointer is given only if the image starts there, and the
range does not wrap into an area. -/
def BufferOk (p : Proc) : Prop :=
  argfd p 0 ≠ none → p.x 2 ≠ 0 →
    (p.x 1 = 0 → LiesIn p 0 (p.x 2)) ∧ ¬ WrapsInto p (p.x 1) (p.x 2)

/-- In the round for element `k` of `readv`, the check is passed: it is that of the first
element. -/
def Iovec.FirstIn (p : Proc) (io : Io) (iov : BitVec 64) (k : Nat) : Prop :=
  inUser p (iovec (io.mem k) iov 0).base (iovec (io.mem k) iov 0).len = true

/-- In the round for element `k` of `writev` the loop goes on. -/
def Iovec.GoesOn (p : Proc) (io : Io) (iov : BitVec 64) (k : Nat) : Prop :=
  inUser p (io.elem iov k).base (io.elem iov k).len = true ∨
    (io.elem iov k).base = 0 ∧ (io.elem iov k).len = 0

/-- The condition for `n` elements from `k` on, those that `readv` comes to: they are empty or lie
in an area. -/
def ReadvOk (p : Proc) (io : Io) (iov : BitVec 64) (n k : Nat) : Prop :=
  ∀ i < n, (∀ j < i + 1, Iovec.FirstIn p io iov (k + j)) → (io.elem iov (k + i)).len ≠ 0 →
    LiesIn p (io.elem iov (k + i)).base (io.elem iov (k + i)).len

/-- The condition for those that `writev` comes to: they do not wrap into an area. -/
def WritevOk (p : Proc) (io : Io) (iov : BitVec 64) (n k : Nat) : Prop :=
  ∀ i < n, (∀ j < i, Iovec.GoesOn p io iov (k + j)) →
    ¬ WrapsInto p (io.elem iov (k + i)).base (io.elem iov (k + i)).len

/-- What the caller must see to. -/
def Call.Checked (p : Proc) (io : Io) : Call → Prop
  | .check s n => ¬ WrapsInto p s n
  | .read => BufferOk p
  | .write => BufferOk p
  | .readv => ∀ f iovcnt iov, vectorArgs p = some (f, iovcnt, iov) → 0 < iovcnt.toInt →
      iovcnt.toInt ≤ uioMaxiov → ReadvOk p io iov (iovLoops iov iovcnt) 0
  | .writev => ∀ f iovcnt iov, vectorArgs p = some (f, iovcnt, iov) →
      WritevOk p io iov (iovLoops iov iovcnt) 0

variable {io : Io}

/-- All ranges that are handed on lie in one area. -/
def AllValid (p : Proc) (qs : List Passed) : Prop := ∀ q ∈ qs, q.len ≠ 0 → Valid p q.buf q.len

lemma allValid_nil : AllValid p [] := fun _ hq => absurd hq List.not_mem_nil

lemma allValid_cons {q : Passed} {qs : List Passed} (hp : Layout p) :
    AllValid p (q :: qs) ↔ (q.len ≠ 0 → LiesIn p q.buf q.len) ∧ AllValid p qs := by
  unfold AllValid
  rw [List.forall_mem_cons]
  exact and_congr_left' (imp_congr_right fun hn => valid_iff hp hn)

/-- The one buffer of `read` and `write`. -/
lemma transfer_validated (hp : Layout p) : AllValid p (transfer p io).1 ↔ BufferOk p := by
  unfold BufferOk transfer
  rcases hf : argfd p 0 with - | f
  · exact iff_of_true allValid_nil fun h => absurd rfl h
  simp only [ne_eq, reduceCtorEq, not_false_eq_true, true_implies]
  show AllValid p (match argptr p 1 (p.x 2) with
    | some buf => _
    | none => _ : Trace).1 ↔ _
  rw [show argptr p 1 (p.x 2) = if p.x 1 = 0 then _ else if inUser p (p.x 1)
    (p.x 2) then _ else _ from rfl]
  by_cases hnull : p.x 1 = 0
  · have hwrap : ¬ WrapsInto p 0 (p.x 2) := by
      rintro ⟨hle, -⟩
      have hlt := (p.x 2).isLt
      have hzero : (0 : BitVec 64).toNat = 0 := rfl
      omega
    rw [if_pos hnull, hnull]
    exact (allValid_cons hp).trans ⟨fun h hn => ⟨fun _ => h.1 hn, hwrap⟩,
      fun h => ⟨fun hn => (h hn).1 rfl, allValid_nil⟩⟩
  · rw [if_neg hnull]
    by_cases hin : inUser p (p.x 1) (p.x 2) = true
    · rw [if_pos hin, ← lies_of_inUser_iff hp]
      exact (allValid_cons hp).trans ⟨fun h hn => ⟨fun h0 => absurd h0 hnull, fun _ => h.1 hn⟩,
        fun h => ⟨fun hn => (h hn).2 hin, allValid_nil⟩⟩
    · rw [if_neg hin, ← lies_of_inUser_iff hp]
      exact iff_of_true allValid_nil fun _ => ⟨fun h0 => absurd h0 hnull, fun h => absurd h hin⟩

/-- Of `i + 1` numbers from `k` on, `k` is the first. -/
lemma forall_from_succ {P : Nat → Prop} {i k : Nat} :
    (∀ j < i + 1, P (k + j)) ↔ P k ∧ ∀ j < i, P (k + 1 + j) := by
  rw [Nat.forall_lt_succ_left]
  exact and_congr_right fun _ => forall₂_congr fun j _ => by rw [Nat.add_right_comm, Nat.add_assoc]

/-- The loop of `readv`, by induction on the elements that are left. -/
lemma readvLoop_validated (hp : Layout p) (f : Nat) (iov : BitVec 64) (n k : Nat)
    (tot : BitVec 64) :
    AllValid p (readvLoop p io f iov n k tot).1 ↔ ReadvOk p io iov n k := by
  induction n generalizing k tot with
  | zero => exact iff_of_true allValid_nil fun i hi => absurd hi (Nat.not_lt_zero i)
  | succ n ih => ?_
  unfold readvLoop
  dsimp only
  by_cases hfirst : Iovec.FirstIn p io iov k
  · rw [if_neg (by simpa [Iovec.FirstIn] using hfirst), allValid_cons hp, ih]
    -- the first of the elements, and the others
    unfold ReadvOk
    rw [Nat.forall_lt_succ_left]
    refine and_congr (by simp [hfirst]) (forall₂_congr fun i _ => ?_)
    rw [show k + (i + 1) = k + 1 + i by omega, forall_from_succ (k := k), and_iff_right hfirst]
  · rw [if_pos (by simpa [Iovec.FirstIn] using hfirst)]
    exact iff_of_true allValid_nil fun i _ hall => absurd (hall 0 (Nat.succ_pos i)) hfirst

/-- The elements behind the first one count if the loop of `writev` goes on. -/
lemma writevOk_succ {iov : BitVec 64} {n k : Nat} : WritevOk p io iov (n + 1) k ↔
    ¬ WrapsInto p (io.elem iov k).base (io.elem iov k).len ∧
      (Iovec.GoesOn p io iov k → WritevOk p io iov n (k + 1)) := by
  unfold WritevOk
  rw [Nat.forall_lt_succ_left]
  refine and_congr (by simp) ⟨fun h hgo i hi hall => ?_, fun h i hi hall => ?_⟩
  · rw [Nat.add_right_comm]
    exact h i hi (forall_from_succ.mpr ⟨hgo, hall⟩)
  · rw [← Nat.add_assoc, Nat.add_right_comm]
    obtain ⟨hgo, hrest⟩ := forall_from_succ.mp hall
    exact h hgo i hi hrest

/-- The loop of `writev`, likewise. -/
lemma writevLoop_validated (hp : Layout p) (f : Nat) (iov : BitVec 64) (n k : Nat)
    (tot : BitVec 64) :
    AllValid p (writevLoop p io f iov n k tot).1 ↔ WritevOk p io iov n k := by
  induction n generalizing k tot with
  | zero => exact iff_of_true allValid_nil fun i hi => absurd hi (Nat.not_lt_zero i)
  | succ n ih => ?_
  rw [writevOk_succ]
  unfold writevLoop
  dsimp only
  by_cases hin : inUser p (io.elem iov k).base (io.elem iov k).len = true
  · rw [if_neg (by simpa using hin), allValid_cons hp, ih]
    dsimp only
    refine and_congr ?_ ⟨fun h _ => h, fun h => h (.inl hin)⟩
    rw [← lies_of_inUser_iff hp]
    by_cases hn : (io.elem iov k).len = 0
    · simp only [hn, ne_eq, not_true, false_implies, true_iff]
      exact fun h => (lies_of_inUser_iff hp).mpr not_wrapsInto_zero h
    · exact ⟨fun h _ => h hn, fun h _ => h hin⟩
  · have hno : ¬ WrapsInto p (io.elem iov k).base (io.elem iov k).len :=
      (lies_of_inUser_iff hp).mp fun h => absurd h hin
    rw [if_pos (by simpa using hin)]
    by_cases hempty : (io.elem iov k).base = 0 ∧ (io.elem iov k).len = 0
    · rw [if_pos hempty, ih]
      exact ⟨fun h => ⟨hno, fun _ => h⟩, fun h => h.2 (.inr hempty)⟩
    · rw [if_neg hempty]
      exact iff_of_true allValid_nil ⟨hno,
        fun hgo => absurd hgo (by rintro (h | h) <;> contradiction)⟩

/-- `readv` with its arguments. -/
lemma sysReadv_validated (hp : Layout p) :
    AllValid p (sysReadv p io).1 ↔ Call.readv.Checked p io := by
  unfold sysReadv
  simp only [Call.Checked]
  rcases vectorArgs p with - | ⟨f, iovcnt, iov⟩
  · exact iff_of_true allValid_nil (by simp)
  dsimp only
  split
  · next hcount =>
    refine iff_of_true allValid_nil ?_
    rintro _ _ _ ⟨⟩ hlo hhi
    omega
  · next hcount =>
    rw [readvLoop_validated hp]
    refine ⟨?_, fun h => h f iovcnt iov rfl (by omega) (by omega)⟩
    rintro h _ _ _ ⟨⟩ - -
    exact h

/-- `writev` with its arguments. -/
lemma sysWritev_validated (hp : Layout p) :
    AllValid p (sysWritev p io).1 ↔ Call.writev.Checked p io := by
  unfold sysWritev
  simp only [Call.Checked]
  rcases vectorArgs p with - | ⟨f, iovcnt, iov⟩
  · exact iff_of_true allValid_nil (by simp)
  dsimp only
  rw [writevLoop_validated hp]
  refine ⟨?_, fun h => h f iovcnt iov rfl⟩
  rintro h _ _ _ ⟨⟩
  exact h

/-- **When user buffers are validated.** -/
theorem validated_iff (hp : Layout p) (io : Io) (c : Call) : c.Validated p io ↔ c.Checked p io := by
  cases c with
  | check s n =>
    by_cases hn : n = 0
    · subst hn
      refine iff_of_true (fun _ => ⟨?_, _, List.mem_cons_self .., fun a ha ha' => ?_⟩)
        not_wrapsInto_zero
      · have hs := s.isLt
        show s.toNat + 0 < 2 ^ 64
        omega
      · have hzero : (0 : BitVec 64).toNat = 0 := rfl
        omega
    show (_ → Valid p s n) ↔ _
    rw [valid_iff hp hn]
    exact lies_of_inUser_iff hp
  | read => exact transfer_validated hp
  | write => exact transfer_validated hp
  | readv => exact sysReadv_validated hp
  | writev => exact sysWritev_validated hp

/-- One page of image, two pages of stack, one region; file 7 is open as descriptor 0. -/
def small (x : Nat → BitVec 64) : Proc where
  base := 0x400000
  sz := 0x401000
  stksz := 0x2000
  regions := [⟨0x600000000000, 0x1000, 0, none, 3, 2⟩]
  x := x
  ofile fd := if fd = 0 then some 7 else none

lemma small_layout (x : Nat → BitVec 64) : Layout (small x) := by
  refine ⟨?_, fun r hr => ?_⟩
  · show (0x2000 : BitVec 64).toNat ≤ usertop
    decide
  · rw [List.mem_singleton.mp hr]
    decide

/-- The registers of a call with three arguments. -/
def registers (a b c : BitVec 64) : Nat → BitVec 64
  | 0 => a
  | 1 => b
  | 2 => c
  | _ => 0

/-- A vector at the start of the image, of 16 bytes in the image and 32 in the region. -/
def goodVector : Memory := fun a =>
  ((((Memory.store (fun _ => 0) 0x400000 8 (dwordByte 0x400100)).store
    0x400008 8 (dwordByte 16)).store
    0x400010 8 (dwordByte 0x600000000000)).store 0x400018 8 (dwordByte 32)) a

/-- Both elements of this vector are handed on, and both are valid. -/
theorem validated_iff_goodVector : let p := small (registers 0 0x400000 2)
    let io : Io := ⟨fun _ => goodVector, fun _ => 0⟩
    Layout p ∧ (sysReadv p io).1 = [⟨7, 0x400100, 16⟩, ⟨7, 0x600000000000, 32⟩] ∧
      Call.readv.Validated p io := by
  intro p io
  refine ⟨small_layout _, by decide +kernel, (validated_iff (small_layout _) io .readv).mpr ?_⟩
  rintro f iovcnt iov hargs - -
  have hvector : vectorArgs p = some (7, 2, 0x400000) := by decide +kernel
  cases hvector.symm.trans hargs
  have hloops : iovLoops 0x400000 2 = 2 := by decide +kernel
  rw [hloops]
  rintro (- | - | i) hi - -
  · decide +kernel
  · decide +kernel
  · omega

/-- A vector at the start of the image: first an empty range there, then 16 bytes at a kernel
address. -/
def vector : Memory := fun a =>
  (((Memory.store (fun _ => 0) 0x400000 8 (dwordByte 0x400000)).store 0x400010 8
    (dwordByte 0xffff000000080000)).store 0x400018 8 (dwordByte 16)) a

/-- A length that wraps, a null pointer, and the second element of a vector. -/
theorem kernel_ranges_passed :
    (inUser (small (registers 0 0 0)) 0x400000 0xffffffffffc00000 = true ∧
      ¬(Call.check 0x400000 0xffffffffffc00000).Validated
        (small (registers 0 0 0)) ⟨fun _ _ => 0, fun _ => 0⟩) ∧
    (sysRead (small (registers 0 0 16)) ⟨fun _ _ => 0, fun _ => 0⟩).1 = [⟨7, 0, 16⟩] ∧
    ¬Valid (small (registers 0 0 16)) 0 16 ∧
    (sysReadv (small (registers 0 0x400000 2)) ⟨fun _ => vector, fun _ => 0⟩).1 =
      [⟨7, 0x400000, 0⟩, ⟨7, 0xffff000000080000, 16⟩] ∧
    ¬Valid (small (registers 0 0x400000 2)) 0xffff000000080000 16 := by
  have hwrap : inUser (small (registers 0 0 0)) 0x400000 0xffffffffffc00000 = true := by decide
  refine ⟨⟨hwrap, fun h => ?_⟩, by decide, fun h => ?_, by decide +kernel, fun h => ?_⟩
  · have hlt : (0x400000 : BitVec 64).toNat + (0xffffffffffc00000 : BitVec 64).toNat < 2 ^ 64 :=
      (h hwrap).1
    revert hlt
    decide
  all_goals exact absurd ((valid_iff (small_layout _) (by decide)).mp h) (by decide)

/-! ## Strings -/

/-- How a loop `for (; go(s); s++) if (*s == 0)` ends. -/
inductive Scan where
  | nul (s : BitVec 64)
  | done
  | forever

/-- The loop, with the addresses it reads. After `2 ^ 64` rounds it is where it began. -/
def scan (m : Memory) (go : BitVec 64 → Bool) : Nat → BitVec 64 → List (BitVec 64) × Scan
  | 0, _ => ([], .forever)
  | n + 1, s =>
    if go s = false then ([], .done)
    else if m s = 0 then ([s], .nul s)
    else
      let rest := scan m go n (s + 1)
      (s :: rest.1, rest.2)

/-- `return s - *pp`, and `-1` after the loop. -/
def Scan.result (addr : BitVec 64) : Scan → Option Int
  | .nul s => some (s - addr).toInt
  | .done => some (-1)
  | .forever => none

/-- The addresses read and the result, if there is one. The loop over a region has no end. -/
def fetchstr (p : Proc) (m : Memory) (addr : BitVec 64) : List (BitVec 64) × Option Int :=
  if p.base ≤ addr ∧ addr < p.sz then
    let r := scan m (fun s => s < p.sz) (2 ^ 64) addr
    (r.1, r.2.result addr)
  else if p.stackStart ≤ addr ∧ addr < BitVec.ofNat 64 usertop then
    let r := scan m (fun s => s < BitVec.ofNat 64 usertop) (2 ^ 64) addr
    (r.1, r.2.result addr)
  else
    match findMmapRegion p.regions addr.toNat with
    | some region =>
      let r := scan m (fun _ => (region.addr + region.length) % 2 ^ 64 ≠ 0) (2 ^ 64) addr
      (r.1, r.2.result addr)
    | none => ([], some (-1))

/-- The area an address is taken to lie in: the first that has it. -/
def Proc.areaOf (p : Proc) (addr : BitVec 64) : Option Area :=
    p.areas.find? fun A => Inside A addr.toNat

/-- `n` bytes other than 0 and a 0, all in the area of the first. -/
def IsString (p : Proc) (m : Memory) (addr : BitVec 64) (n : Nat) : Prop :=
  ∃ A, p.areaOf addr = some A ∧ addr.toNat + n < A.2 ∧
    (∀ i < n, m.load addr i ≠ 0) ∧ m.load addr n = 0

/-- The length of the string is returned, or -1 if there is none; nothing else is read. -/
structure Fetched (p : Proc) (m : Memory) (addr : BitVec 64) : Prop where
  returns : ∀ n : Nat, (fetchstr p m addr).2 = some (n : Int) ↔ IsString p m addr n
  fails : (∀ n, ¬IsString p m addr n) → (fetchstr p m addr).2 = some (-1)
  reads : ∀ a ∈ (fetchstr p m addr).1, ∃ A, p.areaOf addr = some A ∧ Inside A a.toNat

variable {m : Memory} {go : BitVec 64 → Bool} {n k : Nat}

/-- The bytes before the first 0 are read and passed over. -/
lemma scan_skip (hgo : ∀ i < k, go (s + BitVec.ofNat 64 i) = true) (hne : ∀ i < k, m.load s i ≠ 0)
    (hk : k ≤ n) : scan m go n s =
      ((List.range k).map (fun i => s + BitVec.ofNat 64 i) ++
        (scan m go (n - k) (s + BitVec.ofNat 64 k)).1,
        (scan m go (n - k) (s + BitVec.ofNat 64 k)).2) := by
  induction k with
  | zero => simp
  | succ k ih =>
    have hfirst : m (s + BitVec.ofNat 64 k) ≠ 0 := hne k (by omega)
    rw [ih (fun i hi => hgo i (by omega)) (fun i hi => hne i (by omega)) (by omega),
      show n - k = n - (k + 1) + 1 by omega, scan, if_neg (by simp [hgo k]), if_neg hfirst,
      BitVec.ofNat_add, ← BitVec.add_assoc, List.range_succ]
    simp

/-- A scan that meets a zero byte stops there and has read up to it. -/
lemma scan_nul (hgo : ∀ i ≤ k, go (s + BitVec.ofNat 64 i) = true) (hne : ∀ i < k, m.load s i ≠ 0)
    (hzero : m.load s k = 0) (hk : k < n) :
    (scan m go n s).2 = .nul (s + BitVec.ofNat 64 k) ∧
      ∀ a ∈ (scan m go n s).1, ∃ i ≤ k, a = s + BitVec.ofNat 64 i := by
  have hlast : m (s + BitVec.ofNat 64 k) = 0 := hzero
  rw [scan_skip (fun i hi => hgo i hi.le) hne hk.le, show n - k = n - k - 1 + 1 by omega, scan,
    if_neg (by simp [hgo k]), if_pos hlast]
  refine ⟨rfl, fun a ha => ?_⟩
  simp only [List.mem_append, List.mem_map, List.mem_range, List.mem_singleton] at ha
  rcases ha with ⟨i, hi, rfl⟩ | rfl
  · exact ⟨i, hi.le, rfl⟩
  · exact ⟨k, le_refl k, rfl⟩

lemma scan_done (hgo : ∀ i < k, go (s + BitVec.ofNat 64 i) = true) (hne : ∀ i < k, m.load s i ≠ 0)
    (hend : go (s + BitVec.ofNat 64 k) = false) (hk : k < n) :
    (scan m go n s).2 = .done ∧ ∀ a ∈ (scan m go n s).1, ∃ i < k, a = s + BitVec.ofNat 64 i := by
  rw [scan_skip hgo hne hk.le, show n - k = n - k - 1 + 1 by omega, scan, if_pos hend]
  refine ⟨rfl, fun a ha => ?_⟩
  simp only [List.append_nil, List.mem_map, List.mem_range] at ha
  obtain ⟨i, hi, rfl⟩ := ha
  exact ⟨i, hi, rfl⟩

lemma scan_beyond (hgo : ∀ a, go a = true) (hne : ∀ i < k, m.load s i ≠ 0) (hk : k < n) :
    s + BitVec.ofNat 64 k ∈ (scan m go n s).1 := by
  rw [scan_skip (fun _ _ => hgo _) hne hk.le, show n - k = n - k - 1 + 1 by omega, scan,
    if_neg (by simp [hgo])]
  refine List.mem_append_right _ ?_
  split
  · exact List.mem_singleton_self _
  · exact List.mem_cons_self ..

variable {addr : BitVec 64} {A : Area}

lemma toNat_add_ofNat (h : addr.toNat + k < 2 ^ 64) :
    (addr + BitVec.ofNat 64 k).toNat = addr.toNat + k := by
  rw [BitVec.toNat_add, BitVec.toNat_ofNat, Nat.mod_eq_of_lt (by omega : k < 2 ^ 64),
    Nat.mod_eq_of_lt h]

lemma Fetched.of_none (hnone : ∀ n, ¬IsString p m addr n) (h : (fetchstr p m addr).2 = some (-1))
    (hreads : ∀ a ∈ (fetchstr p m addr).1, ∃ A, p.areaOf addr = some A ∧ Inside A a.toNat) :
    Fetched p m addr := by
  refine ⟨fun n => iff_of_false (fun hn => ?_) (hnone n), fun _ => h, hreads⟩
  have := Option.some.inj (h.symm.trans hn)
  omega

lemma Proc.areaOf_inside (h : p.areaOf addr = some A) : Inside A addr.toNat := by
  simpa using List.find?_some h

section

variable (hA : p.areaOf addr = some A)
  (hsmall : A.2 ≤ usertop)
  (hfetch : fetchstr p m addr = ((scan m go (2 ^ 64) addr).1,
    (scan m go (2 ^ 64) addr).2.result addr))
include hA hsmall hfetch

/-- A string that ends in its area is fetched. -/
lemma Fetched.of_nul (hgo : ∀ i ≤ k, go (addr + BitVec.ofNat 64 i) = true)
    (hk : addr.toNat + k < A.2) (hne : ∀ i < k, m.load addr i ≠ 0) (hzero : m.load addr k = 0)
    : Fetched p m addr := by
  have htop := usertop_eq
  have hin := Proc.areaOf_inside hA
  obtain ⟨hend, hreads⟩ := scan_nul hgo hne hzero (by omega : k < 2 ^ 64)
  have hstring : IsString p m addr k := ⟨A, hA, hk, hne, hzero⟩
  have hlen : (addr + BitVec.ofNat 64 k - addr).toInt = k := by
    have hnat := add_ofNat_sub_toNat addr (by omega : k < 2 ^ 64)
    rw [BitVec.toInt_eq_toNat_of_lt (by rw [hnat]; omega), hnat]
  have hresult : (fetchstr p m addr).2 = some (k : Int) := by
    rw [hfetch, hend, Scan.result, hlen]
  refine ⟨fun n => ?_, fun h => absurd hstring (h k), fun a ha => ?_⟩
  · rw [hresult, Option.some_inj, Nat.cast_inj]
    constructor
    · rintro rfl
      exact hstring
    rintro ⟨-, -, -, hne', hzero'⟩
    rcases lt_trichotomy k n with hlt | heq | hgt
    · exact absurd hzero (hne' k hlt)
    · exact heq
    · exact absurd hzero' (hne n hgt)
  · rw [hfetch] at ha
    obtain ⟨i, hi, rfl⟩ := hreads a ha
    refine ⟨A, hA, ?_⟩
    rw [toNat_add_ofNat (by omega)]
    exact ⟨by have := hin.1; omega, by omega⟩

/-- So is every one where the scan has an end test. -/
lemma Fetched.of_bounded (hgo : ∀ a, go a = true ↔ a.toNat < A.2) : Fetched p m addr := by
  have htop := usertop_eq
  have hin := Proc.areaOf_inside hA
  have hlt := hin.2
  by_cases hstring : ∃ k, addr.toNat + k < A.2 ∧ m.load addr k = 0
  · obtain ⟨hk, hzero⟩ := Nat.find_spec hstring
    have hne : ∀ i < Nat.find hstring, m.load addr i ≠ 0 := by
      intro i hi hz
      exact Nat.find_min hstring hi ⟨by omega, hz⟩
    refine Fetched.of_nul hA hsmall hfetch (fun i hi => ?_) hk hne hzero
    rw [hgo, toNat_add_ofNat (by omega)]
    omega
  · have hne : ∀ i < A.2 - addr.toNat, m.load addr i ≠ 0 := by
      intro i hi hz
      exact hstring ⟨i, by omega, hz⟩
    have hnone : ∀ n, ¬IsString p m addr n := by
      rintro n ⟨A', hA', hn, -, hzero⟩
      cases hA.symm.trans hA'
      exact hstring ⟨n, hn, hzero⟩
    have hstop : go (addr + BitVec.ofNat 64 (A.2 - addr.toNat)) = false := by
      rw [← Bool.not_eq_true, hgo, toNat_add_ofNat (by omega)]
      omega
    obtain ⟨hend, hreads⟩ := scan_done (n := 2 ^ 64) (fun i hi => by
      rw [hgo, toNat_add_ofNat (by omega)]
      omega) hne hstop (by omega)
    refine .of_none hnone (by rw [hfetch, hend, Scan.result]) fun a ha => ?_
    rw [hfetch] at ha
    obtain ⟨i, hi, rfl⟩ := hreads a ha
    refine ⟨A, hA, ?_⟩
    rw [toNat_add_ofNat (by omega)]
    exact ⟨by have := hin.1; omega, by omega⟩

end

lemma areaOf_image (h : p.base ≤ addr ∧ addr < p.sz) :
    p.areaOf addr = some (p.base.toNat, p.sz.toNat) := by
  unfold Proc.areaOf Proc.areas
  rw [List.find?_cons_of_pos]
  exact decide_eq_true h

lemma areaOf_stack (hp : Layout p) (himage : ¬(p.base ≤ addr ∧ addr < p.sz))
    (h : p.stackStart ≤ addr ∧ addr < BitVec.ofNat 64 usertop) :
    p.areaOf addr = some (usertop - p.stksz.toNat, usertop) := by
  rw [BitVec.le_def, hp.stack_toNat, BitVec.lt_def] at h
  unfold Proc.areaOf Proc.areas
  rw [List.find?_cons_of_neg, List.find?_cons_of_pos]
  · exact decide_eq_true h
  · exact fun h => himage (of_decide_eq_true h)

/-- An address outside image and stack belongs to the region that is found. -/
lemma areaOf_region (hp : Layout p) (himage : ¬(p.base ≤ addr ∧ addr < p.sz))
    (hstack : ¬(p.stackStart ≤ addr ∧ addr < BitVec.ofNat 64 usertop)) :
    p.areaOf addr =
      (findMmapRegion p.regions addr.toNat).map fun r => (r.addr, r.addr + r.length) := by
  rw [BitVec.le_def, hp.stack_toNat, BitVec.lt_def] at hstack
  unfold Proc.areaOf Proc.areas findMmapRegion
  rw [List.find?_cons_of_neg, List.find?_cons_of_neg, List.find?_map]
  · congr 1
    refine List.find?_congr fun r hr => ?_
    refine decide_eq_decide.mpr ?_
    rw [hp.region_mod hr]
    exact Iff.rfl
  · exact fun h => hstack (of_decide_eq_true h)
  · exact fun h => himage (of_decide_eq_true h)

end RpiOs.UserMem
