import Mathlib.Tactic.Simps.Basic
import RpiOs.Bio.Coherence
import RpiOs.Lib.Run
import RpiOs.RedoLog.Model

/-!
# Many processes in the buffer cache

`bget`, `bread`, `bwrite`, `brelse`, `devrw` and the effect of `log_write` on a buffer, as many
processes run them at the same time. A step is what happens without giving way: a search of the list
under `bcache.lock`, the transfer of one buffer by `dev_start`, a return from `devrw`. `commit` is
one of the processes: it reads, changes, writes and releases buffers like the others. What the log
module does to its own state is left open.

`latest` is not in the source: it remembers, for each block, the bytes of the most recent change of
a buffer that carries it, or what the card had at first.
-/

namespace RpiOs.Bio.Interleave

open Lib Kernel

/-- How far a process is with a buffer it holds. -/
inductive Stage where
  /-- `bget` has returned it -/
  | got
  /-- in `devrw`, called by `bread` -/
  | reading
  /-- `bread` has returned it, and what was changed since then has been written or logged -/
  | ready
  /-- changed, and neither written nor logged -/
  | modified
  /-- in `devrw`, called by `bwrite` -/
  | writing
  deriving DecidableEq

/-- The cache, the card, the requests to it (`devque`) and the processes. -/
structure Sys where
  mem : Mem
  disk : Disk
  queue : List Nat
  held : Nat → Nat → Option Stage
  latest : Nat × Nat → Block

/-- What happens next. -/
inductive Act where
  | bget (p dev blockno : Nat)
  /-- `bread` goes on after `bget` -/
  | fill (p i : Nat)
  /-- `dev_start` serves the first request -/
  | transfer
  /-- `devrw` returns -/
  | resume (p i : Nat)
  | modify (p i : Nat) (f : Block → Block)
  | bwrite (p i : Nat)
  | logWrite (p i : Nat)
  | brelse (p i : Nat)
  /-- the log module changes its state -/
  | logs (log : Nat → Log)

namespace Sys

variable (s : Sys)

@[simps -fullyApplied]
def setBuf (i : Nat) (b : Buf) : Sys := { s with mem := s.mem.setBuf i b }

def setStage (p i : Nat) (st : Option Stage) : Sys :=
  { s with held := fun q j => if q = p ∧ j = i then st else s.held q j }

@[simps -fullyApplied]
def push (i : Nat) : Sys := { s with queue := s.queue ++ [i] }

variable (p i : Nat) (b : Buf) (st : Option Stage)

@[simp] lemma setStage_mem : (s.setStage p i st).mem = s.mem := rfl
@[simp] lemma setStage_disk : (s.setStage p i st).disk = s.disk := rfl
@[simp] lemma setStage_queue : (s.setStage p i st).queue = s.queue := rfl
@[simp] lemma setStage_latest : (s.setStage p i st).latest = s.latest := rfl

@[simp] lemma setStage_self : (s.setStage p i st).held p i = st := if_pos ⟨rfl, rfl⟩

lemma setStage_of_ne {q j : Nat} (h : j ≠ i) : (s.setStage p i st).held q j = s.held q j :=
  if_neg fun heq => h heq.2

lemma setStage_of_proc {q j : Nat} (h : q ≠ p) : (s.setStage p i st).held q j = s.held q j :=
  if_neg fun heq => h heq.1

end Sys

/-- One step; a process that has to wait does nothing, and so does everybody after a `panic`.
Source: `kern/bio.c`; `kern/dev.c` `dev_start`, `devrw`; `kern/log.c` `log_write` -/
def step (s : Sys) : Act → Sys
  | .bget p dev blockno =>
    match cached s.mem dev blockno with
    | some i =>
      if (s.mem.buf i).busy then s
      else (s.setBuf i { s.mem.buf i with busy := true }).setStage p i (some .got)
    | none =>
      match recyclable s.mem with
      | some i => (s.setBuf i ⟨true, false, false, dev, blockno, (s.mem.buf i).data⟩).setStage p i
          (some .got)
      | none => s
  | .fill p i =>
    if (s.mem.buf i).valid then s.setStage p i (some .ready)
    else (s.push i).setStage p i (some .reading)
  | .transfer =>
    match s.queue with
    | [] => s
    | i :: rest =>
      let b := s.mem.buf i
      if b.blockno < s.disk.nsecs b.dev then
        if b.dirty then
          { s.setBuf i { b with valid := true, dirty := false } with
            disk := s.disk.set b.dev b.blockno b.data, queue := rest }
        else
          { s.setBuf i { b with data := s.disk.block b.dev b.blockno, valid := true, dirty :=
            false } with queue := rest }
      else s
  | .resume p i =>
    if (s.mem.buf i).valid = true ∧ (s.mem.buf i).dirty = false then s.setStage p i (some .ready)
    else s
  | .modify p i f =>
    { (s.setBuf i { s.mem.buf i with data := f (s.mem.buf i).data }).setStage p i
      (some .modified) with
      latest := Function.update s.latest (s.mem.buf i).key (f (s.mem.buf i).data) }
  | .bwrite p i =>
    if (s.mem.buf i).busy then
      ((s.setBuf i { s.mem.buf i with dirty := true }).push i).setStage p i (some .writing)
    else s
  | .logWrite p i =>
    let b := s.mem.buf i
    let l := s.mem.log b.dev
    if ¬ RedoLog.Active s.mem b.dev then s.setStage p i (some .ready)
    else if logsize ≤ l.lh.length ∨ l.size ≤ l.lh.length + 1 ∨ l.outstanding < 1 then s
    else
      ({ s with mem := s.mem.setLog b.dev { l with lh := RedoLog.absorb l.lh b.blockno } }.setBuf i
        { b with dirty := true }).setStage p i (some .ready)
  | .brelse p i =>
    if (s.mem.buf i).busy then
      { s with mem := { s.mem.setBuf i { s.mem.buf i with busy := false } with
        head := s.mem.head.erase i ++ [i] } }.setStage p i none
    else s
  | .logs log => { s with mem := { s.mem with log := log } }

/-- The process uses a device from 1 on, touches only buffers that it holds, and follows a change by
`bwrite`, or by `log_write` on a device whose log is enabled, before it releases the buffer. -/
def Follows (s : Sys) : Act → Prop
  | .bget _ dev _ => 1 ≤ dev
  | .fill p i => s.held p i = some .got
  | .transfer => True
  | .resume p i => s.held p i = some .reading ∨ s.held p i = some .writing
  | .modify p i _ => s.held p i = some .ready ∨ s.held p i = some .modified
  | .bwrite p i => s.held p i = some .ready ∨ s.held p i = some .modified
  | .logWrite p i => (s.held p i = some .ready ∨ s.held p i = some .modified) ∧
      RedoLog.Active s.mem (s.mem.buf i).dev
  | .brelse p i => s.held p i = some .ready
  | .logs _ => True

instance (s : Sys) : (a : Act) → Decidable (Follows s a)
  | .bget .. => inferInstanceAs (Decidable (_ ≤ _))
  | .fill .. | .brelse .. => inferInstanceAs (Decidable (_ = _))
  | .resume .. | .modify .. | .bwrite .. => inferInstanceAs (Decidable (_ ∨ _))
  | .logWrite .. => inferInstanceAs (Decidable (_ ∧ _))
  | .transfer | .logs _ => isTrue trivial

/-! ## The invariant -/

/-- What holds of a buffer. -/
structure At (s : Sys) (i : Nat) : Prop where
  held : ∀ p, s.held p i ≠ none → (s.mem.buf i).busy = true ∧ 1 ≤ (s.mem.buf i).dev
  owner : ∀ p q, s.held p i ≠ none → s.held q i ≠ none → p = q
  filled : ∀ p st, s.held p i = some st → st ≠ .got → st ≠ .reading → (s.mem.buf i).valid = true
  reading : ∀ p, s.held p i = some .reading → (s.mem.buf i).dirty = false
  queued : i ∈ s.queue → ∃ p, s.held p i = some .reading ∧ (s.mem.buf i).valid = false ∨
    s.held p i = some .writing ∧ (s.mem.buf i).dirty = true
  /-- a valid buffer has the latest bytes -/
  current : 1 ≤ (s.mem.buf i).dev → (s.mem.buf i).valid = true →
    (s.mem.buf i).data = s.latest (s.mem.buf i).key
  /-- a clean one has what is on the card -/
  clean : 1 ≤ (s.mem.buf i).dev → (s.mem.buf i).valid = true → (s.mem.buf i).dirty = false →
    (∀ p, s.held p i ≠ some .modified) →
      (s.mem.buf i).data = s.disk.block (s.mem.buf i).dev (s.mem.buf i).blockno
  dirty : (s.mem.buf i).dirty = true → (s.mem.buf i).valid = true

/-- The invariant. -/
structure CacheInv (s : Sys) : Prop where
  nodup : s.mem.head.Nodup
  uniq : ∀ i ∈ s.mem.head, ∀ j ∈ s.mem.head, (s.mem.buf i).key = (s.mem.buf j).key →
    1 ≤ (s.mem.buf i).dev → i = j
  outside : ∀ i, i ∉ s.mem.head → i ∉ s.queue ∧ ∀ p, s.held p i = none
  queue : s.queue.Nodup
  buffer : ∀ i ∈ s.mem.head, At s i
  /-- the card has the latest bytes of a block that no valid buffer carries -/
  absent : ∀ k : Nat × Nat, 1 ≤ k.1 →
    (∀ i ∈ s.mem.head, (s.mem.buf i).key = k → (s.mem.buf i).valid = false) →
      s.disk.block k.1 k.2 = s.latest k

/-- What a buffer satisfies is kept by steps on other buffers. -/
lemma At.frame {s s' : Sys} {j : Nat} (h : At s j) (hbuf : s'.mem.buf j = s.mem.buf j)
    (hheld : ∀ p, s'.held p j = s.held p j) (hqueue : j ∈ s'.queue → j ∈ s.queue)
    (hlatest : 1 ≤ (s.mem.buf j).dev → s'.latest (s.mem.buf j).key = s.latest (s.mem.buf j).key)
    (hdisk : 1 ≤ (s.mem.buf j).dev → s'.disk.block (s.mem.buf j).dev (s.mem.buf j).blockno =
      s.disk.block (s.mem.buf j).dev (s.mem.buf j).blockno) : At s' j := by
  obtain ⟨h1, h2, h3, h4, h5, h6, h7, h8⟩ := h
  refine ⟨?_, ?_, ?_, ?_, ?_, ?_, ?_, ?_⟩
  · simpa only [hbuf, hheld] using h1
  · simpa only [hheld] using h2
  · simpa only [hbuf, hheld] using h3
  · simpa only [hbuf, hheld] using h4
  · intro hj
    simpa only [hbuf, hheld] using h5 (hqueue hj)
  · intro hd hv
    rw [hbuf] at hd hv ⊢
    rw [hlatest hd]
    exact h6 hd hv
  · intro hd hv hc hm
    rw [hbuf] at hd hv hc ⊢
    rw [hdisk hd]
    exact h7 hd hv hc fun p => hheld p ▸ hm p
  · simpa only [hbuf] using h8

variable {s : Sys}

/-- A buffer that only `p` is at. -/
lemma At.of_holder {p i : Nat} {st : Stage} {b : Buf} (hself : s.held p i = some st)
    (hother : ∀ q, q ≠ p → s.held q i = none) (hb : s.mem.buf i = b) (hbusy : b.busy = true)
    (hdev : 1 ≤ b.dev) (hfilled : st ≠ .got → st ≠ .reading → b.valid = true)
    (hreading : st = .reading → b.dirty = false)
    (hqueued : i ∈ s.queue → st = .reading ∧ b.valid = false ∨ st = .writing ∧ b.dirty = true)
    (hcurrent : b.valid = true → b.data = s.latest b.key)
    (hclean : b.valid = true → b.dirty = false → st ≠ .modified →
    b.data = s.disk.block b.dev b.blockno)
    (hdirty : b.dirty = true → b.valid = true) : At s i := by
  subst hb
  have hwho : ∀ q st', s.held q i = some st' → q = p ∧ st' = st := fun q st' hq => by
    by_cases hqp : q = p
    · rw [hqp, hself] at hq
      exact ⟨hqp, (Option.some.inj hq).symm⟩
    · rw [hother q hqp] at hq
      cases hq
  refine ⟨fun _ _ => ⟨hbusy, hdev⟩, fun q r hq hr => ?_,
    fun q st' hq => (hwho q st' hq).2 ▸ hfilled,
    fun q hq => hreading (hwho q _ hq).2.symm, fun hin => ⟨p, ?_⟩, fun _ => hcurrent,
    fun _ hv hc hm => hclean hv hc fun heq => hm p (heq ▸ hself), hdirty⟩
  · obtain ⟨st1, hq⟩ := Option.ne_none_iff_exists'.mp hq
    obtain ⟨st2, hr⟩ := Option.ne_none_iff_exists'.mp hr
    rw [(hwho q _ hq).1, (hwho r _ hr).1]
  · rw [hself]
    exact (hqueued hin).imp (And.imp_left (congrArg some)) (And.imp_left (congrArg some))

/-- A buffer that nobody is at. -/
lemma At.of_free {i : Nat} {b : Buf} (hnone : ∀ q, s.held q i = none) (hnq : i ∉ s.queue)
    (hb : s.mem.buf i = b) (hcurrent : 1 ≤ b.dev → b.valid = true → b.data = s.latest b.key)
    (hclean : 1 ≤ b.dev → b.valid = true → b.dirty = false → b.data = s.disk.block b.dev b.blockno)
    (hdirty : b.dirty = true → b.valid = true) : At s i := by
  subst hb
  refine ⟨fun q hq => absurd (hnone q) hq, fun q _ hq => absurd (hnone q) hq, fun q st hq => ?_,
    fun q hq => ?_, fun hin => absurd hin hnq, hcurrent,
      fun hd hv hc _ => hclean hd hv hc, hdirty⟩ <;>
  · rw [hnone q] at hq
    cases hq

/-- **One buffer changes and keeps its block**. -/
theorem CacheInv.replace {s' : Sys} {i : Nat} {b : Buf} (h : CacheInv s) (hi : i ∈ s.mem.head)
    (hhead : s'.mem.head.Perm s.mem.head) (hb : s'.mem.buf i = b) (hkey : b.key = (s.mem.buf i).key)
    (hbuf : ∀ j, j ≠ i → s'.mem.buf j = s.mem.buf j)
    (hheld : ∀ p j, j ≠ i → s'.held p j = s.held p j)
    (hqueue : ∀ j, j ≠ i → j ∈ s'.queue → j ∈ s.queue) (hnodup : s'.queue.Nodup)
    (hlatest : ∀ k, k ≠ (s.mem.buf i).key → s'.latest k = s.latest k)
    (hdisk : ∀ k : Nat × Nat, k ≠ (s.mem.buf i).key → s'.disk.block k.1 k.2 = s.disk.block k.1 k.2)
    (hat : At s' i)
    (habsent : b.valid = false →
      s'.disk.block (s.mem.buf i).dev (s.mem.buf i).blockno = s'.latest (s.mem.buf i).key) :
    CacheInv s' := by
  subst hb
  have hkeys : ∀ j, (s'.mem.buf j).key = (s.mem.buf j).key := fun j => by
    by_cases hj : j = i
    · rw [hj, hkey]
    · rw [hbuf j hj]
  have hdevs : ∀ j, (s'.mem.buf j).dev = (s.mem.buf j).dev := fun j => congrArg Prod.fst (hkeys j)
  refine ⟨hhead.nodup_iff.mpr h.nodup, fun j hj k hk heq hd => ?_, fun j hj => ?_, hnodup,
    fun j hj => ?_, fun k hk hno => ?_⟩
  · rw [hkeys, hkeys] at heq
    rw [hdevs] at hd
    exact h.uniq j (hhead.mem_iff.mp hj) k (hhead.mem_iff.mp hk) heq hd
  · have hj' : j ∉ s.mem.head := fun hin => hj (hhead.mem_iff.mpr hin)
    have hne : j ≠ i := fun heq => hj' (heq ▸ hi)
    obtain ⟨hq, hn⟩ := h.outside j hj'
    exact ⟨fun hin => hq (hqueue j hne hin), fun p => by rw [hheld p j hne, hn p]⟩
  · by_cases hne : j = i
    · rw [hne]
      exact hat
    have hj' := hhead.mem_iff.mp hj
    have hother : 1 ≤ (s.mem.buf j).dev → (s.mem.buf j).key ≠ (s.mem.buf i).key := fun hd heq =>
      hne (h.uniq j hj' i hi heq hd)
    exact (h.buffer j hj').frame (hbuf j hne) (fun p => hheld p j hne) (hqueue j hne)
      (fun hd => hlatest _ (hother hd)) fun hd => hdisk _ (hother hd)
  · by_cases heq : k = (s.mem.buf i).key
    · subst heq
      exact habsent (hno i (hhead.mem_iff.mpr hi) (hkeys i))
    rw [hdisk k heq, hlatest k heq]
    refine h.absent k hk fun j hj hjk => ?_
    have hne : j ≠ i := fun hji => heq (by rw [← hjk, hji])
    rw [← hbuf j hne]
    exact hno j (hhead.mem_iff.mpr hj) ((hkeys j).trans hjk)

/-! ## The steps -/

section steps

variable {s : Sys} {p i : Nat}

section

variable (h : CacheInv s) {st : Stage}
include h

lemma CacheInv.mem_head (hp : s.held p i = some st) : i ∈ s.mem.head := by
  by_contra hi
  rw [(h.outside i hi).2 p] at hp
  cases hp

lemma CacheInv.at_held (hp : s.held p i = some st) :
    At s i ∧ (s.mem.buf i).busy = true ∧ 1 ≤ (s.mem.buf i).dev := by
  have hat := h.buffer i (h.mem_head hp)
  exact ⟨hat, hat.held p (by rw [hp]; exact Option.some_ne_none _)⟩

lemma CacheInv.held_eq (hp : s.held p i = some st) {q : Nat} (hq : q ≠ p) : s.held q i = none := by
  by_contra hne
  exact hq ((h.buffer i (h.mem_head hp)).owner q p hne (by rw [hp]; exact Option.some_ne_none _))

lemma CacheInv.held_none (hi : i ∈ s.mem.head) (hb : (s.mem.buf i).busy = false)
    (q : Nat) : s.held q i = none := by
  by_contra hne
  rw [((h.buffer i hi).held q hne).1] at hb
  cases hb

/-- Only a buffer whose holder reads or writes is in the queue. -/
lemma CacheInv.not_queued (hp : s.held p i = some st)
    (h1 : st ≠ .reading) (h2 : st ≠ .writing) : i ∉ s.queue := by
  intro hin
  obtain ⟨q, hq⟩ := (h.buffer i (h.mem_head hp)).queued hin
  have hqp : q = p := by
    by_contra hne
    rw [h.held_eq hp hne] at hq
    rcases hq with ⟨hq, -⟩ | ⟨hq, -⟩ <;> cases hq
  subst hqp
  rw [hp] at hq
  rcases hq with ⟨hq, -⟩ | ⟨hq, -⟩
  · exact h1 (Option.some.inj hq)
  · exact h2 (Option.some.inj hq)

lemma CacheInv.not_queued_of_free (hi : i ∈ s.mem.head)
    (hb : (s.mem.buf i).busy = false) : i ∉ s.queue := by
  intro hin
  obtain ⟨q, ⟨hq, -⟩ | ⟨hq, -⟩⟩ := (h.buffer i hi).queued hin <;>
  · rw [h.held_none hi hb q] at hq
    cases hq

lemma CacheInv.not_modified (hp : s.held p i = some st)
    (hst : st ≠ .modified) (q : Nat) : s.held q i ≠ some .modified := by
  intro hq
  by_cases hqp : q = p
  · rw [hqp, hp] at hq
    exact hst (Option.some.inj hq)
  · rw [h.held_eq hp hqp] at hq
    cases hq

lemma CacheInv.absent_of (hi : i ∈ s.mem.head) (hd : 1 ≤ (s.mem.buf i).dev)
    (hv : (s.mem.buf i).valid = false) :
    s.disk.block (s.mem.buf i).dev (s.mem.buf i).blockno = s.latest (s.mem.buf i).key := by
  refine h.absent (s.mem.buf i).key hd fun j hj hjk => ?_
  rw [h.uniq i hi j hj hjk.symm hd] at hv
  exact hv

end

/-- **A step of the holder**: what it does to its buffer and to its stage, and to nothing else. The
other processes see nothing of it. -/
theorem CacheInv.holder {s' : Sys} {st : Stage} {b : Buf} (st' : Stage) (h : CacheInv s)
    (hp : s.held p i = some st) (hmem : s'.mem.head = s.mem.head) (hb : s'.mem.buf i = b)
    (hkey : b.key = (s.mem.buf i).key) (hbuf : ∀ j, j ≠ i → s'.mem.buf j = s.mem.buf j)
    (hdisk : s'.disk = s.disk) (hheld : s'.held = (s.setStage p i (some st')).held)
    (hqueue : s'.queue = s.queue ∨ s'.queue = s.queue ++ [i] ∧ i ∉ s.queue)
    (hlatest : ∀ k, k ≠ (s.mem.buf i).key → s'.latest k = s.latest k) (hbusy : b.busy = true)
    (hfilled : st' ≠ .got → st' ≠ .reading → b.valid = true)
    (hreading : st' = .reading → b.dirty = false)
    (hqueued : i ∈ s'.queue → st' = .reading ∧ b.valid = false ∨ st' = .writing ∧ b.dirty = true)
    (hcurrent : b.valid = true → b.data = s'.latest (s.mem.buf i).key)
    (hclean : b.valid = true → b.dirty = false → st' ≠ .modified →
      b.data = s.disk.block (s.mem.buf i).dev (s.mem.buf i).blockno)
    (hdirty : b.dirty = true → b.valid = true)
    (habsent : b.valid = false → s'.latest (s.mem.buf i).key = s.latest (s.mem.buf i).key ∧
      (s.mem.buf i).valid = false) : CacheInv s' := by
  have hi := h.mem_head hp
  have hdev := (h.at_held hp).2.2
  have hself : s'.held p i = some st' := by rw [hheld, Sys.setStage_self]
  have hother : ∀ q, q ≠ p → s'.held q i = none := fun q hq => by
    rw [hheld, Sys.setStage_of_proc _ _ _ _ hq, h.held_eq hp hq]
  have hdevs : b.dev = (s.mem.buf i).dev := congrArg Prod.fst hkey
  have hbno : b.blockno = (s.mem.buf i).blockno := congrArg Prod.snd hkey
  refine h.replace hi (by rw [hmem]) hb hkey hbuf (fun q j hj => ?_) (fun j hj hin => ?_) ?_ hlatest
    (fun k _ => by rw [hdisk])
      (.of_holder hself hother hb hbusy (by rwa [hdevs]) hfilled hreading hqueued
    ?_ ?_ hdirty) fun hv => ?_
  · rw [hheld, Sys.setStage_of_ne _ _ _ _ hj]
  · rcases hqueue with hq | ⟨hq, -⟩
    · rwa [hq] at hin
    · rw [hq] at hin
      exact (List.mem_append.mp hin).resolve_right fun hin => hj (List.mem_singleton.mp hin)
  · rcases hqueue with hq | ⟨hq, hnot⟩
    · rw [hq]
      exact h.queue
    rw [hq]
    refine List.nodup_append.mpr ⟨h.queue, List.nodup_singleton i, fun a ha b hb => ?_⟩
    rw [List.mem_singleton.mp hb]
    exact fun heq => hnot (heq ▸ ha)
  · rw [hkey]
    exact hcurrent
  · rw [hdisk, hdevs, hbno]
    exact hclean
  · obtain ⟨hl, hv'⟩ := habsent hv
    rw [hdisk, hl]
    exact h.absent_of hi hdev hv'

section

variable (h : CacheInv s)
include h

lemma CacheInv.ready {st : Stage} (hp : s.held p i = some st) (hst : st ≠ .modified)
    (hv : (s.mem.buf i).valid = true) (hnq : i ∉ s.queue) :
    CacheInv (s.setStage p i (some .ready)) := by
  obtain ⟨hat, hbusy, hdev⟩ := h.at_held hp
  exact h.holder .ready hp rfl rfl rfl (fun _ _ => rfl) rfl rfl (.inl rfl) (fun _ _ => rfl) hbusy
    (fun _ _ => hv) nofun (fun hin => absurd hin hnq) (hat.current hdev)
    (fun hv hc _ => hat.clean hdev hv hc (h.not_modified hp hst)) hat.dirty fun hv' => ⟨rfl, hv'⟩

/-- The first test of `bread`: a buffer that is not valid is queued. -/
lemma CacheInv.fill (hp : s.held p i = some .got) : CacheInv (step s (.fill p i)) := by
  obtain ⟨hat, hbusy, hdev⟩ := h.at_held hp
  have hnq := h.not_queued hp (by decide) (by decide)
  simp only [step]
  split
  · next hv => exact h.ready hp (by decide) hv hnq
  · next hv =>
    have hv : (s.mem.buf i).valid = false := by simpa using hv
    refine h.holder .reading hp rfl rfl rfl (fun _ _ => rfl) rfl rfl (.inr ⟨rfl, hnq⟩)
      (fun _ _ => rfl) hbusy
      (fun _ hne => absurd rfl hne) (fun _ => ?_) (fun _ => .inl ⟨rfl, hv⟩) (hat.current hdev)
      (fun hv' => ?_) hat.dirty fun hv' => ⟨rfl, hv'⟩
    · by_contra hd
      have := hat.dirty (by simpa using hd)
      rw [hv] at this
      cases this
    · rw [Sys.setStage_mem, Sys.push_mem, hv] at hv'
      cases hv'

section

variable (hp : s.held p i = some .ready ∨ s.held p i = some .modified)
include hp

/-- A buffer that its holder may read and change is busy, valid and not in the queue. -/
lemma CacheInv.opened : ∃ st, s.held p i = some st ∧
    (s.mem.buf i).busy = true ∧ 1 ≤ (s.mem.buf i).dev ∧
      (s.mem.buf i).valid = true ∧ i ∉ s.queue := by
  have hfacts : ∀ st, s.held p i = some st → st ≠ .got → st ≠ .reading → st ≠ .writing →
      (s.mem.buf i).busy = true ∧ 1 ≤ (s.mem.buf i).dev ∧
        (s.mem.buf i).valid = true ∧ i ∉ s.queue := by
    intro st hst h1 h2 h3
    obtain ⟨hat, hbusy, hdev⟩ := h.at_held hst
    exact ⟨hbusy, hdev, hat.filled p st hst h1 h2, h.not_queued hst h2 h3⟩
  rcases hp with hp | hp <;> exact ⟨_, hp, hfacts _ hp (by decide) (by decide) (by decide)⟩

lemma CacheInv.modify (f : Block → Block) : CacheInv (step s (.modify p i f)) := by
  obtain ⟨st, hst, hbusy, hdev, hv, hnq⟩ := h.opened hp
  exact h.holder .modified hst rfl (Mem.setBuf_self ..) rfl
    (fun j hj => Mem.setBuf_of_ne hj) rfl rfl (.inl rfl)
    (fun k hk => Function.update_of_ne hk _ _) hbusy (fun _ _ => hv) nofun
    (fun hin => absurd hin hnq) (fun _ => (Function.update_self _ _ s.latest).symm)
      (fun _ _ hne => absurd rfl hne) (fun _ => hv)
    fun hv' => absurd (hv.symm.trans hv') (by decide)

lemma CacheInv.bwrite : CacheInv (step s (.bwrite p i)) := by
  obtain ⟨st, hst, hbusy, hdev, hv, hnq⟩ := h.opened hp
  simp only [step, if_pos hbusy]
  exact h.holder .writing hst rfl (Mem.setBuf_self ..) rfl (fun j hj => Mem.setBuf_of_ne hj) rfl rfl
    (.inr ⟨rfl, hnq⟩) (fun _ _ => rfl) hbusy (fun _ _ => hv) nofun (fun _ => .inr ⟨rfl, rfl⟩)
    (fun _ => (h.at_held hst).1.current hdev hv) nofun (fun _ => hv)
    fun hv' => absurd (hv.symm.trans hv') (by decide)

/-- `log_write` makes the buffer dirty, which keeps it in the cache. -/
lemma CacheInv.logWrite (hact : RedoLog.Active s.mem (s.mem.buf i).dev) :
    CacheInv (step s (.logWrite p i)) := by
  obtain ⟨st, hst, hbusy, hdev, hv, hnq⟩ := h.opened hp
  simp only [step, if_neg (not_not.mpr hact)]
  split
  · exact h
  exact h.holder .ready hst rfl (Mem.setBuf_self ..) rfl (fun j hj => Mem.setBuf_of_ne hj) rfl rfl
    (.inl rfl) (fun _ _ => rfl)
    hbusy (fun _ _ => hv) nofun (fun hin => absurd hin hnq)
    (fun _ => (h.at_held hst).1.current hdev hv) nofun (fun _ => hv)
    fun hv' => absurd (hv.symm.trans hv') (by decide)

end

/-- A process that waits goes on when the flags say that the transfer is over. -/
lemma CacheInv.resume (hp : s.held p i = some .reading ∨ s.held p i = some .writing) :
    CacheInv (step s (.resume p i)) := by
  simp only [step]
  split
  · next hdone =>
    obtain ⟨hv, hc⟩ := hdone
    rcases hp with hp | hp <;>
    · refine h.ready hp (by decide) hv fun hin => ?_
      obtain ⟨q, ⟨-, hq⟩ | ⟨-, hq⟩⟩ := (h.buffer i (h.mem_head hp)).queued hin
      · simp [hv] at hq
      · simp [hc] at hq
  · exact h

/-- A buffer is released with the contents of the card, or dirty. -/
lemma CacheInv.brelse (hp : s.held p i = some .ready) : CacheInv (step s (.brelse p i)) := by
  obtain ⟨st, hst, hbusy, hdev, hv, hnq⟩ := h.opened (.inl hp)
  have hi := h.mem_head hp
  have hat := h.buffer i hi
  simp only [step, if_pos hbusy]
  have hnone : ∀ q, ((Sys.mk { s.mem.setBuf i { s.mem.buf i with busy := false } with
      head := s.mem.head.erase i ++ [i] } s.disk s.queue s.held s.latest).setStage p i none).held q
        i =
        none := fun q => by
    by_cases hq : q = p
    · rw [hq]
      exact Sys.setStage_self ..
    · rw [Sys.setStage_of_proc _ _ _ _ hq]
      exact h.held_eq hp hq
  exact h.replace hi ((List.perm_append_singleton i _).trans (List.perm_cons_erase hi).symm)
    (Mem.setBuf_self ..) rfl
    (fun j hj => Mem.setBuf_of_ne hj) (fun q j hj => Sys.setStage_of_ne _ _ _ _ hj)
      (fun _ _ hin => hin) h.queue
    (fun _ _ => rfl) (fun _ _ => rfl)
      (.of_free hnone hnq (Mem.setBuf_self ..) (fun _ _ => hat.current hdev hv)
      (fun _ _ hc => hat.clean hdev hv hc (h.not_modified hp (by decide))) fun _ => hv)
    fun hv' => absurd (hv.symm.trans hv') (by decide)

lemma CacheInv.logs (log : Nat → Log) : CacheInv (step s (.logs log)) :=
  { h with buffer := fun i hi => (h.buffer i hi).frame rfl (fun _ => rfl) id (fun _ => rfl) fun _ =>
    rfl }

/-- One transfer between the card and the first buffer of the queue. -/
lemma CacheInv.transfer : CacheInv (step s .transfer) := by
  simp only [step]
  split
  · exact h
  · next i rest hq =>
    have hin : i ∈ s.queue := by rw [hq]; exact List.mem_cons_self ..
    have hi : i ∈ s.mem.head := by
      by_contra hi
      exact (h.outside i hi).1 hin
    have hnd := h.queue
    rw [hq, List.nodup_cons] at hnd
    have hrest : ∀ j, j ∈ rest → j ∈ s.queue :=
      fun j hj => by rw [hq]; exact List.mem_cons_of_mem _ hj
    obtain ⟨p, hp⟩ := (h.buffer i hi).queued hin
    obtain ⟨st, hst⟩ : ∃ st, s.held p i = some st := by rcases hp with ⟨hp, -⟩ | ⟨hp, -⟩ <;>
      exact ⟨_, hp⟩
    obtain ⟨hat, hbusy, hdev⟩ := h.at_held hst
    -- the buffer is valid and clean afterwards
    have hdone : ∀ {b : Buf} {d : Disk}, b.key = (s.mem.buf i).key → b.busy = true → 1 ≤ b.dev →
      b.valid = true →
        b.dirty = false → b.data = s.latest b.key → b.data = d.block b.dev b.blockno →
        (∀ k : Nat × Nat, k ≠ (s.mem.buf i).key → d.block k.1 k.2 = s.disk.block k.1 k.2) →
        CacheInv { s.setBuf i b with disk := d, queue := rest } :=
          fun hkey hb hd hv hc hcur hclean hdisk =>
      h.replace hi (List.Perm.refl _) (Mem.setBuf_self ..) hkey (fun j hj => Mem.setBuf_of_ne hj)
        (fun _ _ _ => rfl) (fun j _ hj => hrest j hj) hnd.2 (fun _ _ => rfl) hdisk
        (.of_holder hst (fun q hq => h.held_eq hst hq) (Mem.setBuf_self ..) hb hd (fun _ _ => hv)
          (fun _ => hc)
          (fun hin' => absurd hin' hnd.1) (fun _ => hcur) (fun _ _ _ => hclean) fun _ => hv)
        fun hv' => absurd (hv.symm.trans hv') (by decide)
    split
    · split
      · next hdirty =>
        refine hdone rfl hbusy hdev rfl rfl (hat.current hdev (hat.dirty hdirty))
          (Disk.set_block_self ..).symm
          fun k hk => Disk.set_block_of_ne _ _ fun heq => hk (Prod.ext heq.1 heq.2)
      · next hdirty =>
        have hdirty : (s.mem.buf i).dirty = false := by simpa using hdirty
        have hv : (s.mem.buf i).valid = false := by
          rcases hp with ⟨-, hv⟩ | ⟨-, hd⟩
          · exact hv
          · rw [hdirty] at hd
            cases hd
        exact hdone rfl hbusy hdev rfl rfl (h.absent_of hi hdev hv) rfl fun _ _ => rfl
    · exact h

/-- `bget` of a block that is cached and not busy. -/
lemma CacheInv.take {dev b : Nat} (hdev : 1 ≤ dev)
    (hc : cached s.mem dev b = some i) (hbusy : (s.mem.buf i).busy = false) :
    CacheInv ((s.setBuf i { s.mem.buf i with busy := true }).setStage p i (some .got)) := by
  obtain ⟨hi, hkey⟩ := cached_eq_some (k := (dev, b)) hc
  have hd : 1 ≤ (s.mem.buf i).dev := by
    have := congrArg Prod.fst hkey
    change (s.mem.buf i).dev = dev at this
    omega
  have hat := h.buffer i hi
  have hfree := h.held_none hi hbusy
  refine h.replace hi (List.Perm.refl _) (Mem.setBuf_self ..) rfl (fun j hj => Mem.setBuf_of_ne hj)
    (fun q j hj => Sys.setStage_of_ne _ _ _ _ hj) (fun _ _ hin => hin) h.queue (fun _ _ => rfl)
      (fun _ _ => rfl)
    (.of_holder (Sys.setStage_self ..) (fun q hq => ?_) (Mem.setBuf_self ..) rfl hd
      (fun hne => absurd rfl hne)
      nofun (fun hin => absurd hin (h.not_queued_of_free hi hbusy)) (hat.current hd)
      (fun hv hcl _ => hat.clean hd hv hcl fun q => by simp [hfree q]) hat.dirty)
        (h.absent_of hi hd)
  rw [Sys.setStage_of_proc _ _ _ _ hq]
  exact hfree q

/-- `bget` gives a buffer that is neither busy nor dirty to a block that no buffer carries. -/
lemma CacheInv.recycle {dev b : Nat} (hdev : 1 ≤ dev)
    (hc : cached s.mem dev b = none) (hr : recyclable s.mem = some i) :
    CacheInv ((s.setBuf i ⟨true, false, false, dev, b, (s.mem.buf i).data⟩).setStage p i
      (some .got)) := by
  have hnew : ∀ j ∈ s.mem.head, (s.mem.buf j).key ≠ (dev, b) := cached_eq_none.mp hc
  obtain ⟨hi, hbusy, hdirty⟩ := recyclable_eq_some hr
  have hat := h.buffer i hi
  have hfree := h.held_none hi hbusy
  refine ⟨h.nodup, fun j hj k hk heq hd => ?_, fun j hj => ?_, h.queue, fun j hj => ?_,
    fun k hk hno => ?_⟩
  · simp only [Sys.setStage_mem, Sys.setBuf_mem] at heq hd
    by_cases hji : j = i <;> by_cases hki : k = i
    · rw [hji, hki]
    · rw [hji, Mem.setBuf_self, Mem.setBuf_of_ne hki] at heq
      exact absurd heq.symm (hnew k hk)
    · rw [hki, Mem.setBuf_self, Mem.setBuf_of_ne hji] at heq
      exact absurd heq (hnew j hj)
    rw [Mem.setBuf_of_ne hji, Mem.setBuf_of_ne hki] at heq
    rw [Mem.setBuf_of_ne hji] at hd
    exact h.uniq j hj k hk heq hd
  · have hne : j ≠ i := fun heq => hj (by rw [heq]; exact hi)
    exact ⟨(h.outside j hj).1,
      fun q => by rw [Sys.setStage_of_ne _ _ _ _ hne]; exact (h.outside j hj).2 q⟩
  · by_cases hji : j = i
    · subst hji
      refine .of_holder (Sys.setStage_self ..) (fun q hq => ?_) (Mem.setBuf_self ..) rfl hdev
        (fun hne => absurd rfl hne) nofun
        (fun hin => absurd hin (h.not_queued_of_free hi hbusy)) nofun nofun
        nofun
      rw [Sys.setStage_of_proc _ _ _ _ hq]
      exact hfree q
    · exact (h.buffer j hj).frame (Mem.setBuf_of_ne hji)
        (fun q => Sys.setStage_of_ne _ _ _ _ hji) id (fun _ => rfl) fun _ => rfl
  · -- the block that the buffer carried before is as it is on the card
    by_cases hold : (s.mem.buf i).key = k ∧ (s.mem.buf i).valid = true
    · obtain ⟨rfl, hv⟩ := hold
      have hclean := hat.clean hk hv hdirty fun q hq => by
        rw [hfree q] at hq
        cases hq
      exact hclean.symm.trans (hat.current hk hv)
    refine h.absent k hk fun j hj hjk => ?_
    by_cases hji : j = i
    · subst hji
      by_contra hv
      exact hold ⟨hjk, by simpa using hv⟩
    have hj' := hno j hj
    simp only [Sys.setStage_mem, Sys.setBuf_mem, Mem.setBuf_of_ne hji] at hj'
    exact hj' hjk

/-- **Every step keeps the invariant**. -/
theorem CacheInv.step {a : Act} (ha : Follows s a) : CacheInv (step s a) := by
  cases a with
  | bget p dev b =>
    simp only [Interleave.step]
    split
    · next i hc =>
      split
      · exact h
      · next hbusy => exact h.take ha hc (by simpa using hbusy)
    · next hc =>
      split
      · next i hr => exact h.recycle ha hc hr
      · exact h
  | fill p i => exact h.fill ha
  | transfer => exact h.transfer
  | resume p i => exact h.resume ha
  | modify p i f => exact h.modify ha f
  | bwrite p i => exact h.bwrite ha
  | logWrite p i => exact h.logWrite ha.1 ha.2
  | brelse p i => exact h.brelse ha
  | logs log => exact h.logs log

end

end steps

/-! ## Runs -/

/-- The cache after `binit`, with no process in it. -/
structure Start (s : Sys) : Prop where
  nodup : s.mem.head.Nodup
  unused : ∀ i ∈ s.mem.head, (s.mem.buf i).dev = 0 ∧ (s.mem.buf i).dirty = false
  queue : s.queue = []
  held : ∀ p i, s.held p i = none
  latest : ∀ k, s.latest k = s.disk.block k.1 k.2

/-- The invariant holds at the start. -/
lemma Start.inv (h : Start s) : CacheInv s := by
  refine ⟨h.nodup, fun i hi j _ _ hd => ?_,
    fun i _ => ⟨by rw [h.queue]; exact List.not_mem_nil, fun p => h.held p i⟩,
    by rw [h.queue]; exact List.nodup_nil, fun i hi => ?_, fun k _ _ => (h.latest k).symm⟩
  · rw [(h.unused i hi).1] at hd
    omega
  obtain ⟨hdev, hdirty⟩ := h.unused i hi
  refine .of_free (fun p => h.held p i) (by simp [h.queue]) rfl (fun hd => by omega)
    (fun hd => by omega)
    fun hd => ?_
  rw [hdirty] at hd
  cases hd

/-- Nobody shares a block, no block is in two buffers, and what `bread` has returned has the bytes
of the most recent change. -/
structure Transparent (s : Sys) : Prop where
  exclusive : ∀ p q i j, s.held p i ≠ none → s.held q j ≠ none →
    (s.mem.buf i).key = (s.mem.buf j).key → p = q ∧ i = j
  unique : ∀ i ∈ s.mem.head, ∀ j ∈ s.mem.head, (s.mem.buf i).key = (s.mem.buf j).key →
    1 ≤ (s.mem.buf i).dev → i = j
  returns : ∀ p i, s.held p i = some .ready ∨ s.held p i = some .modified →
    (s.mem.buf i).data = s.latest (s.mem.buf i).key

/-- The invariant implies what the users of the cache rely on. -/
lemma CacheInv.transparent (h : CacheInv s) : Transparent s := by
  refine ⟨fun p q i j hp hq hkey => ?_, h.uniq, fun p i hp => ?_⟩
  · obtain ⟨st1, hp'⟩ := Option.ne_none_iff_exists'.mp hp
    obtain ⟨st2, hq'⟩ := Option.ne_none_iff_exists'.mp hq
    have hi := h.mem_head hp'
    have hdev := ((h.buffer i hi).held p hp).2
    have hij := h.uniq i hi j (h.mem_head hq') hkey hdev
    subst hij
    exact ⟨(h.buffer i hi).owner p q hp hq, rfl⟩
  · obtain ⟨st, hst, -, hdev, hv, -⟩ := h.opened hp
    exact (h.buffer i (h.mem_head hst)).current hdev hv

/-- The cache after `binit`, and a card with 1000 blocks on every partition. -/
def bootSys : Sys := ⟨Mem.boot, ⟨fun _ => 1000, fun _ _ => zeroBytes⟩, [], fun _ _ => none,
  fun _ => zeroBytes⟩

lemma bootSys_start : Start bootSys :=
  ⟨List.nodup_range, fun _ _ => ⟨rfl, rfl⟩, rfl, fun _ _ => rfl, fun _ => rfl⟩

/-- Process 1 changes block 5 of device 1 and writes it, while process 2 waits for it. -/
def twoReaders : List Act :=
  [.bget 1 1 5, .fill 1 125, .bget 2 1 5, .transfer, .resume 1 125,
    .modify 1 125 fun b j => if j = 0 then 1 else b j,
    .bwrite 1 125, .bget 2 1 5, .transfer, .resume 1 125, .brelse 1 125, .bget 2 1 5, .fill 2 125]

/-- The card has the bytes of the most recent change of a block that is neither dirty nor changed
and not written in any buffer. -/
def WrittenBack (s : Sys) : Prop := ∀ k : Nat × Nat, 1 ≤ k.1 →
  (∀ i ∈ s.mem.head, (s.mem.buf i).key = k → (s.mem.buf i).dirty = false ∧
    ∀ p, s.held p i ≠ some .modified) →
    s.disk.block k.1 k.2 = s.latest k

/-- With an empty queue, `devrw` is a transfer and the test after it. -/
lemma devrw_code (hq : s.queue = []) (p i : Nat) (st : Stage) :
    Wp (devrw i) s.mem s.disk (fun _ m' d' =>
      let t := step (step ((s.push i).setStage p i (some st)) .transfer) (.resume p i)
      t.mem = m' ∧ t.disk = d' ∧ t.held p i = some .ready) := by
  unfold devrw
  simp only [wp_bind, wp_get, wp_durable, step, Sys.setStage_queue, Sys.push_queue, hq,
    List.nil_append, Sys.setStage_mem, Sys.push_mem, Sys.setStage_disk, Sys.push_disk]
  by_cases hlt : (s.mem.buf i).blockno < s.disk.nsecs (s.mem.buf i).dev
  · by_cases hd : (s.mem.buf i).dirty = true
    · simp [hlt, hd, wp_bind, Durable.apply]
    · simp [hlt, hd]
  · simp [hlt]

/-- The second half of `bread` is these three steps. -/
lemma fill_code (hq : s.queue = []) (p i : Nat) : Wp (do
      let m ← Prog.get
      if (m.buf i).valid then pure i
      else do
        devrw i
        pure i : K Nat) s.mem s.disk (fun r m' d' =>
      let t := [Act.fill p r, .transfer, .resume p r].foldl step s
      t.mem = m' ∧ t.disk = d' ∧ t.held p r = some .ready) := by
  rw [wp_bind, wp_get]
  refine ⟨trivial, ?_⟩
  simp only [List.foldl_cons, List.foldl_nil]
  by_cases hv : (s.mem.buf i).valid = true
  · rw [if_pos hv, wp_pure]
    have hfill : step s (.fill p i) = s.setStage p i (some .ready) := if_pos hv
    have htransfer : step (s.setStage p i (some .ready)) .transfer =
        s.setStage p i (some .ready) := by simp [step, hq]
    refine ⟨trivial, ?_⟩
    rw [hfill, htransfer]
    simp only [step]
    split <;> exact ⟨rfl, rfl, Sys.setStage_self ..⟩
  · have hfill : step s (.fill p i) = (s.push i).setStage p i (some .reading) := if_neg hv
    rw [if_neg hv, wp_bind]
    refine (devrw_code hq p i .reading).imp fun _ _ _ ht => ?_
    rw [wp_pure, hfill]
    exact ⟨trivial, ht⟩

lemma bget_code (p dev b : Nat) : Wp (bget dev b) s.mem s.disk fun _ m' d' =>
    let t := step s (.bget p dev b)
    t.mem = m' ∧ t.disk = d' ∧ t.queue = s.queue := by
  unfold bget
  simp only [wp_bind, wp_get, step]
  rcases cached s.mem dev b with - | i
  · cases recyclable s.mem <;> simp [wp_bind]
  · by_cases hb : (s.mem.buf i).busy = true <;> simp [hb, wp_bind]

/-- **`bread` of a process that nobody disturbs** is these four steps: the sequential `bread` and
the steps end with the same buffers and the same card. -/
theorem bread_code (hq : s.queue = []) (p dev b : Nat) :
    Wp (bread dev b) s.mem s.disk (fun i m' d' =>
      let t := [Act.bget p dev b, .fill p i, .transfer, .resume p i].foldl step s
      t.mem = m' ∧ t.disk = d' ∧ t.held p i = some .ready) := by
  unfold bread
  rw [wp_bind]
  refine (bget_code p dev b).imp ?_
  rintro i _ _ ⟨rfl, rfl, hqueue⟩
  exact fill_code (hqueue.trans hq) p i

end RpiOs.Bio.Interleave
