import RpiOs.Lib.Run
import RpiOs.Dev.Addressing

/-!
# Many processes at the card

`devrw` and `dev_start` of `kern/dev.c`, called by many processes. A process whose request comes to
an empty queue serves all requests. `cardlock` is free while the driver sleeps in a transfer, and
others append to the queue then.

`made`, `served` and `answers` are not in the source: the requests as they came, those that were
served, and what became of these.
-/

namespace RpiOs.Dev.Queue

open Kernel Lib Function

/-- Where a process is, and with which buffer. -/
inductive Phase where
  | idle
  /-- in `dev_start`, during the transfer of the first request -/
  | serving (i : Nat)
  /-- before the test of the flags -/
  | waiting (i : Nat)

def Phase.buffer : Phase → Option Nat
  | .idle => none
  | .serving i => some i
  | .waiting i => some i

/-- The buffers, the card, `devque` and the processes. -/
structure Sys where
  buf : Nat → Buf
  card : Emmc
  queue : List Nat
  phase : Nat → Phase
  made : List Buf
  served : List Buf
  answers : List Buf

/-- What happens next. -/
inductive Act where
  /-- a process calls `devrw` for a buffer with this contents -/
  | call (p i : Nat) (b : Buf)
  /-- a transfer ends -/
  | transfer (p : Nat)
  /-- a process tests its flags -/
  | test (p : Nat)

variable (sb : Nat → Superblock)

/-- One step; after a failed assertion the transfer does not end. -/
def step (s : Sys) : Act → Sys
  | .call p i b =>
    let queue := s.queue ++ [i]
    { s with
      buf := update s.buf i b
      queue := queue
      phase := update s.phase p (if queue.head? = some i then .serving i else .waiting i)
      made := s.made ++ [b] }
  | .transfer p =>
    match s.phase p, s.queue with
    | .serving i, j :: rest =>
      match serve sb (s.buf j) s.card with
      | some (b, card) =>
        { s with
          buf := update s.buf j b
          card := card
          queue := rest
          phase := update s.phase p (if rest = [] then .waiting i else .serving i)
          served := s.served ++ [s.buf j]
          answers := s.answers ++ [b] }
      | none => s
    | _, _ => s
  | .test p =>
    match s.phase p with
    | .waiting i =>
      if (s.buf i).valid = true ∧
        (s.buf i).dirty = false then { s with phase := update s.phase p .idle }
      else s
    | _ => s

/-- A process calls `devrw` for a buffer that nobody else has there, to read or to write it. -/
def Follows (s : Sys) : Act → Prop
  | .call p i b => s.phase p = .idle ∧ (∀ q, (s.phase q).buffer ≠ some i) ∧
    (b.valid = true → b.dirty = true)
  | _ => True

/-- The queue at work, on a card that was `c` at first. -/
structure Orderly (c : Emmc) (s : Sys) : Prop where
  /-- requests are served as they were made, in their order -/
  order : s.made = s.served ++ s.queue.map s.buf
  /-- as if they came one after the other -/
  result : devStart sb s.served c = some (s.answers, s.card)
  nodup : s.queue.Nodup
  /-- one process serves, as long as there are requests -/
  server : ∀ p i, s.phase p = .serving i → s.queue ≠ [] ∧ ∀ q j, s.phase q = .serving j → q = p
  busy : s.queue ≠ [] → ∃ p i, s.phase p = .serving i
  /-- a test fails until the request has been served -/
  queued : ∀ i ∈ s.queue, (∃ p, (s.phase p).buffer = some i) ∧
    ((s.buf i).valid = true → (s.buf i).dirty = true)
  done : ∀ p i, (s.phase p).buffer = some i → i ∉ s.queue →
    (s.buf i).valid = true ∧ (s.buf i).dirty = false ∧ s.buf i ∈ s.answers

variable {sb} {c : Emmc} {s : Sys} {b b' : Buf} {c' c'' : Emmc}

lemma serve_flags (h : serve sb b c = some (b', c')) : b'.valid = true ∧ b'.dirty = false := by
  simp only [serve, Option.bind_eq_bind, Option.bind_eq_some_iff] at h
  obtain ⟨bno, -, h⟩ := h
  split at h <;>
  · obtain ⟨r, -, h⟩ := Option.bind_eq_some_iff.mp h
    cases h
    exact ⟨rfl, rfl⟩

/-- A request at the end of the queue is served after all the others. -/
lemma devStart_append {bs bs' : List Buf} (h : devStart sb bs c = some (bs', c'))
    (hb : serve sb b c' = some (b', c'')) :
    devStart sb (bs ++ [b]) c = some (bs' ++ [b'], c'') := by
  induction bs generalizing c bs' with
  | nil =>
    cases h
    simp [devStart, hb]
  | cons x bs ih =>
    simp only [devStart, Option.bind_eq_bind, Option.bind_eq_some_iff, Option.some.injEq,
      Prod.mk.injEq] at h
    obtain ⟨r, hr, rest, hrest, rfl, rfl⟩ := h
    simp [devStart, hr, ih hrest]

lemma map_update {i : Nat} {q : List Nat} (hi : i ∉ q) : q.map (update s.buf i b) = q.map s.buf :=
  List.map_congr_left fun _ hj => update_of_ne (ne_of_mem_of_not_mem hj hi) _ _

lemma exists_update (f : Nat → Phase) (p : Nat) (x : Phase) :
    ∃ g, g = update f p x ∧ g p = x ∧ ∀ q, q ≠ p → g q = f q :=
  ⟨_, rfl, update_self .., fun _ hq => update_of_ne hq ..⟩

/-- A call: the caller serves if the queue was empty, and waits if not. -/
lemma Orderly.call (h : Orderly sb c s) {p i : Nat} (ha : Follows s (.call p i b)) :
    Orderly sb c (step sb s (.call p i b)) := by
  obtain ⟨order, result, nodup, server, busy, queued, done⟩ := h
  obtain ⟨hidle, hfree, hb⟩ := ha
  have hi : i ∉ s.queue := fun hi => by
    obtain ⟨q, hq⟩ := (queued i hi).1
    exact hfree q hq
  have hfirst : (s.queue ++ [i]).head? = some i ↔ s.queue = [] := by
    cases hq : s.queue with
    | nil => simp
    | cons j rest => simpa using ne_of_mem_of_not_mem (by simp [hq]) hi
  obtain ⟨ph, hph, hself, hother⟩ :=
    exists_update s.phase p (if s.queue = [] then .serving i else .waiting i)
  constructor <;> simp only [step, hfirst, ← hph]
  · simp [map_update hi, order]
  · exact result
  · exact nodup.append (List.nodup_singleton i) (by simpa using hi)
  · -- a server means that the queue was not empty
    clear queued done busy
    grind
  · intro _
    by_cases hempty : s.queue = []
    · exact ⟨p, i, by rw [hself, if_pos hempty]⟩
    · obtain ⟨q, j, hq⟩ := busy hempty
      exact ⟨q, j, by grind⟩
  · -- the new request is that of the caller
    clear server busy done
    grind [update_apply, Phase.buffer]
  · clear server busy queued
    grind [update_apply, Phase.buffer]

/-- A transfer: the first request gets its answer, and the server goes on while there are others. -/
lemma Orderly.transfer (h : Orderly sb c s) {p i j : Nat} {rest : List Nat} {card : Emmc}
    (hp : s.phase p = .serving i) (hq : s.queue = j :: rest)
    (hserve : serve sb (s.buf j) s.card = some (b, card)) :
    Orderly sb c (step sb s (.transfer p)) := by
  obtain ⟨order, result, nodup, server, busy, queued, done⟩ := h
  have hflags := serve_flags hserve
  rw [hq] at nodup order
  obtain ⟨hj, hrest⟩ := List.nodup_cons.mp nodup
  obtain ⟨ph, hph, hself, hother⟩ :=
    exists_update s.phase p (if rest = [] then .waiting i else .serving i)
  constructor <;> simp only [step, hp, hq, hserve, ← hph]
  · simp [map_update hj, order]
  · exact devStart_append result hserve
  · exact hrest
  · clear queued done busy
    grind
  · exact fun hne => ⟨p, i, by rw [hself, if_neg hne]⟩
  · -- the requests that are left have their buffers, and the processes that wait, as before
    clear server busy done
    grind [update_apply, Phase.buffer]
  · -- the flags of the answer are those that a test waits for
    clear server busy queued
    grind [update_apply, Phase.buffer]

/-- A process goes when its flags say that its request was served. -/
lemma Orderly.leaves (h : Orderly sb c s) {p i : Nat} (hp : s.phase p = .waiting i)
    (hflags : (s.buf i).valid = true ∧ (s.buf i).dirty = false) :
    Orderly sb c { s with phase := update s.phase p .idle } := by
  obtain ⟨order, result, nodup, server, busy, queued, done⟩ := h
  obtain ⟨ph, hph, hself, hother⟩ := exists_update s.phase p .idle
  refine ⟨order, result, nodup, ?_, ?_, ?_, ?_⟩ <;> simp only [← hph]
  · grind
  · intro hne
    obtain ⟨q, j, hq⟩ := busy hne
    exact ⟨q, j, by grind⟩
  · -- a request in the queue would have other flags
    grind [Phase.buffer]
  · grind [Phase.buffer]

/-- Every step keeps the queue orderly, one lemma for each kind of step. -/
lemma Orderly.step {a : Act} (h : Orderly sb c s) (ha : Follows s a) :
    Orderly sb c (step sb s a) := by
  cases a with
  | call p i b => exact h.call ha
  | transfer p =>
    cases hp : s.phase p with
    | serving i =>
      cases hq : s.queue with
      | nil => simpa [Queue.step, hp, hq] using h
      | cons j rest =>
        cases hserve : serve sb (s.buf j) s.card with
        | none => simpa [Queue.step, hp, hq, hserve] using h
        | some r => exact h.transfer hp hq hserve
    | _ => simpa [Queue.step, hp] using h
  | test p =>
    dsimp only [Queue.step]
    split
    · next i hp =>
      split
      · next hflags => exact h.leaves hp hflags
      · exact h
    · exact h

/-- Nobody is in `devrw`. -/
def start (buf : Nat → Buf) (c : Emmc) : Sys := ⟨buf, c, [], fun _ => .idle, [], [], []⟩

/-- **The queue of the card**, for every number of processes and every interleaving: requests are
served once each, in their order and by one process at a time, as if they came one after the other,
and `devrw` can return exactly when its own request has been served. -/
theorem devrw_orderly (buf : Nat → Buf) (c : Emmc) {as : List Act}
    (hrun : RunOk (step sb) Follows (start buf c) as) :
    RunAll (step sb) (Orderly sb c) (start buf c) as := by
  refine hrun.runAll (fun s a h ha => h.step ha) ⟨rfl, rfl, .nil, ?_, ?_, ?_, ?_⟩
  all_goals simp [start, Phase.buffer]

/-- Process 1 serves the request of process 2, too. -/
theorem devrw_orderly_two : RunAll (step onePartition) (Orderly onePartition sdhcCard)
    (start recycled sdhcCard) [.call 1 5 (recycled 5), .call 2 6 (recycled 6), .transfer 1,
    .transfer 1, .test 2] := by
  refine devrw_orderly recycled sdhcCard ⟨⟨rfl, by simp [start, Phase.buffer], by simp [recycled]⟩,
    ⟨rfl, fun q => ?_, by simp [recycled]⟩, trivial, trivial, trivial, trivial⟩
  by_cases hq : q = 1 <;> simp [step, start, hq, Phase.buffer]

end RpiOs.Dev.Queue
