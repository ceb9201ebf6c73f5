import RpiOs.RedoLog.Recovery

/-!
# Crash atomicity

`Tx` is what the log is for: a store of blocks with a current state, seen by the running
operations, and a stable one, the current state when the last transaction ended. It knows nothing
of caches, headers or writes.

`Running` relates the machine to it between two steps, and `perform_wp` says that every step of the
kernel keeps the relation while the card promises the stable state before or after the step at each
of its writes. So recovery, however often it is itself interrupted, ends in exactly one of them
(`crash_recovery_atomic`).
-/

namespace RpiOs.RedoLog

open Lib Kernel Bio

/-! ## The specification -/

/-- A transactional block store. -/
structure Tx where
  outstanding : Int
  current : Nat → Block
  stable : Nat → Block

/-- A transaction ends, and becomes stable as a whole, when no operation is outstanding. -/
def Tx.step (t : Tx) : LogOp → Tx
  | .beginOp => { t with outstanding := t.outstanding + 1 }
  | .write b f => { t with current := fun x => if x = b then f (t.current b) else t.current x }
  | .read _ _ => t
  | .endOp =>
    if t.outstanding - 1 = 0 then ⟨t.outstanding - 1, t.current, t.current⟩
    else { t with outstanding := t.outstanding - 1 }

/-- The store after some steps. -/
def Tx.run (t : Tx) (ops : List LogOp) : Tx := ops.foldl Tx.step t

/-- The store at boot. -/
def Tx.init (S : Nat → Block) : Tx := ⟨0, S, S⟩

/-- Steps write home blocks only, and nobody reads the block that marks unused buffers. -/
def LogOp.Legal (g : Layout) (d : Disk) : LogOp → Prop
  | .write b _ => g.Home d b
  | .read dev b => (dev, b) ≠ nullKey
  | _ => True

lemma LogOp.Legal.congr {g : Layout} {d d' : Disk} {op : LogOp} (h : op.Legal g d)
    (hn : d'.nsecs = d.nsecs) : op.Legal g d' := by
  cases op with
  | write b f =>
    rw [LogOp.Legal, Layout.Home, hn]
    exact h
  | beginOp => trivial
  | endOp => trivial
  | read dev b => exact h

/-! ## The relation, and one step -/

/-- The machine between two steps. -/
structure Running (g : Layout) (m : Mem) (d : Disk) (t : Tx) :
    Prop extends Quiet unused [] m d where
  length : m.head.length = nbuf
  mounted : Mounted g m
  committing : (m.log g.dev).committing = false
  outstanding : (m.log g.dev).outstanding = t.outstanding
  collected : Collected g m d
  header : g.header d = []
  pending : Pending g d t.stable
  view : ∀ b, ¬ g.InLog b → view m d (g.dev, b) = t.current b

variable {g : Layout} {m : Mem} {d : Disk} {t : Tx}

/-- The step has what it needs: log space to begin, a place in the log to write, and buffers beside
the dirty ones. -/
def Enough (g : Layout) (m : Mem) (d : Disk) : LogOp → Prop
  | .beginOp => ((m.log g.dev).lh.length : Int) +
    ((m.log g.dev).outstanding + 1) * maxopblocks ≤ logsize
  | .write _ _ => Accepts (m.log g.dev) ∧ (m.log g.dev).lh.length < nbuf
  | .read dev b => (m.log g.dev).lh.length < nbuf ∧ b < d.nsecs dev
  | .endOp => (m.log g.dev).lh.length + 2 ≤ nbuf

lemma Running.room (h : Running g m d t) {n : Nat} (hn : n + (m.log g.dev).lh.length ≤ nbuf) :
    Room m n := by
  refine ⟨(m.log g.dev).lh.map fun b => (g.dev, b), fun k hk => ?_, by simpa [h.length] using hn⟩
  obtain ⟨b, hb, rfl⟩ := (h.collected.dirty k).mp hk
  exact ⟨List.mem_map.mpr ⟨b, hb, rfl⟩, Layout.key_ne b⟩

/-- The crash condition of a step. -/
def Promises (g : Layout) (d : Disk) (t t' : Tx) (x : Disk) : Prop :=
  x.nsecs = d.nsecs ∧ (Pending g x t.stable ∨ Pending g x t'.stable)

/-- Code of a step: at each write the card promises the stable state before the step or the one
after it, and the code returns if it has `Enough`. -/
def Performs (g : Layout) (x : K Unit) (op : LogOp) (m : Mem) (d : Disk) (t : Tx) : Prop :=
  Wp x m d (fun _ m' d' => d'.nsecs = d.nsecs ∧ Running g m' d' (t.step op))
    (Promises g d t (t.step op))
    fun _ => ¬ Enough g m d op

section

variable (h : Running g m d t)
include h

lemma Running.promises (t' : Tx) : Promises g d t t' d :=
  ⟨rfl, Or.inl h.pending⟩

/-- The count of operations is of no concern to the card. -/
lemma Running.setOutstanding (n : Int) :
    Running g (m.setLog g.dev { m.log g.dev with outstanding := n }) d
      { t with outstanding := n } where
  toQuiet := h.toQuiet.setLog _ _
  length := h.length
  mounted := h.mounted.setLog _ _ _
  committing := by simpa using h.committing
  outstanding := by simp
  collected := h.collected.setLog _ _
  header := h.header
  pending := h.pending
  view := h.view

/-- `begin_op` changes the count only. -/
lemma beginOpLog_wp : Performs g (beginOpLog g.dev) .beginOp m d t := by
  have hC := h.promises (t.step .beginOp)
  rw [Performs, beginOpLog, wp_bind, wp_get]
  refine ⟨hC, ?_⟩
  dsimp only
  rw [if_neg (by simp [h.mounted.enabled]), if_neg (by simp [h.committing])]
  split
  · next hfull =>
    rw [wp_stop]
    exact ⟨hC, Int.not_le.mpr hfull⟩
  · rw [wp_modify, h.outstanding]
    exact ⟨hC, rfl, h.setOutstanding _⟩

/-- `begin_op` and `end_op` walk over all logs; only the enabled one counts. -/
lemma logLoop_wp (body : Nat → K Unit) {op : LogOp}
    (hother : ∀ i m' d', (m'.log i).enabled = false → body i m' d' = ⟨[], .ok ((), m')⟩)
    (hself : Performs g (body g.dev) op m d t) : Performs g (Prog.loop body 0 nlog) op m d t := by
  refine wp_loop_only body g.dev_lt (A := fun m' d' => m' = m ∧ d' = d) ?_ ?_ ?_ ?_ ⟨rfl, rfl⟩
  · exact fun m' d' hB => ⟨hB.1, Or.inr hB.2.pending⟩
  · rintro i m' d' hi ⟨rfl, rfl⟩
    exact (wp_of_ok (hother i _ _ (h.mounted.others i hi))).mpr ⟨h.promises _, rfl, rfl⟩
  · intro i m' d' hi hB
    exact (wp_of_ok (hother i _ _ (hB.2.mounted.others i hi))).mpr
      ⟨⟨hB.1, Or.inr hB.2.pending⟩, hB⟩
  · rintro m' d' ⟨rfl, rfl⟩
    exact hself

lemma beginOp_wp : Performs g beginOp .beginOp m d t := by
  refine logLoop_wp h beginOpLog (fun i m' d' hen => ?_) (beginOpLog_wp h)
  simp [beginOpLog, Bind.bind, Prog.bind, Prog.get, pure, hen]

end

/-- After a commit the kernel runs on with the new state. -/
lemma Settled.running {S : Nat → Block} {m' : Mem} {d' : Disk} (h : Settled g m d S m' d')
    (hlen : m.head.length = nbuf) (hmt : Mounted g m) (hcom : (m.log g.dev).committing = false) :
    Running g m' d' ⟨(m.log g.dev).outstanding, S, S⟩ where
  toQuiet := h.toQuiet
  length := h.length.trans hlen
  mounted := hmt.of_log h.log h.others
  committing := by rw [h.log]; exact hcom
  outstanding := by rw [h.log]
  collected := by
    refine ⟨?_, ?_, ?_, fun k => ⟨fun hk => absurd hk (h.clean k), ?_⟩⟩ <;> rw [h.log]
    · exact g.size_pos
    · exact Nat.zero_le _
    · simp
    · simp
  header := h.header
  pending := h.pending
  view := fun b hb => by
    rw [h.view_clean (Layout.key_ne _) (h.clean _)]
    exact h.pending.home_eq h.header hb

/-- The commit of `end_op`. It runs with `committing` set, which it does not look at. -/
lemma commitRound_wp (h : Running g m d t) {t' : Tx} (ht' : t'.stable = t.current) : Wp (do
      Prog.modify fun m => m.setLog g.dev { m.log g.dev with committing := true }
      commit g.dev
      Prog.modify fun m => m.setLog g.dev { m.log g.dev with committing := false }) m d
      (fun _ m' d' => d'.nsecs = d.nsecs ∧ Running g m' d' ⟨t.outstanding, t.current, t.current⟩)
      (Promises g d t t') fun _ => ¬ Enough g m d .endOp := by
  rw [wp_bind, wp_modify, wp_bind]
  refine ⟨h.promises t', ?_⟩
  refine (commit_wp (C := Promises g d t t') (H := fun _ => ¬ Enough g m d .endOp)
    t.current (h.toQuiet.setLog _ _) (h.mounted.setLog _ _ _)
      (h.collected.setLog _ _) h.pending h.header h.view
    (fun d' hn hp => ?_) (fun hno _ hen => hno ?_)).imp fun _ m' d' hs => ?_
  · exact ⟨hn, ht'.symm ▸ hp⟩
  · exact h.room (by rw [Nat.add_comm]; exact hen)
  have hlog := hs.log
  simp only [Mem.setLog_self] at hlog
  rw [wp_modify]
  refine ⟨⟨hs.nsecs, Or.inr (ht'.symm ▸ hs.pending)⟩, hs.nsecs, ?_⟩
  have hs' : Settled g m d t.current
      (m'.setLog g.dev { m'.log g.dev with committing := false }) d' :=
    ⟨hs.toQuiet.setLog _ _, hs.length, hs.nsecs, by
      rw [Mem.setLog_self, hlog]
      simp [h.committing], fun i hi => by
      rw [Mem.setLog_of_ne hi, hs.others i hi, Mem.setLog_of_ne hi],
      hs.header, hs.pending, hs.clean⟩
  have hr := hs'.running h.length h.mounted h.committing
  rwa [h.outstanding] at hr

/-- `end_op` commits if it was the last operation. -/
lemma endOpLog_wp (h : Running g m d t) : Performs g (endOpLog g.dev) .endOp m d t := by
  have hC := h.promises (t.step .endOp)
  have h1 := h.setOutstanding (t.outstanding - 1)
  rw [Performs, endOpLog, wp_bind, wp_get]
  refine ⟨hC, ?_⟩
  dsimp only
  rw [if_neg (by simp [h.mounted.enabled]), wp_bind, wp_modify, if_neg (by simp [h.committing]),
    h.outstanding]
  refine ⟨hC, ?_⟩
  by_cases ho : t.outstanding - 1 = 0
  · have hstep : t.step .endOp = ⟨t.outstanding - 1, t.current, t.current⟩ := by
      rw [Tx.step, if_pos ho]
    rw [if_pos ho, hstep]
    refine (commitRound_wp h1 rfl).mono (fun _ _ _ h => h) (fun _ h => h) fun _ hno hen => hno ?_
    rw [Enough, Mem.setLog_self]
    exact hen
  · have hstep : t.step .endOp = { t with outstanding := t.outstanding - 1 } := by
      rw [Tx.step, if_neg ho]
    rw [if_neg ho, wp_pure, hstep]
    exact ⟨h.promises _, rfl, h1⟩

lemma endOp_wp (h : Running g m d t) : Performs g endOp .endOp m d t := by
  refine logLoop_wp h endOpLog (fun i m' d' hen => ?_) (endOpLog_wp h)
  simp [endOpLog, Bind.bind, Prog.bind, Prog.get, pure, hen]

/-- The header after a block was logged lists it and what it listed before. -/
lemma mem_absorb (lh : List Nat) (b x : Nat) : x ∈ absorb lh b ↔ x = b ∨ x ∈ lh := by
  rw [absorb]
  split
  · next h => exact ⟨Or.inr, fun h' => h'.elim (fun e => e ▸ h) id⟩
  · simp [or_comm]

lemma length_absorb (lh : List Nat) (b : Nat) : (absorb lh b).length ≤ lh.length + 1 := by
  rw [absorb]
  split <;> simp

/-- A write of an operation: in the cache and in the header, not on the card. -/
lemma write_wp (h : Running g m d t) {b : Nat} (f : Block → Block) (hb : g.Home d b) :
    Performs g (perform g.dev (.write b f)) (.write b f) m d t := by
  refine h.toQuiet.change_wp (k := (g.dev, b)) (Layout.key_ne b) (notHeld_nil _ _)
    h.mounted.active f (h.promises _) (fun m' hm => ⟨rfl, ?_⟩) fun hno _ hen =>
      hno ⟨h.room (by rw [Nat.add_comm]; exact hen.2), hb.2, hen.1⟩
  have hlog : m'.log g.dev = { m.log g.dev with lh := absorb (m.log g.dev).lh b } := by
    rw [hm.log, loggedLog, Mem.setLog_self]
  obtain ⟨hsmall, hsize, -⟩ := hm.accepts
  have hlen := length_absorb (m.log g.dev).lh b
  refine ⟨hm.toQuiet, hm.length.trans h.length, h.mounted.of_log hlog fun i hi => ?_, ?_, ?_,
    ⟨?_, ?_, ?_, ?_⟩, h.header, h.pending, ?_⟩
  · rw [hm.log, loggedLog, Mem.setLog_of_ne hi]
  · rw [hlog]
    exact h.committing
  · rw [hlog]
    exact h.outstanding
  · rw [hlog]
    have := h.mounted.size
    dsimp only at hsize ⊢
    omega
  · rw [hlog]
    dsimp only at hsmall ⊢
    omega
  · rw [hlog]
    intro x hx
    rcases (mem_absorb _ _ _).mp hx with rfl | hx
    · exact hb
    · exact h.collected.home x hx
  · intro k
    rw [hm.dirty, h.collected.dirty, hlog]
    simp only [mem_absorb]
    constructor
    · rintro (rfl | ⟨x, hx, rfl⟩)
      · exact ⟨b, Or.inl rfl, rfl⟩
      · exact ⟨x, Or.inr hx, rfl⟩
    rintro ⟨x, rfl | hx, rfl⟩
    · exact Or.inl rfl
    · exact Or.inr ⟨x, hx, rfl⟩
  · intro x hx
    rw [hm.view _ (Layout.key_ne x), h.view x hx, h.view b hb.1]
    simp only [Tx.step, Prod.mk.injEq, true_and]

/-- A read changes nothing that can be seen. -/
lemma read_wp (h : Running g m d t) {dev b : Nat} (hn : (dev, b) ≠ nullKey) :
    Performs g (perform g.dev (.read dev b)) (.read dev b) m d t := by
  refine h.toQuiet.look_wp (k := (dev, b)) hn (notHeld_nil _ _) (h.promises _)
    (fun m' hm => ⟨rfl, ?_⟩)
    fun hno _ hen => hno ⟨h.room (by rw [Nat.add_comm]; exact hen.1), hen.2⟩
  have hlog := hm.log
  refine ⟨hm.toQuiet, hm.length.trans h.length,
    h.mounted.congr hlog, by rw [hlog]; exact h.committing,
    by rw [hlog]; exact h.outstanding, ?_, h.header, h.pending, fun x hx => ?_⟩
  · obtain ⟨hlength, hsmall, hhome, hdirty⟩ := h.collected
    rw [← hlog] at hlength hsmall hhome hdirty
    exact ⟨hlength, hsmall, hhome, fun k => (hm.dirty k).trans (hdirty k)⟩
  · rw [hm.view _ (Layout.key_ne x)]
    exact h.view x hx

/-- **One step of the kernel** keeps the relation. -/
theorem perform_wp (h : Running g m d t) {op : LogOp} (hop : op.Legal g d) :
    Performs g (perform g.dev op) op m d t := by
  cases op with
  | beginOp => exact beginOp_wp h
  | write b f => exact write_wp h f hop
  | read dev b => exact read_wp h hop
  | endOp => exact endOp_wp h

/-! ## Runs and crashes -/

variable {S : Nat → Block}

/-- The program returns, and by then the card has seen at most `k` writes. -/
def Returned (prog : K Unit) (m : Mem) (d : Disk) (k : Nat) : Prop :=
  (∃ m', (prog m d).result = .ok ((), m')) ∧ (prog m d).writes.length ≤ k

/-- **What the card promises after a crash in a run**: the stable state after the first `n` steps,
where `n` counts at least the steps that had returned. -/
theorem crash_promises (h : Running g m d t) (ops : List LogOp) (hops : ∀ op ∈ ops, op.Legal g d)
    (k : Nat) :
    ∃ n ≤ ops.length, Pending g (applyAll d ((performAll g.dev ops m d).writes.take k))
        (t.run (ops.take n)).stable ∧
      ∀ n0 ≤ ops.length, Returned (performAll g.dev (ops.take n0)) m d k → n0 ≤ n := by
  induction ops generalizing m d t k with
  | nil =>
    refine ⟨0, Nat.le_refl 0, ?_, fun n0 hn0 _ => hn0⟩
    simpa [performAll, pure, Tx.run] using h.pending
  | cons op ops ih => ?_
  have hwp := perform_wp h (hops op List.mem_cons_self)
  -- a crash inside the first step leaves the state before or after it
  have hinside : (∀ n0 ≤ (op :: ops).length,
        Returned (performAll g.dev ((op :: ops).take n0)) m d k → n0 = 0) →
      (performAll g.dev (op :: ops) m d).writes.take k = (perform g.dev op m d).writes.take k →
      ∃ n ≤ (op :: ops).length,
        Pending g (applyAll d ((performAll g.dev (op :: ops) m d).writes.take k))
          (t.run ((op :: ops).take n)).stable ∧
        ∀ n0 ≤ (op :: ops).length,
          Returned (performAll g.dev ((op :: ops).take n0)) m d k → n0 ≤ n := by
    intro hno htake
    rw [htake]
    rcases (hwp.crash k).2 with hp | hp
    · exact ⟨0, Nat.zero_le _, hp, fun n0 hn hr => Nat.le_of_eq (hno n0 hn hr)⟩
    · exact ⟨1, by simp, hp, fun n0 hn hr => by have := hno n0 hn hr; omega⟩
  cases hr : (perform g.dev op m d).result with
  | error e =>
    refine hinside ?_ ?_
    · rintro (_ | n0) - ⟨⟨m', hm'⟩, -⟩
      · rfl
      · rw [List.take_succ_cons, performAll, bind_of_error _ hr] at hm'
        exact absurd hm' (by simp)
    · rw [performAll, bind_of_error _ hr]
  | ok r =>
    obtain ⟨⟨⟩, m1⟩ := r
    have hcons : ∀ os : List LogOp, performAll g.dev (op :: os) m d =
        ⟨(perform g.dev op m d).writes ++
            (performAll g.dev os m1 (applyAll d (perform g.dev op m d).writes)).writes,
          (performAll g.dev os m1 (applyAll d (perform g.dev op m d).writes)).result⟩ := by
      intro os
      rw [performAll, bind_of_ok _ hr]
    by_cases hk : k < (perform g.dev op m d).writes.length
    · refine hinside ?_ ?_
      · rintro (_ | n0) - ⟨-, hlen⟩
        · rfl
        rw [List.take_succ_cons, hcons] at hlen
        simp only [List.length_append] at hlen
        omega
      · rw [hcons, List.take_append_of_le_length (by omega)]
    · -- the first step had returned: go on with the rest
      obtain ⟨j, rfl⟩ := Nat.exists_eq_add_of_le (Nat.le_of_not_lt hk)
      obtain ⟨hn, hrun⟩ := hwp.post hr
      obtain ⟨n, hle, hp, hret⟩ := ih hrun
        (fun op' hop' => (hops op' (List.mem_cons_of_mem _ hop')).congr hn) j
      refine ⟨n + 1, by simpa using hle, ?_, ?_⟩
      · rw [hcons, List.take_length_add_append, applyAll_append]
        exact hp
      rintro (_ | n0) hn0 hr0
      · exact Nat.zero_le _
      obtain ⟨⟨m', hm'⟩, hlen⟩ := hr0
      rw [List.take_succ_cons, hcons] at hm' hlen
      simp only [List.length_append] at hlen
      exact Nat.succ_le_succ (hret n0 (by simpa using hn0) ⟨⟨m', hm'⟩, by omega⟩)

/-- Boot, then run. -/
def life (g : Layout) (ops : List LogOp) : K Unit := do
  initlog g.dev g.start g.size
  performAll g.dev ops

/-- The cards that any number of interrupted boots can leave. -/
inductive Rebooted (g : Layout) (d : Disk) : Disk → Prop
  | none : Rebooted g d d
  | crash {d' : Disk} (h : Rebooted g d d') (k : Nat) :
      Rebooted g d (applyAll d' ((initlog g.dev g.start g.size Mem.boot d').writes.take k))

lemma Pending.rebooted {d' : Disk} (hp : Pending g d S) (h : Rebooted g d d') : Pending g d' S := by
  induction h with
  | none => exact hp
  | crash _ k ih => exact ((initlog_wp ih).crash k).2

/-- The card after an uninterrupted boot. -/
def recovered (g : Layout) (d : Disk) : Disk :=
  applyAll d (initlog g.dev g.start g.size Mem.boot d).writes

lemma boot_running (hp : Pending g d S) :
    ∃ m1, (initlog g.dev g.start g.size Mem.boot d).result = .ok ((), m1) ∧
      Settled g (bootLog g) d S m1 (recovered g d) ∧ Running g m1 (recovered g d) (Tx.init S) := by
  obtain ⟨⟨⟩, m1, hres, hs⟩ := (initlog_wp hp).returns fun _ h => h
  have hr := hs.running (by simp [bootLog, Mem.boot]) (bootLog_mounted g)
    (by simp [bootLog, Mem.boot])
  have hout : ((bootLog g).log g.dev).outstanding = 0 := by simp [bootLog, Mem.boot]
  rw [hout] at hr
  exact ⟨m1, hres, hs, hr⟩

/-- At every write of a life the card promises the state after some number of the steps, and at
least of those that have returned. -/
lemma life_promises {S₀ : Nat → Block} (hp : Pending g d S₀) (ops : List LogOp)
    (hops : ∀ op ∈ ops, op.Legal g d) (k : Nat) :
    ∃ n ≤ ops.length,
      (∀ n0 ≤ ops.length, Returned (life g (ops.take n0)) Mem.boot d k → n0 ≤ n) ∧
      Pending g (applyAll d ((life g ops Mem.boot d).writes.take k))
        ((Tx.init S₀).run (ops.take n)).stable := by
  obtain ⟨m1, hres, hs, hrun⟩ := boot_running hp
  have hlife : ∀ os : List LogOp, life g os Mem.boot d =
      ⟨(initlog g.dev g.start g.size Mem.boot d).writes ++
          (performAll g.dev os m1 (recovered g d)).writes,
        (performAll g.dev os m1 (recovered g d)).result⟩ := fun os =>
    bind_of_ok (fun _ => performAll g.dev os) hres
  by_cases hk : k < (initlog g.dev g.start g.size Mem.boot d).writes.length
  · refine ⟨0, Nat.zero_le _, fun n0 _ hr => ?_, ?_⟩
    · have hlen := hr.2
      rw [hlife] at hlen
      simp only [List.length_append] at hlen
      omega
    · rw [hlife, List.take_append_of_le_length (by omega)]
      exact ((initlog_wp hp).crash k).2
  · obtain ⟨j, rfl⟩ := Nat.exists_eq_add_of_le (Nat.le_of_not_lt hk)
    obtain ⟨n, hle, hpend, hret⟩ := crash_promises hrun ops
      (fun op hop => (hops op hop).congr hs.nsecs) j
    refine ⟨n, hle, fun n0 hn0 hr => ?_, ?_⟩
    · obtain ⟨⟨m', hm'⟩, hlen⟩ := hr
      rw [hlife] at hm' hlen
      simp only [List.length_append] at hlen
      exact hret n0 hn0 ⟨⟨m', hm'⟩, by omega⟩
    · rw [hlife, List.take_length_add_append, applyAll_append]
      exact hpend

/-- **Crash atomicity of the redo log.** Boot from a card that promises `S₀`, run any steps, crash
after any number of device writes, boot again with any number of crashes on the way: the last boot
returns, with an empty log, and every home block holds its contents after the transactions that the
first `n` steps committed, all of each, where `n` counts at least the steps that had returned before
the crash. -/
theorem crash_recovery_atomic (g : Layout) (d₀ : Disk) (S₀ : Nat → Block) (hp : Pending g d₀ S₀)
    (ops : List LogOp) (hops : ∀ op ∈ ops, op.Legal g d₀) (k : Nat) (d : Disk)
    (hd : Rebooted g (applyAll d₀ ((life g ops Mem.boot d₀).writes.take k)) d) :
    ∃ n ≤ ops.length,
      (∀ n₀ ≤ ops.length, Returned (life g (ops.take n₀)) Mem.boot d₀ k → n₀ ≤ n) ∧
      ∃ m', (initlog g.dev g.start g.size Mem.boot d).result = .ok ((), m') ∧
        g.header (recovered g d) = [] ∧ ∀ b, ¬ g.InLog b →
          (recovered g d).block g.dev b = ((Tx.init S₀).run (ops.take n)).stable b := by
  obtain ⟨n, hle, hret, hpend⟩ := life_promises hp ops hops k
  obtain ⟨m', hres, hs, -⟩ := boot_running (hpend.rebooted hd)
  exact ⟨n, hle, hret, m', hres, hs.header, fun b hb => hs.pending.home_eq hs.header hb⟩

/-- A log of ten blocks at block 2 of device 1. -/
def smallLog : Layout := ⟨1, 2, 10, Nat.one_ne_zero, one_lt_nlog, by decide⟩

/-- A card of zeros. -/
def blankDisk : Disk := ⟨fun _ => 1000, fun _ _ => zeroBytes⟩

/-- One transaction that writes 7 into block 20. -/
def oneWrite : List LogOp := [.beginOp, .write 20 fun b => setWord b 0 7, .endOp]

/-- The run of `oneWrite` is five device writes; after a crash right behind them the write is
there. -/
theorem oneWrite_survives :
    (life smallLog oneWrite Mem.boot blankDisk).writes.map DevWrite.blockno = [2, 3, 2, 20, 2] ∧
      (recovered smallLog (applyAll blankDisk
        ((life smallLog oneWrite Mem.boot blankDisk).writes.take 5))).block smallLog.dev 20 =
        setWord zeroBytes 0 7 := by
  have hp : Pending smallLog blankDisk fun _ => zeroBytes :=
    pending_of_nil ⟨by decide, by decide⟩ (by decide +kernel) fun _ _ => rfl
  have hlegal : ∀ op ∈ oneWrite, op.Legal smallLog blankDisk := by
    have hhome : smallLog.Home blankDisk 20 := ⟨by decide, by decide⟩
    simp [oneWrite, LogOp.Legal, hhome]
  have hret : Returned (life smallLog (oneWrite.take 3)) Mem.boot blankDisk 5 := by
    obtain ⟨_, m', hrun, -⟩ := Prog.exists_of_any (p := fun _ _ => True)
      (r := (life smallLog (oneWrite.take 3) Mem.boot blankDisk).result) (by decide +kernel)
    exact ⟨⟨m', hrun⟩, by decide +kernel⟩
  refine ⟨by decide +kernel, ?_⟩
  obtain ⟨n, hle, hall, -, -, -, hhome⟩ := crash_recovery_atomic smallLog blankDisk
    (fun _ => zeroBytes) hp oneWrite hlegal 5 _ .none
  have hn : n = 3 := Nat.le_antisymm hle (hall 3 (Nat.le_refl 3) hret)
  subst hn
  exact hhome 20 (by decide)

end RpiOs.RedoLog
