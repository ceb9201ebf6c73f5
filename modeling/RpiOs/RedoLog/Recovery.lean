import RpiOs.RedoLog.Commit

/-!
# Recovery

Recovery reads the header, installs the blocks it lists and clears it. From any card that promises
contents `S` (`Pending`) it returns, and at every write on the way the card promises `S` still, so a
recovery that is itself interrupted can simply be started again.
-/

namespace RpiOs.RedoLog

open Lib Kernel Bio

variable {g : Layout} {m : Mem} {d : Disk} {S : Nat → Block} {m' : Mem} {d' : Disk}

/-- The invariant of the loop of `recover_from_log`, with `i` logs visited. -/
structure Recovering (g : Layout) (m : Mem) (d : Disk) (S : Nat → Block) (i : Nat) (m' : Mem)
    (d' : Disk) : Prop extends Quiet unused [] m' d' where
  length : m'.head.length = m.head.length
  nsecs : d'.nsecs = d.nsecs
  pending : Pending g d' S
  clean : ∀ k, ¬ Dirty m' k
  log : m'.log g.dev = { m.log g.dev with lh := (m'.log g.dev).lh }
  others : ∀ j, j ≠ g.dev → (m'.log j).enabled = (m.log j).enabled
  done : g.dev < i → g.header d' = [] ∧ (m'.log g.dev).lh = []

lemma Recovering.mounted {i : Nat} (h : Recovering g m d S i m' d')
    (hmt : Mounted g m) : Mounted g m' := hmt.of_log h.log h.others

/-- The rounds for the logs that are not enabled only clear their in-memory header. -/
lemma recoverLog_other_wp (hmt : Mounted g m) {i : Nat} (hi : i ≠ g.dev)
    (h : Recovering g m d S i m' d') {C : Disk → Prop} {H : Stop → Prop} (hC : C d') :
    Wp (recoverLog i) m' d' (fun _ => Recovering g m d S (i + 1)) C H := by
  have hno : ¬ Active m' i := fun ha => by
    have := (h.mounted hmt).others i hi
    rw [ha.2] at this
    exact absurd this.symm Bool.false_ne_true
  have hno' : ¬ Active (m'.setLog i { m'.log i with lh := [] }) i := by
    rintro ⟨h1, h2⟩
    exact hno ⟨h1, by simpa using h2⟩
  simp only [recoverLog, readHead, installTrans, clearHead, writeHead, wp_bind, wp_get, if_neg hno,
    if_neg hno', wp_pure, wp_modify]
  refine ⟨hC, hC, hC, hC, hC, hC, hC, (h.toQuiet.setLog _ _), h.length, h.nsecs, h.pending,
    h.clean, ?_, ?_, ?_⟩
  · rw [Mem.setLog_of_ne hi.symm]
    exact h.log
  · intro j hj
    by_cases hji : j = i
    · subst hji
      simpa using h.others j hj
    · rw [Mem.setLog_of_ne hji]
      exact h.others j hj
  · intro hlt
    rw [Mem.setLog_of_ne hi.symm]
    exact h.done (by omega)

/-- The recovery of the log that has a transaction. -/
lemma recoverLog_self_wp (hmt : Mounted g m) (hlen : 2 ≤ m.head.length)
    (h : Recovering g m d S g.dev m' d') :
    Wp (recoverLog g.dev) m' d' (fun _ => Recovering g m d S (g.dev + 1))
      (fun x => x.nsecs = d.nsecs ∧ Pending g x S) ⊥ := by
  have hm' := h.mounted hmt
  have hlt : g.start < d'.nsecs g.dev := by
    have := h.pending.on.1
    have := g.size_pos
    omega
  have hroom : ∀ x : Mem, (∀ k, ¬ Dirty x k) → x.head.length = m.head.length → ∀ n ≤ 2, Room x n :=
    fun x hx hl n hn => ⟨[], fun k hk => absurd hk (hx k), by simp [hl]; omega⟩
  rw [recoverLog, wp_bind, readHead, wp_bind, wp_get, if_pos hm'.active, hm'.dev, hm'.start]
  refine ⟨⟨h.nsecs, h.pending⟩, h.toQuiet.peek_wp (k := (g.dev, g.start)) (Layout.key_ne _)
    (notHeld_nil _ _) g.dev
    (fun m x => { m.log g.dev with lh := decodeHead x }) ⟨h.nsecs, h.pending⟩
    (fun m1 x hl => by rw [hl]) (fun m1 hpk => ?_)
    fun hno => absurd ⟨hroom m' h.clean h.length 1 (by omega), hlt⟩ hno⟩
  have hview : view m' d' (g.dev, g.start) = d'.block g.dev g.start :=
    h.view_clean (Layout.key_ne _) (h.clean _)
  have hlog1 : m1.log = (m'.setLog g.dev { m'.log g.dev with lh := g.header d' }).log := by
    rw [hpk.log, hview]
    rfl
  have hlh : m1.log g.dev = { m'.log g.dev with lh := g.header d' } := by
    rw [hlog1, Mem.setLog_self]
  have hmt1 : Mounted g m1 := hm'.of_log hlh fun j hj => by rw [hlog1, Mem.setLog_of_ne hj]
  have hcl1 : ∀ k, ¬ Dirty m1 k := fun k hk => h.clean k ((hpk.dirty k).mp hk)
  refine (installClear_wp hpk.toQuiet hmt1 h.pending (by rw [hlh]) (fun k hk => absurd hk (hcl1 k))
    (fun x hx hp => ⟨hx.trans h.nsecs, hp⟩)
    fun hno => absurd (hroom m1 hcl1 (hpk.length.trans h.length) 2 (Nat.le_refl 2)) hno).imp
      fun _ m2 d2 hs => ?_
  refine ⟨hs.toQuiet, hs.length.trans (hpk.length.trans h.length), hs.nsecs.trans h.nsecs,
    hs.pending, hs.clean, ?_, ?_, fun _ => ⟨hs.header, by rw [hs.log]⟩⟩
  · rw [hs.log, hlh, h.log]
  intro j hj
  rw [hs.others j hj, hlog1, Mem.setLog_of_ne hj]
  exact h.others j hj

/-- **Recovery** never stops; at every write the card promises the same contents, and at the end the
home blocks hold them and the log is empty. -/
theorem recoverFromLog_wp (hq : Quiet unused [] m d) (hmt : Mounted g m) (hp : Pending g d S)
    (hclean : ∀ k, ¬ Dirty m k) (hlen : 2 ≤ m.head.length) :
    Wp recoverFromLog m d (fun _ => Settled g m d S)
      (fun x => x.nsecs = d.nsecs ∧ Pending g x S) ⊥ := by
  have h0 : Recovering g m d S 0 m d :=
    ⟨hq, rfl, rfl, hp, hclean, rfl, fun _ _ => rfl, fun h => absurd h (Nat.not_lt_zero _)⟩
  have hloop := wp_loop (v := m) (d := d) (C := fun x => x.nsecs = d.nsecs ∧ Pending g x S)
    (H := fun _ => False) recoverLog (Recovering g m d S) 0 nlog
    (fun _ d' h => ⟨h.nsecs, h.pending⟩)
    (fun i m' d' _ _ h => by
      by_cases hi : i = g.dev
      · subst hi
        exact recoverLog_self_wp hmt hlen h
      · exact recoverLog_other_wp hmt hi h ⟨h.nsecs, h.pending⟩) h0
  refine hloop.imp fun _ m' d' h => ?_
  obtain ⟨hh, hlh⟩ := h.done (by rw [Nat.zero_add]; exact g.dev_lt)
  exact ⟨h.toQuiet, h.length, h.nsecs, by rw [h.log, hlh], h.others, hh, h.pending, h.clean⟩

/-- At boot no buffer is in use or dirty. -/
lemma quiet_boot (d : Disk) : Quiet unused [] Mem.boot d ∧ ∀ k, ¬ Dirty Mem.boot k := by
  refine ⟨⟨⟨rfl, List.nodup_range, ?_, ?_, ?_⟩, ?_, ?_⟩, ?_⟩
  · intro i _ j _ _ hn
    exact absurd rfl hn
  · intro i _ _ hv
    exact absurd hv Bool.false_ne_true
  · intro i _ hd
    exact absurd hd Bool.false_ne_true
  · intro i _ hb
    exact absurd hb Bool.false_ne_true
  · simp
  · rintro k ⟨i, -, -, hd⟩
    exact absurd hd Bool.false_ne_true

/-- The memory `initlog` starts the recovery with. -/
def bootLog (g : Layout) : Mem := Mem.boot.setLog g.dev
  { Mem.boot.log g.dev with start := g.start, size := g.size, dev := g.dev, enabled := true }

lemma bootLog_mounted (g : Layout) : Mounted g (bootLog g) := by
  refine ⟨by simp [bootLog], by simp [bootLog], by simp [bootLog], by simp [bootLog], ?_⟩
  intro i hi
  rw [bootLog, Mem.setLog_of_ne hi]
  rfl

/-- **Booting recovers.** -/
theorem initlog_wp (hp : Pending g d S) :
    Wp (initlog g.dev g.start g.size) Mem.boot d (fun _ => Settled g (bootLog g) d S)
      (fun x => x.nsecs = d.nsecs ∧ Pending g x S) ⊥ := by
  obtain ⟨hq, hcl⟩ := quiet_boot d
  rw [initlog, wp_bind, wp_modify]
  exact ⟨⟨rfl, hp⟩, recoverFromLog_wp (hq.setLog _ _) (bootLog_mounted g) hp hcl
    (by simp [Mem.boot, nbuf, maxopblocks])⟩

end RpiOs.RedoLog
