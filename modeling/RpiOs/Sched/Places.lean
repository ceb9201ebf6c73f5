import RpiOs.Sched.Table

/-!
# Every process has one place

The invariant of the process table. Every entry has a role (`Role`): unused, being forked, idle
process of a CPU, on the run queue, asleep in a bucket, current on a CPU, or a zombie. The lists
and the CPUs are determined by the roles, so a process cannot be in two places; an action changes
the role of one process and moves one node.
-/

namespace RpiOs.Sched

open Lib Function

/-- What an entry of the process table is used for. -/
inductive Role
  | unused
  | embryo (c : Nat)
  | idle (c : Nat)
  | ready
  | asleep (i : Nat)
  | current (c : Nat)
  | zombie
  deriving DecidableEq

/-- Made schedulable and not exited. -/
def Role.live : Role → Bool
  | .ready | .asleep _ | .current _ => true
  | _ => false

/-- The states that an entry may show in each role. A process that was forked, or that another one
made ready, is executed without its state being set. -/
def Role.Shows (r : Role) (p : Proc) : Prop :=
  match r with
  | .unused => p.state = .unused
  | .embryo _ => p.state = .embryo
  | .idle _ | .current _ => p.state ≠ .unused ∧ p.state ≠ .zombie
  | .ready => p.state ≠ .unused ∧ p.state ≠ .zombie ∧ p.state ≠ .sleeping
  | .asleep i => p.state = .sleeping ∧ i = hash p.chan
  | .zombie => p.state = .zombie

/-- The lists as lists of processes. -/
structure View where
  run : List Nat
  slp : Nat → List Nat
  kids : Nat → List Nat

/-- The nodes on the list of a head. -/
def View.nodes (V : View) : Node → List Node
  | .schedQue => V.run.map .link
  | .slpque i => (V.slp i).map .link
  | .child p => (V.kids p).map .clink
  | _ => []

/-- The nodes that are heads of lists. -/
def Head (ρ : Nat → Role) : Node → Prop
  | .schedQue => True
  | .slpque i => i < sqsize
  | .child p => ρ p ≠ .unused
  | _ => False

/-- Where the system shows a process that has the role `r`. -/
structure Entry (s : Sys) (V : View) (p : Nat) (r : Role) : Prop where
  run : p ∈ V.run ↔ r = .ready
  slp : ∀ i < sqsize, p ∈ V.slp i ↔ r = .asleep i
  shows : r.Shows (s.proc p)
  live : s.live p = r.live
  current : ∀ c, (s.cpu c).proc = some p ∧ p ≠ s.idle c ↔ r = .current c
  idle : ∀ c, s.cpu c ≠ .off ∧ p = s.idle c ↔ r = .idle c
  embryo : ∀ c, (∃ cp, s.cpu c = .forking cp p) ↔ r = .embryo c

/-- At most one CPU holds `ptable.lock`, and then the lock is taken. -/
structure OneHolder (s : Sys) : Prop where
  lock : ∀ c, (s.cpu c).locks = true → s.lock = true
  unique : ∀ c c', (s.cpu c).locks = true → (s.cpu c').locks = true → c = c'

/-- **The invariant**. -/
structure Inv (s : Sys) (V : View) (ρ : Nat → Role) : Prop where
  rings : Rings s.links (Head ρ) V.nodes
  entry : ∀ p, Entry s V p (ρ p)
  bound : ∀ p, ρ p ≠ .unused → p < nproc
  kid : ∀ q p, ρ q ≠ .unused → p ∈ V.kids q →
    (s.proc p).parent = some q ∧ ((ρ p).live = true ∨ ρ p = .zombie)
  init : ∀ ip, s.initproc = some ip → (ρ ip).live = true
  holder : OneHolder s

/-- The system shows `p` where it did. -/
structure Same (s : Sys) (V : View) (s' : Sys) (V' : View) (p : Nat) : Prop where
  run : p ∈ V'.run ↔ p ∈ V.run
  slp : ∀ i < sqsize, p ∈ V'.slp i ↔ p ∈ V.slp i
  state : (s'.proc p).state = (s.proc p).state
  chan : (s'.proc p).chan = (s.proc p).chan
  live : s'.live p = s.live p
  current : ∀ c, (s'.cpu c).proc = some p ∧ p ≠ s'.idle c ↔ (s.cpu c).proc = some p ∧ p ≠ s.idle c
  idle : ∀ c, s'.cpu c ≠ .off ∧ p = s'.idle c ↔ s.cpu c ≠ .off ∧ p = s.idle c
  embryo : ∀ c, (∃ cp, s'.cpu c = .forking cp p) ↔ ∃ cp, s.cpu c = .forking cp p

lemma Role.Shows.congr {r : Role} {p p' : Proc} (h : r.Shows p) (hs : p'.state = p.state)
    (hc : p'.chan = p.chan) : r.Shows p' := by
  cases r <;> simpa [Role.Shows, hs, hc] using h

lemma Entry.congr {s s' : Sys} {V V' : View} {p : Nat} {r : Role} (h : Entry s V p r)
    (hs : Same s V s' V' p) : Entry s' V' p r where
  run := hs.run.trans h.run
  slp i hi := (hs.slp i hi).trans (h.slp i hi)
  shows := h.shows.congr hs.state hs.chan
  live := hs.live.trans h.live
  current c := (hs.current c).trans (h.current c)
  idle c := (hs.idle c).trans (h.idle c)
  embryo c := (hs.embryo c).trans (h.embryo c)

/-! ## The lists after a change -/

variable {s : Sys} {V : View} {ρ : Nat → Role} {p q i : Nat} {r : Role}

@[simps] def View.setRun (V : View) (xs : List Nat) : View := { V with run := xs }

@[simps] def View.setSlp (V : View) (i : Nat) (xs : List Nat) : View :=
  { V with slp := update V.slp i xs }

@[simps] def View.setKids (V : View) (q : Nat) (xs : List Nat) : View :=
  { V with kids := update V.kids q xs }

lemma View.nodes_setRun (V : View) (xs : List Nat) :
    (V.setRun xs).nodes = update V.nodes .schedQue (xs.map .link) := by
  funext n
  cases n <;> simp [View.nodes, View.setRun]

lemma View.nodes_setSlp (V : View) (i : Nat) (xs : List Nat) :
    (V.setSlp i xs).nodes = update V.nodes (.slpque i) (xs.map .link) := by
  funext n
  cases n with
  | slpque j =>
    by_cases h : j = i <;> simp [View.nodes, View.setSlp, h]
  | _ => simp [View.nodes, View.setSlp]

lemma View.nodes_setKids (V : View) (q : Nat) (xs : List Nat) :
    (V.setKids q xs).nodes = update V.nodes (.child q) (xs.map .clink) := by
  funext n
  cases n with
  | child j =>
    by_cases h : j = q <;> simp [View.nodes, View.setKids, h]
  | _ => simp [View.nodes, View.setKids]

/-- The `link` of a process that neither waits for a CPU nor sleeps is on no list. -/
lemma Inv.link_free (h : Inv s V ρ) (hr : ρ p ≠ .ready) (ha : ∀ i, ρ p ≠ .asleep i) (n : Node)
    (hn : Head ρ n) : .link p ∉ V.nodes n := by
  cases n with
  | schedQue =>
    simp only [View.nodes, List.mem_map, Node.link.injEq, exists_eq_right]
    exact fun hp => hr ((h.entry p).run.mp hp)
  | slpque i =>
    simp only [View.nodes, List.mem_map, Node.link.injEq, exists_eq_right]
    exact fun hp => ha i (((h.entry p).slp i hn).mp hp)
  | _ => simp [View.nodes]

/-- The `clink` of an entry that is neither live nor a zombie is on no list. -/
lemma Inv.clink_free (h : Inv s V ρ) (hl : (ρ p).live = false) (hz : ρ p ≠ .zombie) (n : Node)
    (hn : Head ρ n) : .clink p ∉ V.nodes n := by
  cases n with
  | child q =>
    simp only [View.nodes, List.mem_map, Node.clink.injEq, exists_eq_right]
    intro hp
    rcases (h.kid q p hn hp).2 with h' | h'
    · rw [hl] at h'
      cases h'
    · exact hz h'
  | _ => simp [View.nodes]

lemma head_update (hp : ρ p ≠ .unused) (hr : r ≠ .unused) :
    Head (update ρ p r) = Head ρ := by
  funext n
  cases n with
  | child q => by_cases hq : q = p <;> simp [Head, hq, hp, hr]
  | _ => rfl

lemma Inv.push_slp (h : Inv s V ρ) (hr : ρ p ≠ .ready) (ha : ∀ i, ρ p ≠ .asleep i)
    (hi : i < sqsize) :
    Rings (s.links.pushBack (.slpque i) (.link p)) (Head ρ)
      (V.setSlp i (V.slp i ++ [p])).nodes := by
  rw [View.nodes_setSlp, List.map_append]
  exact h.rings.pushBack (.slpque i) (.link p) hi not_false (h.link_free hr ha)

lemma Inv.nodup_run (h : Inv s V ρ) : V.run.Nodup :=
  List.Nodup.of_map _ (h.rings.nodup .schedQue trivial)

lemma Inv.nodup_slp (h : Inv s V ρ) (hi : i < sqsize) : (V.slp i).Nodup :=
  List.Nodup.of_map _ (h.rings.nodup (.slpque i) hi)

lemma Inv.nodup_kids (h : Inv s V ρ) (hq : ρ q ≠ .unused) : (V.kids q).Nodup :=
  List.Nodup.of_map _ (h.rings.nodup (.child q) hq)

/-- The lists after a process was moved from a sleep bucket to the run queue. -/
lemma Inv.wake_rings (h : Inv s V ρ) (hi : i < sqsize) (hp : p ∈ V.slp i) :
    Rings ((s.links.drop (.link p)).pushBack .schedQue (.link p)) (Head ρ)
      ((V.setSlp i ((V.slp i).erase p)).setRun (V.run ++ [p])).nodes := by
  have hdrop := h.rings.drop (.slpque i) (.link p) hi (List.mem_map_of_mem hp)
  have hnodes : update V.nodes (.slpque i) ((V.nodes (.slpque i)).erase (.link p)) =
      (V.setSlp i ((V.slp i).erase p)).nodes := by
    rw [View.nodes_setSlp, List.map_erase fun _ _ e => Node.link.inj e]
    rfl
  rw [hnodes] at hdrop
  have hpush := hdrop.pushBack .schedQue (.link p) trivial not_false fun n hn => ?_
  · rw [View.nodes_setRun]
    simpa [View.nodes, View.setSlp] using hpush
  cases n with
  | schedQue =>
    have := ((h.entry p).slp i hi).mp hp
    simp only [View.nodes, View.setSlp, List.mem_map, Node.link.injEq, exists_eq_right]
    rw [(h.entry p).run, this]
    simp
  | slpque j =>
    simp only [View.nodes, View.setSlp, List.mem_map, Node.link.injEq, exists_eq_right]
    by_cases hj : j = i
    · subst hj
      rw [update_self]
      exact (h.nodup_slp hi).not_mem_erase
    · rw [update_of_ne hj, (h.entry p).slp j hn, ((h.entry p).slp i hi).mp hp]
      simpa using Ne.symm hj
  | _ => simp [View.nodes]

/-! ## Changes of role -/

variable {s' : Sys} {V' : View} {c : Nat} {r₀ : Role} {k k' : Cpu}

/-- The CPU that a role belongs to. -/
@[simp] def Role.cpu : Role → Option Nat
  | .embryo c | .idle c | .current c => some c
  | _ => none

/-- What CPU `c` shows of a process in the role `r`, in the mode `k` and with the idle process
`i`. -/
structure Cpu.Shows (k : Cpu) (c i p : Nat) (r : Role) : Prop where
  current : k.proc = some p ∧ p ≠ i ↔ r = .current c
  idle : k ≠ .off ∧ p = i ↔ r = .idle c
  embryo : (∃ cp, k = .forking cp p) ↔ r = .embryo c

lemma Entry.cpu (h : Entry s V p r) (c : Nat) : (s.cpu c).Shows c (s.idle c) p r :=
  ⟨h.current c, h.idle c, h.embryo c⟩

lemma eq_iff_of_cpu {x : Role} (hx : x.cpu = some c) (h0 : r₀.cpu ≠ some c) (h : r.cpu ≠ some c) :
    r₀ = x ↔ r = x :=
  ⟨fun e => absurd (e ▸ hx) h0, fun e => absurd (e ▸ hx) h⟩

lemma Cpu.Shows.congr (hk : k.Shows c i p r₀) (h0 : r₀.cpu ≠ some c) (h : r.cpu ≠ some c) :
    k.Shows c i p r :=
  ⟨hk.current.trans (eq_iff_of_cpu rfl h0 h), hk.idle.trans (eq_iff_of_cpu rfl h0 h),
    hk.embryo.trans (eq_iff_of_cpu rfl h0 h)⟩

/-- The CPU goes from `k` to `k'` and that concerns at most the process `p`. -/
structure CpuSame (k k' : Cpu) (p : Nat) : Prop where
  proc : ∀ x, x ≠ p → (k'.proc = some x ↔ k.proc = some x)
  fork : ∀ x, x ≠ p → ((∃ cp, k' = .forking cp x) ↔ ∃ cp, k = .forking cp x)
  off : k' ≠ .off ↔ k ≠ .off

lemma CpuSame.of_proc (h : ∀ x, k.proc = some x → x = p) (h' : ∀ x, k'.proc = some x → x = p)
    (hf : ∀ x np, k ≠ .forking x np) (hf' : ∀ x np, k' ≠ .forking x np) (hoff : k ≠ .off)
    (hoff' : k' ≠ .off) : CpuSame k k' p where
  proc x hx := ⟨fun e => absurd (h' x e) hx, fun e => absurd (h x e) hx⟩
  fork x _ := by simp [hf, hf']
  off := by simp [hoff, hoff']

lemma CpuSame.shows (hk : CpuSame k k' p) (hq : q ≠ p) (h : k.Shows c i q r) :
    k'.Shows c i q r where
  current := by rw [hk.proc q hq, h.current]
  idle := by rw [hk.off, h.idle]
  embryo := by rw [hk.fork q hq, h.embryo]

lemma Inv.cpu_role (h : Inv s V ρ) (hc : (s.cpu c).proc = some p) :
    ρ p = .current c ∨ p = s.idle c ∧ ρ p = .idle c := by
  by_cases hi : p = s.idle c
  · have hoff : s.cpu c ≠ .off := fun e => by simp [e] at hc
    exact .inr ⟨hi, ((h.entry p).idle c).mp ⟨hoff, hi⟩⟩
  · exact .inl (((h.entry p).current c).mp ⟨hc, hi⟩)

/-- CPU `c` goes on in the mode `k`. Of the processes only `p` may look different. -/
structure Turn (s : Sys) (c : Nat) (k : Cpu) (p : Nat) (s' : Sys) : Prop where
  cpu : s'.cpu = update s.cpu c k
  idle : ∀ x, x ≠ c → s'.idle x = s.idle x
  shows : ∀ q r, q ≠ p → (s.cpu c).Shows c (s.idle c) q r → k.Shows c (s'.idle c) q r
  initproc : s'.initproc = s.initproc
  proc : ∀ x, x ≠ p → s'.proc x = s.proc x
  live : ∀ x, x ≠ p → s'.live x = s.live x

/-- The lists `V'` have `p` where the role `r` puts it, and the others where `V` has them. -/
structure Relists (V : View) (p : Nat) (r : Role) (V' : View) : Prop where
  run : p ∈ V'.run ↔ r = .ready
  slp : ∀ i < sqsize, p ∈ V'.slp i ↔ r = .asleep i
  run_ne : ∀ q, q ≠ p → (q ∈ V'.run ↔ q ∈ V.run)
  slp_ne : ∀ q, q ≠ p → ∀ i, q ∈ V'.slp i ↔ q ∈ V.slp i

lemma Entry.relists (he : Entry s V p r₀) (hrun : V'.run = V.run) (hslp : V'.slp = V.slp)
    (hr : r₀ = .ready ↔ r = .ready) (ha : ∀ i, r₀ = .asleep i ↔ r = .asleep i) :
    Relists V p r V' where
  run := by rw [hrun, he.run, hr]
  slp i hi := by rw [hslp, he.slp i hi, ha]
  run_ne q _ := by rw [hrun]
  slp_ne q _ i := by rw [hslp]

lemma Entry.relists_ready (he : Entry s V p r₀) (hrun : V'.run = V.run ++ [p])
    (hslp : V'.slp = V.slp) (ha : ∀ i, r₀ ≠ .asleep i)
    : Relists V p .ready V' where
  run := by simp [hrun]
  slp i hi := by simp [hslp, he.slp i hi, ha]
  run_ne q hq := by simp [hrun, hq]
  slp_ne q _ i := by rw [hslp]

section

variable (h : Inv s V ρ) (t : Turn s c k p s')
include h t

/-- **One process changes its role**, by what CPU `c` does. -/
lemma Inv.turn (hl : Relists V p r V')
    (h0 : ∀ x, (ρ p).cpu = some x → x = c) (hr : ∀ x, r.cpu = some x → x = c)
    (hcpu : k.Shows c (s'.idle c) p r) (hshows : r.Shows (s'.proc p)) (hlive : s'.live p = r.live)
    (hrings : Rings s'.links (Head (update ρ p r)) V'.nodes)
    (hbound : r ≠ .unused → p < nproc)
    (hinit : r.live = true ∨ (ρ p).live = false ∨ s.initproc ≠ some p)
    (hkid : ∀ q k, update ρ p r q ≠ .unused → k ∈ V'.kids q → (s'.proc k).parent = some q ∧
      ((update ρ p r k).live = true ∨ update ρ p r k = .zombie))
    (hlock : OneHolder s') : Inv s' V' (update ρ p r) := by
  have hall {q : Nat} {r : Role} (hc : k.Shows c (s'.idle c) q r)
      (ho : ∀ x, x ≠ c → (s.cpu x).Shows x (s.idle x) q r) :
        ∀ x, (s'.cpu x).Shows x (s'.idle x) q r := by
    rw [t.cpu]
    refine (forall_update_iff s.cpu fun x k => k.Shows x (s'.idle x) q r).mpr ⟨hc, fun x hx => ?_⟩
    rw [t.idle x hx]
    exact ho x hx
  refine ⟨hrings, (forall_update_iff ρ (Entry s' V')).mpr ⟨?_, fun q hq => ?_⟩,
    (forall_update_iff ρ fun q r => r ≠ .unused → q < nproc).mpr ⟨hbound, fun q _ => h.bound q⟩,
      hkid, ?_, hlock⟩
  · have hp := hall hcpu fun x hx => ((h.entry p).cpu x).congr (fun e => hx (h0 x e)) fun e =>
      hx (hr x e)
    exact ⟨hl.run, hl.slp, hshows, hlive, fun x => (hp x).current, fun x => (hp x).idle,
      fun x => (hp x).embryo⟩
  · have he := h.entry q
    have hother := hall (t.shows q _ hq (he.cpu c)) fun x _ => he.cpu x
    exact ⟨(hl.run_ne q hq).trans he.run, fun i hi => (hl.slp_ne q hq i).trans (he.slp i hi),
      by rw [t.proc q hq]; exact he.shows, (t.live q hq).trans he.live,
      fun x => (hother x).current, fun x => (hother x).idle, fun x => (hother x).embryo⟩
  · rw [t.initproc]
    refine (forall_update_iff ρ fun ip r => s.initproc = some ip → r.live = true).mpr
      ⟨fun hip => ?_, fun q _ => h.init q⟩
    exact hinit.resolve_right fun e => e.elim (by simp [h.init p hip]) (absurd hip)

/-- The children after a change of one role. -/
lemma Inv.kid_of_eq (hkids : V'.kids = V.kids)
    (hparent : (s'.proc p).parent = (s.proc p).parent) (hp : ρ p ≠ .unused)
    (hr : r.live = true ∨ r = .zombie) (q x : Nat) (hq : update ρ p r q ≠ .unused)
    (hx : x ∈ V'.kids q) : (s'.proc x).parent = some q ∧
      ((update ρ p r x).live = true ∨ update ρ p r x = .zombie) := by
  have hq' := (forall_update_iff ρ fun q r => r ≠ .unused → ρ q ≠ .unused).mpr ⟨fun _ => hp,
    fun _ _ => id⟩ q hq
  rw [hkids] at hx
  obtain ⟨hpar, hrole⟩ := h.kid q x hq' hx
  by_cases hxp : x = p
  · subst hxp
    rw [update_self]
    exact ⟨hparent.trans hpar, hr⟩
  · rw [update_of_ne hxp, t.proc x hxp]
    exact ⟨hpar, hrole⟩

/-- The children when a process that is nobody's child changes its role. -/
lemma Inv.kid_of_free (hl : (ρ p).live = false)
    (hz : ρ p ≠ .zombie) (q x : Nat) (hq : ρ q ≠ .unused) (hx : x ∈ V.kids q) :
    (s'.proc x).parent = some q ∧
      ((update ρ p r x).live = true ∨ update ρ p r x = .zombie) := by
  obtain ⟨hpar, hrole⟩ := h.kid q x hq hx
  have hxp : x ≠ p := by
    rintro rfl
    simp [hl, hz] at hrole
  rw [update_of_ne hxp, t.proc x hxp]
  exact ⟨hpar, hrole⟩

end

/-- A CPU that takes a free lock, or gives it up, is the only holder. -/
lemma OneHolder.update (h : OneHolder s) (hfree : s.lock = false ∨ (s.cpu c).locks = true)
    (hcpu : s'.cpu = update s.cpu c k) (hk : k.locks = true → s'.lock = true) :
    OneHolder s' := by
  have hothers : ∀ x, x ≠ c → (s.cpu x).locks = false := by
    intro x hx
    by_contra hlocks
    rw [Bool.not_eq_false] at hlocks
    rcases hfree with hfree | hfree
    · rw [h.lock x hlocks] at hfree
      cases hfree
    · exact hx (h.unique x c hlocks hfree)
  have hnew : ∀ x, (s'.cpu x).locks = true → x = c := by
    intro x hx
    by_contra hne
    rw [hcpu, update_of_ne hne, hothers x hne] at hx
    cases hx
  refine ⟨fun x hx => ?_, fun x y hx hy => (hnew x hx).trans (hnew y hy).symm⟩
  obtain rfl := hnew x hx
  rw [hcpu, update_self] at hx
  exact hk hx

section

variable (h : Inv s V ρ)
include h

/-- `wakeup1` of one process. -/
lemma Inv.wake (hi : i < sqsize) (hp : p ∈ V.slp i) :
    Inv ((s.setLinks ((s.links.drop (.link p)).pushBack .schedQue (.link p))).setState p .runnable)
      ((V.setSlp i ((V.slp i).erase p)).setRun (V.run ++ [p])) (update ρ p .ready) := by
  have he := h.entry p
  have hrole : ρ p = .asleep i := (he.slp i hi).mp hp
  have t : Turn s 0 (s.cpu 0) p ((s.setLinks ((s.links.drop (.link p)).pushBack .schedQue
      (.link p))).setState p .runnable) :=
    ⟨(update_eq_self 0 s.cpu).symm, fun _ _ => rfl, fun _ _ _ => id, rfl,
      fun x hx => by simp [hx], fun _ _ => rfl⟩
  refine h.turn t ⟨by simp, fun j hj => ?_, fun q hq => by simp [hq], fun q hq j => ?_⟩
    (by simp [hrole]) (by simp)
    ((he.cpu 0).congr (by simp [hrole]) (by simp)) (by simp [Role.Shows]) ?_ ?_
    (fun _ => h.bound p (by simp [hrole])) (.inl rfl)
    (h.kid_of_eq t rfl (by simp) (by simp [hrole]) (.inl rfl)) ⟨h.holder.lock, h.holder.unique⟩
  · simp only [View.setRun, View.setSlp, reduceCtorEq, iff_false]
    by_cases hji : j = i
    · subst hji
      rw [update_self]
      exact (h.nodup_slp hj).not_mem_erase
    · rw [update_of_ne hji, he.slp j hj, hrole]
      simpa using Ne.symm hji
  · by_cases hji : j = i
    · subst hji
      simp [List.mem_erase_of_ne hq]
    · simp [hji]
  · exact he.live.trans (by rw [hrole]; rfl)
  · rw [head_update (by simp [hrole]) (by simp)]
    exact h.wake_rings hi hp

/-- current → ready, asleep or zombie: the process leaves its CPU to the scheduler. -/
lemma Inv.leave (hrole : ρ p = .current c) (t : Turn s c .scheduler p s')
    (hfree : s.lock = false ∨ (s.cpu c).locks = true)
    (hr : r = .ready ∨ (∃ i, r = .asleep i) ∨ r = .zombie) (hl : Relists V p r V')
    (hrings : Rings s'.links (Head ρ) V'.nodes) (hkids : V'.kids = V.kids)
    (hidle : s'.idle = s.idle) (hparent : (s'.proc p).parent = (s.proc p).parent)
    (hshows : r.Shows (s'.proc p)) (hlive : s'.live p = r.live)
    (hip : r.live = true ∨ s.initproc ≠ some p) : Inv s' V' (update ρ p r) := by
  have he := h.entry p
  rw [hrole] at he
  have hne := ((he.current c).mpr rfl).2
  have hrc : r.cpu = none ∧ r ≠ .unused ∧ (r.live = true ∨ r = .zombie) := by
    rcases hr with rfl | ⟨i, rfl⟩ | rfl <;> simp [Role.live]
  refine h.turn t hl (by simp [hrole]) (by rw [hrc.1]; simp) ⟨?_, ?_, ?_⟩ hshows hlive ?_
    (fun _ => h.bound p (by simp [hrole])) (hip.imp id .inr)
    (h.kid_of_eq t hkids hparent (by simp [hrole]) hrc.2.2)
    (h.holder.update hfree t.cpu (by simp))
  · rcases hr with rfl | ⟨i, rfl⟩ | rfl <;> simp
  · rw [hidle]
    rcases hr with rfl | ⟨i, rfl⟩ | rfl <;> simp [hne]
  · rcases hr with rfl | ⟨i, rfl⟩ | rfl <;> simp
  · rw [head_update (by simp [hrole]) hrc.2.1]
    exact hrings

/-- The scheduler takes a process from the run queue. -/
lemma Inv.enter (hp : p ∈ V.run) (t : Turn s c k p s') (hne : p ≠ s.idle c)
    (hfree : s.lock = false) (hk : k.proc = some p) (hfork : ∀ x np, k ≠ .forking x np)
    (hlinks : s'.links = s.links.drop (.link p)) (hidle : s'.idle = s.idle)
    (hparent : (s'.proc p).parent = (s.proc p).parent)
    (hshows : (Role.current c).Shows (s'.proc p)) (hlive : s'.live p = s.live p)
    (hlock : k.locks = true → s'.lock = true) :
    Inv s' (V.setRun (V.run.erase p)) (update ρ p (.current c)) := by
  have he := h.entry p
  have hrole : ρ p = .ready := he.run.mp hp
  rw [hrole] at he
  refine h.turn t ⟨?_, fun i hi => ?_, fun q hq => ?_, fun _ _ _ => Iff.rfl⟩ (by simp [hrole])
    (by simp) ⟨?_, ?_, by simp [hfork]⟩ hshows (hlive.trans he.live) ?_
    (fun _ => h.bound p (by simp [hrole])) (.inl rfl)
    (h.kid_of_eq t rfl hparent (by simp [hrole]) (.inl rfl))
    (h.holder.update (.inl hfree) t.cpu hlock)
  · simpa using h.nodup_run.not_mem_erase
  · simpa using he.slp i hi
  · simp [List.mem_erase_of_ne hq]
  · rw [hidle, hk]
    simp [hne]
  · simp [hidle, hne]
  · rw [head_update (by simp [hrole]) (by simp), hlinks, View.nodes_setRun,
      List.map_erase fun _ _ e => Node.link.inj e]
    exact h.rings.drop .schedQue (.link p) trivial (List.mem_map_of_mem hp)

/-- No change of role: the CPU goes on with the process it has, or with its idle process. -/
lemma Inv.stay (t : Turn s c k p s') (hon : ∀ x, (ρ p).cpu = some x → x = c)
    (hcpu : k.Shows c (s'.idle c) p (ρ p)) (hlinks : s'.links = s.links)
    (hparent : (s'.proc p).parent = (s.proc p).parent) (hshows : (ρ p).Shows (s'.proc p))
    (hlive : s'.live p = s.live p) (hlock : OneHolder s') : Inv s' V ρ := by
  have hself : update ρ p (ρ p) = ρ := update_eq_self p ρ
  have he := h.entry p
  have := h.turn t (he.relists rfl rfl Iff.rfl fun _ => Iff.rfl) hon hon hcpu hshows
    (hlive.trans he.live) (by rw [hself, hlinks]; exact h.rings) (h.bound p)
    (by cases (ρ p).live <;> simp) (fun q x hq hx => ?_) hlock
  · rwa [hself] at this
  rw [hself] at hq ⊢
  obtain ⟨hpar, hrole⟩ := h.kid q x hq hx
  refine ⟨?_, hrole⟩
  by_cases hxp : x = p
  · rw [hxp, hparent, ← hxp, hpar]
  · rw [t.proc x hxp, hpar]

/-- Clearing an unused entry touches no list. -/
lemma Inv.clear_rings (hp : ρ p = .unused) : Rings (clear s p).links (Head ρ) V.nodes := by
  refine h.rings.congr (fun n hn x hx => ?_) fun _ _ => rfl
  have hx' : x ≠ .link p ∧ x ≠ .clink p ∧ x ≠ .child p := by
    refine ⟨?_, ?_, ?_⟩ <;> rintro rfl <;> rcases List.mem_cons.mp hx with rfl | hx
    · exact hn
    · exact h.link_free (by simp [hp]) (by simp [hp]) n hn hx
    · exact hn
    · exact h.clink_free (by simp [hp, Role.live]) (by simp [hp]) n hn hx
    · exact hn hp
    · cases n <;> simp [View.nodes] at hx
  simp [clear, hx']

/-- The lists of children when one entry is taken into use, its own list empty. -/
lemma Inv.alloc_rings (hp : ρ p = .unused) :
    Rings ((clear s p).links.init (.child p)) (Head (update ρ p r))
      (V.setKids p []).nodes := by
  have hinit := (h.clear_rings hp).init (.child p) (fun hn => hn hp) fun n _ => by
    cases n <;> simp [View.nodes]
  rw [View.nodes_setKids]
  refine hinit.mono fun n hn => ?_
  cases n with
  | child q =>
    by_cases hq : q = p
    · exact .inl (by rw [hq])
    · right
      simpa [Head, hq] using hn
  | _ => exact .inr hn

/-- `proc_alloc`: an unused entry becomes an embryo. -/
lemma Inv.alloc (hp : ρ p = .unused) (hlt : p < nproc) (t : Turn s c k p s')
    (hr : r = .embryo c ∨ r = .idle c) (hcpu : k.Shows c (s'.idle c) p r) (hfree : s.lock = false)
    (hk : k.locks = false) (hlinks : s'.links = (clear s p).links.init (.child p))
    (hstate : (s'.proc p).state = .embryo) (hlive : s'.live p = s.live p) :
    Inv s' (V.setKids p []) (update ρ p r) := by
  have he := h.entry p
  rw [hp] at he
  have hlive' : (ρ p).live = false := by rw [hp]; rfl
  refine h.turn t (he.relists rfl rfl ?_ fun i => ?_) (by simp [hp]) ?_ hcpu ?_
    (hlive.trans (he.live.trans ?_)) (hlinks ▸ h.alloc_rings hp) (fun _ => hlt) (.inr (.inl hlive'))
    (fun q x hq hx => ?_) (h.holder.update (.inl hfree) t.cpu (by rw [hk]; simp))
  · rcases hr with rfl | rfl <;> simp
  · rcases hr with rfl | rfl <;> simp
  · rcases hr with rfl | rfl <;> simp
  · rcases hr with rfl | rfl <;> simp [Role.Shows, hstate]
  · rcases hr with rfl | rfl <;> rfl
  by_cases hqp : q = p
  · subst hqp
    simp [View.setKids] at hx
  rw [update_of_ne hqp] at hq
  simp only [View.setKids, update_of_ne hqp] at hx
  exact h.kid_of_free t hlive' (by simp [hp]) q x hq hx

lemma Inv.push_kid (hl : (ρ p).live = false) (hz : ρ p ≠ .zombie)
    (hq : ρ q ≠ .unused) : Rings (s.links.pushBack (.child q) (.clink p)) (Head ρ)
      (V.setKids q (V.kids q ++ [p])).nodes := by
  rw [View.nodes_setKids, List.map_append]
  exact h.rings.pushBack (.child q) (.clink p) hq not_false (h.clink_free hl hz)

/-- In `fork` the new entry is neither the caller nor the idle process of the CPU. -/
lemma Inv.forking {cp np : Nat} (hk : s.cpu c = .forking cp np) :
    ρ np = .embryo c ∧ ρ cp ≠ .unused ∧ cp ≠ np ∧ np ≠ s.idle c := by
  have hrole : ρ np = .embryo c := ((h.entry np).embryo c).mp ⟨cp, hk⟩
  have hcp := h.cpu_role (c := c) (p := cp) (by rw [hk]; rfl)
  refine ⟨hrole, ?_, ?_, fun e => ?_⟩
  · rcases hcp with e | ⟨-, e⟩ <;> simp [e]
  · rintro rfl
    simp [hrole] at hcp
  · simpa [hrole] using ((h.entry np).idle c).mp ⟨by simp [hk], e⟩

/-- embryo → ready: `fork` puts the new process on the run queue and among the children of `cp`. -/
lemma Inv.forked {cp np : Nat} (hcpu0 : s.cpu c = .forking cp np)
    (hfree : s.lock = false) (t : Turn s c (.running cp) np s')
    (hlinks : s'.links =
      (s.links.pushBack (.child cp) (.clink np)).pushBack .schedQue (.link np))
    (hidle : s'.idle = s.idle) (hparent : (s'.proc np).parent = some cp)
    (hshows : (s'.proc np).state = .runnable) (hlive : s'.live np = true) :
    Inv s' ((V.setKids cp (V.kids cp ++ [np])).setRun (V.run ++ [np]))
      (update ρ np .ready) := by
  obtain ⟨hrole, hcp, hne, hni⟩ := h.forking hcpu0
  have hl : (ρ np).live = false := by rw [hrole]; rfl
  refine h.turn t ((h.entry np).relists_ready rfl rfl (by simp [hrole])) (by simp [hrole])
    (by simp) ⟨by simp [hne], by simp [hidle, hni], by simp⟩
    (by simp [Role.Shows, hshows]) hlive ?_ (fun _ => h.bound np (by simp [hrole])) (.inl rfl)
    (fun q x hq hx => ?_) (h.holder.update (.inl hfree) t.cpu (by simp))
  · rw [head_update (by simp [hrole]) (by simp), hlinks, View.nodes_setRun, List.map_append]
    refine (h.push_kid hl (by simp [hrole]) hcp).pushBack .schedQue (.link np) trivial not_false
      fun n hn hmem => h.link_free (p := np) (by simp [hrole]) (by simp [hrole]) n hn ?_
    cases n with
    | child q => simp [View.nodes] at hmem
    | _ => exact hmem
  have hq' : ρ q ≠ .unused := by
    by_cases hqn : q = np
    · simp [hqn, hrole]
    · rwa [update_of_ne hqn] at hq
  by_cases hxq : x ∈ V.kids q
  · exact h.kid_of_free t hl (by simp [hrole]) q x hq' hxq
  by_cases hqc : q = cp
  · subst hqc
    obtain rfl : x = np := by simpa [hxq] using hx
    rw [update_self]
    exact ⟨hparent, .inl rfl⟩
  · simp [hqc, hxq] at hx

end

lemma head_of_unused {n : Node} (hn : Head (update ρ p .unused) n) : Head ρ n := by
  cases n with
  | child q =>
    by_cases hq : q = p
    · subst hq
      simp [Head] at hn
    · simpa [Head, hq] using hn
  | _ => exact hn

lemma used_of_update (hq : update ρ p .unused q ≠ .unused) : ρ q ≠ .unused := by
  have hqp : q ≠ p := by
    rintro rfl
    simp at hq
  rwa [update_of_ne hqp] at hq

section

variable (h : Inv s V ρ)
include h

/-- A fork that fails gives its entry back. -/
lemma Inv.forkFailed {cp np : Nat} (hcpu0 : s.cpu c = .forking cp np)
    (hfree : s.lock = false) (t : Turn s c (.running cp) np s') (hlinks : s'.links = s.links)
    (hidle : s'.idle = s.idle) (hshows : (s'.proc np).state = .unused)
    (hlive : s'.live np = s.live np) : Inv s' V (update ρ np .unused) := by
  obtain ⟨hrole, -, hne, hni⟩ := h.forking hcpu0
  have he := h.entry np
  have hl : (ρ np).live = false := by rw [hrole]; rfl
  exact h.turn t (he.relists rfl rfl (by simp [hrole]) (by simp [hrole]))
    (by simp [hrole]) (by simp)
    ⟨by simp [hne], by simp [hidle, hni], by simp⟩ hshows
    (hlive.trans (he.live.trans hl)) (hlinks ▸ h.rings.mono fun n => head_of_unused) (by simp)
    (.inr (.inl hl))
    (fun q x hq hx => h.kid_of_free t hl (by simp [hrole]) q x (used_of_update hq) hx)
    (h.holder.update (.inl hfree) t.cpu (by simp))

lemma Inv.drop_kid (hq : ρ q ≠ .unused) (hp : p ∈ V.kids q) :
    Rings (s.links.drop (.clink p)) (Head ρ) (V.setKids q ((V.kids q).erase p)).nodes := by
  rw [View.nodes_setKids, List.map_erase fun _ _ e => Node.clink.inj e]
  exact h.rings.drop (.child q) (.clink p) hq (List.mem_map_of_mem hp)

lemma Inv.kid_unique {q' : Nat} (hq : ρ q ≠ .unused) (hq' : ρ q' ≠ .unused)
    (hp : p ∈ V.kids q) (hp' : p ∈ V.kids q') : q = q' :=
  Node.child.inj (h.rings.disjoint (.child q) (.child q') (.clink p) hq hq'
    (List.mem_map_of_mem hp) (List.mem_map_of_mem hp'))

/-- The children after one has left were children before, and are others. -/
lemma Inv.mem_erase_kids (hq : ρ q ≠ .unused) (hp : p ∈ V.kids q) {q' x : Nat}
    (hq' : ρ q' ≠ .unused) (hx : x ∈ (V.setKids q ((V.kids q).erase p)).kids q') :
    x ∈ V.kids q' ∧ x ≠ p := by
  by_cases hqq : q' = q
  · subst hqq
    simp only [View.setKids, update_self] at hx
    exact ⟨List.mem_of_mem_erase hx, fun e => (h.nodup_kids hq).not_mem_erase (e ▸ hx)⟩
  simp only [View.setKids, update_of_ne hqq] at hx
  refine ⟨hx, ?_⟩
  rintro rfl
  exact hqq (h.kid_unique hq' hq hx hp)

lemma Inv.zombie_of_state (hz : (s.proc p).state = .zombie) : ρ p = .zombie := by
  have := (h.entry p).shows
  cases hr : ρ p <;> simp_all [Role.Shows]

/-- `wait4` frees the entry of a zombie. -/
lemma Inv.reap {cp : Nat} (hcp : ρ cp ≠ .unused) (hp : p ∈ V.kids cp)
    (hz : (s.proc p).state = .zombie) :
    Inv (reap s p) (V.setKids cp ((V.kids cp).erase p)) (update ρ p .unused) := by
  have he := h.entry p
  have hrole := h.zombie_of_state hz
  have t : Turn s 0 (s.cpu 0) p (Sched.reap s p) :=
    ⟨(update_eq_self 0 s.cpu).symm, fun _ _ => rfl, fun _ _ _ => id, rfl,
      fun x hx => by simp [Sched.reap, hx], fun _ _ => rfl⟩
  refine h.turn t (he.relists rfl rfl (by simp [hrole]) (by simp [hrole])) (by simp [hrole])
    (by simp) ((he.cpu 0).congr (by simp [hrole]) (by simp))
    (by simp [Sched.reap, Role.Shows]) (he.live.trans (by rw [hrole]; rfl))
    ((h.drop_kid hcp hp).mono fun n => head_of_unused) (by simp)
    (.inr (.inl (by rw [hrole]; rfl))) (fun q x hq hx => ?_) ⟨h.holder.lock, h.holder.unique⟩
  have hq := used_of_update hq
  obtain ⟨hx, hxp⟩ := h.mem_erase_kids hcp hp hq hx
  rw [update_of_ne hxp, t.proc x hxp]
  exact h.kid q x hq hx

/-- A child leaves the list of its parent. -/
lemma Inv.detach (hq : ρ q ≠ .unused) (hp : p ∈ V.kids q) (f : Option Nat) :
    Inv (detach s p f) (V.setKids q ((V.kids q).erase p)) ρ := by
  refine ⟨h.drop_kid hq hp, fun x => ?_, h.bound, fun q' x hq' hx => ?_, h.init,
    ⟨h.holder.lock, h.holder.unique⟩⟩
  · refine (h.entry x).congr ⟨Iff.rfl, fun _ _ => Iff.rfl, ?_, ?_, rfl, fun _ => Iff.rfl,
      fun _ => Iff.rfl, fun _ => Iff.rfl⟩ <;> by_cases hx : x = p
    · subst hx; simp [Sched.detach]
    · simp [Sched.detach, hx]
    · subst hx; simp [Sched.detach]
    · simp [Sched.detach, hx]
  · obtain ⟨hx, hxp⟩ := h.mem_erase_kids hq hp hq' hx
    simpa [Sched.detach, hxp] using h.kid q' x hq' hx

/-- And joins that of another. -/
lemma Inv.attach (hq : ρ q ≠ .unused) (hp : (s.proc p).parent = some q)
    (hr : (ρ p).live = true ∨ ρ p = .zombie) (hno : ∀ q', ρ q' ≠ .unused → p ∉ V.kids q') :
    Inv (attach s q p) (V.setKids q (V.kids q ++ [p])) ρ := by
  refine ⟨?_, fun x => (h.entry x).congr ⟨Iff.rfl, fun _ _ => Iff.rfl, rfl, rfl, rfl,
    fun _ => Iff.rfl, fun _ => Iff.rfl, fun _ => Iff.rfl⟩, h.bound, fun q' k hq' hk => ?_, h.init,
    ⟨h.holder.lock, h.holder.unique⟩⟩
  · rw [View.nodes_setKids, List.map_append]
    refine h.rings.pushBack (.child q) (.clink p) hq not_false fun n hn => ?_
    cases n with
    | child q' => simpa [View.nodes] using hno q' hn
    | _ => simp [View.nodes]
  by_cases hqc : q' = q
  · subst hqc
    simp only [View.setKids, update_self, List.mem_append, List.mem_singleton] at hk
    rcases hk with hk | rfl
    · exact h.kid q' k hq' hk
    · exact ⟨hp, hr⟩
  · simp only [View.setKids, update_of_ne hqc] at hk
    exact h.kid q' k hq' hk

end

end RpiOs.Sched
