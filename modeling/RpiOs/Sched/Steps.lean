import Mathlib.Data.List.Perm.Subperm
import RpiOs.Sched.Places
import RpiOs.Sched.Wait

/-!
# Every action keeps every process in its place

* `step_spec`: one action, from the invariant to the invariant, and what becomes of a sleeper.
-/

namespace RpiOs.Sched

open Lib Function

/-- Where a process may go on: `wait4` only with options 0, and an idle process never in `sleep` or
`wait4`. -/
def CtxOk (s : Sys) (p : Nat) (k : Context) : Prop :=
  (∀ pid options, k = .wait4 pid options → options = 0) ∧
    ∀ c, s.cpu c ≠ .off → p = s.idle c → k = .forkret ∨ k = .yield

/-- `wait4` was called with options 0, and idle processes make no system calls. -/
structure Plain (s : Sys) : Prop where
  cpu : ∀ c p pid options, s.cpu c = .waiting p pid options → options = 0
  proc : ∀ p, CtxOk s p (s.proc p).context
  idle : ∀ c p, (s.cpu c).proc = some p → s.cpu c = .running p ∨ p ≠ s.idle c

/-- Nothing but the states of processes and the lists of processes may differ. -/
structure Frame (s s' : Sys) : Prop where
  cpu : s'.cpu = s.cpu
  idle : s'.idle = s.idle
  lock : s'.lock = s.lock
  initproc : s'.initproc = s.initproc
  live : s'.live = s.live
  chan : ∀ p, (s'.proc p).chan = (s.proc p).chan
  context : ∀ p, (s'.proc p).context = (s.proc p).context

variable (s : Sys)

lemma Frame.refl : Frame s s := ⟨rfl, rfl, rfl, rfl, rfl, fun _ => rfl, fun _ => rfl⟩

lemma Frame.trans {s1 s2 s3 : Sys} (h : Frame s1 s2) (h' : Frame s2 s3) : Frame s1 s3 :=
  ⟨h'.cpu.trans h.cpu, h'.idle.trans h.idle, h'.lock.trans h.lock, h'.initproc.trans h.initproc,
    h'.live.trans h.live, fun p => (h'.chan p).trans (h.chan p),
    fun p => (h'.context p).trans (h.context p)⟩

lemma Frame.setLinks (l : Links Node) : Frame s (s.setLinks l) :=
  ⟨rfl, rfl, rfl, rfl, rfl, fun _ => rfl, fun _ => rfl⟩

lemma Frame.setProc (p : Nat) (f : Proc → Proc) (hc : (f (s.proc p)).chan = (s.proc p).chan)
    (hx : (f (s.proc p)).context = (s.proc p).context) : Frame s (s.setProc p f) := by
  refine ⟨rfl, rfl, rfl, rfl, rfl, fun q => ?_, fun q => ?_⟩ <;> by_cases hq : q = p
  · subst hq; simp [hc]
  · simp [hq]
  · subst hq; simp [hx]
  · simp [hq]

lemma Frame.detach (p : Nat) (f : Option Nat) : Frame s (detach s p f) :=
  (Frame.setProc s p ({ · with parent := f }) rfl rfl).trans (.setLinks _ _)

lemma Frame.attach (q p : Nat) : Frame s (attach s q p) := .setLinks s _

section functions

variable {s : Sys} {V : View} {ρ : Nat → Role} {p c : Nat} {cp : Nat}

lemma hash_lt (chan : Nat) : hash chan < sqsize := Nat.mod_lt _ (by decide)

/-- The roles after `wakeup1(chan)`. -/
def wokenRole (s : Sys) (ρ : Nat → Role) (chan p : Nat) : Role :=
  if ρ p = .asleep (hash chan) ∧ (s.proc p).chan = chan then .ready else ρ p

lemma length_le_nproc {xs : List Nat} (hd : xs.Nodup) (hb : ∀ p ∈ xs, p < nproc) :
    xs.length ≤ nproc := by
  have hsub : xs ⊆ List.range nproc := fun p hp => List.mem_range.mpr (hb p hp)
  simpa using (List.subperm_of_subset hd hsub).length_le

/-- **`wakeup1`** makes exactly the sleepers of the channel ready. -/
theorem wakeup1_spec (h : Inv s V ρ) (chan : Nat) : ∃ s' V', wakeup1 s chan = some s' ∧
    Inv s' V' (wokenRole s ρ chan) ∧ Frame s s' ∧ V'.kids = V.kids := by
  have hi := hash_lt chan
  -- the sleepers before `rest` have been dealt with
  let I : List Node → Sys → Prop := fun xs s' => ∃ V' ρ' pre rest, Inv s' V' ρ' ∧ Frame s s' ∧
    V'.kids = V.kids ∧ xs = rest.map .link ∧ V'.slp (hash chan) = pre ++ rest ∧
    (∀ p ∈ pre, (s.proc p).chan ≠ chan) ∧
    (∀ p ∈ rest, ρ' p = ρ p) ∧ ∀ p, p ∉ rest → ρ' p = wokenRole s ρ chan p
  obtain ⟨r, hr, hspec⟩ : ∃ r, forEach Sys.links (.slpque (hash chan)) (wakeupBody chan)
      (nproc + 1) s = some r ∧ Sum.elim (I []) (fun _ => False) r := by
    refine forEach_spec I _ ?_ ?_ ((V.slp (hash chan)).map .link)
      ⟨V, ρ, [], V.slp (hash chan), h, .refl s, rfl, rfl, rfl, by simp, fun _ _ => rfl,
        fun p hp => ?_⟩ ?_ ?_
    · rintro x xs s' ⟨V', ρ', pre, rest, hI, -, -, hx, hslp, -⟩
      obtain ⟨p, rest, rfl, rfl, rfl⟩ := List.map_eq_cons_iff.mp hx.symm
      have hl := hI.rings.linked (.slpque (hash chan)) hi
      rw [View.nodes, hslp, List.map_append, List.map_cons, Links.linked_append_cons] at hl
      exact ⟨by simp, hl.2.next_head⟩
    · rintro x xs s' ⟨V', ρ', pre, rest, hI, hF, hk, hx, hslp, hpre, hrest, hdone⟩
      obtain ⟨p, rest, rfl, rfl, rfl⟩ := List.map_eq_cons_iff.mp hx.symm
      have hmem : p ∈ V'.slp (hash chan) := by simp [hslp]
      have hnd := hI.nodup_slp hi
      rw [hslp] at hnd
      have hp : p ∉ pre ∧ p ∉ rest := by grind
      have hasleep : ρ p = .asleep (hash chan) :=
        (hrest p (by simp)).symm.trans (((hI.entry p).slp _ hi).mp hmem)
      by_cases hc : (s'.proc p).chan = chan
      · rw [wakeupBody, if_pos hc]
        rw [hF.chan] at hc
        refine ⟨_, _, pre, rest, hI.wake hi hmem, hF.trans ((Frame.setLinks s' _).trans
          (.setProc _ _ _ rfl rfl)), hk, rfl, ?_, hpre, fun q hq => ?_, fun q hq => ?_⟩
        · simp only [View.setRun_slp, View.setSlp_slp, update_self, hslp]
          rw [List.erase_append_right _ hp.1, List.erase_cons_head]
        · have hqp : q ≠ p := fun e => hp.2 (e ▸ hq)
          rw [update_of_ne hqp]
          exact hrest q (List.mem_cons_of_mem _ hq)
        by_cases hqp : q = p
        · rw [hqp, update_self, wokenRole, if_pos ⟨hasleep, hc⟩]
        · rw [update_of_ne hqp]
          exact hdone q (by simp [hqp, hq])
      · rw [wakeupBody, if_neg hc]
        rw [hF.chan] at hc
        refine ⟨V', ρ', pre ++ [p], rest, hI, hF, hk, rfl, by simp [hslp], fun q hq => ?_,
          fun q hq => hrest q (List.mem_cons_of_mem _ hq), fun q hq => ?_⟩
        · rcases List.mem_append.mp hq with hq | hq
          · exact hpre q hq
          · rwa [List.mem_singleton.mp hq]
        by_cases hqp : q = p
        · rw [hqp, hrest p (by simp), wokenRole, if_neg fun e => hc e.2]
        · exact hdone q (by simp [hqp, hq])
    · rw [wokenRole, if_neg]
      exact fun e => hp (((h.entry p).slp _ hi).mpr e.1)
    · rw [List.length_map]
      refine Nat.lt_succ_of_le (length_le_nproc (h.nodup_slp hi) fun p hp => h.bound p ?_)
      simp [((h.entry p).slp _ hi).mp hp]
    · exact (h.rings.linked (.slpque (hash chan)) hi).next_head
  cases r with
  | inr _ => exact hspec.elim
  | inl s' =>
    obtain ⟨V', ρ', pre, rest, hI, hF, hk, hx, -, -, -, hdone⟩ := hspec
    have hnil : rest = [] := List.map_eq_nil_iff.mp hx.symm
    have hρ : ρ' = wokenRole s ρ chan := funext fun p => hdone p (by simp [hnil])
    exact ⟨s', V', by rw [wakeup1, hr], hρ ▸ hI, hF, hk⟩

lemma Inv.children (h : Inv s V ρ) (hp : ρ p ≠ .unused) : Children s p (V.kids p) where
  linked := h.rings.linked (.child p) hp
  nodup := h.nodup_kids hp
  length_le := length_le_nproc (h.nodup_kids hp) fun k hk => h.bound k (by
    rcases (h.kid p k hp hk).2 with hl | hl
    · intro e
      simp [e, Role.live] at hl
    · simp [hl])

/-- Roles only change from asleep to ready, except that some entries may be given up. -/
def Wakes (ρ ρ' : Nat → Role) : Prop :=
  ∀ p, (ρ p).live = true → ρ' p = ρ p ∨ (∃ i, ρ p = .asleep i) ∧ ρ' p = .ready

lemma Wakes.refl (ρ : Nat → Role) : Wakes ρ ρ := fun _ _ => .inl rfl

/-- Two steps that wake. -/
lemma Wakes.trans {ρ1 ρ2 ρ3 : Nat → Role} (h : Wakes ρ1 ρ2) (h' : Wakes ρ2 ρ3) : Wakes ρ1 ρ3 := by
  intro p hp
  rcases h p hp with e | ⟨hi, e⟩
  · rcases h' p (by rwa [e]) with e' | ⟨hi, e'⟩
    · exact .inl (e'.trans e)
    · exact .inr ⟨by rwa [e] at hi, e'⟩
  rcases h' p (by rw [e]; rfl) with e' | ⟨⟨i, hi⟩, -⟩
  · exact .inr ⟨hi, e'.trans e⟩
  · rw [e] at hi
    cases hi

lemma wakes_wokenRole (s : Sys) (ρ : Nat → Role) (chan : Nat) : Wakes ρ (wokenRole s ρ chan) := by
  intro p _
  unfold wokenRole
  split
  next hc => exact .inr ⟨⟨_, hc.1⟩, rfl⟩
  next => exact .inl rfl

lemma Wakes.current {ρ' : Nat → Role} (h : Wakes ρ ρ') (hp : ρ p = .current c) :
    ρ' p = .current c := by
  rcases h p (by rw [hp]; rfl) with e | ⟨⟨i, hi⟩, -⟩
  · exact e.trans hp
  · rw [hp] at hi
    cases hi

lemma zombie_of_takes {pid : Int} (h : takes s cp pid 0 p = true) : (s.proc p).state = .zombie := by
  rcases (takes_iff.mp h).2 with hz | hl | hl
  · exact hz
  · exact absurd (by decide) hl
  · exact absurd (by decide) hl.1

/-- **A round of `wait4` with options 0** leaves everything as it is or gives up the entry of a
zombie. -/
theorem wait4Pass_spec (h : Inv s V ρ) (hcp : ρ cp ≠ .unused) (pid : Int) :
    ∃ w s' V' ρ', wait4Pass s cp pid 0 = some (w, s') ∧ Inv s' V' ρ' ∧ Frame s s' ∧ Wakes ρ ρ' ∧
      (w = .sleep → s' = s) := by
  have hpass := wait4Pass_eq (h.children hcp) pid 0
  by_cases hnil : V.kids cp = []
  · rw [if_pos hnil] at hpass
    exact ⟨_, s, V, ρ, hpass, h, .refl s, .refl ρ, by simp⟩
  rw [if_neg hnil] at hpass
  rcases hfind : (V.kids cp).find? (takes s cp pid 0) with - | p
  · rw [hfind] at hpass
    exact ⟨_, s, V, ρ, hpass, h, .refl s, .refl ρ, fun _ => rfl⟩
  rw [hfind] at hpass
  have hz := zombie_of_takes (List.find?_some hfind)
  have hmem := List.mem_of_find?_eq_some hfind
  refine ⟨_, _, _, _, hpass, h.reap hcp hmem hz, ?_, fun q hq => ?_, by simp⟩
  · refine .trans ?_ (.setProc _ p ({ · with state := .unused }) rfl rfl)
    exact ⟨rfl, rfl, rfl, rfl, rfl, fun _ => rfl, fun _ => rfl⟩
  have hqp : q ≠ p := by
    rintro rfl
    have := (h.entry q).shows
    cases hr : ρ q <;> simp_all [Role.Shows, Role.live]
  exact .inl (update_of_ne hqp ..)

variable (procAddr : Nat → Nat)

/-- The loop of `exit` that passes the children on: it runs to its end with no child left, or stops
the CPU. -/
lemma reparent_spec (h : Inv s V ρ) (hrole : ρ cp = .current c) (hip : s.initproc ≠ some cp) :
    ∃ r, forEach Sys.links (.child cp) (reparentBody procAddr cp) (nproc + 1) s = some r ∧
      ∃ V' ρ', Inv (r.elim id id) V' ρ' ∧ Frame s (r.elim id id) ∧ Wakes ρ ρ' := by
  let I : List Node → Sys → Prop := fun xs s' => ∃ V' ρ', xs = (V'.kids cp).map .clink ∧
    Inv s' V' ρ' ∧ Frame s s' ∧ Wakes ρ ρ'
  let R : Sys → Prop := fun s' => ∃ V' ρ', Inv s' V' ρ' ∧ Frame s s' ∧ Wakes ρ ρ'
  have hused : ∀ {ρ'}, Wakes ρ ρ' → ρ' cp ≠ .unused := fun hw => by
    rw [hw.current hrole]
    simp
  obtain ⟨r, hr, hspec⟩ : ∃ r, forEach Sys.links (.child cp) (reparentBody procAddr cp)
      (nproc + 1) s = some r ∧ Sum.elim (I []) R r := by
    refine forEach_spec I R ?_ ?_ ((V.kids cp).map .clink)
      ⟨V, ρ, rfl, h, .refl s, .refl ρ⟩ ?_ ?_
    · rintro x xs s' ⟨V', ρ', hx, hI, -, hw⟩
      have hl := hI.rings.linked (.child cp) (hused hw)
      rw [View.nodes, ← hx] at hl
      refine ⟨?_, hl.2.next_head⟩
      rintro rfl
      have hmem : Node.child cp ∈ (V'.kids cp).map .clink := hx ▸ List.mem_cons_self
      simp at hmem
    · rintro x xs s' ⟨V', ρ', hx, hI, hF, hw⟩
      rcases hkids : V'.kids cp with - | ⟨p, rest⟩
      · simp [hkids] at hx
      simp only [hkids, List.map_cons, List.cons.injEq] at hx
      obtain ⟨rfl, rfl⟩ := hx
      have hmem : p ∈ V'.kids cp := by simp [hkids]
      obtain ⟨hpar, hpr⟩ := hI.kid cp p (hused hw) hmem
      rw [reparentBody, if_pos hpar]
      rcases hinit : s'.initproc with - | ip
      · exact ⟨_, ρ', hI.detach (hused hw) hmem none, hF.trans (.detach s' p none), hw⟩
      have hne : cp ≠ ip := fun e => hip (by rw [← hF.initproc, hinit, e])
      have hip' : ρ' ip ≠ .unused := fun e => by
        simpa [e, Role.live] using hI.init ip hinit
      have hI2 := (hI.detach (hused hw) hmem (some ip)).attach (q := ip) (p := p) hip'
        (by simp [detach]) hpr fun q hq hpq =>
          (hI.mem_erase_kids (hused hw) hmem hq hpq).2 rfl
      have hF2 := (hF.trans (.detach s' p (some ip))).trans (.attach _ ip p)
      have hkids2 : rest = ((V'.setKids cp ((V'.kids cp).erase p)).setKids ip
          ((V'.setKids cp ((V'.kids cp).erase p)).kids ip ++ [p])).kids cp := by
        simp [hne, hkids]
      dsimp only
      generalize attach (detach s' p (some ip)) ip p = s2 at hI2 hF2 ⊢
      split
      · obtain ⟨s3, V3, hs3, hI3, hF3, hk3⟩ := wakeup1_spec hI2 (procAddr ip)
        rw [hs3]
        exact ⟨V3, _, by rw [hk3, ← hkids2], hI3, hF2.trans hF3,
          hw.trans (wakes_wokenRole _ _ _)⟩
      · exact ⟨_, ρ', by rw [← hkids2], hI2, hF2, hw⟩
    · rw [List.length_map]
      exact Nat.lt_succ_of_le (h.children (by simp [hrole])).length_le
    · exact (h.rings.linked (.child cp) (by simp [Head, hrole])).next_head
  refine ⟨r, hr, ?_⟩
  cases r with
  | inl s' =>
    obtain ⟨V', ρ', -, hI, hF, hw⟩ := hspec
    exact ⟨V', ρ', hI, hF, hw⟩
  | inr s' => exact hspec

lemma Inv.unused_of_state (h : Inv s V ρ) (hp : (s.proc p).state = .unused) : ρ p = .unused := by
  have := (h.entry p).shows
  cases hr : ρ p <;> simp_all [Role.Shows]

/-- Clearing an unused entry. -/
lemma Inv.clear (h : Inv s V ρ) (hp : ρ p = .unused) : Inv (clear s p) V ρ := by
  have he := h.entry p
  rw [hp] at he
  refine ⟨h.clear_rings hp, fun q => ?_, h.bound, fun q k hq hk => ?_, h.init,
    ⟨h.holder.lock, h.holder.unique⟩⟩
  · by_cases hq : q = p
    · subst hq
      rw [hp]
      exact { he with shows := by simp [Sched.clear, Role.Shows, Proc.zero] }
    · refine (h.entry q).congr ⟨Iff.rfl, fun _ _ => Iff.rfl, ?_, ?_, rfl, fun _ => Iff.rfl,
        fun _ => Iff.rfl, fun _ => Iff.rfl⟩ <;> simp [Sched.clear, hq]
  · have hkp : k ≠ p := by
      rintro rfl
      simpa [hp, Role.live] using (h.kid q k hq hk).2
    simpa [Sched.clear, hkp] using h.kid q k hq hk

/-- What `proc_alloc` does when it finds an entry and a page. -/
structure Allocated (s : Sys) (ρ : Nat → Role) (p : Nat) (s' : Sys) : Prop where
  role : ρ p = .unused
  lt : p < nproc
  links : s'.links = (clear s p).links.init (.child p)
  proc : ∀ x, x ≠ p → s'.proc x = s.proc x
  state : (s'.proc p).state = .embryo
  context : (s'.proc p).context = .forkret
  cpu : s'.cpu = s.cpu
  idle : s'.idle = s.idle
  lock : s'.lock = s.lock
  initproc : s'.initproc = s.initproc
  live : s'.live = s.live

/-- **`proc_alloc`**. -/
theorem procAlloc_spec (h : Inv s V ρ) (kstack : Option Nat) :
    (∃ p s', procAlloc s kstack = (some p, s') ∧ Allocated s ρ p s') ∨
      ∃ s', procAlloc s kstack = (none, s') ∧
        (s' = s ∨ kstack = none ∧ ∃ p, ρ p = .unused ∧ s' = clear s p) := by
  unfold procAlloc
  rcases hfind : findUnused s with - | p
  · exact .inr ⟨s, rfl, .inl rfl⟩
  have hlt : p < nproc := List.mem_range.mp (List.mem_of_find?_eq_some hfind)
  have hrole : ρ p = .unused := h.unused_of_state (by simpa using List.find?_some hfind)
  rcases kstack with - | k
  · exact .inr ⟨_, rfl, .inr ⟨rfl, p, hrole, rfl⟩⟩
  refine .inl ⟨p, _, rfl, hrole, hlt, rfl, fun x hx => ?_, ?_, ?_, rfl, rfl, rfl, rfl, rfl⟩
  · simp [clear, hx]
  · simp [clear]
  · simp [clear]

end functions

/-! ## One action -/

/-- The process has given up its lock in `sleep(chan, …)` and has not been woken up since. -/
def Sleeps (s : Sys) (ρ : Nat → Role) (p chan : Nat) : Prop :=
  (∃ c lk, s.cpu c = .handingOver p chan lk) ∨
    (ρ p = .asleep (hash chan) ∧ (s.proc p).chan = chan)

/-- What an action does to the sleepers: they stay asleep, or go from their bucket to the run
queue. -/
def KeepsSleepers (s : Sys) (ρ : Nat → Role) (s' : Sys) (ρ' : Nat → Role) : Prop :=
  ∀ p chan, Sleeps s ρ p chan →
    Sleeps s' ρ' p chan ∨ (ρ p = .asleep (hash chan) ∧ ρ' p = .ready)

section step

variable {s s' : Sys} {V V' : View} {ρ ρ' : Nat → Role} {p c : Nat} {k : Cpu}

lemma Wakes.asleep (h : Wakes ρ ρ') (q i : Nat) (hq : ρ q = .asleep i) :
    ρ' q = .asleep i ∨ ρ' q = .ready := by
  rcases h q (by rw [hq]; rfl) with e | ⟨-, e⟩
  · exact .inl (e.trans hq)
  · exact .inr e

lemma Turn.keeps (t : Turn s c k p s') (hc : ∀ q chan lk, s.cpu c ≠ .handingOver q chan lk)
    (hp : ∀ i, ρ p ≠ .asleep i) (hρ : ∀ q, q ≠ p → ρ' q = ρ q) : KeepsSleepers s ρ s' ρ' := by
  rintro q chan (⟨x, lk, hx⟩ | ⟨hr, hch⟩)
  · have hxc : x ≠ c := fun e => hc q chan lk (e ▸ hx)
    exact .inl (.inl ⟨x, lk, by rw [t.cpu, update_of_ne hxc, hx]⟩)
  · have hqp : q ≠ p := fun e => hp _ (e ▸ hr)
    exact .inl (.inr ⟨(hρ q hqp).trans hr, by rw [t.proc q hqp, hch]⟩)

/-- The side conditions hold on after a turn of a CPU. -/
lemma Turn.plain (t : Turn s c k p s') (h : Inv s V ρ) (hpl : Plain s)
    (hk : ∀ q pid o, k = .waiting q pid o → o = 0)
    (hki : ∀ q, k.proc = some q → k = .running q ∨ q ≠ s'.idle c)
    (hctx : CtxOk s' p (s'.proc p).context) : Plain s' := by
  refine ⟨?_, fun q => ?_, ?_⟩
  · rw [t.cpu]
    exact (forall_update_iff s.cpu fun _ k => ∀ q pid o, k = .waiting q pid o → o = 0).mpr
      ⟨hk, fun x _ => hpl.cpu x⟩
  · by_cases hqp : q = p
    · rw [hqp]
      exact hctx
    rw [t.proc q hqp]
    refine ⟨(hpl.proc q).1, fun x hx hq => ?_⟩
    rw [t.cpu] at hx
    by_cases hxc : x = c
    · -- the idle process of `c` was its idle process before
      rw [hxc, update_self] at hx
      rw [hxc] at hq
      have he := h.entry q
      have hidle := (t.shows q _ hqp (he.cpu c)).idle.mp ⟨hx, hq⟩
      obtain ⟨hoff, hq⟩ := (he.idle c).mpr hidle
      exact (hpl.proc q).2 c hoff hq
    · rw [update_of_ne hxc] at hx
      exact (hpl.proc q).2 x hx (t.idle x hxc ▸ hq)
  · rw [t.cpu]
    exact (forall_update_iff s.cpu fun x k => ∀ q, k.proc = some q →
      k = .running q ∨ q ≠ s'.idle x).mpr
      ⟨hki, fun x hx => t.idle x hx ▸ hpl.idle x⟩

/-- A context that was possible stays so when the idle processes are the same. -/
lemma Turn.ctxOk (t : Turn s c k p s') (hidle : s'.idle = s.idle) (hoff : s.cpu c ≠ .off)
    {ctx : Context} (h : CtxOk s p ctx) : CtxOk s' p ctx := by
  refine ⟨h.1, fun x hx hp => h.2 x ?_ (hidle ▸ hp)⟩
  rw [t.cpu] at hx
  by_cases hxc : x = c
  · rw [hxc]
    exact hoff
  · rwa [update_of_ne hxc] at hx

/-- What is proved of an action. -/
def Good (s : Sys) (ρ : Nat → Role) (s' : Sys) : Prop :=
  ∃ V' ρ', Inv s' V' ρ' ∧ Plain s' ∧ KeepsSleepers s ρ s' ρ'

/-- An action of a CPU that goes on with the same process and touches nothing else of the table. -/
lemma Inv.mode (h : Inv s V ρ) (hpl : Plain s) {k₀ : Cpu} (hk₀ : s.cpu c = k₀) (s' : Sys)
    (hp : k₀.proc = some p) (hk : k.proc = some p) (hc : ∀ p chan lk, k₀ ≠ .handingOver p chan lk)
    (hf : ∀ x np, k₀ ≠ .forking x np) (hkf : ∀ x np, k ≠ .forking x np)
    (hkw : ∀ p pid o, k = .waiting p pid o → o = 0) (hki : k = .running p ∨ p ≠ s.idle c)
    (hlinks : s'.links = s.links) (hproc : s'.proc = s.proc) (hlive : s'.live = s.live)
    (hcpu : s'.cpu = update s.cpu c k) (hidle : s'.idle = s.idle)
    (hinit : s'.initproc = s.initproc) (hlock : OneHolder s') :
    Inv s' V ρ ∧ Plain s' ∧ KeepsSleepers s ρ s' ρ := by
  subst hk₀
  have hoff : s.cpu c ≠ .off := fun e => by simp [e] at hp
  have hoff' : k ≠ .off := fun e => by simp [e] at hk
  have t : Turn s c k p s' := ⟨hcpu, by simp [hidle], fun q r hq => hidle ▸
    (CpuSame.of_proc (by rw [hp]; simp) (by rw [hk]; simp) hf hkf hoff hoff').shows hq, hinit,
    by simp [hproc], by simp [hlive]⟩
  have hon : (ρ p).cpu = some c := by rcases h.cpu_role hp with e | ⟨-, e⟩ <;> rw [e] <;> rfl
  have he := h.entry p
  refine ⟨h.stay t (by rw [hon]; simp) ⟨?_, ?_, ?_⟩ hlinks (by rw [hproc]) (hproc ▸ he.shows)
    (by rw [hlive]) hlock, t.plain h hpl hkw (fun q hq => ?_) ?_, t.keeps hc (fun i e => ?_)
    fun _ _ => rfl⟩
  · rw [hk, hidle, ← hp]
    exact hp ▸ he.current c
  · simpa [hoff, hoff', hidle] using he.idle c
  · simpa [hf, hkf] using he.embryo c
  · rw [hk] at hq
    cases hq
    rwa [hidle]
  · rw [hproc]
    exact t.ctxOk hidle hoff (hpl.proc p)
  · simp [e] at hon

lemma Inv.role_of_running (h : Inv s V ρ) (hk : s.cpu c = .running p) (hne : p ≠ s.idle c) :
    ρ p = .current c := ((h.entry p).current c).mp ⟨by rw [hk]; rfl, hne⟩

lemma cpuSame_scheduler (hp : (s.cpu c).proc = some p) (hf : ∀ x np, s.cpu c ≠ .forking x np) :
    CpuSame (s.cpu c) .scheduler p :=
  .of_proc (fun x hx => Option.some.inj (hx.symm.trans hp)) (by simp) hf (by simp)
    (fun e => by simp [e] at hp) (by simp)

/-- A CPU starts with an idle process of its own. -/
lemma good_start (h : Inv s V ρ) (hpl : Plain s) (hk : s.cpu c = .off) (hfree : s.lock = false)
    {s1 : Sys} (ha : Allocated s ρ p s1)
    (hs' : s' = { (s1.setProc p fun r => { r with pgid := r.pid }) with
      idle := update (s1.setProc p fun r => { r with pgid := r.pid }).idle c p }.setCpu c
        .scheduler) : Good s ρ s' := by
  have hidle : s'.idle = update s.idle c p := by
    rw [hs', ← ha.idle]
    rfl
  have hctx : (s'.proc p).context = .forkret := by simp [hs', ha.context]
  have t : Turn s c .scheduler p s' := by
    refine ⟨?_, fun x hx => by simp [hidle, hx], fun q r hq hr => ?_, by simp [hs', ha.initproc],
      fun x hx => by simp [hs', hx, ha.proc], fun x _ => by simp [hs', ha.live]⟩
    · rw [hs', ← ha.cpu]
      rfl
    rw [hidle, update_self]
    refine ⟨?_, ?_, ?_⟩
    · simpa [hk] using hr.current
    · simpa [hk, hq] using hr.idle
    · simpa [hk] using hr.embryo
  refine ⟨_, _, h.alloc ha.role ha.lt t (.inr rfl) ?_ hfree rfl ?_ (by simp [hs', ha.state])
    (by simp [hs', ha.live]), t.plain h hpl (by simp) (by simp) ?_,
    t.keeps (by simp [hk]) (by simp [ha.role]) fun q hq => update_of_ne hq ..⟩
  · rw [hidle, update_self]
    exact ⟨by simp, by simp, by simp⟩
  · rw [hs', ← ha.links]
    rfl
  · rw [hctx]
    exact ⟨by simp, by simp⟩

/-- `yield` puts the process at the end of the run queue. -/
lemma good_yield (h : Inv s V ρ) (hpl : Plain s) (hk : s.cpu c = .running p)
    (hfree : s.lock = false) : Good s ρ (yield s c p) := by
  obtain ⟨l, hl, hyield⟩ :
    ∃ l, l = (if p ≠ s.idle c then s.links.pushBack .schedQue (.link p) else s.links) ∧
      yield s c p = ((s.setLinks l).setProc p fun r =>
        { r with state := .runnable, context := .yield }).setCpu c
        .scheduler := by
    refine ⟨_, rfl, ?_⟩
    unfold yield
    split <;> rfl
  have t : Turn s c .scheduler p (yield s c p) := hyield ▸ ⟨rfl, fun _ _ => rfl, fun q r hq =>
    (cpuSame_scheduler (by rw [hk]; rfl) (by simp [hk])).shows hq, rfl, fun x hx => by simp [hx],
      fun _ _ => rfl⟩
  rw [hyield] at t ⊢
  have hplain := t.plain h hpl (by simp) (by simp) (by simp [CtxOk])
  have he := h.entry p
  by_cases hi : p = s.idle c
  · have hrole : ρ p = .idle c := (he.idle c).mp ⟨by simp [hk], hi⟩
    refine ⟨V, ρ, h.stay t (by simp [hrole]) ?_ (hl.trans (if_neg (not_not.mpr hi))) (by simp)
      (by simp [hrole, Role.Shows]) rfl (h.holder.update (.inl hfree) t.cpu (by simp)), hplain,
      t.keeps (by simp [hk]) (by simp [hrole]) fun _ _ => rfl⟩
    rw [hrole]
    exact ⟨by simp, by simp [← hi], by simp⟩
  · have hrole := h.role_of_running hk hi
    refine ⟨V.setRun (V.run ++ [p]), _, h.leave hrole t (.inl hfree) (.inl rfl)
      (he.relists_ready rfl rfl (by simp [hrole])) ?_ rfl rfl (by simp) (by simp [Role.Shows]) ?_
        (.inl rfl), hplain,
      t.keeps (by simp [hk]) (by simp [hrole]) fun q hq => update_of_ne hq ..⟩
    · rw [hl, if_pos hi, View.nodes_setRun, List.map_append]
      exact h.rings.pushBack .schedQue (.link p) trivial not_false
        (h.link_free (by simp [hrole]) (by simp [hrole]))
    · exact he.live.trans (by rw [hrole]; rfl)

/-- `sleep` puts the process into the bucket of its channel. -/
lemma good_enqueue (h : Inv s V ρ) (hpl : Plain s) (hp : (s.cpu c).proc = some p)
    (hne : p ≠ s.idle c) (hf : ∀ x np, s.cpu c ≠ .forking x np) (hl : (s.cpu c).locks = true)
    (chan : Nat) (ctx : Context) (hctx : ∀ pid o, ctx = .wait4 pid o → o = 0)
    (hhand : ∀ q chan' lk, s.cpu c = .handingOver q chan' lk → q = p ∧ chan' = chan) :
    Good s ρ (((enqueue s p chan ctx).setCpu c .scheduler).setLock false) := by
  have he := h.entry p
  have hrole : ρ p = .current c := (he.current c).mp ⟨hp, hne⟩
  rw [hrole] at he
  have t : Turn s c .scheduler p (((enqueue s p chan ctx).setCpu c .scheduler).setLock false) :=
    ⟨rfl, fun _ _ => rfl, fun q r hq => (cpuSame_scheduler hp hf).shows hq, rfl,
      fun x hx => by simp [enqueue, hx], fun _ _ => rfl⟩
  have hlists : Relists V p (.asleep (hash chan))
      (V.setSlp (hash chan) (V.slp (hash chan) ++ [p])) := by
    refine ⟨by simp [he.run], fun i hi => ?_, fun _ _ => Iff.rfl, fun q hq i => ?_⟩ <;>
      by_cases hic : i = hash chan
    · subst hic; simp
    · simp [hic, Ne.symm hic, he.slp i hi]
    · subst hic; simp [hq]
    · simp [hic]
  have hI := h.leave hrole t (.inr hl) (.inr (.inl ⟨_, rfl⟩)) hlists
    (h.push_slp (by simp [hrole]) (by simp [hrole]) (hash_lt chan)) rfl rfl (by simp [enqueue])
    (by simp [enqueue, Role.Shows]) he.live (.inl rfl)
  refine ⟨_, _, hI, t.plain h hpl (by simp) (by simp) ⟨fun pid o e => ?_, fun x hx hpx => ?_⟩,
    ?_⟩
  · exact hctx pid o (by simpa [enqueue] using e)
  · simpa using ((hI.entry p).idle x).mp ⟨hx, hpx⟩
  rintro q chan' (⟨x, lk, hx⟩ | ⟨hr, hch⟩)
  · by_cases hxc : x = c
    · subst hxc
      obtain ⟨rfl, rfl⟩ := hhand q chan' lk hx
      exact .inl (.inr ⟨by simp, by simp [enqueue]⟩)
    · exact .inl (.inl ⟨x, lk, by simp [enqueue, hxc, hx]⟩)
  have hqp : q ≠ p := by
    rintro rfl
    simp [hrole] at hr
  exact .inl (.inr ⟨by simp [hqp, hr], by simp [enqueue, hqp, hch]⟩)

/-- The mode that `resume` puts the CPU in. -/
def resumed (ctx : Context) (p : Nat) : Cpu :=
  match ctx with
  | .forkret | .yield => .running p
  | .sleep lk => .relocking p lk
  | .wait4 pid options => .waiting p pid options

lemma resumed_proc (ctx : Context) (p : Nat) : (resumed ctx p).proc = some p := by
  cases ctx <;> rfl

lemma resumed_ne_forking (ctx : Context) (p x np : Nat) : resumed ctx p ≠ .forking x np := by
  cases ctx <;> simp [resumed]

/-- What `resume` does: no more than the state of the process, the CPU and the lock change. -/
structure Resumes (s : Sys) (c p : Nat) (s' : Sys) : Prop where
  links : s'.links = s.links
  idle : s'.idle = s.idle
  initproc : s'.initproc = s.initproc
  live : s'.live = s.live
  proc : ∃ st, s'.proc = update s.proc p { s.proc p with state := st } ∧
    (st = (s.proc p).state ∨ st = .running)
  cpu : ∀ x, s'.cpu x = update s.cpu c (resumed (s.proc p).context p) x
  lock : (resumed (s.proc p).context p).locks = true → s'.lock = true

/-- Where a process goes on when it is scheduled again. -/
lemma resume_spec (s : Sys) (c p : Nat) : Resumes s c p (resume s c p) := by
  unfold resume
  cases h : (s.proc p).context with
  | forkret =>
    refine ⟨rfl, rfl, rfl, rfl, ⟨_, ?_, .inl rfl⟩, fun x => by rw [h]; rfl, by simp [h, resumed]⟩
    exact (update_eq_self p s.proc).symm
  | yield | sleep lk =>
    exact ⟨rfl, rfl, rfl, rfl, ⟨_, rfl, .inr rfl⟩, fun x => by rw [h]; rfl,
      by simp [h, resumed]⟩
  | wait4 pid options =>
    exact ⟨rfl, rfl, rfl, rfl, ⟨_, rfl, .inr rfl⟩, fun x => by rw [h]; rfl, fun _ => rfl⟩

lemma Resumes.turn (hr : Resumes s c p s') (hk : s.cpu c = .scheduler) :
    Turn s c (resumed (s.proc p).context p) p s' := by
  obtain ⟨st, hproc, -⟩ := hr.proc
  refine ⟨funext hr.cpu, by simp [hr.idle], fun q r hq => hr.idle ▸ CpuSame.shows ?_ hq,
    hr.initproc, fun x hx => by simp [hproc, hx], by simp [hr.live]⟩
  rw [hk]
  exact .of_proc (by simp) (by rw [resumed_proc]; simp) (by simp) (resumed_ne_forking _ _)
    (by simp) (by unfold resumed; split <;> simp)

section

variable (h : Inv s V ρ) (hpl : Plain s)
include h hpl

/-- One round of the scheduler. -/
lemma good_schedule (hk : s.cpu c = .scheduler)
    (hfree : s.lock = false) (hs : schedule s c = some s') : Good s ρ s' := by
  have hoff : s.cpu c ≠ .off := by simp [hk]
  have hwait : ∀ p q pid o, resumed (s.proc p).context p = .waiting q pid o → o = 0 := by
    intro p q pid o hw
    cases hc : (s.proc p).context with
    | wait4 pid' o' =>
      rw [hc] at hw
      simp only [resumed, Cpu.waiting.injEq] at hw
      exact hw.2.2 ▸ (hpl.proc p).1 pid' o' hc
    | _ => simp [hc, resumed] at hw
  have hfirst := (h.rings.linked .schedQue trivial).next_head
  cases hrun : V.run with
  | nil =>
    rw [View.nodes, hrun] at hfirst
    simp only [List.map_nil, List.headD_nil] at hfirst
    simp only [schedule, hfirst, Option.some.injEq] at hs
    subst hs
    have hr := resume_spec s c (s.idle c)
    have t := hr.turn hk
    obtain ⟨st, hproc, hst⟩ := hr.proc
    have he := h.entry (s.idle c)
    have hrole : ρ (s.idle c) = .idle c := (he.idle c).mp ⟨hoff, rfl⟩
    have hctx : resumed (s.proc (s.idle c)).context (s.idle c) = .running (s.idle c) := by
      rcases (hpl.proc (s.idle c)).2 c hoff rfl with e | e <;> rw [e] <;> rfl
    refine ⟨V, ρ, h.stay t (by simp [hrole]) ?_ hr.links (by simp [hproc]) ?_
      (by rw [hr.live]) (h.holder.update (.inl hfree) t.cpu hr.lock),
      t.plain h hpl (hwait _) (fun q hq => ?_) ?_,
        t.keeps (by simp [hk]) (by simp [hrole]) fun _ _ => rfl⟩
    · rw [hrole, hctx, hr.idle]
      exact ⟨by simp, by simp, by simp⟩
    · have := he.shows
      rw [hrole] at this ⊢
      rw [hproc, update_self]
      rcases hst with rfl | rfl
      · exact this
      · exact ⟨by simp, by simp⟩
    · rw [hctx] at hq ⊢
      simp only [Cpu.proc, Option.some.injEq] at hq
      exact .inl (by rw [hq])
    · simpa [hproc] using t.ctxOk hr.idle hoff (hpl.proc (s.idle c))
  | cons p rest =>
    rw [View.nodes, hrun] at hfirst
    simp only [List.map_cons, List.headD_cons] at hfirst
    simp only [schedule, hfirst, Option.some.injEq] at hs
    subst hs
    have hmem : p ∈ V.run := by simp [hrun]
    have he := h.entry p
    have hrole : ρ p = .ready := he.run.mp hmem
    have hr := resume_spec (s.setLinks (s.links.drop (.link p))) c p
    have t0 := hr.turn hk
    have t : Turn s c (resumed (s.proc p).context p) p _ :=
      { t0 with cpu := t0.cpu }
    obtain ⟨st, hproc, hst⟩ := hr.proc
    simp only [Sys.setLinks_proc] at hproc hst
    have hne : p ≠ s.idle c := fun e => by simpa [hrole] using (he.idle c).mp ⟨hoff, e⟩
    refine ⟨_, _, h.enter hmem t hne hfree (resumed_proc _ _) (resumed_ne_forking _ _)
      hr.links hr.idle (by simp [hproc]) ?_ (by rw [hr.live]; rfl) hr.lock,
      t.plain h hpl (hwait p) (fun q hq => ?_) ?_, t.keeps (by simp [hk]) (by simp [hrole])
      fun q hq => update_of_ne hq ..⟩
    · have := he.shows
      rw [hrole] at this
      rw [hproc, update_self]
      rcases hst with rfl | rfl
      · exact ⟨this.1, this.2.1⟩
      · exact ⟨by simp, by simp⟩
    · rw [resumed_proc, Option.some.injEq] at hq
      subst hq
      exact .inr (hr.idle ▸ hne)
    · simpa [hproc] using t.ctxOk hr.idle hoff (hpl.proc p)

/-- The first half of `fork`: an entry for the child. -/
lemma good_fork {cp : Nat} (hk : s.cpu c = .running cp)
    (hne : cp ≠ s.idle c) (hfree : s.lock = false) {s1 : Sys} (ha : Allocated s ρ p s1) :
    Good s ρ (s1.setCpu c (.forking cp p)) := by
  have hcp : cp ≠ p := by
    rintro rfl
    simpa [ha.role] using h.cpu_role (c := c) (p := cp) (by rw [hk]; rfl)
  have hpi : p ≠ s.idle c := fun e => by
    simpa [ha.role] using ((h.entry p).idle c).mp ⟨by simp [hk], e⟩
  have t : Turn s c (.forking cp p) p (s1.setCpu c (.forking cp p)) := by
    refine ⟨by rw [← ha.cpu]; rfl, by simp [ha.idle], fun q r hq => ?_, ha.initproc, ha.proc,
      by simp [ha.live]⟩
    rw [hk, Sys.setCpu_idle, ha.idle]
    exact CpuSame.shows ⟨by simp, fun x hx => by simp [hx.symm], by simp⟩ hq
  refine ⟨_, _, h.alloc ha.role ha.lt t (.inl rfl) ?_ hfree rfl ha.links ha.state
    (by simp [ha.live]), t.plain h hpl (by simp) (fun q hq => ?_) ?_,
    t.keeps (by simp [hk]) (by simp [ha.role]) fun q hq => update_of_ne hq ..⟩
  · simp only [Sys.setCpu_idle, ha.idle]
    exact ⟨by simp [hcp], by simp [hpi], by simp⟩
  · simp only [Cpu.proc, Option.some.injEq] at hq
    simp [← hq, ha.idle, hne]
  · simp [ha.context, CtxOk]

/-- An entry that is cleared and given up again. -/
lemma good_clear (hp : ρ p = .unused) : Good s ρ (clear s p) := by
  refine ⟨V, ρ, h.clear hp, ⟨hpl.cpu, fun q => ?_, hpl.idle⟩, fun q chan hq => ?_⟩
  · by_cases hqp : q = p
    · subst hqp
      simp [clear, Proc.zero, CtxOk]
    · simpa [clear, hqp, CtxOk] using hpl.proc q
  refine .inl (hq.imp id fun hrole => ⟨hrole.1, ?_⟩)
  have hqp : q ≠ p := by
    rintro rfl
    simp [hp] at hrole
  simpa [clear, hqp] using hrole.2

/-- The second half: the child is ready, or its entry is given back. -/
lemma good_forkEnd {cp np : Nat} (hk : s.cpu c = .forking cp np)
    (hfree : s.lock = false) (pgdir : Option Nat) : Good s ρ (forkEnd s c cp np pgdir) := by
  obtain ⟨hrole, -⟩ := h.forking hk
  have hidle : (forkEnd s c cp np pgdir).idle = s.idle := by cases pgdir <;> rfl
  have t : Turn s c (.running cp) np (forkEnd s c cp np pgdir) := by
    refine ⟨by cases pgdir <;> rfl, by simp [hidle], fun q r hq => ?_, by cases pgdir <;> rfl,
      fun x hx => ?_, fun x hx => ?_⟩
    · rw [hk, hidle]
      exact CpuSame.shows ⟨by simp, fun x hx => by simp [hx.symm], by simp⟩ hq
    all_goals cases pgdir <;> simp [forkEnd, hx]
  have hplain : Plain (forkEnd s c cp np pgdir) := by
    refine t.plain h hpl (by simp) (fun q hq => .inl ?_) ?_
    · simp only [Cpu.proc, Option.some.injEq] at hq
      rw [hq]
    have hctx : ((forkEnd s c cp np pgdir).proc np).context = (s.proc np).context := by
      cases pgdir <;> simp [forkEnd]
    rw [hctx]
    exact t.ctxOk hidle (by simp [hk]) (hpl.proc np)
  have hkeep : ∀ r, KeepsSleepers s ρ (forkEnd s c cp np pgdir) (update ρ np r) := fun r =>
    t.keeps (by simp [hk]) (by simp [hrole]) fun q hq => update_of_ne hq ..
  cases pgdir with
  | none => exact ⟨_, _, h.forkFailed hk hfree t rfl rfl (by simp [forkEnd]) rfl, hplain, hkeep _⟩
  | some pgdir =>
    exact ⟨_, _, h.forked hk hfree t rfl rfl (by simp [forkEnd]) (by simp [forkEnd])
      (by simp [forkEnd]), hplain, hkeep _⟩

end

/-- A function that only wakes processes up, or gives up entries of zombies. -/
lemma Frame.keeps (hF : Frame s s') (hpl : Plain s) (hw : Wakes ρ ρ') :
    Plain s' ∧ KeepsSleepers s ρ s' ρ' := by
  refine ⟨⟨hF.cpu ▸ hpl.cpu, fun q => ?_, ?_⟩, fun q chan hq => ?_⟩
  · rw [hF.context]
    simpa [CtxOk, hF.cpu, hF.idle] using hpl.proc q
  · rw [hF.cpu, hF.idle]
    exact hpl.idle
  rcases hq with ⟨x, lk, hx⟩ | ⟨hr, hch⟩
  · exact .inl (.inl ⟨x, lk, by rw [hF.cpu, hx]⟩)
  rcases hw.asleep q _ hr with e | e
  · exact .inl (.inr ⟨e, (hF.chan q).trans hch⟩)
  · exact .inr ⟨hr, e⟩

lemma OneHolder.quiet (h : OneHolder s) (hcpu : s'.cpu = Function.update s.cpu c k)
    (hk : k.locks = false) (hlock : s'.lock = s.lock) : OneHolder s' := by
  have hold : ∀ x, (s'.cpu x).locks = true → (s.cpu x).locks = true := by
    rw [hcpu]
    exact (forall_update_iff s.cpu fun x k => k.locks = true → _).mpr
      ⟨fun e => absurd (hk.symm.trans e) (by decide), fun _ _ => id⟩
  exact ⟨fun x hx => hlock.trans (h.lock x (hold x hx)),
    fun x y hx hy => h.unique x y (hold x hx) (hold y hy)⟩

/-- Two parts of an action, the second of which makes nobody ready. -/
lemma KeepsSleepers.trans {s1 : Sys} {ρ1 : Nat → Role} (h : KeepsSleepers s ρ s1 ρ1)
    (h' : KeepsSleepers s1 ρ1 s' ρ') (hready : ∀ p, ρ1 p = .ready ↔ ρ' p = .ready) :
    KeepsSleepers s ρ s' ρ' := by
  intro p chan hp
  rcases h p chan hp with hp | ⟨e, e'⟩
  · rcases h' p chan hp with hp' | ⟨e, e'⟩
    · exact .inl hp'
    · rw [← hready, e] at e'
      cases e'
  · exact .inr ⟨e, (hready p).mp e'⟩

/-- `wait4` with options 0, anything else. -/
def Action.plain : Action → Prop
  | .wait4 _ options => options = 0
  | _ => True

variable (procAddr : Nat → Nat)

section

variable (h : Inv s V ρ) (hpl : Plain s)
include h hpl

/-- One pass of the loop of `wait4`. -/
lemma good_pass {pid : Int} (hk : s.cpu c = .waiting p pid 0)
    (hs : step procAddr s c .pass = some s') : Good s ρ s' := by
  have hproc : (s.cpu c).proc = some p := by rw [hk]; rfl
  have hlocks : (s.cpu c).locks = true := by rw [hk]; rfl
  have hne : p ≠ s.idle c := (hpl.idle c p hproc).resolve_left (by simp [hk])
  have hused : ρ p ≠ .unused := by
    rcases h.cpu_role hproc with e | ⟨-, e⟩ <;> simp [e]
  obtain ⟨w, s1, V1, ρ1, hw, hI, hF, hwakes, hsleep⟩ := wait4Pass_spec h hused pid
  simp only [step, hk, hw] at hs
  by_cases hws : w = .sleep
  · obtain rfl := hsleep hws
    simp only [hws, Option.some.injEq] at hs
    subst hs
    exact good_enqueue h hpl hproc hne (by simp [hk]) hlocks _ _ (by simp) (by simp [hk])
  have hs' : s' = (s1.setCpu c (.running p)).setLock false := by
    cases w with
    | sleep => exact absurd rfl hws
    | _ => simpa using hs.symm
  obtain ⟨hpl1, hkeep⟩ := hF.keeps hpl hwakes
  have hk1 : s1.cpu c = .waiting p pid 0 := by rw [hF.cpu, hk]
  subst hs'
  obtain ⟨hI', hpl', hkeep'⟩ := hI.mode (k := .running p) hpl1 hk1
    ((s1.setCpu c (.running p)).setLock false) rfl rfl nofun nofun nofun nofun
      (.inl rfl) rfl rfl rfl rfl rfl rfl
    (hI.holder.update (.inr (by rw [hk1]; rfl)) rfl (by simp))
  exact ⟨V1, ρ1, hI', hpl', hkeep.trans hkeep' fun _ => Iff.rfl⟩

/-- **`exit`**: the process becomes a zombie and leaves its CPU to the scheduler, or the CPU stops
with `ptable.lock` taken. -/
theorem exit_spec (hk : s.cpu c = .running p) (hne : p ≠ s.idle c)
    (hfree : s.lock = false) (hip : s.initproc ≠ some p) (err : Int) :
    ∃ s', exit procAddr s c p err = some s' ∧ Good s ρ s' := by
  have hrole := h.role_of_running hk hne
  obtain ⟨s1, V1, hs1, hI1, hF1, -⟩ := wakeup1_spec h (chanOf procAddr (s.proc p).parent)
  have hw1 := wakes_wokenRole s ρ (chanOf procAddr (s.proc p).parent)
  obtain ⟨r, hr, V2, ρ2, hI2, hF2, hw2⟩ := reparent_spec procAddr hI1 (hw1.current hrole)
    (hF1.initproc ▸ hip)
  have hF := hF1.trans hF2
  have hw := hw1.trans hw2
  have hrole2 := hw.current hrole
  obtain ⟨hpl2, hkeep⟩ := hF.keeps hpl hw
  have hk2 := (congrFun hF.cpu c).trans hk
  simp only [exit, hs1, hr, Option.bind_eq_bind, Option.bind_some]
  cases r with
  | inl s2 =>
    simp only [Sum.elim_inl, id] at hI2 hF hpl2 hkeep hk2
    have t : Turn s2 c .scheduler p (((s2.setProc p fun r => { r with
        xstate := err % 2 ^ 7, state := .zombie }).setCpu c .scheduler).setLive p false) :=
      ⟨rfl, fun _ _ => rfl,
        fun q r hq => (cpuSame_scheduler (by rw [hk2]; rfl) (by simp [hk2])).shows hq, rfl,
        fun x hx => by simp [hx], fun x hx => by simp [hx]⟩
    refine ⟨_, rfl, V2, _, hI2.leave (r := .zombie) hrole2 t
      (.inl (hF.lock.trans hfree)) (.inr (.inr rfl)) ((hI2.entry p).relists rfl rfl
        (by simp [hrole2]) (by simp [hrole2])) hI2.rings rfl rfl (by simp) (by simp [Role.Shows])
      (by simp [Role.live]) (.inr (hF.initproc ▸ hip)),
      t.plain hI2 hpl2 (by simp) (by simp) ?_,
      hkeep.trans (t.keeps (by simp [hk2]) (by simp [hrole2]) fun q hq => update_of_ne hq ..)
        fun q => ?_⟩
    · simpa using t.ctxOk rfl (by simp [hk2]) (hpl2.proc p)
    by_cases hq : q = p
    · simp [hq, hrole2]
    · simp [hq]
  | inr s2 =>
    simp only [Sum.elim_inr, id] at hI2 hF hpl2 hkeep hk2
    obtain ⟨hI', hpl', hkeep'⟩ := hI2.mode (k := .halted p) hpl2 hk2
      ((s2.setLock true).setCpu c (.halted p)) rfl rfl (by simp) (by simp) (by simp) (by simp)
        (.inr (hF.idle ▸ hne)) rfl rfl rfl rfl rfl
      rfl (hI2.holder.update (.inl (hF.lock.trans hfree)) rfl fun _ => rfl)
    exact ⟨_, rfl, V2, ρ2, hI', hpl', hkeep.trans hkeep' fun _ => Iff.rfl⟩

/-- **One action**: the invariant is kept, and sleepers are not lost. -/
theorem step_spec {a : Action} (ha : a.plain)
    (hs : step procAddr s c a = some s') : Good s ρ s' := by
  unfold step at hs
  split at hs <;> try simp only [Option.ite_none_left_eq_some, Option.ite_none_right_eq_some,
    Bool.or_eq_true, decide_eq_true_eq, not_or, Bool.not_eq_true, Option.some.injEq] at hs
  · next kstack hk => -- start
    obtain ⟨hfree, hs⟩ := hs
    rcases procAlloc_spec h (some kstack) with ⟨p, s1, he, ha⟩ | ⟨s1, he, -⟩
    · simp only [he, Option.some.injEq] at hs
      exact good_start h hpl hk hfree ha hs.symm
    · simp [he] at hs
  · next hk => exact good_schedule h hpl hk hs.1 hs.2
  · next p hk => -- yield
    obtain ⟨hfree, rfl⟩ := hs
    exact good_yield h hpl hk hfree
  iterate 2
    next lk p hk => -- acquire and release
      obtain ⟨-, rfl⟩ := hs
      exact ⟨V, ρ, h.mode (k := .running p) hpl hk _ rfl rfl nofun nofun nofun nofun (.inl rfl)
        rfl rfl rfl (by rw [← hk, update_eq_self]; rfl) rfl rfl ⟨h.holder.lock, h.holder.unique⟩⟩
  · next chan lk p hk => -- sleep
    obtain ⟨⟨⟨hne, hfree⟩, -⟩, rfl⟩ := hs
    exact ⟨V, ρ, h.mode (k := .handingOver p chan lk) hpl hk _ rfl rfl nofun nofun nofun nofun
      (.inr hne) rfl rfl rfl rfl rfl rfl (h.holder.update (.inl hfree) rfl fun _ => rfl)⟩
  · next p chan lk hk => -- doze
    subst hs
    have hproc : (s.cpu c).proc = some p := by rw [hk]; rfl
    refine good_enqueue h hpl hproc ((hpl.idle c p hproc).resolve_left (by simp [hk]))
      (by simp [hk]) (by rw [hk]; rfl) chan (.sleep lk) (by simp) fun q chan' lk' hq => ?_
    rw [hk] at hq
    cases hq
    exact ⟨rfl, rfl⟩
  · next p lk hk => -- relock
    obtain ⟨-, rfl⟩ := hs
    exact ⟨V, ρ, h.mode (k := .running p) hpl hk _ rfl rfl nofun nofun nofun nofun (.inl rfl)
      rfl rfl rfl rfl rfl rfl (h.holder.quiet rfl rfl rfl)⟩
  · next chan p hk => -- wakeup
    obtain ⟨s1, V1, hs1, hI, hF, -⟩ := wakeup1_spec h chan
    rw [hs1] at hs
    cases hs.2
    exact ⟨V1, _, hI, hF.keeps hpl (wakes_wokenRole s ρ chan)⟩
  · next kstack p hk => -- fork
    obtain ⟨⟨hne, hfree⟩, hs⟩ := hs
    rcases procAlloc_spec h kstack with ⟨np, s1, he, hal⟩ | ⟨s1, he, hs1⟩ <;> rw [he] at hs
      <;> cases hs
    · exact good_fork h hpl hk hne hfree hal
    rcases hs1 with rfl | ⟨-, np, hrole, rfl⟩
    · exact ⟨V, ρ, h, hpl, fun q chan hq => .inl hq⟩
    · exact good_clear h hpl hrole
  · next pgdir p np hk => -- forkEnd
    obtain ⟨hfree, rfl⟩ := hs
    exact good_forkEnd h hpl hk hfree pgdir
  · next pid options p hk => -- wait4
    obtain rfl : options = 0 := ha
    obtain ⟨⟨hne, hfree⟩, rfl⟩ := hs
    exact ⟨V, ρ, h.mode (k := .waiting p pid 0) hpl hk _ rfl rfl nofun nofun nofun (by simp)
      (.inr hne) rfl rfl rfl rfl rfl rfl (h.holder.update (.inl hfree) rfl fun _ => rfl)⟩
  · next p pid options hk => -- pass
    obtain rfl := hpl.cpu c p pid options hk
    exact good_pass procAddr h hpl hk (by simpa only [step, hk] using hs)
  · next err p hk => -- exit
    obtain ⟨⟨⟨hne, hfree⟩, hip⟩, hs⟩ := hs
    obtain ⟨s1, hs1, hgood⟩ := exit_spec procAddr h hpl hk hne hfree hip err
    rw [hs1] at hs
    cases hs
    exact hgood
  · cases hs

end

end step

end RpiOs.Sched
