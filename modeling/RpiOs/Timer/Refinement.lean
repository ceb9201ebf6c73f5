import Mathlib.Logic.Relation
import RpiOs.Timer.Positions

/-!
# The timer wheel is a set of timers

What the wheel is for: `TimerSet` has, for each timer that was added, the time at which it is due. A
pass calls the timers that are due now, in any order, and ends when none is left. Nothing is said
about slots.

* **`wheel_refines_timer_set`**: along every run the wheel does what the set does.
-/

namespace RpiOs.Timer

open Relation Function

/-- When a timer is called: at a time, or never, for one that is too far in the future. -/
inductive Due where
  | at (d : BitVec 64)
  | never
  deriving DecidableEq

/-- At its time, or now if that is past. -/
def dueOf (now expires : BitVec 64) : Due :=
  if (expires - now).slt 0 then .at now
  else if (expires - now).toNat ≤ 0xffffffff then .at expires
  else .never

/-- A set of timers. -/
@[ext] structure TimerSet where
  timer : Nat → Option Due
  now : BitVec 64
  jiffies : BitVec 64
  inFn : Bool
  fired : List (Nat × BitVec 64)

namespace TimerSet

@[simps] def set (S : TimerSet) (t : Nat) (d : Option Due) : TimerSet :=
  { S with timer := update S.timer t d }

def caughtUp (S : TimerSet) : Bool := (S.jiffies - S.now).slt 0

/-- A call of a timer that is due, or the end of a pass when none is. -/
inductive Serve : TimerSet → TimerSet → Prop
  | fire {S : TimerSet} {t : Nat} (pass : S.inFn = true ∨ S.caughtUp = false)
      (due : S.timer t = some (.at S.now)) :
      Serve S { S.set t none with inFn := true, fired := S.fired ++ [(t, S.now)] }
  | next {S : TimerSet} (pass : S.inFn = true ∨ S.caughtUp = false)
      (none : ∀ t, S.timer t ≠ some (.at S.now)) :
      Serve S { S with now := S.now + 1, inFn := false }

/-- Passes, up to a call or until `jiffies` is passed. -/
def Runs (S S' : TimerSet) : Prop :=
  (S.inFn = false ∧ S.caughtUp = true ∧ S' = S) ∨
    (TransGen Serve S S' ∧ (S'.inFn = true ∨ S'.caughtUp = true))

/-- One action. -/
inductive Step : TimerSet → Act → TimerSet → Prop
  | add {S : TimerSet} {t : Nat} {expires : BitVec 64} (idle : S.timer t = none) :
      Step S (.add t expires) (S.set t (some (dueOf S.now expires)))
  | addTwice {S : TimerSet} {t : Nat} {expires : BitVec 64} (pending : S.timer t ≠ none) :
      Step S (.add t expires) S
  | mod {S : TimerSet} {t : Nat} {expires : BitVec 64} :
      Step S (.mod t expires) (S.set t (some (dueOf S.now expires)))
  | del {S : TimerSet} {t : Nat} : Step S (.del t) (S.set t none)
  | tick {S : TimerSet} : Step S .tick { S with jiffies := S.jiffies + 1 }
  | run {S S' : TimerSet} (runs : Runs S S') : Step S .run S'

/-- A run. -/
inductive Run : TimerSet → List Act → TimerSet → Prop
  | nil {S : TimerSet} : Run S [] S
  | cons {S S₁ S₂ : TimerSet} {a : Act} {as : List Act} (step : Step S a S₁) (rest : Run S₁ as S₂) :
      Run S (a :: as) S₂

/-- No timers, at time 0. -/
def empty : TimerSet := ⟨fun _ => none, 0, 0, false, []⟩

end TimerSet

open TimerSet

/-! ## The set that a wheel stands for -/

section sim

variable {w : Wheel} {k T : Nat} {loc loc' : Nat → Option (Nat × Nat)} {t : Nat} {S : TimerSet}

/-- A timer that is on a list is due at its time, one that is pending and on no list never. -/
def view (w : Wheel) (loc : Nat → Option (Nat × Nat)) : TimerSet where
  timer t :=
    match loc t with
    | some (_, D) => some (.at (BitVec.ofNat 64 D))
    | none => if w.pending t then some .never else none
  now := w.timerJiffies
  jiffies := w.jiffies
  inFn := w.inFn
  fired := w.fired

/-- The wheel stands for the set. Within a pass its levels have cascaded. -/
def Sim (w : Wheel) (S : TimerSet) : Prop :=
  ∃ T loc, Inv w (if w.inFn then 5 else 0) T loc ∧ S = view w loc

lemma Sim.fired_eq (h : Sim w S) : S.fired = w.fired := by
  obtain ⟨_, _, -, rfl⟩ := h
  rfl

lemma Sim.inFn_eq (h : Sim w S) : S.inFn = w.inFn := by
  obtain ⟨_, _, -, rfl⟩ := h
  rfl

lemma Sim.now_eq (h : Sim w S) : S.now = w.timerJiffies := by
  obtain ⟨_, _, -, rfl⟩ := h
  rfl

lemma view_timer_of_some {l D : Nat} (h : loc t = some (l, D)) :
    (view w loc).timer t = some (.at (BitVec.ofNat 64 D)) := by
  simp only [view, h]

lemma view_timer_of_none (h : loc t = none) :
    (view w loc).timer t = if w.pending t then some .never else none := by
  simp only [view, h]

lemma Inv.view_eq_none_iff (h : Inv w k T loc) :
    (view w loc).timer t = none ↔ w.pending t = false := by
  cases hloc : loc t with
  | none =>
    rw [view_timer_of_none hloc]
    cases w.pending t <;> simp
  | some x =>
    rw [view_timer_of_some hloc, h.pending t (by simp [hloc])]
    simp

/-- No timer on the wheel is overdue. -/
lemma Inv.due_le (h : Inv w k T loc) {l D : Nat} (ht : loc t = some (l, D)) : T ≤ D := by
  obtain ⟨-, hlow, -⟩ := h.range t l D ht
  by_cases hzero : l = 0
  · subst hzero
    rw [window_zero, show unit 0 = 1 from rfl, Nat.div_one] at hlow
    exact hlow
  have hu := unit_pos l
  have hstart := (window_bounds hzero T k).1.trans hlow
  have hround : T ≤ unit l * ((T + unit l - 1) / unit l) := by
    have := Nat.lt_mul_div_succ (T + unit l - 1) hu
    rw [Nat.mul_add] at this
    omega
  calc T ≤ unit l * ((T + unit l - 1) / unit l) := hround
    _ ≤ unit l * (D / unit l) := Nat.mul_le_mul_left _ hstart
    _ ≤ D := Nat.mul_div_le D (unit l)

/-- The timers that are due are those at the current time. -/
lemma Inv.view_now_iff (h : Inv w k T loc) :
    (view w loc).timer t = some (.at (view w loc).now) ↔ ∃ l, loc t = some (l, T) := by
  rcases hloc : loc t with - | x
  · rw [view_timer_of_none hloc]
    cases w.pending t <;> simp
  obtain ⟨l, D⟩ := x
  have hle := h.due_le hloc
  have hsoon := h.soon t l D hloc
  rw [view_timer_of_some hloc, show (view w loc).now = BitVec.ofNat 64 T from h.now]
  simp only [Option.some.injEq, Due.at.injEq, Prod.mk.injEq, exists_eq_left']
  constructor
  · intro heq
    have hmod : D % 2 ^ 64 = T % 2 ^ 64 := by
      have := congrArg BitVec.toNat heq
      simpa using this
    omega
  · rintro rfl
    rfl

/-! ## Adding and deleting -/

lemma internalAddTimer_other (w : Wheel) (t : Nat) :
    (internalAddTimer w t).timerJiffies = w.timerJiffies ∧
      (internalAddTimer w t).jiffies = w.jiffies ∧ (internalAddTimer w t).inFn = w.inFn ∧
      (internalAddTimer w t).fired = w.fired ∧
      (internalAddTimer w t).pending = update w.pending t true := by
  rw [internalAddTimer_eq]
  split
  · exact ⟨rfl, rfl, rfl, rfl, rfl⟩
  · split <;> exact ⟨rfl, rfl, rfl, rfl, rfl⟩

section

variable (h : Inv w k T loc) {t : Nat}
include h

/-- Adding a timer, in terms of the set. -/
lemma view_internalAddTimer (t : Nat) :
    view (internalAddTimer w t) (update loc t (place T (w.expires t - w.timerJiffies))) =
      (view w loc).set t (some (dueOf w.timerJiffies (w.expires t))) := by
  obtain ⟨hnow, hjiffies, hinFn, hfired, hpending⟩ := internalAddTimer_other w t
  refine TimerSet.ext (funext fun x => ?_) hnow hjiffies hinFn hfired
  by_cases hx : x = t
  · subst hx
    simp only [view, TimerSet.set_timer, update_self, hpending, place, dueOf]
    split_ifs
    · rw [h.now]
    · exact congrArg (some ∘ Due.at) (h.expires_eq x).symm
    · rfl
  · simp only [view, TimerSet.set_timer, update_of_ne hx, hpending]

lemma Inv.setExpires (ht : loc t = none) (e : BitVec 64) : Inv (w.setExpires t e) k T loc := by
  refine { h with expires := fun x l D hx hne => ?_ }
  have hxt : x ≠ t := fun heq => by
    rw [heq, ht] at hx
    cases hx
  rw [Wheel.setExpires_expires, update_of_ne hxt]
  exact h.expires x l D hx hne

lemma add_sim (ht : loc t = none) (e : BitVec 64) :
    ∃ loc', Inv (internalAddTimer (w.setExpires t e) t) k T loc' ∧
      view (internalAddTimer (w.setExpires t e) t) loc' =
        (view w loc).set t (some (dueOf w.timerJiffies e)) := by
  have hset := h.setExpires ht e
  refine ⟨_, internalAddTimer_inv hset ht, ?_⟩
  rw [view_internalAddTimer hset, Wheel.setExpires_expires, update_self]
  rfl

lemma Inv.eq_none (ht : w.pending t = false) : loc t = none := by
  by_contra hloc
  rw [h.pending t hloc] at ht
  cases ht

lemma detachTimer_inv (t : Nat) : Inv (detachTimer w t) k T (update loc t none) := by
  unfold detachTimer
  split
  · exact h.drop t
  · next hpending =>
    rw [← h.eq_none (Bool.eq_false_iff.mpr hpending), update_eq_self]
    exact h

end

lemma detachTimer_shuffled (w : Wheel) (t : Nat) : Shuffled w (detachTimer w t) := by
  unfold detachTimer
  split <;> exact ⟨rfl, rfl, rfl, rfl, rfl, rfl⟩

/-- A timer that is taken off its list is gone or, as long as it is pending, never due. -/
lemma view_detachTimer (w : Wheel) (t : Nat) : view (detachTimer w t) (update loc t none) =
      (view w loc).set t (if w.pending t then some .never else none) := by
  obtain ⟨hnow, hjiffies, hinFn, hfired, -, hpending⟩ := detachTimer_shuffled w t
  refine TimerSet.ext (funext fun x => ?_) hnow hjiffies hinFn hfired
  by_cases hx : x = t
  · subst hx
    simp only [view, TimerSet.set_timer, update_self, hpending]
  · simp only [view, TimerSet.set_timer, update_of_ne hx, hpending]

/-- Deleting one. -/
lemma clear_sim (h : Inv w k T loc) (t : Nat) :
    Inv ((detachTimer w t).setPending t false) k T (update loc t none) ∧
      view ((detachTimer w t).setPending t false) (update loc t none) =
        (view w loc).set t none := by
  have hdetach := detachTimer_inv h t
  obtain ⟨hnow, hjiffies, hinFn, hfired, -, hpending⟩ := detachTimer_shuffled w t
  constructor
  · refine { hdetach with pending := fun x hx => ?_ }
    have hxt : x ≠ t := fun heq => hx (heq ▸ update_self ..)
    rw [Wheel.setPending_pending, update_of_ne hxt]
    exact hdetach.pending x hx
  refine TimerSet.ext (funext fun x => ?_) hnow hjiffies hinFn hfired
  by_cases hx : x = t
  · subst hx
    simp [view]
  · simp only [view, TimerSet.set_timer, update_of_ne hx, Wheel.setPending_pending, hpending]

/-! ## Passes -/

lemma view_of_sameDue {w' : Wheel} (hdue : SameDue loc loc') (hshuffled : Shuffled w w') :
    view w' loc' = view w loc := by
  refine TimerSet.ext (funext fun t => ?_) hshuffled.timerJiffies hshuffled.jiffies hshuffled.inFn
    hshuffled.fired
  have ht := hdue t
  cases hloc : loc t <;> cases hloc' : loc' t <;> rw [hloc, hloc'] at ht <;>
    simp only [view, hloc, hloc', hshuffled.pending] <;> simp_all

lemma fire_sim (h : Inv w 5 T loc) (hpass : w.inFn = true ∨ caughtUp w = false)
    {ts : List Nat} (hslot : w.vec 0 (w.index 0) = t :: ts) :
    ∃ S, Serve (view w loc) S ∧ Sim (fire w t) S := by
  have hloc : loc t = some (0, T) := h.due_now (hslot ▸ List.mem_cons_self ..)
  obtain ⟨hinv, hview⟩ := clear_sim h t
  refine ⟨_, .fire hpass (h.view_now_iff.mpr ⟨0, hloc⟩), T, update loc t none,
    { hinv with now := hinv.now }, ?_⟩
  rw [← hview]
  rfl

lemma advance_sim (h : Inv w 5 T loc) (hpass : w.inFn = true ∨ caughtUp w = false)
    (hempty : w.vec 0 (w.index 0) = []) :
    Serve (view w loc) (view (advance w) loc) ∧ Inv (advance w) 0 (T + 1) loc :=
  ⟨.next hpass fun t ht =>
      let ⟨l, hloc⟩ := h.view_now_iff.mp ht
      h.none_due hempty t l hloc,
    advance_inv h hempty⟩

/-- The passes that are left become fewer. -/
lemma fuel_advance {n : Nat} (hfuel : (w.jiffies - w.timerJiffies).toNat + 1 < n + 1) :
    caughtUp (advance w) = true ∨
      ((advance w).jiffies - (advance w).timerJiffies).toNat + 1 < n := by
  have hahead : (advance w).jiffies - (advance w).timerJiffies =
      w.jiffies - w.timerJiffies - 1 := by
    show w.jiffies - (w.timerJiffies + 1) = _
    bv_omega
  rw [caughtUp, hahead, slt_zero]
  generalize w.jiffies - w.timerJiffies = x at hfuel
  by_cases hx : x.toNat = 0
  · left
    rw [BitVec.toNat_sub, hx]
    decide
  right
  rw [BitVec.toNat_sub_of_le (show (1 : BitVec 64).toNat ≤ x.toNat by simpa using by omega)]
  show x.toNat - 1 + 1 < n
  omega

/-- Some passes over the wheel serve the set. -/
lemma passes_sim {n : Nat} (h : Inv w 0 T loc) (hout : w.inFn = false)
    (hfuel : caughtUp w = true ∨ (w.jiffies - w.timerJiffies).toNat + 1 < n) :
    ∃ S, ReflTransGen Serve (view w loc) S ∧ Sim (passes n w) S ∧
      (S.inFn = true ∨ S.caughtUp = true) := by
  induction n generalizing w T loc with
  | zero =>
    have hcaught : caughtUp w = true := hfuel.resolve_right (Nat.not_lt_zero _)
    exact ⟨view w loc, .refl, ⟨T, loc, by rwa [passes, hout], rfl⟩, .inr hcaught⟩
  | succ n ih => ?_
  rw [passes]
  split
  · next hcaught =>
    exact ⟨view w loc, .refl, ⟨T, loc, by rwa [hout], rfl⟩, .inr hcaught⟩
  · next hcaught =>
    rw [Bool.not_eq_true] at hcaught
    have hfuel := hfuel.resolve_left (by simp [hcaught])
    obtain ⟨loc1, hinv, hdue, hshuffled⟩ := enterPass_inv h
    rw [← view_of_sameDue hdue hshuffled]
    rw [caughtUp, ← hshuffled.jiffies, ← hshuffled.timerJiffies] at hcaught
    rw [← hshuffled.jiffies, ← hshuffled.timerJiffies] at hfuel
    dsimp only
    split
    · next t ts hslot =>
      obtain ⟨S, hserve, hsim⟩ := fire_sim hinv (.inr hcaught) hslot
      exact ⟨S, .single hserve, hsim, .inl hsim.inFn_eq⟩
    · next hslot =>
      obtain ⟨hserve, hinv'⟩ := advance_sim hinv (.inr hcaught) hslot
      obtain ⟨S, hrest, hsim, hend⟩ := ih hinv' rfl (fuel_advance hfuel)
      exact ⟨S, .head hserve hrest, hsim, hend⟩

/-- A whole `run_timer_list`. -/
lemma runTimerList_sim (h : Sim w S) : ∃ S', Runs S S' ∧ Sim (runTimerList w) S' := by
  obtain ⟨T, loc, hinv, rfl⟩ := h
  unfold runTimerList
  have hfuel : ∀ v : Wheel, caughtUp v = true ∨ (v.jiffies - v.timerJiffies).toNat + 1 < due v :=
    fun v => .inr (Nat.lt_succ_self _)
  cases hin : w.inFn with
  | true =>
    rw [hin] at hinv
    simp only [if_true] at hinv ⊢
    split
    · next t ts hslot =>
      obtain ⟨S, hserve, hsim⟩ := fire_sim hinv (.inl hin) hslot
      exact ⟨S, .inr ⟨.single hserve, .inl hsim.inFn_eq⟩, hsim⟩
    · next hslot =>
      obtain ⟨hserve, hinv'⟩ := advance_sim hinv (.inl hin) hslot
      obtain ⟨S, hrest, hsim, hend⟩ := passes_sim hinv' rfl (hfuel _)
      exact ⟨S, .inr ⟨.head' hserve hrest, hend⟩, hsim⟩
  | false =>
    rw [hin] at hinv
    obtain ⟨S, hrest, hsim, hend⟩ := passes_sim hinv hin (hfuel _)
    refine ⟨S, ?_, hsim⟩
    rcases reflTransGen_iff_eq_or_transGen.mp hrest with rfl | htrans
    · exact .inl ⟨hin, hend.resolve_left (by simp [view, hin]), rfl⟩
    · exact .inr ⟨htrans, hend⟩

/-! ## Steps -/

lemma add_step (hinv : Inv w (if w.inFn then 5 else 0) T loc)
    (ht : loc t = none) (e : BitVec 64) (hS :
    (view w loc).set t (some (dueOf w.timerJiffies e)) = S) :
    Sim (internalAddTimer (w.setExpires t e) t) S := by
  obtain ⟨loc', hinv', hview⟩ := add_sim hinv ht e
  have hin : (internalAddTimer (w.setExpires t e) t).inFn = w.inFn :=
    (internalAddTimer_other _ t).2.2.1
  exact ⟨T, loc', by rwa [hin], by rw [hview, hS]⟩

/-- Every step of the wheel is one of the set. -/
theorem step_sim (h : Sim w S) (a : Act) : ∃ S', Step S a S' ∧ Sim (step w a) S' := by
  cases a with
  | run =>
    obtain ⟨S', hruns, hsim⟩ := runTimerList_sim h
    exact ⟨S', .run hruns, hsim⟩
  | tick =>
    obtain ⟨T, loc, hinv, rfl⟩ := h
    exact ⟨_, .tick, T, loc, { hinv with now := hinv.now }, rfl⟩
  | del t =>
    obtain ⟨T, loc, hinv, rfl⟩ := h
    obtain ⟨hinv', hview⟩ := clear_sim hinv t
    have hin : (delTimer w t).inFn = w.inFn := (detachTimer_shuffled w t).inFn
    exact ⟨_, .del, T, _, by rwa [step, hin], hview.symm⟩
  | add t e =>
    obtain ⟨T, loc, hinv, rfl⟩ := h
    simp only [step, addTimer]
    cases hpending : w.pending t with
    | true =>
      refine ⟨_, .addTwice fun hnone => ?_, T, loc, hinv, rfl⟩
      rw [hinv.view_eq_none_iff, hpending] at hnone
      cases hnone
    | false =>
      exact ⟨_, .add (hinv.view_eq_none_iff.mpr hpending),
        add_step hinv (hinv.eq_none hpending) e rfl⟩
  | mod t e =>
    obtain ⟨T, loc, hinv, rfl⟩ := h
    obtain ⟨hnow, -, hin, -⟩ := detachTimer_shuffled w t
    have hdetach : Inv (detachTimer w t) (if (detachTimer w t).inFn then 5 else 0) T
        (update loc t none) := by
      rw [hin]
      exact detachTimer_inv hinv t
    refine ⟨_, .mod, ?_⟩
    simp only [step, modTimer]
    rw [show detachTimer (w.setExpires t e) t = (detachTimer w t).setExpires t e by
      unfold detachTimer; rw [Wheel.setExpires_pending]; split <;> rfl]
    refine add_step hdetach (update_self ..) e ?_
    rw [hnow, view_detachTimer]
    simp only [TimerSet.set, update_idem]
    rfl

/-- The wheel at boot is the empty set. -/
lemma initTimervecs_sim : Sim initTimervecs TimerSet.empty := by
  refine ⟨0, fun _ => none, ?_, rfl⟩
  constructor
  case index =>
    intro l _
    have hwin : window 0 0 l = 0 := by
      by_cases hl : l = 0
      · rw [hl, window_zero]
      · rw [window_of_pos hl]
        exact Nat.div_eq_of_lt (by have := unit_pos l; simp; omega)
    show 0 = window 0 0 l % size l
    rw [hwin, Nat.zero_mod]
  case now => rfl
  all_goals simp [initTimervecs]

/-- Every run of the wheel is one of the set. -/
theorem run_sim (h : Sim w S) (as : List Act) : ∃ S', Run S as S' ∧ Sim (as.foldl step w) S' := by
  induction as generalizing w S with
  | nil => exact ⟨S, .nil, h⟩
  | cons a as ih =>
    obtain ⟨S₁, hstep, hsim⟩ := step_sim h a
    obtain ⟨S₂, hrest, hsim2⟩ := ih hsim
    exact ⟨S₂, .cons hstep hrest, hsim2⟩

/-- What is on the wheel is due within 2^32 jiffies. -/
lemma Sim.due_soon (h : Sim w S) {d : BitVec 64}
    (ht : S.timer t = some (.at d)) : (d - w.timerJiffies).toNat < 2 ^ 32 := by
  obtain ⟨T, loc, hinv, rfl⟩ := h
  rcases hloc : loc t with - | x
  · rw [view_timer_of_none hloc] at ht
    split at ht <;> cases ht
  obtain ⟨l, D⟩ := x
  rw [view_timer_of_some hloc] at ht
  cases ht
  have hle := hinv.due_le hloc
  have hsoon := hinv.soon t l D hloc
  rw [hinv.now, ofNat_sub_ofNat hle, BitVec.toNat_ofNat]
  exact (Nat.mod_le ..).trans_lt (by omega)

lemma Sim.pending_iff (h : Sim w S) (t : Nat) : w.pending t = (S.timer t).isSome := by
  obtain ⟨T, loc, hinv, rfl⟩ := h
  have := hinv.view_eq_none_iff (t := t)
  cases hp : w.pending t <;> cases hv : (view w loc).timer t <;> simp_all

end sim

/-! ## One timer along a run -/

section one

variable {S S₁ S₂ : TimerSet} {t : Nat}

/-- The calls of a timer's function. -/
def calls (t : Nat) (fired : List (Nat × BitVec 64)) : List (Nat × BitVec 64) :=
  fired.filter (·.1 = t)

/-- An action on the timer itself. -/
def Act.On (t : Nat) : Act → Prop
  | .add u _ => u = t
  | .mod u _ => u = t
  | .del u => u = t
  | .tick => False
  | .run => False

/-- What can happen to a timer that nobody adds or deletes: nothing, or one call when it is due. -/
def Left (t : Nat) (S S' : TimerSet) : Prop :=
  ∃ new, S'.fired = S.fired ++ new ∧
    ((S'.timer t = S.timer t ∧ calls t new = []) ∨
      ∃ d, S.timer t = some (.at d) ∧ S'.timer t = none ∧ calls t new = [(t, d)])

lemma Left.refl (t : Nat) (S : TimerSet) : Left t S S := ⟨[], by simp, .inl ⟨rfl, rfl⟩⟩

/-- Two steps that leave a timer alone. -/
lemma Left.trans (h : Left t S S₁) (h' : Left t S₁ S₂) : Left t S S₂ := by
  obtain ⟨new, hfired, hnew⟩ := h
  obtain ⟨new', hfired', hnew'⟩ := h'
  refine ⟨new ++ new', by rw [hfired', hfired, List.append_assoc], ?_⟩
  have happend : calls t (new ++ new') = calls t new ++ calls t new' := List.filter_append ..
  rw [happend]
  rcases hnew with ⟨hsame, hnone⟩ | ⟨d, hdue, hgone, hcall⟩
  · rw [hnone, List.nil_append]
    rcases hnew' with ⟨hsame', hnone'⟩ | ⟨d, hdue, hgone, hcall⟩
    · exact .inl ⟨hsame'.trans hsame, hnone'⟩
    · exact .inr ⟨d, hsame ▸ hdue, hgone, hcall⟩
  rw [hcall]
  rcases hnew' with ⟨hsame', hnone'⟩ | ⟨d', hdue', -, -⟩
  · exact .inr ⟨d, hdue, hsame'.trans hgone, by rw [hnone']; rfl⟩
  · rw [hgone] at hdue'
    cases hdue'

lemma serve_left (h : Serve S S₁) (t : Nat) : Left t S S₁ := by
  cases h with
  | next => exact ⟨[], by simp, .inl ⟨rfl, rfl⟩⟩
  | @fire u _ hdue =>
    refine ⟨[(u, S.now)], rfl, ?_⟩
    by_cases hu : u = t
    · subst hu
      exact .inr ⟨S.now, hdue, update_self .., by simp [calls]⟩
    · exact .inl ⟨update_of_ne (Ne.symm hu) .., by simp [calls, hu]⟩

lemma serves_left (h : ReflTransGen Serve S S₁) (t : Nat) : Left t S S₁ := by
  induction h with
  | refl => exact .refl t _
  | tail _ hserve ih => exact ih.trans (serve_left hserve t)

lemma runs_left (h : Runs S S₁) (t : Nat) : Left t S S₁ := by
  rcases h with ⟨-, -, rfl⟩ | ⟨hserves, -⟩
  · exact .refl t _
  · exact serves_left hserves.to_reflTransGen t

/-- A step on another timer leaves this one alone, but for a call when it is due. -/
lemma step_left {a : Act} (h : Step S a S₁) (hoff : ¬ a.On t) : Left t S S₁ := by
  have hset : ∀ u d, ¬ u = t → Left t S (S.set u d) := fun u d hu =>
    ⟨[], by simp, .inl ⟨update_of_ne (Ne.symm hu) .., rfl⟩⟩
  cases h with
  | add => exact hset _ _ hoff
  | addTwice => exact .refl t _
  | mod => exact hset _ _ hoff
  | del => exact hset _ _ hoff
  | tick => exact ⟨[], by simp, .inl ⟨rfl, rfl⟩⟩
  | run hruns => exact runs_left hruns t

lemma run_left {as : List Act} (h : Run S as S₁) (hoff : ∀ a ∈ as, ¬ a.On t) : Left t S S₁ := by
  induction h with
  | nil => exact .refl t _
  | cons hstep _ ih =>
    exact (step_left hstep (hoff _ (List.mem_cons_self ..))).trans
      (ih fun a ha => hoff a (List.mem_cons_of_mem _ ha))

end one

/-! ## The wheel -/

/-- The wheel after some actions. -/
def after (as : List Act) : Wheel := as.foldl step initTimervecs

lemma after_append (pre post : List Act) : after (pre ++ post) = post.foldl step (after pre) :=
  List.foldl_append ..

variable {w : Wheel} {S : TimerSet}

lemma Sim.left (h : Sim w S) {t : Nat} {as : List Act} (hoff : ∀ a ∈ as, ¬ a.On t) :
    ∃ new S', Sim (as.foldl step w) S' ∧ (as.foldl step w).fired = w.fired ++ new ∧
      ((S'.timer t = S.timer t ∧ calls t new = []) ∨
        ∃ d, S.timer t = some (.at d) ∧ S'.timer t = none ∧ calls t new = [(t, d)]) := by
  obtain ⟨S', hrun, hsim⟩ := run_sim h as
  obtain ⟨new, hfired, hnew⟩ := run_left hrun hoff
  exact ⟨new, S', hsim, by rw [← hsim.fired_eq, hfired, h.fired_eq], hnew⟩

/-- A time that is not too far is kept, and one in the past becomes now. -/
lemma dueOf_of_near {now expires : BitVec 64} (h : (expires - now).toInt ≤ 2 ^ 32 - 1) :
    dueOf now expires = .at (if (expires - now).toInt < 0 then now else expires) := by
  unfold dueOf
  have hneg : (expires - now).slt 0 = true ↔ (expires - now).toInt < 0 := by
    rw [BitVec.slt_iff_toInt_lt]
    rfl
  by_cases hpast : (expires - now).toInt < 0
  · rw [if_pos (hneg.mpr hpast), if_pos hpast]
  rw [if_neg (mt hneg.mp hpast), if_neg hpast, if_pos]
  rw [BitVec.toInt_eq_toNat_cond] at h hpast
  split at hpast <;> omega

/-- A timer that is added, or moved, is in the set with the time it is due. -/
lemma Sim.armed (h : Sim w S) {t : Nat} {e : BitVec 64} {act : Act}
    (hact : act = .add t e ∧ w.pending t = false ∨ act = .mod t e) :
    ∃ S', Sim (step w act) S' ∧ S'.timer t = some (dueOf w.timerJiffies e) ∧
      S'.fired = w.fired := by
  obtain ⟨S', hstep, hsim⟩ := step_sim h act
  refine ⟨S', hsim, ?_⟩
  rw [← h.now_eq, ← h.fired_eq]
  rcases hact with ⟨rfl, hidle⟩ | rfl
  · cases hstep with
    | add => exact ⟨update_self .., rfl⟩
    | addTwice hpending =>
      rw [h.pending_iff t] at hidle
      exact absurd (Option.isSome_eq_false_iff.mp hidle) (by simpa using hpending)
  · cases hstep
    exact ⟨update_self .., rfl⟩

/-- **The wheel is a set of timers.** Along every run the calls of functions and the pending timers
are those of the set. So a timer that nobody touches after it was added is called at most once, at
its time, and until then it is pending and its time is not passed; a timer that was deleted is not
called. -/
theorem wheel_refines_timer_set :
    (∀ as, ∃ S, Run .empty as S ∧ S.now = (after as).timerJiffies ∧ S.jiffies = (after as).jiffies ∧
      S.fired = (after as).fired ∧ ∀ t, (after as).pending t = (S.timer t).isSome) ∧
    (∀ pre t e act post, act = .add t e ∧ (after pre).pending t = false ∨ act = .mod t e →
      (e - (after pre).timerJiffies).toInt ≤ 2 ^ 32 - 1 → (∀ a ∈ post, ¬ Act.On t a) →
      let d := if (e - (after pre).timerJiffies).toInt < 0 then (after pre).timerJiffies else e
      let w := after (pre ++ act :: post)
      ∃ new, w.fired = (after pre).fired ++ new ∧
        ((calls t new = [] ∧ w.pending t = true ∧ (d - w.timerJiffies).toNat < 2 ^ 32) ∨
          (calls t new = [(t, d)] ∧ w.pending t = false))) ∧
    ∀ pre t post, (∀ a ∈ post, ¬ Act.On t a) →
      ∃ new, (after (pre ++ .del t :: post)).fired = (after pre).fired ++ new ∧
        calls t new = [] := by
  have hstart : ∀ as, ∃ S, Run .empty as S ∧ Sim (after as) S := run_sim initTimervecs_sim
  refine ⟨fun as => ?_, fun pre t e act post hact hnear hoff => ?_, fun pre t post hoff => ?_⟩
  · obtain ⟨S, hrun, hsim⟩ := hstart as
    refine ⟨S, hrun, ?_, ?_, ?_, hsim.pending_iff⟩ <;> obtain ⟨_, _, -, rfl⟩ := hsim <;> rfl
  · obtain ⟨S, -, hsim⟩ := hstart pre
    obtain ⟨S₁, hsim₁, hdue, hfired₁⟩ := hsim.armed hact
    rw [dueOf_of_near hnear] at hdue
    obtain ⟨new, S₂, hsim₂, hfired, hnew⟩ := hsim₁.left hoff
    dsimp only
    rw [after_append, List.foldl_cons]
    refine ⟨new, by rw [hfired, ← hsim₁.fired_eq, hfired₁], ?_⟩
    rw [hsim₂.pending_iff t]
    rcases hnew with ⟨hsame, hnone⟩ | ⟨d, hwas, hgone, hcall⟩
    · rw [hdue] at hsame
      exact .inl ⟨hnone, by rw [hsame]; rfl, hsim₂.due_soon hsame⟩
    · cases hdue.symm.trans hwas
      exact .inr ⟨hcall, by rw [hgone]; rfl⟩
  · obtain ⟨S, -, hsim⟩ := hstart pre
    obtain ⟨S₁, hstep, hsim₁⟩ := step_sim hsim (.del t)
    obtain rfl : S₁ = S.set t none := by cases hstep; rfl
    obtain ⟨new, S₂, -, hfired, hnew⟩ := hsim₁.left hoff
    rw [after_append, List.foldl_cons]
    refine ⟨new, by rw [hfired, ← hsim₁.fired_eq, ← hsim.fired_eq]; rfl, ?_⟩
    rcases hnew with ⟨-, hnone⟩ | ⟨d, hwas, -⟩
    · exact hnone
    · rw [TimerSet.set_timer, update_self] at hwas
      cases hwas

end RpiOs.Timer
