import Mathlib.Data.List.Nodup
import Mathlib.Tactic.IntervalCases
import RpiOs.Timer.Wheel

/-!
# Where the timers of the wheel are

The invariant of the timer wheel. Time is counted without wrapping here: `T` is `timer_jiffies`, `D`
the time at which a timer is due, and `loc` gives the level and the due time of each timer that is
on a list. A level `l` looks at time in units of `unit l`; the timers on it are due within the `size
l` units from `window T k l` on, so that the slot, the unit modulo `size l`, tells the unit. The
window of a level starts at the first unit that it has not given to the levels below; in a pass that
starts such a unit, the levels below `k` have done this already.
-/

namespace RpiOs.Timer

open Function

/-- The time that a slot of the level stands for. -/
def unit (l : Nat) : Nat := 2 ^ shift l

/-- The first unit that is still on the level at time `T`, when the levels below `k` have
cascaded. -/
def window (T k l : Nat) : Nat :=
  if l = 0 then T else (T + (if l < k then 1 else 0) + unit l - 1) / unit l

/-- Due times that the level can hold. -/
def InWindow (T k l D : Nat) : Prop :=
  window T k l ≤ D / unit l ∧ D / unit l < window T k l + size l

/-- The wheel at time `T`. -/
structure Inv (w : Wheel) (k T : Nat) (loc : Nat → Option (Nat × Nat)) : Prop where
  now : w.timerJiffies = BitVec.ofNat 64 T
  index : ∀ l < 5, w.index l = window T k l % size l
  nodup : ∀ l i, (w.vec l i).Nodup
  slots : ∀ l i t, t ∈ w.vec l i ↔ ∃ D, loc t = some (l, D) ∧ i = D / unit l % size l
  range : ∀ t l D, loc t = some (l, D) → l < 5 ∧ InWindow T k l D
  soon : ∀ t l D, loc t = some (l, D) → D < T + 2 ^ 32
  expires : ∀ t l D, loc t = some (l, D) → l ≠ 0 → w.expires t = BitVec.ofNat 64 D
  pending : ∀ t, loc t ≠ none → w.pending t = true

/-! ## Slots -/

lemma mem_pushBack {ts : List Nat} {t x : Nat} : x ∈ pushBack ts t ↔ x = t ∨ x ∈ ts := by
  unfold pushBack
  split
  · next hnone => simp [List.getLast?_eq_none_iff.mp hnone]
  · next last hlast =>
    have hts : ts.dropLast ++ [last] = ts := List.dropLast_append_getLast? last hlast
    rw [← hts]
    simp only [List.dropLast_concat, List.mem_append, List.mem_cons, List.not_mem_nil, or_false]
    tauto

/-- Insertion before the last keeps a list without repetition. -/
lemma nodup_pushBack {ts : List Nat} {t : Nat} (h : ts.Nodup) (ht : t ∉ ts) :
    (pushBack ts t).Nodup := by
  unfold pushBack
  split
  · exact List.nodup_singleton t
  · next last hlast =>
    have hts : ts.dropLast ++ [last] = ts := List.dropLast_append_getLast? last hlast
    have hperm : (ts.dropLast ++ [t, last]).Perm (t :: ts) := by
      conv_rhs => rw [← hts]
      exact List.perm_middle
    exact hperm.nodup_iff.mpr (List.nodup_cons.mpr ⟨ht, h⟩)

/-- Shift and mask are division and remainder. -/
lemma toNat_shift_and_mask (D : Nat) {s b : Nat} (h : s + b ≤ 64) (hb : b < 64) :
    (BitVec.ofNat 64 D >>> s &&& BitVec.ofNat 64 (2 ^ b - 1)).toNat = D / 2 ^ s % 2 ^ b := by
  have hmask : (2 ^ b - 1) % 2 ^ 64 = 2 ^ b - 1 := by
    have : 2 ^ b < 2 ^ 64 := Nat.pow_lt_pow_right (by decide) hb
    exact Nat.mod_eq_of_lt (by omega)
  have hsplit : 2 ^ 64 = 2 ^ s * 2 ^ (64 - s) := by
    rw [← Nat.pow_add, Nat.add_sub_cancel' (by omega)]
  have hdvd : 2 ^ b ∣ 2 ^ (64 - s) := Nat.pow_dvd_pow 2 (by omega)
  rw [BitVec.toNat_and, BitVec.toNat_ushiftRight, BitVec.toNat_ofNat, BitVec.toNat_ofNat, hmask,
    Nat.and_two_pow_sub_one_eq_mod, Nat.shiftRight_eq_div_pow, hsplit,
    Nat.mod_mul_right_div_self, Nat.mod_mod_of_dvd _ hdvd]

variable {l : Nat}

lemma slotOf_ofNat (hl : l < 5) (D : Nat) : slotOf l (BitVec.ofNat 64 D) = D / unit l % size l := by
  have hsize : size l = 2 ^ if l = 0 then 8 else 6 := by
    unfold size
    split <;> rfl
  rw [slotOf, unit, hsize]
  refine toNat_shift_and_mask D ?_ (by split <;> decide)
  unfold shift
  split <;> omega

/-! ## A timer gets on a list and off it -/

variable {w : Wheel} {k T : Nat} {loc : Nat → Option (Nat × Nat)}

lemma of_update {t x D : Nat} {v : Option (Nat × Nat)} (hx : update loc t v x = some (l, D)) :
    (x = t ∧ v = some (l, D)) ∨ loc x = some (l, D) := by
  by_cases heq : x = t
  · rw [heq, update_self] at hx
    exact .inl ⟨heq, hx⟩
  · rw [update_of_ne heq] at hx
    exact .inr hx

/-- A timer goes onto the list of its window. -/
lemma Inv.push (h : Inv w k T loc) {t i D : Nat} (ht : loc t = none) (hl : l < 5)
    (hwin : InWindow T k l D) (hsoon : D < T + 2 ^ 32) (hi : i = D / unit l % size l)
    (hexp : l ≠ 0 → w.expires t = BitVec.ofNat 64 D) :
    Inv (w.push l i t) k T (update loc t (some (l, D))) where
  now := h.now
  index := h.index
  nodup l' i' := by
    by_cases heq : l' = l ∧ i' = i
    · obtain ⟨rfl, rfl⟩ := heq
      have hout : t ∉ w.vec l' i' := fun hmem => by
        obtain ⟨D', hloc, -⟩ := (h.slots l' i' t).mp hmem
        rw [ht] at hloc
        cases hloc
      simpa using nodup_pushBack (h.nodup l' i') hout
    rw [Wheel.push_vec]
    by_cases hl' : l' = l
    · subst hl'
      rw [update_self, update_of_ne fun hi' => heq ⟨rfl, hi'⟩]
      exact h.nodup l' i'
    · rw [update_of_ne hl']
      exact h.nodup l' i'
  slots l' i' x := by
    have hold := h.slots l' i' x
    have hmem : x ∈ (w.push l i t).vec l' i' ↔ (x = t ∧ l' = l ∧ i' = i) ∨ x ∈ w.vec l' i' := by
      rw [Wheel.push_vec]
      by_cases hl' : l' = l
      · subst hl'
        by_cases hi' : i' = i
        · subst hi'
          simp [mem_pushBack]
        · simp [hi']
      · simp [hl']
    rw [hmem, hold]
    by_cases hx : x = t
    · subst hx
      rw [ht, update_self]
      constructor
      · rintro (⟨-, rfl, rfl⟩ | ⟨D', hD', -⟩)
        · exact ⟨D, rfl, hi⟩
        · cases hD'
      rintro ⟨D', hD', hi'⟩
      cases hD'
      exact .inl ⟨rfl, rfl, hi'.trans hi.symm⟩
    · rw [update_of_ne hx]
      simp [hx]
  range x l' D' hx := by
    rcases of_update hx with ⟨-, hx⟩ | hx
    · cases hx
      exact ⟨hl, hwin⟩
    · exact h.range x l' D' hx
  soon x l' D' hx := by
    rcases of_update hx with ⟨-, hx⟩ | hx
    · cases hx
      exact hsoon
    · exact h.soon x l' D' hx
  expires x l' D' hx hne := by
    rcases of_update hx with ⟨rfl, hv⟩ | hx
    · cases hv
      exact hexp hne
    · exact h.expires x l' D' hx hne
  pending x hx := by
    by_cases heq : x = t
    · subst heq
      simp
    · rw [update_of_ne heq] at hx
      simpa [heq] using h.pending x hx

/-- A timer is taken off. -/
lemma Inv.drop (h : Inv w k T loc) (t : Nat) : Inv (w.drop t) k T (update loc t none) where
  now := h.now
  index := h.index
  nodup l i := (h.nodup l i).erase t
  slots l i x := by
    rw [Wheel.drop_vec, (h.nodup l i).mem_erase_iff, h.slots]
    by_cases hx : x = t
    · subst hx
      simp
    · simp [hx]
  range x l D hx := (of_update hx).elim nofun fun hx => h.range x l D hx
  soon x l D hx := (of_update hx).elim nofun fun hx => h.soon x l D hx
  expires x l D hx hne := (of_update hx).elim nofun fun hx => h.expires x l D hx hne
  pending x hx := by
    by_cases heq : x = t
    · subst heq
      simp at hx
    · rw [update_of_ne heq] at hx
      exact h.pending x hx

/-! ## Adding -/

lemma slt_zero (x : BitVec 64) : x.slt 0 = true ↔ 2 ^ 63 ≤ x.toNat := by
  show x.slt 0#64 = true ↔ _
  rw [BitVec.slt_zero_eq_msb, BitVec.msb_eq_decide, decide_eq_true_iff]

/-- The level on which a timer goes that is due in `d` ticks. -/
def level (d : Nat) : Nat :=
  if d < 2 ^ 8 then 0 else if d < 2 ^ 14 then 1 else if d < 2 ^ 20 then 2
  else if d < 2 ^ 26 then 3 else 4

/-- Where `internal_add_timer` puts a timer with `expires - timer_jiffies = idx`. -/
def place (T : Nat) (idx : BitVec 64) : Option (Nat × Nat) :=
  if idx.slt 0 then some (0, T)
  else if idx.toNat ≤ 0xffffffff then some (level idx.toNat, T + idx.toNat)
  else none

lemma level_lt (d : Nat) : level d < 5 := by
  unfold level
  split_ifs <;> decide

lemma unit_pos (l : Nat) : 0 < unit l := Nat.two_pow_pos _

lemma window_of_pos (hl : l ≠ 0) (T k : Nat) :
    window T k l = (T + (if l < k then 1 else 0) + unit l - 1) / unit l := if_neg hl

/-- The start of a window, of which `T` is not later than the start of the next unit. -/
lemma window_bounds (hl : l ≠ 0) (T k : Nat) :
    (T + unit l - 1) / unit l ≤ window T k l ∧ window T k l ≤ (T + unit l) / unit l := by
  rw [window_of_pos hl]
  constructor
  · exact Nat.div_le_div_right (by split <;> omega)
  · exact Nat.div_le_div_right (by split <;> omega)

/-- A timer that is due in one unit or more, and before the level has gone around. -/
lemma inWindow_of_pos {d : Nat} (hl : l ≠ 0) (T k : Nat) (hlow : unit l ≤ d)
    (hhigh : d < unit l * 64) : InWindow T k l (T + d) := by
  have hu := unit_pos l
  obtain ⟨hstart, hend⟩ := window_bounds hl T k
  have hsize : size l = 64 := if_neg hl
  constructor
  · exact hend.trans (Nat.div_le_div_right (by omega))
  have hround : (T + unit l - 1 + unit l * 63) / unit l = (T + unit l - 1) / unit l + 63 :=
    Nat.add_mul_div_left _ _ hu
  have hle : (T + d) / unit l ≤ (T + unit l - 1 + unit l * 63) / unit l :=
    Nat.div_le_div_right (by omega)
  omega

/-- The level that `internal_add_timer` takes has a window for the time. -/
lemma inWindow_level {d : Nat} (hd : d ≤ 0xffffffff) (T k : Nat) :
    InWindow T k (level d) (T + d) := by
  unfold level
  split_ifs with h0 h1 h2 h3
  · simp only [InWindow, window, unit, size, shift, if_true, Nat.pow_zero, Nat.div_one]
    omega
  · exact inWindow_of_pos (l := 1) (by decide) T k (Nat.not_lt.mp h0) h1
  · exact inWindow_of_pos (l := 2) (by decide) T k (Nat.not_lt.mp h1) h2
  · exact inWindow_of_pos (l := 3) (by decide) T k (Nat.not_lt.mp h2) h3
  · exact inWindow_of_pos (l := 4) (by decide) T k (Nat.not_lt.mp h3) (Nat.lt_succ_of_le hd)

lemma internalAddTimer_eq (w : Wheel) (t : Nat) : internalAddTimer w t =
      if (w.expires t - w.timerJiffies).slt 0 then w.push 0 (w.index 0) t
      else if (w.expires t - w.timerJiffies).toNat ≤ 0xffffffff then
        w.push (level (w.expires t - w.timerJiffies).toNat)
          (slotOf (level (w.expires t - w.timerJiffies).toNat) (w.expires t)) t
      else w.setPending t true := by
  unfold internalAddTimer level
  simp only [slt_zero]
  split_ifs <;> first | rfl | omega

lemma window_zero (T k : Nat) : window T k 0 = T := if_pos rfl

lemma Inv.setPending (h : Inv w k T loc) (t : Nat) : Inv (w.setPending t true) k T loc := by
  refine { h with pending := fun x hx => ?_ }
  by_cases heq : x = t
  · simp [heq]
  · simpa [heq] using h.pending x hx

lemma Inv.expires_eq (h : Inv w k T loc) (t : Nat) :
    w.expires t = BitVec.ofNat 64 (T + (w.expires t - w.timerJiffies).toNat) := by
  rw [BitVec.ofNat_add, BitVec.ofNat_toNat, BitVec.setWidth_eq, ← h.now, BitVec.add_comm,
    BitVec.sub_add_cancel]

/-- **`internal_add_timer`** puts a timer that is on no list where it belongs. -/
lemma internalAddTimer_inv (h : Inv w k T loc) {t : Nat} (ht : loc t = none) :
    Inv (internalAddTimer w t) k T
      (update loc t (place T (w.expires t - w.timerJiffies))) := by
  rw [internalAddTimer_eq]
  unfold place
  split
  · -- in the past: the slot of the next pass
    refine h.push ht (by decide) ?_ (by omega) ?_ fun hne => absurd rfl hne
    · have := inWindow_level (d := 0) (by decide) T k
      exact this
    · rw [h.index 0 (by decide), window_zero]
      exact congrArg (· % size 0) (Nat.div_one T).symm
  split
  · next hle =>
    have hexp := h.expires_eq t
    refine h.push ht (level_lt _) (inWindow_level hle T k) (by omega) ?_ fun _ => hexp
    rw [← slotOf_ofNat (level_lt _), ← hexp]
  · rw [← ht, update_eq_self]
    exact h.setPending t

/-! ## Cascading -/

variable {w' : Wheel} {l : Nat} {loc' : Nat → Option (Nat × Nat)}

/-- Timers move between lists, and nothing else happens. -/
structure Shuffled (w w' : Wheel) : Prop where
  timerJiffies : w'.timerJiffies = w.timerJiffies
  jiffies : w'.jiffies = w.jiffies
  inFn : w'.inFn = w.inFn
  fired : w'.fired = w.fired
  expires : w'.expires = w.expires
  pending : w'.pending = w.pending

lemma Shuffled.refl (w : Wheel) : Shuffled w w := ⟨rfl, rfl, rfl, rfl, rfl, rfl⟩

lemma Shuffled.trans {w1 w2 w3 : Wheel} (h : Shuffled w1 w2) (h' : Shuffled w2 w3) :
    Shuffled w1 w3 :=
  ⟨h'.timerJiffies.trans h.timerJiffies, h'.jiffies.trans h.jiffies, h'.inFn.trans h.inFn,
    h'.fired.trans h.fired, h'.expires.trans h.expires, h'.pending.trans h.pending⟩

lemma shuffled_readd {t : Nat} (hpending : w.pending t = true) :
    Shuffled w (internalAddTimer (w.drop t) t) ∧
      (internalAddTimer (w.drop t) t).index = w.index := by
  have hsame : update w.pending t true = w.pending := by
    rw [← hpending, update_eq_self]
  rw [internalAddTimer_eq]
  split_ifs <;> exact ⟨⟨rfl, rfl, rfl, rfl, rfl, hsame⟩, rfl⟩

lemma level_lt_of_lt_unit {d : Nat} (hpos : l ≠ 0) (hl : l < 5) (hd : d < unit l) :
    level d < l := by
  unfold level
  interval_cases l
  · exact absurd rfl hpos
  all_goals
    simp [unit, shift] at hd
    split_ifs <;> omega

lemma ofNat_sub_ofNat {D : Nat} (h : T ≤ D) :
    BitVec.ofNat 64 D - BitVec.ofNat 64 T = BitVec.ofNat 64 (D - T) := by
  rw [← Nat.sub_add_cancel h, BitVec.ofNat_add, BitVec.add_sub_cancel, Nat.add_sub_cancel]

/-- A timer that is due in the unit that starts now goes to a lower level. -/
lemma place_of_unit {D : Nat} (hpos : l ≠ 0) (hl : l < 5) (halign : T % unit l = 0)
    (hD : D / unit l = T / unit l) :
    ∃ m < l, place T (BitVec.ofNat 64 D - BitVec.ofNat 64 T) = some (m, D) := by
  have hu := unit_pos l
  have hT : unit l * (T / unit l) = T := Nat.mul_div_cancel' (Nat.dvd_of_mod_eq_zero halign)
  have hlow : T ≤ D := by
    have := Nat.mul_div_le D (unit l)
    rwa [hD, hT] at this
  have hhigh : D - T < unit l := by
    have := Nat.lt_mul_div_succ D hu
    rw [hD, Nat.mul_add, hT, Nat.mul_one] at this
    omega
  have hunit : unit l ≤ 2 ^ 26 := by
    interval_cases l <;> decide
  have hnat : (BitVec.ofNat 64 (D - T)).toNat = D - T := by
    rw [BitVec.toNat_ofNat]
    exact Nat.mod_eq_of_lt (by omega)
  refine ⟨level (D - T), level_lt_of_lt_unit hpos hl hhigh, ?_⟩
  unfold place
  rw [ofNat_sub_ofNat hlow, if_neg (by rw [slt_zero, hnat]; omega), hnat, if_pos (by omega),
    Nat.add_sub_cancel' hlow]

/-- What cascading a slot does to the positions: some timers go down, with the time at which they
are due. -/
def Lowered (l : Nat) (ts : List Nat) (loc loc' : Nat → Option (Nat × Nat)) : Prop :=
  ∀ t, if t ∈ ts then ∃ m D, m < l ∧ loc t = some (l, D) ∧ loc' t = some (m, D) else loc' t = loc t

/-- A cascade moves all timers of a list to the levels below, one after the other. -/
lemma cascade_fold (hpos : l ≠ 0) (hl : l < 5) (halign : T % unit l = 0) {ts : List Nat}
    (hnodup : ts.Nodup) (h : Inv w l T loc)
    (hts : ∀ t ∈ ts, ∃ D, loc t = some (l, D) ∧ D / unit l = T / unit l) :
    ∃ loc', Inv (ts.foldl (fun w t => internalAddTimer (w.drop t) t) w) l T loc' ∧
      Lowered l ts loc loc' ∧
      Shuffled w (ts.foldl (fun w t => internalAddTimer (w.drop t) t) w) ∧
      (ts.foldl (fun w t => internalAddTimer (w.drop t) t) w).index = w.index := by
  induction ts generalizing w loc with
  | nil => exact ⟨loc, h, fun t => by simp, .refl w, rfl⟩
  | cons t ts ih => ?_
  obtain ⟨hout, hnodup⟩ := List.nodup_cons.mp hnodup
  obtain ⟨D, hloc, hD⟩ := hts t List.mem_cons_self
  obtain ⟨hshuffled, hindex⟩ := shuffled_readd (h.pending t (by simp [hloc]))
  have hnone : update loc t none t = none := update_self ..
  have hadd := internalAddTimer_inv (h.drop t) hnone
  obtain ⟨m, hm, hplace⟩ := place_of_unit hpos hl halign hD
  have hexp : (w.drop t).expires t - (w.drop t).timerJiffies =
      BitVec.ofNat 64 D - BitVec.ofNat 64 T := by
    rw [Wheel.drop_expires, Wheel.drop_timerJiffies, h.expires t l D hloc hpos, h.now]
  rw [hexp, hplace, update_idem] at hadd
  have hrest : ∀ x ∈ ts, ∃ D', update loc t (some (m, D)) x = some (l, D') ∧
      D' / unit l = T / unit l := by
    intro x hx
    obtain ⟨D', hD', hunit⟩ := hts x (List.mem_cons_of_mem _ hx)
    have hne : x ≠ t := fun heq => hout (heq ▸ hx)
    exact ⟨D', by rw [update_of_ne hne]; exact hD', hunit⟩
  obtain ⟨loc', hinv, hlowered, hshuffled', hindex'⟩ := ih hnodup hadd hrest
  refine ⟨loc', hinv, fun x => ?_, hshuffled.trans hshuffled', hindex'.trans hindex⟩
  have hx := hlowered x
  by_cases heq : x = t
  · subst heq
    rw [if_neg hout, update_self] at hx
    rw [if_pos List.mem_cons_self]
    exact ⟨m, D, hm, hloc, hx⟩
  · rw [update_of_ne heq] at hx
    simpa [heq] using hx

/-- At the start of a unit the window depends on whether the level was cascaded. -/
lemma window_of_aligned (hpos : l ≠ 0) (halign : T % unit l = 0) (k : Nat) :
    window T k l = T / unit l + if l < k then 1 else 0 := by
  have hu := unit_pos l
  obtain ⟨n, hn⟩ := Nat.dvd_of_mod_eq_zero halign
  have hdiv : T / unit l = n := by rw [hn, Nat.mul_div_cancel_left n hu]
  rw [window_of_pos hpos, hdiv, hn]
  split
  · rw [show unit l * n + 1 + unit l - 1 = unit l * (n + 1) by rw [Nat.mul_add]; omega,
      Nat.mul_div_cancel_left _ hu]
  rw [show unit l * n + 0 + unit l - 1 = (unit l - 1) + unit l * n by omega,
    Nat.add_mul_div_left _ _ hu, Nat.div_eq_of_lt (by omega)]
  omega

/-- The level has nothing left in the unit that starts now, and its index goes on. -/
lemma Inv.cascaded (h : Inv w l T loc) (hpos : l ≠ 0) (hl : l < 5) (halign : T % unit l = 0)
    (hempty : w.vec l (w.index l) = []) :
    Inv (w.setIndex l ((w.index l + 1) % size l)) (l + 1) T loc := by
  have hwin : window T l l = T / unit l := by
    rw [window_of_aligned hpos halign, if_neg (lt_irrefl l), Nat.add_zero]
  have hwin' : window T (l + 1) l = T / unit l + 1 := by
    rw [window_of_aligned hpos halign, if_pos (Nat.lt_succ_self l)]
  have hother : ∀ m, m ≠ l → window T (l + 1) m = window T l m := by
    intro m hm
    have hiff : m < l + 1 ↔ m < l := by omega
    simp only [window, hiff]
  refine ⟨h.now, fun m hm => ?_, h.nodup, h.slots, fun t m D ht => ?_, h.soon, h.expires,
    h.pending⟩
  · by_cases heq : m = l
    · subst heq
      rw [Wheel.setIndex_index, update_self, h.index m hl, hwin, hwin', Nat.mod_add_mod]
    · rw [Wheel.setIndex_index, update_of_ne heq, h.index m hm, hother m heq]
  obtain ⟨hm, hlow, hhigh⟩ := h.range t m D ht
  refine ⟨hm, ?_⟩
  unfold InWindow
  by_cases heq : m = l
  · subst heq
    rw [hwin] at hlow hhigh
    have hne : D / unit m ≠ T / unit m := fun hunit => by
      have hmem : t ∈ w.vec m (w.index m) := by
        rw [h.slots, h.index m hl, hwin]
        exact ⟨D, ht, by rw [hunit]⟩
      rw [hempty] at hmem
      cases hmem
    rw [hwin']
    omega
  · rw [hother m heq]
    exact ⟨hlow, hhigh⟩

/-- **`cascade_timers`** on a level that has a unit starting now. -/
lemma cascadeTimers_inv (hpos : l ≠ 0) (hl : l < 5) (halign : T % unit l = 0) (h : Inv w l T loc) :
    ∃ loc' ts, Inv (cascadeTimers w l) (l + 1) T loc' ∧ Lowered l ts loc loc' ∧
      Shuffled w (cascadeTimers w l) ∧ (cascadeTimers w l).index l = (T / unit l + 1) % size l := by
  have hwin : window T l l = T / unit l := by
    rw [window_of_aligned hpos halign, if_neg (lt_irrefl l), Nat.add_zero]
  have hts : ∀ t ∈ w.vec l (w.index l), ∃ D, loc t = some (l, D) ∧ D / unit l = T / unit l := by
    intro t ht
    rw [h.slots, h.index l hl, hwin] at ht
    obtain ⟨D, hloc, hslot⟩ := ht
    obtain ⟨-, hlow, hhigh⟩ := h.range t l D hloc
    rw [hwin] at hlow hhigh
    have hsize : size l = 64 := if_neg hpos
    rw [hsize] at hslot hhigh
    exact ⟨D, hloc, by omega⟩
  obtain ⟨loc', hinv, hlowered, hshuffled, hindex⟩ :=
    cascade_fold hpos hl halign (h.nodup l (w.index l)) h hts
  set w' := (w.vec l (w.index l)).foldl (fun w t => internalAddTimer (w.drop t) t) w with hw'
  -- all timers of the slot have gone down, and none has come
  have hempty : w'.vec l (w.index l) = [] := by
    refine List.eq_nil_iff_forall_not_mem.mpr fun t ht => ?_
    obtain ⟨D, hloc, hslot⟩ := (hinv.slots l (w.index l) t).mp ht
    have hlow := hlowered t
    split at hlow
    · obtain ⟨m, D', hm, -, hloc'⟩ := hlow
      rw [hloc] at hloc'
      cases hloc'
      exact lt_irrefl l hm
    · next hout =>
      exact hout ((h.slots l (w.index l) t).mpr ⟨D, hlow ▸ hloc, hslot⟩)
  have hslot : w'.setSlot l (w.index l) [] = w' := by
    unfold Wheel.setSlot
    rw [← hempty, update_eq_self, update_eq_self]
  have heq : cascadeTimers w l = w'.setIndex l ((w'.index l + 1) % size l) := by
    show (w'.setSlot l (w.index l) []).setIndex l ((w.index l + 1) % size l) = _
    rw [hslot, hindex]
  rw [heq]
  refine ⟨loc', _, hinv.cascaded hpos hl halign (by rw [hindex]; exact hempty), hlowered,
    hshuffled.trans ⟨rfl, rfl, rfl, rfl, rfl, rfl⟩, ?_⟩
  rw [Wheel.setIndex_index, update_self, hindex, h.index l hl, hwin, Nat.mod_add_mod]

/-! ## Passes -/

variable {k' : Nat}

/-- The same timers are on lists and are due at the same times. -/
def SameDue (loc loc' : Nat → Option (Nat × Nat)) : Prop :=
  ∀ t, (loc' t).map Prod.snd = (loc t).map Prod.snd

lemma SameDue.trans {loc1 loc2 loc3 : Nat → Option (Nat × Nat)} (h : SameDue loc1 loc2)
    (h' : SameDue loc2 loc3) : SameDue loc1 loc3 := fun t => (h' t).trans (h t)

lemma Lowered.sameDue {ts : List Nat} (h : Lowered l ts loc loc') : SameDue loc loc' := by
  intro t
  have ht := h t
  split at ht
  · obtain ⟨m, D, -, hloc, hloc'⟩ := ht
    rw [hloc, hloc']
    rfl
  · rw [ht]

/-- Elsewhere it does not. -/
lemma window_of_not_aligned (hmod : T % unit l ≠ 0) : window T k l = window T k' l := by
  by_cases hl : l = 0
  · rw [hl, window_zero, window_zero]
  have hu := unit_pos l
  have hr : T % unit l < unit l := Nat.mod_lt T hu
  have hnext : ∀ c ≤ 1, (T + c + unit l - 1) / unit l = T / unit l + 1 := by
    intro c hc
    have hT := Nat.div_add_mod T (unit l)
    have hsplit : T + c + unit l - 1 =
        (T % unit l + c - 1) + unit l * (T / unit l + 1) := by
      rw [Nat.mul_add]
      omega
    rw [hsplit, Nat.add_mul_div_left _ _ hu]
    have hsmall : (T % unit l + c - 1) / unit l = 0 := Nat.div_eq_of_lt (by omega)
    omega
  rw [window_of_pos hl, window_of_pos hl, hnext _ (by split <;> omega),
    hnext _ (by split <;> omega)]

lemma Inv.of_window (h : Inv w k T loc) (hwin : ∀ l < 5, window T k l = window T k' l) :
    Inv w k' T loc := by
  refine { h with index := fun l hl => by rw [h.index l hl, hwin l hl], range :=
    fun t l D ht => ?_ }
  obtain ⟨hl, hwindow⟩ := h.range t l D ht
  refine ⟨hl, ?_⟩
  unfold InWindow at hwindow ⊢
  rwa [← hwin l hl]

lemma unit_succ (hpos : l ≠ 0) : unit (l + 1) = unit l * 64 := by
  have hshift : shift (l + 1) = shift l + 6 := by
    unfold shift
    rw [if_neg (by omega), if_neg hpos]
    omega
  rw [unit, hshift, Nat.pow_add]
  rfl

/-- The index of a level comes round when the next level is due. -/
lemma aligned_succ_iff (hpos : l ≠ 0) (halign : T % unit l = 0) :
    (T / unit l + 1) % size l = 1 ↔ T % unit (l + 1) = 0 := by
  have hu := unit_pos l
  have hsize : size l = 64 := if_neg hpos
  have hT : unit l * (T / unit l) = T := Nat.mul_div_cancel' (Nat.dvd_of_mod_eq_zero halign)
  have hmul : T % (unit l * 64) = unit l * (T / unit l % 64) := by
    conv_lhs => rw [← hT]
    exact Nat.mul_mod_mul_left ..
  rw [unit_succ hpos, hmul, hsize]
  constructor
  · intro h
    have : T / unit l % 64 = 0 := by omega
    rw [this, Nat.mul_zero]
  intro h
  have : T / unit l % 64 = 0 := (Nat.mul_eq_zero.mp h).resolve_left hu.ne'
  omega

lemma not_aligned_of_le {m : Nat} (hmod : T % unit l ≠ 0) (hle : l ≤ m) : T % unit m ≠ 0 := by
  have hdvd : unit l ∣ unit m := by
    refine Nat.pow_dvd_pow 2 ?_
    unfold shift
    split_ifs <;> omega
  intro hzero
  exact hmod (Nat.mod_eq_zero_of_dvd (hdvd.trans (Nat.dvd_of_mod_eq_zero hzero)))

/-- The `do … while` loop of `run_timer_list` cascades the levels that have a unit starting now. -/
lemma cascades_inv {n : Nat} (hn : l + n = 5) (hpos : l ≠ 0) (halign : n ≠ 0 → T % unit l = 0)
    (h : Inv w l T loc) :
    ∃ loc', Inv (cascades n l w) 5 T loc' ∧ SameDue loc loc' ∧ Shuffled w (cascades n l w) := by
  induction n generalizing l w loc with
  | zero =>
    obtain rfl : l = 5 := by omega
    exact ⟨loc, h, fun _ => rfl, .refl w⟩
  | succ n ih => ?_
  have hl : l < 5 := by omega
  have halign := halign (Nat.succ_ne_zero n)
  obtain ⟨loc1, ts, hinv, hlowered, hshuffled, hindex⟩ := cascadeTimers_inv hpos hl halign h
  unfold cascades
  dsimp only
  rw [hindex]
  split
  · next hgo =>
    obtain ⟨loc2, hinv2, hdue, hshuffled₂⟩ := ih (l := l + 1) (by omega) (by omega)
      (fun _ => (aligned_succ_iff hpos halign).mp hgo) hinv
    exact ⟨loc2, hinv2, hlowered.sameDue.trans hdue, hshuffled.trans hshuffled₂⟩
  · next hstop =>
    have hmod : T % unit (l + 1) ≠ 0 := fun hzero =>
      hstop ((aligned_succ_iff hpos halign).mpr hzero)
    refine ⟨loc1, hinv.of_window fun m hm => ?_, hlowered.sameDue, hshuffled⟩
    by_cases hle : m ≤ l
    · have hiff : m < l + 1 ↔ m < 5 := by omega
      simp only [window, hiff]
    · exact window_of_not_aligned (not_aligned_of_le hmod (by omega))

/-- **The start of a pass** brings all timers that are due to the first slot. -/
lemma enterPass_inv (h : Inv w 0 T loc) :
    ∃ loc', Inv (enterPass w) 5 T loc' ∧ SameDue loc loc' ∧ Shuffled w (enterPass w) := by
  have hindex : w.index 0 = T % 256 := by
    rw [h.index 0 (by decide), window_zero]
    rfl
  unfold enterPass
  split
  · next hzero =>
    have hstart : Inv w 1 T loc := h.of_window fun l _ => by
      unfold window
      split_ifs <;> first | rfl | omega
    exact cascades_inv rfl (by decide) (fun _ => hindex ▸ hzero) hstart
  · next hne =>
    have hmod : T % unit 1 ≠ 0 := hindex ▸ hne
    refine ⟨loc, h.of_window fun l _ => ?_, fun _ => rfl, .refl w⟩
    by_cases hl : l = 0
    · rw [hl, window_zero, window_zero]
    · exact window_of_not_aligned (not_aligned_of_le hmod (by omega))

/-- The timers on the current list are due now. -/
lemma Inv.due_now (h : Inv w k T loc) {t : Nat} (ht : t ∈ w.vec 0 (w.index 0)) :
    loc t = some (0, T) := by
  rw [h.slots, h.index 0 (by decide), window_zero] at ht
  obtain ⟨D, hloc, hslot⟩ := ht
  obtain ⟨-, hlow, hhigh⟩ := h.range t 0 D hloc
  rw [window_zero] at hlow hhigh
  have hunit : unit 0 = 1 := rfl
  have hsize : size 0 = 256 := rfl
  rw [hunit, Nat.div_one] at hlow hhigh hslot
  rw [hsize] at hhigh hslot
  obtain rfl : D = T := by omega
  exact hloc

/-- If it is empty, none is. -/
lemma Inv.none_due (h : Inv w 5 T loc) (hempty : w.vec 0 (w.index 0) = []) (t l : Nat) :
    loc t ≠ some (l, T) := by
  intro hloc
  obtain ⟨hl, hlow, -⟩ := h.range t l T hloc
  by_cases hzero : l = 0
  · subst hzero
    have hmem : t ∈ w.vec 0 (w.index 0) := by
      rw [h.slots, h.index 0 (by decide), window_zero]
      exact ⟨T, hloc, by rw [show unit 0 = 1 from rfl, Nat.div_one]⟩
    rw [hempty] at hmem
    cases hmem
  · rw [window_of_pos hzero, if_pos hl] at hlow
    have hu := unit_pos l
    rw [show T + 1 + unit l - 1 = T + unit l by omega, Nat.add_div_right _ hu] at hlow
    omega

/-- On to the next jiffy. -/
lemma advance_inv (h : Inv w 5 T loc) (hempty : w.vec 0 (w.index 0) = []) :
    Inv (advance w) 0 (T + 1) loc := by
  have hwin : ∀ l, l ≠ 0 → l < 5 → window (T + 1) 0 l = window T 5 l := by
    intro l hl hlt
    rw [window_of_pos hl, window_of_pos hl, if_neg (Nat.not_lt_zero l), if_pos hlt, Nat.add_zero]
  have hindex : (advance w).index = update w.index 0 ((w.index 0 + 1) % size 0) := rfl
  have hsoon : ∀ t l D, loc t = some (l, D) → D < T + 1 + 2 ^ 32 := fun t l D ht => by
    have := h.soon t l D ht
    omega
  refine ⟨?_, fun l hl => ?_, h.nodup, h.slots, fun t l D ht => ?_, hsoon, h.expires, h.pending⟩
  · show w.timerJiffies + 1 = _
    rw [h.now, BitVec.ofNat_add]
    rfl
  · by_cases hzero : l = 0
    · subst hzero
      rw [hindex, update_self, h.index 0 hl, window_zero, window_zero, Nat.mod_add_mod]
    · rw [hindex, update_of_ne hzero, h.index l hl, hwin l hzero hl]
  obtain ⟨hl, hlow, hhigh⟩ := h.range t l D ht
  refine ⟨hl, ?_⟩
  unfold InWindow
  by_cases hzero : l = 0
  · subst hzero
    have hne : D ≠ T := fun heq => h.none_due hempty t 0 (heq ▸ ht)
    rw [window_zero] at hlow hhigh ⊢
    rw [show unit 0 = 1 from rfl, Nat.div_one] at hlow hhigh ⊢
    omega
  · rw [hwin l hzero hl]
    exact ⟨hlow, hhigh⟩

end RpiOs.Timer
