import RpiOs.Lib.Durable

/-!
# Programs that leave the durable state alone

Most code only works on the volatile state. `Silent p v d Q H` is the `Wp` of such a program: the
durable state is `d` all the time, `Q` holds when it returns and `H` when it stops. The rules drop
everything about `d`.
-/

namespace RpiOs.Lib

variable {ε V D W α β : Type} [Durable D W]

/-- The program writes nothing durable. -/
def Silent (p : Prog ε V D W α) (v : V) (d : D) (Q : α → V → Prop) (H : ε → Prop) : Prop :=
  Wp p v d (fun a v' d' => d' = d ∧ Q a v') (fun d' => d' = d) H

section rules

variable {p : Prog ε V D W α} {v : V} {d : D} {Q Q' : α → V → Prop} {H H' : ε → Prop}

/-- A rule for `Wp` that holds for every crash condition gives one for `Silent`. -/
lemma Silent.wp {C : D → Prop} (h : Silent p v d Q H) (hC : C d) :
    Wp p v d (fun a v' d' => d' = d ∧ Q a v') C H := by
  refine Wp.mono h (fun _ _ _ h => h) ?_ (fun _ h => h)
  rintro d' rfl
  exact hC

lemma Silent.returns (h : Silent p v d Q H) (hH : ∀ e, ¬ H e) :
    ∃ a v', (p v d).result = .ok (a, v') ∧ applyAll d (p v d).writes = d ∧ Q a v' := by
  obtain ⟨a, v', hr, hd, hq⟩ := Wp.returns h hH
  exact ⟨a, v', hr, hd, hq⟩

lemma Silent.result_eq {a : α} (h : Silent p v d (fun r _ => r = a) fun _ => False) :
    ∃ v', (p v d).result = .ok (a, v') := by
  obtain ⟨_, v', hr, -, rfl⟩ := h.returns fun _ h => h
  exact ⟨v', hr⟩

/-- A program that does not return stops, and every `Silent` knows why. -/
lemma Silent.stops (h : Silent p v d (fun _ _ => False) H) (h' : Silent p v d Q H') :
    ∃ e, H e ∧ H' e := by
  have hstop := h.2
  have hother := h'.2
  cases hr : (p v d).result with
  | ok r =>
    rw [hr] at hstop
    exact hstop.2.elim
  | error e =>
    rw [hr] at hstop hother
    exact ⟨e, hstop, hother⟩

@[simp] lemma silent_pure (a : α) : Silent (pure a : Prog ε V D W α) v d Q H ↔ Q a v := by
  unfold Silent
  rw [wp_pure]
  simp

/-- **Sequencing.** -/
lemma Silent.bind {f : α → Prog ε V D W β} {Q : β → V → Prop}
    (h : Silent p v d (fun a v' => Silent (f a) v' d Q H) H) : Silent (p >>= f) v d Q H := by
  unfold Silent
  refine .bind (Wp.imp h ?_)
  rintro a v' d' ⟨rfl, hf⟩
  exact hf

@[simp] lemma silent_get {Q : V → V → Prop} :
    Silent (Prog.get : Prog ε V D W V) v d Q H ↔ Q v v := by
  unfold Silent
  rw [wp_get]
  simp

@[simp] lemma silent_stop (e : ε) : Silent (Prog.stop e : Prog ε V D W α) v d Q H ↔ H e := by
  unfold Silent
  rw [wp_stop]
  simp

end rules

end RpiOs.Lib
