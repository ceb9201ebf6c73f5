import Mathlib.Data.BitVec

/-!
# Programs over a volatile and a durable state

A program reads a volatile state `V` and a durable state `D`. It changes the first freely and the
second only by single writes, each of which is atomic. It returns, or it stops (a failed check, a
wait nobody ends). `Outcome` keeps the writes it issued in order, so a crash after any number of
them is a prefix of that list.

`Wp m v d Q C H` reads: from `v` and `d`, every durable state `m` passes (the first, the last and
each one between two writes) satisfies `C`; if `m` returns, `Q` holds of its value and of the
states it leaves; if it stops with `e`, `H e` holds. With `H := fun _ => False` this is total
correctness, with `H := fun _ => True` partial correctness; `C` and `H` are trivial unless given.
-/

namespace RpiOs.Lib

/-- A durable state and what one write does to it. -/
class Durable (D : Type) (W : outParam Type) where
  apply : D → W → D

/-- The durable state after a list of writes. -/
def applyAll {D W : Type} [Durable D W] (d : D) (ws : List W) : D := ws.foldl Durable.apply d

section applyAll

variable {D W : Type} [Durable D W]

@[simp] lemma applyAll_nil (d : D) : applyAll d ([] : List W) = d := rfl

@[simp] lemma applyAll_cons (d : D) (w : W) (ws : List W) :
    applyAll d (w :: ws) = applyAll (Durable.apply d w) ws := rfl

lemma applyAll_append (d : D) (ws ws' : List W) :
    applyAll d (ws ++ ws') = applyAll (applyAll d ws) ws' := List.foldl_append

end applyAll

/-- What a run leaves: the writes it issued and, unless it stopped, its value and volatile state. -/
structure Outcome (ε V W α : Type) where
  /-- The durable writes, in order. -/
  writes : List W
  /-- The value and volatile state, or why the run stopped. -/
  result : Except ε (α × V)

/-- A program. -/
def Prog (ε V D W α : Type) : Type := V → D → Outcome ε V W α

namespace Prog

variable {ε V D W α β : Type} [Durable D W]

/-- The second program runs on the state the first one left. -/
def bind (m : Prog ε V D W α) (f : α → Prog ε V D W β) : Prog ε V D W β := fun v d =>
  match (m v d).result with
  | .error e => ⟨(m v d).writes, .error e⟩
  | .ok (a, v') =>
    let o := f a v' (applyAll d (m v d).writes)
    ⟨(m v d).writes ++ o.writes, o.result⟩

instance : Monad (Prog ε V D W) where
  pure a := fun v _ => ⟨[], .ok (a, v)⟩
  bind := bind

/-- The volatile state. -/
def get : Prog ε V D W V := fun v _ => ⟨[], .ok (v, v)⟩

/-- Change the volatile state. -/
def modify (f : V → V) : Prog ε V D W Unit := fun v _ => ⟨[], .ok ((), f v)⟩

/-- The durable state. -/
def durable : Prog ε V D W D := fun v d => ⟨[], .ok (d, v)⟩

/-- One durable write. -/
def write (w : W) : Prog ε V D W Unit := fun v _ => ⟨[w], .ok ((), v)⟩

/-- Stop for good. -/
def stop (e : ε) : Prog ε V D W α := fun _ _ => ⟨[], .error e⟩

/-- `body i; body (i + 1); …`, `n` times. -/
def loop (body : Nat → Prog ε V D W Unit) : Nat → Nat → Prog ε V D W Unit
  | _, 0 => pure ()
  | i, n + 1 => do
    body i
    loop body (i + 1) n

/-- A result that is computed. -/
lemma exists_of_any {r : Except ε (α × V)} {p : α → V → Prop} [∀ a v, Decidable (p a v)]
    (h : r.toOption.any (fun x => p x.1 x.2) = true) : ∃ a v, r = .ok (a, v) ∧ p a v := by
  cases r with
  | error e => cases h
  | ok x => exact ⟨x.1, x.2, rfl, of_decide_eq_true h⟩

end Prog

/-! ## Weakest preconditions with a crash condition -/

section wp

variable {ε V D W α β : Type} [Durable D W]

/-- See the head of the file. -/
def Wp (m : Prog ε V D W α) (v : V) (d : D) (Q : α → V → D → Prop) (C : D → Prop := fun _ => True)
    (H : ε → Prop := fun _ => True) : Prop :=
  (∀ k, C (applyAll d ((m v d).writes.take k))) ∧
    match (m v d).result with
    | .ok (a, v') => Q a v' (applyAll d (m v d).writes)
    | .error e => H e

variable {m : Prog ε V D W α} {v : V} {d : D} {Q Q' : α → V → D → Prop} {C C' : D → Prop}
  {H H' : ε → Prop} {a : α} {v' : V}

section

variable (h : Wp m v d Q C H)
include h

/-- Every crash of the run leaves a state that satisfies the crash condition. -/
lemma Wp.crash (k : Nat) : C (applyAll d ((m v d).writes.take k)) := h.1 k

lemma Wp.post (hr : (m v d).result = .ok (a, v')) :
    Q a v' (applyAll d (m v d).writes) := by
  have h2 := h.2
  rwa [hr] at h2

lemma Wp.returns (hH : ∀ e, ¬ H e) :
    ∃ a v', (m v d).result = .ok (a, v') ∧ Q a v' (applyAll d (m v d).writes) := by
  cases hr : (m v d).result with
  | error e =>
    have h2 := h.2
    rw [hr] at h2
    exact absurd h2 (hH e)
  | ok r => exact ⟨r.1, r.2, rfl, h.post hr⟩

/-- Weaker conditions. -/
lemma Wp.mono (hQ : ∀ a v' d', Q a v' d' → Q' a v' d')
    (hC : ∀ d', C d' → C' d') (hH : ∀ e, H e → H' e) : Wp m v d Q' C' H' := by
  refine ⟨fun k => hC _ (h.1 k), ?_⟩
  have h2 := h.2
  cases hr : (m v d).result with
  | error e =>
    rw [hr] at h2
    exact hH e h2
  | ok r =>
    rw [hr] at h2
    exact hQ _ _ _ h2

lemma Wp.imp (hQ : ∀ a v' d', Q a v' d' → Q' a v' d') : Wp m v d Q' C H :=
  h.mono hQ (fun _ h => h) (fun _ h => h)

end

@[simp] lemma wp_pure (a : α) : Wp (pure a : Prog ε V D W α) v d Q C H ↔ C d ∧ Q a v d := by
  simp [Wp, pure]

lemma Wp.ret (h : Q a v d) : Wp (pure a : Prog ε V D W α) v d Q (H := H) :=
    (wp_pure a).mpr ⟨trivial, h⟩

/-- **Sequencing**: the crash states of both parts are crash states of the whole. -/
lemma wp_bind (f : α → Prog ε V D W β) {Q : β → V → D → Prop} :
    Wp (m >>= f) v d Q C H ↔ Wp m v d (fun a v' d' => Wp (f a) v' d' Q C H) C H := by
  have hb : (m >>= f) v d = Prog.bind m f v d := rfl
  rw [Wp, Wp, hb, Prog.bind]
  cases hr : (m v d).result with
  | error e => rfl
  | ok r => ?_
  obtain ⟨a, v'⟩ := r
  simp only [Wp, applyAll_append]
  -- a prefix of the joined writes ends in the first part or reaches into the second
  constructor
  · rintro ⟨hC, hQ⟩
    refine ⟨fun k => ?_, fun k => ?_, hQ⟩
    · have := hC (min k (m v d).writes.length)
      rwa [List.take_append_of_le_length (Nat.min_le_right _ _), ← List.take_take,
        List.take_length] at this
    · have := hC ((m v d).writes.length + k)
      rwa [List.take_length_add_append, applyAll_append] at this
  · rintro ⟨hC, hC', hQ⟩
    refine ⟨fun k => ?_, hQ⟩
    rcases Nat.le_total k (m v d).writes.length with hk | hk
    · rw [List.take_append_of_le_length hk]
      exact hC k
    obtain ⟨j, rfl⟩ := Nat.exists_eq_add_of_le hk
    rw [List.take_length_add_append, applyAll_append]
    exact hC' j

lemma Wp.bind {f : α → Prog ε V D W β} {Q : β → V → D → Prop}
    (h : Wp m v d (fun a v' d' => Wp (f a) v' d' Q C H) C H) : Wp (m >>= f) v d Q C H :=
  (wp_bind f).mpr h

lemma bind_of_ok (f : α → Prog ε V D W β) (h : (m v d).result = .ok (a, v')) :
    (m >>= f) v d = ⟨(m v d).writes ++ (f a v' (applyAll d (m v d).writes)).writes,
      (f a v' (applyAll d (m v d).writes)).result⟩ := by
  have hb : (m >>= f) v d = Prog.bind m f v d := rfl
  rw [hb, Prog.bind, h]

lemma bind_of_error (f : α → Prog ε V D W β) {e : ε}
    (h : (m v d).result = .error e) : (m >>= f) v d = ⟨(m v d).writes, .error e⟩ := by
  have hb : (m >>= f) v d = Prog.bind m f v d := rfl
  rw [hb, Prog.bind, h]

lemma wp_of_ok (h : m v d = ⟨[], .ok (a, v')⟩) : Wp m v d Q C H ↔ C d ∧ Q a v' d := by
  simp [Wp, h]

@[simp] lemma wp_get {Q : V → V → D → Prop} :
    Wp (Prog.get : Prog ε V D W V) v d Q C H ↔ C d ∧ Q v v d := by
  simp [Wp, Prog.get]

@[simp] lemma wp_modify (f : V → V) {Q : Unit → V → D → Prop} :
    Wp (Prog.modify f : Prog ε V D W Unit) v d Q C H ↔ C d ∧ Q () (f v) d := by
  simp [Wp, Prog.modify]

@[simp] lemma wp_durable {Q : D → V → D → Prop} :
    Wp (Prog.durable : Prog ε V D W D) v d Q C H ↔ C d ∧ Q d v d := by
  simp [Wp, Prog.durable]

@[simp] lemma wp_stop (e : ε) : Wp (Prog.stop e : Prog ε V D W α) v d Q C H ↔ C d ∧ H e := by
  simp [Wp, Prog.stop]

/-- A run with one write has two crash states, the one before and the one after. -/
@[simp] lemma wp_write (w : W) {Q : Unit → V → D → Prop} :
    Wp (Prog.write w : Prog ε V D W Unit) v d Q C H ↔
      (C d ∧ C (Durable.apply d w)) ∧ Q () v (Durable.apply d w) := by
  simp only [Wp, Prog.write, applyAll_cons, applyAll_nil]
  refine and_congr_left fun _ => ⟨fun h => ⟨by simpa using h 0, by simpa using h 1⟩, ?_⟩
  rintro ⟨h0, h1⟩ k
  cases k with
  | zero => simpa using h0
  | succ k => simpa using h1

/-- **Counted loop**: an invariant kept by every round holds at the end. -/
lemma wp_loop (body : Nat → Prog ε V D W Unit) (I : Nat → V → D → Prop) (i n : Nat)
    (hC : ∀ v d, I (i + n) v d → C d)
    (hbody : ∀ j v d, i ≤ j → j < i + n → I j v d → Wp (body j) v d (fun _ => I (j + 1)) C H)
    (h : I i v d) : Wp (Prog.loop body i n) v d (fun _ => I (i + n)) C H := by
  induction n generalizing i v d with
  | zero => exact (wp_pure ()).mpr ⟨hC v d h, h⟩
  | succ n ih => ?_
  rw [Prog.loop, wp_bind]
  have hn : i + (n + 1) = i + 1 + n := by omega
  refine (hbody i v d (Nat.le_refl i) (by omega) h).imp fun _ v' d' h' => ?_
  rw [hn]
  refine ih (i + 1) (fun v d hI => hC v d (hn ▸ hI)) (fun j v d hj hjn => ?_) h'
  exact hbody j v d (by omega) (by omega)

/-- A loop in which round `p` takes `A` to `B` and every other round keeps both. -/
lemma wp_loop_only (body : Nat → Prog ε V D W Unit) {n p : Nat} (hp : p < n) {A B : V → D → Prop}
    (hC : ∀ v d, B v d → C d) (hA : ∀ j v d, j ≠ p → A v d → Wp (body j) v d (fun _ => A) C H)
    (hB : ∀ j v d, j ≠ p → B v d → Wp (body j) v d (fun _ => B) C H)
    (hbody : ∀ v d, A v d → Wp (body p) v d (fun _ => B) C H) (h : A v d) :
    Wp (Prog.loop body 0 n) v d (fun _ => B) C H := by
  refine (wp_loop body (fun j v d => (p < j → B v d) ∧ (j ≤ p → A v d)) 0 n
    (fun v d hI => hC v d (hI.1 (by omega))) (fun j v d _ _ hI => ?_)
    ⟨fun h0 => absurd h0 (Nat.not_lt_zero p), fun _ => h⟩).imp fun _ _ _ hI => hI.1 (by omega)
  rcases Nat.lt_trichotomy j p with hj | hj | hj
  · refine (hA j v d (Nat.ne_of_lt hj) (hI.2 (by omega))).imp fun _ _ _ h => ⟨?_, fun _ => h⟩
    exact fun h => by omega
  · subst hj
    exact (hbody v d (hI.2 (Nat.le_refl j))).imp fun _ _ _ h => ⟨fun _ => h, fun h => by omega⟩
  · refine (hB j v d (Nat.ne_of_gt hj) (hI.1 hj)).imp fun _ _ _ h => ⟨fun _ => h, ?_⟩
    exact fun h => by omega

end wp

end RpiOs.Lib
