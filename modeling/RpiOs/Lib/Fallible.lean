import Mathlib.Data.BitVec

/-!
# Stateful computations that can fail

`EStateM ε σ` models code that changes a state and may stop early: a failure keeps the state reached
so far. `Ends x s Q R` says that `x`, run from `s`, returns a value with `Q` or fails with `R`. Each
way to build a computation has its rule; `ends_forM` is the rule for a loop over a list, with an
invariant that speaks about the elements still to come. `Throws x P` is about the failures alone,
and `Post x s Q` asks for nothing when `x` fails.
-/

namespace RpiOs.Lib

universe u

variable {ε σ α β : Type u}

/-- The computation returns a value with `Q` or fails with `R`; without an `R` it returns. -/
def Ends (x : EStateM ε σ α) (s : σ) (Q : α → σ → Prop) (R : ε → σ → Prop := fun _ _ => False) :
    Prop :=
  match x s with
  | .ok a s' => Q a s'
  | .error e s' => R e s'

variable {s s' : σ} {Q Q' : α → σ → Prop} {R R' : ε → σ → Prop} {x : EStateM ε σ α} {a : α}
  {f : α → EStateM ε σ β}

lemma ends_of_ok (hx : x s = .ok a s') : Ends x s Q R ↔ Q a s' := by
  simp [Ends, hx]

lemma ends_of_error {e : ε} (hx : x s = .error e s') : Ends x s Q R ↔ R e s' := by
  simp [Ends, hx]

instance decidableEnds {x : EStateM ε σ α} [∀ a t, Decidable (Q a t)] [∀ e t, Decidable (R e t)] :
    Decidable (Ends x s Q R) :=
  match hx : x s with
  | .ok a t => decidable_of_iff (Q a t) (ends_of_ok hx).symm
  | .error e t => decidable_of_iff (R e t) (ends_of_error hx).symm

lemma Ends.ok (h : Ends x s Q R) (hx : x s = .ok a s') : Q a s' :=
  (ends_of_ok hx).mp h

lemma Ends.returns (h : Ends x s Q) : ∃ a s', x s = .ok a s' ∧ Q a s' := by
  unfold Ends at h
  split at h
  · next a s' hx => exact ⟨a, s', hx, h⟩
  · exact h.elim

/-- Weaker conditions. -/
lemma Ends.mono (h : Ends x s Q R) (hQ : ∀ a t, Q a t → Q' a t)
    (hR : ∀ e t, R e t → R' e t) : Ends x s Q' R' := by
  unfold Ends at h ⊢
  split
  · next a t hx =>
    rw [hx] at h
    exact hQ a t h
  · next e t hx =>
    rw [hx] at h
    exact hR e t h

lemma Ends.imp (h : Ends x s Q R) (hQ : ∀ a t, Q a t → Q' a t) : Ends x s Q' R :=
  h.mono hQ fun _ _ => id

/-- Two facts about one computation. -/
lemma Ends.and (h : Ends x s Q R) (h' : Ends x s Q' R') :
    Ends x s (fun a t => Q a t ∧ Q' a t) fun e t => R e t ∧ R' e t := by
  unfold Ends at h h' ⊢
  split
  · next a t hx =>
    rw [hx] at h h'
    exact ⟨h, h'⟩
  · next e t hx =>
    rw [hx] at h h'
    exact ⟨h, h'⟩

lemma ends_trivial (x : EStateM ε σ α) : Ends x s ⊤ ⊤ := by
  unfold Ends
  split <;> trivial

@[simp] lemma ends_pure (a : α) : Ends (pure a) s Q R ↔ Q a s := Iff.rfl

@[simp] lemma ends_throw (e : ε) : Ends (throw e : EStateM ε σ α) s Q R ↔ R e s := Iff.rfl

@[simp] lemma ends_get {Q : σ → σ → Prop} : Ends get s Q R ↔ Q s s := Iff.rfl

@[simp] lemma ends_set {Q : PUnit → σ → Prop} (t : σ) : Ends (set t) s Q R ↔ Q ⟨⟩ t := Iff.rfl

@[simp] lemma ends_modify {Q : PUnit → σ → Prop} (f : σ → σ) :
    Ends (modify f) s Q R ↔ Q ⟨⟩ (f s) := Iff.rfl

@[simp] lemma ends_bind (x : EStateM ε σ α) (f : α → EStateM ε σ β) {Q : β → σ → Prop} :
    Ends (x >>= f) s Q R ↔ Ends x s (fun a t => Ends (f a) t Q R) R := by
  show Ends (EStateM.bind x f) s Q R ↔ _
  unfold Ends EStateM.bind
  cases x s <;> rfl

/-- **Sequencing**: the second part starts from what is known of the first. -/
lemma Ends.step {Q' : β → σ → Prop} (h : Ends x s Q R) (hf : ∀ a t, Q a t → Ends (f a) t Q' R) :
    Ends (x >>= f) s Q' R :=
  (ends_bind x f).mpr (h.imp hf)

/-- Sequencing after a part that returns. -/
lemma Ends.bind {Q' : β → σ → Prop} (h : Ends x s Q) (hf : ∀ a t, Q a t → Ends (f a) t Q' R) :
    Ends (x >>= f) s Q' R :=
  (ends_bind x f).mpr (h.mono hf fun _ _ he => he.elim)

@[simp] lemma ends_tryCatch (x : EStateM ε σ α) (f : ε → EStateM ε σ α) :
    Ends (tryCatch x f) s Q R ↔ Ends x s Q fun e t => Ends (f e) t Q R := by
  show Ends (EStateM.tryCatch x f) s Q R ↔ _
  unfold Ends EStateM.tryCatch
  cases x s <;> rfl

/-- The value returned, if any. -/
def valueOf (x : EStateM ε σ α) (s : σ) : Option α :=
  match x s with
  | .ok a _ => some a
  | .error _ _ => none

/-- The state reached, also by a failure. -/
def stateOf (x : EStateM ε σ α) (s : σ) : σ :=
  match x s with
  | .ok _ s' => s'
  | .error _ s' => s'

lemma eq_ok_of_valueOf (h : valueOf x s = some a) : x s = .ok a (stateOf x s) := by
  unfold valueOf at h
  unfold stateOf
  split at h
  · next hx =>
    rw [hx]
    exact congrArg (EStateM.Result.ok · _) (Option.some.inj h)
  · cases h

lemma Ends.returns_stateOf (h : Ends x s Q) :
    ∃ a, x s = .ok a (stateOf x s) ∧ Q a (stateOf x s) := by
  obtain ⟨a, s', hx, hQ⟩ := h.returns
  have hstate : stateOf x s = s' := by
    unfold stateOf
    rw [hx]
  exact ⟨a, by rw [hstate, hx], by rw [hstate]; exact hQ⟩

/-- **Loop rule**: the invariant speaks about the elements still to come. -/
theorem ends_forM {body : α → EStateM ε σ PUnit} {I : List α → σ → Prop}
    (hbody : ∀ x xs t, I (x :: xs) t → Ends (body x) t (fun _ => I xs) R) {xs : List α}
    (hI : I xs s) : Ends (xs.forM body) s (fun _ => I []) R := by
  induction xs generalizing s with
  | nil => exact hI
  | cons x xs ih =>
    show Ends (body x >>= fun _ => xs.forM body) s _ _
    rw [ends_bind]
    exact (hbody x xs s hI).imp (fun _ t ht => ih ht)

/-! ## How a computation fails -/

/-- Every failure has the property. -/
def Throws (x : EStateM ε σ α) (P : ε → Prop) : Prop :=
    ∀ s, Ends x s (fun _ _ => True) fun e _ => P e

section throws

variable {P : ε → Prop} {x : EStateM ε σ α}

lemma Throws.pure (a : α) : Throws (pure a : EStateM ε σ α) P := fun _ => trivial

lemma Throws.throw {e : ε} (h : P e) : Throws (throw e : EStateM ε σ α) P := fun _ => h

lemma Throws.get : Throws (get : EStateM ε σ σ) P := fun _ => trivial

lemma Throws.set (t : σ) : Throws (set t : EStateM ε σ PUnit) P := fun _ => trivial

lemma Throws.modify (f : σ → σ) : Throws (modify f : EStateM ε σ PUnit) P := fun _ => trivial

lemma Throws.bind (hx : Throws x P) (hf : ∀ a, Throws (f a) P) :
    Throws (x >>= f) P := fun s => by
  rw [ends_bind]
  exact (hx s).imp (fun a t _ => hf a t)

lemma Throws.tryCatch {f : ε → EStateM ε σ α} {P' : ε → Prop} (hx : Throws x P')
    (hf : ∀ e, P' e → Throws (f e) P) : Throws (tryCatch x f) P := fun s => by
  rw [ends_tryCatch]
  exact (hx s).mono (fun _ _ _ => trivial) fun e t he => hf e he t

lemma Throws.forM {body : α → EStateM ε σ PUnit} (hbody : ∀ a, Throws (body a) P) (xs : List α) :
    Throws (xs.forM body) P := fun _ =>
  (ends_forM (I := fun _ _ => True) (fun a _ t _ => hbody a t) trivial).imp (fun _ _ _ => trivial)

end throws

/-! ## Partial correctness

`Post x s Q` says that `Q` holds if `x`, run from `s`, returns. A failure satisfies every `Post`, so
a guard that a computation passes is known afterwards. -/

/-- What is known if the computation returns. -/
def Post (x : EStateM ε σ α) (s : σ) (Q : α → σ → Prop) : Prop :=
  ∀ a t, x s = .ok a t → Q a t

lemma Post.mono (h : Post x s Q) (hQ : ∀ a t, Q a t → Q' a t) : Post x s Q' :=
  fun a t hx => hQ a t (h a t hx)

lemma Post.and (h : Post x s Q) (h' : Post x s Q') : Post x s fun a t => Q a t ∧ Q' a t :=
  fun a t hx => ⟨h a t hx, h' a t hx⟩

lemma post_iff_of_ok (hx : x s = .ok a s') : Post x s Q ↔ Q a s' := by
  constructor
  · intro h
    exact h a s' hx
  intro h b t hb
  rw [hx] at hb
  cases hb
  exact h

@[simp] lemma post_pure (a : α) : Post (pure a : EStateM ε σ α) s Q ↔ Q a s := post_iff_of_ok rfl

@[simp] lemma post_throw (e : ε) : Post (throw e : EStateM ε σ α) s Q := by
  rintro _ _ ⟨⟩

@[simp] lemma post_get {Q : σ → σ → Prop} : Post (get : EStateM ε σ σ) s Q ↔ Q s s :=
    post_iff_of_ok rfl

@[simp] lemma post_modify {Q : PUnit → σ → Prop} (f : σ → σ) :
    Post (modify f : EStateM ε σ PUnit) s Q ↔ Q ⟨⟩ (f s) := post_iff_of_ok rfl

@[simp] lemma post_set {Q : PUnit → σ → Prop} (t : σ) :
    Post (set t : EStateM ε σ PUnit) s Q ↔ Q ⟨⟩ t := post_iff_of_ok rfl

lemma bind_run (hx : x s = .ok a s') (f : α → EStateM ε σ β) : (x >>= f) s = f a s' := by
  show EStateM.bind x f s = _
  unfold EStateM.bind
  rw [hx]

lemma bind_eq_ok {b : β} {t : σ} :
    (x >>= f) s = .ok b t ↔ ∃ a u, x s = .ok a u ∧ f a u = .ok b t := by
  show EStateM.bind x f s = .ok b t ↔ _
  unfold EStateM.bind
  cases hx : x s with
  | ok a u => simp
  | error e u => simp

lemma tryCatch_eq_ok {f : ε → EStateM ε σ α} {t : σ} :
    (tryCatch x f) s = .ok a t ↔ x s = .ok a t ∨ ∃ e u, x s = .error e u ∧ f e u = .ok a t := by
  show EStateM.tryCatch x f s = .ok a t ↔ _
  unfold EStateM.tryCatch
  cases hx : x s with
  | ok b u => simp
  | error e u =>
    show f e u = .ok a t ↔ _
    simp

@[simp] lemma post_bind (x : EStateM ε σ α) (f : α → EStateM ε σ β) {Q : β → σ → Prop} :
    Post (x >>= f) s Q ↔ Post x s fun a t => Post (f a) t Q := by
  constructor
  · intro h a t hx b u hf
    exact h b u (bind_eq_ok.mpr ⟨a, t, hx, hf⟩)
  intro h b u hxf
  obtain ⟨a, t, hx, hf⟩ := bind_eq_ok.mp hxf
  exact h a t hx b u hf

lemma Post.pure (h : Q a s) : Post (pure a : EStateM ε σ α) s Q := (post_pure a).mpr h

section bind

variable {x : EStateM ε σ α} {f : α → EStateM ε σ β} {Q : β → σ → Prop}

lemma Post.bind (h : Post x s fun a t => Post (f a) t Q) : Post (x >>= f) s Q :=
    (post_bind x f).mpr h

lemma Post.get {f : σ → EStateM ε σ β} (h : Post (f s) s Q) : Post (get >>= f) s Q :=
  .bind (post_get.mpr h)

lemma Post.modify {g : σ → σ} {f : PUnit → EStateM ε σ β} (h : Post (f ⟨⟩) (g s) Q) :
    Post (modify g >>= f) s Q :=
  .bind ((post_modify g).mpr h)

end bind

lemma post_of_run {Q : β → σ → Prop}
    (h : ∀ a t, x s = .ok a t → Post (f a) t Q) : Post (x >>= f) s Q :=
  (post_bind x f).mpr h

lemma Post.step {Q' : β → σ → Prop} (hx : Post x s Q)
    (hf : ∀ a t, Q a t → Post (f a) t Q') : Post (x >>= f) s Q' :=
  (post_bind x f).mpr (hx.mono hf)

end RpiOs.Lib
