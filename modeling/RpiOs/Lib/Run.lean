import Mathlib.Data.BitVec

/-!
# Runs of a deterministic system under a condition on its steps

A system is a step function `step : σ → α → σ`; a run is a list of actions. `RunOk ok s as` says
that every action of the run meets `ok` in the state it is taken from, `RunAll P s as` that every
state visited, first and last included, satisfies `P`.

* `runAll_iff_runOk`: when the actions that fail `ok` are exactly those that break `P`, the runs
  that stay inside `P` are exactly those that meet the condition throughout.
-/

namespace RpiOs.Lib

variable {σ α : Type*} (step : σ → α → σ)

/-- Every action of the run meets `ok` in the state it is taken from. -/
def RunOk (ok : σ → α → Prop) : σ → List α → Prop
  | _, [] => True
  | s, a :: as => ok s a ∧ RunOk ok (step s a) as

/-- Every state the run visits satisfies `P`. -/
def RunAll (P : σ → Prop) : σ → List α → Prop
  | s, [] => P s
  | s, a :: as => P s ∧ RunAll P (step s a) as

variable {step} {ok : σ → α → Prop} {P Q : σ → Prop} {s : σ} {as : List α} {I : σ → Prop}

instance decidableRunOk [∀ s a, Decidable (ok s a)] :
    (s : σ) → (as : List α) → Decidable (RunOk step ok s as)
  | _, [] => isTrue trivial
  | s, a :: as =>
    have := decidableRunOk (step s a) as
    inferInstanceAs (Decidable (ok s a ∧ RunOk step ok (step s a) as))

lemma RunAll.head (h : RunAll step P s as) : P s := by
  cases as with
  | nil => exact h
  | cons a as => exact h.1

lemma RunAll.last (h : RunAll step P s as) : P (as.foldl step s) := by
  induction as generalizing s with
  | nil => exact h
  | cons a as ih => exact ih h.2

lemma RunAll.mono (hPQ : ∀ s, P s → Q s) (h : RunAll step P s as) : RunAll step Q s as := by
  induction as generalizing s with
  | nil => exact hPQ s h
  | cons a as ih => exact ⟨hPQ s h.1, ih h.2⟩

/-- **Invariant rule**: a property kept by every action that meets `ok` holds along every run
that meets it. -/
theorem RunOk.runAll (hstep : ∀ s a, P s → ok s a → P (step s a))
    (hs : P s) (h : RunOk step ok s as) : RunAll step P s as := by
  induction as generalizing s with
  | nil => exact hs
  | cons a as ih => exact ⟨hs, ih (hstep s a hs h.1) h.2⟩

lemma runAll_of_step (hstep : ∀ s a, P s → P (step s a)) (hs : P s) (as : List α) :
    RunAll step P s as := by
  induction as generalizing s with
  | nil => exact hs
  | cons a as ih => exact ⟨hs, ih (hstep s a hs)⟩

/-- Under an invariant that every action meeting `ok` keeps, a consequence of `ok` holds for every
action of the run. -/
lemma RunOk.imp {ok' : σ → α → Prop} (hstep : ∀ s a, P s → ok s a → P (step s a))
    (himp : ∀ s a, P s → ok s a → ok' s a) (hs : P s)
    (h : RunOk step ok s as) : RunOk step ok' s as := by
  induction as generalizing s with
  | nil => trivial
  | cons a as ih => exact ⟨himp s a hs h.1, ih (hstep s a hs h.1) h.2⟩

/-- **Exactness**: if `I` is kept by the actions that meet `ok` and gives `P`, and from `I` an
action that fails `ok` breaks `P`, then a run stays inside `P` iff all its actions meet `ok`. -/
theorem runAll_iff_runOk (hI : ∀ s, I s → P s) (hstep : ∀ s a, I s → ok s a → I (step s a))
    (hbad : ∀ s a, I s → ¬ ok s a → ¬ P (step s a)) (hs : I s) :
    RunAll step P s as ↔ RunOk step ok s as := by
  constructor
  · intro h
    induction as generalizing s with
    | nil => trivial
    | cons a as ih =>
      have hok : ok s a := by
        by_contra hno
        exact hbad s a hs hno h.2.head
      exact ⟨hok, ih (hstep s a hs hok) h.2⟩
  · intro h
    exact (RunOk.runAll hstep hs h).mono hI

/-- **Exactness under an assumption on the run**: if every action that meets `pre` keeps `I`, and
from `I` and `P` it leads to `P` exactly when it meets `ok`, then the runs of such actions that stay
inside `P` are those that meet `ok` throughout. -/
theorem runAll_iff_runOk_of_pre {pre : σ → α → Prop} (hI : ∀ s a, I s → pre s a → I (step s a))
    (hiff : ∀ s a, I s → P s → pre s a → (P (step s a) ↔ ok s a)) (hs : I s)
    (hP : P s) (hpre : RunOk step pre s as) : RunAll step P s as ↔ RunOk step ok s as := by
  induction as generalizing s with
  | nil => exact iff_of_true hP trivial
  | cons a as ih => ?_
  have hone := hiff s a hs hP hpre.1
  constructor
  · rintro ⟨-, hrest⟩
    have hnext := hrest.head
    exact ⟨hone.mp hnext, (ih (hI s a hs hpre.1) hnext hpre.2).mp hrest⟩
  rintro ⟨hok, hrest⟩
  have hnext := hone.mpr hok
  exact ⟨hP, (ih (hI s a hs hpre.1) hnext hpre.2).mpr hrest⟩

end RpiOs.Lib
