import Mathlib

/-! # Runs — the states that a machine reaches

    A machine takes one event after the other and may refuse an event.  A result about its
    runs is about the states that are reached by steps which all meet a condition; a
    concrete run is computed by a function that checks the condition before every step. -/

namespace Run

variable {σ ε : Type} {step : σ → ε → Option σ} {ok ok' : σ → ε → Prop} {s₀ s s' : σ}

/-- The states reached from `s₀` by steps that all meet the condition `ok`. -/
inductive ReachBy (step : σ → ε → Option σ) (ok : σ → ε → Prop) (s₀ : σ) : σ → Prop where
  | init : ReachBy step ok s₀ s₀
  | step {s s' : σ} {e : ε} :
      ReachBy step ok s₀ s → ok s e → step s e = some s' → ReachBy step ok s₀ s'

/-- A run that checks the condition before every step. -/
def runBy (step : σ → ε → Option σ) (ok : σ → ε → Prop) [∀ s e, Decidable (ok s e)] :
    σ → List ε → Option σ
  | s, [] => some s
  | s, e :: es => if ok s e then (step s e).bind (fun s => runBy step ok s es) else none

/-- A computation that ends has its value. -/
theorem eq_some_getD {α : Type} {o : Option α} (d : α) (h : o.isSome = true) :
    o = some (o.getD d) := by
  cases o with
  | none => cases h
  | some a => rfl

/-- Runs compose. -/
theorem ReachBy.trans (h : ReachBy step ok s₀ s) (h' : ReachBy step ok s s') :
    ReachBy step ok s₀ s' := by
  induction h' with
  | init => exact h
  | step _ hok hs ih => exact ih.step hok hs

/-- A weaker condition has more runs. -/
theorem ReachBy.mono (h : ReachBy step ok s₀ s) (hok : ∀ s e, ok s e → ok' s e) :
    ReachBy step ok' s₀ s := by
  induction h with
  | init => exact .init
  | step _ he hs ih => exact ih.step (hok _ _ he) hs

/-- What the steps keep holds of every state that is reached. -/
theorem ReachBy.keeps {I : σ → Prop} (h : ReachBy step ok s₀ s) (h₀ : I s₀)
    (hstep : ∀ {s e s'}, I s → ok s e → step s e = some s' → I s') : I s := by
  induction h with
  | init => exact h₀
  | step _ hok hs ih => exact hstep ih hok hs

/-- What a checked run ends in is reached. -/
theorem ReachBy.of_runBy [∀ s e, Decidable (ok s e)] {es : List ε}
    (h : runBy step ok s₀ es = some s) : ReachBy step ok s₀ s := by
  induction es generalizing s₀ with
  | nil =>
    cases h
    exact .init
  | cons e es ih =>
    rw [runBy] at h
    split at h
    · rename_i hok
      obtain ⟨s1, h1, h2⟩ := Option.bind_eq_some_iff.mp h
      exact (ReachBy.init.step hok h1).trans (ih h2)
    · cases h

/-- A checked run that ends in a state with the property `P`. -/
theorem ReachBy.of_run [∀ s e, Decidable (ok s e)] {P : σ → Prop} [DecidablePred P]
    (es : List ε) (h : (runBy step ok s₀ es).any (fun s => decide (P s)) = true) :
    ∃ s, ReachBy step ok s₀ s ∧ P s := by
  obtain ⟨s, hs, hp⟩ := (Option.any_eq_true _ _).mp h
  exact ⟨s, .of_runBy hs, of_decide_eq_true hp⟩

end Run
