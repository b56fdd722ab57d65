/-
  NixWire.Base.Steps — runs of a transition system.

  A system is a step relation on its states; a run is a finite sequence of steps. What
  every step preserves every run preserves (`run_invariant`); a guarded run is one whose
  steps all meet a condition.
-/

import Mathlib.Logic.Relation

namespace NixWire.Base

variable {S : Type*} {step ok : S → S → Prop}

/-- A run of any length. -/
abbrev Run (step : S → S → Prop) : S → S → Prop := Relation.ReflTransGen step

/-- The steps that meet a condition on the state they are taken from and the one they lead to. -/
def Guarded (step ok : S → S → Prop) (s t : S) : Prop := step s t ∧ ok s t

theorem run_invariant {I : S → Prop} (h : ∀ s t, step s t → I s → I t) {s t : S} (hrun : Run step s t) (hs : I s) : I t := by
  induction hrun with
  | refl => exact hs
  | tail _ hstep ih => exact h _ _ hstep ih

theorem Run.of_guarded {s t : S} (hrun : Run (Guarded step ok) s t) : Run step s t :=
  Relation.ReflTransGen.mono (fun _ _ h => h.1) _ _ hrun

end NixWire.Base
