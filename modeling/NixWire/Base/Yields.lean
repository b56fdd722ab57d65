/-
  NixWire.Base.Yields — what a computation returns.

  `x.Yields P`: every value that `x` returns satisfies `P`, whatever the state it starts
  in; nothing is said of a stop. A loop returns what its last pass does, and needs what
  its passes keep (`Rd.Yields.loop`); a line reader returns what it makes of its state at
  the end, or what a line ends it with (`Rd.Yields.readLines`).
-/

import NixWire.Base.Lines

namespace NixWire.Base

variable {ε R α β σ κ : Type} {P : α → Prop}

def Rd.Yields (P : α → Prop) (x : Rd ε R α) : Prop := ∀ (r r' : R) (a : α), x.run r = (.ok a, r') → P a

theorem Rd.Yields.pure {a : α} (h : P a) : (Pure.pure a : Rd ε R α).Yields P := by
  intro r r' b hrun
  cases hrun
  exact h

theorem Rd.Yields.fail (e : ε) : (Rd.fail e : Rd ε R α).Yields P := by
  intro r r' b hrun
  cases hrun

theorem Rd.Yields.bind {Q : β → Prop} {x : Rd ε R β} {f : β → Rd ε R α} (hx : x.Yields Q)
    (hf : ∀ b, Q b → (f b).Yields P) : (x >>= f).Yields P := by
  intro r r' a hrun
  obtain ⟨b, r₁, hb, ha⟩ := Rd.bind_ok_iff.mp hrun
  exact hf b (hx _ _ _ hb) _ _ _ ha

/-- After any value. -/
theorem Rd.Yields.after {x : Rd ε R β} {f : β → Rd ε R α} (hf : ∀ b, (f b).Yields P) : (x >>= f).Yields P :=
  Rd.Yields.bind (Q := fun _ => True) (fun _ _ _ _ => trivial) fun b _ => hf b

theorem Rd.Yields.map {f : β → α} {x : Rd ε R β} (h : x.Yields fun b => P (f b)) : (f <$> x).Yields P := by
  intro r r' a hrun
  obtain ⟨b, hb, rfl⟩ := Rd.map_ok_iff.mp hrun
  exact h _ _ _ hb

theorem Rd.Yields.mono {Q : α → Prop} {x : Rd ε R α} (h : x.Yields P) (hPQ : ∀ a, P a → Q a) : x.Yields Q :=
  fun _ _ _ hrun => hPQ _ (h _ _ _ hrun)

/-- A loop whose passes keep `I` and return `P`. -/
theorem Rd.Yields.loop {I : β → Prop} {body : β → Rd ε R (β ⊕ α)} (h : ∀ b, I b → (body b).Yields (Sum.elim I P))
    (fuel : Nat) {b : β} (hb : I b) : (Rd.loop body fuel b).Yields P := by
  induction fuel generalizing b with
  | zero =>
    intro r r' a hrun
    cases hrun
  | succ fuel ih =>
    rw [Rd.loop]
    refine (h b hb).bind fun o ho => ?_
    cases o with
    | inl b' => exact ih ho
    | inr a => exact Rd.Yields.pure ho

theorem Rd.Yields.iterate {I : β → Prop} {size : R → Nat} {body : β → Rd ε R (β ⊕ α)}
    (h : ∀ b, I b → (body b).Yields (Sum.elim I P)) {b : β} (hb : I b) : (Rd.iterate size body b).Yields P :=
  fun r _ _ hrun => Rd.Yields.loop h (size r + 1) hb _ _ _ hrun

theorem Rd.Yields.readLines {step : σ → κ → Except ε (LineStep σ α)} {finish : σ → α} (hfinish : ∀ s, P (finish s))
    (hstep : ∀ s l a, step s l = .ok (.done a) ∨ step s l = .ok (.leave a) → P a) (s : σ) :
    (readLines step finish s).Yields P := by
  intro ls ls' a hrun
  induction ls generalizing s with
  | nil =>
    cases hrun
    exact hfinish s
  | cons l ls ih =>
    rcases hl : step s l with e | (s' | b | b)
    · cases (readLines_error hl).symm.trans hrun
    · exact ih s' ((readLines_next hl).symm.trans hrun)
    · cases (readLines_done hl).symm.trans hrun
      exact hstep s l a (Or.inl hl)
    · cases (readLines_leave hl).symm.trans hrun
      exact hstep s l a (Or.inr hl)

theorem Rd.Yields.nextLine {x : Rd ε (List κ) α} {f : κ → Rd ε (List κ) α} (hx : x.Yields P) (hf : ∀ l, (f l).Yields P) :
    (nextLine x f).Yields P := by
  intro ls ls' a hrun
  cases ls with
  | nil => exact hx _ _ _ hrun
  | cons l ls => exact hf l _ _ _ hrun

end NixWire.Base
