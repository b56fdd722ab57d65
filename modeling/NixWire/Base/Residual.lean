/-
  NixWire.Base.Residual — what a line reader still has to do past some lines.

  `Past xs Q p`: once `p` has been given the lines `xs` it goes on as a reader that satisfies
  `Q`, whatever follows, unless it fails whatever follows. A reader whose states are modes
  of an automaton stays in step with the automaton over any prefix (`Past.scan`).
-/

import NixWire.Base.Lines

namespace NixWire.Base

variable {ε σ α β κ : Type}

/-- Whatever follows the lines `xs`, `p` fails. -/
def FailsPast (xs : List κ) (p : Rd ε (List κ) α) : Prop := ∀ ls, ∃ o, (p.run (xs ++ ls)).1 = .stop o

def Past (xs : List κ) (Q : Rd ε (List κ) α → Prop) (p : Rd ε (List κ) α) : Prop :=
  (∃ q, Q q ∧ ∀ ls, p.run (xs ++ ls) = q.run ls) ∨ FailsPast xs p

variable {xs ys : List κ} {x : κ} {p p' q : Rd ε (List κ) α} {Q Q' : Rd ε (List κ) α → Prop}

theorem Past.here (h : Q p) : Past [] Q p := Or.inl ⟨p, h, fun _ => rfl⟩

theorem Past.congr (hp : ∀ ls, p.run (xs ++ ls) = p'.run (xs ++ ls)) (h : Past xs Q p') : Past xs Q p := by
  rcases h with ⟨q, hq, hrun⟩ | hfail
  · exact Or.inl ⟨q, hq, fun ls => (hp ls).trans (hrun ls)⟩
  · refine Or.inr fun ls => ?_
    rw [hp]
    exact hfail ls

theorem Past.mono (himp : ∀ q, Q q → Q' q) (h : Past xs Q p) : Past xs Q' p :=
  h.imp_left fun h => h.imp fun q hq => ⟨himp q hq.1, hq.2⟩

theorem Past.trans (h : Past xs Q p) (hnext : ∀ q, Q q → Past ys Q' q) : Past (xs ++ ys) Q' p := by
  rcases h with ⟨q, hq, hrun⟩ | hfail
  · have hp (ls : List κ) : p.run (xs ++ ys ++ ls) = q.run (ys ++ ls) := by rw [List.append_assoc, hrun]
    rcases hnext q hq with ⟨q', hq', hrun'⟩ | hfail
    · exact Or.inl ⟨q', hq', fun ls => (hp ls).trans (hrun' ls)⟩
    · refine Or.inr fun ls => ?_
      rw [hp]
      exact hfail ls
  · refine Or.inr fun ls => ?_
    rw [List.append_assoc]
    exact hfail (ys ++ ls)

/-- A line on which `p` is another reader. -/
theorem Past.step (hp : ∀ ls, p.run (x :: ls) = p'.run ls) (h : Past xs Q p') : Past (x :: xs) Q p := by
  rcases h with ⟨q, hq, hrun⟩ | hfail
  · exact Or.inl ⟨q, hq, fun ls => (hp _).trans (hrun ls)⟩
  · refine Or.inr fun ls => ?_
    rw [List.cons_append, hp]
    exact hfail ls

/-- Of a reader that does not fail past `xs`. -/
theorem Past.of_ok (h : Past xs Q p) {ls : List κ} {a : α} (hok : (p.run (xs ++ ls)).1 = .ok a) :
    ∃ q, Q q ∧ ∀ ls, p.run (xs ++ ls) = q.run ls := by
  rcases h with h | hfail
  · exact h
  · obtain ⟨o, hstop⟩ := hfail ls
    rw [hok] at hstop
    cases hstop

/-- A reader that keeps in step with an automaton on every line does so over any lines. -/
theorem Past.scan {M : Type} {step : M → κ → M} {Awaits : M → Rd ε (List κ) α → Prop}
    (hstep : ∀ m q x, Awaits m q → Past [x] (Awaits (step m x)) q) (xs : List κ) {m : M} (h : Awaits m p) :
    Past xs (Awaits (xs.foldl step m)) p := by
  induction xs generalizing m p with
  | nil => exact .here h
  | cons x xs ih => exact (hstep m p x h).trans fun q hq => ih hq

theorem FailsPast.bind {p : Rd ε (List κ) β} (h : FailsPast xs p) (f : β → Rd ε (List κ) α) : FailsPast xs (p >>= f) := by
  intro ls
  obtain ⟨o, hstop⟩ := h ls
  exact ⟨o, by rw [Rd.bind_stop (Prod.ext hstop rfl)]⟩

/-! ## Loops over lines -/

section

variable {step : σ → κ → Except ε (LineStep σ β)} {finish : σ → β} {s s' : σ} {b : β} {f : β → Rd ε (List κ) α}

theorem bind_congr_run {p p' : Rd ε (List κ) β} {ls ls' : List κ} (h : p.run ls = p'.run ls') :
    (p >>= f).run ls = (p' >>= f).run ls' := by
  rw [Rd.run_bind, Rd.run_bind, h]

theorem readLines_bind_next (h : step s x = .ok (.next s')) (ls : List κ) :
    (readLines step finish s >>= f).run (x :: ls) = (readLines step finish s' >>= f).run ls :=
  bind_congr_run (readLines_next h)

theorem readLines_bind_done (h : step s x = .ok (.done b)) (ls : List κ) :
    (readLines step finish s >>= f).run (x :: ls) = (f b).run ls := by
  rw [Rd.bind_ok (readLines_done h)]

theorem readLines_bind_leave (h : step s x = .ok (.leave b)) (ls : List κ) :
    (readLines step finish s >>= f).run (x :: ls) = (f b).run (x :: ls) := by
  rw [Rd.bind_ok (readLines_leave h)]

theorem readLines_bind_error {e : ε} (h : step s x = .error e) : FailsPast [x] (readLines step finish s >>= f) :=
  FailsPast.bind (fun ls => ⟨.err e, by rw [List.singleton_append, readLines_error h]⟩) f

end

end NixWire.Base
