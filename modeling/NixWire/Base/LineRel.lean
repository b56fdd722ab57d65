/-
  NixWire.Base.LineRel — a line reader over two lists of lines.

  A reader that does the same at lines that correspond does the same over lists that
  correspond line by line (`readLines_alike`). Over a list with more lines behind it a
  reader does what it does over the list, if it ends at the first of the others as it
  ends where no line is left (`readLines_before`).
-/

import NixWire.Base.Lines
import NixWire.Base.Loop
import Mathlib.Data.List.Forall2

namespace NixWire.Base

variable {ε σ α β κ : Type}

section

variable {step : σ → κ → Except ε (LineStep σ α)} {finish : σ → α}

theorem readLines_alike {ρ : κ → κ → Prop} (h : ∀ s l l', ρ l l' → step s l = step s l') (s : σ) :
    Rel (List.Forall₂ ρ) (readLines step finish s) (readLines step finish s) := by
  intro ls ls' hls
  induction hls generalizing s with
  | nil => exact ⟨rfl, .nil⟩
  | @cons l l' ls ls' hl hls ih =>
    rcases hstep : step s l with e | (s' | a | a)
    · rw [readLines_error hstep, readLines_error ((h s l l' hl).symm.trans hstep)]
      exact ⟨rfl, .cons hl hls⟩
    · rw [readLines_next hstep, readLines_next ((h s l l' hl).symm.trans hstep)]
      exact ih s'
    · rw [readLines_done hstep, readLines_done ((h s l l' hl).symm.trans hstep)]
      exact ⟨rfl, hls⟩
    · rw [readLines_leave hstep, readLines_leave ((h s l l' hl).symm.trans hstep)]
      exact ⟨rfl, .cons hl hls⟩

/-- The second list is the first with `more` behind it. -/
def Before (more ls ls' : List κ) : Prop := ls' = ls ++ more

theorem readLines_before {more : List κ} (h : ∀ s, ∀ y ∈ more.head?, step s y = .ok (.leave (finish s))) (s : σ) :
    Rel (Before more) (readLines step finish s) (readLines step finish s) := by
  rintro ls _ rfl
  induction ls generalizing s with
  | nil =>
    cases more with
    | nil => exact ⟨rfl, rfl⟩
    | cons y more =>
      rw [List.nil_append, readLines_leave (h s y rfl)]
      exact ⟨rfl, rfl⟩
  | cons l ls ih =>
    rw [List.cons_append]
    rcases hstep : step s l with e | (s' | a | a)
    · rw [readLines_error hstep, readLines_error hstep]
      exact ⟨rfl, rfl⟩
    · rw [readLines_next hstep, readLines_next hstep]
      exact ih s'
    · rw [readLines_done hstep, readLines_done hstep]
      exact ⟨rfl, rfl⟩
    · rw [readLines_leave hstep, readLines_leave hstep]
      exact ⟨rfl, rfl⟩

/-- A reader that left lines unread leaves more of them as well. -/
theorem readLines_ended {ls rest : List κ} {s : σ} {a : α} (h : (readLines step finish s).run ls = (.ok a, rest))
    (hrest : rest ≠ []) (more : List κ) : (readLines step finish s).run (ls ++ more) = (.ok a, rest ++ more) := by
  induction ls generalizing s with
  | nil =>
    cases h
    exact absurd rfl hrest
  | cons l ls ih =>
    rw [List.cons_append]
    rcases hstep : step s l with e | (s' | b | b)
    · rw [readLines_error hstep] at h
      cases h
    · rw [readLines_next hstep] at h ⊢
      exact ih h
    · rw [readLines_done hstep] at h ⊢
      cases h
      rfl
    · rw [readLines_leave hstep] at h ⊢
      cases h
      rfl

end

theorem nextLine_alike {ρ : κ → κ → Prop} {x : Rd ε (List κ) α} {f : κ → Rd ε (List κ) α}
    (hx : Rel (List.Forall₂ ρ) x x) (hf : ∀ l l', ρ l l' → Rel (List.Forall₂ ρ) (f l) (f l')) :
    Rel (List.Forall₂ ρ) (nextLine x f) (nextLine x f) := by
  intro ls ls' hls
  cases hls with
  | nil => exact hx [] [] .nil
  | cons hl hls => exact hf _ _ hl _ _ hls

/-- A loop over lists of one length. -/
theorem iterate_alike {ρ : κ → κ → Prop} {body : β → Rd ε (List κ) (β ⊕ α)}
    (h : ∀ b, Rel (List.Forall₂ ρ) (body b) (body b)) (b : β) :
    Rel (List.Forall₂ ρ) (Rd.iterate List.length body b) (Rd.iterate List.length body b) := by
  intro ls ls' hls
  have hrel := Rel.loop h (ls.length + 1) b ls ls' hls
  have hfuel : (Rd.iterate List.length body b).run ls' = (Rd.loop body (ls.length + 1) b).run ls' := by
    rw [hls.length_eq]
    rfl
  rw [hfuel]
  exact hrel

/-- The passes of a loop over a list, with more lines behind it, until none of the list is left. -/
theorem Rd.Reaches.before {more : List κ} {body : β → Rd ε (List κ) (β ⊕ α)}
    (h : ∀ b l ls, (body b).run (l :: ls ++ more) = (((body b).run (l :: ls)).1, ((body b).run (l :: ls)).2 ++ more))
    (hnil : ∀ b b' ls, (body b).run [] ≠ (.ok (.inl b'), ls)) {n : Nat} {x y : β × List κ} (hr : Rd.Reaches body n x y) :
    Rd.Reaches body n (x.1, x.2 ++ more) (y.1, y.2 ++ more) := by
  induction hr with
  | refl x => exact .refl _
  | @step n b b' ls ls' y hb _ ih =>
    cases ls with
    | nil => exact absurd hb (hnil b b' ls')
    | cons l ls =>
      have hpass : (body b).run (l :: ls ++ more) = (.ok (.inl b'), ls' ++ more) := by rw [h, hb]
      exact .step hpass ih

end NixWire.Base
