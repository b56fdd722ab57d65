/-
  NixWire.Base.Lines — readers that go line by line.

  Such a reader is an `Rd` over the lines that are left. `readLines` is the loop they are
  built from: it looks at the next line and takes it, takes it and ends, or leaves it to
  whoever reads on.

  `Quiet skipped head l l'`: `l` is `l'` with skipped lines put in, only where `l'` ends or
  goes on with a line that satisfies `head`. A loop that skips or ends at the first kind of
  line and ends at the second does not tell the two apart (`readLines_quiet`).
-/

import NixWire.Base.Reader

namespace NixWire.Base

variable {ε σ α β κ : Type}

inductive LineStep (σ α : Type) where
  | next (s : σ)
  /-- End, the line taken. -/
  | done (a : α)
  /-- End, the line left. -/
  | leave (a : α)
  deriving DecidableEq, Repr

/-- Take lines until one ends the loop, or none is left. -/
def runLines (step : σ → κ → Except ε (LineStep σ α)) (finish : σ → α) : σ → List κ → Res ε α × List κ
  | s, [] => (.ok (finish s), [])
  | s, l :: ls => match step s l with
    | .ok (.next s') => runLines step finish s' ls
    | .ok (.done a) => (.ok a, ls)
    | .ok (.leave a) => (.ok a, l :: ls)
    | .error e => (.stop (.err e), l :: ls)

def readLines (step : σ → κ → Except ε (LineStep σ α)) (finish : σ → α) (s : σ) : Rd ε (List κ) α :=
  ⟨runLines step finish s⟩

section

variable {step : σ → κ → Except ε (LineStep σ α)} {finish : σ → α} {s s' : σ} {a : α} {l : κ} {ls : List κ}

theorem readLines_next (h : step s l = .ok (.next s')) :
    (readLines step finish s).run (l :: ls) = (readLines step finish s').run ls := by
  simp only [readLines, runLines, h]

theorem readLines_done (h : step s l = .ok (.done a)) : (readLines step finish s).run (l :: ls) = (.ok a, ls) := by
  simp only [readLines, runLines, h]

theorem readLines_leave (h : step s l = .ok (.leave a)) :
    (readLines step finish s).run (l :: ls) = (.ok a, l :: ls) := by
  simp only [readLines, runLines, h]

theorem readLines_error {e : ε} (h : step s l = .error e) :
    (readLines step finish s).run (l :: ls) = (.stop (.err e), l :: ls) := by
  simp only [readLines, runLines, h]

/-- A loop takes a list of lines it goes on at, one state after the other. -/
theorem readLines_foldl {γ : Type} {line : γ → κ} {upd : σ → γ → σ} (xs : List γ)
    (h : ∀ x ∈ xs, ∀ s, step s (line x) = .ok (.next (upd s x))) :
    (readLines step finish s).run (xs.map line ++ ls) = (readLines step finish (xs.foldl upd s)).run ls := by
  induction xs generalizing s with
  | nil => rfl
  | cons x xs ih =>
    rw [List.map_cons, List.cons_append, readLines_next (h x List.mem_cons_self s)]
    exact ih fun y hy => h y (List.mem_cons_of_mem x hy)

theorem readLines_forward (s : σ) : Forward (readLines step finish s) := by
  intro ls
  induction ls generalizing s with
  | nil => exact List.suffix_rfl
  | cons l ls ih =>
    show (runLines step finish s (l :: ls)).2 <:+ l :: ls
    rw [runLines]
    split
    · exact (ih _).trans (List.suffix_cons l ls)
    · exact List.suffix_cons l ls
    · exact List.suffix_rfl
    · exact List.suffix_rfl

end

/-! ## The next line -/

/-- Take the next line. -/
def nextLine (none : Rd ε (List κ) α) (some : κ → Rd ε (List κ) α) : Rd ε (List κ) α := ⟨fun ls =>
  match ls with
  | [] => none.run []
  | l :: ls => (some l).run ls⟩

/-! ## Lines put in -/

inductive Quiet (skipped head : κ → Prop) : List κ → List κ → Prop where
  | nil : Quiet skipped head [] []
  | keep (x : κ) {l l' : List κ} : Quiet skipped head l l' → Quiet skipped head (x :: l) (x :: l')
  | skip {x : κ} {l l' : List κ} : skipped x → (∀ y ∈ l'.head?, head y) → Quiet skipped head l l' →
      Quiet skipped head (x :: l) l'

section

variable {skipped head : κ → Prop}

theorem Quiet.refl (l : List κ) : Quiet skipped head l l := by
  induction l with
  | nil => exact .nil
  | cons x l ih => exact .keep x ih

theorem Quiet.prepend (a : List κ) {b b' : List κ} (h : Quiet skipped head b b') : Quiet skipped head (a ++ b) (a ++ b') := by
  induction a with
  | nil => exact h
  | cons x a ih => exact .keep x ih

/-- Skipped lines in front of `l'`. -/
theorem Quiet.skips {xs l l' : List κ} (hxs : ∀ x ∈ xs, skipped x) (hhead : ∀ y ∈ l'.head?, head y)
    (h : Quiet skipped head l l') : Quiet skipped head (xs ++ l) l' := by
  induction xs with
  | nil => exact h
  | cons x xs ih =>
    exact .skip (hxs x List.mem_cons_self) hhead (ih fun y hy => hxs y (List.mem_cons_of_mem x hy))

end

/-- What two loops do at one line, up to `R` on their states and `f` on their values. -/
inductive StepRel (R : σ → σ → Prop) (f : α → β) : Except ε (LineStep σ α) → Except ε (LineStep σ α) → Prop where
  | next {s s' : σ} : R s s' → StepRel R f (.ok (.next s)) (.ok (.next s'))
  | done {a a' : α} : f a = f a' → StepRel R f (.ok (.done a)) (.ok (.done a'))
  | leave {a a' : α} : f a = f a' → StepRel R f (.ok (.leave a)) (.ok (.leave a'))
  | error (e : ε) : StepRel R f (.error e) (.error e)

theorem StepRel.refl (x : Except ε (LineStep σ α)) : StepRel Eq id x x := by
  rcases x with e | (s | a | a)
  · exact .error e
  · exact .next rfl
  · exact .done rfl
  · exact .leave rfl

/-- What a loop does at a skipped line: it goes on, or ends as it would end at a `head` line. -/
def Skips (step : σ → κ → Except ε (LineStep σ α)) (finish : σ → α) (R : σ → σ → Prop) (f : α → β)
    (skipped head : κ → Prop) : Prop :=
  ∀ s s' x, R s s' → skipped x → (∃ t, step s x = .ok (.next t) ∧ R t s') ∨
    (∃ a, step s x = .ok (.leave a) ∧ f a = f (finish s')) ∧ ∀ y, head y → step s' y = .ok (.leave (finish s'))

theorem readLines_quiet {step : σ → κ → Except ε (LineStep σ α)} {finish : σ → α} {R : σ → σ → Prop} {f : α → β}
    {skipped head : κ → Prop} (hkeep : ∀ s s' x, R s s' → StepRel R f (step s x) (step s' x))
    (hfinish : ∀ s s', R s s' → f (finish s) = f (finish s')) (hskip : Skips step finish R f skipped head) {s s' : σ}
    (hs : R s s') : Rel (Quiet skipped head) (f <$> readLines step finish s) (f <$> readLines step finish s') := by
  intro ls ls' h
  induction h generalizing s s' with
  | nil => exact ⟨congrArg Res.ok (hfinish s s' hs), .nil⟩
  | @keep x l l' h ih =>
    have hrel := hkeep s s' x hs
    generalize hx : step s x = o, hx' : step s' x = o' at hrel
    cases hrel with
    | next ht =>
      rw [Rd.map_congr f (readLines_next hx), Rd.map_congr f (readLines_next hx')]
      exact ih ht
    | done ha =>
      rw [Rd.map_ok_iff.mpr ⟨_, readLines_done hx, rfl⟩, Rd.map_ok_iff.mpr ⟨_, readLines_done hx', rfl⟩]
      exact ⟨congrArg Res.ok ha, h⟩
    | leave ha =>
      rw [Rd.map_ok_iff.mpr ⟨_, readLines_leave hx, rfl⟩, Rd.map_ok_iff.mpr ⟨_, readLines_leave hx', rfl⟩]
      exact ⟨congrArg Res.ok ha, .keep x h⟩
    | error e =>
      rw [Rd.map_stop_iff.mpr (readLines_error hx), Rd.map_stop_iff.mpr (readLines_error hx')]
      exact ⟨rfl, .keep x h⟩
  | @skip x l l' hskipped hhead h ih =>
    rcases hskip s s' x hs hskipped with ⟨t, hx, ht⟩ | ⟨⟨a, hx, ha⟩, hend⟩
    · rw [Rd.map_congr f (readLines_next hx)]
      exact ih ht
    · -- the other loop ends here too: at a `head` line, or with no line left
      have hrun : (readLines step finish s').run l' = (.ok (finish s'), l') := by
        cases l' with
        | nil => rfl
        | cons y l' => exact readLines_leave (hend y (hhead y rfl))
      rw [Rd.map_ok_iff.mpr ⟨_, readLines_leave hx, rfl⟩, Rd.map_ok_iff.mpr ⟨_, hrun, rfl⟩]
      exact ⟨congrArg Res.ok ha, .skip hskipped hhead h⟩

end NixWire.Base
