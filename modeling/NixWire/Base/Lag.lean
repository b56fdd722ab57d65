/-
  NixWire.Base.Lag — a reader whose bytes are still coming.

  A live reader has only what has reached it. Where a computation needs more it waits,
  which is told by `hang`. `Lags ρ x y`: run from states related by `ρ`, `x` waits, or ends
  as `y` does and in related states. It is a congruence like `Rel`, so a function written
  over any reader lags behind itself over a reader that has more, as soon as the single
  reads do (`Behind`).
-/

import NixWire.Base.LayoutRead

namespace NixWire.Base

section

variable {ε R S α β : Type} {ρ : R → S → Prop}

def Lags (ρ : R → S → Prop) (x : Rd ε R α) (y : Rd ε S α) : Prop :=
  ∀ r s, ρ r s → (x.run r).1 = .stop .hang ∨ (x.run r).1 = (y.run s).1 ∧ ρ (x.run r).2 (y.run s).2

theorem Rel.lags {x : Rd ε R α} {y : Rd ε S α} (h : Rel ρ x y) : Lags ρ x y := fun r s hrs => Or.inr (h r s hrs)

theorem Lags.pure (a : α) : Lags ρ (Pure.pure a : Rd ε R α) (Pure.pure a) := (Rel.pure a).lags

theorem Lags.fail (e : ε) : Lags ρ (Rd.fail e : Rd ε R α) (Rd.fail e) := (Rel.fail e).lags

theorem Lags.abort (p : Panic) : Lags ρ (Rd.abort p : Rd ε R α) (Rd.abort p) := (Rel.abort p).lags

theorem Lags.bind {x : Rd ε R α} {y : Rd ε S α} {f : α → Rd ε R β} {g : α → Rd ε S β} (hx : Lags ρ x y)
    (hf : ∀ a, Lags ρ (f a) (g a)) : Lags ρ (x >>= f) (y >>= g) := by
  intro r s h
  simp only [Rd.run_bind]
  rcases hr : x.run r with ⟨o, r'⟩
  rcases hs : y.run s with ⟨o', s'⟩
  have hrs := hx r s h
  rw [hr, hs] at hrs
  rcases hrs with hwait | ⟨hsame, hleft⟩
  · obtain rfl : o = _ := hwait
    exact Or.inl rfl
  · obtain rfl : o = o' := hsame
    cases o with
    | ok a => exact hf a r' s' hleft
    | stop _ => exact Or.inr ⟨rfl, hleft⟩

theorem Lags.map {x : Rd ε R α} {y : Rd ε S α} (f : α → β) (hx : Lags ρ x y) : Lags ρ (f <$> x) (f <$> y) := by
  rw [map_eq_pure_bind, map_eq_pure_bind]
  exact hx.bind fun a => Lags.pure (f a)

theorem Lags.ite {c : Prop} [Decidable c] {x x' : Rd ε R α} {y y' : Rd ε S α} (h : Lags ρ x y) (h' : Lags ρ x' y') :
    Lags ρ (if c then x else x') (if c then y else y') := by
  split
  · exact h
  · exact h'

/-- An attempt does not catch the wait. -/
theorem Lags.attempt {x : Rd ε R α} {y : Rd ε S α} (hx : Lags ρ x y) : Lags ρ x.attempt y.attempt := by
  intro r s h
  have hrs := hx r s h
  simp only [Rd.attempt]
  rcases hr : x.run r with ⟨o, r'⟩
  rcases hs : y.run s with ⟨o', s'⟩
  rw [hr, hs] at hrs
  rcases hrs with hwait | ⟨hsame, hleft⟩
  · obtain rfl : o = _ := hwait
    exact Or.inl rfl
  · obtain rfl : o = o' := hsame
    rcases o with a | (e | p | _) <;> exact Or.inr ⟨rfl, hleft⟩

theorem Lags.times {x : Rd ε R α} {y : Rd ε S α} (hx : Lags ρ x y) (n : Nat) : Lags ρ (Rd.times n x) (Rd.times n y) := by
  induction n with
  | zero => exact Lags.pure []
  | succ n ih => exact hx.bind fun a => ih.bind fun as => Lags.pure (a :: as)

/-- Less fuel only makes the first loop wait. -/
theorem Lags.loop {f : β → Rd ε R (β ⊕ α)} {g : β → Rd ε S (β ⊕ α)} (h : ∀ b, Lags ρ (f b) (g b)) {m n : Nat} (hmn : m ≤ n)
    (b : β) : Lags ρ (Rd.loop f m b) (Rd.loop g n b) := by
  induction m generalizing n b with
  | zero => exact fun r s _ => Or.inl rfl
  | succ m ih =>
    obtain ⟨n, rfl⟩ : ∃ k, n = k + 1 := ⟨n - 1, by omega⟩
    refine (h b).bind fun o => ?_
    cases o with
    | inl b' => exact ih (by omega) b'
    | inr a => exact Lags.pure a

end

/-! ## Readers -/

/-- `R` has, of the bytes of `S`, those that reached it. -/
structure Behind {R S : Type} [BufRead R] [BufRead S] (ρ : R → S → Prop) : Prop where
  poll : ∀ {ε : Type} (n : Nat), Lags ρ (BufRead.pollRead n : Rd ε R _) (BufRead.pollRead n)
  fill : ∀ {ε : Type}, Lags ρ (BufRead.fillBuf : Rd ε R _) BufRead.fillBuf
  consume : ∀ {r : R} {s : S} (n : Nat), ρ r s → ρ (BufRead.consume n r) (BufRead.consume n s)
  size : ∀ r s, ρ r s → BufRead.size r ≤ BufRead.size s

section

variable {ε R S α β : Type} [BufRead R] [BufRead S] {ρ : R → S → Prop} (h : Behind ρ)

include h

theorem Behind.exact (e : ε) (n : Nat) : Lags ρ (readExact e n) (readExact e n) := by
  have hloop (fuel : Nat) : ∀ n, Lags ρ (readExactLoop e fuel n) (readExactLoop e fuel n) := by
    induction fuel with
    | zero =>
      intro n
      cases n with
      | zero => exact Lags.pure []
      | succ n => exact fun r s _ => Or.inl rfl
    | succ fuel ih =>
      intro n
      cases n with
      | zero => exact Lags.pure []
      | succ n =>
        exact (h.poll (n + 1)).bind fun got => Lags.ite (Lags.fail e) ((ih _).bind fun more => Lags.pure (got ++ more))
  exact hloop n n

theorem Behind.readLoop {f : β → Rd ε R (β ⊕ α)} {g : β → Rd ε S (β ⊕ α)} (hfg : ∀ b, Lags ρ (f b) (g b)) (b : β) :
    Lags ρ (Base.readLoop f b) (Base.readLoop g b) :=
  fun r s hrs => Lags.loop hfg (Nat.succ_le_succ (h.size r s hrs)) b r s hrs

end

/-! ## Parsing -/

section

variable {ε R S : Type} {ρ : R → S → Prop}

theorem lags_congruence : Congruence fun {α} => @Lags ε R S α ρ where
  pure := Lags.pure
  fail := Lags.fail
  abort := Lags.abort
  bind := Lags.bind

theorem parse_lags {P : Prims ε R} {Q : Prims ε S} (h : P.Related (fun {α} => @Lags ε R S α ρ) Q) (f : Fmt) :
    Lags ρ (f.parse P) (f.parse Q) := parse_congr lags_congruence h f

end

end NixWire.Base
