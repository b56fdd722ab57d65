/-
  NixWire.Base.Serve — a reader that has enough.

  `Serves ρ x y`: where `y`, on plain bytes, succeeds, `x` does alike over a reader related
  to them. It says nothing of where `y` fails, so a reader that would rather wait than fail
  can serve too: with `Lags`, such a reader waits exactly as long as bytes are missing. It
  is a congruence, but for attempts, which catch failures.
-/

import NixWire.Base.LayoutRead

namespace NixWire.Base

section

variable {ε R S α β : Type} {ρ : R → S → Prop}

def Serves (ρ : R → S → Prop) (x : Rd ε R α) (y : Rd ε S α) : Prop :=
  ∀ (r : R) (s s' : S) (a : α), ρ r s → y.run s = (.ok a, s') → ∃ r', x.run r = (.ok a, r') ∧ ρ r' s'

theorem Serves.run {x : Rd ε R α} {y : Rd ε S α} (h : Serves ρ x y) {r : R} {s s' : S} {a : α} (hrs : ρ r s)
    (hy : y.run s = (.ok a, s')) : ∃ r', x.run r = (.ok a, r') ∧ ρ r' s' := h r s s' a hrs hy

theorem Rel.serves {x : Rd ε R α} {y : Rd ε S α} (h : Rel ρ x y) : Serves ρ x y := fun _ _ _ _ hrs hy => h.run hrs hy

theorem Serves.pure (a : α) : Serves ρ (Pure.pure a : Rd ε R α) (Pure.pure a) := (Rel.pure a).serves

/-- What fails on the bytes is served by anything. -/
theorem Serves.fail (x : Rd ε R α) (e : ε) : Serves ρ x (Rd.fail e : Rd ε S α) := by
  intro r s s' a _ hy
  cases hy

theorem Serves.abort (x : Rd ε R α) (p : Panic) : Serves ρ x (Rd.abort p : Rd ε S α) := by
  intro r s s' a _ hy
  cases hy

theorem Serves.bind {x : Rd ε R α} {y : Rd ε S α} {f : α → Rd ε R β} {g : α → Rd ε S β} (hx : Serves ρ x y)
    (hf : ∀ a, Serves ρ (f a) (g a)) : Serves ρ (x >>= f) (y >>= g) := by
  intro r s s' b hrs hy
  obtain ⟨a, s₁, hfirst, hrest⟩ := Rd.bind_ok_iff.mp hy
  obtain ⟨r₁, hr₁, h₁⟩ := hx.run hrs hfirst
  obtain ⟨r', hr', h'⟩ := (hf a).run h₁ hrest
  exact ⟨r', (Rd.bind_ok hr₁).trans hr', h'⟩

theorem Serves.map {x : Rd ε R α} {y : Rd ε S α} (f : α → β) (hx : Serves ρ x y) : Serves ρ (f <$> x) (f <$> y) := by
  rw [map_eq_pure_bind, map_eq_pure_bind]
  exact hx.bind fun a => Serves.pure (f a)

theorem Serves.ite {c : Prop} [Decidable c] {x x' : Rd ε R α} {y y' : Rd ε S α} (h : Serves ρ x y) (h' : Serves ρ x' y') :
    Serves ρ (if c then x else x') (if c then y else y') := by
  split
  · exact h
  · exact h'

/-- Fuel that is enough for the bytes is enough for the reader. -/
theorem Serves.loop {f : β → Rd ε R (β ⊕ α)} {g : β → Rd ε S (β ⊕ α)} (h : ∀ b, Serves ρ (f b) (g b)) {m n : Nat}
    (hnm : n ≤ m) (b : β) : Serves ρ (Rd.loop f m b) (Rd.loop g n b) := by
  induction n generalizing m b with
  | zero =>
    intro r s s' a _ hy
    cases hy
  | succ n ih =>
    obtain ⟨m, rfl⟩ : ∃ k, m = k + 1 := ⟨m - 1, by omega⟩
    refine (h b).bind fun o => ?_
    cases o with
    | inl b' => exact ih (by omega) b'
    | inr a => exact Serves.pure a

end

/-! ## Readers -/

/-- `R` gives the bytes of a list as long as there are some. -/
structure Serving {R : Type} [BufRead R] (ρ : R → List UInt8 → Prop) : Prop where
  exact : ∀ {ε : Type} (e : ε) (n : Nat), Serves ρ (readExact e n : Rd ε R _) (readExact e n)
  size : ∀ r s, ρ r s → s.length ≤ BufRead.size r

theorem Delivers.serving {R : Type} [BufRead R] {ρ : R → List UInt8 → Prop} (d : Delivers ρ) : Serving ρ where
  exact e n := (d.exact e n).serves
  size r s h := Nat.le_of_eq (d.size r s h).symm

theorem Serving.readLoop {ε R α β : Type} [BufRead R] {ρ : R → List UInt8 → Prop} (h : Serving ρ) {f : β → Rd ε R (β ⊕ α)}
    {g : β → Rd ε (List UInt8) (β ⊕ α)} (hfg : ∀ b, Serves ρ (f b) (g b)) (b : β) :
    Serves ρ (Base.readLoop f b) (Base.readLoop g b) := by
  intro r s s' a hrs hy
  exact (Serves.loop hfg (Nat.succ_le_succ (h.size r s hrs)) b).run hrs hy

/-! ## Parsing -/

section

variable {ε R S : Type} {ρ : R → S → Prop}

theorem serves_congruence : Congruence fun {α} => @Serves ε R S α ρ where
  pure := Serves.pure
  fail e := Serves.fail _ e
  abort p := Serves.abort _ p
  bind := Serves.bind

theorem parse_serves {P : Prims ε R} {Q : Prims ε S} (h : P.Related (fun {α} => @Serves ε R S α ρ) Q) (f : Fmt) :
    Serves ρ (f.parse P) (f.parse Q) := parse_congr serves_congruence h f

end

end NixWire.Base
