/-
  NixWire.Base.Congruence — relations that every way of building a computation keeps.

  A relation between computations over two streams is a congruence if it holds of equal
  values, errors and panics, and of what is bound together out of related parts. It then
  holds of everything that is built from related parts. `Rel` is one, and so is `Forward`,
  which looks at one of the two only.
-/

import NixWire.Base.Reader

namespace NixWire.Base

structure Congruence {ε R S : Type} (C : {α : Type} → Rd ε R α → Rd ε S α → Prop) : Prop where
  pure : ∀ {α : Type} (a : α), C (Pure.pure a) (Pure.pure a)
  fail : ∀ {α : Type} (e : ε), C (Rd.fail e : Rd ε R α) (Rd.fail e)
  abort : ∀ {α : Type} (p : Panic), C (Rd.abort p : Rd ε R α) (Rd.abort p)
  bind : ∀ {α β : Type} {x : Rd ε R α} {y : Rd ε S α} {f : α → Rd ε R β} {g : α → Rd ε S β}, C x y →
    (∀ a, C (f a) (g a)) → C (x >>= f) (y >>= g)

section

variable {ε R S α β : Type} {C : {α : Type} → Rd ε R α → Rd ε S α → Prop} (h : Congruence C)

include h

theorem Congruence.map (f : α → β) {x : Rd ε R α} {y : Rd ε S α} (hx : C x y) : C (f <$> x) (f <$> y) := by
  rw [map_eq_pure_bind, map_eq_pure_bind]
  exact h.bind hx fun a => h.pure (f a)

omit h in
theorem Congruence.ite {c : Prop} [Decidable c] {x x' : Rd ε R α} {y y' : Rd ε S α} (hx : C x y) (hx' : C x' y') :
    C (if c then x else x') (if c then y else y') := by
  split
  · exact hx
  · exact hx'

theorem Congruence.times {x : Rd ε R α} {y : Rd ε S α} (hx : C x y) (n : Nat) : C (Rd.times n x) (Rd.times n y) := by
  induction n with
  | zero => exact h.pure []
  | succ n ih => exact h.bind hx fun a => h.bind ih fun as => h.pure (a :: as)

end

theorem rel_congruence {ε R S : Type} {ρ : R → S → Prop} : Congruence fun {α} => @Rel ε R S α ρ where
  pure := Rel.pure
  fail := Rel.fail
  abort := Rel.abort
  bind := Rel.bind

theorem forward_congruence {ε κ : Type} : Congruence fun {α} (x _ : Rd ε (List κ) α) => Forward x where
  pure := Forward.pure
  fail := Forward.fail
  abort := Forward.abort
  bind := Forward.bind

end NixWire.Base
