/-
  NixWire.Base.Trim — a stream that was cut short.

  `Trims ρ Out x y`: `y` runs over a stream and `x` over a front of it. They do alike,
  unless `y` reads past the cut, which `Out` tells of its state. It is a congruence, so a
  function written over any reader does the same up to the cut as soon as the single reads
  do. A loop may have less fuel on the front, if its passes use the front up
  (`Trims.loop`).

  On lists the front is cut off what is `Before` the rest, and a state is past the cut when
  less than the rest is left (`Beyond`). `Trimmed` is a reader of lists against itself.
-/

import NixWire.Base.LayoutRead
import NixWire.Base.LineRel

namespace NixWire.Base

section

variable {ε R S α β : Type} {ρ : R → S → Prop} {Out : S → Prop}

structure Trims (ρ : R → S → Prop) (Out : S → Prop) (x : Rd ε R α) (y : Rd ε S α) : Prop where
  out : ∀ s, Out s → Out (y.run s).2
  same : ∀ r s, ρ r s → Out (y.run s).2 ∨ (x.run r).1 = (y.run s).1 ∧ ρ (x.run r).2 (y.run s).2

/-- What leaves the streams alone. -/
theorem Trims.stays {x : Rd ε R α} {y : Rd ε S α} {o : Res ε α} (hx : ∀ r, x.run r = (o, r)) (hy : ∀ s, y.run s = (o, s)) :
    Trims ρ Out x y where
  out s h := by rwa [hy]
  same r s h := by
    rw [hx, hy]
    exact Or.inr ⟨rfl, h⟩

theorem Trims.pure (a : α) : Trims ρ Out (Pure.pure a : Rd ε R α) (Pure.pure a) := .stays (fun _ => rfl) fun _ => rfl

theorem Trims.fail (e : ε) : Trims ρ Out (Rd.fail e : Rd ε R α) (Rd.fail e) := .stays (fun _ => rfl) fun _ => rfl

theorem Trims.abort (p : Panic) : Trims ρ Out (Rd.abort p : Rd ε R α) (Rd.abort p) := .stays (fun _ => rfl) fun _ => rfl

theorem Trims.bind {x : Rd ε R α} {y : Rd ε S α} {f : α → Rd ε R β} {g : α → Rd ε S β} (hx : Trims ρ Out x y)
    (hf : ∀ a, Trims ρ Out (f a) (g a)) : Trims ρ Out (x >>= f) (y >>= g) where
  out s h := by
    have hout := hx.out s h
    rw [Rd.run_bind]
    rcases hs : y.run s with ⟨a | o, s'⟩
    · rw [hs] at hout
      exact (hf a).out s' hout
    · rwa [hs] at hout
  same r s h := by
    have hsame := hx.same r s h
    rw [Rd.run_bind, Rd.run_bind]
    rcases hs : y.run s with ⟨a | o, s'⟩
    · rw [hs] at hsame
      rcases hsame with hout | ⟨hvalue, hleft⟩
      · exact Or.inl ((hf a).out s' hout)
      · rcases hr : x.run r with ⟨a' | o', r'⟩
        · rw [hr] at hvalue hleft
          cases hvalue
          exact (hf a).same r' s' hleft
        · rw [hr] at hvalue
          cases hvalue
    · rw [hs] at hsame
      rcases hsame with hout | ⟨hvalue, hleft⟩
      · exact Or.inl hout
      · rcases hr : x.run r with ⟨a' | o', r'⟩
        · rw [hr] at hvalue
          cases hvalue
        · rw [hr] at hvalue hleft
          cases hvalue
          exact Or.inr ⟨rfl, hleft⟩

theorem trims_congruence : Congruence fun {α} => @Trims ε R S α ρ Out where
  pure := Trims.pure
  fail := Trims.fail
  abort := Trims.abort
  bind := Trims.bind

theorem Trims.map {x : Rd ε R α} {y : Rd ε S α} (f : α → β) (hx : Trims ρ Out x y) : Trims ρ Out (f <$> x) (f <$> y) :=
  trims_congruence.map f hx

theorem Trims.ite {c : Prop} [Decidable c] {x x' : Rd ε R α} {y y' : Rd ε S α} (hx : Trims ρ Out x y)
    (hx' : Trims ρ Out x' y') : Trims ρ Out (if c then x else x') (if c then y else y') := by
  split
  · exact hx
  · exact hx'

theorem Trims.attempt {x : Rd ε R α} {y : Rd ε S α} (hx : Trims ρ Out x y) : Trims ρ Out x.attempt y.attempt where
  out s h := by
    have hout := hx.out s h
    simp only [Rd.attempt]
    rcases hs : y.run s with ⟨a | (e | p | _), s'⟩ <;> rwa [hs] at hout
  same r s h := by
    have hsame := hx.same r s h
    simp only [Rd.attempt]
    rcases hr : x.run r with ⟨o, r'⟩
    rcases hs : y.run s with ⟨o', s'⟩
    rw [hr, hs] at hsame
    rcases hsame with hout | ⟨hvalue, hleft⟩
    · rcases o' with a | (e | p | _) <;> exact Or.inl hout
    · obtain rfl : o = o' := hvalue
      rcases o with a | (e | p | _) <;> exact Or.inr ⟨rfl, hleft⟩

theorem Trims.loop_out {f : β → Rd ε R (β ⊕ α)} {g : β → Rd ε S (β ⊕ α)} (h : ∀ b, Trims ρ Out (f b) (g b)) (n : Nat) :
    ∀ b s, Out s → Out ((Rd.loop g n b).run s).2 := by
  induction n with
  | zero => exact fun _ _ hs => hs
  | succ n ih =>
    intro b s hs
    have hout := (h b).out s hs
    rw [Rd.loop_succ, Rd.run_bind]
    rcases hb : (g b).run s with ⟨(b' | a) | o, s'⟩ <;> rw [hb] at hout
    · exact ih b' s' hout
    · exact hout
    · exact hout

/-- Passes that use up the front need no more fuel than it has. -/
theorem Trims.loop {f : β → Rd ε R (β ⊕ α)} {g : β → Rd ε S (β ⊕ α)} (h : ∀ b, Trims ρ Out (f b) (g b)) {size : R → Nat}
    {k : Nat} (hshrinks : Rd.Shrinks size k f) (hk : 0 < k) {m n : Nat} (hmn : m ≤ n) (b : β) {r : R} {s : S}
    (hrs : ρ r s) (hsize : size r < m) : Out ((Rd.loop g n b).run s).2 ∨
      ((Rd.loop f m b).run r).1 = ((Rd.loop g n b).run s).1 ∧ ρ ((Rd.loop f m b).run r).2 ((Rd.loop g n b).run s).2 := by
  induction m generalizing n b r s with
  | zero => omega
  | succ m ih =>
    obtain ⟨n, rfl⟩ : ∃ j, n = j + 1 := ⟨n - 1, by omega⟩
    have hsame := (h b).same r s hrs
    rw [Rd.loop_succ, Rd.loop_succ, Rd.run_bind, Rd.run_bind]
    rcases hr : (f b).run r with ⟨o, r'⟩
    rcases hs : (g b).run s with ⟨o', s'⟩
    rw [hr, hs] at hsame
    rcases hsame with hout | ⟨hvalue, hleft⟩
    · rcases o' with (b' | a) | o'
      · exact Or.inl (Trims.loop_out h n b' s' hout)
      · exact Or.inl hout
      · exact Or.inl hout
    · obtain rfl : o = o' := hvalue
      rcases o with (b' | a) | o
      · have hless := hshrinks b b' r r' hr
        exact ih (by omega) b' hleft (by omega)
      · exact Or.inr ⟨rfl, hleft⟩
      · exact Or.inr ⟨rfl, hleft⟩

theorem Trims.reaches_out {f : β → Rd ε R (β ⊕ α)} {g : β → Rd ε S (β ⊕ α)} (h : ∀ b, Trims ρ Out (f b) (g b)) {n : Nat}
    {y y' : β × S} (hr : Rd.Reaches g n y y') (hout : Out y.2) : Out y'.2 := by
  induction hr with
  | refl y => exact hout
  | @step n b b' s s' y' hb _ ih =>
    have hnext := (h b).out s hout
    rw [hb] at hnext
    exact ih hnext

/-- The passes that stay before the cut are those over the front. -/
theorem Trims.reaches {f : β → Rd ε R (β ⊕ α)} {g : β → Rd ε S (β ⊕ α)} (h : ∀ b, Trims ρ Out (f b) (g b)) {n : Nat}
    {y y' : β × S} (hr : Rd.Reaches g n y y') (hin : ¬Out y'.2) {r : R} (hrs : ρ r y.2) :
    ∃ r', Rd.Reaches f n (y.1, r) (y'.1, r') ∧ ρ r' y'.2 := by
  induction hr generalizing r with
  | refl y => exact ⟨r, .refl _, hrs⟩
  | @step n b b' s s' y' hb hrest ih =>
    have hsame := (h b).same r s hrs
    rw [hb] at hsame
    rcases hsame with hout | ⟨hvalue, hleft⟩
    · exact absurd (Trims.reaches_out h hrest hout) hin
    · obtain ⟨r', hr', hend⟩ := ih hin hleft
      exact ⟨r', .step (Prod.ext hvalue rfl) hr', hend⟩

end

/-! ## Two streams -/

section

variable {ε R S R' S' α : Type} {ρ : R → S → Prop} {Out : S → Prop} {σ : R' → S' → Prop} {Out' : S' → Prop}

/-- Past the cut of one of the streams. -/
def OutEither (Out : S → Prop) (Out' : S' → Prop) (s : S × S') : Prop := Out s.1 ∨ Out' s.2

theorem Trims.onFst {x : Rd ε R α} {y : Rd ε S α} (h : Trims ρ Out x y) :
    Trims (Both ρ σ) (OutEither Out Out') x.onFst y.onFst where
  out s hs := hs.imp_left (h.out s.1)
  same r s hrs := (h.same r.1 s.1 hrs.1).imp Or.inl fun hsame => ⟨hsame.1, hsame.2, hrs.2⟩

theorem Trims.onSnd {x : Rd ε R' α} {y : Rd ε S' α} (h : Trims σ Out' x y) :
    Trims (Both ρ σ) (OutEither Out Out') x.onSnd y.onSnd where
  out s hs := hs.imp_right (h.out s.2)
  same r s hrs := (h.same r.2 s.2 hrs.2).imp Or.inr fun hsame => ⟨hsame.1, hrs.1, hsame.2⟩

end

/-! ## Lists -/

section

variable {ε α β : Type} {more : List UInt8}

/-- Less is left than what comes after the cut. -/
def Beyond (more s : List UInt8) : Prop := s.length < more.length

/-- `x` over a front of a list and over the list. -/
abbrev Trimmed (more : List UInt8) (x : Rd ε (List UInt8) α) : Prop := Trims (Before more) (Beyond more) x x

/-- What a reader does with the front, put before the rest. -/
theorem Trimmed.of_forward {x : Rd ε (List UInt8) α} (hx : Forward x)
    (h : ∀ s, Beyond more (x.run (s ++ more)).2 ∨ x.run (s ++ more) = ((x.run s).1, (x.run s).2 ++ more)) : Trimmed more x where
  out s hs := Nat.lt_of_le_of_lt (hx s).length_le hs
  same := by
    rintro s _ rfl
    rcases h s with hout | hsame
    · exact Or.inl hout
    · rw [hsame]
      exact Or.inr ⟨rfl, rfl⟩

theorem readExact_trims (e : ε) (n : Nat) : Trimmed more (readExact e n) := by
  refine .of_forward (readExact_forward e n) fun s => ?_
  rw [readExact_bytes, readExact_bytes]
  by_cases hn : n ≤ s.length
  · rw [if_pos hn, if_pos (by simp; omega), List.take_append_of_le_length hn, List.drop_append_of_le_length hn]
    exact Or.inr rfl
  · rw [if_neg hn]
    by_cases hmore : more = []
    · subst hmore
      rw [List.append_nil, if_neg hn]
      exact Or.inr rfl
    · have hpos := List.length_pos_iff.mpr hmore
      left
      split
      · show (List.drop n (s ++ more)).length < more.length
        rw [List.length_drop, List.length_append]
        omega
      · exact hpos

theorem readLoop_trims {body : β → Rd ε (List UInt8) (β ⊕ α)} (h : ∀ b, Trimmed more (body b)) {k : Nat}
    (hshrinks : Rd.Shrinks BufRead.size k body) (hk : 0 < k) (b : β) : Trimmed more (Base.readLoop body b) where
  out s hs := Trims.loop_out h (BufRead.size s + 1) b s hs
  same := by
    rintro r _ rfl
    have hle : BufRead.size r ≤ BufRead.size (r ++ more) := by
      show r.length ≤ (r ++ more).length
      rw [List.length_append]
      omega
    exact Trims.loop h hshrinks hk (Nat.succ_le_succ hle) b rfl (Nat.lt_succ_self _)

end

end NixWire.Base
