/-
  NixWire.Base.Reader — computations that read a byte stream.

  A computation over a stream state `R` ends with a value or stops, and leaves a state in
  either case: after an error the reader stands where the error left it, which matters to
  a caller that carries on. It stops with an error, with a panic, or (`hang`) when a loop
  used up its fuel, so that a loop that does not end is told apart from one that fails.

  `BufRead` is what a buffered reader offers: one read of at most `n` bytes, the buffer,
  and consuming from it. `readExact` reads over as many reads as it takes. A plain byte
  list is a reader too (its state is what is still unread); it is the abstract stream the
  other readers are compared with.

  `Rel ρ x y`: run from states related by `ρ`, `x` and `y` end alike and in related
  states. It is a congruence for every way of building computations here, so a function
  written over any reader is related to itself over two readers as soon as `readExact`
  is (`Delivers`).
-/

import Mathlib.Data.List.Basic
import Mathlib.Tactic.Tauto

namespace NixWire.Base

inductive Panic where
  | capacityOverflow
  | sliceOutOfRange
  deriving DecidableEq, Repr

inductive Stop (ε : Type) where
  | err (e : ε)
  | panic (p : Panic)
  | hang
  deriving DecidableEq, Repr

inductive Res (ε α : Type) where
  | ok (a : α)
  | stop (s : Stop ε)
  deriving DecidableEq, Repr

structure Rd (ε R α : Type) where
  run : R → Res ε α × R

namespace Rd

variable {ε R S α β : Type}

def pure (a : α) : Rd ε R α := ⟨fun r => (.ok a, r)⟩

def bind (x : Rd ε R α) (f : α → Rd ε R β) : Rd ε R β := ⟨fun r =>
  match x.run r with
  | (.ok a, r') => (f a).run r'
  | (.stop s, r') => (.stop s, r')⟩

instance : Monad (Rd ε R) where
  pure := Rd.pure
  bind := Rd.bind

@[simp] theorem run_pure (a : α) (r : R) : (Pure.pure a : Rd ε R α).run r = (.ok a, r) := rfl

theorem run_bind (x : Rd ε R α) (f : α → Rd ε R β) (r : R) :
    (x >>= f).run r = match x.run r with
      | (.ok a, r') => (f a).run r'
      | (.stop s, r') => (.stop s, r') := rfl

@[ext] theorem ext {x y : Rd ε R α} (h : ∀ r, x.run r = y.run r) : x = y := by
  cases x; cases y
  exact congrArg Rd.mk (funext h)

instance : LawfulMonad (Rd ε R) := LawfulMonad.mk' (Rd ε R)
  (fun x => by
    ext1 r
    show (Rd.bind x (fun a => Rd.pure (id a))).run r = x.run r
    simp only [Rd.bind, Rd.pure]
    rcases h : x.run r with ⟨_ | _, _⟩ <;> rfl)
  (fun _ _ => rfl)
  (fun x f g => by
    ext1 r
    show (Rd.bind (Rd.bind x f) g).run r = (Rd.bind x (fun a => Rd.bind (f a) g)).run r
    simp only [Rd.bind]
    rcases x.run r with ⟨_ | _, _⟩ <;> rfl)

theorem bind_ok {x : Rd ε R α} {f : α → Rd ε R β} {r r' : R} {a : α} (h : x.run r = (.ok a, r')) :
    (x >>= f).run r = (f a).run r' := by rw [run_bind, h]

theorem bind_stop {x : Rd ε R α} {f : α → Rd ε R β} {r r' : R} {s : Stop ε} (h : x.run r = (.stop s, r')) :
    (x >>= f).run r = (.stop s, r') := by rw [run_bind, h]

theorem bind_ok_iff {x : Rd ε R α} {f : α → Rd ε R β} {r r' : R} {b : β} :
    (x >>= f).run r = (.ok b, r') ↔ ∃ a r₁, x.run r = (.ok a, r₁) ∧ (f a).run r₁ = (.ok b, r') := by
  rw [run_bind]
  rcases x.run r with ⟨a | s, r₁⟩ <;> simp

theorem bind_stop_iff {x : Rd ε R α} {f : α → Rd ε R β} {r r' : R} {s : Stop ε} :
    (x >>= f).run r = (.stop s, r') ↔
      x.run r = (.stop s, r') ∨ ∃ a r₁, x.run r = (.ok a, r₁) ∧ (f a).run r₁ = (.stop s, r') := by
  rw [run_bind]
  rcases x.run r with ⟨a | s, r₁⟩ <;> simp

theorem map_congr {x y : Rd ε R α} {r r' : R} (f : α → β) (h : x.run r = y.run r') : (f <$> x).run r = (f <$> y).run r' := by
  rw [map_eq_pure_bind, map_eq_pure_bind, run_bind, run_bind, h]

theorem map_ok_iff {x : Rd ε R α} {f : α → β} {r r' : R} {b : β} :
    (f <$> x).run r = (.ok b, r') ↔ ∃ a, x.run r = (.ok a, r') ∧ f a = b := by
  rw [map_eq_pure_bind, bind_ok_iff]
  constructor
  · intro h
    obtain ⟨a, r₁, hx, hf⟩ := h
    cases hf
    exact ⟨a, hx, rfl⟩
  · intro h
    obtain ⟨a, hx, rfl⟩ := h
    exact ⟨a, r', hx, rfl⟩

theorem map_stop_iff {x : Rd ε R α} {f : α → β} {r r' : R} {s : Stop ε} :
    (f <$> x).run r = (.stop s, r') ↔ x.run r = (.stop s, r') := by
  rw [map_eq_pure_bind, bind_stop_iff]
  constructor
  · rintro (h | ⟨a, r₁, _, hf⟩)
    · exact h
    · cases hf
  · exact Or.inl

theorem map_value {x y : Rd ε R α} {r r' : R} (f : α → β) (h : (x.run r).1 = (y.run r').1) :
    ((f <$> x).run r).1 = ((f <$> y).run r').1 := by
  rw [map_eq_pure_bind, map_eq_pure_bind, run_bind, run_bind]
  rcases hx : x.run r with ⟨a | o, s⟩
  · rcases hy : y.run r' with ⟨b | o', s'⟩
    · rw [hx, hy] at h
      cases h
      rfl
    · rw [hx, hy] at h
      cases h
  · rcases hy : y.run r' with ⟨b | o', s'⟩
    · rw [hx, hy] at h
      cases h
    · rw [hx, hy] at h
      cases h
      rfl

theorem ite_bind (c : Prop) [Decidable c] (x y : Rd ε R α) (f : α → Rd ε R β) :
    (if c then x else y) >>= f = if c then x >>= f else y >>= f := by
  split <;> rfl

/-- Return an error. -/
def fail (e : ε) : Rd ε R α := ⟨fun r => (.stop (.err e), r)⟩

def abort (p : Panic) : Rd ε R α := ⟨fun r => (.stop (.panic p), r)⟩

@[simp] theorem run_fail (e : ε) (r : R) : (fail e : Rd ε R α).run r = (.stop (.err e), r) := rfl

@[simp] theorem run_abort (p : Panic) (r : R) : (abort p : Rd ε R α).run r = (.stop (.panic p), r) := rfl

/-- Hand the caller the result, error included; a panic still unwinds. -/
def attempt (x : Rd ε R α) : Rd ε R (Except ε α) := ⟨fun r =>
  match x.run r with
  | (.ok a, r') => (.ok (.ok a), r')
  | (.stop (.err e), r') => (.ok (.error e), r')
  | (.stop (.panic p), r') => (.stop (.panic p), r')
  | (.stop .hang, r') => (.stop .hang, r')⟩

theorem attempt_ok {x : Rd ε R α} {r r' : R} {a : α} (h : x.run r = (.ok a, r')) : x.attempt.run r = (.ok (.ok a), r') := by
  simp only [attempt, h]

theorem attempt_ok_iff {x : Rd ε R α} {r r' : R} {a : α} : x.attempt.run r = (.ok (.ok a), r') ↔ x.run r = (.ok a, r') := by
  constructor
  · intro h
    simp only [attempt] at h
    split at h <;> simp_all
  · exact attempt_ok

theorem attempt_stops {x : Rd ε R α} {r r' : R} {s : Stop ε} (h : x.run r = (.stop s, r')) :
    (∃ e, x.attempt.run r = (.ok (.error e), r')) ∨ ∃ s', x.attempt.run r = (.stop s', r') := by
  cases s with
  | err e => exact Or.inl ⟨e, by simp only [attempt, h]⟩
  | panic p => exact Or.inr ⟨.panic p, by simp only [attempt, h]⟩
  | hang => exact Or.inr ⟨.hang, by simp only [attempt, h]⟩

/-- The body `n` times in a row, its values in order. -/
def times : Nat → Rd ε R α → Rd ε R (List α)
  | 0, _ => Pure.pure []
  | n + 1, x => do
    let a ← x
    let as ← times n x
    return a :: as

theorem times_map (x : Rd ε R α) (f : α → β) (n : Nat) : times n (f <$> x) = List.map f <$> times n x := by
  induction n with
  | zero => rfl
  | succ n ih => simp [times, ih]

/-- How many elements were read is known beforehand. -/
theorem times_length (x : Rd ε R α) (n : Nat) (k : Nat → β) :
    (fun as => k as.length) <$> times n x = (fun _ => k n) <$> times n x := by
  induction n generalizing k with
  | zero => rfl
  | succ n ih =>
    simp only [times, map_bind, map_pure]
    congr 1
    funext a
    have h := ih fun m => k (m + 1)
    rw [map_eq_pure_bind, map_eq_pure_bind] at h
    exact h

/-- Iterate the body from `b` until it returns a value, at most `fuel` times. -/
def loop (body : β → Rd ε R (β ⊕ α)) : Nat → β → Rd ε R α
  | 0, _ => ⟨fun r => (.stop .hang, r)⟩
  | fuel + 1, b => do
    match ← body b with
    | .inl b' => loop body fuel b'
    | .inr a => return a

/-- Iterate the body, `size` of the state bounding the number of passes. -/
def iterate (size : R → Nat) (body : β → Rd ε R (β ⊕ α)) (b : β) : Rd ε R α :=
  ⟨fun r => (loop body (size r + 1) b).run r⟩

/-- Run on the first of two streams. -/
def onFst (x : Rd ε R α) : Rd ε (R × S) α := ⟨fun rs => ((x.run rs.1).1, ((x.run rs.1).2, rs.2))⟩

/-- Run on the second of two streams. -/
def onSnd (x : Rd ε S α) : Rd ε (R × S) α := ⟨fun rs => ((x.run rs.2).1, (rs.1, (x.run rs.2).2))⟩

theorem onFst_iff {x : Rd ε R α} {r : R} {s : S} {o : Res ε α} {q : R × S} :
    (onFst x).run (r, s) = (o, q) ↔ x.run r = (o, q.1) ∧ q.2 = s := by
  obtain ⟨r', s'⟩ := q
  simp only [onFst, Prod.ext_iff]
  tauto

theorem onSnd_iff {x : Rd ε S α} {r : R} {s : S} {o : Res ε α} {q : R × S} :
    (onSnd x).run (r, s) = (o, q) ↔ x.run s = (o, q.2) ∧ q.1 = r := by
  obtain ⟨r', s'⟩ := q
  simp only [onSnd, Prod.ext_iff]
  tauto

@[simp] theorem onFst_pure (a : α) : (onFst (Pure.pure a) : Rd ε (R × S) α) = Pure.pure a := rfl

@[simp] theorem onSnd_pure (a : α) : (onSnd (Pure.pure a) : Rd ε (R × S) α) = Pure.pure a := rfl

theorem onFst_map (f : α → β) (x : Rd ε R α) : (onFst (f <$> x) : Rd ε (R × S) β) = f <$> onFst x := by
  rw [map_eq_pure_bind, map_eq_pure_bind]
  ext1 rs
  simp only [onFst, run_bind]
  rcases x.run rs.1 with ⟨_ | _, _⟩ <;> rfl

theorem onSnd_map (f : α → β) (x : Rd ε S α) : (onSnd (f <$> x) : Rd ε (R × S) β) = f <$> onSnd x := by
  rw [map_eq_pure_bind, map_eq_pure_bind]
  ext1 rs
  simp only [onSnd, run_bind]
  rcases x.run rs.2 with ⟨_ | _, _⟩ <;> rfl

theorem onFst_bind (x : Rd ε R α) (f : α → Rd ε R β) : (onFst (x >>= f) : Rd ε (R × S) β) = onFst x >>= fun a => onFst (f a) := by
  ext1 rs
  simp only [onFst, run_bind]
  rcases x.run rs.1 with ⟨_ | _, _⟩ <;> rfl

theorem onFst_bind_ok_iff {x : Rd ε R α} {f : α → Rd ε (R × S) β} {r : R} {s : S} {b : β} {q : R × S} :
    (onFst x >>= f).run (r, s) = (.ok b, q) ↔ ∃ a r', x.run r = (.ok a, r') ∧ (f a).run (r', s) = (.ok b, q) := by
  rw [bind_ok_iff]
  constructor
  · intro h
    obtain ⟨a, ⟨r', s'⟩, hx, hf⟩ := h
    obtain ⟨hread, rfl⟩ := onFst_iff.mp hx
    exact ⟨a, r', hread, hf⟩
  · intro h
    obtain ⟨a, r', hx, hf⟩ := h
    exact ⟨a, (r', s), onFst_iff.mpr ⟨hx, rfl⟩, hf⟩

theorem onSnd_bind_ok_iff {x : Rd ε S α} {f : α → Rd ε (R × S) β} {r : R} {s : S} {b : β} {q : R × S} :
    (onSnd x >>= f).run (r, s) = (.ok b, q) ↔ ∃ a s', x.run s = (.ok a, s') ∧ (f a).run (r, s') = (.ok b, q) := by
  rw [bind_ok_iff]
  constructor
  · intro h
    obtain ⟨a, ⟨r', s'⟩, hx, hf⟩ := h
    obtain ⟨hread, rfl⟩ := onSnd_iff.mp hx
    exact ⟨a, s', hread, hf⟩
  · intro h
    obtain ⟨a, s', hx, hf⟩ := h
    exact ⟨a, (r, s'), onSnd_iff.mpr ⟨hx, rfl⟩, hf⟩

/-- Whatever becomes of the second stream, the first stays as it was. -/
def KeepsFst (x : Rd ε (R × S) α) : Prop := ∀ rs, (x.run rs).2.1 = rs.1

theorem KeepsFst.pure (a : α) : (Pure.pure a : Rd ε (R × S) α).KeepsFst := fun _ => rfl

theorem KeepsFst.onSnd (x : Rd ε S α) : (x.onSnd : Rd ε (R × S) α).KeepsFst := fun _ => rfl

theorem KeepsFst.bind {x : Rd ε (R × S) α} {f : α → Rd ε (R × S) β} (hx : x.KeepsFst) (hf : ∀ a, (f a).KeepsFst) :
    (x >>= f).KeepsFst := by
  intro rs
  have h := hx rs
  rw [run_bind]
  split
  · rename_i a r hrun
    rw [hrun] at h
    rw [hf a r, h]
  · rename_i hrun
    rw [hrun] at h
    exact h

end Rd

/-! ## How a computation stops -/

section

variable {ε R S α β : Type}

/-- An error, or an allocation that asks for too much. -/
def Clean (o : Stop ε) : Prop := (∃ e, o = .err e) ∨ o = .panic .capacityOverflow

/-- `x` stops only with an error or because an allocation asks for too much. -/
def Rd.Tidy (x : Rd ε R α) : Prop := ∀ (r r' : R) (o : Stop ε), x.run r = (.stop o, r') → Clean o

theorem Rd.Tidy.of_err {x : Rd ε R α} (h : ∀ {r r' : R} {o : Stop ε}, x.run r = (.stop o, r') → ∃ e, o = .err e) :
    x.Tidy := fun _ _ _ hx => Or.inl (h hx)

theorem Rd.Tidy.pure (a : α) : (Pure.pure a : Rd ε R α).Tidy := by
  intro r r' o h
  cases h

theorem Rd.Tidy.fail (e : ε) : (Rd.fail e : Rd ε R α).Tidy := by
  intro r r' o h
  cases h
  exact Or.inl ⟨e, rfl⟩

theorem Rd.Tidy.bind {x : Rd ε R α} {f : α → Rd ε R β} (hx : x.Tidy) (hf : ∀ a, (f a).Tidy) : (x >>= f).Tidy := by
  intro r r' o h
  rcases Rd.bind_stop_iff.mp h with h | ⟨a, r₁, _, h⟩
  · exact hx _ _ _ h
  · exact hf a _ _ _ h

theorem Rd.Tidy.map {x : Rd ε R α} (hx : x.Tidy) (f : α → β) : (f <$> x).Tidy :=
  fun _ _ _ h => hx _ _ _ (Rd.map_stop_iff.mp h)

theorem Rd.Tidy.ite {c : Prop} [Decidable c] {x y : Rd ε R α} (hx : x.Tidy) (hy : y.Tidy) : (if c then x else y).Tidy := by
  split
  · exact hx
  · exact hy

theorem Rd.Tidy.attempt {x : Rd ε R α} (hx : x.Tidy) : x.attempt.Tidy := by
  intro r r' o h
  simp only [Rd.attempt] at h
  rcases hr : x.run r with ⟨a | (e | p | _), r₁⟩ <;> rw [hr] at h <;> cases h
  all_goals
    rcases hx _ _ _ hr with ⟨_, he⟩ | hp
    · cases he
    · cases hp
      try exact Or.inr rfl

theorem Rd.Tidy.times {x : Rd ε R α} (hx : x.Tidy) (n : Nat) : (Rd.times n x).Tidy := by
  induction n with
  | zero => exact Rd.Tidy.pure []
  | succ n ih => exact hx.bind fun a => ih.bind fun as => Rd.Tidy.pure (a :: as)

theorem Rd.Tidy.onFst {x : Rd ε R α} (hx : x.Tidy) : (x.onFst : Rd ε (R × S) α).Tidy := by
  rintro ⟨r, s⟩ q o h
  exact hx _ _ _ (Rd.onFst_iff.mp h).1

theorem Rd.Tidy.onSnd {x : Rd ε S α} (hx : x.Tidy) : (x.onSnd : Rd ε (R × S) α).Tidy := by
  rintro ⟨r, s⟩ q o h
  exact hx _ _ _ (Rd.onSnd_iff.mp h).1

def Rd.Panics (x : Rd ε R α) (r : R) : Prop := ∃ (p : Panic) (r' : R), x.run r = (.stop (.panic p), r')

theorem Rd.panics_bind {x : Rd ε R α} {f : α → Rd ε R β} {r : R} :
    (x >>= f).Panics r ↔ x.Panics r ∨ ∃ a r₁, x.run r = (.ok a, r₁) ∧ (f a).Panics r₁ := by
  simp only [Rd.Panics, Rd.bind_stop_iff]
  constructor
  · intro h
    obtain ⟨p, r', h | ⟨a, r₁, hx, h⟩⟩ := h
    · exact Or.inl ⟨p, r', h⟩
    · exact Or.inr ⟨a, r₁, hx, p, r', h⟩
  · rintro (⟨p, r', h⟩ | ⟨a, r₁, hx, p, r', h⟩)
    · exact ⟨p, r', Or.inl h⟩
    · exact ⟨p, r', Or.inr ⟨a, r₁, hx, h⟩⟩

theorem Rd.panics_map {x : Rd ε R α} {f : α → β} {r : R} : (f <$> x).Panics r ↔ x.Panics r := by
  simp only [Rd.Panics, Rd.map_stop_iff]

@[simp] theorem Rd.panics_pure (a : α) (r : R) : (Pure.pure a : Rd ε R α).Panics r ↔ False := by
  simp [Rd.Panics]

@[simp] theorem Rd.panics_fail (e : ε) (r : R) : (Rd.fail e : Rd ε R α).Panics r ↔ False := by
  simp [Rd.Panics]

theorem Rd.not_panics_of_stop {x : Rd ε (List UInt8) α} {s : List UInt8}
    (h : ∀ {s rest : List UInt8} {o : Stop ε}, x.run s = (.stop o, rest) → ∃ e, o = .err e) : ¬x.Panics s := by
  intro h
  obtain ⟨p, r, hp⟩ := h
  obtain ⟨e, he⟩ := h hp
  cases he

theorem Rd.panics_times {x : Rd ε R α} (n : Nat) : ∀ {r : R}, (Rd.times n x).Panics r ↔
    ∃ (as : List α) (r₁ : R), as.length < n ∧ (Rd.times as.length x).run r = (.ok as, r₁) ∧ x.Panics r₁ := by
  induction n with
  | zero => intro r; simp [Rd.times]
  | succ n ih =>
    intro r
    simp only [Rd.times, Rd.panics_bind, ih, Rd.panics_pure, and_false, exists_false, or_false]
    constructor
    · rintro (h | ⟨a, r₁, hx, as, r₂, hlt, hrun, hp⟩)
      · exact ⟨[], r, by simp, rfl, h⟩
      · refine ⟨a :: as, r₂, by simpa using hlt, ?_, hp⟩
        rw [List.length_cons, Rd.times, Rd.bind_ok hx, Rd.bind_ok hrun, Rd.run_pure]
    · intro h
      obtain ⟨as, r₂, hlt, hrun, hp⟩ := h
      cases as with
      | nil =>
        cases hrun
        exact Or.inl hp
      | cons a as =>
        rw [List.length_cons, Rd.times, Rd.bind_ok_iff] at hrun
        obtain ⟨a', r₁, hx, hrun⟩ := hrun
        obtain ⟨as', r₃, hrun, hnil⟩ := Rd.bind_ok_iff.mp hrun
        cases hnil
        exact Or.inr ⟨a, r₁, hx, as, r₂, by simpa using hlt, hrun, hp⟩

@[simp] theorem Rd.panics_attempt {x : Rd ε R α} {r : R} : x.attempt.Panics r ↔ x.Panics r := by
  simp only [Rd.Panics, Rd.attempt]
  rcases x.run r with ⟨a | (e | p | _), r'⟩ <;> simp

@[simp] theorem Rd.panics_onFst {x : Rd ε R α} {r : R} {s : S} : (x.onFst : Rd ε (R × S) α).Panics (r, s) ↔ x.Panics r := by
  simp only [Rd.Panics, Rd.onFst]
  rcases x.run r with ⟨a | o, r'⟩ <;> simp

@[simp] theorem Rd.panics_onSnd {x : Rd ε S α} {r : R} {s : S} : (x.onSnd : Rd ε (R × S) α).Panics (r, s) ↔ x.Panics s := by
  simp only [Rd.Panics, Rd.onSnd]
  rcases x.run s with ⟨a | o, s'⟩ <;> simp

end

/-! ## Buffered readers -/

class BufRead (R : Type) where
  /-- One read: at most `n` bytes, none only at the end of the stream. -/
  pollRead {ε : Type} (n : Nat) : Rd ε R (List UInt8)
  /-- The unread buffer, filled by one read if it was empty. -/
  fillBuf {ε : Type} : Rd ε R (List UInt8)
  consume (n : Nat) : R → R
  /-- How many bytes are still to come (bounds the loops; nothing decides on it). -/
  size : R → Nat

section

variable {ε R α β : Type} [BufRead R]

def readExactLoop (e : ε) : Nat → Nat → Rd ε R (List UInt8)
  | _, 0 => pure []
  | 0, _ + 1 => ⟨fun r => (.stop .hang, r)⟩
  | fuel + 1, n + 1 => do
    let got ← BufRead.pollRead (n + 1)
    if got.isEmpty then Rd.fail e
    else
      let more ← readExactLoop e fuel (n + 1 - got.length)
      return got ++ more

/-- Exactly `n` bytes over as many reads as it takes, or the error `e` at the end of the
    stream, everything up to it consumed. -/
def readExact (e : ε) (n : Nat) : Rd ε R (List UInt8) := readExactLoop e n n

/-- A loop whose every continuing pass reads at least one byte. -/
def readLoop (body : β → Rd ε R (β ⊕ α)) (b : β) : Rd ε R α := Rd.iterate BufRead.size body b

end

/-! ## The byte list as a reader -/

instance : BufRead (List UInt8) where
  pollRead n := ⟨fun s => (.ok (s.take n), s.drop n)⟩
  fillBuf := ⟨fun s => (.ok s, s)⟩
  consume n s := s.drop n
  size := List.length

section

variable {ε : Type}

theorem readExact_bytes (e : ε) (n : Nat) (s : List UInt8) :
    (readExact e n).run s = if n ≤ s.length then (.ok (s.take n), s.drop n) else (.stop (.err e), []) := by
  rcases n with _ | n
  · simp [readExact, readExactLoop]
  have hpoll : (BufRead.pollRead (n + 1) : Rd ε (List UInt8) _).run s = (.ok (s.take (n + 1)), s.drop (n + 1)) := rfl
  rw [readExact, readExactLoop, Rd.bind_ok hpoll]
  by_cases hs : s = []
  · subst hs; simp
  have hpos : 0 < s.length := List.length_pos_iff.mpr hs
  have hne : (s.take (n + 1)).isEmpty = false := by simp [hs]
  rw [hne, if_neg (by simp)]
  by_cases hn : n + 1 ≤ s.length
  · have hlen : n + 1 - (s.take (n + 1)).length = 0 := by simp; omega
    rw [hlen, if_pos hn]
    cases n <;> simp [readExactLoop]
  · obtain ⟨k, rfl⟩ : ∃ k, n = k + 1 := ⟨n - 1, by omega⟩
    obtain ⟨m, hm⟩ : ∃ m, k + 1 + 1 - (s.take (k + 1 + 1)).length = m + 1 :=
      ⟨k + 1 - s.length, by simp; omega⟩
    have hdrop : s.drop (k + 1 + 1) = [] := List.drop_eq_nil_of_le (by omega)
    have hend : (readExactLoop e (k + 1) (m + 1)).run ([] : List UInt8) = (.stop (.err e), []) := by
      have hpoll : (BufRead.pollRead (m + 1) : Rd ε (List UInt8) _).run [] = (.ok [], []) := by
        show ((.ok ([].take (m + 1)), [].drop (m + 1)) : Res ε (List UInt8) × List UInt8) = _
        simp
      rw [readExactLoop, Rd.bind_ok hpoll]
      rfl
    rw [hm, hdrop, if_neg hn, Rd.bind_stop hend]

theorem readExact_append (e : ε) {a b : List UInt8} {n : Nat} (h : a.length = n) :
    (readExact e n).run (a ++ b) = (.ok a, b) := by
  subst h; simp [readExact_bytes]

theorem readExact_ok_iff {e : ε} {n : Nat} {s a b : List UInt8} :
    (readExact e n).run s = (.ok a, b) ↔ s = a ++ b ∧ a.length = n := by
  constructor
  · intro h
    rw [readExact_bytes] at h
    split at h
    · cases h; simp; omega
    · cases h
  · intro h
    obtain ⟨rfl, h⟩ := h
    exact readExact_append e h

end

/-! ## Reading forward -/

/-- However it ends, what is left of the list is a suffix of it. -/
def Forward {ε κ α : Type} (x : Rd ε (List κ) α) : Prop := ∀ s, (x.run s).2 <:+ s

section

variable {ε κ α β : Type}

theorem Forward.of_run {x : Rd ε (List κ) α} (hx : Forward x) {s rest : List κ} {o : Res ε α}
    (h : x.run s = (o, rest)) : rest <:+ s := by
  have := hx s
  rwa [h] at this

theorem Forward.pure (a : α) : Forward (Pure.pure a : Rd ε (List κ) α) := fun _ => List.suffix_rfl

theorem Forward.fail (e : ε) : Forward (Rd.fail e : Rd ε (List κ) α) := fun _ => List.suffix_rfl

theorem Forward.abort (p : Panic) : Forward (Rd.abort p : Rd ε (List κ) α) := fun _ => List.suffix_rfl

theorem Forward.bind {x : Rd ε (List κ) α} {f : α → Rd ε (List κ) β} (hx : Forward x) (hf : ∀ a, Forward (f a)) :
    Forward (x >>= f) := by
  intro s
  rw [Rd.run_bind]
  rcases h : x.run s with ⟨a | o, r⟩
  · exact (hf a r).trans (hx.of_run h)
  · exact hx.of_run h

theorem Forward.map {x : Rd ε (List κ) α} (hx : Forward x) (f : α → β) : Forward (f <$> x) := by
  rw [map_eq_pure_bind]
  exact hx.bind fun a => Forward.pure (f a)

theorem Forward.ite {c : Prop} [Decidable c] {x y : Rd ε (List κ) α} (hx : Forward x) (hy : Forward y) :
    Forward (if c then x else y) := by
  split
  · exact hx
  · exact hy

theorem Forward.attempt {x : Rd ε (List κ) α} (hx : Forward x) : Forward x.attempt := by
  intro s
  have hle := hx s
  simp only [Rd.attempt]
  rcases h : x.run s with ⟨a | (e | p | _), r⟩ <;> rwa [h] at hle

theorem Forward.times {x : Rd ε (List κ) α} (hx : Forward x) (n : Nat) : Forward (Rd.times n x) := by
  induction n with
  | zero => exact Forward.pure []
  | succ n ih => exact hx.bind fun a => ih.bind fun as => Forward.pure (a :: as)

theorem Forward.loop {body : β → Rd ε (List κ) (β ⊕ α)} (h : ∀ b, Forward (body b)) (fuel : Nat) :
    ∀ b, Forward (Rd.loop body fuel b) := by
  induction fuel with
  | zero => exact fun _ _ => List.suffix_rfl
  | succ fuel ih =>
    intro b
    refine (h b).bind fun o => ?_
    cases o with
    | inl b' => exact ih b'
    | inr a => exact Forward.pure a

theorem Forward.readLoop {body : β → Rd ε (List UInt8) (β ⊕ α)} (h : ∀ b, Forward (body b)) (b : β) :
    Forward (Base.readLoop body b) := fun s => Forward.loop h (s.length + 1) b s

theorem readExact_forward (e : ε) (n : Nat) : Forward (readExact e n : Rd ε (List UInt8) (List UInt8)) := by
  intro s
  rw [readExact_bytes]
  split
  · exact List.drop_suffix n s
  · exact List.nil_suffix

end

/-! ## Two readers side by side -/

section

variable {ε R S α β : Type} {ρ : R → S → Prop}

def Rel (ρ : R → S → Prop) (x : Rd ε R α) (y : Rd ε S α) : Prop :=
  ∀ r s, ρ r s → (x.run r).1 = (y.run s).1 ∧ ρ (x.run r).2 (y.run s).2

theorem Rel.pure (a : α) : Rel ρ (Pure.pure a : Rd ε R α) (Pure.pure a) := fun _ _ h => ⟨rfl, h⟩

theorem Rel.fail (e : ε) : Rel ρ (Rd.fail e : Rd ε R α) (Rd.fail e) := fun _ _ h => ⟨rfl, h⟩

theorem Rel.abort (p : Panic) : Rel ρ (Rd.abort p : Rd ε R α) (Rd.abort p) := fun _ _ h => ⟨rfl, h⟩

theorem Rel.bind {x : Rd ε R α} {y : Rd ε S α} {f : α → Rd ε R β} {g : α → Rd ε S β} (hx : Rel ρ x y)
    (hf : ∀ a, Rel ρ (f a) (g a)) : Rel ρ (x >>= f) (y >>= g) := by
  intro r s h
  obtain ⟨h1, h2⟩ := hx r s h
  simp only [Rd.run_bind]
  rcases hr : x.run r with ⟨o, r'⟩
  rcases hs : y.run s with ⟨o', s'⟩
  rw [hr, hs] at h1 h2
  cases h1
  cases o with
  | ok a => exact hf a r' s' h2
  | stop _ => exact ⟨rfl, h2⟩

theorem Rel.map {x : Rd ε R α} {y : Rd ε S α} (f : α → β) (hx : Rel ρ x y) : Rel ρ (f <$> x) (f <$> y) := by
  rw [map_eq_pure_bind, map_eq_pure_bind]
  exact hx.bind fun a => Rel.pure (f a)

theorem Rel.ite {c : Prop} [Decidable c] {x x' : Rd ε R α} {y y' : Rd ε S α} (h : Rel ρ x y) (h' : Rel ρ x' y') :
    Rel ρ (if c then x else x') (if c then y else y') := by
  split
  · exact h
  · exact h'

theorem Rel.attempt {x : Rd ε R α} {y : Rd ε S α} (hx : Rel ρ x y) : Rel ρ x.attempt y.attempt := by
  intro r s h
  obtain ⟨h1, h2⟩ := hx r s h
  simp only [Rd.attempt]
  rcases hr : x.run r with ⟨o, r'⟩
  rcases hs : y.run s with ⟨o', s'⟩
  rw [hr, hs] at h1 h2
  cases h1
  rcases o with a | (e | p | _) <;> exact ⟨rfl, h2⟩

theorem Rel.times {x : Rd ε R α} {y : Rd ε S α} (hx : Rel ρ x y) (n : Nat) : Rel ρ (Rd.times n x) (Rd.times n y) := by
  induction n with
  | zero => exact Rel.pure []
  | succ n ih => exact hx.bind fun a => ih.bind fun as => Rel.pure (a :: as)

theorem Rel.loop {f : β → Rd ε R (β ⊕ α)} {g : β → Rd ε S (β ⊕ α)} (h : ∀ b, Rel ρ (f b) (g b)) (fuel : Nat) :
    ∀ b, Rel ρ (Rd.loop f fuel b) (Rd.loop g fuel b) := by
  induction fuel with
  | zero => intro b r s hrs; exact ⟨rfl, hrs⟩
  | succ fuel ih =>
    intro b
    refine (h b).bind fun o => ?_
    cases o with
    | inl b' => exact ih b'
    | inr a => exact Rel.pure a

/-- Two pairs of streams, each stream related to its like. -/
def Both {R' S' : Type} (ρ : R → S → Prop) (σ : R' → S' → Prop) (r : R × R') (s : S × S') : Prop :=
  ρ r.1 s.1 ∧ σ r.2 s.2

theorem Rel.onFst {R' S' : Type} {σ : R' → S' → Prop} {x : Rd ε R α} {y : Rd ε S α} (hx : Rel ρ x y) :
    Rel (Both ρ σ) x.onFst y.onFst := fun r s h => ⟨(hx r.1 s.1 h.1).1, (hx r.1 s.1 h.1).2, h.2⟩

theorem Rel.onSnd {R' S' : Type} {σ : R' → S' → Prop} {x : Rd ε R' α} {y : Rd ε S' α} (hx : Rel σ x y) :
    Rel (Both ρ σ) x.onSnd y.onSnd := fun r s h => ⟨(hx r.2 s.2 h.2).1, h.1, (hx r.2 s.2 h.2).2⟩

/-- Binding, with what the two runs so far came to. -/
theorem Rel.bind_at {x : Rd ε R α} {y : Rd ε S α} {f : α → Rd ε R β} {g : α → Rd ε S β} {r : R} {s : S} (hx : Rel ρ x y)
    (h : ρ r s) (hf : ∀ a r' s', x.run r = (.ok a, r') → y.run s = (.ok a, s') → ρ r' s' →
      ((f a).run r').1 = ((g a).run s').1 ∧ ρ ((f a).run r').2 ((g a).run s').2) :
    ((x >>= f).run r).1 = ((y >>= g).run s).1 ∧ ρ ((x >>= f).run r).2 ((y >>= g).run s).2 := by
  obtain ⟨h1, h2⟩ := hx r s h
  simp only [Rd.run_bind]
  rcases hr : x.run r with ⟨o, r'⟩
  rcases hs : y.run s with ⟨o', s'⟩
  rw [hr, hs] at h1 h2
  cases h1
  cases o with
  | ok a => exact hf a r' s' hr hs h2
  | stop _ => exact ⟨rfl, h2⟩

/-- The outcome and the state `x` leaves, read off the related run of `y`. -/
theorem Rel.run {x : Rd ε R α} {y : Rd ε S α} (hx : Rel ρ x y) {r : R} {s s' : S} {o : Res ε α} (h : ρ r s)
    (hy : y.run s = (o, s')) : ∃ r', x.run r = (o, r') ∧ ρ r' s' := by
  obtain ⟨h1, h2⟩ := hx r s h
  rw [hy] at h1 h2
  exact ⟨(x.run r).2, Prod.ext h1 rfl, h2⟩

/-- The other way about: the run of `y` that a run of `x` follows. -/
theorem Rel.followed {x : Rd ε R α} {y : Rd ε S α} (hx : Rel ρ x y) {r r' : R} {s : S} {o : Res ε α} (h : ρ r s)
    (hrun : x.run r = (o, r')) : ∃ s', y.run s = (o, s') ∧ ρ r' s' := by
  obtain ⟨h1, h2⟩ := hx r s h
  rw [hrun] at h1 h2
  exact ⟨(y.run s).2, Prod.ext h1.symm rfl, h2⟩

end

/-- `R` hands out the bytes of a list, `ρ` saying which are left: exact reads agree with
    the list's own. -/
structure Delivers {R : Type} [BufRead R] (ρ : R → List UInt8 → Prop) : Prop where
  exact : ∀ {ε : Type} (e : ε) (n : Nat), Rel ρ (readExact e n : Rd ε R _) (readExact e n)
  size : ∀ r s, ρ r s → BufRead.size r = s.length

section

variable {ε R α β : Type} [BufRead R] {ρ : R → List UInt8 → Prop}

theorem Delivers.readLoop (d : Delivers ρ) {f : β → Rd ε R (β ⊕ α)} {g : β → Rd ε (List UInt8) (β ⊕ α)}
    (h : ∀ b, Rel ρ (f b) (g b)) (b : β) : Rel ρ (readLoop f b) (readLoop g b) := by
  intro r s hrs
  have hsize : BufRead.size r = BufRead.size s := d.size r s hrs
  simp only [NixWire.Base.readLoop, Rd.iterate, hsize]
  exact Rel.loop h _ b r s hrs

end

/-- `R` is a byte list in all it does: it also shows all its bytes at once. -/
structure Mirrors {R : Type} [BufRead R] (ρ : R → List UInt8 → Prop) : Prop extends Delivers ρ where
  fillBuf : ∀ {ε : Type}, Rel ρ (BufRead.fillBuf : Rd ε R _) BufRead.fillBuf
  consume : ∀ {r : R} {s : List UInt8} {n : Nat}, ρ r s → n ≤ s.length →
    ρ (BufRead.consume n r) (BufRead.consume n s)

end NixWire.Base
