/-
  NixWire.Base.Loop — loops whose continuing passes use up the stream.

  `Shrinks size k body`: a pass that goes on leaves a state at least `k` smaller. With
  `0 < k` the fuel of `Rd.iterate` never runs out: the loop is its body followed by
  itself (`iterate_eq`), and it ends where some number of continuing passes (`Reaches`)
  ends (`iterate_ends`), as its last pass does (`iterate_ok_iff`, `iterate_stop_iff`).

  A loop over a list whose passes only add to it (`Gathers`) returns a list that begins with
  what it had on its way (`Gathers.iterated`).
-/

import NixWire.Base.Reader

namespace NixWire.Base

variable {ε R S α β : Type}

def Rd.Shrinks (size : R → Nat) (k : Nat) (body : β → Rd ε R (β ⊕ α)) : Prop :=
  ∀ (b b' : β) (r r' : R), (body b).run r = (.ok (.inl b'), r') → size r' + k ≤ size r

/-- `n` continuing passes lead from one loop state to another. -/
inductive Rd.Reaches (body : β → Rd ε R (β ⊕ α)) : Nat → β × R → β × R → Prop where
  | refl (x : β × R) : Reaches body 0 x x
  | step {n : Nat} {b b' : β} {r r' : R} {y : β × R} : (body b).run r = (.ok (.inl b'), r') →
      Reaches body n (b', r') y → Reaches body (n + 1) (b, r) y

/-- What a loop does with the outcome of a pass. -/
def Rd.goOn (k : β → Rd ε R α) : β ⊕ α → Rd ε R α
  | .inl b => k b
  | .inr a => pure a

theorem Rd.loop_succ (body : β → Rd ε R (β ⊕ α)) (fuel : Nat) (b : β) :
    Rd.loop body (fuel + 1) b = body b >>= Rd.goOn (Rd.loop body fuel) := by
  rw [Rd.loop]
  congr 1

/-- Two loops whose passes correspond under a map of their states and results. -/
theorem loop_map {γ δ : Type} {body : β → Rd ε R (β ⊕ α)} {body' : γ → Rd ε R (γ ⊕ δ)} {g : β → γ} {k : α → δ}
    (h : ∀ b, body' (g b) = Sum.map g k <$> body b) (fuel : Nat) (b : β) :
    Rd.loop body' fuel (g b) = k <$> Rd.loop body fuel b := by
  induction fuel generalizing b with
  | zero => rfl
  | succ fuel ih =>
    rw [Rd.loop_succ, Rd.loop_succ, h, map_bind, bind_map_left]
    congr 1
    funext o
    cases o with
    | inl b' => exact ih b'
    | inr a => exact (map_pure k a).symm

section

variable {size : R → Nat} {k : Nat} {body : β → Rd ε R (β ⊕ α)} (hs : Rd.Shrinks size k body) (hk : 0 < k)

include hs hk

theorem loop_fuel (fuel : Nat) : ∀ {fuel' : Nat} {b : β} {r : R}, size r < fuel → size r < fuel' →
    (Rd.loop body fuel b).run r = (Rd.loop body fuel' b).run r := by
  induction fuel with
  | zero => intro fuel' b r h _; omega
  | succ fuel ih =>
    intro fuel' b r h h'
    obtain ⟨fuel', rfl⟩ : ∃ m, fuel' = m + 1 := ⟨fuel' - 1, by omega⟩
    rw [Rd.loop_succ, Rd.loop_succ, Rd.run_bind, Rd.run_bind]
    rcases hb : (body b).run r with ⟨(b' | a) | o, r'⟩
    · have := hs _ _ _ _ hb
      exact ih (by omega) (by omega)
    · rfl
    · rfl

/-- A loop is one pass, then the loop again. -/
theorem iterate_eq (b : β) (r : R) :
    (Rd.iterate size body b).run r = (body b >>= Rd.goOn (Rd.iterate size body)).run r := by
  show (Rd.loop body (size r + 1) b).run r = _
  rw [Rd.loop_succ, Rd.run_bind, Rd.run_bind]
  rcases hb : (body b).run r with ⟨(b' | a) | o, r'⟩
  · have := hs _ _ _ _ hb
    have hlt : size r' < size r := by omega
    exact loop_fuel hs hk (size r) hlt (Nat.lt_succ_self _)
  · rfl
  · rfl

theorem iterate_inl {b b' : β} {r r' : R} (h : (body b).run r = (.ok (.inl b'), r')) :
    (Rd.iterate size body b).run r = (Rd.iterate size body b').run r' := by
  rw [iterate_eq hs hk, Rd.bind_ok h]
  rfl

theorem iterate_inr {b : β} {a : α} {r r' : R} (h : (body b).run r = (.ok (.inr a), r')) :
    (Rd.iterate size body b).run r = (.ok a, r') := by
  rw [iterate_eq hs hk, Rd.bind_ok h]
  rfl

theorem iterate_stop {b : β} {o : Stop ε} {r r' : R} (h : (body b).run r = (.stop o, r')) :
    (Rd.iterate size body b).run r = (.stop o, r') := by
  rw [iterate_eq hs hk, Rd.bind_stop h]

theorem Rd.Reaches.iterate {n : Nat} {x y : β × R} (h : Rd.Reaches body n x y) :
    (Rd.iterate size body x.1).run x.2 = (Rd.iterate size body y.1).run y.2 := by
  induction h with
  | refl => rfl
  | step hb _ ih => rw [iterate_inl hs hk hb, ih]

omit hk in
theorem Rd.Reaches.size_le {n : Nat} {x y : β × R} (h : Rd.Reaches body n x y) : size y.2 + k * n ≤ size x.2 := by
  induction h with
  | refl => simp
  | step hb _ ih =>
    have := hs _ _ _ _ hb
    simp only [Nat.mul_succ] at *
    omega

/-- Some passes go on; the next one ends the loop, and the loop ends as it does. -/
theorem iterate_ends (b : β) (r : R) : ∃ (n : Nat) (b' : β) (r' : R), Rd.Reaches body n (b, r) (b', r') ∧
    ((∃ a r'', (body b').run r' = (.ok (.inr a), r'') ∧ (Rd.iterate size body b).run r = (.ok a, r'')) ∨
      ∃ o r'', (body b').run r' = (.stop o, r'') ∧ (Rd.iterate size body b).run r = (.stop o, r'')) := by
  induction hm : size r using Nat.strongRecOn generalizing b r with
  | ind m ih =>
    rcases hb : (body b).run r with ⟨(b' | a) | o, r'⟩
    · have := hs _ _ _ _ hb
      obtain ⟨n, b₁, r₁, hr, h⟩ := ih (size r') (by omega) b' r' rfl
      rw [iterate_inl hs hk hb]
      exact ⟨n + 1, b₁, r₁, .step hb hr, h⟩
    · exact ⟨0, b, r, .refl _, Or.inl ⟨a, r', hb, iterate_inr hs hk hb⟩⟩
    · exact ⟨0, b, r, .refl _, Or.inr ⟨o, r', hb, iterate_stop hs hk hb⟩⟩

/-- A loop succeeds when some continuing passes lead to one that returns. -/
theorem iterate_ok_iff {b : β} {a : α} {r r' : R} : (Rd.iterate size body b).run r = (.ok a, r') ↔
    ∃ (n : Nat) (b₁ : β) (r₁ : R), Rd.Reaches body n (b, r) (b₁, r₁) ∧ (body b₁).run r₁ = (.ok (.inr a), r') := by
  constructor
  · intro h
    obtain ⟨n, b₁, r₁, hr, ⟨a', r₂, hb, hloop⟩ | ⟨o, r₂, hb, hloop⟩⟩ := iterate_ends hs hk b r
    · cases h.symm.trans hloop
      exact ⟨n, b₁, r₁, hr, hb⟩
    · cases h.symm.trans hloop
  · intro h
    obtain ⟨n, b₁, r₁, hr, hb⟩ := h
    exact (hr.iterate hs hk).trans (iterate_inr hs hk hb)

/-- A loop stops where some continuing passes lead to one that stops. -/
theorem iterate_stop_iff {b : β} {o : Stop ε} {r r' : R} : (Rd.iterate size body b).run r = (.stop o, r') ↔
    ∃ (n : Nat) (b₁ : β) (r₁ : R), Rd.Reaches body n (b, r) (b₁, r₁) ∧ (body b₁).run r₁ = (.stop o, r') := by
  constructor
  · intro h
    obtain ⟨n, b₁, r₁, hr, ⟨a', r₂, hb, hloop⟩ | ⟨o, r₂, hb, hloop⟩⟩ := iterate_ends hs hk b r
    · cases h.symm.trans hloop
    · cases h.symm.trans hloop
      exact ⟨n, b₁, r₁, hr, hb⟩
  · intro h
    obtain ⟨n, b₁, r₁, hr, hb⟩ := h
    exact (hr.iterate hs hk).trans (iterate_stop hs hk hb)

/-- A loop panics when some continuing passes lead to one that does. -/
theorem iterate_panics_iff {b : β} {r : R} : (Rd.iterate size body b).Panics r ↔
    ∃ (n : Nat) (b₁ : β) (r₁ : R), Rd.Reaches body n (b, r) (b₁, r₁) ∧ (body b₁).Panics r₁ := by
  simp only [Rd.Panics, iterate_stop_iff hs hk]
  constructor
  · intro h
    obtain ⟨p, r', n, b₁, r₁, hr, hb⟩ := h
    exact ⟨n, b₁, r₁, hr, p, r', hb⟩
  · intro h
    obtain ⟨n, b₁, r₁, hr, p, r', hb⟩ := h
    exact ⟨p, r', n, b₁, r₁, hr, hb⟩

theorem iterate_tidy (h : ∀ b, (body b).Tidy) (b : β) : (Rd.iterate size body b).Tidy := by
  intro r r' o hrun
  obtain ⟨_, _, _, _, hb⟩ := (iterate_stop_iff hs hk).mp hrun
  exact h _ _ _ _ hb

end

theorem Rd.Reaches.trans {body : β → Rd ε R (β ⊕ α)} {n m : Nat} {x y z : β × R} (h : Rd.Reaches body n x y)
    (h' : Rd.Reaches body m y z) : Rd.Reaches body (n + m) x z := by
  induction h with
  | refl => simpa using h'
  | step hb _ ih =>
    rw [Nat.add_right_comm]
    exact .step hb (ih h')

theorem Rd.Reaches.snoc {body : β → Rd ε R (β ⊕ α)} {n : Nat} {x : β × R} {b b' : β} {r r' : R}
    (h : Rd.Reaches body n x (b, r)) (hb : (body b).run r = (.ok (.inl b'), r')) :
    Rd.Reaches body (n + 1) x (b', r') := h.trans (.step hb (.refl _))

theorem Rd.Reaches.split {body : β → Rd ε R (β ⊕ α)} {n m : Nat} {x z : β × R} (h : Rd.Reaches body (n + m) x z) :
    ∃ y, Rd.Reaches body n x y ∧ Rd.Reaches body m y z := by
  induction n generalizing x with
  | zero => exact ⟨x, .refl x, by simpa using h⟩
  | succ n ih =>
    rw [Nat.add_right_comm] at h
    cases h with
    | step hb h =>
      obtain ⟨y, hn, hm⟩ := ih h
      exact ⟨y, .step hb hn, hm⟩

theorem Rd.Reaches.det {body : β → Rd ε R (β ⊕ α)} {n : Nat} {x y y' : β × R} (h : Rd.Reaches body n x y)
    (h' : Rd.Reaches body n x y') : y = y' := by
  induction h with
  | refl => cases h'; rfl
  | step hb _ ih =>
    cases h' with
    | step hb' h' =>
      rw [hb] at hb'
      cases hb'
      exact ih h'

/-- With fuel for the passes that go on, a loop that returns does. -/
theorem Rd.Reaches.loop_ok {body : β → Rd ε R (β ⊕ α)} {n : Nat} {x y : β × R} {a : α} {r : R} (h : Rd.Reaches body n x y)
    (hend : (body y.1).run y.2 = (.ok (.inr a), r)) {fuel : Nat} (hfuel : n ≤ fuel) :
    (Rd.loop body (fuel + 1) x.1).run x.2 = (.ok a, r) := by
  induction h generalizing fuel with
  | refl x =>
    rw [Rd.loop_succ, Rd.bind_ok hend]
    rfl
  | step hb _ ih =>
    obtain ⟨fuel, rfl⟩ : ∃ m, fuel = m + 1 := ⟨fuel - 1, by omega⟩
    rw [Rd.loop_succ, Rd.bind_ok hb]
    exact ih hend (by omega)

/-- What every continuing pass keeps holds of every loop state reached. -/
theorem Rd.Reaches.induct {body : β → Rd ε R (β ⊕ α)} {I : β × R → Prop}
    (hI : ∀ {b b' : β} {r r' : R}, I (b, r) → (body b).run r = (.ok (.inl b'), r') → I (b', r')) {n : Nat}
    {x y : β × R} (h : Rd.Reaches body n x y) (hx : I x) : I y := by
  induction h with
  | refl => exact hx
  | step hb _ ih => exact ih (hI hx hb)

/-- Passes that correspond under a map of the loop's states reach states that do. -/
theorem Rd.reaches_map_iff {γ δ : Type} {body : β → Rd ε R (β ⊕ α)} {body' : γ → Rd ε R (γ ⊕ δ)} {g : β → γ} {k : α → δ}
    (h : ∀ b, body' (g b) = Sum.map g k <$> body b) {n : Nat} {b : β} {r : R} {y : γ × R} :
    Rd.Reaches body' n (g b, r) y ↔ ∃ b', y.1 = g b' ∧ Rd.Reaches body n (b, r) (b', y.2) := by
  constructor
  · intro hr
    induction n generalizing b r with
    | zero =>
      cases hr
      exact ⟨b, rfl, .refl _⟩
    | succ n ih =>
      cases hr with
      | step hb hr =>
        rw [h] at hb
        obtain ⟨o, hpass, ho⟩ := Rd.map_ok_iff.mp hb
        cases o with
        | inr a => cases ho
        | inl b₁ =>
          cases ho
          obtain ⟨b', hy, hr⟩ := ih hr
          exact ⟨b', hy, .step hpass hr⟩
  · rintro ⟨b', hy, hr⟩
    obtain ⟨c, r'⟩ := y
    obtain rfl : c = g b' := hy
    induction n generalizing b r with
    | zero =>
      cases hr
      exact .refl _
    | succ n ih =>
      cases hr with
      | step hb hr =>
        refine .step ?_ (ih hr)
        rw [h]
        exact Rd.map_ok_iff.mpr ⟨_, hb, rfl⟩

/-- Passes over one reader are passes over a reader that behaves as it does. -/
theorem Rd.Reaches.rel {ρ : R → S → Prop} {body : β → Rd ε R (β ⊕ α)} {body' : β → Rd ε S (β ⊕ α)}
    (hbody : ∀ b, Rel ρ (body b) (body' b)) {n : Nat} {x y : β × S} (h : Rd.Reaches body' n x y) {r : R} (hr : ρ r x.2) :
    ∃ r', Rd.Reaches body n (x.1, r) (y.1, r') ∧ ρ r' y.2 := by
  induction h generalizing r with
  | refl x => exact ⟨r, .refl _, hr⟩
  | step hb _ ih =>
    obtain ⟨r₁, hrun, h₁⟩ := (hbody _).run hr hb
    obtain ⟨r', hreach, h'⟩ := ih h₁
    exact ⟨r', .step hrun hreach, h'⟩

/-! ## Gathering -/

/-- A pass only adds to what was gathered, whether it goes on or not. -/
def Rd.Gathers (body : List α → Rd ε R (List α ⊕ List α)) : Prop :=
  ∀ (as : List α) (o : List α ⊕ List α) (r r' : R), (body as).run r = (.ok o, r') → as <+: o.elim id id

section

variable {body : List α → Rd ε R (List α ⊕ List α)} (h : Rd.Gathers body)

include h

theorem Rd.Gathers.loop (fuel : Nat) : ∀ {as out : List α} {r r' : R},
    (Rd.loop body fuel as).run r = (.ok out, r') → as <+: out := by
  induction fuel with
  | zero =>
    intro as out r r' hrun
    cases hrun
  | succ fuel ih =>
    intro as out r r' hrun
    rw [Rd.loop_succ] at hrun
    obtain ⟨o, r₁, hb, hrest⟩ := Rd.bind_ok_iff.mp hrun
    have hmore := h _ _ _ _ hb
    cases o with
    | inl as' => exact hmore.trans (ih hrest)
    | inr as' =>
      cases hrest
      exact hmore

/-- What a loop has gathered on its way is in what it returns. -/
theorem Rd.Gathers.reached {n : Nat} {x y : List α × R} (hr : Rd.Reaches body n x y) {fuel : Nat} {out : List α} {r : R}
    (hrun : (Rd.loop body fuel x.1).run x.2 = (.ok out, r)) : y.1 <+: out := by
  induction hr generalizing fuel with
  | refl x => exact h.loop fuel hrun
  | step hb _ ih =>
    cases fuel with
    | zero => cases hrun
    | succ fuel =>
      rw [Rd.loop_succ, Rd.bind_ok hb] at hrun
      exact ih hrun

theorem Rd.Gathers.iterated {size : R → Nat} {n : Nat} {as seen out : List α} {r r' r'' : R}
    (hr : Rd.Reaches body n (as, r) (seen, r')) (hrun : (Rd.iterate size body as).run r = (.ok out, r'')) : seen <+: out := by
  have hloop : (Rd.loop body (size r + 1) as).run r = (.ok out, r'') := hrun
  exact h.reached hr hloop

end

end NixWire.Base
