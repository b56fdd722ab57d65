/-
  NixWire.Base.LayoutRead — reading a format with primitive readers.

  `Prims` are the readers of a word, a padded string, a blob, and the allocation of a
  list's room; `Fmt.parse` reads a format with them, field by field. `Prims.Lawful` says
  what the primitives do on a byte list.

  Proved for lawful primitives:
  - `parse_ok_iff`: parsing succeeds exactly on the encodings, and consumes exactly one.
  - `parse_tidy`: it stops with an error or because an allocation asked for too much.
  - `parse_panics_iff`: the latter exactly when a count it comes to asks for more room
    than an allocation may have (`Fmt.Asks`).
  - `parse_skips` / `skips_parse`: reading a format and skipping it (`Skips`: strings not
    decoded, nothing allocated) leave the same bytes, and only an undecodable string is
    skipped but not read.
  and, for the primitives of two readers, `parse_congr`: the parsers are related as the
  primitives are, by any congruence.
-/

import NixWire.Base.Congruence
import NixWire.Base.Layout

namespace NixWire.Base

/-! ## Parsing -/

structure Prims (ε R : Type) where
  word : Rd ε R UInt64
  bytes : Rd ε R (List UInt8)
  framed : Rd ε R (List UInt8)
  blob : Rd ε R UInt64
  reserve : Nat → Rd ε R Unit
  badText : ε

variable {ε R S α β : Type}

def Prims.text (P : Prims ε R) : Rd ε R Str := do
  let b ← P.bytes
  match fromUtf8 b with
  | some t => return t
  | none => Rd.fail P.badText

def Fmt.parse (P : Prims ε R) : (f : Fmt) → Rd ε R f.Val
  | .unit => pure ()
  | .word => P.word
  | .flag => do
    let w ← P.word
    return w != 0
  | .junk => do
    let _ ← P.word
    return ()
  | .str => P.text
  | .bytes => P.bytes
  | .framed => P.framed
  | .blob => P.blob
  | .gate c f => if c then some <$> f.parse P else pure none
  | .alt f g => do
    let w ← P.word
    if w == 0 then Sum.inl <$> f.parse P else Sum.inr <$> g.parse P
  | .many size f => do
    let n ← P.word
    P.reserve (n.toNat * size)
    Rd.times n.toNat (f.parse P)
  | .seq f g => do
    let a ← f.parse P
    let b ← g.parse P
    return (a, b)

section

variable (P : Prims ε R) (f g : Fmt)

theorem parse_unit : Fmt.unit.parse P = pure () := rfl

theorem parse_word : Fmt.word.parse P = P.word := rfl

theorem parse_flag : Fmt.flag.parse P = P.word >>= fun w => pure (w != 0) := rfl

theorem parse_junk : Fmt.junk.parse P = P.word >>= fun _ => pure () := rfl

theorem parse_gate (c : Bool) : (Fmt.gate c f).parse P = if c then some <$> f.parse P else pure none := rfl

theorem parse_alt : (Fmt.alt f g).parse P =
    P.word >>= fun w => if w == 0 then Sum.inl <$> f.parse P else Sum.inr <$> g.parse P := rfl

theorem parse_many (size : Nat) : (Fmt.many size f).parse P =
    P.word >>= fun n => P.reserve (n.toNat * size) >>= fun _ => Rd.times n.toNat (f.parse P) := rfl

theorem parse_seq : (Fmt.seq f g).parse P = f.parse P >>= fun a => g.parse P >>= fun b => pure (a, b) := rfl

end

/-- A format, and what its values stand for. -/
structure Layout (α : Type) where
  fmt : Fmt
  of : fmt.Val → α

def Layout.parse (P : Prims ε R) (l : Layout α) : Rd ε R α := l.of <$> l.fmt.parse P

theorem Layout.parse_ite (P : Prims ε R) (c : Prop) [Decidable c] (l l' : Layout α) :
    (if c then l else l').parse P = if c then l.parse P else l'.parse P := by
  split <;> rfl

theorem skip_ite (P : Prims ε R) (c : Prop) [inst : Decidable c] (f g : Fmt) :
    (fun _ => ()) <$> (if c then f else g).parse P =
      if c then (fun _ => ()) <$> f.parse P else (fun _ => ()) <$> g.parse P := by
  cases inst <;> rfl

/-- What the primitives do on a byte list. -/
structure Prims.Lawful (L : Limits) (P : Prims ε (List UInt8)) : Prop where
  word_ok : ∀ {s rest : List UInt8} {w : UInt64}, P.word.run s = (.ok w, rest) ↔ s = wordBytes w ++ rest
  bytes_ok : ∀ {s rest b : List UInt8}, P.bytes.run s = (.ok b, rest) ↔ ∃ bs, EncBytes L b bs ∧ s = bs ++ rest
  framed_ok : ∀ {s rest b : List UInt8}, P.framed.run s = (.ok b, rest) ↔ ∃ bs, EncFramed L b bs ∧ s = bs ++ rest
  blob_eq : P.blob = (fun b => UInt64.ofNat b.length) <$> P.framed
  reserve_eq : ∀ n, P.reserve n = if L.room < n then Rd.abort .capacityOverflow else pure ()
  word_stop : ∀ {s rest : List UInt8} {o : Stop ε}, P.word.run s = (.stop o, rest) → ∃ e, o = .err e
  bytes_stop : ∀ {s rest : List UInt8} {o : Stop ε}, P.bytes.run s = (.stop o, rest) → ∃ e, o = .err e
  framed_stop : ∀ {s rest : List UInt8} {o : Stop ε}, P.framed.run s = (.stop o, rest) → ∃ e, o = .err e

/-! ## Success -/

theorem times_ok_iff {x : Rd ε (List UInt8) α} {E : α → List UInt8 → Prop}
    (hx : ∀ {s rest : List UInt8} {a : α}, x.run s = (.ok a, rest) ↔ ∃ bs, E a bs ∧ s = bs ++ rest) (n : Nat) :
    ∀ {s rest : List UInt8} {as : List α}, (Rd.times n x).run s = (.ok as, rest) ↔
      as.length = n ∧ ∃ parts, List.Forall₂ E as parts ∧ s = parts.flatten ++ rest := by
  induction n with
  | zero =>
    intro s rest as
    constructor
    · intro h
      cases h
      exact ⟨rfl, [], .nil, rfl⟩
    · intro h
      obtain ⟨h, parts, hp, rfl⟩ := h
      obtain rfl : as = [] := List.length_eq_zero_iff.mp h
      cases hp
      rfl
  | succ n ih =>
    intro s rest as
    simp only [Rd.times, Rd.bind_ok_iff, hx, ih]
    constructor
    · intro h
      obtain ⟨a, _, ⟨b, hb, rfl⟩, as', _, ⟨hlen, parts, hp, rfl⟩, h⟩ := h
      cases h
      exact ⟨by simp [hlen], b :: parts, .cons hb hp, by simp⟩
    · intro h
      obtain ⟨hlen, parts, hp, rfl⟩ := h
      cases hp with
      | nil => simp at hlen
      | @cons a b as' parts' hb hp =>
        refine ⟨a, parts'.flatten ++ rest, ⟨b, hb, by simp⟩, as', rest, ⟨by simpa using hlen, parts', hp, rfl⟩, rfl⟩

/-- Decoding what a reader of padded strings has read. -/
theorem decoded_ok_iff {L : Limits} {x : Rd ε (List UInt8) (List UInt8)} {bad : ε}
    (hx : ∀ {s rest b : List UInt8}, x.run s = (.ok b, rest) ↔ ∃ bs, EncBytes L b bs ∧ s = bs ++ rest)
    {s rest : List UInt8} {t : Str} :
    (do
      let b ← x
      match fromUtf8 b with
      | some t => return t
      | none => Rd.fail bad).run s = (.ok t, rest) ↔ ∃ bs, EncBytes L (utf8 t) bs ∧ s = bs ++ rest := by
  simp only [Rd.bind_ok_iff, hx]
  constructor
  · intro h
    obtain ⟨b, r, ⟨bs, hbs, rfl⟩, h⟩ := h
    cases hb : fromUtf8 b with
    | none => rw [hb] at h; cases h
    | some t' =>
      rw [hb] at h
      cases h
      exact ⟨bs, (utf8_of_fromUtf8 hb).symm ▸ hbs, rfl⟩
  · intro h
    obtain ⟨bs, hbs, rfl⟩ := h
    exact ⟨utf8 t, rest, ⟨bs, hbs, rfl⟩, by rw [fromUtf8_utf8]; rfl⟩

/-- Reading a count and that many elements, their room allocated first. -/
theorem counted_ok_iff {word : Rd ε (List UInt8) UInt64} {reserve : Nat → Rd ε (List UInt8) Unit}
    {x : Rd ε (List UInt8) α} {E : α → List UInt8 → Prop} {room size : Nat}
    (hword : ∀ {s rest : List UInt8} {w : UInt64}, word.run s = (.ok w, rest) ↔ s = wordBytes w ++ rest)
    (hreserve : ∀ {n : Nat} {s rest : List UInt8} {u : Unit}, (reserve n).run s = (.ok u, rest) ↔ n ≤ room ∧ s = rest)
    (hx : ∀ {s rest : List UInt8} {a : α}, x.run s = (.ok a, rest) ↔ ∃ bs, E a bs ∧ s = bs ++ rest)
    {s rest : List UInt8} {as : List α} :
    (do
      let n ← word
      reserve (n.toNat * size)
      Rd.times n.toNat x).run s = (.ok as, rest) ↔
      ∃ bs, (as.length < 2 ^ 64 ∧ as.length * size ≤ room ∧ ∃ parts : List (List UInt8), List.Forall₂ E as parts ∧
        bs = wordBytes (UInt64.ofNat as.length) ++ parts.flatten) ∧ s = bs ++ rest := by
  simp only [Rd.bind_ok_iff, hword, hreserve, times_ok_iff hx]
  constructor
  · intro h
    obtain ⟨w, _, rfl, _, _, ⟨hroom, rfl⟩, hlen, parts, hp, rfl⟩ := h
    have hw : UInt64.ofNat as.length = w := by rw [hlen]; simp
    exact ⟨_, ⟨hlen ▸ w.toNat_lt, hlen ▸ hroom, parts, hp, rfl⟩, by simp [hw]⟩
  · intro h
    obtain ⟨_, ⟨hlt, hroom, parts, hp, rfl⟩, rfl⟩ := h
    have hw : (UInt64.ofNat as.length).toNat = as.length := UInt64.toNat_ofNat_of_lt hlt
    exact ⟨_, parts.flatten ++ rest, by simp, (), _, ⟨hw.symm ▸ hroom, rfl⟩, hw.symm, parts, hp, rfl⟩

section

variable {L : Limits} {P : Prims ε (List UInt8)} (hP : P.Lawful L)

include hP

theorem reserve_ok_iff {n : Nat} {s rest : List UInt8} {u : Unit} :
    (P.reserve n).run s = (.ok u, rest) ↔ n ≤ L.room ∧ s = rest := by
  rw [hP.reserve_eq]
  split
  · rename_i h
    simp [Nat.not_le.mpr h]
  · rename_i h
    simp [Nat.not_lt.mp h]

theorem text_ok_iff {s rest : List UInt8} {t : Str} :
    P.text.run s = (.ok t, rest) ↔ ∃ bs, EncBytes L (utf8 t) bs ∧ s = bs ++ rest :=
  decoded_ok_iff hP.bytes_ok

/-- Parsing succeeds exactly on the encodings, and consumes exactly one. -/
theorem parse_ok_iff {f : Fmt} : ∀ {s rest : List UInt8} {v : f.Val},
    (f.parse P).run s = (.ok v, rest) ↔ ∃ bs, f.Enc L v bs ∧ s = bs ++ rest := by
  induction f with
  | unit =>
    intro s rest v
    simp [Fmt.parse, Fmt.Enc]
  | word => intro s rest v; simp [Fmt.parse, Fmt.Enc, hP.word_ok]
  | flag =>
    intro s rest v
    simp only [Fmt.parse, Fmt.Enc, Rd.bind_ok_iff, hP.word_ok, Rd.run_pure]
    constructor
    · intro h
      obtain ⟨w, _, rfl, h⟩ := h
      cases h
      exact ⟨wordBytes w, ⟨w, rfl, rfl⟩, rfl⟩
    · intro h
      obtain ⟨_, ⟨w, rfl, rfl⟩, rfl⟩ := h
      exact ⟨w, rest, rfl, rfl⟩
  | junk =>
    intro s rest v
    simp only [Fmt.parse, Fmt.Enc, Rd.bind_ok_iff, hP.word_ok, Rd.run_pure]
    constructor
    · intro h
      obtain ⟨w, _, rfl, h⟩ := h
      cases h
      exact ⟨wordBytes w, ⟨w, rfl⟩, rfl⟩
    · intro h
      obtain ⟨_, ⟨w, rfl⟩, rfl⟩ := h
      exact ⟨w, rest, rfl, rfl⟩
  | str => exact text_ok_iff hP
  | bytes => exact hP.bytes_ok
  | framed => exact hP.framed_ok
  | blob =>
    intro s rest n
    simp only [Fmt.parse, Fmt.Enc, hP.blob_eq, Rd.map_ok_iff, hP.framed_ok]
    constructor
    · intro h
      obtain ⟨b, ⟨bs, hbs, rfl⟩, rfl⟩ := h
      exact ⟨bs, ⟨b, rfl, hbs⟩, rfl⟩
    · intro h
      obtain ⟨bs, ⟨b, rfl, hbs⟩, rfl⟩ := h
      exact ⟨b, ⟨bs, hbs, rfl⟩, rfl⟩
  | gate c f ih =>
    intro s rest v
    cases c with
    | false => cases v <;> simp [Fmt.parse, Fmt.Enc]
    | true =>
      simp only [Fmt.parse, if_true, Rd.map_ok_iff, ih]
      cases v <;> simp [Fmt.Enc]
  | alt f g ihf ihg =>
    intro s rest v
    simp only [Fmt.parse, Rd.bind_ok_iff, hP.word_ok]
    constructor
    · intro h
      obtain ⟨w, r, rfl, h⟩ := h
      split at h
      · rename_i hw
        obtain ⟨a, ha, rfl⟩ := Rd.map_ok_iff.mp h
        obtain ⟨b, hb, rfl⟩ := ihf.mp ha
        rw [beq_iff_eq.mp hw]
        exact ⟨wordBytes 0 ++ b, ⟨b, hb, rfl⟩, by simp⟩
      · rename_i hw
        obtain ⟨a, ha, rfl⟩ := Rd.map_ok_iff.mp h
        obtain ⟨b, hb, rfl⟩ := ihg.mp ha
        exact ⟨wordBytes w ++ b, ⟨w, b, by simpa using hw, hb, rfl⟩, by simp⟩
    · intro h
      obtain ⟨_, h, rfl⟩ := h
      cases v with
      | inl v =>
        obtain ⟨b, hb, rfl⟩ := h
        exact ⟨0, b ++ rest, by simp, Rd.map_ok_iff.mpr ⟨v, ihf.mpr ⟨b, hb, rfl⟩, rfl⟩⟩
      | inr v =>
        obtain ⟨w, b, hw, hb, rfl⟩ := h
        refine ⟨w, b ++ rest, by simp, ?_⟩
        rw [if_neg (by simpa using hw)]
        exact Rd.map_ok_iff.mpr ⟨v, ihg.mpr ⟨b, hb, rfl⟩, rfl⟩
  | many size f ih =>
    exact counted_ok_iff hP.word_ok (reserve_ok_iff hP) ih
  | seq f g ihf ihg =>
    intro s rest v
    simp only [Fmt.parse, Rd.bind_ok_iff, ihf, ihg, Fmt.Enc, Rd.run_pure]
    constructor
    · intro h
      obtain ⟨a, _, ⟨b₁, h₁, rfl⟩, b, _, ⟨b₂, h₂, rfl⟩, h⟩ := h
      cases h
      exact ⟨b₁ ++ b₂, ⟨b₁, b₂, h₁, h₂, rfl⟩, by simp⟩
    · intro h
      obtain ⟨_, ⟨b₁, b₂, h₁, h₂, rfl⟩, rfl⟩ := h
      exact ⟨v.1, b₂ ++ rest, ⟨b₁, h₁, by simp⟩, v.2, rest, ⟨b₂, h₂, rfl⟩, rfl⟩

theorem Layout.parse_ok_iff {l : Layout α} {s rest : List UInt8} {a : α} :
    (l.parse P).run s = (.ok a, rest) ↔ ∃ v bs, l.fmt.Enc L v bs ∧ l.of v = a ∧ s = bs ++ rest := by
  simp only [Layout.parse, Rd.map_ok_iff, NixWire.Base.parse_ok_iff hP]
  constructor
  · intro h
    obtain ⟨v, ⟨bs, hbs, hs⟩, ha⟩ := h
    exact ⟨v, bs, hbs, ha, hs⟩
  · intro h
    obtain ⟨v, bs, hbs, ha, hs⟩ := h
    exact ⟨v, ⟨bs, hbs, hs⟩, ha⟩

/-- An encoding carries one value, and no other encoding starts the same stream. -/
theorem Fmt.Enc.unique {f : Fmt} {v v' : f.Val} {bs bs' rest rest' : List UInt8} (h : f.Enc L v bs)
    (h' : f.Enc L v' bs') (heq : bs ++ rest = bs' ++ rest') : v = v' ∧ bs = bs' ∧ rest = rest' := by
  have h₁ : (f.parse P).run (bs ++ rest) = (.ok v, rest) := (parse_ok_iff hP).mpr ⟨bs, h, rfl⟩
  have h₂ : (f.parse P).run (bs' ++ rest') = (.ok v', rest') := (parse_ok_iff hP).mpr ⟨bs', h', rfl⟩
  rw [heq, h₂] at h₁
  cases h₁
  exact ⟨rfl, List.append_cancel_right heq, rfl⟩

end

/-! ## Failure -/

section

variable {L : Limits} {P : Prims ε (List UInt8)} (hP : P.Lawful L)

include hP

theorem reserve_tidy (n : Nat) : (P.reserve n).Tidy := by
  intro s rest o h
  rw [hP.reserve_eq] at h
  split at h
  · cases h; exact Or.inr rfl
  · cases h

theorem text_stop {s rest : List UInt8} {o : Stop ε} (h : P.text.run s = (.stop o, rest)) : ∃ e, o = .err e := by
  rw [Prims.text, Rd.bind_stop_iff] at h
  rcases h with h | ⟨b, r, _, h⟩
  · exact hP.bytes_stop h
  · split at h
    · cases h
    · cases h; exact ⟨_, rfl⟩

theorem parse_tidy (f : Fmt) : (f.parse P).Tidy := by
  have hword : P.word.Tidy := .of_err hP.word_stop
  induction f with
  | unit => exact .pure ()
  | word => exact hword
  | flag => exact hword.bind fun w => .pure (w != 0)
  | junk => exact hword.bind fun _ => .pure ()
  | str => exact .of_err (text_stop hP)
  | bytes => exact .of_err hP.bytes_stop
  | framed => exact .of_err hP.framed_stop
  | blob =>
    rw [Fmt.parse, hP.blob_eq]
    exact (Rd.Tidy.of_err hP.framed_stop).map _
  | gate c f ih => exact Rd.Tidy.ite (ih.map some) (.pure none)
  | alt f g ihf ihg => exact hword.bind fun w => Rd.Tidy.ite (ihf.map Sum.inl) (ihg.map Sum.inr)
  | many size f ih => exact hword.bind fun n => (reserve_tidy hP _).bind fun _ => ih.times n.toNat
  | seq f g ihf ihg => exact ihf.bind fun a => ihg.bind fun b => .pure (a, b)

end

/-! ## Asking for too much room -/

/-- Walking `s` by the format, one comes to a count that asks for more than `L.room`. -/
def Fmt.Asks (L : Limits) : Fmt → List UInt8 → Prop
  | .gate c f, s => c = true ∧ f.Asks L s
  | .alt f g, s => ∃ (w : UInt64) (rest : List UInt8), s = wordBytes w ++ rest ∧
      (w = 0 ∧ f.Asks L rest ∨ w ≠ 0 ∧ g.Asks L rest)
  | .many size f, s => ∃ (w : UInt64) (rest : List UInt8), s = wordBytes w ++ rest ∧
      (L.room < w.toNat * size ∨
        ∃ (vs : List f.Val) (parts : List (List UInt8)) (rest' : List UInt8), List.Forall₂ (f.Enc L) vs parts ∧
          vs.length < w.toNat ∧ rest = parts.flatten ++ rest' ∧ f.Asks L rest')
  | .seq f g, s => f.Asks L s ∨ ∃ (v : f.Val) (bs rest : List UInt8), f.Enc L v bs ∧ s = bs ++ rest ∧ g.Asks L rest
  | _, _ => False

/-- No list in it allocates anything up front. -/
def Fmt.Free : Fmt → Prop
  | .gate _ f => f.Free
  | .alt f g => f.Free ∧ g.Free
  | .many size f => size = 0 ∧ f.Free
  | .seq f g => f.Free ∧ g.Free
  | _ => True

theorem Fmt.Free.not_asks {L : Limits} {f : Fmt} : ∀ {s : List UInt8}, f.Free → ¬f.Asks L s := by
  induction f with
  | gate c f ih => exact fun h hs => ih h hs.2
  | alt f g ihf ihg =>
    rintro s h ⟨w, rest, _, ⟨_, hs⟩ | ⟨_, hs⟩⟩
    · exact ihf h.1 hs
    · exact ihg h.2 hs
  | many size f ih =>
    rintro s ⟨rfl, h⟩ ⟨w, rest, _, hs | ⟨_, _, _, _, _, _, hs⟩⟩
    · omega
    · exact ih h hs
  | seq f g ihf ihg =>
    rintro s h (hs | ⟨_, _, _, _, _, hs⟩)
    · exact ihf h.1 hs
    · exact ihg h.2 hs
  | _ => exact fun _ hs => hs

section

variable {L : Limits} {P : Prims ε (List UInt8)} (hP : P.Lawful L)

include hP

theorem reserve_panics_iff {n : Nat} {s : List UInt8} : (P.reserve n).Panics s ↔ L.room < n := by
  rw [hP.reserve_eq]
  split
  · rename_i h
    exact ⟨fun _ => h, fun _ => ⟨.capacityOverflow, s, rfl⟩⟩
  · rename_i h
    simp [h]

theorem parse_panics_iff {f : Fmt} : ∀ {s : List UInt8}, (f.parse P).Panics s ↔ f.Asks L s := by
  have hword : ∀ s, ¬P.word.Panics s := fun s => Rd.not_panics_of_stop hP.word_stop
  induction f with
  | unit => intro s; simp [Fmt.parse, Fmt.Asks]
  | word => exact fun {s} => ⟨fun h => hword s h, False.elim⟩
  | flag => intro s; simp [Fmt.parse, Fmt.Asks, Rd.panics_map, hword]
  | junk => intro s; simp [Fmt.parse, Fmt.Asks, Rd.panics_map, hword]
  | str => exact fun {s} => ⟨fun h => Rd.not_panics_of_stop (text_stop hP) h, False.elim⟩
  | bytes => exact fun {s} => ⟨fun h => Rd.not_panics_of_stop hP.bytes_stop h, False.elim⟩
  | framed => exact fun {s} => ⟨fun h => Rd.not_panics_of_stop hP.framed_stop h, False.elim⟩
  | blob =>
    intro s
    rw [Fmt.parse, hP.blob_eq, Rd.panics_map]
    exact ⟨fun h => Rd.not_panics_of_stop hP.framed_stop h, False.elim⟩
  | gate c f ih =>
    intro s
    cases c <;> simp [Fmt.parse, Fmt.Asks, Rd.panics_map, ih]
  | alt f g ihf ihg =>
    intro s
    simp only [Fmt.parse, Fmt.Asks, Rd.panics_bind, hword, false_or, hP.word_ok]
    refine exists_congr fun w => exists_congr fun rest => and_congr_right fun _ => ?_
    by_cases hw : w = 0 <;> simp [hw, Rd.panics_map, ihf, ihg]
  | many size f ih =>
    intro s
    simp only [Fmt.parse, Fmt.Asks, Rd.panics_bind, hword, false_or, hP.word_ok, reserve_panics_iff hP,
      reserve_ok_iff hP, Rd.panics_times, ih, times_ok_iff (parse_ok_iff hP)]
    constructor
    · intro h
      obtain ⟨w, rest, rfl, h | ⟨_, _, ⟨_, rfl⟩, vs, rest', hlt, ⟨_, parts, hp, rfl⟩, ha⟩⟩ := h
      · exact ⟨w, rest, rfl, Or.inl h⟩
      · exact ⟨w, _, rfl, Or.inr ⟨vs, parts, rest', hp, hlt, rfl, ha⟩⟩
    · intro h
      obtain ⟨w, rest, rfl, h | ⟨vs, parts, rest', hp, hlt, rfl, ha⟩⟩ := h
      · exact ⟨w, rest, rfl, Or.inl h⟩
      · refine ⟨w, _, rfl, ?_⟩
        by_cases hroom : L.room < w.toNat * size
        · exact Or.inl hroom
        · exact Or.inr ⟨(), _, ⟨Nat.not_lt.mp hroom, rfl⟩, vs, rest', hlt, ⟨trivial, parts, hp, rfl⟩, ha⟩
  | seq f g ihf ihg =>
    intro s
    simp only [Fmt.parse, Fmt.Asks, Rd.panics_bind, ihf, ihg, Rd.panics_pure, and_false, exists_false, or_false,
      parse_ok_iff hP]
    constructor
    · rintro (h | ⟨v, rest, ⟨bs, hbs, rfl⟩, h⟩)
      · exact Or.inl h
      · exact Or.inr ⟨v, bs, rest, hbs, rfl, h⟩
    · rintro (h | ⟨v, bs, rest, hbs, rfl, h⟩)
      · exact Or.inl h
      · exact Or.inr ⟨v, rest, ⟨bs, hbs, rfl⟩, h⟩

end

/-! ## Skipping -/

/-- `g` is `f` as one skips it: some strings not decoded, some blobs not kept, less room taken up front. -/
inductive Fmt.Skips : Fmt → Fmt → Prop where
  | refl (f : Fmt) : Skips f f
  | str : Skips .str .bytes
  | framed : Skips .framed .blob
  | word : Skips .word .junk
  | flag : Skips .flag .junk
  | gate {f g : Fmt} (c : Bool) : Skips f g → Skips (.gate c f) (.gate c g)
  | alt {f f' g g' : Fmt} : Skips f f' → Skips g g' → Skips (.alt f g) (.alt f' g')
  | many {f g : Fmt} {size size' : Nat} : size' ≤ size → Skips f g → Skips (.many size f) (.many size' g)
  | seq {f f' g g' : Fmt} : Skips f f' → Skips g g' → Skips (.seq f g) (.seq f' g')

/-- The room allocated for an element is at most `k` times the bytes it takes. -/
def Fmt.Dense (k : Nat) : Fmt → Prop
  | .gate _ f => f.Dense k
  | .alt f g => f.Dense k ∧ g.Dense k
  | .many size f => size ≤ k * f.minSize ∧ f.Dense k
  | .seq f g => f.Dense k ∧ g.Dense k
  | _ => True

theorem Fmt.Skips.minSize {f g : Fmt} (h : f.Skips g) : f.minSize = g.minSize := by
  induction h with
  | refl f => rfl
  | str => rfl
  | framed => rfl
  | word => rfl
  | flag => rfl
  | gate c _ ih => simp [Fmt.minSize, ih]
  | alt _ _ _ _ => rfl
  | many _ _ _ => rfl
  | seq _ _ ihf ihg => simp [Fmt.minSize, ihf, ihg]

theorem forall₂_exists {p : α → β → Prop} {q : S → β → Prop} (h : ∀ a b, p a b → ∃ c, q c b) :
    ∀ {as : List α} {bs : List β}, List.Forall₂ p as bs → ∃ cs : List S, cs.length = as.length ∧ List.Forall₂ q cs bs
  | _, _, .nil => ⟨[], rfl, .nil⟩
  | _, _, .cons hab hr => by
    obtain ⟨c, hc⟩ := h _ _ hab
    obtain ⟨cs, hlen, hcs⟩ := forall₂_exists h hr
    exact ⟨c :: cs, by simp [hlen], .cons hc hcs⟩

theorem Fmt.Skips.enc {L : Limits} {f g : Fmt} (h : f.Skips g) :
    ∀ {v : f.Val} {bs : List UInt8}, f.Enc L v bs → ∃ v' : g.Val, g.Enc L v' bs := by
  induction h with
  | refl f => exact fun {v _} h => ⟨v, h⟩
  | str => exact fun {v _} h => ⟨utf8 v, h⟩
  | framed => exact fun {v _} h => ⟨UInt64.ofNat v.length, v, rfl, h⟩
  | word => exact fun {w _} h => ⟨(), w, h⟩
  | flag => rintro v bs ⟨w, _, h⟩; exact ⟨(), w, h⟩
  | gate c _ ih =>
    intro v bs h
    cases v with
    | none => exact ⟨none, h⟩
    | some v =>
      obtain ⟨v', hv'⟩ := ih h.2
      exact ⟨some v', h.1, hv'⟩
  | alt _ _ ihf ihg =>
    intro v bs h
    cases v with
    | inl v =>
      obtain ⟨b, h, hbs⟩ := h
      obtain ⟨v', hv'⟩ := ihf h
      exact ⟨.inl v', b, hv', hbs⟩
    | inr v =>
      obtain ⟨w, b, hw, h, hbs⟩ := h
      obtain ⟨v', hv'⟩ := ihg h
      exact ⟨.inr v', w, b, hw, hv', hbs⟩
  | @many f g size size' hsize _ ih =>
    rintro vs bs ⟨hlt, hroom, parts, hp, hbs⟩
    obtain ⟨vs', hlen, hp'⟩ := forall₂_exists (fun _ _ h => ih h) hp
    refine ⟨vs', hlen ▸ hlt, ?_, parts, hp', hlen ▸ hbs⟩
    calc vs'.length * size' ≤ vs.length * size := by rw [hlen]; exact Nat.mul_le_mul_left _ hsize
      _ ≤ L.room := hroom
  | seq _ _ ihf ihg =>
    rintro v bs ⟨b₁, b₂, h₁, h₂, hbs⟩
    obtain ⟨v₁, hv₁⟩ := ihf h₁
    obtain ⟨v₂, hv₂⟩ := ihg h₂
    exact ⟨(v₁, v₂), b₁, b₂, hv₁, hv₂, hbs⟩

/-- `x` succeeds and leaves `rest`, or stops at the error `e`. -/
def ReadsOr (e : ε) (x : Rd ε (List UInt8) α) (s rest : List UInt8) : Prop :=
  (∃ v, x.run s = (.ok v, rest)) ∨ ∃ r, x.run s = (.stop (.err e), r)

theorem ReadsOr.bind {e : ε} {x : Rd ε (List UInt8) α} {f : α → Rd ε (List UInt8) β} {s rest rest' : List UInt8}
    (hx : ReadsOr e x s rest) (hf : ∀ a, x.run s = (.ok a, rest) → ReadsOr e (f a) rest rest') :
    ReadsOr e (x >>= f) s rest' := by
  rcases hx with ⟨a, ha⟩ | ⟨r, hr⟩
  · rcases hf a ha with ⟨b, hb⟩ | ⟨r, hr⟩
    · exact Or.inl ⟨b, by rw [Rd.bind_ok ha, hb]⟩
    · exact Or.inr ⟨r, by rw [Rd.bind_ok ha, hr]⟩
  · exact Or.inr ⟨r, Rd.bind_stop hr⟩

theorem ReadsOr.pure {e : ε} (a : α) (s : List UInt8) : ReadsOr e (Pure.pure a) s s := Or.inl ⟨a, rfl⟩

theorem ReadsOr.map {e : ε} {x : Rd ε (List UInt8) α} {s rest : List UInt8} (hx : ReadsOr e x s rest) (f : α → β) :
    ReadsOr e (f <$> x) s rest := by
  rw [map_eq_pure_bind]
  exact hx.bind fun a _ => ReadsOr.pure (f a) rest

section

variable {L : Limits} {P : Prims ε (List UInt8)} (hP : P.Lawful L)

include hP

theorem parse_skips {f g : Fmt} (hfg : f.Skips g) {s rest : List UInt8} {v : f.Val}
    (h : (f.parse P).run s = (.ok v, rest)) : ∃ v', (g.parse P).run s = (.ok v', rest) := by
  obtain ⟨bs, hbs, rfl⟩ := (parse_ok_iff hP).mp h
  obtain ⟨v', hv'⟩ := hfg.enc hbs
  exact ⟨v', (parse_ok_iff hP).mpr ⟨bs, hv', rfl⟩⟩

theorem parse_length_le {f : Fmt} {s rest : List UInt8} {v : f.Val} (h : (f.parse P).run s = (.ok v, rest)) :
    f.minSize + rest.length ≤ s.length := by
  obtain ⟨bs, hbs, rfl⟩ := (parse_ok_iff hP).mp h
  have := hbs.minSize_le
  simp only [List.length_append]
  omega

theorem times_readsOr {f g : Fmt} {k : Nat}
    (ih : ∀ {s rest : List UInt8} {v : g.Val}, k * s.length ≤ L.room → (g.parse P).run s = (.ok v, rest) →
      ReadsOr P.badText (f.parse P) s rest) (n : Nat) :
    ∀ {s rest : List UInt8} {vs : List g.Val}, k * s.length ≤ L.room →
      (Rd.times n (g.parse P)).run s = (.ok vs, rest) → ReadsOr P.badText (Rd.times n (f.parse P)) s rest := by
  induction n with
  | zero =>
    intro s rest vs _ h
    cases h
    exact ReadsOr.pure [] s
  | succ n ihn =>
    intro s rest vs hroom h
    obtain ⟨v, s', hv, h⟩ := Rd.bind_ok_iff.mp h
    obtain ⟨vs', s'', hvs, h⟩ := Rd.bind_ok_iff.mp h
    cases h
    have hle : s'.length ≤ s.length := by
      have := parse_length_le hP hv
      omega
    have hroom' : k * s'.length ≤ L.room := (Nat.mul_le_mul_left k hle).trans hroom
    exact (ih hroom hv).bind fun a _ => (ihn hroom' hvs).bind fun as _ => ReadsOr.pure (a :: as) rest

/-- What can be skipped can be read, up to an undecodable string. -/
theorem skips_parse {k : Nat} {f g : Fmt} (hfg : f.Skips g) : ∀ {s rest : List UInt8} {v : g.Val}, f.Dense k →
    k * s.length ≤ L.room → (g.parse P).run s = (.ok v, rest) → ReadsOr P.badText (f.parse P) s rest := by
  induction hfg with
  | refl f => exact fun {s rest v} _ _ h => Or.inl ⟨v, h⟩
  | str =>
    intro s rest b _ _ h
    rw [Fmt.parse, Prims.text]
    refine ReadsOr.bind (Or.inl ⟨b, h⟩ : ReadsOr P.badText P.bytes s rest) fun b _ => ?_
    split
    · exact ReadsOr.pure _ rest
    · exact Or.inr ⟨rest, rfl⟩
  | framed =>
    intro s rest n _ _ h
    rw [Fmt.parse, hP.blob_eq] at h
    obtain ⟨b, hb, _⟩ := Rd.map_ok_iff.mp h
    exact Or.inl ⟨b, hb⟩
  | word =>
    intro s rest n _ _ h
    obtain ⟨w, s', hw, h⟩ := Rd.bind_ok_iff.mp h
    cases h
    exact Or.inl ⟨w, hw⟩
  | flag =>
    intro s rest n _ _ h
    obtain ⟨w, s', hw, h⟩ := Rd.bind_ok_iff.mp h
    cases h
    exact Or.inl ⟨w != 0, Rd.bind_ok hw⟩
  | gate c _ ih =>
    intro s rest v hd hroom h
    cases c with
    | false =>
      cases h
      exact ReadsOr.pure none _
    | true =>
      obtain ⟨a, ha, _⟩ := Rd.map_ok_iff.mp h
      exact (ih hd hroom ha).map some
  | alt _ _ ihf ihg =>
    intro s rest v hd hroom h
    obtain ⟨w, s', hw, h⟩ := Rd.bind_ok_iff.mp h
    have hroom' : k * s'.length ≤ L.room := by
      refine le_trans (Nat.mul_le_mul_left k ?_) hroom
      rw [hP.word_ok.mp hw]
      simp
    refine ReadsOr.bind (Or.inl ⟨w, hw⟩) fun w' hw' => ?_
    cases hw.symm.trans hw'
    split at h
    · rename_i h0
      rw [if_pos h0]
      obtain ⟨a, ha, _⟩ := Rd.map_ok_iff.mp h
      exact (ihf hd.1 hroom' ha).map Sum.inl
    · rename_i h0
      rw [if_neg h0]
      obtain ⟨a, ha, _⟩ := Rd.map_ok_iff.mp h
      exact (ihg hd.2 hroom' ha).map Sum.inr
  | @many f g size size' hsize hfg ih =>
    intro s rest vs hd hroom h
    obtain ⟨w, s', hw, h⟩ := Rd.bind_ok_iff.mp h
    obtain ⟨_, s'', hres, hvs⟩ := Rd.bind_ok_iff.mp h
    obtain ⟨_, rfl⟩ := (reserve_ok_iff hP).mp hres
    have hs : s'.length ≤ s.length := by
      rw [hP.word_ok.mp hw]
      simp
    have hroom' : k * s'.length ≤ L.room := (Nat.mul_le_mul_left k hs).trans hroom
    obtain ⟨hlen, parts, hp, hflat⟩ := (times_ok_iff (parse_ok_iff hP) w.toNat).mp hvs
    have hparts : w.toNat * f.minSize ≤ s'.length := by
      have := forall₂_flatten_length (fun _ _ h => Fmt.Enc.minSize_le h) hp
      rw [hlen, ← hfg.minSize] at this
      rw [hflat, List.length_append]
      omega
    have hask : w.toNat * size ≤ L.room := by
      calc w.toNat * size ≤ w.toNat * (k * f.minSize) := Nat.mul_le_mul_left _ hd.1
        _ = k * (w.toNat * f.minSize) := by ring
        _ ≤ k * s'.length := Nat.mul_le_mul_left k hparts
        _ ≤ L.room := hroom'
    refine ReadsOr.bind (Or.inl ⟨w, hw⟩) fun w' hw' => ?_
    cases hw.symm.trans hw'
    refine ReadsOr.bind (Or.inl ⟨(), (reserve_ok_iff hP).mpr ⟨hask, rfl⟩⟩) fun _ _ => ?_
    exact times_readsOr hP (fun hr h => ih hd.2 hr h) w.toNat hroom' hvs
  | seq _ _ ihf ihg =>
    intro s rest v hd hroom h
    obtain ⟨a, s', ha, h⟩ := Rd.bind_ok_iff.mp h
    obtain ⟨b, s'', hb, h⟩ := Rd.bind_ok_iff.mp h
    cases h
    have hle : s'.length ≤ s.length := by
      have := parse_length_le hP ha
      omega
    have hroom' : k * s'.length ≤ L.room := (Nat.mul_le_mul_left k hle).trans hroom
    exact (ihf hd.1 hroom ha).bind fun a _ => (ihg hd.2 hroom' hb).bind fun b _ => ReadsOr.pure (a, b) rest

end

/-! ## Two readers -/

section

variable {C : {α : Type} → Rd ε R α → Rd ε S α → Prop}

/-- The primitives of the two streams correspond. -/
structure Prims.Related (C : {α : Type} → Rd ε R α → Rd ε S α → Prop) (P : Prims ε R) (Q : Prims ε S) : Prop where
  word : C P.word Q.word
  bytes : C P.bytes Q.bytes
  framed : C P.framed Q.framed
  blob : C P.blob Q.blob
  reserve : ∀ n, C (P.reserve n) (Q.reserve n)
  badText : P.badText = Q.badText

theorem Prims.Related.text {P : Prims ε R} {Q : Prims ε S} (hPQ : P.Related C Q) (h : Congruence C) : C P.text Q.text := by
  refine h.bind hPQ.bytes fun b => ?_
  cases fromUtf8 b with
  | some t => exact h.pure t
  | none =>
    rw [hPQ.badText]
    exact h.fail Q.badText

theorem parse_congr (h : Congruence C) {P : Prims ε R} {Q : Prims ε S} (hPQ : P.Related C Q) (f : Fmt) :
    C (f.parse P) (f.parse Q) := by
  induction f with
  | unit => exact h.pure ()
  | word => exact hPQ.word
  | flag => exact h.bind hPQ.word fun w => h.pure (w != 0)
  | junk => exact h.bind hPQ.word fun _ => h.pure ()
  | str => exact hPQ.text h
  | bytes => exact hPQ.bytes
  | framed => exact hPQ.framed
  | blob => exact hPQ.blob
  | gate c f ih => exact Congruence.ite (h.map some ih) (h.pure none)
  | alt f g ihf ihg => exact h.bind hPQ.word fun w => Congruence.ite (h.map Sum.inl ihf) (h.map Sum.inr ihg)
  | many size f ih => exact h.bind hPQ.word fun n => h.bind (hPQ.reserve _) fun _ => h.times ih n.toNat
  | seq f g ihf ihg => exact h.bind ihf fun a => h.bind ihg fun b => h.pure (a, b)

end

/-- The primitives read forward. -/
abbrev Prims.Forward (P : Prims ε (List UInt8)) : Prop := P.Related (fun {_} x _ => Base.Forward x) P

theorem parse_forward {P : Prims ε (List UInt8)} (h : P.Forward) (f : Fmt) : Forward (f.parse P) :=
  parse_congr forward_congruence h f

theorem parse_rel {ρ : R → S → Prop} {P : Prims ε R} {Q : Prims ε S} (h : P.Related (fun {α} => @Rel ε R S α ρ) Q) (f : Fmt) :
    Rel ρ (f.parse P) (f.parse Q) := parse_congr rel_congruence h f

end NixWire.Base
