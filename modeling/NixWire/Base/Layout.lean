/-
  NixWire.Base.Layout — wire formats made of words, padded strings, counted lists and
  chunked blobs.

  A `Fmt` describes a message field by field: words (some only tested against zero, some
  ignored), length-prefixed strings padded to eight bytes, chunked blobs, fields a version
  gates, fields behind a flag, counted lists. `Fmt.Val` is the type of what it carries.
  - `Enc` is the format itself: the byte strings that carry a value. Padding bytes, the
    words behind flags and ignored words, and the cut of a blob into chunks are free.
  - `write` is the writer's choice among them: zero padding, flags 0 or 1, ignored words
    zero, chunks of one size.

  Proved here:
  - `enc_write` / `Enc.fits`: a value has an encoding exactly when it fits, and then the
    writer's is one.
  - `Enc.refit`: for values without blobs, other limits only change what fits.
  - `Enc.minSize_le`: an encoding takes at least `minSize` bytes; without blobs it is made of
    whole words (`Enc.aligned`).
  - `Enc.same`: an encoding without blobs differs from the writer's only in padding, flag
    words and ignored words, each taking the same room in both.
-/

import Mathlib.Data.List.Forall2
import NixWire.Base.Bytes
import NixWire.Base.Utf8

namespace NixWire.Base

/-! ## Formats and their values -/

inductive Fmt where
  | unit
  | word
  /-- A word read as a boolean. -/
  | flag
  /-- A word nobody looks at. -/
  | junk
  | str
  /-- A string nobody decodes. -/
  | bytes
  | framed
  /-- A blob nobody keeps: only its length is counted. -/
  | blob
  /-- Present exactly when `c` holds. -/
  | gate (c : Bool) (f : Fmt)
  /-- A word, followed by `f` when it is zero and by `g` otherwise. -/
  | alt (f g : Fmt)
  /-- A count, then that many `f`; the reader allocates `size` bytes for each up front. -/
  | many (size : Nat) (f : Fmt)
  | seq (f g : Fmt)

namespace Fmt

@[reducible] def Val : Fmt → Type
  | unit => Unit
  | word => UInt64
  | flag => Bool
  | junk => Unit
  | str => Str
  | bytes => List UInt8
  | framed => List UInt8
  | blob => UInt64
  | gate _ f => Option f.Val
  | alt f g => f.Val ⊕ g.Val
  | many _ f => List f.Val
  | seq f g => f.Val × g.Val

/-- The fewest bytes an encoding takes. -/
def minSize : Fmt → Nat
  | unit => 0
  | gate c f => if c then f.minSize else 0
  | seq f g => f.minSize + g.minSize
  | _ => 8

/-- No blob in it. -/
def Unframed : Fmt → Prop
  | framed => False
  | blob => False
  | gate c f => c = true → f.Unframed
  | alt f g => f.Unframed ∧ g.Unframed
  | many _ f => f.Unframed
  | seq f g => f.Unframed ∧ g.Unframed
  | _ => True

end Fmt

/-- The sizes a format is read and written with. -/
structure Limits where
  /-- The longest string, and the longest chunk, a reader takes. -/
  text : Nat
  /-- The most bytes one allocation may ask for. -/
  room : Nat
  /-- The size of the writer's chunks. -/
  chunk : Nat
  text_lt : text < 2 ^ 64
  chunk_pos : 0 < chunk
  chunk_le : chunk ≤ text

/-! ## Encodings -/

/-- Bytes that bring `n` up to a multiple of eight. -/
def padLen (n : Nat) : Nat := (8 - n % 8) % 8

def lenWord (b : List UInt8) : List UInt8 := wordBytes (UInt64.ofNat b.length)

/-- One chunk of a blob. -/
def chunkBytes (c : List UInt8) : List UInt8 := lenWord c ++ c

@[simp] theorem lenWord_length (b : List UInt8) : (lenWord b).length = 8 := wordBytes_length _

section

variable (L : Limits)

def EncBytes (b bs : List UInt8) : Prop :=
  b.length ≤ L.text ∧ ∃ pad : List UInt8, pad.length = padLen b.length ∧ bs = lenWord b ++ b ++ pad

def EncFramed (b bs : List UInt8) : Prop :=
  ∃ cs : List (List UInt8), (∀ c ∈ cs, c ≠ [] ∧ c.length ≤ L.text) ∧ b = cs.flatten ∧
    bs = cs.flatMap chunkBytes ++ wordBytes 0

namespace Fmt

/-- `bs` carries `v`. -/
def Enc : (f : Fmt) → f.Val → List UInt8 → Prop
  | unit, _, bs => bs = []
  | word, w, bs => bs = wordBytes w
  | flag, b, bs => ∃ w : UInt64, b = (w != 0) ∧ bs = wordBytes w
  | junk, _, bs => ∃ w : UInt64, bs = wordBytes w
  | str, t, bs => EncBytes L (utf8 t) bs
  | bytes, b, bs => EncBytes L b bs
  | framed, b, bs => EncFramed L b bs
  | blob, n, bs => ∃ b : List UInt8, n = UInt64.ofNat b.length ∧ EncFramed L b bs
  | gate c f, some v, bs => c = true ∧ f.Enc v bs
  | gate c _, none, bs => c = false ∧ bs = []
  | alt f _, .inl v, bs => ∃ b : List UInt8, f.Enc v b ∧ bs = wordBytes 0 ++ b
  | alt _ g, .inr v, bs => ∃ (w : UInt64) (b : List UInt8), w ≠ 0 ∧ g.Enc v b ∧ bs = wordBytes w ++ b
  | many size f, vs, bs => vs.length < 2 ^ 64 ∧ vs.length * size ≤ L.room ∧
      ∃ parts : List (List UInt8), List.Forall₂ f.Enc vs parts ∧
        bs = wordBytes (UInt64.ofNat vs.length) ++ parts.flatten
  | seq f g, v, bs => ∃ b₁ b₂ : List UInt8, f.Enc v.1 b₁ ∧ g.Enc v.2 b₂ ∧ bs = b₁ ++ b₂

/-- `v` can be encoded: strings and lists short enough, gated fields present as gated. -/
def Fits : (f : Fmt) → f.Val → Prop
  | str, t => (utf8 t).length ≤ L.text
  | bytes, b => b.length ≤ L.text
  | gate c f, some v => c = true ∧ f.Fits v
  | gate c _, none => c = false
  | alt f _, .inl v => f.Fits v
  | alt _ g, .inr v => g.Fits v
  | many size f, vs => vs.length < 2 ^ 64 ∧ vs.length * size ≤ L.room ∧ ∀ v ∈ vs, f.Fits v
  | seq f g, v => f.Fits v.1 ∧ g.Fits v.2
  | _, _ => True

end Fmt

/-! ## The writer -/

def chunksGo {α : Type} (n : Nat) : Nat → List α → List (List α)
  | 0, _ => []
  | fuel + 1, l => if l.isEmpty then [] else l.take n :: chunksGo n fuel (l.drop n)

/-- `l` cut into pieces of `n` elements, the last one possibly shorter. -/
def chunks {α : Type} (n : Nat) (l : List α) : List (List α) := chunksGo n l.length l

def writePadded (b : List UInt8) : List UInt8 := lenWord b ++ b ++ List.replicate (padLen b.length) 0

def writeBlob (b : List UInt8) : List UInt8 := (chunks L.chunk b).flatMap chunkBytes ++ wordBytes 0

/-- The encoding a writer chooses. -/
def Fmt.write : (f : Fmt) → f.Val → List UInt8
  | .unit, _ => []
  | .word, w => wordBytes w
  | .flag, b => wordBytes (if b then 1 else 0)
  | .junk, _ => wordBytes 0
  | .str, t => writePadded (utf8 t)
  | .bytes, b => writePadded b
  | .framed, b => writeBlob L b
  | .blob, n => writeBlob L (List.replicate n.toNat 0)
  | .gate _ f, some v => f.write v
  | .gate _ _, none => []
  | .alt f _, .inl v => wordBytes 0 ++ f.write v
  | .alt _ g, .inr v => wordBytes 1 ++ g.write v
  | .many _ f, vs => wordBytes (UInt64.ofNat vs.length) ++ vs.flatMap f.write
  | .seq f g, v => f.write v.1 ++ g.write v.2

theorem chunksGo_spec {α : Type} {n : Nat} (hn : 0 < n) :
    ∀ (fuel : Nat) (l : List α), l.length ≤ fuel →
      (∀ c ∈ chunksGo n fuel l, c ≠ [] ∧ c.length ≤ n) ∧ (chunksGo n fuel l).flatten = l := by
  intro fuel
  induction fuel with
  | zero =>
    intro l hl
    obtain rfl : l = [] := List.length_eq_zero_iff.mp (by omega)
    simp [chunksGo]
  | succ fuel ih =>
    intro l hl
    rw [chunksGo]
    by_cases he : l = []
    · simp [he]
    have hpos : 0 < l.length := List.length_pos_iff.mpr he
    rw [if_neg (by simpa using he)]
    obtain ⟨hc, hf⟩ := ih (l.drop n) (by simp; omega)
    constructor
    · intro c hm
      rcases List.mem_cons.mp hm with rfl | hm
      · refine ⟨?_, by simp⟩
        intro h0
        rcases List.take_eq_nil_iff.mp h0 with h0 | h0
        · omega
        · exact he h0
      · exact hc c hm
    · rw [List.flatten_cons, hf, List.take_append_drop]

theorem chunks_spec {α : Type} {n : Nat} (hn : 0 < n) (l : List α) :
    (∀ c ∈ chunks n l, c ≠ [] ∧ c.length ≤ n) ∧ (chunks n l).flatten = l :=
  chunksGo_spec hn l.length l (Nat.le_refl _)

theorem encBytes_writePadded {b : List UInt8} (h : b.length ≤ L.text) : EncBytes L b (writePadded b) :=
  ⟨h, List.replicate (padLen b.length) 0, by simp, rfl⟩

theorem encFramed_writeBlob (b : List UInt8) : EncFramed L b (writeBlob L b) := by
  obtain ⟨hc, hf⟩ := chunks_spec L.chunk_pos b
  exact ⟨chunks L.chunk b, fun c hm => ⟨(hc c hm).1, (hc c hm).2.trans L.chunk_le⟩, hf.symm, rfl⟩

/-- A value that fits is carried by what the writer writes. -/
theorem enc_write : (f : Fmt) → (v : f.Val) → f.Fits L v → f.Enc L v (f.write L v)
  | .unit, _, _ => rfl
  | .word, _, _ => rfl
  | .flag, b, _ => ⟨if b then 1 else 0, by cases b <;> decide, rfl⟩
  | .junk, _, _ => ⟨0, rfl⟩
  | .str, _, h => encBytes_writePadded L h
  | .bytes, _, h => encBytes_writePadded L h
  | .framed, b, _ => encFramed_writeBlob L b
  | .blob, n, _ => ⟨List.replicate n.toNat 0, by simp, encFramed_writeBlob L _⟩
  | .gate _ f, some v, h => ⟨h.1, enc_write f v h.2⟩
  | .gate _ _, none, h => ⟨h, rfl⟩
  | .alt f _, .inl v, h => ⟨f.write L v, enc_write f v h, rfl⟩
  | .alt _ g, .inr v, h => ⟨1, g.write L v, by decide, enc_write g v h, rfl⟩
  | .many _ f, vs, h => by
    refine ⟨h.1, h.2.1, vs.map (f.write L), ?_, by simp [Fmt.write, List.flatMap]⟩
    rw [List.forall₂_map_right_iff, List.forall₂_same]
    exact fun v hv => enc_write f v (h.2.2 v hv)
  | .seq f g, v, h => ⟨f.write L v.1, g.write L v.2, enc_write f v.1 h.1, enc_write g v.2 h.2, rfl⟩

variable {L}

theorem forall₂_mem_left {α β : Type} {p : α → β → Prop} {q : α → Prop} (h : ∀ a b, p a b → q a) :
    ∀ {as : List α} {bs : List β}, List.Forall₂ p as bs → ∀ a ∈ as, q a
  | _, _, .nil, _, hm => by cases hm
  | _, _, .cons hab hr, a, hm => by
    rcases List.mem_cons.mp hm with rfl | hm
    · exact h _ _ hab
    · exact forall₂_mem_left h hr a hm

theorem Fmt.Enc.fits {f : Fmt} : ∀ {v : f.Val} {bs : List UInt8}, f.Enc L v bs → f.Fits L v := by
  induction f with
  | unit => intros; trivial
  | word => intros; trivial
  | flag => intros; trivial
  | junk => intros; trivial
  | framed => intros; trivial
  | blob => intros; trivial
  | str => exact fun h => h.1
  | bytes => exact fun h => h.1
  | gate c f ih =>
    intro v bs h
    cases v with
    | none => exact h.1
    | some v => exact ⟨h.1, ih h.2⟩
  | alt f g ihf ihg =>
    intro v bs h
    cases v with
    | inl v =>
      obtain ⟨_, h, _⟩ := h
      exact ihf h
    | inr v =>
      obtain ⟨_, _, _, h, _⟩ := h
      exact ihg h
  | many size f ih =>
    rintro vs bs ⟨h₁, h₂, parts, hp, _⟩
    exact ⟨h₁, h₂, forall₂_mem_left (fun _ _ h => ih h) hp⟩
  | seq f g ihf ihg =>
    rintro v bs ⟨_, _, h₁, h₂, _⟩
    exact ⟨ihf h₁, ihg h₂⟩

theorem Fmt.Fits.mono {L' : Limits} (ht : L.text ≤ L'.text) (hr : L.room ≤ L'.room) {f : Fmt} :
    ∀ {v : f.Val}, f.Fits L v → f.Fits L' v := by
  induction f with
  | unit => intros; trivial
  | word => intros; trivial
  | flag => intros; trivial
  | junk => intros; trivial
  | framed => intros; trivial
  | blob => intros; trivial
  | str => exact fun h => h.trans ht
  | bytes => exact fun h => h.trans ht
  | gate c f ih =>
    intro v h
    cases v with
    | none => exact h
    | some v => exact ⟨h.1, ih h.2⟩
  | alt f g ihf ihg =>
    intro v h
    cases v with
    | inl v => exact ihf h
    | inr v => exact ihg h
  | many size f ih => exact fun h => ⟨h.1, h.2.1.trans hr, fun v hv => ih (h.2.2 v hv)⟩
  | seq f g ihf ihg => exact fun h => ⟨ihf h.1, ihg h.2⟩

/-- Without blobs, other limits allow the same encodings of the values that fit them. -/
theorem Fmt.Enc.refit {L' : Limits} {f : Fmt} :
    ∀ {v : f.Val} {bs : List UInt8}, f.Unframed → f.Fits L' v → f.Enc L v bs → f.Enc L' v bs := by
  induction f with
  | unit => exact fun _ _ h => h
  | word => exact fun _ _ h => h
  | flag => exact fun _ _ h => h
  | junk => exact fun _ _ h => h
  | framed => exact fun hu => hu.elim
  | blob => exact fun hu => hu.elim
  | str => exact fun _ hf h => ⟨hf, h.2⟩
  | bytes => exact fun _ hf h => ⟨hf, h.2⟩
  | gate c f ih =>
    intro v bs hu hf h
    cases v with
    | none => exact h
    | some v => exact ⟨h.1, ih (hu h.1) hf.2 h.2⟩
  | alt f g ihf ihg =>
    intro v bs hu hf h
    cases v with
    | inl v =>
      obtain ⟨b, h, hbs⟩ := h
      exact ⟨b, ihf hu.1 hf h, hbs⟩
    | inr v =>
      obtain ⟨w, b, hw, h, hbs⟩ := h
      exact ⟨w, b, hw, ihg hu.2 hf h, hbs⟩
  | many size f ih =>
    intro vs bs hu hf h
    obtain ⟨hlt, _, parts, hp, hbs⟩ := h
    refine ⟨hlt, hf.2.1, parts, ?_, hbs⟩
    rw [List.forall₂_iff_zip] at hp ⊢
    exact ⟨hp.1, fun hm => ih hu (hf.2.2 _ (List.of_mem_zip hm).1) (hp.2 hm)⟩
  | seq f g ihf ihg =>
    intro v bs hu hf h
    obtain ⟨b₁, b₂, h₁, h₂, hbs⟩ := h
    exact ⟨b₁, b₂, ihf hu.1 hf.1 h₁, ihg hu.2 hf.2 h₂, hbs⟩

theorem forall₂_flatten_length {α : Type} {p : α → List UInt8 → Prop} {k : Nat} (h : ∀ a b, p a b → k ≤ b.length)
    {as : List α} {bs : List (List UInt8)} (hp : List.Forall₂ p as bs) : as.length * k ≤ bs.flatten.length := by
  induction hp with
  | nil => simp
  | @cons a b as bs hab _ ih =>
    have hb : k ≤ b.length := h a b hab
    simp only [List.length_cons, List.flatten_cons, List.length_append, Nat.succ_mul]
    omega

theorem EncBytes.length_ge {b bs : List UInt8} (h : EncBytes L b bs) : 8 ≤ bs.length := by
  obtain ⟨_, pad, _, rfl⟩ := h
  simp only [List.length_append, lenWord_length]
  omega

theorem flatten_length_le (cs : List (List UInt8)) : cs.flatten.length ≤ (cs.flatMap chunkBytes).length := by
  induction cs with
  | nil => simp
  | cons c cs ih =>
    simp only [List.flatten_cons, List.flatMap_cons, List.length_append, chunkBytes]
    omega

theorem EncFramed.length_le {b bs : List UInt8} (h : EncFramed L b bs) : b.length ≤ bs.length := by
  obtain ⟨cs, _, rfl, rfl⟩ := h
  rw [List.length_append]
  exact (flatten_length_le cs).trans (Nat.le_add_right _ _)

theorem Fmt.Enc.minSize_le {f : Fmt} : ∀ {v : f.Val} {bs : List UInt8}, f.Enc L v bs → f.minSize ≤ bs.length := by
  induction f with
  | unit => intros; exact Nat.zero_le _
  | word => rintro v _ rfl; simp [Fmt.minSize]
  | flag => rintro v _ ⟨_, _, rfl⟩; simp [Fmt.minSize]
  | junk => rintro v _ ⟨_, rfl⟩; simp [Fmt.minSize]
  | str => exact fun h => h.length_ge
  | bytes => exact fun h => h.length_ge
  | framed => rintro v _ ⟨_, _, _, rfl⟩; simp [Fmt.minSize]
  | blob => rintro v _ ⟨_, _, _, _, _, rfl⟩; simp [Fmt.minSize]
  | gate c f ih =>
    intro v bs h
    cases v with
    | none => obtain ⟨rfl, _⟩ := h; exact Nat.zero_le _
    | some v => obtain ⟨rfl, h⟩ := h; exact ih h
  | alt f g _ _ =>
    intro v bs h
    cases v with
    | inl v => obtain ⟨_, _, rfl⟩ := h; simp [Fmt.minSize]
    | inr v => obtain ⟨_, _, _, _, rfl⟩ := h; simp [Fmt.minSize]
  | many size f ih => rintro vs _ ⟨_, _, _, _, rfl⟩; simp [Fmt.minSize]
  | seq f g ihf ihg =>
    rintro v _ ⟨_, _, h₁, h₂, rfl⟩
    have := ihf h₁
    have := ihg h₂
    simp only [Fmt.minSize, List.length_append]
    omega

theorem EncBytes.aligned {b bs : List UInt8} (h : EncBytes L b bs) : 8 ∣ bs.length := by
  obtain ⟨_, pad, hpad, rfl⟩ := h
  simp only [List.length_append, lenWord_length, hpad, padLen]
  omega

theorem flatten_aligned {parts : List (List UInt8)} (h : ∀ p ∈ parts, 8 ∣ p.length) : 8 ∣ parts.flatten.length := by
  induction parts with
  | nil => exact Nat.dvd_zero 8
  | cons p parts ih =>
    obtain ⟨hp, hparts⟩ := List.forall_mem_cons.mp h
    rw [List.flatten_cons, List.length_append]
    exact Nat.dvd_add hp (ih hparts)

/-- Without blobs, an encoding is made of whole words. -/
theorem Fmt.Enc.aligned {f : Fmt} (hf : f.Unframed) : ∀ {v : f.Val} {bs : List UInt8}, f.Enc L v bs → 8 ∣ bs.length := by
  induction f with
  | unit => rintro _ _ rfl; exact Nat.dvd_zero 8
  | word => rintro v _ rfl; simp
  | flag => rintro _ _ ⟨w, _, rfl⟩; simp
  | junk => rintro _ _ ⟨w, rfl⟩; simp
  | str => exact fun h => EncBytes.aligned h
  | bytes => exact fun h => EncBytes.aligned h
  | framed => exact hf.elim
  | blob => exact hf.elim
  | gate c f ih =>
    intro v bs h
    cases v with
    | none =>
      obtain ⟨_, rfl⟩ := h
      exact Nat.dvd_zero 8
    | some v => exact ih (hf h.1) h.2
  | alt f g ihf ihg =>
    intro v bs h
    cases v with
    | inl v =>
      obtain ⟨b, hb, rfl⟩ := h
      rw [List.length_append, wordBytes_length]
      exact Nat.dvd_add (Nat.dvd_refl 8) (ihf hf.1 hb)
    | inr v =>
      obtain ⟨w, b, _, hb, rfl⟩ := h
      rw [List.length_append, wordBytes_length]
      exact Nat.dvd_add (Nat.dvd_refl 8) (ihg hf.2 hb)
  | many size f ih =>
    rintro vs bs ⟨_, _, parts, hp, rfl⟩
    rw [List.length_append, wordBytes_length]
    exact Nat.dvd_add (Nat.dvd_refl 8) (flatten_aligned (forall₂_mem_left (fun _ _ h => ih hf h) hp.flip))
  | seq f g ihf ihg =>
    rintro v _ ⟨b₁, b₂, h₁, h₂, rfl⟩
    rw [List.length_append]
    exact Nat.dvd_add (ihf hf.1 h₁) (ihg hf.2 h₂)

/-! ## What a rewrite keeps -/

def SameBytes (bs bs' : List UInt8) : Prop :=
  ∃ b pad : List UInt8, pad.length = padLen b.length ∧ bs = lenWord b ++ b ++ pad ∧ bs' = writePadded b

/-- `bs'` is `bs` with padding zeroed, flag words made 0 or 1 and ignored words zeroed. -/
def Fmt.Same : Fmt → List UInt8 → List UInt8 → Prop
  | .unit, bs, bs' => bs = [] ∧ bs' = []
  | .word, bs, bs' => ∃ w : UInt64, bs = wordBytes w ∧ bs' = wordBytes w
  | .flag, bs, bs' => ∃ w : UInt64, bs = wordBytes w ∧ bs' = wordBytes (if w = 0 then 0 else 1)
  | .junk, bs, bs' => ∃ w : UInt64, bs = wordBytes w ∧ bs' = wordBytes 0
  | .str, bs, bs' => SameBytes bs bs'
  | .bytes, bs, bs' => SameBytes bs bs'
  | .framed, _, _ => False
  | .blob, _, _ => False
  | .gate c f, bs, bs' => if c then f.Same bs bs' else bs = [] ∧ bs' = []
  | .alt f g, bs, bs' =>
      (∃ b b' : List UInt8, f.Same b b' ∧ bs = wordBytes 0 ++ b ∧ bs' = wordBytes 0 ++ b') ∨
      ∃ (w : UInt64) (b b' : List UInt8), w ≠ 0 ∧ g.Same b b' ∧ bs = wordBytes w ++ b ∧ bs' = wordBytes 1 ++ b'
  | .many _ f, bs, bs' => ∃ parts parts' : List (List UInt8), List.Forall₂ f.Same parts parts' ∧
      bs = wordBytes (UInt64.ofNat parts.length) ++ parts.flatten ∧
      bs' = wordBytes (UInt64.ofNat parts.length) ++ parts'.flatten
  | .seq f g, bs, bs' => ∃ b₁ b₂ b₁' b₂' : List UInt8, f.Same b₁ b₁' ∧ g.Same b₂ b₂' ∧ bs = b₁ ++ b₂ ∧ bs' = b₁' ++ b₂'

theorem EncBytes.same {b bs : List UInt8} (h : EncBytes L b bs) : SameBytes bs (writePadded b) := by
  obtain ⟨_, pad, hpad, hbs⟩ := h
  exact ⟨b, pad, hpad, hbs, rfl⟩

theorem Fmt.Enc.same {f : Fmt} :
    ∀ {v : f.Val} {bs : List UInt8}, f.Unframed → f.Enc L v bs → f.Same bs (f.write L v) := by
  induction f with
  | unit => exact fun _ h => ⟨h, rfl⟩
  | word => exact fun {w} _ _ h => ⟨w, h, rfl⟩
  | flag =>
    rintro v bs _ ⟨w, rfl, h⟩
    refine ⟨w, h, ?_⟩
    by_cases hw : w = 0 <;> simp [Fmt.write, hw]
  | junk => rintro v bs _ ⟨w, h⟩; exact ⟨w, h, rfl⟩
  | str => exact fun _ h => EncBytes.same h
  | bytes => exact fun _ h => EncBytes.same h
  | framed => exact fun hu _ => hu.elim
  | blob => exact fun hu _ => hu.elim
  | gate c f ih =>
    intro v bs hu h
    cases v with
    | none => obtain ⟨rfl, h⟩ := h; exact ⟨h, rfl⟩
    | some v => obtain ⟨rfl, h⟩ := h; exact ih (hu rfl) h
  | alt f g ihf ihg =>
    intro v bs hu h
    cases v with
    | inl v =>
      obtain ⟨b, h, hbs⟩ := h
      exact Or.inl ⟨b, _, ihf hu.1 h, hbs, rfl⟩
    | inr v =>
      obtain ⟨w, b, hw, h, hbs⟩ := h
      exact Or.inr ⟨w, b, _, hw, ihg hu.2 h, hbs, rfl⟩
  | many size f ih =>
    rintro vs bs hu ⟨_, _, parts, hp, hbs⟩
    have hlen : vs.length = parts.length := hp.length_eq
    refine ⟨parts, vs.map (f.write L), ?_, hlen ▸ hbs, by rw [← hlen]; simp [Fmt.write, List.flatMap]⟩
    rw [List.forall₂_map_right_iff]
    exact hp.flip.imp fun _ _ h => ih hu h
  | seq f g ihf ihg =>
    rintro v bs hu ⟨b₁, b₂, h₁, h₂, hbs⟩
    exact ⟨b₁, b₂, _, _, ihf hu.1 h₁, ihg hu.2 h₂, hbs, rfl⟩

theorem SameBytes.length {bs bs' : List UInt8} (h : SameBytes bs bs') : bs'.length = bs.length := by
  obtain ⟨b, pad, hpad, rfl, rfl⟩ := h
  simp [writePadded, hpad]

theorem forall₂_flatten_length_eq {p : List UInt8 → List UInt8 → Prop} (h : ∀ a b, p a b → b.length = a.length) :
    ∀ {as bs : List (List UInt8)}, List.Forall₂ p as bs → bs.flatten.length = as.flatten.length
  | _, _, .nil => rfl
  | _, _, .cons hab hr => by
    simp only [List.flatten_cons, List.length_append, h _ _ hab, forall₂_flatten_length_eq h hr]

theorem Fmt.Same.length {f : Fmt} : ∀ {bs bs' : List UInt8}, f.Same bs bs' → bs'.length = bs.length := by
  induction f with
  | unit => rintro _ _ ⟨rfl, rfl⟩; rfl
  | word => rintro _ _ ⟨w, rfl, rfl⟩; rfl
  | flag => rintro _ _ ⟨w, rfl, rfl⟩; simp
  | junk => rintro _ _ ⟨w, rfl, rfl⟩; simp
  | str => exact fun h => SameBytes.length h
  | bytes => exact fun h => SameBytes.length h
  | framed => exact fun h => h.elim
  | blob => exact fun h => h.elim
  | gate c f ih =>
    intro bs bs' h
    cases c with
    | false => obtain ⟨rfl, rfl⟩ := h; rfl
    | true => exact ih h
  | alt f g ihf ihg =>
    rintro _ _ (⟨_, _, hs, rfl, rfl⟩ | ⟨_, _, _, _, hs, rfl, rfl⟩)
    · simp [ihf hs]
    · simp [ihg hs]
  | many size f ih =>
    rintro _ _ ⟨_, _, hp, rfl, rfl⟩
    rw [List.length_append, List.length_append, forall₂_flatten_length_eq (fun _ _ h => ih h) hp]
  | seq f g ihf ihg =>
    rintro _ _ ⟨_, _, _, _, h₁, h₂, rfl, rfl⟩
    simp [ihf h₁, ihg h₂]

end

end NixWire.Base
