/-
  NixWire.WireSync — the blocking readers of wire.rs beside the async ones (wire_async.rs).

  Both read the same layouts, but the blocking readers take strings of up to 64 MiB and
  the async ones of up to 256 MiB. So they read alike exactly the streams that do not
  start with something holding a string between the two (`readers_alike`), and what
  `write_bytes` and `write_string_set` wrote is read alike unless it holds one.
-/

import NixWire.Base.Padded
import NixWire.Negotiation

namespace NixWire

open Base

namespace WireSync

/-! ## The blocking readers -/

inductive Error where
  | readU64
  | stringTooLong (len : UInt64)
  | stringData
  | stringPadding
  | notUtf8
  deriving DecidableEq, Repr

/-- The error's outermost text. -/
def Error.message : Error → Str
  | readU64 => "failed to read u64 from wire".toList
  | stringTooLong len => "wire string too long: ".toList ++ decimal len.toNat ++ " bytes".toList
  | stringData => "failed to read wire string data".toList
  | stringPadding => "failed to read wire string padding".toList
  | notUtf8 => "wire string is not valid UTF-8".toList

def reserve {R : Type} (bytes : Nat) : Rd Error R Unit :=
  if isizeMax < bytes then Rd.abort .capacityOverflow else pure ()

section

variable {R : Type} [BufRead R]

def readU64 : Rd Error R UInt64 := do
  let buf ← readExact .readU64 8
  return wordOf buf

def readBytes : Rd Error R (List UInt8) := do
  let len ← readU64
  if len > 64 * 1024 * 1024 then Rd.fail (.stringTooLong len)
  else
    let buf ← readExact .stringData len.toNat
    let padding := (8 - len % 8) % 8
    if padding > 0 then
      let _ ← readExact .stringPadding padding.toNat
      return buf
    else return buf

def readString : Rd Error R Str := do
  let bytes ← readBytes
  match fromUtf8 bytes with
  | some s => return s
  | none => Rd.fail .notUtf8

def readStringSet : Rd Error R (List Str) := do
  let count ← readU64
  reserve (count.toNat * stringSize)
  Rd.times count.toNat readString

end

/-- The lengths these readers take. -/
def syncLimits : Limits where
  text := 64 * 1024 * 1024
  room := isizeMax
  chunk := 64 * 1024
  text_lt := by decide
  chunk_pos := wireLimits.chunk_pos
  chunk_le := by decide

variable {s rest : List UInt8}

theorem readBytes_ok_iff {b : List UInt8} :
    readBytes.run s = (.ok b, rest) ↔ ∃ bs, EncBytes syncLimits b bs ∧ s = bs ++ rest :=
  readPadded_ok_iff (L := syncLimits) (by decide)

theorem readString_ok_iff {t : Str} :
    readString.run s = (.ok t, rest) ↔ ∃ bs, EncBytes syncLimits (utf8 t) bs ∧ s = bs ++ rest :=
  decoded_ok_iff readBytes_ok_iff

theorem reserve_ok_iff {n : Nat} {u : Unit} : (reserve n).run s = (.ok u, rest) ↔ n ≤ isizeMax ∧ s = rest := by
  unfold reserve
  split
  · rename_i h
    simp [Nat.not_le.mpr h]
  · rename_i h
    simp [Nat.not_lt.mp h]

theorem readStringSet_ok_iff {l : List Str} :
    readStringSet.run s = (.ok l, rest) ↔ ∃ bs, setFmt.Enc syncLimits l bs ∧ s = bs ++ rest :=
  counted_ok_iff readWord_ok_iff reserve_ok_iff readString_ok_iff

/-! ## Reading alike -/

/-- From `s`, both readers return the same values and leave the same rest, or neither returns. -/
def ReadAlike {ε ε' α : Type} (x : Rd ε (List UInt8) α) (y : Rd ε' (List UInt8) α) (s : List UInt8) : Prop :=
  ∀ v rest, x.run s = (.ok v, rest) ↔ y.run s = (.ok v, rest)

/-- `s` starts with the encoding of a value that the async readers take and for which `p` holds. -/
def Starts (f : Fmt) (p : f.Val → Prop) (s : List UInt8) : Prop :=
  ∃ (v : f.Val) (bs rest : List UInt8), f.Enc wireLimits v bs ∧ s = bs ++ rest ∧ p v

/-- Longer than the blocking readers take. -/
def TooLong (b : List UInt8) : Prop := 64 * 1024 * 1024 < b.length

theorem Starts.congr {f : Fmt} {p q : f.Val → Prop} (h : ∀ v, f.Fits wireLimits v → (p v ↔ q v)) :
    Starts f p s ↔ Starts f q s := by
  unfold Starts
  constructor
  · intro hs
    obtain ⟨v, bs, rest, henc, hs, hp⟩ := hs
    exact ⟨v, bs, rest, henc, hs, (h v henc.fits).mp hp⟩
  · intro hs
    obtain ⟨v, bs, rest, henc, hs, hq⟩ := hs
    exact ⟨v, bs, rest, henc, hs, (h v henc.fits).mpr hq⟩

/-- A string is the bytes it stands for, where they are text. -/
theorem starts_str_iff {p : Str → Prop} : Starts .str p s ↔ Starts .bytes (fun b => ∃ t, utf8 t = b ∧ p t) s := by
  constructor
  · intro hs
    obtain ⟨t, bs, rest, henc, hs, hp⟩ := hs
    exact ⟨utf8 t, bs, rest, henc, hs, t, rfl, hp⟩
  · intro hs
    obtain ⟨_, bs, rest, henc, hs, t, rfl, hp⟩ := hs
    exact ⟨t, bs, rest, henc, hs, hp⟩

theorem sync_le_wire : syncLimits.text ≤ wireLimits.text := by decide

/-- Readers of one layout read alike unless the stream starts with what only the wider limits take. -/
theorem alike_iff {ε : Type} {f : Fmt} (hu : f.Unframed) {x : Rd ε (List UInt8) f.Val} {y : Rd WireError (List UInt8) f.Val}
    (hx : ∀ {s rest : List UInt8} {v : f.Val}, x.run s = (.ok v, rest) ↔ ∃ bs, f.Enc syncLimits v bs ∧ s = bs ++ rest)
    (hy : ∀ {s rest : List UInt8} {v : f.Val}, y.run s = (.ok v, rest) ↔ ∃ bs, f.Enc wireLimits v bs ∧ s = bs ++ rest) :
    ReadAlike x y s ↔ ¬Starts f (fun v => ¬f.Fits syncLimits v) s := by
  constructor
  · intro h hs
    obtain ⟨v, bs, rest, henc, hs, hfit⟩ := hs
    obtain ⟨_, henc', _⟩ := hx.mp ((h v rest).mpr (hy.mpr ⟨bs, henc, hs⟩))
    exact hfit henc'.fits
  · intro h v rest
    constructor
    · intro hv
      obtain ⟨bs, henc, hs⟩ := hx.mp hv
      exact hy.mpr ⟨bs, henc.refit hu (henc.fits.mono sync_le_wire (Nat.le_refl _)), hs⟩
    · intro hv
      obtain ⟨bs, henc, hs⟩ := hy.mp hv
      have hfit : f.Fits syncLimits v := by
        by_contra hc
        exact h ⟨v, bs, rest, henc, hs, hc⟩
      exact hx.mpr ⟨bs, henc.refit hu hfit, hs⟩

theorem readBytes_alike : ReadAlike readBytes NixWire.readBytes s ↔ ¬Starts .bytes TooLong s := by
  have h := alike_iff (f := .bytes) (s := s) trivial readBytes_ok_iff NixWire.readBytes_ok_iff
  rw [h]
  exact not_congr (Starts.congr fun b _ => Nat.not_le)

theorem readString_alike :
    ReadAlike readString NixWire.readString s ↔ ¬Starts .str (fun t => TooLong (utf8 t)) s := by
  have h := alike_iff (f := .str) (s := s) trivial readString_ok_iff (text_ok_iff wirePrims_lawful)
  refine Iff.trans h ?_
  exact not_congr (Starts.congr fun t _ => Nat.not_le)

theorem set_fits_iff {l : List Str} (h : setFmt.Fits wireLimits l) :
    ¬setFmt.Fits syncLimits l ↔ ∃ t ∈ l, TooLong (utf8 t) := by
  have hiff : setFmt.Fits syncLimits l ↔ ∀ t ∈ l, (utf8 t).length ≤ 64 * 1024 * 1024 :=
    ⟨fun hs => hs.2.2, fun hs => ⟨h.1, h.2.1, hs⟩⟩
  rw [hiff]
  simp only [not_forall, not_le, exists_prop, TooLong]

theorem readStringSet_alike : ReadAlike readStringSet NixWire.readStringSet s ↔
    ¬Starts setFmt (fun l => ∃ t ∈ l, TooLong (utf8 t)) s := by
  have h := alike_iff (f := setFmt) (s := s) trivial readStringSet_ok_iff (parse_ok_iff wirePrims_lawful)
  refine Iff.trans h ?_
  exact not_congr (Starts.congr fun l hl => set_fits_iff hl)

/-! ## What was written -/

/-- The lengths a writer can be asked for. -/
def memoryLimits : Limits where
  text := isizeMax
  room := isizeMax
  chunk := 64 * 1024
  text_lt := by decide
  chunk_pos := wireLimits.chunk_pos
  chunk_le := by decide

/-- Written bytes start with an encoding only of the value written. -/
theorem starts_write_iff {ε : Type} {f : Fmt} (hu : f.Unframed) {x : Rd ε (List UInt8) f.Val}
    (hx : ∀ {s rest : List UInt8} {v : f.Val}, x.run s = (.ok v, rest) ↔ ∃ bs, f.Enc memoryLimits v bs ∧ s = bs ++ rest)
    {w : f.Val} (hw : f.Fits memoryLimits w) {p : f.Val → Prop} :
    Starts f p (f.write memoryLimits w ++ rest) ↔ f.Fits wireLimits w ∧ p w := by
  have hrun : x.run (f.write memoryLimits w ++ rest) = (.ok w, rest) := hx.mpr ⟨_, enc_write _ f w hw, rfl⟩
  constructor
  · intro hs
    obtain ⟨v, bs, rest', henc, hs, hp⟩ := hs
    have henc' : f.Enc memoryLimits v bs := henc.refit hu (henc.fits.mono (by decide) (Nat.le_refl isizeMax))
    rw [hs, hx.mpr ⟨bs, henc', rfl⟩] at hrun
    cases hrun
    exact ⟨henc.fits, hp⟩
  · intro hs
    exact ⟨w, _, rest, (enc_write _ f w hw).refit hu hs.1, rfl, hs.2⟩

/-- A reader of every string that was written. -/
def readWritten : Rd Error (List UInt8) (List UInt8) :=
  readPadded (UInt64.ofNat isizeMax) .readU64 .stringTooLong .stringData .stringPadding

def readWrittenSet : Rd Error (List UInt8) (List Str) := do
  let count ← readU64
  reserve (count.toNat * stringSize)
  Rd.times count.toNat do
    let bytes ← readWritten
    match fromUtf8 bytes with
    | some s => return s
    | none => Rd.fail .notUtf8

theorem readWritten_ok_iff {b : List UInt8} :
    readWritten.run s = (.ok b, rest) ↔ ∃ bs, EncBytes memoryLimits b bs ∧ s = bs ++ rest :=
  readPadded_ok_iff (L := memoryLimits) (by decide)

theorem readWrittenSet_ok_iff {l : List Str} :
    readWrittenSet.run s = (.ok l, rest) ↔ ∃ bs, setFmt.Enc memoryLimits l bs ∧ s = bs ++ rest :=
  counted_ok_iff readWord_ok_iff reserve_ok_iff (decoded_ok_iff readWritten_ok_iff)

theorem starts_writeBytes_iff {data : List UInt8} (h : data.length ≤ isizeMax) {p : List UInt8 → Prop} :
    Starts .bytes p (writeBytes data ++ rest) ↔ data.length ≤ 256 * 1024 * 1024 ∧ p data := by
  rw [writeBytes_eq]
  exact starts_write_iff (f := .bytes) trivial readWritten_ok_iff h

theorem starts_writeStringSet_iff {strings : List Str} (h : InMemory strings) {p : List Str → Prop} :
    Starts setFmt p (writeStringSet strings ++ rest) ↔ (∀ t ∈ strings, (utf8 t).length ≤ 256 * 1024 * 1024) ∧ p strings := by
  have hlt : strings.length < 2 ^ 64 := by
    have := h.1
    simp only [stringSize, isizeMax] at this
    omega
  have hfits : setFmt.Fits wireLimits strings ↔ ∀ t ∈ strings, (utf8 t).length ≤ 256 * 1024 * 1024 :=
    ⟨fun hs => hs.2.2, fun hs => ⟨hlt, h.1, hs⟩⟩
  rw [writeStringSet_eq, ← hfits]
  exact starts_write_iff (f := setFmt) trivial readWrittenSet_ok_iff ⟨hlt, h.1, h.2⟩

/-- The streams the two kinds of reader read alike, and what of the writers' output is among them. -/
theorem readers_alike (s : List UInt8) :
    (ReadAlike readBytes NixWire.readBytes s ↔ ¬Starts .bytes TooLong s) ∧
    (ReadAlike readString NixWire.readString s ↔ ¬Starts .str (fun t => TooLong (utf8 t)) s) ∧
    (ReadAlike readStringSet NixWire.readStringSet s ↔ ¬Starts setFmt (fun l => ∃ t ∈ l, TooLong (utf8 t)) s) ∧
    (∀ data rest : List UInt8, data.length ≤ isizeMax → s = writeBytes data ++ rest →
      (ReadAlike readBytes NixWire.readBytes s ↔ ¬(data.length ≤ 256 * 1024 * 1024 ∧ TooLong data)) ∧
      (ReadAlike readString NixWire.readString s ↔
        ¬(data.length ≤ 256 * 1024 * 1024 ∧ TooLong data ∧ ∃ t, utf8 t = data))) ∧
    (∀ (strings : List Str) (rest : List UInt8), InMemory strings → s = writeStringSet strings ++ rest →
      (ReadAlike readStringSet NixWire.readStringSet s ↔
        ¬((∀ t ∈ strings, (utf8 t).length ≤ 256 * 1024 * 1024) ∧ ∃ t ∈ strings, TooLong (utf8 t)))) := by
  refine ⟨readBytes_alike, readString_alike, readStringSet_alike, ?_, ?_⟩
  · intro data rest h hs
    rw [hs]
    refine ⟨?_, ?_⟩
    · rw [readBytes_alike, starts_writeBytes_iff h]
    · rw [readString_alike, starts_str_iff, starts_writeBytes_iff h]
      refine not_congr (and_congr_right fun _ => ?_)
      constructor
      · intro ht
        obtain ⟨t, ht, hlong⟩ := ht
        exact ⟨ht ▸ hlong, t, ht⟩
      · intro ht
        obtain ⟨hlong, t, ht⟩ := ht
        exact ⟨t, ht, ht.symm ▸ hlong⟩
  · intro strings rest h hs
    rw [hs, readStringSet_alike, starts_writeStringSet_iff h]

/-- A short string and a set of one are read alike. -/
theorem readers_alike_hi :
    ReadAlike readBytes NixWire.readBytes (writeBytes [104, 105]) ∧
    ReadAlike readStringSet NixWire.readStringSet (writeStringSet ["hi".toList]) := by
  obtain ⟨_, _, _, hbytes, _⟩ := readers_alike (writeBytes [104, 105])
  obtain ⟨_, _, _, _, hset⟩ := readers_alike (writeStringSet ["hi".toList])
  have hmem : InMemory ["hi".toList] := by decide
  have h₁ := (hbytes [104, 105] [] (by decide) (List.append_nil _).symm).1.mpr (by unfold TooLong; decide)
  have h₂ := (hset ["hi".toList] [] hmem (List.append_nil _).symm).mpr (by unfold TooLong; decide)
  exact ⟨h₁, h₂⟩

/-- A string between the limits: the async reader returns it, the blocking one refuses its length. -/
theorem between_unalike {data : List UInt8} (h : data.length = 64 * 1024 * 1024 + 1) :
    NixWire.readBytes.run (writeBytes data) = (.ok data, []) ∧
    (readBytes.run (writeBytes data)).1 = .stop (.err (.stringTooLong (64 * 1024 * 1024 + 1))) := by
  have hle : data.length ≤ wireLimits.text := by
    rw [h]
    decide
  rw [writeBytes_eq]
  constructor
  · exact NixWire.readBytes_ok_iff.mpr ⟨_, encBytes_writePadded wireLimits hle, by simp⟩
  · have hlen : lenWord data = wordBytes (64 * 1024 * 1024 + 1) := by
      rw [lenWord, h]
      rfl
    have hword : (readU64 : Rd Error (List UInt8) UInt64).run (writePadded data)
        = (.ok (64 * 1024 * 1024 + 1), data ++ List.replicate (padLen data.length) 0) := by
      apply readWord_ok_iff.mpr
      rw [writePadded, hlen, List.append_assoc]
    rw [readBytes, Rd.bind_ok hword, if_pos (by decide)]
    rfl

theorem readers_differ : ∃ data : List UInt8, data = List.replicate (64 * 1024 * 1024 + 1) 0 ∧
    NixWire.readBytes.run (writeBytes data) = (.ok data, []) ∧
    (readBytes.run (writeBytes data)).1 = .stop (.err (.stringTooLong (64 * 1024 * 1024 + 1))) ∧
    ¬ReadAlike readBytes NixWire.readBytes (writeBytes data) := by
  refine ⟨_, rfl, ?_⟩
  obtain ⟨hasync, hsync⟩ := between_unalike List.length_replicate
  refine ⟨hasync, hsync, ?_⟩
  intro h
  rw [(h _ _).mpr hasync] at hsync
  cases hsync

end WireSync

end NixWire
