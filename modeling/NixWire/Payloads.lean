/-
  NixWire.Payloads — bytes written in hex in a script.

  `hexDecode` never fails: a pair that is no byte is left out, and so is an odd last digit;
  a plus is a digit to it, and the closing quote may be missing or repeated. So of bytes
  between quotes a script gives the bytes it spells out exactly when they are well formed
  (`payload_spelled`).
-/

import NixWire.Blocks

namespace NixWire

open Base

/-! ## Hex text -/

/-- The digits of a hex text: all but its spaces. -/
def hexDigits (s : Str) : Str := s.filter (· ≠ ' ')

/-- Without its spaces, an even number of hex digits. -/
def HexText (s : Str) : Prop := (hexDigits s).length % 2 = 0 ∧ ∀ c ∈ hexDigits s, (hexDigit c).isSome = true

instance (s : Str) : Decidable (HexText s) :=
  @instDecidableAnd _ _ inferInstance (List.decidableBAll _ _)

/-- `text` is a hex text from `opening` to a closing quote. -/
def HexQuoted (opening text : Str) : Prop := ∃ body, text = opening ++ body ++ ['"'] ∧ HexText body

/-- `text` is `bytes` in hex, from `opening` to a closing quote. -/
def Spells (opening text : Str) (bytes : List UInt8) : Prop :=
  ∃ body, text = opening ++ body ++ ['"'] ∧ HexText body ∧ hexEncode bytes = (hexDigits body).map Char.toLower

theorem hexDigit_digit {c : Char} {d : Nat} (h : hexDigit c = some d) :
    d < 16 ∧ d.digitChar = c.toLower ∧ c ≠ '+' ∧ c ≠ '"' := by
  have hlt : c.toNat < 128 := by
    have hval : c.toNat = c.val.toNat := rfl
    unfold hexDigit at h
    simp only [Char.isDigit, Char.le_def, UInt32.le_iff_toNat_le] at h
    grind
  have hall : ∀ n < 128, ∀ d ∈ hexDigit (Char.ofNat n), d < 16 ∧ d.digitChar = (Char.ofNat n).toLower ∧
      Char.ofNat n ≠ '+' ∧ Char.ofNat n ≠ '"' := by decide
  have hc := hall c.toNat hlt d (by rw [Char.ofNat_toNat]; exact h)
  rwa [Char.ofNat_toNat] at hc

theorem hexPairs_encode : ∀ {s : Str}, s.length % 2 = 0 → (∀ c ∈ s, (hexDigit c).isSome = true) →
    hexEncode (hexPairs s) = s.map Char.toLower
  | [], _, _ => rfl
  | [c], h, _ => by simp at h
  | a :: b :: s, hlen, hall => by
    have hlen' : s.length % 2 = 0 := by
      simp only [List.length_cons] at hlen
      omega
    rw [List.forall_mem_cons, List.forall_mem_cons] at hall
    obtain ⟨ha, hb, hs⟩ := hall
    obtain ⟨hi, hhi⟩ := Option.isSome_iff_exists.mp ha
    obtain ⟨lo, hlo⟩ := Option.isSome_iff_exists.mp hb
    obtain ⟨hhi16, hhia, hplus, -⟩ := hexDigit_digit hhi
    obtain ⟨hlo16, hlob, -⟩ := hexDigit_digit hlo
    have hbyte : hexByte a b = some (UInt8.ofNat (16 * hi + lo)) := by
      rw [hexByte, if_neg hplus, hhi, hlo]
      rfl
    have hnat : (UInt8.ofNat (16 * hi + lo)).toNat = 16 * hi + lo := by
      rw [UInt8.toNat_ofNat', Nat.mod_eq_of_lt (by omega)]
    have hdiv : (16 * hi + lo) / 16 = hi := by omega
    have hmod : (16 * hi + lo) % 16 = lo := by omega
    have ih := hexPairs_encode hlen' hs
    rw [hexPairs, hbyte, Option.toList_some, List.singleton_append, hexEncode_cons, hnat, hdiv, hmod, hhia, hlob, ih]
    rfl

theorem hexDecode_encode {s : Str} (h : HexText s) : hexEncode (hexDecode s) = (hexDigits s).map Char.toLower :=
  hexPairs_encode h.1 h.2

theorem HexText.not_quote {s : Str} (h : HexText s) : '"' ∉ s := by
  intro hmem
  have hdigit := h.2 '"' (by simpa [hexDigits] using hmem)
  exact absurd hdigit (by decide)

/-- The closing quote of a hex text is all that is taken off its end. -/
theorem trimEndMatches_hexText {s : Str} (h : HexText s) : trimEndMatches '"' (s ++ ['"']) = s := by
  rw [trimEndMatches, List.rdropWhile_concat_pos _ _ _ (by simp), List.rdropWhile_eq_self_iff]
  intro hne hlast
  have hmem := List.getLast_mem hne
  rw [beq_iff_eq.mp hlast] at hmem
  exact h.not_quote hmem

/-! ## The values of a script -/

section

variable {opening : Str}

/-- What is decoded after `opening` is what stands there, exactly when that is well formed. -/
theorem spells_decoded (rest : Str) :
    Spells opening (opening ++ rest) (hexDecode (trimEndMatches '"' rest)) ↔ HexQuoted opening (opening ++ rest) := by
  constructor
  · intro h
    obtain ⟨body, htext, hbody, -⟩ := h
    exact ⟨body, htext, hbody⟩
  · intro h
    obtain ⟨body, htext, hbody⟩ := h
    refine ⟨body, htext, hbody, ?_⟩
    rw [List.append_assoc] at htext
    rw [List.append_cancel_left htext, trimEndMatches_hexText hbody, hexDecode_encode hbody]

end

/-- The `raw` line that a block gives its bytes from. -/
def rawText : List Str → Option Str
  | [] => none
  | line :: ls => match blockLine line with
    | some trimmed => if startsWith "raw x\"".toList trimmed then some trimmed else rawText ls
    | none => none

theorem rawText_opening {ls : List Str} {text : Str} (h : rawText ls = some text) : ∃ rest, text = "raw x\"".toList ++ rest := by
  induction ls with
  | nil => cases h
  | cons line ls ih =>
    rw [rawText] at h
    split at h
    · split at h
      · rename_i hraw
        cases h
        obtain ⟨rest, hrest⟩ := List.isPrefixOf_iff_prefix.mp hraw
        exact ⟨rest, hrest.symm⟩
      · exact ih h
    · cases h

/-- The bytes of a block are those decoded from its `raw` line. -/
theorem parseRawHex_text {ls : List Str} {rest : Str} (h : rawText ls = some ("raw x\"".toList ++ rest)) :
    ∃ left, parseRawHex.run ls = (.ok (hexDecode (trimEndMatches '"' rest)), left) := by
  induction ls with
  | nil => cases h
  | cons line ls ih =>
    rw [rawText] at h
    split at h
    · rename_i trimmed hline
      split at h
      · cases h
        exact ⟨ls, parseBlock_done hline (by simp only [stripPrefix_append])⟩
      · rename_i hraw
        obtain ⟨left, hleft⟩ := ih h
        exact ⟨left, (parseBlock_next hline (by simp only [stripPrefix_not hraw])).trans hleft⟩
    · cases h

/-- Inline data and raw bytes are what the script spells out exactly when it is well formed. -/
theorem payload_spelled (value : Str) (ls : List Str) :
    ((∀ bytes, parseDataValue value = .ok (.inline bytes) → Spells "x\"".toList value bytes) ↔
        (startsWith "x\"".toList value = true → HexQuoted "x\"".toList value)) ∧
      ∀ text ∈ rawText ls, ((∀ bytes left, parseRawHex.run ls = (.ok bytes, left) → Spells "raw x\"".toList text bytes) ↔
        HexQuoted "raw x\"".toList text) := by
  refine ⟨?_, fun text htext => ?_⟩
  · by_cases hstart : startsWith "x\"".toList value = true
    · obtain ⟨rest, rfl⟩ := List.isPrefixOf_iff_prefix.mp hstart
      have hparse : parseDataValue ("x\"".toList ++ rest) = .ok (.inline (hexDecode (trimEndMatches '"' rest))) := by
        simp only [parseDataValue, stripPrefix_append]
      rw [← spells_decoded rest]
      constructor
      · exact fun h _ => h _ hparse
      · intro h bytes hbytes
        rw [hparse] at hbytes
        cases hbytes
        exact h hstart
    · -- not inline data
      refine ⟨fun _ h => (hstart h).elim, fun _ bytes hbytes => ?_⟩
      simp only [parseDataValue, stripPrefix_not hstart] at hbytes
      split at hbytes <;> cases hbytes
  · obtain ⟨rest, rfl⟩ := rawText_opening htext
    obtain ⟨left, hrun⟩ := parseRawHex_text htext
    rw [← spells_decoded rest]
    constructor
    · exact fun h => h _ _ hrun
    · intro h bytes left' hbytes
      rw [hrun] at hbytes
      cases hbytes
      exact h

/-- A pair that is no byte, an odd digit, a plus, a missing and a repeated quote are all decoded. -/
theorem payload_misread :
    parseDataValue "x\"12zz34\"".toList = .ok (.inline [0x12, 0x34]) ∧
      parseDataValue "x\"123\"".toList = .ok (.inline [0x12]) ∧
      parseDataValue "x\"+f\"".toList = .ok (.inline [0x0f]) ∧
      parseDataValue "x\"12".toList = .ok (.inline [0x12]) ∧
      parseDataValue "x\"12\"\"".toList = .ok (.inline [0x12]) ∧
      parseRawHex.run ["  raw x\"12zz34\"".toList] = (.ok [0x12, 0x34], []) ∧
      ¬Spells "x\"".toList "x\"12zz34\"".toList [0x12, 0x34] ∧
      ¬Spells "raw x\"".toList "raw x\"12zz34\"".toList [0x12, 0x34] := by
  have hnot (opening : Str) : ¬Spells opening (opening ++ "12zz34\"".toList) [0x12, 0x34] := by
    intro h
    obtain ⟨body, htext, hbody, -⟩ := h
    rw [List.append_assoc] at htext
    have hz : 'z' ∈ body ++ ['"'] := by
      rw [← List.append_cancel_left htext]
      decide
    have hmem : 'z' ∈ body := by simpa using hz
    exact absurd (hbody.2 'z' (by simpa [hexDigits] using hmem)) (by decide)
  exact ⟨by decide, by decide, by decide, by decide, by decide, by decide, hnot _, hnot _⟩

end NixWire
