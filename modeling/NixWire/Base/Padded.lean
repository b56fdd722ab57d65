/-
  NixWire.Base.Padded — reading a word, and a padded string no longer than a limit.

  A length word, the bytes, and what padding brings them up to a multiple of eight.
  `readPadded` succeeds exactly on the encodings of strings within its limit
  (`readPadded_ok_iff`), and otherwise fails with an error (`readPadded_stop`).
-/

import NixWire.Base.LayoutRead

namespace NixWire.Base

section

variable {ε R : Type} [BufRead R]

def readWord (short : ε) : Rd ε R UInt64 := do
  let buf ← readExact short 8
  return wordOf buf

/-- `tooLong`, `noData` and `noPadding` are the errors of a length over the limit, and of a
    stream that ends in the bytes or in their padding. -/
def readPadded (limit : UInt64) (short : ε) (tooLong : UInt64 → ε) (noData noPadding : ε) : Rd ε R (List UInt8) := do
  let len ← readWord short
  if len > limit then Rd.fail (tooLong len)
  else
    let buf ← readExact noData len.toNat
    let padding := (8 - len % 8) % 8
    if padding > 0 then
      let _ ← readExact noPadding padding.toNat
      return buf
    else return buf

end

/-! ## Words -/

section

variable {ε : Type} {short : ε}

theorem readExact_stop {e : ε} {n : Nat} {s rest : List UInt8} {o : Stop ε}
    (h : (readExact e n).run s = (.stop o, rest)) : o = .err e ∧ s.length < n ∧ rest = [] := by
  rw [readExact_bytes] at h
  split at h
  · cases h
  · rename_i hn
    cases h
    exact ⟨rfl, Nat.not_le.mp hn, rfl⟩

theorem readWord_ok_iff {s rest : List UInt8} {w : UInt64} :
    (readWord short).run s = (.ok w, rest) ↔ s = wordBytes w ++ rest := by
  simp only [readWord, Rd.bind_ok_iff, readExact_ok_iff, Rd.run_pure]
  constructor
  · intro h
    obtain ⟨buf, _, ⟨rfl, hlen⟩, h⟩ := h
    cases h
    rw [bytes_word hlen]
  · intro h
    obtain rfl := h
    exact ⟨wordBytes w, rest, ⟨rfl, wordBytes_length w⟩, by rw [word_bytes]⟩

theorem readWord_stop {s rest : List UInt8} {o : Stop ε} (h : (readWord short).run s = (.stop o, rest)) :
    o = .err short := by
  rcases Rd.bind_stop_iff.mp h with h | ⟨_, _, _, h⟩
  · exact (readExact_stop h).1
  · cases h

end

/-! ## Padded strings -/

theorem padding_toNat (n : Nat) : ((8 - UInt64.ofNat n % 8) % 8 : UInt64).toNat = padLen n := by
  have h8 : (UInt64.ofNat n % 8).toNat = n % 8 := by
    rw [UInt64.toNat_mod, UInt64.toNat_ofNat']
    show n % 2 ^ 64 % 8 = n % 8
    omega
  have hle : (UInt64.ofNat n % 8 : UInt64) ≤ 8 := by
    rw [UInt64.le_iff_toNat_le, h8]
    show n % 8 ≤ 8
    omega
  rw [UInt64.toNat_mod, UInt64.toNat_sub_of_le _ _ hle, h8]
  rfl

theorem padding_pos_iff (n : Nat) : (8 - UInt64.ofNat n % 8) % 8 > (0 : UInt64) ↔ 0 < padLen n := by
  rw [gt_iff_lt, UInt64.lt_iff_toNat_lt, padding_toNat]
  rfl

section

variable {ε : Type} {limit : UInt64} {short noData noPadding : ε} {tooLong : UInt64 → ε}

/-- After its length word: the bytes, then their padding. -/
theorem readPadded_eq : (readPadded limit short tooLong noData noPadding : Rd ε (List UInt8) _) = (do
    let len ← readWord short
    if len > limit then Rd.fail (tooLong len)
    else
      let buf ← readExact noData len.toNat
      let _ ← readExact noPadding (padLen len.toNat)
      return buf) := by
  ext1 s
  unfold readPadded
  congr 2
  funext len
  have hlen : UInt64.ofNat len.toNat = len := by simp
  have hpad := padding_toNat len.toNat
  have hpos := padding_pos_iff len.toNat
  rw [hlen] at hpad hpos
  split
  · rfl
  · congr 1
    funext buf
    by_cases h : 0 < padLen len.toNat
    · rw [if_pos (hpos.mpr h), hpad]
    · have h0 : padLen len.toNat = 0 := by omega
      rw [if_neg (fun hc => h (hpos.mp hc)), h0]
      rfl

theorem readPadded_ok_iff {L : Limits} (hlimit : limit.toNat = L.text) {s rest b : List UInt8} :
    (readPadded limit short tooLong noData noPadding).run s = (.ok b, rest) ↔ ∃ bs, EncBytes L b bs ∧ s = bs ++ rest := by
  rw [readPadded_eq]
  simp only [Rd.bind_ok_iff, readWord_ok_iff]
  constructor
  · intro h
    obtain ⟨len, r, rfl, h⟩ := h
    split at h
    · cases h
    · rename_i hle
      simp only [Rd.bind_ok_iff, readExact_ok_iff] at h
      obtain ⟨buf, _, ⟨rfl, hbuf⟩, pad, _, ⟨rfl, hpad⟩, h⟩ := h
      cases h
      have htext : b.length ≤ L.text := by
        rw [hbuf, ← hlimit, ← UInt64.le_iff_toNat_le]
        simpa using hle
      have hword : wordBytes len = lenWord b := by
        rw [lenWord, hbuf]
        simp
      exact ⟨lenWord b ++ b ++ pad, ⟨htext, pad, by rw [hpad, hbuf], rfl⟩, by rw [hword]; simp⟩
  · intro h
    obtain ⟨_, ⟨htext, pad, hpad, rfl⟩, rfl⟩ := h
    have hlt : b.length < 2 ^ 64 := htext.trans_lt L.text_lt
    have hnat : (UInt64.ofNat b.length).toNat = b.length := UInt64.toNat_ofNat_of_lt hlt
    refine ⟨UInt64.ofNat b.length, b ++ pad ++ rest, by simp [lenWord], ?_⟩
    have hle : ¬UInt64.ofNat b.length > limit := by
      rw [gt_iff_lt, UInt64.lt_iff_toNat_lt, hnat, hlimit]
      omega
    rw [if_neg hle]
    simp only [Rd.bind_ok_iff, readExact_ok_iff, hnat]
    exact ⟨b, pad ++ rest, ⟨by simp, rfl⟩, pad, rest, ⟨rfl, hpad⟩, rfl⟩

theorem readPadded_stop {s rest : List UInt8} {o : Stop ε}
    (h : (readPadded limit short tooLong noData noPadding).run s = (.stop o, rest)) : ∃ e, o = .err e := by
  rw [readPadded_eq] at h
  rcases Rd.bind_stop_iff.mp h with h | ⟨len, r, _, h⟩
  · exact ⟨_, readWord_stop h⟩
  split at h
  · cases h; exact ⟨_, rfl⟩
  rcases Rd.bind_stop_iff.mp h with h | ⟨buf, r', _, h⟩
  · exact ⟨_, (readExact_stop h).1⟩
  rcases Rd.bind_stop_iff.mp h with h | ⟨_, _, _, h⟩
  · exact ⟨_, (readExact_stop h).1⟩
  · cases h

end

end NixWire.Base
