/-
  NixWire.Messages — the daemon's stderr messages on a byte list.

  A `Message` is a code with its payload. The loop takes messages off the stream as long
  as they do not end it (`readStderrPass_inl_iff`), and ends at a terminal code or where
  no code starts (`readStderrPass_inr_iff`); what it returns says how many there were
  (`readStderrLoop_ok_iff`, `readStderrWithError_ok_iff`).
-/

import NixWire.Mirror

namespace NixWire

open Base

/-- A stderr message: a code, and the payload that goes with it. -/
abbrev Message := (code : StderrCode) × (payloadFmt code).Val

/-- `bs` carries the message, which is not a terminal one. -/
def Message.Enc (m : Message) (bs : List UInt8) : Prop :=
  m.1.isTerminal = false ∧ ∃ payload, (payloadFmt m.1).Enc wireLimits m.2 payload ∧ bs = wordBytes m.1.code ++ payload

/-- The stream begins with the word of a code. -/
def StartsWithCode (s : List UInt8) : Prop := ∃ (code : StderrCode) (rest : List UInt8), s = wordBytes code.code ++ rest

/-! ## One pass -/

theorem code_word_inj {c c' : StderrCode} {s s' : List UInt8} (h : wordBytes c.code ++ s = wordBytes c'.code ++ s') :
    c = c' ∧ s = s' := by
  obtain ⟨hcode, hs⟩ := word_append_inj h
  have hc := StderrCode.fromU64_code c
  rw [hcode, StderrCode.fromU64_code] at hc
  exact ⟨(Option.some.inj hc).symm, hs⟩

theorem readStderrPass_code (count : UInt64) (code : StderrCode) (rest : List UInt8) :
    (readStderrPass count).run (wordBytes code.code ++ rest) =
      (if code.isTerminal then pure (.inr ⟨count + 1, some code⟩)
        else skipStderrPayload code >>= fun _ => pure (.inl (count + 1)) :
        Rd WireError (List UInt8) (UInt64 ⊕ StderrResult)).run rest := by
  rw [readStderrPass, Rd.bind_ok (peekU64_word code.code rest)]
  simp only [StderrCode.fromU64_code]
  rw [Rd.bind_ok (consume_word code.code rest)]

theorem readStderrPass_other (count : UInt64) {s : List UInt8} (h : ¬StartsWithCode s) :
    (readStderrPass count).run s = (.ok (.inr ⟨count, none⟩), s) := by
  rcases hp : peekU64.run s with ⟨(_ | w) | o, s'⟩
  · obtain ⟨rfl, _⟩ := peekU64_none hp
    rw [readStderrPass, Rd.bind_ok hp]
    rfl
  · obtain ⟨rfl, rest, hword⟩ := peekU64_some hp
    rw [readStderrPass, Rd.bind_ok hp]
    cases hcode : StderrCode.fromU64 w with
    | none => simp [hcode]
    | some code => exact absurd ⟨code, rest, by rw [StderrCode.code_of_fromU64 hcode, hword]⟩ h
  · exact absurd hp peekU64_not_stop

theorem skipStderrPayload_ok_iff {code : StderrCode} {s rest : List UInt8} {u : Unit} :
    (skipStderrPayload code).run s = (.ok u, rest) ↔
      ∃ v bs, (payloadFmt code).Enc wireLimits v bs ∧ s = bs ++ rest := by
  rw [skipStderrPayload_eq, Rd.map_ok_iff]
  simp only [parse_ok_iff wirePrims_lawful, and_true]

/-- A continuing pass takes one message off the stream. -/
theorem readStderrPass_inl_iff {count n : UInt64} {s rest : List UInt8} :
    (readStderrPass count).run s = (.ok (.inl n), rest) ↔
      ∃ m bs, Message.Enc m bs ∧ s = bs ++ rest ∧ n = count + 1 := by
  constructor
  · intro h
    by_cases hs : StartsWithCode s
    · obtain ⟨code, s', rfl⟩ := hs
      rw [readStderrPass_code] at h
      split at h
      · cases h
      · rename_i hterm
        obtain ⟨_, r, hskip, hout⟩ := Rd.bind_ok_iff.mp h
        obtain ⟨v, bs, hbs, rfl⟩ := skipStderrPayload_ok_iff.mp hskip
        cases hout
        exact ⟨⟨code, v⟩, _, ⟨by simpa using hterm, bs, hbs, rfl⟩, by simp, rfl⟩
    · rw [readStderrPass_other count hs] at h
      cases h
  · intro h
    obtain ⟨⟨code, v⟩, _, ⟨hterm, bs, hbs, rfl⟩, rfl, rfl⟩ := h
    have hskip : (skipStderrPayload code).run (bs ++ rest) = (.ok (), rest) :=
      skipStderrPayload_ok_iff.mpr ⟨v, bs, hbs, rfl⟩
    rw [List.append_assoc, readStderrPass_code, if_neg (by simpa using hterm), Rd.bind_ok hskip]
    rfl

/-- The last pass meets a terminal code, or no code at all. -/
theorem readStderrPass_inr_iff {count : UInt64} {r : StderrResult} {s rest : List UInt8} :
    (readStderrPass count).run s = (.ok (.inr r), rest) ↔
      (∃ code : StderrCode, code.isTerminal ∧ s = wordBytes code.code ++ rest ∧ r = ⟨count + 1, some code⟩) ∨
      ¬StartsWithCode s ∧ rest = s ∧ r = ⟨count, none⟩ := by
  constructor
  · intro h
    by_cases hs : StartsWithCode s
    · obtain ⟨code, s', rfl⟩ := hs
      rw [readStderrPass_code] at h
      split at h
      · rename_i hterm
        cases h
        exact Or.inl ⟨code, hterm, rfl, rfl⟩
      · obtain ⟨_, _, _, hout⟩ := Rd.bind_ok_iff.mp h
        cases hout
    · rw [readStderrPass_other count hs] at h
      cases h
      exact Or.inr ⟨hs, rfl, rfl⟩
  · rintro (⟨code, hterm, rfl, rfl⟩ | ⟨hs, rfl, rfl⟩)
    · rw [readStderrPass_code, if_pos hterm]
      rfl
    · exact readStderrPass_other count hs

/-- A pass stops only inside the payload of a message. -/
theorem readStderrPass_stop_iff {count : UInt64} {s rest : List UInt8} {o : Stop WireError} :
    (readStderrPass count).run s = (.stop o, rest) ↔ ∃ (code : StderrCode) (s' : List UInt8), code.isTerminal = false ∧
      s = wordBytes code.code ++ s' ∧ (skipStderrPayload code).run s' = (.stop o, rest) := by
  constructor
  · intro h
    by_cases hs : StartsWithCode s
    · obtain ⟨code, s', rfl⟩ := hs
      rw [readStderrPass_code] at h
      split at h
      · cases h
      · rename_i hterm
        rcases Rd.bind_stop_iff.mp h with h | ⟨_, _, _, h⟩
        · exact ⟨code, s', by simpa using hterm, rfl, h⟩
        · cases h
    · rw [readStderrPass_other count hs] at h
      cases h
  · intro h
    obtain ⟨code, s', hterm, rfl, h⟩ := h
    rw [readStderrPass_code, if_neg (by simp [hterm]), Rd.bind_stop h]

theorem readStderrPass_shrinks : Rd.Shrinks BufRead.size 8 (readStderrPass (R := List UInt8)) := by
  intro count n s rest h
  obtain ⟨m, _, ⟨_, bs, _, rfl⟩, rfl, _⟩ := readStderrPass_inl_iff.mp h
  show rest.length + 8 ≤ (wordBytes m.1.code ++ bs ++ rest).length
  simp only [List.length_append, wordBytes_length]
  omega

/-! ## The loop -/

theorem readStderrPass_reaches_iff {n : Nat} {count count' : UInt64} {s rest : List UInt8} :
    Rd.Reaches readStderrPass n (count, s) (count', rest) ↔ ∃ (ms : List Message) (parts : List (List UInt8)),
      ms.length = n ∧ List.Forall₂ Message.Enc ms parts ∧ s = parts.flatten ++ rest ∧ count' = count + UInt64.ofNat n := by
  constructor
  · intro h
    induction n generalizing count s with
    | zero =>
      cases h
      exact ⟨[], [], rfl, .nil, rfl, by simp⟩
    | succ n ih =>
      cases h with
      | step hb hr =>
        obtain ⟨m, bs, hm, rfl, rfl⟩ := readStderrPass_inl_iff.mp hb
        obtain ⟨ms, parts, hlen, hms, rfl, rfl⟩ := ih hr
        refine ⟨m :: ms, bs :: parts, by simp [hlen], .cons hm hms, by simp, ?_⟩
        rw [UInt64.ofNat_add, UInt64.add_assoc, UInt64.add_comm (UInt64.ofNat n)]
        rfl
  · intro h
    obtain ⟨ms, parts, rfl, hms, rfl, rfl⟩ := h
    induction hms generalizing count with
    | nil =>
      have hrefl : Rd.Reaches readStderrPass 0 (count, rest) (count, rest) := .refl _
      simpa using hrefl
    | @cons m bs ms parts hm _ ih =>
      have hstep : (readStderrPass count).run ((bs :: parts).flatten ++ rest) = (.ok (.inl (count + 1)), parts.flatten ++ rest) :=
        readStderrPass_inl_iff.mpr ⟨m, bs, hm, by simp, rfl⟩
      have hcount : count + 1 + UInt64.ofNat ms.length = count + UInt64.ofNat (m :: ms).length := by
        rw [List.length_cons, UInt64.ofNat_add, UInt64.add_assoc, UInt64.add_comm 1]
        rfl
      exact .step hstep (hcount ▸ ih)

/-- The loop reads messages up to a terminal code or to where no code starts. -/
theorem readStderrLoop_ok_iff {r : StderrResult} {s rest : List UInt8} :
    readStderrLoop.run s = (.ok r, rest) ↔ ∃ (ms : List Message) (parts : List (List UInt8)),
      List.Forall₂ Message.Enc ms parts ∧
      ((∃ code : StderrCode, code.isTerminal ∧ s = parts.flatten ++ (wordBytes code.code ++ rest) ∧
          r = ⟨UInt64.ofNat ms.length + 1, some code⟩) ∨
        s = parts.flatten ++ rest ∧ ¬StartsWithCode rest ∧ r = ⟨UInt64.ofNat ms.length, none⟩) := by
  rw [readStderrLoop, readLoop, iterate_ok_iff readStderrPass_shrinks (by omega)]
  constructor
  · intro h
    obtain ⟨n, count, s', hr, hb⟩ := h
    obtain ⟨ms, parts, rfl, hms, rfl, rfl⟩ := readStderrPass_reaches_iff.mp hr
    rw [UInt64.zero_add] at hb
    rcases readStderrPass_inr_iff.mp hb with ⟨code, hterm, rfl, rfl⟩ | ⟨hs, rfl, rfl⟩
    · exact ⟨ms, parts, hms, Or.inl ⟨code, hterm, rfl, rfl⟩⟩
    · exact ⟨ms, parts, hms, Or.inr ⟨rfl, hs, rfl⟩⟩
  · intro h
    obtain ⟨ms, parts, hms, ⟨code, hterm, rfl, rfl⟩ | ⟨rfl, hs, rfl⟩⟩ := h
    · exact ⟨ms.length, _, _, readStderrPass_reaches_iff.mpr ⟨ms, parts, rfl, hms, rfl, (UInt64.zero_add _).symm⟩,
        readStderrPass_inr_iff.mpr (Or.inl ⟨code, hterm, rfl, rfl⟩)⟩
    · exact ⟨ms.length, _, _, readStderrPass_reaches_iff.mpr ⟨ms, parts, rfl, hms, rfl, (UInt64.zero_add _).symm⟩,
        readStderrPass_inr_iff.mpr (Or.inr ⟨hs, rfl, rfl⟩)⟩

theorem readErrorInfo_ok_iff {info : ErrorInfo} {s rest : List UInt8} :
    readErrorInfo.run s = (.ok info, rest) ↔
      ∃ v bs, errorLayout.fmt.Enc wireLimits v bs ∧ errorLayout.of v = info ∧ s = bs ++ rest := by
  rw [readErrorInfo_eq]
  exact Layout.parse_ok_iff wirePrims_lawful

/-- With the error's payload, when there is one. -/
theorem readStderrWithError_ok_iff {r : StderrResult} {e : Option ErrorInfo} {s rest : List UInt8} :
    readStderrWithError.run s = (.ok (r, e), rest) ↔ ∃ s', readStderrLoop.run s = (.ok r, s') ∧
      if r.terminal = some .error then ∃ info, e = some info ∧ readErrorInfo.run s' = (.ok info, rest)
      else e = none ∧ s' = rest := by
  rw [readStderrWithError, Rd.bind_ok_iff]
  constructor
  · intro h
    obtain ⟨r', s', hloop, h⟩ := h
    split at h
    · rename_i hterm
      obtain ⟨info, s'', hinfo, hout⟩ := Rd.bind_ok_iff.mp h
      cases hout
      exact ⟨s', hloop, by rw [if_pos hterm]; exact ⟨info, rfl, hinfo⟩⟩
    · rename_i hterm
      cases h
      exact ⟨rest, hloop, by rw [if_neg hterm]; exact ⟨rfl, rfl⟩⟩
  · intro h
    obtain ⟨s', hloop, h⟩ := h
    refine ⟨r, s', hloop, ?_⟩
    split at h
    · rename_i hterm
      obtain ⟨info, rfl, hinfo⟩ := h
      rw [if_pos hterm, Rd.bind_ok hinfo]
      rfl
    · rename_i hterm
      obtain ⟨rfl, rfl⟩ := h
      rw [if_neg hterm]
      rfl

end NixWire
