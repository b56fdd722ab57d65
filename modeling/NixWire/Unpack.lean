/-
  NixWire.Unpack — the unpacking loop on two byte lists.

  A pass that goes on takes an operation's code off the client's list and appends the
  entry `decompileOp` reads (`decompilePass_inl_iff`), so every pass shortens the client's
  list and the loop ends. Unpacking succeeds when the handshake does and some passes bring
  the client's list below eight bytes; the entries are those of the passes
  (`decompileWith_ok_iff`).
-/

import Mathlib.Logic.Relation
import NixWire.HandshakeProofs
import NixWire.Messages

namespace NixWire

open Base

section

variable {τ : Type}

/-- `now` looks at the stream and leaves it as it is. -/
def Looks (now : Rd WireError (List UInt8) (Option τ)) : Prop := ∀ s, ∃ t, now.run s = (.ok t, s)

theorem timestampLeft_looks (timestamps : List (Nat × τ)) (total : Nat) : Looks (timestampLeft timestamps total) := by
  intro s
  obtain ⟨t, ht⟩ := lookupTimestampMs_pure timestamps (total - s.length)
  refine ⟨t, ?_⟩
  show (lookupTimestampMs timestamps (total - s.length)).run s = _
  rw [ht, Rd.run_pure]

/-! ## One operation -/

/-- What follows an operation's code: the call from the client's stream, the response from
    the daemon's. -/
theorem decompileOp_ok_iff {v : ProtocolVersion} {opCode : UInt64} {t : Option τ} {entry : Entry τ} {c d c' d' : List UInt8} :
    (decompileOp v opCode t).run (c, d) = (.ok entry, (c', d')) ↔
      ∃ call r e d₁ result, (readOpCall (Op.fromU64 opCode) v).run c = (.ok call, c') ∧
        readStderrWithError.run d = (.ok (r, e), d₁) ∧
        (readResult (Op.fromU64 opCode) v r.terminal).run d₁ = (.ok result, d') ∧
        entry = { timestampMs := t, opCall := call, expects := [],
                  response := some { terminal := terminalName r.terminal, stderrCount := r.count, result, error := e } } := by
  simp only [decompileOp, client, daemon, Rd.onFst_bind_ok_iff, Rd.onSnd_bind_ok_iff]
  constructor
  · intro h
    obtain ⟨call, c₁, hcall, ⟨r, e⟩, d₁, hr, result, d₂, hresult, h⟩ := h
    cases h
    exact ⟨call, r, e, d₁, result, hcall, hr, hresult, rfl⟩
  · intro h
    obtain ⟨call, r, e, d₁, result, hcall, hr, hresult, rfl⟩ := h
    exact ⟨call, c', hcall, (r, e), d₁, hr, result, d', hresult, rfl⟩

theorem skipOpArgs_forward (op : Op) (v : ProtocolVersion) : Forward (skipOpArgs op v : Rd _ (List UInt8) _) := by
  rw [skipOpArgs_eq]
  exact (parse_forward wirePrims_forward _).map _

theorem readOpCall_forward (op : Option Op) (v : ProtocolVersion) : Forward (readOpCall op v : Rd _ (List UInt8) _) := by
  cases op with
  | none => exact Forward.pure _
  | some o =>
    have hargs : Forward (readOpArgs o v : Rd _ (List UInt8) _) := by
      rw [readOpArgs_eq]
      exact (parse_forward wirePrims_forward _).map _
    refine hargs.bind fun call => ?_
    cases call with
    | some call => exact Forward.pure call
    | none =>
      refine (skipOpArgs_forward o v).attempt.bind fun _ =>
        Forward.bind (Forward.ite ?_ (Forward.pure none)) fun _ => Forward.pure _
      exact (parse_forward wirePrims_forward .blob).map some

/-! ## One pass -/

variable {now : Rd WireError (List UInt8) (Option τ)} {v : ProtocolVersion} {entries out : List (Entry τ)}
variable {c d : List UInt8} {q : List UInt8 × List UInt8}

theorem decompilePass_word {opCode : UInt64} {t : Option τ}
    (ht : now.run (wordBytes opCode ++ c) = (.ok t, wordBytes opCode ++ c)) :
    (decompilePass now v entries).run (wordBytes opCode ++ c, d) =
      ((fun entry => .inl (entries ++ [entry])) <$> decompileOp v opCode t).run (c, d) := by
  have hpeek : (client peekU64).run (wordBytes opCode ++ c, d) = (.ok (some opCode), (wordBytes opCode ++ c, d)) :=
    Rd.onFst_iff.mpr ⟨peekU64_word opCode c, rfl⟩
  have hlook : (client now).run (wordBytes opCode ++ c, d) = (.ok t, (wordBytes opCode ++ c, d)) :=
    Rd.onFst_iff.mpr ⟨ht, rfl⟩
  have htake : (client (consume 8)).run (wordBytes opCode ++ c, d) = (.ok (), (c, d)) :=
    Rd.onFst_iff.mpr ⟨consume_word opCode c, rfl⟩
  rw [decompilePass, Rd.bind_ok hpeek]
  simp only
  rw [Rd.bind_ok hlook, Rd.bind_ok htake, map_eq_pure_bind]

theorem decompilePass_short (h : c.length < 8) : (decompilePass now v entries).run (c, d) = (.ok (.inr entries), (c, d)) := by
  have hpeek : (client peekU64).run (c, d) = (.ok none, (c, d)) :=
    Rd.onFst_iff.mpr ⟨by rw [peekU64_bytes, if_neg (by omega)], rfl⟩
  rw [decompilePass, Rd.bind_ok hpeek]
  rfl

variable (hnow : Looks now)

include hnow

theorem decompilePass_inl_iff : (decompilePass now v entries).run (c, d) = (.ok (.inl out), q) ↔
    ∃ opCode rest t entry, c = wordBytes opCode ++ rest ∧ now.run c = (.ok t, c) ∧
      (decompileOp v opCode t).run (rest, d) = (.ok entry, q) ∧ out = entries ++ [entry] := by
  constructor
  · intro h
    rcases word_or_short c with ⟨opCode, rest, rfl⟩ | hshort
    · obtain ⟨t, ht⟩ := hnow (wordBytes opCode ++ rest)
      rw [decompilePass_word ht] at h
      obtain ⟨entry, hop, hout⟩ := Rd.map_ok_iff.mp h
      cases hout
      exact ⟨opCode, rest, t, entry, rfl, ht, hop, rfl⟩
    · rw [decompilePass_short hshort] at h
      cases h
  · intro h
    obtain ⟨opCode, rest, t, entry, rfl, ht, hop, rfl⟩ := h
    rw [decompilePass_word ht]
    exact Rd.map_ok_iff.mpr ⟨entry, hop, rfl⟩

theorem decompilePass_inr_iff : (decompilePass now v entries).run (c, d) = (.ok (.inr out), q) ↔
    c.length < 8 ∧ out = entries ∧ q = (c, d) := by
  constructor
  · intro h
    rcases word_or_short c with ⟨opCode, rest, rfl⟩ | hshort
    · obtain ⟨t, ht⟩ := hnow (wordBytes opCode ++ rest)
      rw [decompilePass_word ht] at h
      obtain ⟨_, _, hout⟩ := Rd.map_ok_iff.mp h
      cases hout
    · rw [decompilePass_short hshort] at h
      cases h
      exact ⟨hshort, rfl, rfl⟩
  · intro h
    obtain ⟨hshort, rfl, rfl⟩ := h
    exact decompilePass_short hshort

theorem decompilePass_stop_iff {o : Stop WireError} : (decompilePass now v entries).run (c, d) = (.stop o, q) ↔
    ∃ opCode rest t, c = wordBytes opCode ++ rest ∧ now.run c = (.ok t, c) ∧
      (decompileOp v opCode t).run (rest, d) = (.stop o, q) := by
  constructor
  · intro h
    rcases word_or_short c with ⟨opCode, rest, rfl⟩ | hshort
    · obtain ⟨t, ht⟩ := hnow (wordBytes opCode ++ rest)
      rw [decompilePass_word ht] at h
      exact ⟨opCode, rest, t, rfl, ht, Rd.map_stop_iff.mp h⟩
    · rw [decompilePass_short hshort] at h
      cases h
  · intro h
    obtain ⟨opCode, rest, t, rfl, ht, hop⟩ := h
    rw [decompilePass_word ht]
    exact Rd.map_stop_iff.mpr hop

/-- A pass that goes on shortens the client's list by a code. -/
theorem decompilePass_shrinks (v : ProtocolVersion) :
    Rd.Shrinks clientSize 8 (decompilePass (D := List UInt8) now v) := by
  rintro entries out ⟨c, d⟩ q h
  obtain ⟨opCode, rest, t, entry, rfl, _, hop, _⟩ := (decompilePass_inl_iff hnow).mp h
  obtain ⟨_, _, _, _, _, hcall, _⟩ := decompileOp_ok_iff.mp hop
  have hle := ((readOpCall_forward _ _).of_run hcall).length_le
  show q.1.length + 8 ≤ (wordBytes opCode ++ rest).length
  simp only [List.length_append, wordBytes_length]
  omega

omit hnow in
/-- One operation taken off both streams: its code and call, and the response to it. -/
def TakesOp (v : ProtocolVersion) (p q : List UInt8 × List UInt8) : Prop :=
  ∃ opCode rest call r e d₁ result, p.1 = wordBytes opCode ++ rest ∧
    (readOpCall (Op.fromU64 opCode) v).run rest = (.ok call, q.1) ∧ readStderrWithError.run p.2 = (.ok (r, e), d₁) ∧
    (readResult (Op.fromU64 opCode) v r.terminal).run d₁ = (.ok result, q.2)

theorem takesOp_iff {p : List UInt8 × List UInt8} :
    TakesOp v p q ↔ ∃ out, (decompilePass now v entries).run p = (.ok (.inl out), q) := by
  constructor
  · intro h
    obtain ⟨opCode, rest, call, r, e, d₁, result, hp, hcall, hr, hresult⟩ := h
    obtain ⟨t, ht⟩ := hnow p.1
    exact ⟨_, (decompilePass_inl_iff hnow).mpr ⟨opCode, rest, t, _, hp, ht,
      decompileOp_ok_iff.mpr ⟨call, r, e, d₁, result, hcall, hr, hresult, rfl⟩, rfl⟩⟩
  · intro h
    obtain ⟨out, h⟩ := h
    obtain ⟨opCode, rest, t, entry, hp, _, hop, _⟩ := (decompilePass_inl_iff hnow).mp h
    obtain ⟨call, r, e, d₁, result, hcall, hr, hresult, _⟩ := decompileOp_ok_iff.mp hop
    exact ⟨opCode, rest, call, r, e, d₁, result, hp, hcall, hr, hresult⟩

/-- Where some passes lead, the operations taken off the streams lead. -/
theorem reaches_iff {p : List UInt8 × List UInt8} :
    (∃ n out, Rd.Reaches (decompilePass now v) n (entries, p) (out, q)) ↔ Relation.ReflTransGen (TakesOp v) p q := by
  constructor
  · intro h
    obtain ⟨n, out, h⟩ := h
    induction n generalizing entries p with
    | zero => cases h; exact .refl
    | succ n ih =>
      cases h with
      | step hb hr => exact .head ((takesOp_iff hnow).mpr ⟨_, hb⟩) (ih hr)
  · intro h
    induction h using Relation.ReflTransGen.head_induction_on generalizing entries with
    | refl => exact ⟨0, entries, .refl _⟩
    | head hp _ ih =>
      obtain ⟨out, hb⟩ := (takesOp_iff hnow).mp hp
      obtain ⟨n, out', hr⟩ := ih
      exact ⟨n + 1, out', .step hb hr⟩

theorem reaches_length {n : Nat} {p : List UInt8 × List UInt8}
    (h : Rd.Reaches (decompilePass now v) n (entries, p) (out, q)) : out.length = entries.length + n := by
  induction n generalizing entries p with
  | zero => cases h; rfl
  | succ n ih =>
    cases h with
    | step hb hr =>
      obtain ⟨_, _, _, entry, _, _, _, rfl⟩ := (decompilePass_inl_iff hnow).mp hb
      rw [ih hr, List.length_append, List.length_singleton]
      omega

/-- Passes append entries. -/
theorem reaches_prefix {n : Nat} {p : List UInt8 × List UInt8}
    (h : Rd.Reaches (decompilePass now v) n (entries, p) (out, q)) : entries <+: out := by
  induction n generalizing entries p with
  | zero => cases h; exact List.prefix_rfl
  | succ n ih =>
    cases h with
    | step hb hr =>
      obtain ⟨_, _, _, entry, _, _, _, rfl⟩ := (decompilePass_inl_iff hnow).mp hb
      exact (List.prefix_append entries [entry]).trans (ih hr)

/-- The pass that appends an entry. -/
theorem entry_pass {n : Nat} {p : List UInt8 × List UInt8} (h : Rd.Reaches (decompilePass now v) n ([], p) (out, q)) {i : Nat}
    {entry : Entry τ} (hentry : out[i]? = some entry) : ∃ acc p₁ p₂, Rd.Reaches (decompilePass now v) i ([], p) (acc, p₁) ∧
      (decompilePass now v acc).run p₁ = (.ok (.inl (acc ++ [entry])), p₂) := by
  have hlen := reaches_length hnow h
  obtain ⟨hi, hget⟩ := List.getElem?_eq_some_iff.mp hentry
  obtain ⟨k, rfl⟩ : ∃ k, n = i + (k + 1) := ⟨n - i - 1, by simp at hlen; omega⟩
  obtain ⟨⟨acc, p₁⟩, hbefore, hafter⟩ := h.split
  cases hafter with
  | step hb hrest =>
    obtain ⟨_, _, _, entry', _, _, _, rfl⟩ := (decompilePass_inl_iff hnow).mp hb
    obtain ⟨more, rfl⟩ := reaches_prefix hnow hrest
    have hacc : acc.length = i := by simpa using reaches_length hnow hbefore
    obtain rfl : entry' = entry := by simpa [← hacc] using hentry
    exact ⟨acc, p₁, _, hbefore, hb⟩

/-! ## The whole run -/

/-- Unpacking succeeds when the handshake does and some passes use up the client's list. -/
theorem decompileWith_ok_iff {script : Script τ} : (decompileWith now).run (c, d) = (.ok script, q) ↔
    ∃ info p n, parseHandshake.run (c, d) = (.ok info, p) ∧
      Rd.Reaches (decompilePass now info.negotiatedVersion) n ([], p) (script.entries, q) ∧ q.1.length < 8 ∧
      script.preamble = preambleOf info := by
  rw [decompileWith, Rd.bind_ok_iff]
  constructor
  · intro h
    obtain ⟨info, p, hinfo, h⟩ := h
    obtain ⟨entries, q', hloop, hout⟩ := Rd.bind_ok_iff.mp h
    cases hout
    obtain ⟨n, entries', ⟨c', d'⟩, hr, hb⟩ := (iterate_ok_iff (decompilePass_shrinks hnow _) (by omega)).mp hloop
    obtain ⟨hshort, rfl, rfl⟩ := (decompilePass_inr_iff hnow).mp hb
    exact ⟨info, p, n, hinfo, hr, hshort, rfl⟩
  · intro h
    obtain ⟨info, p, n, hinfo, hr, hshort, hpre⟩ := h
    refine ⟨info, p, hinfo, Rd.bind_ok_iff.mpr ⟨script.entries, q, ?_, by rw [← hpre]; rfl⟩⟩
    exact (iterate_ok_iff (decompilePass_shrinks hnow _) (by omega)).mpr
      ⟨n, _, q, hr, (decompilePass_inr_iff hnow).mpr ⟨hshort, rfl, rfl⟩⟩

end

end NixWire
