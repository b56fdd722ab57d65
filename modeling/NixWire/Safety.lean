/-
  NixWire.Safety — unpacking any two byte strings, malformed ones included.

  Unpacking always ends, and with an error or by an allocation that asks for too much if
  not with a script (`decompileWith_tidy`). It asks for too much exactly when the decoder
  comes to a count of strings or pairs that no vector can hold (`AsksTooMuch`): in the
  features of the handshake, or in the arguments or the result of an operation it comes
  to. Everything else the contract asks for holds on every input (`safe_iff`).
-/

import NixWire.Unpack

namespace NixWire

open Base

/-! ## Stopping -/

section

variable {op : Op} {v : ProtocolVersion}

theorem parse_clean (f : Fmt) : (f.parse (wirePrims : Prims WireError (List UInt8))).Tidy := parse_tidy wirePrims_lawful f

theorem readOpArgs_tidy (op : Op) (v : ProtocolVersion) : (readOpArgs op v : Rd WireError (List UInt8) _).Tidy := by
  rw [readOpArgs_eq]
  exact (parse_clean _).map _

theorem skipOpArgs_tidy (op : Op) (v : ProtocolVersion) : (skipOpArgs op v : Rd WireError (List UInt8) _).Tidy := by
  rw [skipOpArgs_eq]
  exact (parse_clean _).map _

theorem readOpCall_tidy (op : Option Op) (v : ProtocolVersion) : (readOpCall op v : Rd WireError (List UInt8) _).Tidy := by
  cases op with
  | none => exact .pure _
  | some o =>
    refine (readOpArgs_tidy o v).bind fun call => ?_
    cases call with
    | some call => exact .pure call
    | none =>
      refine (skipOpArgs_tidy o v).attempt.bind fun _ => Rd.Tidy.bind (Rd.Tidy.ite ?_ (.pure none)) fun _ => .pure _
      exact (parse_clean .blob).map some

theorem readStderrWithError_tidy : (readStderrWithError : Rd WireError (List UInt8) _).Tidy := by
  have hpass : ∀ count, (readStderrPass count : Rd WireError (List UInt8) _).Tidy := by
    intro count s rest o h
    obtain ⟨code, s', _, _, hskip⟩ := readStderrPass_stop_iff.mp h
    rw [skipStderrPayload_eq] at hskip
    exact (parse_clean _).map _ _ _ _ hskip
  have hinfo : (readErrorInfo : Rd WireError (List UInt8) _).Tidy := by
    rw [readErrorInfo_eq]
    exact (parse_clean _).map _
  exact (iterate_tidy readStderrPass_shrinks (by omega) hpass 0).bind fun _ =>
    Rd.Tidy.ite (hinfo.bind fun _ => .pure _) (.pure _)

theorem readResult_tidy (op : Option Op) (v : ProtocolVersion) (terminal : Option StderrCode) :
    (readResult op v terminal : Rd WireError (List UInt8) _).Tidy := by
  refine Rd.Tidy.ite ?_ (.pure none)
  cases op with
  | none => exact .pure none
  | some o =>
    have hresult : (readDaemonResult o v : Rd WireError (List UInt8) _).Tidy := by
      rw [readDaemonResult_eq]
      exact (parse_clean _).map _
    exact hresult.attempt.bind fun _ => .pure _

theorem parseHandshake_tidy : (parseHandshake : Rd WireError (List UInt8 × List UInt8) _).Tidy := by
  have hc : ∀ f : Fmt, (client (f.parse wirePrims) : Rd WireError (List UInt8 × List UInt8) _).Tidy :=
    fun f => (parse_clean f).onFst
  have hd : ∀ f : Fmt, (daemon (f.parse wirePrims) : Rd WireError (List UInt8 × List UInt8) _).Tidy :=
    fun f => (parse_clean f).onSnd
  rw [parseHandshake_eq]
  refine (hc _).bind fun _ => (hc _).bind fun _ => (hd _).bind fun _ => (hd _).bind fun _ => ?_
  refine Rd.Tidy.ite (.fail _) (Rd.Tidy.ite (.fail _) ?_)
  exact (hc _).bind fun _ => (hd _).bind fun _ => (hc _).bind fun _ => (hc _).bind fun _ => (hd _).bind fun _ =>
    (hd _).bind fun _ => (hd _).bind fun _ => Rd.Tidy.ite (.fail _) (.pure _)

end

section

variable {τ : Type} {now : Rd WireError (List UInt8) (Option τ)} (hnow : Looks now)

theorem decompileOp_tidy (v : ProtocolVersion) (opCode : UInt64) (t : Option τ) :
    (decompileOp v opCode t : Rd WireError (List UInt8 × List UInt8) _).Tidy :=
  (readOpCall_tidy _ v).onFst.bind fun _ => readStderrWithError_tidy.onSnd.bind fun _ =>
    (readResult_tidy _ v _).onSnd.bind fun _ => .pure _

include hnow

theorem decompileWith_tidy : (decompileWith now : Rd WireError (List UInt8 × List UInt8) _).Tidy := by
  refine parseHandshake_tidy.bind fun info => Rd.Tidy.bind ?_ fun _ => .pure _
  refine iterate_tidy (decompilePass_shrinks hnow _) (by omega) ?_ []
  rintro entries ⟨c, d⟩ q o h
  obtain ⟨opCode, rest, t, _, _, hop⟩ := (decompilePass_stop_iff hnow).mp h
  exact decompileOp_tidy _ _ _ _ _ _ hop

end

/-! ## Asking for too much -/

theorem parse_asks_iff {f : Fmt} {s : List UInt8} :
    (f.parse (wirePrims : Prims WireError (List UInt8))).Panics s ↔ f.Asks wireLimits s := parse_panics_iff wirePrims_lawful

theorem not_panics_free {f : Fmt} (h : f.Free) (s : List UInt8) :
    ¬(f.parse (wirePrims : Prims WireError (List UInt8))).Panics s := fun hp => h.not_asks (parse_asks_iff.mp hp)

theorem free_skipArgs (op : Op) (v : ProtocolVersion) : (skipArgsLayout op v).fmt.Free := by
  cases op
  case addToStore =>
    simp only [skipArgsLayout]
    split <;> simp [Fmt.Free]
  all_goals simp [skipArgsLayout, Fmt.Free]

theorem free_payload (code : StderrCode) : (payloadFmt code).Free := by
  cases code <;> simp [payloadFmt, Fmt.Free]

theorem free_error : errorLayout.fmt.Free := by
  simp [errorLayout, Fmt.Free]

/-- Reading a call asks for too much exactly when the operation's arguments do. -/
theorem readOpCall_panics_iff {op : Op} {v : ProtocolVersion} {c : List UInt8} :
    (readOpCall (some op) v).Panics c ↔ (argsLayout op v).fmt.Asks wireLimits c := by
  rw [readOpCall, Rd.panics_bind, readOpArgs_eq, Layout.parse, Rd.panics_map, parse_asks_iff]
  refine or_iff_left ?_
  intro h
  obtain ⟨call, c₁, _, h⟩ := h
  cases call with
  | some call => simp at h
  | none =>
    rw [Rd.panics_bind, Rd.panics_attempt, skipOpArgs_eq, Layout.parse, Rd.panics_map] at h
    rcases h with h | ⟨_, c₂, _, h⟩
    · exact not_panics_free (free_skipArgs op v) c₁ h
    rw [Rd.panics_bind] at h
    rcases h with h | ⟨_, _, _, h⟩
    · split at h
      · exact not_panics_free (f := .blob) trivial c₂ (Rd.panics_map.mp h)
      · simp at h
    · simp at h

theorem not_panics_stderr (d : List UInt8) : ¬readStderrWithError.Panics d := by
  rw [readStderrWithError, Rd.panics_bind]
  rintro (h | ⟨r, d₁, _, h⟩)
  · obtain ⟨n, count, d₁, _, p, d₂, hpass⟩ := (iterate_panics_iff readStderrPass_shrinks (by omega)).mp h
    obtain ⟨code, s, _, _, hskip⟩ := readStderrPass_stop_iff.mp hpass
    rw [skipStderrPayload_eq] at hskip
    exact not_panics_free (free_payload code) s (Rd.panics_map.mp ⟨p, d₂, hskip⟩)
  · split at h
    · rw [Rd.panics_bind, readErrorInfo_eq, Layout.parse, Rd.panics_map] at h
      rcases h with h | ⟨_, _, _, h⟩
      · exact not_panics_free free_error d₁ h
      · simp at h
    · simp at h

theorem readResult_panics_iff {op : Option Op} {v : ProtocolVersion} {terminal : Option StderrCode} {d : List UInt8} :
    (readResult op v terminal).Panics d ↔
      terminal = some .last ∧ ∃ o, op = some o ∧ (resultLayout o v).fmt.Asks wireLimits d := by
  unfold readResult
  split
  · rename_i hterm
    cases op with
    | none => simp
    | some o =>
      simp only [Rd.panics_bind, Rd.panics_attempt, readDaemonResult_eq, Layout.parse, Rd.panics_map, parse_asks_iff]
      simp [hterm]
  · rename_i hterm
    simp [hterm]

/-- Before an operation: its arguments ask for too much, or its result does. -/
def OpAsks (v : ProtocolVersion) (c d : List UInt8) : Prop :=
  ∃ (op : Op) (rest : List UInt8), c = wordBytes op.code ++ rest ∧
    ((argsLayout op v).fmt.Asks wireLimits rest ∨
      ∃ call c' count e d', (readOpCall (some op) v).run rest = (.ok call, c') ∧
        readStderrWithError.run d = (.ok (⟨count, some .last⟩, e), d') ∧ (resultLayout op v).fmt.Asks wireLimits d')

theorem decompileOp_panics_iff {τ : Type} {v : ProtocolVersion} {opCode : UInt64} {t : Option τ} {c d : List UInt8} :
    (decompileOp v opCode t : Rd WireError _ (Entry τ)).Panics (c, d) ↔ OpAsks v (wordBytes opCode ++ c) d := by
  have hrest : ∀ (call : OpCall) (c' : List UInt8), Rd.Panics (do
      let answer ← daemon readStderrWithError
      let result ← daemon (readResult (Op.fromU64 opCode) v answer.1.terminal)
      let response := { terminal := terminalName answer.1.terminal, stderrCount := answer.1.count, result,
                        error := answer.2 }
      return { timestampMs := t, opCall := call, response := some response, expects := [] } :
        Rd WireError (List UInt8 × List UInt8) (Entry τ)) (c', d) ↔
      ∃ op count e d', Op.fromU64 opCode = some op ∧ readStderrWithError.run d = (.ok (⟨count, some .last⟩, e), d') ∧
        (resultLayout op v).fmt.Asks wireLimits d' := by
    intro call c'
    rw [Rd.panics_bind, daemon, Rd.panics_onSnd]
    constructor
    · rintro (h | ⟨⟨r, e⟩, ⟨_, d'⟩, hrun, h⟩)
      · exact (not_panics_stderr d h).elim
      obtain ⟨hr, rfl⟩ := Rd.onSnd_iff.mp hrun
      rw [Rd.panics_bind, daemon, Rd.panics_onSnd, readResult_panics_iff] at h
      rcases h with ⟨hterm, op, hop, hasks⟩ | ⟨_, _, _, h⟩
      · obtain ⟨count, terminal⟩ := r
        cases hterm
        exact ⟨op, count, e, d', hop, hr, hasks⟩
      · simp at h
    · intro h
      obtain ⟨op, count, e, d', hop, hr, hasks⟩ := h
      refine Or.inr ⟨(⟨count, some .last⟩, e), (c', d'), Rd.onSnd_iff.mpr ⟨hr, rfl⟩, ?_⟩
      rw [Rd.panics_bind, daemon, Rd.panics_onSnd, readResult_panics_iff]
      exact Or.inl ⟨rfl, op, hop, hasks⟩
  rw [decompileOp, Rd.panics_bind, client, Rd.panics_onFst]
  constructor
  · rintro (h | ⟨call, ⟨c', _⟩, hrun, h⟩)
    · cases hop : Op.fromU64 opCode with
      | none =>
        rw [hop, readOpCall] at h
        simp at h
      | some op =>
        rw [hop, readOpCall_panics_iff] at h
        exact ⟨op, c, by rw [Op.code_of_fromU64 hop], Or.inl h⟩
    · obtain ⟨hcall, rfl⟩ := Rd.onFst_iff.mp hrun
      obtain ⟨op, count, e, d', hop, hr, hasks⟩ := (hrest call c').mp h
      rw [hop] at hcall
      exact ⟨op, c, by rw [Op.code_of_fromU64 hop], Or.inr ⟨call, c', count, e, d', hcall, hr, hasks⟩⟩
  · intro h
    obtain ⟨op, rest, hc, h⟩ := h
    obtain ⟨rfl, rfl⟩ := word_append_inj hc
    rw [Op.fromU64_code]
    rcases h with h | ⟨call, c', count, e, d', hcall, hr, hasks⟩
    · exact Or.inl (readOpCall_panics_iff.mpr h)
    · refine Or.inr ⟨call, (c', d), Rd.onFst_iff.mpr ⟨hcall, rfl⟩, ?_⟩
      have hd := (hrest call c').mpr ⟨op, count, e, d', Op.fromU64_code op, hr, hasks⟩
      rwa [Op.fromU64_code] at hd

/-- The handshake comes to a feature count that asks for too much, on the client's side or,
    the client's features read, on the daemon's. -/
def HandshakeAsks (c d : List UInt8) : Prop :=
  ∃ cw sw c₁ d₁, c = wordBytes workerMagic1 ++ (wordBytes cw ++ c₁) ∧ d = wordBytes workerMagic2 ++ (wordBytes sw ++ d₁) ∧
    (min (ProtocolVersion.fromWire cw) (.fromWire sw)).hasFeatures = true ∧
    (setFmt.Asks wireLimits c₁ ∨
      (∃ features bs c₂, setFmt.Enc wireLimits features bs ∧ c₁ = bs ++ c₂) ∧ setFmt.Asks wireLimits d₁)

theorem client_bind_panics_iff {α : Type} {f : Fmt} {k : f.Val → Rd WireError (List UInt8 × List UInt8) α}
    {c d : List UInt8} : (client (f.parse wirePrims) >>= k).Panics (c, d) ↔
      f.Asks wireLimits c ∨ ∃ a bs c', f.Enc wireLimits a bs ∧ c = bs ++ c' ∧ (k a).Panics (c', d) := by
  rw [Rd.panics_bind, client, Rd.panics_onFst, parse_asks_iff]
  refine or_congr_right ⟨?_, ?_⟩
  · intro h
    obtain ⟨a, ⟨c', _⟩, ha, h⟩ := h
    obtain ⟨hread, rfl⟩ := Rd.onFst_iff.mp ha
    obtain ⟨bs, hbs, rfl⟩ := (parse_ok_iff wirePrims_lawful).mp hread
    exact ⟨a, bs, c', hbs, rfl, h⟩
  · intro h
    obtain ⟨a, bs, c', hbs, rfl, h⟩ := h
    exact ⟨a, (c', d), Rd.onFst_iff.mpr ⟨(parse_ok_iff wirePrims_lawful).mpr ⟨bs, hbs, rfl⟩, rfl⟩, h⟩

theorem daemon_bind_panics_iff {α : Type} {f : Fmt} {k : f.Val → Rd WireError (List UInt8 × List UInt8) α}
    {c d : List UInt8} : (daemon (f.parse wirePrims) >>= k).Panics (c, d) ↔
      f.Asks wireLimits d ∨ ∃ a bs d', f.Enc wireLimits a bs ∧ d = bs ++ d' ∧ (k a).Panics (c, d') := by
  rw [Rd.panics_bind, daemon, Rd.panics_onSnd, parse_asks_iff]
  refine or_congr_right ⟨?_, ?_⟩
  · intro h
    obtain ⟨a, ⟨_, d'⟩, ha, h⟩ := h
    obtain ⟨hread, rfl⟩ := Rd.onSnd_iff.mp ha
    obtain ⟨bs, hbs, rfl⟩ := (parse_ok_iff wirePrims_lawful).mp hread
    exact ⟨a, bs, d', hbs, rfl, h⟩
  · intro h
    obtain ⟨a, bs, d', hbs, rfl, h⟩ := h
    exact ⟨a, (c, d'), Rd.onSnd_iff.mpr ⟨(parse_ok_iff wirePrims_lawful).mpr ⟨bs, hbs, rfl⟩, rfl⟩, h⟩

theorem hello_panics_iff {cv sv v : ProtocolVersion} {c d : List UInt8} : (hello cv sv v).Panics (c, d) ↔
    (Fmt.gate v.hasFeatures setFmt).Asks wireLimits c ∨
      (∃ features bs c', (Fmt.gate v.hasFeatures setFmt).Enc wireLimits features bs ∧ c = bs ++ c') ∧
        (Fmt.gate v.hasFeatures setFmt).Asks wireLimits d := by
  rw [hello, client_bind_panics_iff]
  refine or_congr_right ⟨?_, ?_⟩
  · intro h
    obtain ⟨features, bs, c', hbs, hc, h⟩ := h
    rcases daemon_bind_panics_iff.mp h with h | ⟨_, _, _, _, _, h⟩
    · exact ⟨⟨features, bs, c', hbs, hc⟩, h⟩
    -- nothing after the features allocates up front
    rcases client_bind_panics_iff.mp h with h | ⟨_, _, _, _, _, h⟩
    · exact (Fmt.Free.not_asks (f := .gate _ (optFmt .junk)) ⟨trivial, trivial⟩ h).elim
    rcases client_bind_panics_iff.mp h with h | ⟨_, _, _, _, _, h⟩
    · exact (Fmt.Free.not_asks (f := .gate _ .word) trivial h).elim
    rcases daemon_bind_panics_iff.mp h with h | ⟨_, _, _, _, _, h⟩
    · exact (Fmt.Free.not_asks (f := .gate _ .str) trivial h).elim
    rcases daemon_bind_panics_iff.mp h with h | ⟨_, _, _, _, _, h⟩
    · exact (Fmt.Free.not_asks (f := .gate _ .word) trivial h).elim
    rcases daemon_bind_panics_iff.mp h with h | ⟨_, _, _, _, _, h⟩
    · exact (Fmt.Free.not_asks (f := .word) trivial h).elim
    split at h <;> simp at h
  · intro h
    obtain ⟨⟨features, bs, c', hbs, hc⟩, h⟩ := h
    exact ⟨features, bs, c', hbs, hc, daemon_bind_panics_iff.mpr (Or.inl h)⟩

theorem parseHandshake_panics_iff {c d : List UInt8} : parseHandshake.Panics (c, d) ↔ HandshakeAsks c d := by
  rw [parseHandshake_eq]
  constructor
  · intro h
    rcases client_bind_panics_iff.mp h with h | ⟨m₁, _, c₁, rfl, rfl, h₁⟩
    · exact h.elim
    rcases client_bind_panics_iff.mp h₁ with h | ⟨cw, _, c₂, rfl, rfl, h₂⟩
    · exact h.elim
    rcases daemon_bind_panics_iff.mp h₂ with h | ⟨m₂, _, d₁, rfl, rfl, h₃⟩
    · exact h.elim
    rcases daemon_bind_panics_iff.mp h₃ with h | ⟨sw, _, d₂, rfl, rfl, h₄⟩
    · exact h.elim
    split at h₄
    · simp at h₄
    rename_i hm₁
    split at h₄
    · simp at h₄
    rename_i hm₂
    rw [not_not.mp hm₁, not_not.mp hm₂]
    rcases hello_panics_iff.mp h₄ with ⟨hv, h⟩ | ⟨⟨features, bs, c', hbs, hc⟩, hv, h⟩
    · exact ⟨cw, sw, c₂, d₂, rfl, rfl, hv, Or.inl h⟩
    · refine ⟨cw, sw, c₂, d₂, rfl, rfl, hv, Or.inr ⟨?_, h⟩⟩
      cases features with
      | none => cases hv.symm.trans hbs.1
      | some features => exact ⟨features, bs, c', hbs.2, hc⟩
  · intro h
    obtain ⟨cw, sw, c₁, d₁, rfl, rfl, hv, h⟩ := h
    refine client_bind_panics_iff.mpr (Or.inr ⟨workerMagic1, _, _, rfl, rfl, ?_⟩)
    refine client_bind_panics_iff.mpr (Or.inr ⟨cw, _, _, rfl, rfl, ?_⟩)
    refine daemon_bind_panics_iff.mpr (Or.inr ⟨workerMagic2, _, _, rfl, rfl, ?_⟩)
    refine daemon_bind_panics_iff.mpr (Or.inr ⟨sw, _, _, rfl, rfl, ?_⟩)
    rw [if_neg (by simp), if_neg (by simp)]
    refine hello_panics_iff.mpr ?_
    rcases h with h | ⟨⟨features, bs, c', hbs, hc⟩, h⟩
    · exact Or.inl ⟨hv, h⟩
    · exact Or.inr ⟨⟨some features, bs, c', ⟨hv, hbs⟩, hc⟩, hv, h⟩

/-- The decoder comes to a count that asks for more bytes than an allocation may have. -/
def AsksTooMuch (clientBytes daemonBytes : List UInt8) : Prop :=
  HandshakeAsks clientBytes daemonBytes ∨
    ∃ info p q, parseHandshake.run (clientBytes, daemonBytes) = (.ok info, p) ∧
      Relation.ReflTransGen (TakesOp info.negotiatedVersion) p q ∧ OpAsks info.negotiatedVersion q.1 q.2

theorem decompileWith_panics_iff {τ : Type} {now : Rd WireError (List UInt8) (Option τ)} (hnow : Looks now)
    {c d : List UInt8} : (decompileWith now).Panics (c, d) ↔ AsksTooMuch c d := by
  have hpass : ∀ (v : ProtocolVersion) (entries : List (Entry τ)) (q : List UInt8 × List UInt8),
      (decompilePass now v entries).Panics q ↔ OpAsks v q.1 q.2 := by
    rintro v entries ⟨c, d⟩
    rcases word_or_short c with ⟨opCode, rest, rfl⟩ | hshort
    · obtain ⟨t, ht⟩ := hnow (wordBytes opCode ++ rest)
      rw [Rd.Panics, decompilePass_word ht]
      exact Rd.panics_map.trans decompileOp_panics_iff
    · rw [Rd.Panics, decompilePass_short hshort]
      constructor
      · intro h
        obtain ⟨_, _, h⟩ := h
        cases h
      · intro h
        obtain ⟨op, rest, rfl, _⟩ := h
        simp at hshort
  rw [decompileWith, Rd.panics_bind, parseHandshake_panics_iff]
  refine or_congr_right ⟨?_, ?_⟩
  · intro h
    obtain ⟨info, p, hinfo, h⟩ := h
    rcases Rd.panics_bind.mp h with h | ⟨_, _, _, h⟩
    · obtain ⟨n, entries, q, hr, hp⟩ := (iterate_panics_iff (decompilePass_shrinks hnow _) (by omega)).mp h
      exact ⟨info, p, q, hinfo, (reaches_iff hnow).mp ⟨n, entries, hr⟩, (hpass _ _ _).mp hp⟩
    · simp at h
  · intro h
    obtain ⟨info, p, q, hinfo, hr, hp⟩ := h
    obtain ⟨n, entries, hr⟩ := (reaches_iff hnow).mpr hr
    refine ⟨info, p, hinfo, Rd.panics_bind.mpr (Or.inl ?_)⟩
    exact (iterate_panics_iff (decompilePass_shrinks hnow _) (by omega)).mpr ⟨n, entries, q, hr, (hpass _ _ _).mpr hp⟩

/-! ## The contract -/

/-- Each iteration consumes at least eight bytes or fails. -/
def EatsWord {α : Type} (x : Rd WireError (List UInt8) α) : Prop :=
  ∀ s a rest, x.run s = (.ok a, rest) → rest.length + 8 ≤ s.length

/-- The loops over a count read from the wire, by their bodies. -/
structure CountedLoops : Prop where
  set : EatsWord readString
  skipSet : EatsWord skipString
  pairs : EatsWord readPair
  skipPairs : EatsWord skipPair
  fields : EatsWord skipField
  substitutables : EatsWord readSubstitutableElem
  buildResults : ∀ v, EatsWord (skipKeyedBuildResult v)

theorem eatsWord_fmt {f : Fmt} (h : 8 ≤ f.minSize) {α : Type} (g : f.Val → α) : EatsWord (g <$> f.parse wirePrims) := by
  intro s a rest hrun
  obtain ⟨v, hv, _⟩ := Rd.map_ok_iff.mp hrun
  have := parse_length_le wirePrims_lawful hv
  omega

theorem countedLoops : CountedLoops where
  set := by
    rw [readString_eq, ← id_map (Fmt.str.parse wirePrims)]
    exact eatsWord_fmt (by decide) id
  skipSet := by
    rw [skipString_eq]
    exact eatsWord_fmt (by decide) _
  pairs := by
    rw [show (readPair : Rd WireError (List UInt8) _) = id <$> (Fmt.seq .str .str).parse wirePrims from (id_map _).symm]
    exact eatsWord_fmt (by decide) id
  skipPairs := by
    have h : (skipPair : Rd WireError (List UInt8) _) = (fun _ => ()) <$> (Fmt.seq .bytes .bytes).parse wirePrims := by
      simp [skipPair, skipString_eq, Fmt.parse]
    rw [h]
    exact eatsWord_fmt (by decide) _
  fields := by
    rw [skipField_eq]
    exact eatsWord_fmt (by decide) _
  substitutables := by
    rw [readSubstitutableElem_eq]
    exact eatsWord_fmt (by decide) _
  buildResults v := by
    have h : (skipKeyedBuildResult v : Rd WireError (List UInt8) _) =
        (fun _ => ()) <$> (Fmt.seq .bytes (buildResultFmt v)).parse wirePrims := by
      simp [skipKeyedBuildResult, skipString_eq, skipBuildResult_eq, parse_seq]
    rw [h]
    exact eatsWord_fmt (by simp [Fmt.minSize]) _

/-- What unpacking promises on two byte strings. -/
structure Safe {τ : Type} (timestamps : List (Nat × τ)) (clientBytes daemonBytes : List UInt8) : Prop where
  /-- It returns, with a script or an error: no panic, no loop without end. -/
  returns : ∃ m, (∃ script, (decompileStreams timestamps).run (.new clientBytes, .new daemonBytes) = (.ok script, m)) ∨
    ∃ e, (decompileStreams timestamps).run (.new clientBytes, .new daemonBytes) = (.stop (.err e), m)
  /-- Neither position passes the end of its data; in particular nothing unseen is consumed. -/
  inside : ∀ o m, (decompileStreams timestamps).run (.new clientBytes, .new daemonBytes) = (o, m) →
    m.1.position ≤ clientBytes.length ∧ m.2.position ≤ daemonBytes.length
  loops : CountedLoops
  entries : ∀ script m, (decompileStreams timestamps).run (.new clientBytes, .new daemonBytes) = (.ok script, m) →
    script.entries.length ≤ clientBytes.length / 8

/-- Unpacking keeps its promises exactly when the decoder comes to no count that asks for
    too much. -/
theorem safe_iff {τ : Type} (timestamps : List (Nat × τ)) (clientBytes daemonBytes : List UInt8) :
    Safe timestamps clientBytes daemonBytes ↔ ¬AsksTooMuch clientBytes daemonBytes := by
  have hnow := timestampLeft_looks timestamps clientBytes.length
  have hrel := decompile_rel timestamps clientBytes daemonBytes
  constructor
  · rintro ⟨⟨m, h⟩, _, _, _⟩ hasks
    obtain ⟨p, q, hpanic⟩ := (decompileWith_panics_iff hnow).mpr hasks
    rcases h with ⟨script, h⟩ | ⟨e, h⟩
    · obtain ⟨_, hflat, _⟩ := mem_runs hrel h
      cases hflat.symm.trans hpanic
    · obtain ⟨_, hflat, _⟩ := mem_runs hrel h
      cases hflat.symm.trans hpanic
  · intro hasks
    refine ⟨?_, ?_, countedLoops, ?_⟩
    · rcases h : (decompileStreams timestamps).run (.new clientBytes, .new daemonBytes) with ⟨script | o, m⟩
      · exact ⟨m, Or.inl ⟨script, rfl⟩⟩
      · obtain ⟨q, hflat, _⟩ := mem_runs hrel h
        rcases decompileWith_tidy hnow _ _ _ hflat with ⟨e, rfl⟩ | rfl
        · exact ⟨m, Or.inr ⟨e, rfl⟩⟩
        · exact absurd ((decompileWith_panics_iff hnow).mp ⟨_, _, hflat⟩) hasks
    · intro o m h
      obtain ⟨q, _, hleft⟩ := mem_runs hrel h
      refine ⟨?_, ?_⟩
      · have := hleft.1.2.1
        show m.1.pos ≤ _
        omega
      · have := hleft.2.2.1
        show m.2.pos ≤ _
        omega
    · intro script m h
      obtain ⟨q, hflat, _⟩ := mem_runs hrel h
      obtain ⟨info, p, n, hinfo, hr, _, _⟩ := (decompileWith_ok_iff hnow).mp hflat
      have hlen := reaches_length hnow hr
      have hsize : clientSize q + 8 * n ≤ clientSize p := hr.size_le (decompilePass_shrinks hnow _)
      have hfwd : p.1.length ≤ clientBytes.length := by
        obtain ⟨_, _, _, _, _, _, _, cb, _, _, _, _, _, _, hc, _⟩ := parseHandshake_ok_iff.mp hinfo
        rw [hc]
        simp only [List.length_append]
        omega
      have hp : clientSize p = p.1.length := rfl
      rw [Nat.le_div_iff_mul_le (by omega)]
      simp only [List.length_nil] at hlen
      omega

/-- A client that announces 2^63 features at 1.38. -/
theorem unsafe_features : ¬Safe ([] : List (Nat × Nat)) ([workerMagic1, 0x0126, 0x8000000000000000].flatMap wordBytes)
    ([workerMagic2, 0x0126].flatMap wordBytes) := by
  intro h
  obtain ⟨⟨m, h⟩, _, _, _⟩ := h
  have hpanic : ((decompileStreams ([] : List (Nat × Nat))).run
      (.new ([workerMagic1, 0x0126, 0x8000000000000000].flatMap wordBytes),
        .new ([workerMagic2, 0x0126].flatMap wordBytes))).1 = .stop (.panic .capacityOverflow) := by decide
  rcases h with ⟨script, h⟩ | ⟨e, h⟩
  · rw [h] at hpanic
    cases hpanic
  · rw [h] at hpanic
    cases hpanic

end NixWire
