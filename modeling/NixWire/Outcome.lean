/-
  NixWire.Outcome — what a program's reading future comes to (script.rs, replay.rs).

  A daemon's stream is a hello and a response for each operation. Off any reader that serves
  its bytes and cuts none of its stderr codes, the future that reads the responses of a run,
  or of a replay, comes to one outcome (`readFut_comesTo`, `receive_comesTo`); and it lags
  behind itself over a reader that has more.
-/

import NixWire.Replay
import NixWire.Run
import NixWire.Served

namespace NixWire.Pipes

open Base

/-! ## One outcome -/

/-- `bs` is a complete response to `op`. -/
def Complete (op : Op) (v : ProtocolVersion) (bs : List UInt8) : Prop := ∃ response : Response, response.Enc op v bs

section

variable {α : Type}

/-- No code is cut that is come to at the start of a response. -/
def AllWhole (responses : List (List UInt8)) (whole : List UInt8 → Prop) : Prop :=
  ∀ before after, responses = before ++ after → whole after.flatten

/-- Off any reader that serves the bytes of a hello and responses, the future comes to `a` and
    leaves bytes that `left` is true of. -/
def ComesTo (hello : List UInt8) (responses : List (List UInt8)) (x : (R : Type) → [BufRead R] → Rd WireError R α) (a : α)
    (left : List UInt8 → Prop) : Prop :=
  ∀ (R : Type) [BufRead R] (ρ : R → List UInt8 → Prop) (whole : List UInt8 → Prop), Serving ρ → ServesStderr ρ whole →
    AllWhole responses whole → ∀ r, ρ r (hello ++ responses.flatten) → ∃ r' s', (x R).run r = (.ok a, r') ∧ ρ r' s' ∧ left s'

/-- It lags behind itself. -/
def LagsAlways (x : (R : Type) → [BufRead R] → Rd WireError R α) : Prop :=
  ∀ (R S : Type) [BufRead R] [BufRead S] (ρ : R → S → Prop), Behind ρ → Lags ρ (x R) (x S)

theorem listServing : Serving (fun (r s : List UInt8) => r = s) where
  exact e n := by
    intro r s s' a h hs
    exact ⟨s', by rw [h]; exact hs, rfl⟩
  size r s h := Nat.le_of_eq (by rw [h]; rfl)

theorem listServesStderr : ServesStderr (fun (r s : List UInt8) => r = s) (fun _ => True) := by
  intro r s s' count code h _ hs
  exact ⟨s', by rw [h]; exact hs, rfl⟩

variable {hello : List UInt8} {responses : List (List UInt8)} {x : (R : Type) → [BufRead R] → Rd WireError R α} {a : α}
  {left : List UInt8 → Prop}

/-- It comes to the same on the bytes at once. -/
theorem ComesTo.plain (h : ComesTo hello responses x a left) :
    ∃ rest, (x (List UInt8)).run (hello ++ responses.flatten) = (.ok a, rest) ∧ left rest := by
  obtain ⟨r', s', hrun, rfl, hleft⟩ := h (List UInt8) _ _ listServing listServesStderr (fun _ _ _ => trivial) _ rfl
  exact ⟨r', hrun, hleft⟩

end

/-! ## A run -/

section

variable {R : Type} [BufRead R] {ρ : R → List UInt8 → Prop} {whole : List UInt8 → Prop}

theorem readStderrWithError_served (hserving : Serving ρ) (hstderr : ServesStderr ρ whole) {r : R} {s s' : List UInt8}
    {count : UInt64} {code : StderrCode} {info : Option ErrorInfo} (hr : ρ r s) (hwhole : whole s)
    (h : readStderrWithError.run s = (.ok (⟨count, some code⟩, info), s')) :
    ∃ r', readStderrWithError.run r = (.ok (⟨count, some code⟩, info), r') ∧ ρ r' s' := by
  obtain ⟨s₁, hloop, -⟩ := readStderrWithError_ok_iff.mp h
  obtain ⟨r₁, hr₁, h₁⟩ := hstderr hr hwhole hloop
  rw [readStderrWithError, Rd.bind_ok hloop] at h
  rw [readStderrWithError, Rd.bind_ok hr₁]
  exact (Serves.ite ((readErrorInfo_serves hserving).bind fun _ => Serves.pure _) (Serves.pure _)).run h₁ h

end

/-- A complete response is read alike off every reader that serves it. -/
theorem readLive_served {op : Op} {v : ProtocolVersion} {bs : List UInt8} (h : Complete op v bs) :
    ∃ response, ∀ (R : Type) [BufRead R] (ρ : R → List UInt8 → Prop) (whole : List UInt8 → Prop), Serving ρ →
      ServesStderr ρ whole → ∀ r rest, ρ r (bs ++ rest) → whole (bs ++ rest) →
        ∃ r', (readLive op v).run r = (.ok response, r') ∧ ρ r' rest := by
  obtain ⟨⟨messages, ending⟩, hbs⟩ := h
  cases ending with
  | last result =>
    refine ⟨⟨terminalName (some .last), UInt64.ofNat (messages.length + 1), some result, none⟩, ?_⟩
    intro R _ ρ whole hserving hstderr r rest hr hwhole
    obtain ⟨⟨stderrResult, info⟩, s₁, hloop, hafter⟩ := Rd.bind_ok_iff.mp (readResponse_enc hbs rest)
    by_cases hlast : stderrResult.terminal = some .last
    · simp only [if_pos hlast] at hafter
      obtain ⟨result', s₂, hresult, hpure⟩ := Rd.bind_ok_iff.mp hafter
      obtain ⟨count, terminal⟩ := stderrResult
      obtain rfl : terminal = some .last := hlast
      cases hpure
      obtain ⟨r₁, hr₁, h₁⟩ := readStderrWithError_served hserving hstderr hr hwhole hloop
      obtain ⟨r₂, hr₂, h₂⟩ := (readDaemonResult_serves hserving op v).run h₁ hresult
      have hattempt : (Except.toOption <$> (readDaemonResult op v).attempt).run r₁ = (.ok (some result), r₂) :=
        Rd.map_ok_iff.mpr ⟨.ok result, Rd.attempt_ok hr₂, rfl⟩
      refine ⟨r₂, ?_, h₂⟩
      rw [readLive, Rd.bind_ok hr₁]
      simp only [if_true]
      rw [Rd.bind_ok hattempt]
      rfl
    · simp only [if_neg hlast] at hafter
      cases hafter
  | error payload =>
    refine ⟨⟨terminalName (some .error), UInt64.ofNat (messages.length + 1), none, some (errorLayout.of payload)⟩, ?_⟩
    intro R _ ρ whole hserving hstderr r rest hr hwhole
    obtain ⟨⟨stderrResult, info⟩, s₁, hloop, hafter⟩ := Rd.bind_ok_iff.mp (readResponse_enc hbs rest)
    by_cases hlast : stderrResult.terminal = some .last
    · simp only [if_pos hlast] at hafter
      obtain ⟨result', s₂, hresult, hpure⟩ := Rd.bind_ok_iff.mp hafter
      cases hpure
    · simp only [if_neg hlast] at hafter
      cases hafter
      obtain ⟨r₁, hr₁, h₁⟩ := readStderrWithError_served hserving hstderr hr hwhole hloop
      refine ⟨r₁, ?_, h₁⟩
      rw [readLive, Rd.bind_ok hr₁]
      rfl

section

variable {τ : Type} (isMatch : Str → Str → Bool) (debug : Expect → Str) (failFast : Bool)

/-- So are the responses to the entries, as far as the process reads. -/
theorem readEntries_served {v : ProtocolVersion} {entries : List (Entry τ)} {responses : List (List UInt8)}
    (h : List.Forall₂ (fun entry bs => Complete entry.opCall.op v bs) entries responses) (t : Tally) :
    ∃ e, ∀ (R : Type) [BufRead R] (ρ : R → List UInt8 → Prop) (whole : List UInt8 → Prop), Serving ρ →
      ServesStderr ρ whole → AllWhole responses whole → ∀ r, ρ r responses.flatten →
        ∃ r' s', (readEntries isMatch failFast v entries t).run r = (.ok e, r') ∧ ρ r' s' ∧ (e = .exited ∨ s' = []) := by
  induction h generalizing t with
  | nil => exact ⟨_, fun R _ ρ whole _ _ _ r hr => ⟨r, [], rfl, hr, Or.inr rfl⟩⟩
  | @cons entry bs entries responses hbs _ ih =>
    obtain ⟨response, hread⟩ := readLive_served hbs
    cases hjudge : judge failFast (evaluateExpects isMatch entry.expects response) t with
    | none =>
      refine ⟨.exited, fun R _ ρ whole hserving hstderr hwhole r hr => ?_⟩
      obtain ⟨r', hrun, h'⟩ := hread R ρ whole hserving hstderr r responses.flatten hr (hwhole [] _ rfl)
      refine ⟨r', responses.flatten, ?_, h', Or.inl rfl⟩
      rw [readEntries, Rd.bind_ok hrun]
      simp only [hjudge]
      rfl
    | some t' =>
      obtain ⟨e, hrest⟩ := ih t'
      refine ⟨e, fun R _ ρ whole hserving hstderr hwhole r hr => ?_⟩
      obtain ⟨r₁, hrun, h₁⟩ := hread R ρ whole hserving hstderr r responses.flatten hr (hwhole [] _ rfl)
      obtain ⟨r', s', hrun', h', hend⟩ := hrest R ρ whole hserving hstderr
        (fun before after heq => hwhole (bs :: before) after (congrArg (bs :: ·) heq)) r₁ h₁
      refine ⟨r', s', ?_, h', hend⟩
      rw [readEntries, Rd.bind_ok hrun]
      simp only [hjudge]
      exact hrun'

variable {entries : List (Entry τ)} (preambleExpects : List Expect) {version : ProtocolVersion} {info : HandshakeInfo}
  {hello : List UInt8} {responses : List (List UInt8)}

/-- The future of a run comes to one outcome. -/
theorem readFut_comesTo (hhello : ∀ rest, (parseDaemonHandshake version).run (hello ++ rest) = (.ok info, rest))
    (h : List.Forall₂ (fun entry bs => Complete entry.opCall.op (min version info.serverVersion) bs) entries responses) :
    ∃ e, ComesTo hello responses (fun _ _ => readFut isMatch debug failFast entries preambleExpects version) e
      fun rest => e = .exited ∨ rest = [] := by
  cases hjudge : judge failFast (evaluateHandshakeExpects isMatch debug preambleExpects info) ⟨0, 0, 0⟩ with
  | none =>
    refine ⟨.exited, fun R _ ρ whole hserving _ _ r hr => ?_⟩
    obtain ⟨r', hrun, h'⟩ := (parseDaemonHandshake_serves hserving version).run hr (hhello responses.flatten)
    refine ⟨r', responses.flatten, ?_, h', Or.inl rfl⟩
    show (readFut isMatch debug failFast entries preambleExpects version).run r = _
    rw [readFut, Rd.bind_ok hrun]
    simp only [hjudge]
    rfl
  | some t =>
    obtain ⟨e, hentries⟩ := readEntries_served isMatch failFast h t
    refine ⟨e, fun R _ ρ whole hserving hstderr hwhole r hr => ?_⟩
    obtain ⟨r₁, hrun, h₁⟩ := (parseDaemonHandshake_serves hserving version).run hr (hhello responses.flatten)
    obtain ⟨r', s', hrun', h', hend⟩ := hentries R ρ whole hserving hstderr hwhole r₁ h₁
    refine ⟨r', s', ?_, h', hend⟩
    show (readFut isMatch debug failFast entries preambleExpects version).run r = _
    rw [readFut, Rd.bind_ok hrun]
    simp only [hjudge]
    exact hrun'

theorem readFut_lags {R S : Type} [BufRead R] [BufRead S] {ρ : R → S → Prop} (h : Behind ρ) (entries : List (Entry τ))
    (preambleExpects : List Expect) (version : ProtocolVersion) :
    Lags ρ (readFut isMatch debug failFast entries preambleExpects version)
      (readFut isMatch debug failFast entries preambleExpects version) := by
  have hlive (op : Op) (v : ProtocolVersion) : Lags ρ (readLive op v) (readLive op v) :=
    (readStderrWithError_lags h).bind fun _ =>
      (Lags.ite ((readDaemonResult_lags h op v).attempt.map _) (Lags.pure none)).bind fun _ => Lags.pure _
  have hentries (v : ProtocolVersion) (t : Tally) :
      Lags ρ (readEntries isMatch failFast v entries t) (readEntries isMatch failFast v entries t) := by
    induction entries generalizing t with
    | nil => exact Lags.pure _
    | cons entry entries ih =>
      refine (hlive _ v).bind fun response => ?_
      cases judge failFast (evaluateExpects isMatch entry.expects response) t with
      | none => exact Lags.pure _
      | some t => exact ih t
  refine (parseDaemonHandshake_lags h version).bind fun info => ?_
  dsimp only
  cases judge failFast (evaluateHandshakeExpects isMatch debug preambleExpects info) ⟨0, 0, 0⟩ with
  | none => exact Lags.pure _
  | some t => exact hentries _ t

end

/-! ## A replay -/

/-- `bs` answers the operation: messages, STDERR_LAST, and the result, which nobody expects
    of an unknown operation. -/
def Answered (v : ProtocolVersion) (op : Option Op) (bs : List UInt8) : Prop :=
  ∃ (messages : List Message) (parts : List (List UInt8)) (result : List UInt8), List.Forall₂ Message.Enc messages parts ∧
    bs = parts.flatten ++ (wordBytes StderrCode.last.code ++ result) ∧
    match op with
    | some o => ∀ rest, (skipDaemonResult o v).run (result ++ rest) = (.ok (), rest)
    | none => result = []

/-- The future that receives; its count, or its error, waits for the sender (`join!`). -/
def replayFut {R : Type} [BufRead R] (compare : Bool) (preParse : PreParseResult) : Rd WireError R ReadEnd :=
  (fun _ => .returned) <$> (receiveDaemonResponses compare preParse).attempt

theorem receiveOps_lags {R S : Type} [BufRead R] [BufRead S] {ρ : R → S → Prop} (h : Behind ρ) (compare : Bool)
    (v : ProtocolVersion) (ops : List (Option Op)) (n : Nat) :
    Lags ρ (receiveOps compare v ops n) (receiveOps compare v ops n) := by
  have hskip (o : Op) : Lags ρ (skipDaemonResult o v) (skipDaemonResult o v) := by
    rw [skipDaemonResult_eq, skipDaemonResult_eq]
    exact (parse_lags (wirePrims_lag h) _).map _
  have hresult (op : Option Op) (terminal : Option StderrCode) (n : Nat) :
      Lags ρ (receiveResult compare op v terminal n) (receiveResult compare op v terminal n) := by
    refine Lags.ite ?_ (Lags.ite (Lags.pure _) (Lags.pure _))
    cases op with
    | none => exact Lags.pure _
    | some o =>
      refine (hskip o).attempt.bind fun result => ?_
      cases result with
      | error e => exact Lags.pure _
      | ok u => exact Lags.pure _
  have hloop : Lags ρ readStderrLoop readStderrLoop := h.readLoop (readStderrPass_lags h) 0
  induction ops generalizing n with
  | nil => exact Lags.pure _
  | cons op ops ih =>
    refine hloop.attempt.bind fun stderrResult => ?_
    cases stderrResult with
    | error e => exact Lags.pure _
    | ok stderrResult => exact (hresult op _ n).bind fun m => ih m

theorem receive_lags (compare : Bool) (preParse : PreParseResult) :
    LagsAlways (fun _ _ => receiveDaemonResponses compare preParse) := by
  intro R S _ _ ρ h
  exact (parseDaemonHandshake_lags h preParse.clientVersion).bind fun info => receiveOps_lags h compare _ _ 0

section

variable {v : ProtocolVersion} (compare : Bool)

/-- Answers are received alike off every reader that serves them, and not counted. -/
theorem receiveOps_past {ops : List (Option Op)} {responses : List (List UInt8)}
    (h : List.Forall₂ (Answered v) ops responses) (more : List (Option Op)) (n : Nat) {R : Type} [BufRead R]
    {ρ : R → List UInt8 → Prop} {whole : List UInt8 → Prop} (hserving : Serving ρ) (hstderr : ServesStderr ρ whole)
    {rest : List UInt8} (hwhole : ∀ before after, responses = before ++ after → whole (after.flatten ++ rest)) {r : R}
    (hr : ρ r (responses.flatten ++ rest)) :
    ∃ r', (receiveOps compare v (ops ++ more) n).run r = (receiveOps compare v more n).run r' ∧ ρ r' rest := by
  induction h generalizing r with
  | nil => exact ⟨r, rfl, hr⟩
  | @cons op bs ops responses hbs _ ih =>
    obtain ⟨messages, parts, result, hparts, rfl, hresult⟩ := hbs
    have hfirst := hwhole [] _ rfl
    rw [List.flatten_cons, List.append_assoc, List.append_assoc, List.append_assoc] at hr hfirst
    obtain ⟨r₁, hloop, h₁⟩ := hstderr hr hfirst (readStderrLoop_terminal hparts rfl (result ++ (responses.flatten ++ rest)))
    have hmore : ∃ r₂, (receiveResult compare op v (some .last) n).run r₁ = (.ok n, r₂) ∧ ρ r₂ (responses.flatten ++ rest) := by
      unfold receiveResult
      rw [if_pos rfl]
      cases op with
      | none =>
        obtain rfl : result = [] := hresult
        exact ⟨r₁, rfl, h₁⟩
      | some o =>
        obtain ⟨r₂, hskip, h₂⟩ := (skipDaemonResult_serves hserving o v).run h₁ (hresult (responses.flatten ++ rest))
        refine ⟨r₂, ?_, h₂⟩
        dsimp only
        rw [Rd.bind_ok (Rd.attempt_ok hskip)]
        rfl
    obtain ⟨r₂, hreceive, h₂⟩ := hmore
    obtain ⟨r', hrun, h'⟩ := ih (fun before after heq => hwhole (_ :: before) after (congrArg (_ :: ·) heq)) h₂
    refine ⟨r', ?_, h'⟩
    rw [List.cons_append, receiveOps, Rd.bind_ok (Rd.attempt_ok hloop)]
    exact (Rd.bind_ok hreceive).trans hrun

theorem receive_comesTo {preParse : PreParseResult} {info : HandshakeInfo} {hello : List UInt8}
    {responses : List (List UInt8)}
    (hhello : ∀ rest, (parseDaemonHandshake preParse.clientVersion).run (hello ++ rest) = (.ok info, rest))
    (h : List.Forall₂ (Answered (min preParse.clientVersion info.serverVersion)) preParse.ops responses) :
    ComesTo hello responses (fun _ _ => receiveDaemonResponses compare preParse) 0 (· = []) := by
  intro R _ ρ whole hserving hstderr hwhole r hr
  obtain ⟨r₁, hrun, h₁⟩ := (parseDaemonHandshake_serves hserving _).run hr (hhello responses.flatten)
  rw [← List.append_nil responses.flatten] at h₁
  obtain ⟨r', hrun', h'⟩ := receiveOps_past compare h [] 0 hserving hstderr
    (fun before after heq => by rw [List.append_nil]; exact hwhole before after heq) h₁
  refine ⟨r', [], ?_, h', rfl⟩
  show (receiveDaemonResponses compare preParse).run r = _
  rw [receiveDaemonResponses, Rd.bind_ok hrun]
  rw [List.append_nil] at hrun'
  exact hrun'

end

end NixWire.Pipes
