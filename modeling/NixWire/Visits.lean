/-
  NixWire.Visits — one walk over a recording (decode.rs, replay.rs, stats.rs).

  `decode`, `replay` and `stats` each have a loop of their own over the two streams of a
  recording. `visitPass` is what the passes of the first two have in common, and keeps all
  that a pass sees of an operation: a request or a result that cannot be skipped does not
  stop it, only a message of the daemon that cannot be read.

  - `decode_text` and `pre_parse_recording` are the walk with its visits rewritten
    (`decodeText_visits`, `preParseRecording_visits`): they end alike on any streams, and
    name the same operations (`replay_follows_decode`).
  - `collect_ops` and `decompile_streams` without their times are one computation each
    (`collectOps_untimed`, `decompile_untimed`).
  - So what the tools say of a recording, times and durations apart, is fixed by the bytes
    of its two directions (`traffic_decides`), however they were cut into records and
    interleaved.
-/

import NixWire.Chunked
import NixWire.Consumed
import NixWire.Packed

namespace NixWire

open Base

/-! ## Visits -/

/-- What one pass sees of an operation, with the positions it passes. -/
structure Visit where
  start : Nat
  opCode : UInt64
  /-- The skipped arguments; none where the operation is unknown. -/
  argInfo : Option (Except WireError (Option Str))
  framed : Option (Except WireError UInt64)
  requestEnd : Nat
  responseStart : Nat
  stderrResult : StderrResult
  /-- The skipped result, if there was one to skip. -/
  result : Option (Except WireError Unit)
  responseEnd : Nat

def Visit.op (x : Visit) : Option Op := Op.fromU64 x.opCode

def visitRequest (op : Option Op) (v : ProtocolVersion) :
    Rd WireError Streams (Option (Except WireError (Option Str)) × Option (Except WireError UInt64)) :=
  match op with
  | some o => do
    let argInfo ← client (skipOpArgs o v).attempt
    if usesFramed v && opHasClientFramedData o then
      let total ← client skipFramed.attempt
      return (some argInfo, some total)
    else return (some argInfo, none)
  | none => return (none, none)

def visitResult (op : Option Op) (v : ProtocolVersion) (terminal : Option StderrCode) :
    Rd WireError Streams (Option (Except WireError Unit)) :=
  match op with
  | some o => if terminal = some .last then some <$> daemon (skipDaemonResult o v).attempt else pure none
  | none => pure none

def visitPass (v : ProtocolVersion) (visits : List Visit) : Rd WireError Streams (List Visit ⊕ List Visit) := do
  let start ← client position
  match ← client peekU64 with
  | none => return .inr visits
  | some opCode =>
    let _ ← client (consume 8)
    let (argInfo, framed) ← visitRequest (Op.fromU64 opCode) v
    let requestEnd ← client position
    let responseStart ← daemon position
    let stderrResult ← daemon readStderrLoop
    let result ← visitResult (Op.fromU64 opCode) v stderrResult.terminal
    let responseEnd ← daemon position
    return .inl (visits ++ [{ start, opCode, argInfo, framed, requestEnd, responseStart, stderrResult, result, responseEnd }])

def walk : Rd WireError Streams (HandshakeInfo × List Visit) := do
  let info ← parseHandshake
  let visits ← Rd.iterate clientSize (visitPass info.negotiatedVersion) []
  return (info, visits)

/-- One pass of the walk from `m` to `m'`, with what it sees. -/
def Visited (v : ProtocolVersion) (m : Streams) (x : Visit) (m' : Streams) : Prop :=
  ∃ m₁ m₂ m₃ : Streams, (client peekU64).run m = (.ok (some x.opCode), m₁) ∧
    (visitRequest x.op v).run (BufRead.consume 8 m₁.1, m₁.2) = (.ok (x.argInfo, x.framed), m₂) ∧
    (daemon readStderrLoop).run m₂ = (.ok x.stderrResult, m₃) ∧
    (visitResult x.op v x.stderrResult.terminal).run m₃ = (.ok x.result, m') ∧
    x.start = m.1.position ∧ x.requestEnd = m₂.1.position ∧ x.responseStart = m₂.2.position ∧ x.responseEnd = m'.2.position

/-! ## Running what leaves the streams alone -/

section

variable {α β : Type}

theorem clientPosition_bind (f : Nat → Rd WireError Streams α) (m : Streams) :
    (client position >>= f).run m = (f m.1.position).run m := rfl

theorem daemonPosition_bind (f : Nat → Rd WireError Streams α) (m : Streams) :
    (daemon position >>= f).run m = (f m.2.position).run m := rfl

/-- Two ways to go on that agree on every outcome. -/
theorem bind_run_congr {x : Rd WireError Streams α} {f g : α → Rd WireError Streams β} {m : Streams}
    (h : ∀ a m', (f a).run m' = (g a).run m') : (x >>= f).run m = (x >>= g).run m := by
  rw [Rd.run_bind, Rd.run_bind]
  rcases x.run m with ⟨a | o, m'⟩
  · exact h a m'
  · rfl

/-- A value that is read and dropped. -/
theorem bind_run_drop {x : Rd WireError Streams Unit} {y : Rd WireError Streams α} (hxy : x = (fun _ => ()) <$> y)
    {f : Unit → Rd WireError Streams β} {g : α → Rd WireError Streams β} {m : Streams}
    (h : ∀ a m', (f ()).run m' = (g a).run m') : (x >>= f).run m = (y >>= g).run m := by
  rw [hxy, bind_map_left]
  exact bind_run_congr h

/-- A loop whose passes correspond to another's, item by item. -/
theorem iterate_map {γ δ : Type} {body : List γ → Rd WireError Streams (List γ ⊕ List γ)}
    {body' : List δ → Rd WireError Streams (List δ ⊕ List δ)} {see : γ → δ}
    (h : ∀ acc, body' (acc.map see) = Sum.map (List.map see) (List.map see) <$> body acc) :
    Rd.iterate clientSize body' [] = List.map see <$> Rd.iterate clientSize body [] := by
  ext1 m
  exact congrArg (fun x => x.run m) (loop_map h (clientSize m + 1) [])

/-- A handshake and then a loop, over passes that correspond. -/
theorem iterate_visits {γ : Type} {body : ProtocolVersion → List γ → Rd WireError Streams (List γ ⊕ List γ)} {see : Visit → γ}
    (h : ∀ v visits, body v (visits.map see) = Sum.map (List.map see) (List.map see) <$> visitPass v visits)
    (k : HandshakeInfo → List γ → α) :
    (do let info ← parseHandshake
        let seen ← Rd.iterate clientSize (body info.negotiatedVersion) []
        return k info seen) = (fun p => k p.1 (p.2.map see)) <$> walk := by
  unfold walk
  rw [map_bind]
  congr 1
  funext info
  rw [iterate_map (h info.negotiatedVersion), bind_map_left, map_bind]
  rfl

end

/-! ## One pass -/

section

variable {v : ProtocolVersion} {visits out : List Visit} {m m' : Streams}

theorem visitPass_inl_iff : (visitPass v visits).run m = (.ok (.inl out), m') ↔
    ∃ x, Visited v m x m' ∧ out = visits ++ [x] := by
  unfold visitPass
  rw [clientPosition_bind]
  constructor
  · intro h
    obtain ⟨code, m₁, hpeek, h⟩ := Rd.bind_ok_iff.mp h
    cases code with
    | none => cases h
    | some opCode =>
      obtain ⟨_, m₁', htake, h⟩ := Rd.bind_ok_iff.mp h
      cases htake
      obtain ⟨request, m₂, hrequest, h⟩ := Rd.bind_ok_iff.mp h
      rw [clientPosition_bind, daemonPosition_bind] at h
      obtain ⟨stderrResult, m₃, hloop, h⟩ := Rd.bind_ok_iff.mp h
      obtain ⟨result, m₄, hresult, h⟩ := Rd.bind_ok_iff.mp h
      cases h
      exact ⟨⟨_, opCode, _, _, _, _, stderrResult, result, _⟩,
        ⟨m₁, m₂, m₃, hpeek, hrequest, hloop, hresult, rfl, rfl, rfl, rfl⟩, rfl⟩
  · intro h
    obtain ⟨⟨_, opCode, _, _, _, _, stderrResult, result, _⟩, ⟨m₁, m₂, m₃, hpeek, hrequest, hloop, hresult, hpos⟩, rfl⟩ := h
    obtain ⟨rfl, rfl, rfl, rfl⟩ := hpos
    have htake : (client (consume 8)).run m₁ = (.ok (), (BufRead.consume 8 m₁.1, m₁.2)) := rfl
    rw [Rd.bind_ok hpeek]
    simp only
    rw [Rd.bind_ok htake]
    refine (Rd.bind_ok hrequest).trans ?_
    rw [clientPosition_bind, daemonPosition_bind, Rd.bind_ok hloop]
    exact Rd.bind_ok hresult

/-- A pass that ends the walk sees nothing. -/
theorem visitPass_inr_iff : (visitPass v visits).run m = (.ok (.inr out), m') ↔
    (client peekU64).run m = (.ok none, m') ∧ out = visits := by
  unfold visitPass
  rw [clientPosition_bind, Rd.bind_ok_iff]
  constructor
  · intro h
    obtain ⟨code, m₁, hpeek, h⟩ := h
    cases code with
    | none =>
      cases h
      exact ⟨hpeek, rfl⟩
    | some opCode =>
      obtain ⟨_, _, _, h⟩ := Rd.bind_ok_iff.mp h
      obtain ⟨_, _, _, h⟩ := Rd.bind_ok_iff.mp h
      rw [clientPosition_bind, daemonPosition_bind] at h
      obtain ⟨_, _, _, h⟩ := Rd.bind_ok_iff.mp h
      obtain ⟨_, _, _, h⟩ := Rd.bind_ok_iff.mp h
      cases h
  · intro h
    obtain ⟨hpeek, rfl⟩ := h
    exact ⟨none, m', hpeek, rfl⟩

theorem skipFramed_forward : Forward (skipFramed : Rd WireError (List UInt8) UInt64) := by
  rw [skipFramed_eq]
  exact readFramed_forward.map _

theorem readStderrLoop_forward : Forward (readStderrLoop : Rd WireError (List UInt8) StderrResult) :=
  Forward.readLoop readStderrPass_forward 0

theorem skipDaemonResult_forward (o : Op) (v : ProtocolVersion) :
    Forward (skipDaemonResult o v : Rd WireError (List UInt8) Unit) := by
  rw [skipDaemonResult_eq]
  exact (parse_forward wirePrims_forward _).map _

/-- The request is taken from the client alone. -/
theorem visitRequest_client {C c : List UInt8} {op : Option Op} {r q : MemReader}
    {request : Option (Except WireError (Option Str)) × Option (Except WireError UInt64)} (hr : MemReader.Left C r c)
    (h : (visitRequest op v).run (r, q) = (.ok request, m')) :
    ∃ c', MemReader.Left C m'.1 c' ∧ m'.2 = q ∧ c'.length ≤ c.length := by
  cases op with
  | none =>
    cases h
    exact ⟨c, hr, rfl, Nat.le_refl _⟩
  | some o =>
    unfold visitRequest at h
    obtain ⟨args, r₁, hargs, h⟩ := Rd.onFst_bind_ok_iff.mp h
    obtain ⟨c₁, hlist₁, h₁⟩ := (skipOpArgs_rel MemReader.mirrors o v).attempt.followed hr hargs
    have hle₁ : c₁.length ≤ c.length := ((skipOpArgs_forward o v).attempt.of_run hlist₁).length_le
    by_cases hframed : (usesFramed v && opHasClientFramedData o) = true
    · rw [if_pos hframed] at h
      obtain ⟨framed, r₂, hskip, h⟩ := Rd.onFst_bind_ok_iff.mp h
      obtain ⟨c₂, hlist₂, h₂⟩ := (skipFramed_rel MemReader.delivers).attempt.followed h₁ hskip
      cases h
      have hle₂ : c₂.length ≤ c₁.length := (skipFramed_forward.attempt.of_run hlist₂).length_le
      exact ⟨c₂, h₂, rfl, hle₂.trans hle₁⟩
    · rw [if_neg hframed] at h
      cases h
      exact ⟨c₁, h₁, rfl, hle₁⟩

/-- The response is taken from the daemon alone. -/
theorem visitResult_daemon {D d : List UInt8} {op : Option Op} {terminal : Option StderrCode} {r q : MemReader}
    {result : Option (Except WireError Unit)} (hq : MemReader.Left D q d)
    (h : (visitResult op v terminal).run (r, q) = (.ok result, m')) :
    ∃ d', MemReader.Left D m'.2 d' ∧ m'.1 = r ∧ d'.length ≤ d.length := by
  unfold visitResult at h
  cases op with
  | none =>
    cases h
    exact ⟨d, hq, rfl, Nat.le_refl _⟩
  | some o =>
    simp only at h
    by_cases hlast : terminal = some .last
    · rw [if_pos hlast] at h
      obtain ⟨skipped, hskip, rfl⟩ := Rd.map_ok_iff.mp h
      obtain ⟨hrun, rfl⟩ := Rd.onSnd_iff.mp hskip
      obtain ⟨d', hlist, h'⟩ := (skipDaemonResult_rel MemReader.mirrors o v).attempt.followed hq hrun
      exact ⟨d', h', rfl, ((skipDaemonResult_forward o v).attempt.of_run hlist).length_le⟩
    · rw [if_neg hlast] at h
      cases h
      exact ⟨d, hq, rfl, Nat.le_refl _⟩

theorem visitResult_keeps (op : Option Op) (v : ProtocolVersion) (terminal : Option StderrCode) :
    (visitResult op v terminal).KeepsFst := by
  unfold visitResult
  cases op with
  | none => exact Rd.KeepsFst.pure none
  | some o =>
    simp only
    split
    · rw [map_eq_pure_bind]
      exact (Rd.KeepsFst.onSnd _).bind fun _ => Rd.KeepsFst.pure _
    · exact Rd.KeepsFst.pure none

/-- The code and the request are taken from the client before anything of the daemon is. -/
theorem Visited.request {x : Visit} (h : Visited v m x m') : ∃ (c c' : List UInt8) (m₂ m₃ : Streams),
    MemReader.Left m.1.data m.1 c ∧ MemReader.Left m.1.data m₂.1 c' ∧ m₂.2 = m.2 ∧ c'.length + 8 ≤ c.length ∧
      (daemon readStderrLoop).run m₂ = (.ok x.stderrResult, m₃) ∧
      (visitResult x.op v x.stderrResult.terminal).run m₃ = (.ok x.result, m') ∧
      x.start = m.1.position ∧ x.requestEnd = m₂.1.position ∧ x.responseStart = m₂.2.position ∧ x.responseEnd = m'.2.position := by
  obtain ⟨m₁, m₂, m₃, hpeek, hrequest, hloop, hresult, hpos⟩ := h
  obtain ⟨hpeek, hdaemon⟩ := Rd.onFst_iff.mp hpeek
  have hm := peekU64_left hpeek
  obtain ⟨c₁, hlist, h₁⟩ := (peekU64_rel MemReader.mirrors).followed hm hpeek
  obtain ⟨rfl, rest, hrest⟩ := peekU64_some hlist
  rw [hrest] at hm h₁
  have h₂ : MemReader.Left m.1.data (BufRead.consume 8 m₁.1) rest := by
    have hconsume := h₁.consume (show 8 ≤ (wordBytes x.opCode ++ rest).length by simp)
    rwa [show BufRead.consume 8 (wordBytes x.opCode ++ rest) = rest from List.drop_left' (wordBytes_length _)] at hconsume
  obtain ⟨c₂, hc₂, hq₂, hle₂⟩ := visitRequest_client h₂ hrequest
  refine ⟨_, c₂, m₂, m₃, hm, hc₂, hq₂.trans hdaemon, ?_, hloop, hresult, hpos⟩
  rw [List.length_append, wordBytes_length]
  omega

/-- A pass takes the code and the request from the client. -/
theorem Visited.client {x : Visit} (h : Visited v m x m') : ∃ c c' : List UInt8,
    MemReader.Left m.1.data m.1 c ∧ MemReader.Left m.1.data m'.1 c' ∧ c'.length + 8 ≤ c.length ∧
      x.start = m.1.position ∧ x.requestEnd = m'.1.position := by
  obtain ⟨c, c', m₂, m₃, hm, h₂, _, hle, hloop, hresult, hstart, hend, _⟩ := h.request
  have hkept : m'.1 = m₂.1 := by
    have hfirst := visitResult_keeps x.op v x.stderrResult.terminal m₃
    rw [hresult] at hfirst
    exact hfirst.trans (Rd.onSnd_iff.mp hloop).2
  exact ⟨c, c', hm, hkept ▸ h₂, hle, hstart, hkept ▸ hend⟩

/-- A pass takes the response from the daemon. -/
theorem Visited.daemon {D d : List UInt8} {x : Visit} (h : Visited v m x m') (hm : MemReader.Left D m.2 d) :
    ∃ d', MemReader.Left D m'.2 d' ∧ d'.length ≤ d.length ∧ x.responseStart = m.2.position ∧
      x.responseEnd = m'.2.position := by
  obtain ⟨_, _, m₂, m₃, _, _, hkept, _, hloop, hresult, _, _, hstart, hend⟩ := h.request
  have h₂ : MemReader.Left D m₂.2 d := hkept ▸ hm
  obtain ⟨d₃, hlist, h₃⟩ := (readStderrLoop_rel MemReader.mirrors).followed h₂ (Rd.onSnd_iff.mp hloop).1
  obtain ⟨d₄, h₄, _, hle⟩ := visitResult_daemon h₃ hresult
  exact ⟨d₄, h₄, hle.trans (readStderrLoop_forward.of_run hlist).length_le, hkept ▸ hstart, hend⟩

theorem visitPass_shrinks (v : ProtocolVersion) : Rd.Shrinks clientSize 8 (visitPass v) := by
  intro visits visits' m m' h
  obtain ⟨x, hx, _⟩ := visitPass_inl_iff.mp h
  obtain ⟨c, c', hm, hm', hle, _, _⟩ := hx.client
  have hlen := hm.2.1
  have hlen' := hm'.2.1
  show m'.1.data.length - m'.1.pos + 8 ≤ m.1.data.length - m.1.pos
  rw [hm'.1]
  omega

end

/-! ## decode -/

/-- The time the lookup finds. -/
def timeAt (tsIndex : TimestampIndex) (byteOffset : Nat) : UInt64 :=
  match (lookupTimestamp tsIndex byteOffset : Rd WireError Unit UInt64).run () with
  | (.ok t, _) => t
  | (.stop _, _) => 0

theorem lookupTimestamp_eq {R : Type} (tsIndex : TimestampIndex) (byteOffset : Nat) :
    (lookupTimestamp tsIndex byteOffset : Rd WireError R UInt64) = pure (timeAt tsIndex byteOffset) := by
  obtain ⟨t, ht⟩ := lookupTimestamp_pure tsIndex byteOffset
  have htime : timeAt tsIndex byteOffset = t := by
    unfold timeAt
    rw [ht]
    rfl
  rw [ht, htime]

/-- When the operation began. -/
def Visit.startNs (split : SplitRecords) (x : Visit) : UInt64 := timeAt split.clientTs x.start

/-- When it ended: with the last byte of its response, if it had one. -/
def Visit.endNs (split : SplitRecords) (x : Visit) : UInt64 :=
  if x.responseEnd > x.responseStart then timeAt split.daemonTs (x.responseEnd - 1) else x.startNs split

theorem opEnd_eq (split : SplitRecords) (x : Visit) :
    opEnd split.daemonTs x.responseStart x.responseEnd (x.startNs split) = pure (x.endNs split) := by
  unfold opEnd Visit.endNs
  split
  · exact lookupTimestamp_eq _ _
  · rfl

def Visit.durationNs (split : SplitRecords) (x : Visit) : UInt64 := saturatingSub (x.endNs split) (x.startNs split)

def Visit.requestBytes (x : Visit) : Nat := x.requestEnd - x.start

/-- The description of the arguments, where they could be skipped. -/
def Visit.description (x : Visit) : Option Str := (x.argInfo.bind Except.toOption).join

def Visit.framedBytes (x : Visit) : Option UInt64 := x.framed.bind Except.toOption

/-- What `decode` prints for a visit. -/
def decodedOp (split : SplitRecords) (x : Visit) : DecodedOp where
  opStartNs := x.startNs split
  opName := decodedName x.opCode x.op
  requestBytes := x.requestBytes
  stderrCount := x.stderrResult.count
  durationNs := x.durationNs split
  resultStr := x.stderrResult.terminal.elim "(no terminal)".toList StderrCode.name
  extra := extraText x.description x.framedBytes

theorem decodeRequest_visits (op : Option Op) (v : ProtocolVersion) : decodeRequest op v =
    (fun r => ((r.1.bind Except.toOption).join, r.2.bind Except.toOption)) <$> visitRequest op v := by
  cases op with
  | none => rfl
  | some o =>
    unfold decodeRequest visitRequest
    simp only [map_bind]
    congr 1
    funext argInfo
    split
    · rw [map_bind]
      rfl
    · rfl

/-- The result, read and dropped. -/
theorem skipResult_visits (op : Option Op) (v : ProtocolVersion) (terminal : Option StderrCode) :
    (match op with
      | some o =>
        if terminal = some .last then do
          let _ ← daemon (skipDaemonResult o v).attempt
          return ()
        else pure ()
      | none => pure () : Rd WireError Streams Unit) = (fun _ => ()) <$> visitResult op v terminal := by
  cases op with
  | none => rfl
  | some o =>
    unfold visitResult
    simp only
    split
    · rw [map_eq_pure_bind, map_eq_pure_bind, bind_assoc]
      rfl
    · rfl

section

variable {α β γ : Type} (split : SplitRecords) (request : UInt64 → Rd WireError Streams α)
  (respond : UInt64 → Option StderrCode → Rd WireError Streams β)
  (say : Nat → UInt64 → UInt64 → α → Nat → StderrResult → β → UInt64 → γ)

/-- A pass that takes the request and the response of an operation, and prints what it says of them. -/
def timedPass (printed : List γ) : Rd WireError Streams (List γ ⊕ List γ) := do
  let consumedBefore ← client position
  match ← client peekU64 with
  | none => return .inr printed
  | some opCode =>
    let _ ← client (consume 8)
    let opStartNs ← lookupTimestamp split.clientTs consumedBefore
    let asked ← request opCode
    let consumedAfter ← client position
    let daemonPosBefore ← daemon position
    let stderrResult ← daemon readStderrLoop
    let answered ← respond opCode stderrResult.terminal
    let daemonPosAfter ← daemon position
    let opEndNs ← opEnd split.daemonTs daemonPosBefore daemonPosAfter opStartNs
    return .inl (printed ++ [say consumedBefore opCode opStartNs asked consumedAfter stderrResult answered opEndNs])

/-- Where it takes them as a visit does, it prints the visits. -/
theorem timedPass_visits {v : ProtocolVersion}
    {f : UInt64 → Option (Except WireError (Option Str)) × Option (Except WireError UInt64) → α}
    {g : UInt64 → Option (Except WireError Unit) → β} {line : Visit → γ}
    (hrequest : ∀ opCode, request opCode = f opCode <$> visitRequest (Op.fromU64 opCode) v)
    (hrespond : ∀ opCode terminal, respond opCode terminal = g opCode <$> visitResult (Op.fromU64 opCode) v terminal)
    (hsay : ∀ x : Visit, say x.start x.opCode (x.startNs split) (f x.opCode (x.argInfo, x.framed)) x.requestEnd x.stderrResult
      (g x.opCode x.result) (x.endNs split) = line x) (visits : List Visit) :
    timedPass split request respond say (visits.map line) =
      Sum.map (List.map line) (List.map line) <$> visitPass v visits := by
  ext1 m
  unfold timedPass visitPass
  rw [map_bind, clientPosition_bind, clientPosition_bind, map_bind]
  refine bind_run_congr fun code m₁ => ?_
  cases code with
  | none => rfl
  | some opCode =>
    simp only [map_bind, lookupTimestamp_eq, pure_bind, hrequest, hrespond, bind_map_left]
    refine bind_run_congr fun _ m₂ => ?_
    refine bind_run_congr fun request m₃ => ?_
    rw [clientPosition_bind, daemonPosition_bind, clientPosition_bind, daemonPosition_bind]
    refine bind_run_congr fun stderrResult m₄ => ?_
    refine bind_run_congr fun result m₅ => ?_
    rw [daemonPosition_bind, daemonPosition_bind, map_pure, Sum.map_inl, List.map_append]
    let x : Visit :=
      ⟨m.1.position, opCode, request.1, request.2, m₃.1.position, m₃.2.position, stderrResult, result, m₅.2.position⟩
    have hend : opEnd split.daemonTs m₃.2.position m₅.2.position (timeAt split.clientTs m.1.position) = pure (x.endNs split) :=
      opEnd_eq split x
    rw [hend, pure_bind, List.map_singleton, ← hsay x]
    rfl

end

/-- What `decode_text` prints, of what its passes take. -/
def decodedSay (consumedBefore : Nat) (opCode opStartNs : UInt64) (asked : Option Str × Option UInt64) (consumedAfter : Nat)
    (stderrResult : StderrResult) (opEndNs : UInt64) : DecodedOp where
  opStartNs
  opName := decodedName opCode (Op.fromU64 opCode)
  requestBytes := consumedAfter - consumedBefore
  stderrCount := stderrResult.count
  durationNs := saturatingSub opEndNs opStartNs
  resultStr := stderrResult.terminal.elim "(no terminal)".toList StderrCode.name
  extra := extraText asked.1 asked.2

theorem decodePass_visits (split : SplitRecords) (v : ProtocolVersion) (visits : List Visit) :
    decodePass split v (visits.map (decodedOp split)) =
      Sum.map (List.map (decodedOp split)) (List.map (decodedOp split)) <$> visitPass v visits :=
  timedPass_visits split (fun opCode => decodeRequest (Op.fromU64 opCode) v) _
    (fun before opCode start asked after stderrResult _ => decodedSay before opCode start asked after stderrResult)
    (fun _ => decodeRequest_visits _ v) (fun _ => skipResult_visits _ v) (fun _ => rfl) visits

theorem decodeText_visits (split : SplitRecords) :
    decodeText split = (fun p => (p.1, p.2.map (decodedOp split))) <$> walk :=
  iterate_visits (decodePass_visits split) Prod.mk

/-! ## replay -/

/-- The request, skipped and dropped. -/
theorem skipRequest_visits (op : Option Op) (v : ProtocolVersion) :
    (match op with
      | some o => do
        let _ ← client (skipOpArgs o v).attempt
        if usesFramed v && opHasClientFramedData o then
          let _ ← client skipFramed.attempt
          return ()
        else return ()
      | none => pure () : Rd WireError Streams Unit) = (fun _ => ()) <$> visitRequest op v := by
  cases op with
  | none => rfl
  | some o =>
    unfold visitRequest
    simp only [map_bind]
    congr 1
    funext argInfo
    split
    · rw [map_bind]
      rfl
    · rfl

theorem preParsePass_visits (v : ProtocolVersion) (visits : List Visit) :
    preParsePass v (visits.map Visit.op) = Sum.map (List.map Visit.op) (List.map Visit.op) <$> visitPass v visits := by
  ext1 m
  unfold preParsePass visitPass
  rw [map_bind, clientPosition_bind, map_bind]
  refine bind_run_congr fun code m₁ => ?_
  cases code with
  | none => rfl
  | some opCode =>
    simp only [map_bind]
    refine bind_run_congr fun _ m₂ => ?_
    refine bind_run_drop (skipRequest_visits _ _) fun request m₃ => ?_
    rw [clientPosition_bind, daemonPosition_bind]
    refine bind_run_congr fun stderrResult m₄ => ?_
    refine bind_run_drop (skipResult_visits _ _ _) fun result m₅ => ?_
    rw [daemonPosition_bind, map_pure, Sum.map_inl, List.map_append]
    rfl

theorem preParseRecording_visits : preParseRecording =
    (fun p => ⟨p.1.negotiatedVersion, p.1.clientVersion, p.2.map Visit.op⟩) <$> walk :=
  iterate_visits preParsePass_visits fun info ops => PreParseResult.mk info.negotiatedVersion info.clientVersion ops

/-- `pre_parse_recording` and `decode_text` end alike and leave the streams alike, whatever
    the streams hold; where they return, one's operations are the other's lines. -/
theorem replay_follows_decode (split : SplitRecords) (m : Streams) :
    (∃ (info : HandshakeInfo) (codes : List UInt64) (lines : List DecodedOp) (m' : Streams), (decodeText split).run m = (.ok (info, lines), m') ∧
      preParseRecording.run m = (.ok ⟨info.negotiatedVersion, info.clientVersion, codes.map Op.fromU64⟩, m') ∧
      lines.map DecodedOp.opName = codes.map fun code => decodedName code (Op.fromU64 code)) ∨
    ∃ o m', (decodeText split).run m = (.stop o, m') ∧ preParseRecording.run m = (.stop o, m') := by
  rw [decodeText_visits, preParseRecording_visits]
  rcases hwalk : walk.run m with ⟨⟨info, visits⟩ | o, m'⟩
  · refine Or.inl ⟨info, visits.map Visit.opCode, visits.map (decodedOp split), m', ?_, ?_, ?_⟩
    · exact Rd.map_ok_iff.mpr ⟨_, hwalk, rfl⟩
    · refine Rd.map_ok_iff.mpr ⟨_, hwalk, ?_⟩
      rw [List.map_map]
      rfl
    · rw [List.map_map, List.map_map]
      rfl
  · exact Or.inr ⟨o, m', Rd.map_stop_iff.mpr hwalk, Rd.map_stop_iff.mpr hwalk⟩

/-! ## Without the times -/

def DecodedOp.untimed (line : DecodedOp) : DecodedOp := { line with opStartNs := 0, durationNs := 0 }

def OpRecord.untimed (rec : OpRecord) : OpRecord := { rec with durationNs := 0 }

def Entry.untimed {τ : Type} (entry : Entry τ) : Entry τ := { entry with timestampMs := none }

/-- The recording without its timestamp indexes. -/
def SplitRecords.untimed (split : SplitRecords) : SplitRecords := { split with clientTs := [], daemonTs := [] }

theorem decodeText_untimed (split : SplitRecords) : (fun p => (p.1, p.2.map DecodedOp.untimed)) <$> decodeText split =
    (fun p => (p.1, p.2.map fun x => (decodedOp split x).untimed)) <$> walk := by
  rw [decodeText_visits, ← comp_map]
  congr 1
  funext p
  rw [Function.comp_apply, List.map_map]
  rfl

theorem timeAt_nil (byteOffset : Nat) : timeAt [] byteOffset = 0 := rfl

/-- Without the indexes every lookup gives 0. -/
theorem collectPass_untimed (split : SplitRecords) (v : ProtocolVersion) (opRecords : List OpRecord) :
    collectPass split.untimed v (opRecords.map OpRecord.untimed) =
      Sum.map (List.map OpRecord.untimed) (List.map OpRecord.untimed) <$> collectPass split v opRecords := by
  ext1 m
  unfold collectPass
  rw [map_bind, clientPosition_bind, clientPosition_bind, map_bind]
  refine bind_run_congr fun code m₁ => ?_
  cases code with
  | none => rfl
  | some opCode =>
    simp only [map_bind, lookupTimestamp_eq, pure_bind]
    refine bind_run_congr fun _ m₂ => ?_
    by_cases hrange : (opCode == 0 || opCode > 64) = true
    · rw [if_pos hrange, if_pos hrange]
      rfl
    · rw [if_neg hrange, if_neg hrange]
      cases Op.fromU64 opCode with
      | none => rfl
      | some o =>
        simp only [map_bind]
        refine bind_run_congr fun request m₃ => ?_
        cases request with
        | none => rfl
        | some request =>
          simp only [map_bind]
          rw [clientPosition_bind, daemonPosition_bind, clientPosition_bind, daemonPosition_bind]
          refine bind_run_congr fun response m₄ => ?_
          cases response with
          | none => rfl
          | some stderrResult =>
            simp only [map_bind]
            rw [daemonPosition_bind, daemonPosition_bind]
            obtain ⟨opEndNs, hend⟩ := opEnd_pure split.daemonTs m₃.2.position m₄.2.position (timeAt split.clientTs m.1.position)
            have hzero : opEnd split.untimed.daemonTs m₃.2.position m₄.2.position
                (timeAt split.untimed.clientTs m.1.position) = pure 0 := by
              unfold opEnd
              split
              · exact lookupTimestamp_eq [] _
              · rfl
            have hduration : saturatingSub 0 (timeAt split.untimed.clientTs m.1.position) = 0 := by
              rw [show timeAt split.untimed.clientTs m.1.position = 0 from timeAt_nil _]
              decide
            rw [hend, hzero, pure_bind, pure_bind, map_pure, Sum.map_inl, List.map_append, hduration]
            rfl

theorem collectOps_untimed (split : SplitRecords) :
    collectOps split.untimed = (fun p => (p.1, p.2.map OpRecord.untimed)) <$> collectOps split := by
  unfold collectOps
  rw [map_bind]
  congr 1
  funext info
  rw [iterate_map (collectPass_untimed split info.negotiatedVersion), bind_map_left, map_bind]
  rfl

/-- Unpacking without its times looks none up. -/
theorem decompile_untimed {τ : Type} (timestamps : List (Nat × τ)) :
    (fun script : Script τ => { script with entries := script.entries.map Entry.untimed }) <$> decompileStreams timestamps =
      decompileWith (pure none) := by
  have hpass : ∀ v (entries : List (Entry τ)), decompilePass (C := MemReader) (D := MemReader) (pure none) v
      (entries.map Entry.untimed) =
        Sum.map (List.map Entry.untimed) (List.map Entry.untimed) <$> decompilePass (timestampNow timestamps) v entries := by
    intro v entries
    ext1 m
    unfold decompilePass
    rw [map_bind]
    refine bind_run_congr fun code m₁ => ?_
    cases code with
    | none => rfl
    | some opCode =>
      obtain ⟨t, ht⟩ := lookupTimestampMs_pure timestamps m₁.1.position
      have hnow : (client (D := MemReader) (timestampNow timestamps)).run m₁ = (.ok t, m₁) := by
        refine Rd.onFst_iff.mpr ⟨?_, rfl⟩
        show (lookupTimestampMs timestamps m₁.1.position).run m₁.1 = _
        rw [ht, Rd.run_pure]
      have hnone : (client (D := MemReader) (pure none : Rd WireError MemReader (Option τ))).run m₁ = (.ok none, m₁) := rfl
      simp only [map_bind]
      rw [Rd.bind_ok hnow, Rd.bind_ok hnone]
      refine bind_run_congr fun _ m₂ => ?_
      unfold decompileOp
      simp only [bind_assoc]
      refine bind_run_congr fun opCall m₃ => ?_
      refine bind_run_congr fun response m₄ => ?_
      refine bind_run_congr fun result m₅ => ?_
      rw [pure_bind, pure_bind, map_pure, Sum.map_inl, List.map_append]
      rfl
  unfold decompileStreams decompileWith
  rw [map_bind]
  congr 1
  funext info
  rw [iterate_map (hpass info.negotiatedVersion), bind_map_left, map_bind]
  rfl

/-! ## The same traffic -/

/-- The two directions of a recording, as the tools start on them. -/
def streamsOf (records : List Record) : Streams :=
  (.new (splitRecords records).clientBytes, .new (splitRecords records).daemonBytes)

/-- Times and durations apart, the tools say the same of two recordings of the same bytes, whatever
    the records they are cut into, and leave the streams alike. -/
theorem traffic_decides {τ : Type} {records records' : List Record} (timestamps timestamps' : List (Nat × τ))
    (hclient : (splitRecords records).clientBytes = (splitRecords records').clientBytes)
    (hdaemon : (splitRecords records).daemonBytes = (splitRecords records').daemonBytes) :
    ((fun p => (p.1, p.2.map DecodedOp.untimed)) <$> decodeText (splitRecords records)).run (streamsOf records) =
        ((fun p => (p.1, p.2.map DecodedOp.untimed)) <$> decodeText (splitRecords records')).run (streamsOf records') ∧
      ((fun p => (p.1, p.2.map OpRecord.untimed)) <$> collectOps (splitRecords records)).run (streamsOf records) =
        ((fun p => (p.1, p.2.map OpRecord.untimed)) <$> collectOps (splitRecords records')).run (streamsOf records') ∧
      ((fun script : Script τ => { script with entries := script.entries.map Entry.untimed }) <$>
          decompileStreams timestamps).run (streamsOf records) =
        ((fun script : Script τ => { script with entries := script.entries.map Entry.untimed }) <$>
          decompileStreams timestamps').run (streamsOf records') ∧
      replayOf records = replayOf records' := by
  have hstreams : streamsOf records = streamsOf records' := by rw [streamsOf, hclient, hdaemon, streamsOf]
  have huntimed : (splitRecords records).untimed = (splitRecords records').untimed := by
    rw [SplitRecords.untimed, hclient, hdaemon, SplitRecords.untimed]
  have hreplay : replayOf records = replayOf records' := congrArg preParseRecording.run hstreams
  rw [hstreams]
  refine ⟨?_, ?_, ?_, hreplay⟩
  · rw [decodeText_untimed, decodeText_untimed]
    rfl
  · rw [← collectOps_untimed, ← collectOps_untimed, huntimed]
  · rw [decompile_untimed, decompile_untimed]

def syncClient : List UInt8 := [workerMagic1, 0x0117, 0, 0, 13].flatMap wordBytes

def syncDaemon : List UInt8 := [workerMagic2, 0x0117, StderrCode.last.code, StderrCode.last.code, 1].flatMap wordBytes

/-- The first record of each direction ends inside a word. -/
def cutRecords : List Record :=
  [⟨3, .daemonToClient, syncDaemon.take 13⟩, ⟨5, .clientToDaemon, syncClient.take 35⟩, ⟨8, .daemonToClient, syncDaemon.drop 13⟩,
    ⟨9, .clientToDaemon, syncClient.drop 35⟩]

theorem traffic_decides_cut :
    ((fun p => (p.1, p.2.map OpRecord.untimed)) <$> collectOps (splitRecords cutRecords)).run (streamsOf cutRecords) =
      ((fun p => (p.1, p.2.map OpRecord.untimed)) <$>
        collectOps (splitRecords [⟨0, .clientToDaemon, syncClient⟩, ⟨0, .daemonToClient, syncDaemon⟩])).run
          (streamsOf [⟨0, .clientToDaemon, syncClient⟩, ⟨0, .daemonToClient, syncDaemon⟩]) :=
  (traffic_decides ([] : List (Nat × Unit)) [] (by decide) (by decide)).2.1

end NixWire
