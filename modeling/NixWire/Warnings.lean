/-
  NixWire.Warnings — the warnings of `decode` (decode.rs, `decode_text`).

  `decodeLoud` is `decode_text` with the lines it writes to stderr: for each operation its
  SYNC WARNINGs, and the line printed for it. The warnings change nothing that is printed
  (`decodeLoud_silent`).

  What `collect_ops` records is a visit without warnings (`collectPass_visits`,
  `collectPass_visited`).
  `decode` warns and carries on where `stats` breaks off, so of any recording that `decode`
  gets through, `stats` counts exactly the operations printed before the first warning
  (`stats_until_warning`).
-/

import NixWire.Visits

namespace NixWire

open Base

/-! ## The warnings -/

inductive SyncWarning where
  /-- The code is 0 or above 64. -/
  | codeRange (opCode : UInt64) (offset : Nat)
  /-- A code out of range that is a stderr code. -/
  | stderrCode (opCode : UInt64) (code : StderrCode)
  | args (op : Op) (opCode : UInt64) (e : WireError)
  | unknownOp (opCode : UInt64)
  | framed (op : Op) (e : WireError)
  | result (op : Op) (opCode : UInt64) (e : WireError)
  deriving DecidableEq, Repr

def SyncWarning.text : SyncWarning → Str
  | .codeRange opCode offset =>
    "SYNC WARNING: op code ".toList ++ decimal opCode.toNat ++ " (".toList ++ hexShort opCode ++ ") at byte offset ".toList
      ++ decimal offset ++ " is outside valid range (1..=47)".toList
  | .stderrCode opCode code =>
    "SYNC WARNING: value ".toList ++ hexShort opCode ++ " matches StderrCode::".toList ++ code.name
      ++ ", possible client/daemon stream confusion".toList
  | .args op opCode e =>
    "SYNC WARNING: failed to parse args for ".toList ++ op.name ++ " (".toList ++ decimal opCode.toNat ++ "): ".toList
      ++ e.message
  | .unknownOp opCode =>
    "SYNC WARNING: unknown op code ".toList ++ decimal opCode.toNat ++ " (".toList ++ hexShort opCode
      ++ "), args not consumed, stream may be desynchronized".toList
  | .framed op e => "SYNC WARNING: failed to skip framed data for ".toList ++ op.name ++ ": ".toList ++ e.message
  | .result op opCode e =>
    "SYNC WARNING: incomplete daemon result for ".toList ++ op.name ++ " (".toList ++ decimal opCode.toNat ++ "): ".toList
      ++ e.message

/-! ## decode_text with its warnings -/

/-- The guard for a likely desynchronization. -/
def codeWarnings (opCode : UInt64) (offset : Nat) : List SyncWarning :=
  if opCode == 0 || opCode > 64 then
    .codeRange opCode offset :: match StderrCode.fromU64 opCode with
      | some code => [.stderrCode opCode code]
      | none => []
  else []

/-- The client's side of a pass, with what is warned about it. -/
def loudRequest (op : Option Op) (opCode : UInt64) (v : ProtocolVersion) :
    Rd WireError Streams ((Option Str × Option UInt64) × List SyncWarning) :=
  match op with
  | some o => do
    let (argInfo, argsWarnings) : Option Str × List SyncWarning := match ← client (skipOpArgs o v).attempt with
      | .ok info => (info, [])
      | .error e => (none, [.args o opCode e])
    if usesFramed v && opHasClientFramedData o then
      match ← client skipFramed.attempt with
      | .ok total => return ((argInfo, some total), argsWarnings)
      | .error e => return ((argInfo, none), argsWarnings ++ [SyncWarning.framed o e])
    else return ((argInfo, none), argsWarnings)
  | none => return ((none, none), [.unknownOp opCode])

def loudResult (op : Option Op) (opCode : UInt64) (v : ProtocolVersion) (terminal : Option StderrCode) :
    Rd WireError Streams (List SyncWarning) :=
  match op with
  | some o =>
    if terminal = some .last then do
      match ← daemon (skipDaemonResult o v).attempt with
      | .ok _ => return []
      | .error e => return [.result o opCode e]
    else pure []
  | none => pure []

/-- An operation's warnings and its line. -/
structure LoudOp where
  warnings : List SyncWarning
  line : DecodedOp
  deriving DecidableEq, Repr

def decodeLoudPass (split : SplitRecords) (v : ProtocolVersion) (printed : List LoudOp) :
    Rd WireError Streams (List LoudOp ⊕ List LoudOp) := do
  let consumedBefore ← client position
  match ← client peekU64 with
  | none => return .inr printed
  | some opCode =>
    let _ ← client (consume 8)
    let opStartNs ← lookupTimestamp split.clientTs consumedBefore
    let op := Op.fromU64 opCode
    let ((argInfo, framedBytes), requestWarnings) ← loudRequest op opCode v
    let consumedAfter ← client position
    let daemonPosBefore ← daemon position
    let stderrResult ← daemon readStderrLoop
    let resultWarnings ← loudResult op opCode v stderrResult.terminal
    let daemonPosAfter ← daemon position
    let opEndNs ← opEnd split.daemonTs daemonPosBefore daemonPosAfter opStartNs
    return .inl (printed ++ [{
      warnings := codeWarnings opCode consumedBefore ++ requestWarnings ++ resultWarnings
      line := {
        opStartNs
        opName := decodedName opCode op
        requestBytes := consumedAfter - consumedBefore
        stderrCount := stderrResult.count
        durationNs := saturatingSub opEndNs opStartNs
        resultStr := stderrResult.terminal.elim "(no terminal)".toList StderrCode.name
        extra := extraText argInfo framedBytes } }])

def decodeLoud (split : SplitRecords) : Rd WireError Streams (HandshakeInfo × List LoudOp) := do
  let info ← parseHandshake
  let printed ← Rd.iterate clientSize (decodeLoudPass split info.negotiatedVersion) []
  return (info, printed)

/-! ## As visits -/

def requestWarnings (op : Option Op) (opCode : UInt64) (argInfo : Option (Except WireError (Option Str)))
    (framed : Option (Except WireError UInt64)) : List SyncWarning :=
  match op with
  | some o =>
    (match argInfo with
      | some (.error e) => [.args o opCode e]
      | _ => [])
    ++ match framed with
      | some (.error e) => [.framed o e]
      | _ => []
  | none => [.unknownOp opCode]

def resultWarnings (op : Option Op) (opCode : UInt64) (result : Option (Except WireError Unit)) : List SyncWarning :=
  match op, result with
  | some o, some (.error e) => [.result o opCode e]
  | _, _ => []

/-- What is warned about a visit. -/
def Visit.warnings (x : Visit) : List SyncWarning :=
  codeWarnings x.opCode x.start ++ requestWarnings x.op x.opCode x.argInfo x.framed ++ resultWarnings x.op x.opCode x.result

def loudOp (split : SplitRecords) (x : Visit) : LoudOp := ⟨x.warnings, decodedOp split x⟩

theorem loudRequest_visits (op : Option Op) (opCode : UInt64) (v : ProtocolVersion) : loudRequest op opCode v =
    (fun r => (((r.1.bind Except.toOption).join, r.2.bind Except.toOption), requestWarnings op opCode r.1 r.2)) <$>
      visitRequest op v := by
  cases op with
  | none => rfl
  | some o =>
    unfold loudRequest visitRequest
    simp only [map_bind]
    congr 1
    funext argInfo
    by_cases hframed : (usesFramed v && opHasClientFramedData o) = true
    · rw [if_pos hframed, if_pos hframed, map_bind]
      congr 1
      funext total
      cases argInfo <;> cases total <;> rfl
    · rw [if_neg hframed, if_neg hframed]
      cases argInfo <;> rfl

theorem loudResult_visits (op : Option Op) (opCode : UInt64) (v : ProtocolVersion) (terminal : Option StderrCode) :
    loudResult op opCode v terminal = resultWarnings op opCode <$> visitResult op v terminal := by
  cases op with
  | none => rfl
  | some o =>
    unfold loudResult visitResult
    by_cases hlast : terminal = some .last
    · simp only [if_pos hlast]
      rw [← LawfulFunctor.comp_map, map_eq_pure_bind]
      congr 1
      funext result
      cases result <;> rfl
    · simp only [if_neg hlast]
      rfl

theorem decodeLoudPass_visits (split : SplitRecords) (v : ProtocolVersion) (visits : List Visit) :
    decodeLoudPass split v (visits.map (loudOp split)) =
      Sum.map (List.map (loudOp split)) (List.map (loudOp split)) <$> visitPass v visits :=
  timedPass_visits split (fun opCode => loudRequest (Op.fromU64 opCode) opCode v)
    (fun opCode => loudResult (Op.fromU64 opCode) opCode v)
    (fun before opCode start asked after stderrResult answered opEndNs =>
      LoudOp.mk (codeWarnings opCode before ++ asked.2 ++ answered)
        (decodedSay before opCode start asked.1 after stderrResult opEndNs))
    (fun opCode => loudRequest_visits _ opCode v) (fun opCode => loudResult_visits _ opCode v) (fun _ => rfl) visits

theorem decodeLoud_visits (split : SplitRecords) :
    decodeLoud split = (fun p => (p.1, p.2.map (loudOp split))) <$> walk :=
  iterate_visits (decodeLoudPass_visits split) Prod.mk

/-- The warnings aside, it is `decode_text`. -/
theorem decodeLoud_silent (split : SplitRecords) :
    (fun p => (p.1, p.2.map LoudOp.line)) <$> decodeLoud split = decodeText split := by
  rw [decodeLoud_visits, decodeText_visits, ← comp_map]
  congr 1
  funext p
  rw [Function.comp_apply, List.map_map]
  rfl

/-! ## What stats records of it -/

/-- No warning is written about the visit. -/
def Visit.quiet (x : Visit) : Bool := x.warnings.isEmpty

/-- What `stats` records of a visit without warnings. -/
def recordOf (split : SplitRecords) (x : Visit) : OpRecord where
  opName := decodedName x.opCode x.op
  durationNs := x.durationNs split
  requestBytes := x.requestBytes
  framedBytes := x.framedBytes
  success := x.stderrResult.terminal = some .last
  argInfo := x.description

section

variable {v : ProtocolVersion} {o : Op} {m m' : Streams}

theorem collectRequest_visits (opCode : UInt64) {argInfo : Option (Except WireError (Option Str))}
    {framed : Option (Except WireError UInt64)}
    (h : (visitRequest (some o) v).run m = (.ok (argInfo, framed), m')) :
    if requestWarnings (some o) opCode argInfo framed = []
      then (collectRequest o v).run m = (.ok (some ((argInfo.bind Except.toOption).join, framed.bind Except.toOption)), m')
      else ∃ m'', (collectRequest o v).run m = (.ok none, m'') := by
  unfold visitRequest at h
  obtain ⟨args, m₁, hargs, h⟩ := Rd.bind_ok_iff.mp h
  unfold collectRequest
  rw [Rd.bind_ok hargs]
  by_cases hframed : (usesFramed v && opHasClientFramedData o) = true
  · rw [if_pos hframed] at h
    obtain ⟨total, m₂, htotal, h⟩ := Rd.bind_ok_iff.mp h
    cases h
    cases args with
    | error e =>
      rw [if_neg (by simp [requestWarnings])]
      exact ⟨m₁, rfl⟩
    | ok info =>
      simp only [if_pos hframed]
      rw [Rd.bind_ok htotal]
      cases total with
      | error e =>
        rw [if_neg (by simp [requestWarnings])]
        exact ⟨_, rfl⟩
      | ok n =>
        rw [if_pos (by simp [requestWarnings])]
        rfl
  · rw [if_neg hframed] at h
    cases h
    cases args with
    | error e =>
      rw [if_neg (by simp [requestWarnings])]
      exact ⟨_, rfl⟩
    | ok info =>
      rw [if_pos (by simp [requestWarnings])]
      simp only [if_neg hframed]
      rfl

theorem collectResponse_visits (opCode : UInt64) {stderrResult : StderrResult} {result : Option (Except WireError Unit)} {m₁ : Streams}
    (hloop : (daemon readStderrLoop).run m = (.ok stderrResult, m₁))
    (hresult : (visitResult (some o) v stderrResult.terminal).run m₁ = (.ok result, m')) :
    if resultWarnings (some o) opCode result = [] then (collectResponse o v).run m = (.ok (some stderrResult), m')
      else ∃ m'', (collectResponse o v).run m = (.ok none, m'') := by
  have hattempt : (daemon readStderrLoop.attempt).run m = (.ok (.ok stderrResult), m₁) := by
    obtain ⟨hrun, hclient⟩ := Rd.onSnd_iff.mp hloop
    exact Rd.onSnd_iff.mpr ⟨Rd.attempt_ok hrun, hclient⟩
  unfold collectResponse
  rw [Rd.bind_ok hattempt]
  unfold visitResult at hresult
  simp only at hresult ⊢
  by_cases hlast : stderrResult.terminal = some .last
  · rw [if_pos hlast] at hresult
    obtain ⟨skipped, hskip, rfl⟩ := Rd.map_ok_iff.mp hresult
    rw [if_pos hlast, Rd.bind_ok hskip]
    cases skipped with
    | error e =>
      rw [if_neg (by simp [resultWarnings])]
      exact ⟨m', rfl⟩
    | ok _ =>
      rw [if_pos (by simp [resultWarnings])]
      rfl
  · rw [if_neg hlast] at hresult
    cases hresult
    rw [if_neg hlast, if_pos (by simp [resultWarnings])]
    rfl

/-- `collect_ops` records a visit without warnings, and breaks off at one that has some. -/
theorem collectPass_visits (split : SplitRecords) {x : Visit} (hx : Visited v m x m') (acc : List OpRecord) :
    if x.quiet then (collectPass split v acc).run m = (.ok (.inl (acc ++ [recordOf split x])), m')
      else ∃ m'', (collectPass split v acc).run m = (.ok (.inr acc), m'') := by
  obtain ⟨m₁, m₂, m₃, hpeek, hrequest, hloop, hresult, hstart, hreqEnd, hrespStart, hrespEnd⟩ := hx
  have htake : (client (consume 8)).run m₁ = (.ok (), (BufRead.consume 8 m₁.1, m₁.2)) := rfl
  unfold collectPass
  rw [clientPosition_bind, Rd.bind_ok hpeek]
  simp only
  rw [Rd.bind_ok htake, lookupTimestamp_eq, pure_bind]
  by_cases hrange : (x.opCode == 0 || x.opCode > 64) = true
  · have hloud : x.quiet = false := by simp [Visit.quiet, Visit.warnings, codeWarnings, hrange]
    rw [hloud, if_pos hrange]
    exact ⟨_, rfl⟩
  · rw [if_neg hrange]
    cases hop : x.op with
    | none =>
      have hloud : x.quiet = false := by simp [Visit.quiet, Visit.warnings, requestWarnings, hop]
      rw [hloud, show Op.fromU64 x.opCode = none from hop]
      exact ⟨_, rfl⟩
    | some o =>
      rw [hop] at hrequest hresult
      rw [show Op.fromU64 x.opCode = some o from hop]
      simp only
      have hreq := collectRequest_visits x.opCode hrequest
      have hresp := collectResponse_visits x.opCode hloop hresult
      have hquiet : x.quiet = (decide (requestWarnings (some o) x.opCode x.argInfo x.framed = []) &&
          decide (resultWarnings (some o) x.opCode x.result = [])) := by
        unfold Visit.quiet Visit.warnings codeWarnings
        rw [if_neg hrange, hop, List.nil_append, Bool.eq_iff_iff]
        simp only [List.isEmpty_iff, List.append_eq_nil_iff, Bool.and_eq_true, decide_eq_true_eq]
      by_cases hw : requestWarnings (some o) x.opCode x.argInfo x.framed = []
      · rw [if_pos hw] at hreq
        rw [Rd.bind_ok hreq]
        simp only
        rw [clientPosition_bind, daemonPosition_bind]
        by_cases hw' : resultWarnings (some o) x.opCode x.result = []
        · rw [if_pos hw'] at hresp
          rw [if_pos (by rw [hquiet, decide_eq_true hw, decide_eq_true hw']; rfl), Rd.bind_ok hresp]
          simp only
          rw [daemonPosition_bind, ← hstart, ← hreqEnd, ← hrespStart, ← hrespEnd]
          have hend : opEnd split.daemonTs x.responseStart x.responseEnd (timeAt split.clientTs x.start) = pure (x.endNs split) :=
            opEnd_eq split x
          rw [hend, pure_bind]
          unfold recordOf decodedName
          rw [hop]
          rfl
        · rw [if_neg hw'] at hresp
          obtain ⟨m'', hresp⟩ := hresp
          rw [if_neg (by rw [hquiet, decide_eq_false hw', Bool.and_false]; exact Bool.false_ne_true), Rd.bind_ok hresp]
          exact ⟨m'', rfl⟩
      · rw [if_neg hw] at hreq
        obtain ⟨m'', hreq⟩ := hreq
        rw [if_neg (by rw [hquiet, decide_eq_false hw, Bool.false_and]; exact Bool.false_ne_true), Rd.bind_ok hreq]
        exact ⟨m'', rfl⟩

theorem collectRequest_visited {request : Option Str × Option UInt64}
    (h : (collectRequest o v).run m = (.ok (some request), m')) :
    ∃ argInfo framed, (visitRequest (some o) v).run m = (.ok (argInfo, framed), m') := by
  unfold collectRequest at h
  obtain ⟨args, m₁, hargs, h⟩ := Rd.bind_ok_iff.mp h
  cases args with
  | error e => cases h
  | ok info =>
    simp only at h
    unfold visitRequest
    rw [Rd.bind_ok hargs]
    by_cases hframed : (usesFramed v && opHasClientFramedData o) = true
    · rw [if_pos hframed] at h ⊢
      obtain ⟨total, m₂, htotal, h⟩ := Rd.bind_ok_iff.mp h
      rw [Rd.bind_ok htotal]
      cases total with
      | error e => cases h
      | ok total =>
        cases h
        exact ⟨_, _, rfl⟩
    · rw [if_neg hframed] at h ⊢
      cases h
      exact ⟨_, _, rfl⟩

theorem collectResponse_visited {stderrResult : StderrResult}
    (h : (collectResponse o v).run m = (.ok (some stderrResult), m')) :
    ∃ m₁ result, (daemon readStderrLoop).run m = (.ok stderrResult, m₁) ∧
      (visitResult (some o) v stderrResult.terminal).run m₁ = (.ok result, m') := by
  unfold collectResponse at h
  obtain ⟨r, m₁, hloop, h⟩ := Rd.bind_ok_iff.mp h
  cases r with
  | error e => cases h
  | ok reported =>
    have hread : (daemon readStderrLoop).run m = (.ok reported, m₁) := by
      obtain ⟨hrun, hclient⟩ := Rd.onSnd_iff.mp hloop
      exact Rd.onSnd_iff.mpr ⟨Rd.attempt_ok_iff.mp hrun, hclient⟩
    simp only at h
    by_cases hlast : reported.terminal = some .last
    · rw [if_pos hlast] at h
      obtain ⟨skipped, m₂, hskip, h⟩ := Rd.bind_ok_iff.mp h
      cases skipped with
      | error e => cases h
      | ok _ =>
        cases h
        refine ⟨m₁, some (.ok ()), hread, ?_⟩
        unfold visitResult
        simp only [if_pos hlast]
        exact Rd.map_ok_iff.mpr ⟨_, hskip, rfl⟩
    · rw [if_neg hlast] at h
      cases h
      refine ⟨m', none, hread, ?_⟩
      unfold visitResult
      simp only [if_neg hlast]
      rfl

/-- What `collect_ops` records is a visit without warnings. -/
theorem collectPass_visited {split : SplitRecords} {acc out : List OpRecord}
    (h : (collectPass split v acc).run m = (.ok (.inl out), m')) :
    ∃ x, Visited v m x m' ∧ x.quiet = true ∧ out = acc ++ [recordOf split x] := by
  have hpass := h
  unfold collectPass at h
  rw [clientPosition_bind] at h
  obtain ⟨code, m₁, hpeek, h⟩ := Rd.bind_ok_iff.mp h
  cases code with
  | none => cases h
  | some opCode =>
    obtain ⟨_, m₁', htake, h⟩ := Rd.bind_ok_iff.mp h
    cases htake
    rw [lookupTimestamp_eq, pure_bind] at h
    by_cases hrange : (opCode == 0 || opCode > 64) = true
    · rw [if_pos hrange] at h
      cases h
    rw [if_neg hrange] at h
    cases hop : Op.fromU64 opCode with
    | none =>
      rw [hop] at h
      cases h
    | some o =>
      rw [hop] at h
      obtain ⟨request, m₂, hrequest, h⟩ := Rd.bind_ok_iff.mp h
      cases request with
      | none => cases h
      | some request =>
        simp only at h
        rw [clientPosition_bind, daemonPosition_bind] at h
        obtain ⟨response, m₃, hresponse, h⟩ := Rd.bind_ok_iff.mp h
        cases response with
        | none => cases h
        | some stderrResult =>
          obtain ⟨_, m₄, hend, h⟩ := Rd.bind_ok_iff.mp h
          cases hend
          obtain ⟨_, m₅, hlookup, h⟩ := Rd.bind_ok_iff.mp h
          obtain ⟨t, ht⟩ := opEnd_pure split.daemonTs m₂.2.position m₃.2.position (timeAt split.clientTs m.1.position)
          rw [ht] at hlookup
          cases hlookup
          cases h
          obtain ⟨argInfo, framed, hvisit⟩ := collectRequest_visited hrequest
          obtain ⟨m₃', result, hloop, hresult⟩ := collectResponse_visited hresponse
          let x : Visit :=
            ⟨m.1.position, opCode, argInfo, framed, m₂.1.position, m₂.2.position, stderrResult, result, m₃.2.position⟩
          have hx : Visited v m x m₃ := by
            refine ⟨m₁, m₂, m₃', hpeek, ?_, hloop, ?_, rfl, rfl, rfl, rfl⟩
            · show (visitRequest (Op.fromU64 opCode) v).run _ = _
              rw [hop]
              exact hvisit
            · show (visitResult (Op.fromU64 opCode) v _).run _ = _
              rw [hop]
              exact hresult
          have hcollect := collectPass_visits split hx acc
          by_cases hquiet : x.quiet = true
          · rw [if_pos hquiet] at hcollect
            have hsame := hpass.symm.trans hcollect
            exact ⟨x, hx, hquiet, Sum.inl.inj (Res.ok.inj (Prod.mk.inj hsame).1)⟩
          · rw [if_neg hquiet] at hcollect
            obtain ⟨m'', hcollect⟩ := hcollect
            cases hpass.symm.trans hcollect

/-- Where the walk ends, `collect_ops` ends too. -/
theorem collectPass_ends (split : SplitRecords) {visits out : List Visit}
    (h : (visitPass v visits).run m = (.ok (.inr out), m')) (acc : List OpRecord) :
    (collectPass split v acc).run m = (.ok (.inr acc), m') := by
  obtain ⟨hpeek, _⟩ := visitPass_inr_iff.mp h
  unfold collectPass
  rw [clientPosition_bind, Rd.bind_ok hpeek]
  rfl

/-- A loop over the rest of a walk records its visits up to the first warning. -/
theorem collected_visits (split : SplitRecords) {n : Nat} {p q : List Visit × Streams} {out : List Visit}
    (hr : Rd.Reaches (visitPass v) n p q) (hend : (visitPass v q.1).run q.2 = (.ok (.inr out), m')) (acc : List OpRecord) :
    ∃ more m'', out = p.1 ++ more ∧ (Rd.iterate clientSize (collectPass split v) acc).run p.2 =
      (.ok (acc ++ (more.takeWhile Visit.quiet).map (recordOf split)), m'') := by
  have hshrinks := collectPass_shrinks split v
  have hpos : 0 < 8 := Nat.succ_pos 7
  induction hr generalizing acc with
  | refl p =>
    obtain ⟨_, rfl⟩ := visitPass_inr_iff.mp hend
    refine ⟨[], m', (List.append_nil _).symm, ?_⟩
    rw [List.takeWhile_nil, List.map_nil, List.append_nil]
    exact iterate_inr hshrinks hpos (collectPass_ends split hend acc)
  | @step n visits visits' m₀ m₁ q hpass _ ih =>
    obtain ⟨x, hx, rfl⟩ := visitPass_inl_iff.mp hpass
    have hcollect := collectPass_visits split hx acc
    by_cases hquiet : x.quiet = true
    · rw [if_pos hquiet] at hcollect
      obtain ⟨more, m'', rfl, hrest⟩ := ih hend (acc ++ [recordOf split x])
      refine ⟨x :: more, m'', List.append_assoc .., ?_⟩
      rw [iterate_inl hshrinks hpos hcollect, hrest, List.takeWhile_cons_of_pos hquiet, List.map_cons, List.append_assoc]
      rfl
    · rw [if_neg hquiet] at hcollect
      obtain ⟨m'', hcollect⟩ := hcollect
      obtain ⟨more, _, rfl, _⟩ := ih hend acc
      refine ⟨x :: more, m'', List.append_assoc .., ?_⟩
      rw [List.takeWhile_cons_of_neg hquiet, List.map_nil, List.append_nil]
      exact iterate_inr hshrinks hpos hcollect

end

/-- What `stats` counts of an operation that `decode` printed. -/
structure CountedAs (line : DecodedOp) (rec : OpRecord) : Prop where
  opName : rec.opName = line.opName
  durationNs : rec.durationNs = line.durationNs
  requestBytes : rec.requestBytes = line.requestBytes
  extra : line.extra = extraText rec.argInfo rec.framedBytes
  success : rec.success = true ↔ line.resultStr = StderrCode.last.name

theorem countedAs (split : SplitRecords) (x : Visit) : CountedAs (decodedOp split x) (recordOf split x) where
  opName := rfl
  durationNs := rfl
  requestBytes := rfl
  extra := rfl
  success := by
    unfold recordOf decodedOp
    simp only [decide_eq_true_eq]
    rcases x.stderrResult.terminal with _ | code
    · decide
    · cases code <;> decide

/-- Where `decode` gets through a recording, `stats` counts the operations printed before the
    first warning, and these alone. -/
theorem stats_until_warning {split : SplitRecords} {m m' : Streams} {info : HandshakeInfo} {ops : List LoudOp}
    (h : (decodeLoud split).run m = (.ok (info, ops), m')) :
    (decodeText split).run m = (.ok (info, ops.map LoudOp.line), m') ∧
      ∃ recs m'', (collectOps split).run m = (.ok (info, recs), m'') ∧
        List.Forall₂ CountedAs ((ops.takeWhile fun op => op.warnings.isEmpty).map LoudOp.line) recs := by
  refine ⟨decodeLoud_silent split ▸ Rd.map_ok_iff.mpr ⟨_, h, rfl⟩, ?_⟩
  rw [decodeLoud_visits] at h
  obtain ⟨⟨info, visits⟩, hwalk, hops⟩ := Rd.map_ok_iff.mp h
  cases hops
  obtain ⟨_, start, hshake, hloop⟩ := Rd.bind_ok_iff.mp hwalk
  obtain ⟨_, m₁, hloop, hout⟩ := Rd.bind_ok_iff.mp hloop
  cases hout
  obtain ⟨n, last, m₂, hr, hend⟩ := (iterate_ok_iff (visitPass_shrinks _) (Nat.succ_pos 7)).mp hloop
  obtain ⟨more, m'', rfl, hcollect⟩ := collected_visits split hr hend []
  refine ⟨_, m'', (Rd.bind_ok hshake).trans (Rd.bind_ok hcollect), ?_⟩
  have hlines : ((visits.map (loudOp split)).takeWhile fun op => op.warnings.isEmpty).map LoudOp.line =
      (visits.takeWhile Visit.quiet).map (decodedOp split) := by
    rw [List.takeWhile_map, List.map_map]
    rfl
  rw [hlines, List.nil_append, List.forall₂_map_left_iff, List.forall₂_map_right_iff]
  exact List.forall₂_same.mpr fun x _ => countedAs split x

/-- A recording at 1.23 of a sync, then of a code that no operation has. -/
def strayRecording : List Record :=
  [{ direction := .clientToDaemon, offsetNs := 5, data := [workerMagic1, 0x0117, 0, 0, 13, 99].flatMap wordBytes },
    { direction := .daemonToClient, offsetNs := 9,
      data := [workerMagic2, 0x0117, StderrCode.last.code, StderrCode.last.code, 1].flatMap wordBytes }]

/-- The sync is counted. -/
theorem stats_until_warning_stray : ∃ rec m'', (collectOps (splitRecords strayRecording)).run
    (.new (splitRecords strayRecording).clientBytes, .new (splitRecords strayRecording).daemonBytes) =
      (.ok (failingSession.info, [rec]), m'') ∧ rec.opName = "SyncWithGC".toList ∧ rec.durationNs = 4 := by
  have hrun : (decodeLoud (splitRecords strayRecording)).run
      (.new (splitRecords strayRecording).clientBytes, .new (splitRecords strayRecording).daemonBytes) =
      (.ok (failingSession.info, [⟨[], ⟨5, "SyncWithGC".toList, 8, 1, 4, StderrCode.last.name, []⟩⟩,
        ⟨[.codeRange 99 40, .unknownOp 99], ⟨5, "Unknown(99)".toList, 8, 0, 0, "(no terminal)".toList, []⟩⟩]),
        (⟨(splitRecords strayRecording).clientBytes, 48⟩, ⟨(splitRecords strayRecording).daemonBytes, 40⟩)) := by
    decide
  obtain ⟨-, recs, m'', hcollect, hrecs⟩ := stats_until_warning hrun
  cases hrecs with
  | cons hrec hrest =>
    cases hrest
    exact ⟨_, m'', hcollect, hrec.opName, hrec.durationNs⟩

end NixWire
