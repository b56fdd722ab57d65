/-
  NixWire.Replay — the replayer's compare mode (replay.rs, `receive_daemon_responses`).

  The replayer reads a live daemon's responses to the operations of a recording and counts
  the ones it has an issue with. It counts what it cannot read and every STDERR_ERROR; it
  does not count a response that never comes, and it does not know what the recording gave.

  - It returns zero exactly when nothing in the live stream is unreadable or an error
    (`receive_zero_iff`), whatever the recording gave.
  - So it reports no issue exactly when the daemon answered as recorded where the two agree
    on what an answer is (`compare_iff`): a daemon that answers nothing is not reported
    (`silence_unreported`), and a recording of a failed operation is reported against its
    own bytes (`own_bytes_zero_iff`).
-/

import NixWire.Negotiation
import NixWire.Packed

namespace NixWire

open Base

/-! ## receive_daemon_responses -/

section

variable {R : Type} [BufRead R] (compare : Bool)

def counted (mismatches : Nat) : Nat := if compare then mismatches + 1 else mismatches

/-- The result after a terminal code. -/
def receiveResult (op : Option Op) (v : ProtocolVersion) (terminal : Option StderrCode) (mismatches : Nat) :
    Rd WireError R Nat :=
  if terminal = some .last then
    match op with
    | some o => do
      match ← (skipDaemonResult o v).attempt with
      | .error _ => return counted compare mismatches
      | .ok _ => return mismatches
    | none => return mismatches
  else if terminal = some .error then return counted compare mismatches
  else return mismatches

def receiveOps (v : ProtocolVersion) : List (Option Op) → Nat → Rd WireError R Nat
  | [], mismatches => return mismatches
  | op :: ops, mismatches => do
    match ← readStderrLoop.attempt with
    | .error _ => return counted compare mismatches
    | .ok stderrResult =>
      let mismatches ← receiveResult compare op v stderrResult.terminal mismatches
      receiveOps v ops mismatches

/-- The number of mismatches. -/
def receiveDaemonResponses (preParse : PreParseResult) : Rd WireError R Nat := do
  let liveInfo ← parseDaemonHandshake preParse.clientVersion
  let liveNegotiated := min preParse.clientVersion liveInfo.serverVersion
  receiveOps compare liveNegotiated preParse.ops 0

/-- The run of the replayer under `--compare` against a daemon that sends `live`. -/
def compareReplay (records : List Record) (live : List UInt8) : Res WireError Nat :=
  match replayOf records with
  | (.ok preParse, _) => ((receiveDaemonResponses true preParse).run live).1
  | (.stop o, _) => .stop o

end

/-! ## What a stream gives -/

/-- What a stream gives for one operation. -/
structure Reply where
  /-- STDERR_LAST or STDERR_ERROR, or nothing where the messages do not end in one. -/
  terminal : Option StderrCode
  /-- Whether the messages and what follows the terminal code can be read. -/
  readable : Bool
  deriving DecidableEq, Repr

/-- What follows a terminal code: the result, or the error. -/
def readTail {R : Type} [BufRead R] (op : Option Op) (v : ProtocolVersion) (terminal : Option StderrCode) :
    Rd WireError R Unit :=
  if terminal = some .last then op.elim (pure ()) fun o => (fun _ => ()) <$> skipDaemonResult o v
  else if terminal = some .error then (fun _ => ()) <$> readErrorInfo
  else pure ()

/-- The replies to the operations in order. Past something unreadable there is none. -/
def replies (v : ProtocolVersion) : List (Option Op) → List UInt8 → List Reply
  | [], _ => []
  | op :: ops, bs =>
    match readStderrLoop.run bs with
    | (.stop _, _) => List.replicate (ops.length + 1) ⟨none, false⟩
    | (.ok stderrResult, rest) =>
      match (readTail op v stderrResult.terminal).run rest with
      | (.stop _, _) => ⟨stderrResult.terminal, false⟩ :: List.replicate ops.length ⟨none, false⟩
      | (.ok _, rest) => ⟨stderrResult.terminal, true⟩ :: replies v ops rest

/-- The replies in a daemon's bytes, after its handshake. -/
def streamReplies (preParse : PreParseResult) (daemonBytes : List UInt8) : List Reply :=
  match (parseDaemonHandshake preParse.clientVersion).run daemonBytes with
  | (.ok info, rest) => replies (min preParse.clientVersion info.serverVersion) preParse.ops rest
  | (.stop _, _) => []

def recordedReplies (records : List Record) : List Reply :=
  match replayOf records with
  | (.ok preParse, _) => streamReplies preParse (splitRecords records).daemonBytes
  | (.stop _, _) => []

/-- The live daemon answered as recorded: operation by operation the same terminal code,
    and every result parses. -/
structure AsRecorded (recorded live : List Reply) : Prop where
  terminals : live.map (·.terminal) = recorded.map (·.terminal)
  results : ∀ r ∈ live, r.terminal = some .last → r.readable

/-- What the replayer has an issue with. -/
def Reply.Counted (r : Reply) : Prop := r.terminal = some .error ∨ r.readable = false

instance (r : Reply) : Decidable r.Counted := inferInstanceAs (Decidable (_ ∨ _))

/-! ## What is counted -/

section

variable {v : ProtocolVersion} {op : Option Op} {terminal : Option StderrCode} {bs rest : List UInt8}

/-- A response that is no error and can be read is not counted. -/
theorem receiveResult_ok (n : Nat) (hterminal : terminal ≠ some .error)
    (htail : (readTail op v terminal).run bs = (.ok (), rest)) :
    (receiveResult true op v terminal n).run bs = (.ok n, rest) := by
  unfold receiveResult
  rw [readTail] at htail
  by_cases hlast : terminal = some .last
  · rw [if_pos hlast] at htail ⊢
    cases op with
    | none =>
      cases htail
      rfl
    | some o =>
      obtain ⟨text, hskip, -⟩ := Rd.map_ok_iff.mp htail
      rw [Rd.bind_ok (Rd.attempt_ok hskip)]
      rfl
  · rw [if_neg hlast, if_neg hterminal] at htail ⊢
    cases htail
    rfl

/-- Any other is, unless reading it ends the run. -/
theorem receiveResult_counts {n m : Nat} {rest' : List UInt8}
    (h : terminal = some .error ∨ ∃ o rest, (readTail op v terminal).run bs = (.stop o, rest))
    (hrun : (receiveResult true op v terminal n).run bs = (.ok m, rest')) : m = n + 1 := by
  unfold receiveResult at hrun
  rcases h with rfl | ⟨o, rest, htail⟩
  · rw [if_neg (by decide), if_pos rfl] at hrun
    cases hrun
    rfl
  · rw [readTail] at htail
    by_cases hlast : terminal = some .last
    · rw [if_pos hlast] at htail hrun
      cases op with
      | none => cases htail
      | some o =>
        dsimp only at hrun
        rcases Rd.attempt_stops (Rd.map_stop_iff.mp htail) with ⟨e, hskip⟩ | ⟨o', hskip⟩
        · rw [Rd.bind_ok hskip] at hrun
          cases hrun
          rfl
        · rw [Rd.bind_stop hskip] at hrun
          cases hrun
    · rw [if_neg hlast] at htail hrun
      by_cases herror : terminal = some .error
      · rw [if_pos herror] at hrun
        cases hrun
        rfl
      · rw [if_neg herror] at htail
        cases htail

/-- A counted reply is never taken back. -/
theorem receiveOps_counts {ops : List (Option Op)} {n : Nat}
    (ih : ∀ (n : Nat) (bs : List UInt8), ((receiveOps true v ops n).run bs).1 = .ok 0 ↔
      n = 0 ∧ ∀ r ∈ replies v ops bs, ¬r.Counted)
    (h : terminal = some .error ∨ ∃ o rest, (readTail op v terminal).run bs = (.stop o, rest)) :
    ((receiveResult true op v terminal n >>= receiveOps true v ops).run bs).1 ≠ .ok 0 := by
  intro hzero
  rcases hresult : (receiveResult true op v terminal n).run bs with ⟨m | o, rest'⟩
  · obtain rfl := receiveResult_counts h hresult
    rw [Rd.bind_ok hresult] at hzero
    exact Nat.succ_ne_zero n ((ih _ _).mp hzero).1
  · rw [Rd.bind_stop hresult] at hzero
    cases hzero

/-- The count is zero when it was and no reply is one it counts. -/
theorem receiveOps_zero_iff (ops : List (Option Op)) (n : Nat) (bs : List UInt8) :
    ((receiveOps true v ops n).run bs).1 = .ok 0 ↔ n = 0 ∧ ∀ r ∈ replies v ops bs, ¬r.Counted := by
  induction ops generalizing n bs with
  | nil => simp [receiveOps, replies]
  | cons op ops ih =>
    rw [receiveOps, replies]
    rcases hloop : readStderrLoop.run bs with ⟨stderrResult | o, rest⟩
    · rw [Rd.bind_ok (Rd.attempt_ok hloop)]
      dsimp only
      rcases htail : (readTail op v stderrResult.terminal).run rest with ⟨u | o, rest'⟩
      · dsimp only
        rw [List.forall_mem_cons]
        by_cases herror : stderrResult.terminal = some .error
        · exact iff_of_false (receiveOps_counts ih (Or.inl herror)) fun h => h.2.1 (Or.inl herror)
        · have huncounted : ¬Reply.Counted ⟨stderrResult.terminal, true⟩ := by
            simp [Reply.Counted, herror]
          rw [Rd.bind_ok (receiveResult_ok n herror htail), ih]
          simp only [huncounted, not_false_iff, true_and]
      · dsimp only
        rw [List.forall_mem_cons]
        exact iff_of_false (receiveOps_counts ih (Or.inr ⟨o, rest', htail⟩)) fun h => h.2.1 (Or.inr rfl)
    · dsimp only
      rw [List.replicate_succ, List.forall_mem_cons]
      refine iff_of_false (fun hzero => ?_) fun h => h.2.1 (Or.inr rfl)
      rcases Rd.attempt_stops hloop with ⟨e, hattempt⟩ | ⟨o', hattempt⟩
      · rw [Rd.bind_ok hattempt] at hzero
        cases hzero
      · rw [Rd.bind_stop hattempt] at hzero
        cases hzero

/-- It returns zero exactly when every reply can be read and none is an error. -/
theorem receive_zero_iff {preParse : PreParseResult} {live : List UInt8} {info : HandshakeInfo} {rest : List UInt8}
    (hlive : (parseDaemonHandshake preParse.clientVersion).run live = (.ok info, rest)) :
    ((receiveDaemonResponses true preParse).run live).1 = .ok 0 ↔ ∀ r ∈ streamReplies preParse live, ¬r.Counted := by
  rw [receiveDaemonResponses, Rd.bind_ok hlive, receiveOps_zero_iff, streamReplies, hlive]
  exact and_iff_right rfl

end

/-! ## As recorded -/

section

variable {records : List Record} {preParse : PreParseResult} {streams : Streams} {live : List UInt8} {info : HandshakeInfo}
  {rest : List UInt8}

theorem compareReplay_zero_iff (hrecording : replayOf records = (.ok preParse, streams))
    (hlive : (parseDaemonHandshake preParse.clientVersion).run live = (.ok info, rest)) :
    compareReplay records live = .ok 0 ↔ ∀ r ∈ streamReplies preParse live, ¬r.Counted := by
  rw [compareReplay, hrecording]
  exact receive_zero_iff hlive

/-- A daemon that greets and then closes the connection is not reported. -/
theorem silence_unreported (hrecording : replayOf records = (.ok preParse, streams))
    (hlive : (parseDaemonHandshake preParse.clientVersion).run live = (.ok info, [])) : compareReplay records live = .ok 0 := by
  have hsilent (v : ProtocolVersion) (ops : List (Option Op)) : ∀ r ∈ replies v ops [], ¬r.Counted := by
    induction ops with
    | nil => exact List.forall_mem_nil _
    | cons op ops ih => exact List.forall_mem_cons.mpr ⟨by decide, ih⟩
  rw [compareReplay_zero_iff hrecording hlive, streamReplies, hlive]
  exact hsilent _ _

/-- Against its own bytes a recording is reported when it holds an error. -/
theorem own_bytes_zero_iff (hrecording : replayOf records = (.ok preParse, streams)) :
    compareReplay records (splitRecords records).daemonBytes = .ok 0 ↔ ∀ r ∈ recordedReplies records, ¬r.Counted := by
  have hrun := hrecording
  rw [replayOf, preParseRecording] at hrun
  obtain ⟨info, ⟨c, d⟩, hhandshake, hafter⟩ := Rd.bind_ok_iff.mp hrun
  obtain ⟨ops, m, -, hpure⟩ := Rd.bind_ok_iff.mp hafter
  obtain ⟨d', hlive, -⟩ := daemon_handshake_follows hhandshake
  cases hpure
  rw [compareReplay_zero_iff hrecording hlive, recordedReplies, hrecording]

end

/-- A result does not parse; or no reply is counted and the terminal codes are the recorded
    ones; or one is, and they are not. -/
def JudgedAsRecorded (recorded live : List Reply) : Prop :=
  (∃ r ∈ live, r.terminal = some .last ∧ r.readable = false) ∨
    ((∀ r ∈ live, ¬r.Counted) ∧ live.map (·.terminal) = recorded.map (·.terminal)) ∨
    ((∃ r ∈ live, r.Counted) ∧ live.map (·.terminal) ≠ recorded.map (·.terminal))

theorem judged_iff {recorded live : List Reply} :
    ((∀ r ∈ live, ¬r.Counted) ↔ AsRecorded recorded live) ↔ JudgedAsRecorded recorded live := by
  by_cases hcounted : ∀ r ∈ live, ¬r.Counted
  · -- every result parses
    have hresults : ∀ r ∈ live, r.terminal = some .last → r.readable := fun r hr _ => by
      by_contra hread
      exact hcounted r hr (Or.inr (Bool.eq_false_iff.mpr hread))
    rw [iff_true_left hcounted]
    constructor
    · intro h
      exact Or.inr (Or.inl ⟨hcounted, h.terminals⟩)
    · intro h
      rcases h with ⟨r, hr, hlast, hread⟩ | h | h
      · exact absurd (Or.inr hread) (hcounted r hr)
      · exact ⟨h.2, hresults⟩
      · obtain ⟨⟨r, hr, hcount⟩, -⟩ := h
        exact absurd hcount (hcounted r hr)
  · have hsome : ∃ r ∈ live, r.Counted := by
      by_contra hnone
      exact hcounted fun r hr hcount => hnone ⟨r, hr, hcount⟩
    rw [iff_false_left hcounted]
    constructor
    · intro h
      by_cases hparse : ∃ r ∈ live, r.terminal = some .last ∧ r.readable = false
      · exact Or.inl hparse
      · refine Or.inr (Or.inr ⟨hsome, fun hterminals => h ⟨hterminals, fun r hr hlast => ?_⟩⟩)
        by_contra hread
        exact hparse ⟨r, hr, hlast, Bool.eq_false_iff.mpr hread⟩
    · intro h hrecorded
      rcases h with ⟨r, hr, hlast, hread⟩ | h | h
      · rw [hrecorded.results r hr hlast] at hread
        cases hread
      · exact hcounted h.1
      · exact h.2 hrecorded.terminals

/-- Where the count is zero exactly when the daemon answered as recorded. -/
theorem compare_iff (records : List Record) (preParse : PreParseResult) (streams : Streams) (live : List UInt8)
    (info : HandshakeInfo) (rest : List UInt8) (hrecording : replayOf records = (.ok preParse, streams))
    (hlive : (parseDaemonHandshake preParse.clientVersion).run live = (.ok info, rest)) :
    (compareReplay records live = .ok 0 ↔ AsRecorded (recordedReplies records) (streamReplies preParse live)) ↔
      JudgedAsRecorded (recordedReplies records) (streamReplies preParse live) := by
  rw [compareReplay_zero_iff hrecording hlive]
  exact judged_iff

/-- The daemon's side of a call to SyncWithGC: its hello, and its answer. -/
def helloBytes : List UInt8 := [workerMagic2, 0x10a, StderrCode.last.code].flatMap wordBytes

def answeredRecords : List Record :=
  [⟨0, .clientToDaemon, [workerMagic1, 0x10a, Op.syncWithGC.code].flatMap wordBytes⟩,
    ⟨1, .daemonToClient, helloBytes ++ [StderrCode.last.code, 1].flatMap wordBytes⟩]

def answeredPreParse : PreParseResult := ⟨.new 1 10, .new 1 10, [some .syncWithGC]⟩

def helloInfo : HandshakeInfo := ⟨.new 1 10, .new 1 10, .new 1 10, [], [], none, none⟩

theorem replayOf_answered : replayOf answeredRecords = (.ok answeredPreParse, (replayOf answeredRecords).2) :=
  Prod.ext (by decide) rfl

theorem helloBytes_parses : (parseDaemonHandshake answeredPreParse.clientVersion).run helloBytes = (.ok helloInfo, []) := by
  decide

theorem compare_iff_silence :
    (compareReplay answeredRecords helloBytes = .ok 0 ↔
        AsRecorded (recordedReplies answeredRecords) (streamReplies answeredPreParse helloBytes)) ↔
      JudgedAsRecorded (recordedReplies answeredRecords) (streamReplies answeredPreParse helloBytes) :=
  compare_iff answeredRecords answeredPreParse (replayOf answeredRecords).2 helloBytes helloInfo [] replayOf_answered
    helloBytes_parses

theorem silence_not_recorded :
    (∃ streams, replayOf answeredRecords = (.ok answeredPreParse, streams)) ∧
    (parseDaemonHandshake answeredPreParse.clientVersion).run helloBytes = (.ok helloInfo, []) ∧
    min answeredPreParse.clientVersion helloInfo.serverVersion = answeredPreParse.negotiatedVersion ∧
    compareReplay answeredRecords helloBytes = .ok 0 ∧
    ¬AsRecorded (recordedReplies answeredRecords) (streamReplies answeredPreParse helloBytes) := by
  refine ⟨⟨_, replayOf_answered⟩, helloBytes_parses, by decide, silence_unreported replayOf_answered helloBytes_parses, ?_⟩
  intro h
  have hterminals := h.terminals
  have hrecorded : recordedReplies answeredRecords = [⟨some .last, true⟩] := by decide
  have hlive : streamReplies answeredPreParse helloBytes = [⟨none, true⟩] := by decide
  rw [hrecorded, hlive] at hterminals
  cases hterminals

end NixWire
