/-
  NixWire.Tools — the loops of the offline tools (decode.rs, stats.rs, replay.rs).

  Each tool splits a recording by direction and walks the two streams from memory, one
  operation per pass. What `decode` prints for an operation is returned, its times in
  nanoseconds; warnings and the summary are not modelled.
-/

import NixWire.Decompile
import NixWire.Recording

namespace NixWire

open Base

/-! ## Recordings, split by direction -/

/-- Byte offset to timestamp, for one direction. -/
abbrev TimestampIndex := List (Nat × UInt64)

structure SplitRecords where
  clientBytes : List UInt8
  daemonBytes : List UInt8
  clientTs : TimestampIndex
  daemonTs : TimestampIndex
  deriving DecidableEq, Repr

def splitRecord (result : SplitRecords) (rec : Record) : SplitRecords :=
  match rec.direction with
  | .clientToDaemon =>
    { result with clientTs := result.clientTs ++ [(result.clientBytes.length, rec.offsetNs)],
                  clientBytes := result.clientBytes ++ rec.data }
  | .daemonToClient =>
    { result with daemonTs := result.daemonTs ++ [(result.daemonBytes.length, rec.offsetNs)],
                  daemonBytes := result.daemonBytes ++ rec.data }

def splitRecords (records : List Record) : SplitRecords :=
  records.foldl splitRecord { clientBytes := [], daemonBytes := [], clientTs := [], daemonTs := [] }

def lookupTimestamp {ε R : Type} (tsIndex : TimestampIndex) (byteOffset : Nat) : Rd ε R UInt64 :=
  if tsIndex.isEmpty then pure 0
  else (fun t => t.getD 0) <$>
    match binarySearch tsIndex byteOffset with
    | .ok i => timestampAt tsIndex i
    | .error 0 => timestampAt tsIndex 0
    | .error (i + 1) => timestampAt tsIndex i

/-- The tools' lookup is the decompiler's, and 0 in an empty index. -/
theorem lookupTimestamp_ms {ε R : Type} (tsIndex : TimestampIndex) (byteOffset : Nat) :
    (lookupTimestamp tsIndex byteOffset : Rd ε R _) = (fun t => t.getD 0) <$> lookupTimestampMs tsIndex byteOffset := by
  unfold lookupTimestamp lookupTimestampMs
  split <;> rfl

abbrev Streams := MemReader × MemReader

/-- `inner_ref().position()`. -/
def position : Rd WireError MemReader Nat := ⟨fun m => (.ok m.position, m)⟩

def saturatingSub (a b : UInt64) : UInt64 := if b ≤ a then a - b else 0

/-- When an operation ended: the time of the last byte of its response, if it had one. -/
def opEnd (daemonTs : TimestampIndex) (posBefore posAfter : Nat) (opStartNs : UInt64) : Rd WireError Streams UInt64 :=
  if posAfter > posBefore then lookupTimestamp daemonTs (posAfter - 1) else pure opStartNs

/-- Whether the client may send framed data. -/
def usesFramed (v : ProtocolVersion) : Bool := v ≥ .new 1 23

/-! ## stats: collect_ops -/

structure OpRecord where
  opName : Str
  durationNs : UInt64
  requestBytes : Nat
  framedBytes : Option UInt64
  success : Bool
  argInfo : Option Str
  deriving DecidableEq, Repr

/-- The daemon's side of a pass, or none where the loop breaks. -/
def collectResponse (o : Op) (v : ProtocolVersion) : Rd WireError Streams (Option StderrResult) := do
  match ← daemon readStderrLoop.attempt with
  | .error _ => return none
  | .ok stderrResult =>
    if stderrResult.terminal = some .last then
      match ← daemon (skipDaemonResult o v).attempt with
      | .error _ => return none
      | .ok _ => return some stderrResult
    else return some stderrResult

/-- The client's side of a pass: a description of the arguments and the size of the framed
    data, or none where the loop breaks. -/
def collectRequest (o : Op) (v : ProtocolVersion) : Rd WireError Streams (Option (Option Str × Option UInt64)) := do
  match ← client (skipOpArgs o v).attempt with
  | .error _ => return none
  | .ok argInfo =>
    if usesFramed v && opHasClientFramedData o then
      match ← client skipFramed.attempt with
      | .error _ => return none
      | .ok total => return some (argInfo, some total)
    else return some (argInfo, none)

def collectPass (split : SplitRecords) (v : ProtocolVersion) (opRecords : List OpRecord) :
    Rd WireError Streams (List OpRecord ⊕ List OpRecord) := do
  let consumedBefore ← client position
  match ← client peekU64 with
  | none => return .inr opRecords
  | some opCode =>
    let _ ← client (consume 8)
    let opStartNs ← lookupTimestamp split.clientTs consumedBefore
    if opCode == 0 || opCode > 64 then return .inr opRecords
    else
      match Op.fromU64 opCode with
      | none => return .inr opRecords
      | some o =>
        match ← collectRequest o v with
        | none => return .inr opRecords
        | some (argInfo, framedBytes) =>
          let consumedAfter ← client position
          let daemonPosBefore ← daemon position
          match ← collectResponse o v with
          | none => return .inr opRecords
          | some stderrResult =>
            let daemonPosAfter ← daemon position
            let opEndNs ← opEnd split.daemonTs daemonPosBefore daemonPosAfter opStartNs
            return .inl (opRecords ++ [{
              opName := o.name
              durationNs := saturatingSub opEndNs opStartNs
              requestBytes := consumedAfter - consumedBefore
              framedBytes
              success := stderrResult.terminal = some .last
              argInfo }])

def collectOps (split : SplitRecords) : Rd WireError Streams (HandshakeInfo × List OpRecord) := do
  let info ← parseHandshake
  let opRecords ← Rd.iterate clientSize (collectPass split info.negotiatedVersion) []
  return (info, opRecords)

/-! ## replay: pre_parse_recording -/

structure PreParseResult where
  negotiatedVersion : ProtocolVersion
  clientVersion : ProtocolVersion
  ops : List (Option Op)
  deriving DecidableEq, Repr

def preParsePass (v : ProtocolVersion) (ops : List (Option Op)) :
    Rd WireError Streams (List (Option Op) ⊕ List (Option Op)) := do
  match ← client peekU64 with
  | none => return .inr ops
  | some opCode =>
    let _ ← client (consume 8)
    let op := Op.fromU64 opCode
    let _ ← (match op with
      | some o => do
        -- errors of complex operations are ignored
        let _ ← client (skipOpArgs o v).attempt
        if usesFramed v && opHasClientFramedData o then
          let _ ← client skipFramed.attempt
          return ()
        else return ()
      | none => pure ())
    let stderrResult ← daemon readStderrLoop
    let _ ← (match op with
      | some o =>
        if stderrResult.terminal = some .last then do
          let _ ← daemon (skipDaemonResult o v).attempt
          return ()
        else pure ()
      | none => pure ())
    return .inl (ops ++ [op])

def preParseRecording : Rd WireError Streams PreParseResult := do
  let info ← parseHandshake
  let ops ← Rd.iterate clientSize (preParsePass info.negotiatedVersion) []
  return { negotiatedVersion := info.negotiatedVersion, clientVersion := info.clientVersion, ops }

/-! ## decode: decode_text -/

/-- What is printed for an operation. -/
structure DecodedOp where
  opStartNs : UInt64
  opName : Str
  requestBytes : Nat
  stderrCount : UInt64
  durationNs : UInt64
  resultStr : Str
  extra : Str
  deriving DecidableEq, Repr

def decodedName (opCode : UInt64) (op : Option Op) : Str :=
  match op with
  | some o => o.name
  | none => "Unknown(".toList ++ decimal opCode.toNat ++ [')']

def extraText (argInfo : Option Str) (framedBytes : Option UInt64) : Str :=
  (match argInfo with
    | some info => if info.isEmpty then [] else "  ".toList ++ info
    | none => [])
  ++ match framedBytes with
    | some n => "  framed=".toList ++ decimal n.toNat ++ ['B']
    | none => []

/-- The client's side of a pass; failures are only warned about. -/
def decodeRequest (op : Option Op) (v : ProtocolVersion) : Rd WireError Streams (Option Str × Option UInt64) :=
  match op with
  | some o => do
    let argInfo ← client (skipOpArgs o v).attempt
    if usesFramed v && opHasClientFramedData o then
      let total ← client skipFramed.attempt
      return (argInfo.toOption.join, total.toOption)
    else return (argInfo.toOption.join, none)
  | none => return (none, none)

def decodePass (split : SplitRecords) (v : ProtocolVersion) (printed : List DecodedOp) :
    Rd WireError Streams (List DecodedOp ⊕ List DecodedOp) := do
  let consumedBefore ← client position
  match ← client peekU64 with
  | none => return .inr printed
  | some opCode =>
    let _ ← client (consume 8)
    let opStartNs ← lookupTimestamp split.clientTs consumedBefore
    let op := Op.fromU64 opCode
    let (argInfo, framedBytes) ← decodeRequest op v
    let consumedAfter ← client position
    let daemonPosBefore ← daemon position
    let stderrResult ← daemon readStderrLoop
    let _ ← (match op with
      | some o =>
        if stderrResult.terminal = some .last then do
          let _ ← daemon (skipDaemonResult o v).attempt
          return ()
        else pure ()
      | none => pure ())
    let daemonPosAfter ← daemon position
    let opEndNs ← opEnd split.daemonTs daemonPosBefore daemonPosAfter opStartNs
    return .inl (printed ++ [{
      opStartNs
      opName := decodedName opCode op
      requestBytes := consumedAfter - consumedBefore
      stderrCount := stderrResult.count
      durationNs := saturatingSub opEndNs opStartNs
      resultStr := stderrResult.terminal.elim "(no terminal)".toList StderrCode.name
      extra := extraText argInfo framedBytes }])

def decodeText (split : SplitRecords) : Rd WireError Streams (HandshakeInfo × List DecodedOp) := do
  let info ← parseHandshake
  let printed ← Rd.iterate clientSize (decodePass split info.negotiatedVersion) []
  return (info, printed)

end NixWire
