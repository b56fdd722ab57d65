/-
  NixWire.Decompile — a recording's two streams as a script (script/decompile.rs).

  `decompileStreams` works on two `MemReader`s. Its loop is written over any two readers,
  with the timestamp lookup at the client's position as a parameter `now`, so that the
  same loop runs on plain byte lists.
-/

import NixWire.Protocol

namespace NixWire

open Base

section

variable {τ : Type}

/-- `slice::binary_search_by_key` on a slice sorted by offset: a match's index, or where
    the offset would be inserted. Of equal offsets, which only empty records make, the first;
    the library leaves open which. -/
def binarySearch (timestamps : List (Nat × τ)) (byteOffset : Nat) : Except Nat Nat :=
  match timestamps.findIdx? (fun t => t.1 == byteOffset) with
  | some i => .ok i
  | none => .error (timestamps.countP fun t => t.1 < byteOffset)

/-- `timestamps[i].1`. -/
def timestampAt {ε R : Type} (timestamps : List (Nat × τ)) (i : Nat) : Rd ε R (Option τ) :=
  match timestamps[i]? with
  | some t => pure (some t.2)
  | none => Rd.abort .sliceOutOfRange

def lookupTimestampMs {ε R : Type} (timestamps : List (Nat × τ)) (byteOffset : Nat) : Rd ε R (Option τ) :=
  if timestamps.isEmpty then pure none
  else
    match binarySearch timestamps byteOffset with
    | .ok i => timestampAt timestamps i
    | .error 0 => timestampAt timestamps 0
    | .error (i + 1) => timestampAt timestamps i

def trustName (t : UInt64) : Str :=
  match t.toNat with
  | 1 => "trusted".toList
  | 2 => "not-trusted".toList
  | _ => "unknown".toList

def preambleOf (info : HandshakeInfo) : Preamble :=
  { protocolVersion := info.negotiatedVersion
    clientFeatures := info.clientFeatures
    expects := []
    daemonVersion := info.daemonNixVersion
    trust := info.trustStatus.map trustName
    serverFeatures := some info.serverFeatures }

/-- The call behind an operation code, or a placeholder for what cannot be parsed. -/
def readOpCall {R : Type} [BufRead R] (op : Option Op) (version : ProtocolVersion) : Rd WireError R OpCall :=
  match op with
  | some o => do
    match ← readOpArgs o version with
    | some call => return call
    | none =>
      let _ ← (skipOpArgs o version).attempt
      let _ ← (if version ≥ .new 1 23 ∧ opHasClientFramedData o then some <$> skipFramed else pure none)
      return .rawBytes o []
  | none => return .rawBytes .isValidPath []

/-- The result after STDERR_LAST, dropped if it cannot be parsed. -/
def readResult {R : Type} [BufRead R] (op : Option Op) (version : ProtocolVersion) (terminal : Option StderrCode) :
    Rd WireError R (Option ResultData) :=
  if terminal = some .last then
    match op with
    | some o => do
      let result ← (readDaemonResult o version).attempt
      return result.toOption
    | none => return none
  else return none

variable {C D : Type} [BufRead C] [BufRead D] (now : Rd WireError C (Option τ))

/-- What follows an operation's code: its arguments, and the daemon's response to it. -/
def decompileOp (version : ProtocolVersion) (opCode : UInt64) (timestampMs : Option τ) :
    Rd WireError (C × D) (Entry τ) := do
  let op := Op.fromU64 opCode
  let opCall ← client (readOpCall op version)
  let (stderrResult, errorInfo) ← daemon readStderrWithError
  let result ← daemon (readResult op version stderrResult.terminal)
  let response :=
    { terminal := terminalName stderrResult.terminal, stderrCount := stderrResult.count, result, error := errorInfo }
  return { timestampMs, opCall, response := some response, expects := [] }

def decompilePass (version : ProtocolVersion) (entries : List (Entry τ)) :
    Rd WireError (C × D) (List (Entry τ) ⊕ List (Entry τ)) := do
  match ← client peekU64 with
  | none => return .inr entries
  | some opCode =>
    let timestampMs ← client now
    let _ ← client (consume 8)
    let entry ← decompileOp version opCode timestampMs
    return .inl (entries ++ [entry])

/-- The size that bounds the loops over the client's operations. -/
def clientSize (s : C × D) : Nat := BufRead.size s.1

def decompileWith : Rd WireError (C × D) (Script τ) := do
  let info ← parseHandshake
  let entries ← Rd.iterate clientSize (decompilePass now info.negotiatedVersion) []
  return { preamble := preambleOf info, entries }

/-- The timestamp at the reader's position. -/
def timestampNow (timestamps : List (Nat × τ)) : Rd WireError MemReader (Option τ) :=
  ⟨fun m => (lookupTimestampMs timestamps m.position).run m⟩

def decompileStreams (timestamps : List (Nat × τ)) : Rd WireError (MemReader × MemReader) (Script τ) :=
  decompileWith (timestampNow timestamps)

end

end NixWire
