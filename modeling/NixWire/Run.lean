/-
  NixWire.Run — a script run against a live daemon (script.rs, `run`).

  `readFut` is the future that reads the responses: the handshake, then for each entry the
  stderr messages and the result, evaluating expects as it goes. Under `failFast` the first
  failed expect ends the process.
-/

import NixWire.Expect

namespace NixWire

open Base

/-- Expects evaluated so far. -/
structure Tally where
  total : Nat
  passed : Nat
  failed : Nat
  deriving DecidableEq, Repr

/-- How the reading future ends, when it does not fail. -/
inductive ReadEnd where
  /-- It returns. -/
  | returned
  /-- `std::process::exit(1)`. -/
  | exited
  deriving DecidableEq, Repr

/-- Count the results; none where a failed one ends the process. -/
def judge (failFast : Bool) : List ExpectResult → Tally → Option Tally
  | [], t => some t
  | r :: rs, t =>
    if r.passed then judge failFast rs { t with total := t.total + 1, passed := t.passed + 1 }
    else if failFast then none
    else judge failFast rs { t with total := t.total + 1, failed := t.failed + 1 }

section

variable {R : Type} [BufRead R] {τ : Type} (isMatch : Str → Str → Bool) (debug : Expect → Str) (failFast : Bool)

/-- The response to one operation; a result that does not parse is left out. -/
def readLive (op : Op) (liveVersion : ProtocolVersion) : Rd WireError R DaemonResponse := do
  let (stderrResult, errorInfo) ← readStderrWithError
  let result ← (if stderrResult.terminal = some .last then
      Except.toOption <$> (readDaemonResult op liveVersion).attempt
    else pure none)
  return { terminal := terminalName stderrResult.terminal, stderrCount := stderrResult.count, result, error := errorInfo }

def readEntries (liveVersion : ProtocolVersion) : List (Entry τ) → Tally → Rd WireError R ReadEnd
  | [], t => return if t.failed > 0 then .exited else .returned
  | entry :: entries, t => do
    let response ← readLive entry.opCall.op liveVersion
    match judge failFast (evaluateExpects isMatch entry.expects response) t with
    | none => return .exited
    | some t => readEntries liveVersion entries t

def readFut (entries : List (Entry τ)) (preambleExpects : List Expect) (version : ProtocolVersion) : Rd WireError R ReadEnd := do
  let liveInfo ← parseDaemonHandshake version
  let liveVersion := min version liveInfo.serverVersion
  match judge failFast (evaluateHandshakeExpects isMatch debug preambleExpects liveInfo) ⟨0, 0, 0⟩ with
  | none => return .exited
  | some t => readEntries isMatch failFast liveVersion entries t

end

end NixWire
