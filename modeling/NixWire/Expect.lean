/-
  NixWire.Expect — expects evaluated against what the daemon answered (script/expect.rs).

  Regular expressions are a parameter, and so is the debug text of an expect, which one
  message prints.
-/

import NixWire.Protocol

namespace NixWire

open Base

structure ExpectResult where
  passed : Bool
  message : Str
  deriving DecidableEq, Repr

/-- `{ a, b }`, with nothing between the blanks when there are none. -/
def bracedSet (items : List Str) : Str := "\x7b ".toList ++ List.intercalate ", ".toList items ++ " \x7d".toList

def bracketedSet (items : List Str) : Str := '[' :: List.intercalate ", ".toList items ++ [']']

/-- The value that a result or a field of it is compared with. -/
def extractResultValue (result : ResultData) (field : Option Str) : Option Str :=
  match result, field with
  | .u64 v, none => some (decimal v.toNat)
  | .str s, none => some s
  | .pathInfo info, some f =>
    if f = "valid".toList then some (decimal info.valid.toNat)
    else if f = "deriver".toList then info.deriver
    else if f = "narHash".toList then info.narHash
    else if f = "narSize".toList then info.narSize.map fun n => decimal n.toNat
    else if f = "references".toList then info.references.map bracketedSet
    else none
  | .collectGarbage bytesFreed, some f => if f = "bytes_freed".toList then some (decimal bytesFreed.toNat) else none
  | .substitutablePathInfo valid _ _ downloadSize narSize, some f =>
    if f = "valid".toList then some (decimal valid.toNat)
    else if f = "downloadSize".toList then downloadSize.map fun n => decimal n.toNat
    else if f = "narSize".toList then narSize.map fun n => decimal n.toNat
    else none
  | .missing _ _ _ downloadSize narSize, some f =>
    if f = "downloadSize".toList then some (decimal downloadSize.toNat)
    else if f = "narSize".toList then some (decimal narSize.toNat)
    else none
  | .stringSet set, none => some (bracketedSet set)
  | _, _ => none

section

-- whether the value matches the pattern; false for a pattern that is no regular expression
variable (isMatch : Str → Str → Bool)

def matchesValue (matcher : Matcher) (value : Str) : Bool :=
  match matcher with
  | .exact expected => value == expected
  | .regex pattern => isMatch pattern value
  | .greaterThan n => ((parseI64 value).map fun v => decide (v > n)).getD false
  | .lessThan n => ((parseI64 value).map fun v => decide (v < n)).getD false
  | .greaterOrEqual n => ((parseI64 value).map fun v => decide (v ≥ n)).getD false
  | .lessOrEqual n => ((parseI64 value).map fun v => decide (v ≤ n)).getD false

/-- `name = value`, or what was expected and what came. -/
def matched (name : Str) (matcher : Matcher) (value : Str) : ExpectResult :=
  let passed := matchesValue isMatch matcher value
  ⟨passed,
    if passed then name ++ " = ".toList ++ value
    else name ++ ": expected ".toList ++ matcher.display ++ ", got ".toList ++ value⟩

def evaluateExpect (expect : Expect) (response : DaemonResponse) : ExpectResult :=
  match expect with
  | .terminal expected =>
    let passed := response.terminal == expected
    ⟨passed,
      if passed then "terminal = ".toList ++ expected
      else "expected terminal ".toList ++ expected ++ ", got ".toList ++ response.terminal⟩
  | .result field matcher =>
    let fieldStr := match field with
      | some f => "result.".toList ++ f
      | none => "result".toList
    match response.result.bind fun result => extractResultValue result field with
    | some v => matched isMatch fieldStr matcher v
    | none => ⟨false, "result field ".toList ++ fieldStr ++ " not found".toList⟩
  | .error matcher =>
    match response.error with
    | some err =>
      let passed := matchesValue isMatch matcher err.message
      ⟨passed,
        if passed then "error matched: ".toList ++ err.message
        else "error: expected ".toList ++ matcher.display ++ ", got ".toList ++ err.message⟩
    | none => ⟨false, "expected error but none received".toList⟩
  | .stderrCount matcher => matched isMatch "stderr.count".toList matcher (decimal response.stderrCount.toNat)
  | .daemon _ | .trust _ | .serverFeatures _ => ⟨false, "handshake expect used in op context".toList⟩

def evaluateExpects (expects : List Expect) (response : DaemonResponse) : List ExpectResult :=
  expects.map fun expect => evaluateExpect isMatch expect response

-- `{expect:?}`
variable (debug : Expect → Str)

def evaluateHandshakeExpect (expect : Expect) (info : HandshakeInfo) : ExpectResult :=
  match expect with
  | .daemon matcher => matched isMatch "daemon".toList matcher (info.daemonNixVersion.getD "unknown".toList)
  | .trust matcher =>
    let trustStr := match info.trustStatus.map UInt64.toNat with
      | some 1 => "trusted".toList
      | some 2 => "not-trusted".toList
      | some _ => "unknown".toList
      | none => "unknown".toList
    matched isMatch "trust".toList matcher trustStr
  | .serverFeatures matcher => matched isMatch "server_features".toList matcher (bracedSet info.serverFeatures)
  | other => ⟨false, "non-handshake expect in preamble: ".toList ++ debug other⟩

def evaluateHandshakeExpects (expects : List Expect) (info : HandshakeInfo) : List ExpectResult :=
  expects.map fun expect => evaluateHandshakeExpect isMatch debug expect info

end

end NixWire
