/-
  NixWire.Stderr — the codes of the daemon's stderr messages (stderr.rs).
-/

import NixWire.Base.Utf8

namespace NixWire

open Base

inductive StderrCode where
  | next
  | read
  | write
  | last
  | error
  | startActivity
  | stopActivity
  | result
  deriving DecidableEq, Repr

namespace StderrCode

/-- The message's word on the wire (`code as u64`). -/
def code : StderrCode → UInt64
  | next => 0x6f6c6d67
  | read => 0x64617461
  | write => 0x64617416
  | last => 0x616c7473
  | error => 0x63787470
  | startActivity => 0x53545254
  | stopActivity => 0x53544f50
  | result => 0x52534c54

def fromU64 (v : UInt64) : Option StderrCode :=
  match v.toNat with
  | 0x6f6c6d67 => some next
  | 0x64617461 => some read
  | 0x64617416 => some write
  | 0x616c7473 => some last
  | 0x63787470 => some error
  | 0x53545254 => some startActivity
  | 0x53544f50 => some stopActivity
  | 0x52534c54 => some result
  | _ => none

def name : StderrCode → Str
  | next => "STDERR_NEXT".toList
  | read => "STDERR_READ".toList
  | write => "STDERR_WRITE".toList
  | last => "STDERR_LAST".toList
  | error => "STDERR_ERROR".toList
  | startActivity => "STDERR_START_ACTIVITY".toList
  | stopActivity => "STDERR_STOP_ACTIVITY".toList
  | result => "STDERR_RESULT".toList

/-- Whether the code ends the message loop. -/
def isTerminal : StderrCode → Bool
  | last | error => true
  | _ => false

@[simp] theorem fromU64_code (c : StderrCode) : fromU64 c.code = some c := by
  cases c <;> rfl

theorem code_of_fromU64 {v : UInt64} {c : StderrCode} (h : fromU64 v = some c) : c.code = v := by
  apply UInt64.toNat_inj.mp
  unfold fromU64 at h
  split at h
  all_goals first
    | (cases h; rename_i hv; rw [hv]; rfl)
    | cases h

end StderrCode

end NixWire
