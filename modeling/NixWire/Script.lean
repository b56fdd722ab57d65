/-
  NixWire.Script — the script AST (script/mod.rs).

  Timestamps are floating point in the source; here they are of any type `τ`.
-/

import NixWire.Base.Number
import NixWire.Handshake
import NixWire.Ops
import NixWire.Stderr

namespace NixWire

open Base

/-! ## Calls -/

/-- Framed data: inline bytes, or a reference to an external file. -/
inductive FramedData where
  | inline (bytes : List UInt8)
  | fileRef (path : Str)
  deriving DecidableEq, Repr

inductive OpCall where
  | singlePath (op : Op) (path : Str)
  | singleString (op : Op) (value : Str)
  | pathSet (op : Op) (paths : List Str)
  | pathSetFlag (op : Op) (paths : List Str) (substitute : Bool)
  | pathSetMode (op : Op) (paths : List Str) (mode : Str)
  | noArgs (op : Op)
  | setOptions (keepFailed keepGoing tryFallback verbosity maxBuildJobs maxSilentTime useBuildHook verboseBuild
      logType printBuildTrace buildCores useSubstitutes : UInt64) (overrides : List (Str × Str))
  | collectGarbage (action : UInt64) (paths : List Str) (ignoreLiveness maxFreed : UInt64)
  | verifyStore (checkContents repair : Bool)
  | addPermRoot (path gcRoot : Str)
  | addSignatures (path : Str) (sigs : List Str)
  | addTextToStore (suffix text : Str) (refs : List Str)
  | addToStore (name camStr : Str) (refs : List Str) (repair : Bool) (data : FramedData)
  | addMultipleToStore (repair dontCheckSigs : Bool) (data : FramedData)
  | addBuildLog (path : Str) (data : FramedData)
  | registerDrvOutput (value : Str)
  | queryRealisation (value : Str)
  | querySubstitutablePathInfo (path : Str)
  | querySubstitutablePathInfos (paths : List Str)
  /-- Fallback for operations too complex to parse. -/
  | rawBytes (op : Op) (data : List UInt8)
  deriving DecidableEq, Repr

def OpCall.op : OpCall → Op
  | singlePath op _ => op
  | singleString op _ => op
  | pathSet op _ => op
  | pathSetFlag op _ _ => op
  | pathSetMode op _ _ => op
  | noArgs op => op
  | setOptions .. => .setOptions
  | collectGarbage .. => .collectGarbage
  | verifyStore .. => .verifyStore
  | addPermRoot .. => .addPermRoot
  | addSignatures .. => .addSignatures
  | addTextToStore .. => .addTextToStore
  | addToStore .. => .addToStore
  | addMultipleToStore .. => .addMultipleToStore
  | addBuildLog .. => .addBuildLog
  | registerDrvOutput .. => .registerDrvOutput
  | queryRealisation .. => .queryRealisation
  | querySubstitutablePathInfo .. => .querySubstitutablePathInfo
  | querySubstitutablePathInfos .. => .querySubstitutablePathInfos
  | rawBytes op _ => op

/-- The operations on a single store path. -/
def singlePathOps : List Op :=
  [.isValidPath, .queryReferrers, .queryDeriver, .queryDerivationOutputs, .queryDerivationOutputNames,
    .queryDerivationOutputMap, .queryValidDerivers, .queryPathInfo, .ensurePath, .addTempRoot, .narFromPath]

/-! ## Responses -/

/-- The payload of STDERR_ERROR. -/
structure ErrorInfo where
  errorType : Str
  level : UInt64
  name : Str
  message : Str
  deriving DecidableEq, Repr

structure PathInfoResult where
  valid : Bool
  deriver : Option Str
  narHash : Option Str
  references : Option (List Str)
  registrationTime : Option UInt64
  narSize : Option UInt64
  ultimate : Option Bool
  sigs : Option (List Str)
  ca : Option Str
  deriving DecidableEq, Repr

inductive ResultData where
  | u64 (v : UInt64)
  | str (s : Str)
  | pathInfo (info : PathInfoResult)
  | stringSet (set : List Str)
  | stringMap (pairs : List (Str × Str))
  | none
  | collectGarbage (bytesFreed : UInt64)
  | substitutablePathInfo (valid : Bool) (deriver : Option Str) (refs : Option (List Str))
      (downloadSize narSize : Option UInt64)
  | missing (willBuild willSubstitute unknown : List Str) (downloadSize narSize : UInt64)
  | framed (data : List UInt8)
  | raw (data : List UInt8)
  deriving DecidableEq, Repr

structure DaemonResponse where
  /-- "Last", "Error", a code's name, or "none". -/
  terminal : Str
  stderrCount : UInt64
  result : Option ResultData
  error : Option ErrorInfo
  deriving DecidableEq, Repr

def terminalName : Option StderrCode → Str
  | some .last => "Last".toList
  | some .error => "Error".toList
  | some c => c.name
  | none => "none".toList

/-! ## Assertions -/

/-- A matcher; the bounds are `i64`. -/
inductive Matcher where
  | exact (s : Str)
  | regex (r : Str)
  | greaterThan (n : Int)
  | lessThan (n : Int)
  | greaterOrEqual (n : Int)
  | lessOrEqual (n : Int)
  deriving DecidableEq, Repr

def Matcher.display : Matcher → Str
  | exact s => s
  | regex r => '/' :: r ++ ['/']
  | greaterThan n => "> ".toList ++ intDecimal n
  | lessThan n => "< ".toList ++ intDecimal n
  | greaterOrEqual n => ">= ".toList ++ intDecimal n
  | lessOrEqual n => "<= ".toList ++ intDecimal n

inductive Expect where
  | terminal (t : Str)
  | result (field : Option Str) (matcher : Matcher)
  | error (matcher : Matcher)
  | stderrCount (matcher : Matcher)
  | daemon (matcher : Matcher)
  | trust (matcher : Matcher)
  | serverFeatures (matcher : Matcher)
  deriving DecidableEq, Repr

/-! ## Scripts -/

structure Preamble where
  protocolVersion : ProtocolVersion
  clientFeatures : List Str
  /-- Handshake-level assertions. -/
  expects : List Expect
  daemonVersion : Option Str
  trust : Option Str
  serverFeatures : Option (List Str)
  deriving DecidableEq, Repr

structure Entry (τ : Type) where
  /-- Milliseconds from the session start. -/
  timestampMs : Option τ
  opCall : OpCall
  response : Option DaemonResponse
  expects : List Expect
  deriving DecidableEq, Repr

structure Script (τ : Type) where
  preamble : Preamble
  entries : List (Entry τ)
  deriving DecidableEq, Repr

end NixWire
