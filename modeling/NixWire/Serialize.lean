/-
  NixWire.Serialize — a script's calls as wire bytes (script/serialize.rs).

  Only reading a referenced file can fail; `readFile` stands for the file system. Paths
  are Unix paths.
-/

import NixWire.Script
import NixWire.Wire

namespace NixWire

open Base

inductive SerializeError where
  | readFile (resolved : Str) (e : Str)
  deriving DecidableEq, Repr

def SerializeError.message : SerializeError → Str
  | readFile resolved e => "failed to read framed data file ".toList ++ resolved ++ ": ".toList ++ e

def isRelative (path : Str) : Bool := path.head? != some '/'

/-- `Path::join` with a relative path. -/
def joinPath (dir path : Str) : Str :=
  match dir.getLast? with
  | none | some '/' => dir ++ path
  | some _ => dir ++ '/' :: path

def resolvePath (baseDir : Option Str) (path : Str) : Str :=
  match baseDir with
  | some dir => if isRelative path then joinPath dir path else path
  | none => path

def serializeClientHandshake (version : ProtocolVersion) (features : List Str) : List UInt8 :=
  writeU64 workerMagic1 ++ writeU64 version.toWire
    ++ (if version.hasFeatures then writeStringSet features else [])
    ++ (if version.hasCpuAffinity then writeU64 0 else [])
    ++ (if version.hasReserveSpace then writeU64 0 else [])

def writeBool (b : Bool) : List UInt8 := writeU64 (if b then 1 else 0)

def modeValue (mode : Str) : UInt64 :=
  if mode = "normal".toList then 0
  else if mode = "repair".toList then 1
  else if mode = "check".toList then 2
  else (parseU64 mode).getD 0

/-- A count, then the pairs. -/
def writePairs (pairs : List (Str × Str)) : List UInt8 :=
  writeU64 (UInt64.ofNat pairs.length) ++ pairs.flatMap fun p => writeString p.1 ++ writeString p.2

section

-- the file system: a file's bytes, or the error's text
variable (readFile : Str → Except Str (List UInt8))

def writeFramedData (data : FramedData) (baseDir : Option Str) : Except SerializeError (List UInt8) :=
  match data with
  | .inline bytes => .ok (writeFramed bytes)
  | .fileRef path =>
    let resolved := resolvePath baseDir path
    match readFile resolved with
    | .ok fileData => .ok (writeFramed fileData)
    | .error e => .error (.readFile resolved e)

/-- A call's arguments, without the operation code. -/
def serializeOpArgs (opCall : OpCall) (version : ProtocolVersion) (baseDir : Option Str) :
    Except SerializeError (List UInt8) :=
  match opCall with
  | .singlePath _ path | .singleString _ path => .ok (writeString path)
  | .pathSet _ paths => .ok (writeStringSet paths)
  | .pathSetFlag _ paths substitute =>
    .ok (writeStringSet paths ++ (if version ≥ .new 1 27 then writeBool substitute else []))
  | .pathSetMode _ paths mode => .ok (writeStringSet paths ++ writeU64 (modeValue mode))
  | .noArgs _ => .ok []
  | .setOptions keepFailed keepGoing tryFallback verbosity maxBuildJobs maxSilentTime useBuildHook verboseBuild
      logType printBuildTrace buildCores useSubstitutes overrides =>
    .ok (writeU64 keepFailed ++ writeU64 keepGoing ++ writeU64 tryFallback ++ writeU64 verbosity
      ++ writeU64 maxBuildJobs ++ writeU64 maxSilentTime ++ writeU64 useBuildHook ++ writeU64 verboseBuild
      ++ writeU64 logType ++ writeU64 printBuildTrace
      ++ (if version ≥ .new 1 10 then writeU64 buildCores else [])
      ++ (if version ≥ .new 1 12 then writeU64 useSubstitutes else [])
      ++ (if version ≥ .new 1 12 then writePairs overrides else []))
  | .collectGarbage action paths ignoreLiveness maxFreed =>
    .ok (writeU64 action ++ writeStringSet paths ++ writeU64 ignoreLiveness ++ writeU64 maxFreed
      ++ writeU64 0 ++ writeU64 0 ++ writeU64 0)
  | .verifyStore checkContents repair => .ok (writeBool checkContents ++ writeBool repair)
  | .addPermRoot path gcRoot => .ok (writeString path ++ writeString gcRoot)
  | .addSignatures path sigs => .ok (writeString path ++ writeStringSet sigs)
  | .addTextToStore suffix text refs => .ok (writeString suffix ++ writeString text ++ writeStringSet refs)
  | .addToStore name camStr refs repair data => do
    let framed ← writeFramedData readFile data baseDir
    return writeString name ++ writeString camStr ++ writeStringSet refs ++ writeBool repair ++ framed
  | .addMultipleToStore repair dontCheckSigs data => do
    let framed ← writeFramedData readFile data baseDir
    return writeBool repair ++ writeBool dontCheckSigs ++ framed
  | .addBuildLog path data => do
    let framed ← writeFramedData readFile data baseDir
    return writeString path ++ framed
  | .registerDrvOutput value | .queryRealisation value => .ok (writeString value)
  | .querySubstitutablePathInfo path => .ok (writeString path)
  | .querySubstitutablePathInfos paths => .ok (writeStringSet paths)
  | .rawBytes _ data => .ok data

/-- A call's operation code and arguments. -/
def serializeOpCall (opCall : OpCall) (version : ProtocolVersion) (baseDir : Option Str) :
    Except SerializeError (List UInt8) := do
  let args ← serializeOpArgs readFile opCall version baseDir
  return writeU64 opCall.op.code ++ args

def serializeOpCalls (version : ProtocolVersion) (baseDir : Option Str) :
    List OpCall → Except SerializeError (List UInt8)
  | [] => .ok []
  | opCall :: rest => do
    let bytes ← serializeOpCall readFile opCall version baseDir
    let more ← serializeOpCalls version baseDir rest
    return bytes ++ more

/-- The client's side of the session. -/
def serializeScript {τ : Type} (script : Script τ) (baseDir : Option Str) : Except SerializeError (List UInt8) := do
  let version := script.preamble.protocolVersion
  let calls ← serializeOpCalls readFile version baseDir (script.entries.map (·.opCall))
  return serializeClientHandshake version script.preamble.clientFeatures ++ calls

end

end NixWire
