/-
  NixWire.Protocol — the protocol parsers (protocol.rs).

  Each function is the source's, over any buffered reader: the handshake on the client's
  and the daemon's stream, an operation's arguments and results read or skipped, the
  stderr message loop. Gates on the version stand where the source has them.
-/

import NixWire.Script
import NixWire.Wire

namespace NixWire

open Base

structure HandshakeInfo where
  clientVersion : ProtocolVersion
  serverVersion : ProtocolVersion
  negotiatedVersion : ProtocolVersion
  clientFeatures : List Str
  serverFeatures : List Str
  daemonNixVersion : Option Str
  trustStatus : Option UInt64
  deriving DecidableEq, Repr

structure StderrResult where
  /-- Messages consumed, the terminal one included. -/
  count : UInt64
  /-- The terminal code, or none if the loop met something that is not a code. -/
  terminal : Option StderrCode
  deriving DecidableEq, Repr

/-- Whether the client sends framed data with the operation (protocol ≥ 1.23). -/
def opHasClientFramedData : Op → Bool
  | .addToStore | .addToStoreNar | .addMultipleToStore | .addBuildLog => true
  | _ => false

/-! ## The handshake -/

section

variable {C D : Type} [BufRead C] [BufRead D]

/-- Read from the client's stream. -/
def client {α : Type} (x : Rd WireError C α) : Rd WireError (C × D) α := x.onFst

/-- Read from the daemon's stream. -/
def daemon {α : Type} (x : Rd WireError D α) : Rd WireError (C × D) α := x.onSnd

/-- A flag, then the affinity value when it is nonzero. -/
def readCpuAffinity : Rd WireError C Unit := do
  let hasAffinity ← readU64
  if hasAffinity != 0 then
    let _ ← readU64
    return ()
  else return ()

def parseHandshake : Rd WireError (C × D) HandshakeInfo := do
  let magic1 ← client readU64
  let clientVerWire ← client readU64
  let clientVersion := ProtocolVersion.fromWire clientVerWire
  let magic2 ← daemon readU64
  let serverVerWire ← daemon readU64
  let serverVersion := ProtocolVersion.fromWire serverVerWire
  if magic1 ≠ workerMagic1 then Rd.fail (.clientMagic magic1)
  else if magic2 ≠ workerMagic2 then Rd.fail (.serverMagic magic2)
  else
    let negotiatedVersion := min clientVersion serverVersion
    let clientFeatures ← (if negotiatedVersion.hasFeatures then client readStringSet else pure [])
    let serverFeatures ← (if negotiatedVersion.hasFeatures then daemon readStringSet else pure [])
    -- obsolete fields: CPU affinity, reserveSpace
    let _ ← (if negotiatedVersion.hasCpuAffinity then client readCpuAffinity else pure ())
    let _ ← (if negotiatedVersion.hasReserveSpace then some <$> client readU64 else pure none)
    let daemonNixVersion ←
      (if negotiatedVersion ≥ .new 1 33 then some <$> daemon readString else pure none)
    let trustStatus ← (if negotiatedVersion ≥ .new 1 35 then some <$> daemon readU64 else pure none)
    let codeVal ← daemon readU64
    if StderrCode.fromU64 codeVal ≠ some .last then Rd.fail (.expectedLast codeVal)
    else return {
      clientVersion, serverVersion, negotiatedVersion, clientFeatures, serverFeatures, daemonNixVersion, trustStatus }

/-- The daemon's side alone, for a client version known from elsewhere. -/
def parseDaemonHandshake (clientVersion : ProtocolVersion) : Rd WireError D HandshakeInfo := do
  let magic2 ← readU64
  let serverVerWire ← readU64
  let serverVersion := ProtocolVersion.fromWire serverVerWire
  if magic2 ≠ workerMagic2 then Rd.fail (.serverMagic magic2)
  else
    let negotiatedVersion := min clientVersion serverVersion
    let serverFeatures ← (if negotiatedVersion.hasFeatures then readStringSet else pure [])
    let daemonNixVersion ← (if negotiatedVersion ≥ .new 1 33 then some <$> readString else pure none)
    let trustStatus ← (if negotiatedVersion ≥ .new 1 35 then some <$> readU64 else pure none)
    let codeVal ← readU64
    if StderrCode.fromU64 codeVal ≠ some .last then Rd.fail (.expectedLast codeVal)
    else return {
      clientVersion, serverVersion, negotiatedVersion, clientFeatures := [], serverFeatures, daemonNixVersion, trustStatus }

end

section

variable {R : Type} [BufRead R]

/-! ## Arguments -/

def countText (count : UInt64) (what : Str) : Str := decimal count.toNat ++ what

/-- Skip an operation's fixed arguments: a short description of them, or none if they are
    too complex to parse. -/
def skipOpArgs (op : Op) (version : ProtocolVersion) : Rd WireError R (Option Str) :=
  match op with
  | .isValidPath | .queryReferrers | .queryDeriver | .queryDerivationOutputs | .queryDerivationOutputNames
  | .queryDerivationOutputMap | .queryValidDerivers | .queryPathInfo | .ensurePath | .addTempRoot | .narFromPath => do
    let path ← readString
    return some path
  | .addIndirectRoot | .queryPathFromHashPart => do
    let s ← readString
    return some s
  | .queryValidPaths => do
    let count ← skipStringSet
    let _ ← (if version ≥ .new 1 27 then some <$> readU64 else pure none)
    return some (countText count " paths".toList)
  | .querySubstitutablePaths => do
    let count ← skipStringSet
    return some (countText count " paths".toList)
  | .setOptions => do
    -- keepFailed, keepGoing, tryFallback, verbosity, maxBuildJobs, maxSilentTime
    let _ ← Rd.times 6 readU64
    let _ ← readU64 -- useBuildHook
    let _ ← readU64 -- verboseBuild
    let _ ← readU64 -- logType
    let _ ← readU64 -- printBuildTrace
    let _ ← (if version ≥ .new 1 10 then some <$> readU64 else pure none)
    let _ ← (if version ≥ .new 1 12 then some <$> readU64 else pure none)
    if version ≥ .new 1 12 then
      let count ← readU64
      let _ ← Rd.times count.toNat (do
        let _ ← skipString
        skipString)
      return some (countText count " overrides".toList)
    else return some []
  | .syncWithGC | .findRoots | .queryAllValidPaths | .optimiseStore => return some []
  | .addToStore => do
    if version ≥ .new 1 25 then
      let name ← readString
      let _ ← skipString -- camStr
      let _ ← skipStringSet -- refs
      let _ ← readU64 -- repair
      return some name
    else
      let name ← readString
      let _ ← readU64 -- fixed
      let _ ← readU64 -- recursive
      let _ ← skipString -- hashAlgo
      return some name
  | .addMultipleToStore => do
    let _ ← readU64 -- repair
    let _ ← readU64 -- dontCheckSigs
    return some []
  | .addBuildLog => do
    let path ← readString
    return some path
  | .buildPaths | .buildPathsWithResults => do
    let count ← skipStringSet
    let _ ← readU64 -- mode
    return some (countText count " paths".toList)
  | .queryMissing => do
    let count ← skipStringSet
    return some (countText count " paths".toList)
  | .querySubstitutablePathInfo => do
    let path ← readString
    return some path
  | .querySubstitutablePathInfos => do
    let count ← skipStringSet
    return some (countText count " paths".toList)
  | .collectGarbage => do
    let _ ← readU64 -- action
    let _ ← skipStringSet
    let _ ← readU64 -- ignoreLiveness
    let _ ← readU64 -- maxFreed
    let _ ← readU64 -- obsolete
    let _ ← readU64 -- obsolete
    let _ ← readU64 -- obsolete
    return some []
  | .verifyStore => do
    let _ ← readU64
    let _ ← readU64
    return some []
  | .addToStoreNar => return none
  | .addPermRoot => do
    let _ ← skipString
    let _ ← skipString
    return some []
  | .addSignatures => do
    let path ← readString
    let _ ← skipStringSet
    return some path
  | .registerDrvOutput | .queryRealisation => do
    let s ← readString
    return some s
  | .buildDerivation => return none
  | .addTextToStore => do
    let _ ← skipString
    let _ ← skipString
    let _ ← skipStringSet
    return some []

def readPair : Rd WireError R (Str × Str) := do
  let name ← readString
  let value ← readString
  return (name, value)

/-- A count, then that many pairs of strings into a vector. -/
def readPairs : Rd WireError R (List (Str × Str)) := do
  let count ← readU64
  reserve (count.toNat * pairSize)
  Rd.times count.toNat readPair

/-- The name of a build mode. -/
def modeName (modeVal : UInt64) : Str :=
  match modeVal.toNat with
  | 0 => "normal".toList
  | 1 => "repair".toList
  | 2 => "check".toList
  | n => decimal n

/-- Read an operation's arguments, or none for the operations too complex to parse. -/
def readOpArgs (op : Op) (version : ProtocolVersion) : Rd WireError R (Option OpCall) :=
  match op with
  | .isValidPath | .queryReferrers | .queryDeriver | .queryDerivationOutputs | .queryDerivationOutputNames
  | .queryDerivationOutputMap | .queryValidDerivers | .queryPathInfo | .ensurePath | .addTempRoot | .narFromPath => do
    let path ← readString
    return some (.singlePath op path)
  | .addIndirectRoot | .queryPathFromHashPart => do
    let s ← readString
    return some (.singleString op s)
  | .queryValidPaths => do
    let paths ← readStringSet
    let substitute ← (if version ≥ .new 1 27 then (· != 0) <$> readU64 else pure false)
    return some (.pathSetFlag op paths substitute)
  | .querySubstitutablePaths => do
    let paths ← readStringSet
    return some (.pathSet op paths)
  | .setOptions => do
    let keepFailed ← readU64
    let keepGoing ← readU64
    let tryFallback ← readU64
    let verbosity ← readU64
    let maxBuildJobs ← readU64
    let maxSilentTime ← readU64
    let useBuildHook ← readU64
    let verboseBuild ← readU64
    let logType ← readU64
    let printBuildTrace ← readU64
    let buildCores ← (if version ≥ .new 1 10 then readU64 else pure 0)
    let useSubstitutes ← (if version ≥ .new 1 12 then readU64 else pure 0)
    let overrides ← (if version ≥ .new 1 12 then readPairs else pure [])
    return some (.setOptions keepFailed keepGoing tryFallback verbosity maxBuildJobs maxSilentTime useBuildHook
      verboseBuild logType printBuildTrace buildCores useSubstitutes overrides)
  | .syncWithGC | .findRoots | .queryAllValidPaths | .optimiseStore => return some (.noArgs op)
  | .addToStore => do
    if version ≥ .new 1 25 then
      let name ← readString
      let camStr ← readString
      let refs ← readStringSet
      let repair ← readU64
      let data ← readFramed
      return some (.addToStore name camStr refs (repair != 0) (.inline data))
    else return none
  | .addMultipleToStore => do
    let repair ← readU64
    let dontCheckSigs ← readU64
    let data ← readFramed
    return some (.addMultipleToStore (repair != 0) (dontCheckSigs != 0) (.inline data))
  | .addBuildLog => do
    let path ← readString
    let data ← readFramed
    return some (.addBuildLog path (.inline data))
  | .buildPaths | .buildPathsWithResults => do
    let paths ← readStringSet
    let modeVal ← readU64
    return some (.pathSetMode op paths (modeName modeVal))
  | .queryMissing => do
    let paths ← readStringSet
    return some (.pathSet op paths)
  | .querySubstitutablePathInfo => do
    let path ← readString
    return some (.querySubstitutablePathInfo path)
  | .querySubstitutablePathInfos => do
    let paths ← readStringSet
    return some (.querySubstitutablePathInfos paths)
  | .collectGarbage => do
    let action ← readU64
    let paths ← readStringSet
    let ignoreLiveness ← readU64
    let maxFreed ← readU64
    let _ ← readU64 -- obsolete
    let _ ← readU64 -- obsolete
    let _ ← readU64 -- obsolete
    return some (.collectGarbage action paths ignoreLiveness maxFreed)
  | .verifyStore => do
    let checkContents ← readU64
    let repair ← readU64
    return some (.verifyStore (checkContents != 0) (repair != 0))
  | .addToStoreNar => return none
  | .addPermRoot => do
    let path ← readString
    let gcRoot ← readString
    return some (.addPermRoot path gcRoot)
  | .addSignatures => do
    let path ← readString
    let sigs ← readStringSet
    return some (.addSignatures path sigs)
  | .registerDrvOutput => do
    let value ← readString
    return some (.registerDrvOutput value)
  | .queryRealisation => do
    let value ← readString
    return some (.queryRealisation value)
  | .addTextToStore => do
    let suffix ← readString
    let text ← readString
    let refs ← readStringSet
    return some (.addTextToStore suffix text refs)
  | .buildDerivation => return none

/-! ## Stderr messages -/

/-- A field of an activity or a result: a type word, then an integer or a string. -/
def skipField : Rd WireError R Unit := do
  let ftype ← readU64
  if ftype == 0 then
    let _ ← readU64
    return ()
  else skipString

def skipFields : Rd WireError R Unit := do
  let nfields ← readU64
  let _ ← Rd.times nfields.toNat skipField
  return ()

/-- Skip the payload of a non-terminal message. -/
def skipStderrPayload (code : StderrCode) : Rd WireError R Unit :=
  match code with
  | .next | .write => skipString
  | .read => do
    let _ ← readU64 -- requested length
    return ()
  | .startActivity => do
    let _ ← readU64 -- act
    let _ ← readU64 -- lvl
    let _ ← readU64 -- type
    let _ ← skipString -- message
    let _ ← skipFields
    let _ ← readU64 -- parent
    return ()
  | .stopActivity => do
    let _ ← readU64 -- act
    return ()
  | .result => do
    let _ ← readU64 -- act
    let _ ← readU64 -- type
    skipFields
  | .last | .error => return ()

def readStderrPass (count : UInt64) : Rd WireError R (UInt64 ⊕ StderrResult) := do
  match ← peekU64 with
  | none => return .inr ⟨count, none⟩
  | some peeked =>
    match StderrCode.fromU64 peeked with
    | some code =>
      let _ ← consume 8
      if code.isTerminal then return .inr ⟨count + 1, some code⟩
      else
        let _ ← skipStderrPayload code
        return .inl (count + 1)
    -- not a stderr code: result data follows
    | none => return .inr ⟨count, none⟩

/-- Skip the daemon's messages up to a terminal code, or up to something that is not a code. -/
def readStderrLoop : Rd WireError R StderrResult := readLoop readStderrPass 0

/-- The payload of STDERR_ERROR. -/
def readErrorInfo : Rd WireError R ErrorInfo := do
  let errorType ← readString
  let level ← readU64
  let name ← readString
  let message ← readString
  let havePos ← readU64
  if havePos != 0 then
    let _ ← skipString -- file
    let _ ← readU64 -- line
    let _ ← readU64 -- column
    return { errorType, level, name, message }
  else return { errorType, level, name, message }

/-- The stderr loop, with the error's payload if it ends in STDERR_ERROR. -/
def readStderrWithError : Rd WireError R (StderrResult × Option ErrorInfo) := do
  let stderrResult ← readStderrLoop
  if stderrResult.terminal = some .error then
    let errorInfo ← readErrorInfo
    return (stderrResult, some errorInfo)
  else return (stderrResult, none)

/-! ## Results -/

def skipUnkeyedValidPathInfo (version : ProtocolVersion) : Rd WireError R Unit := do
  let _ ← skipString -- deriver
  let _ ← skipString -- narHash
  let _ ← skipStringSet -- references
  let _ ← readU64 -- registrationTime
  let _ ← readU64 -- narSize
  if version ≥ .new 1 16 then
    let _ ← readU64 -- ultimate
    let _ ← skipStringSet -- sigs
    skipString -- ca
  else return ()

/-- A flag, then a number of microseconds when it is nonzero. -/
def skipOptionalDuration : Rd WireError R Unit := do
  let flag ← readU64
  if flag != 0 then
    let _ ← readU64
    return ()
  else return ()

def skipPair : Rd WireError R Unit := do
  let _ ← skipString
  skipString

/-- A count, then that many pairs of strings. -/
def skipPairs : Rd WireError R Unit := do
  let count ← readU64
  let _ ← Rd.times count.toNat skipPair
  return ()

def skipBuildResult (version : ProtocolVersion) : Rd WireError R Unit := do
  let _ ← readU64 -- status
  let _ ← skipString -- errorMsg
  let _ ← (if version ≥ .new 1 29 then do
      let _ ← readU64 -- timesBuilt
      let _ ← readU64 -- isNonDeterministic
      let _ ← readU64 -- startTime
      let _ ← readU64 -- stopTime
      return ()
    else pure ())
  let _ ← (if version ≥ .new 1 37 then do
      let _ ← skipOptionalDuration -- cpuUser
      skipOptionalDuration -- cpuSystem
    else pure ())
  -- DrvOutputs = map<DrvOutput, Realisation>
  if version ≥ .new 1 28 then skipPairs else return ()

/-- A DerivedPath and its BuildResult. -/
def skipKeyedBuildResult (version : ProtocolVersion) : Rd WireError R Unit := do
  let _ ← skipString
  skipBuildResult version

def skipKeyedBuildResults (version : ProtocolVersion) : Rd WireError R Unit := do
  let count ← readU64
  let _ ← Rd.times count.toNat (skipKeyedBuildResult version)
  return ()

/-- Skip what the daemon returns after STDERR_LAST. -/
def skipDaemonResult (op : Op) (version : ProtocolVersion) : Rd WireError R Unit :=
  match op with
  | .setOptions | .registerDrvOutput | .addMultipleToStore | .addToStoreNar => return ()
  | .isValidPath | .verifyStore | .addTempRoot | .addIndirectRoot | .ensurePath | .syncWithGC | .optimiseStore
  | .addSignatures | .addBuildLog => do
    let _ ← readU64
    return ()
  | .addPermRoot => skipString
  | .addTextToStore | .queryDeriver | .queryPathFromHashPart => skipString
  | .addToStore => do
    if version ≥ .new 1 25 then
      let _ ← skipString -- path
      skipUnkeyedValidPathInfo version
    else skipString
  | .narFromPath => do
    if version ≥ .new 1 23 then
      let _ ← skipFramed
      return ()
    else return ()
  | .queryReferrers | .queryAllValidPaths | .queryValidDerivers | .querySubstitutablePaths | .queryValidPaths
  | .queryDerivationOutputs | .queryDerivationOutputNames => do
    let _ ← skipStringSet
    return ()
  | .queryDerivationOutputMap => skipPairs
  | .findRoots => skipPairs
  | .queryPathInfo => do
    let valid ← readU64
    if valid != 0 then skipUnkeyedValidPathInfo version else return ()
  | .buildPaths => do
    let _ ← readU64
    return ()
  | .collectGarbage => do
    let _ ← readU64
    let _ ← readU64
    let _ ← readU64
    return ()
  | .querySubstitutablePathInfo => do
    let valid ← readU64
    if valid != 0 then
      let _ ← skipString -- deriver
      let _ ← skipStringSet -- refs
      let _ ← readU64 -- downloadSize
      let _ ← readU64 -- narSize
      return ()
    else return ()
  | .querySubstitutablePathInfos => do
    let count ← readU64
    let _ ← Rd.times count.toNat (do
      let _ ← skipString
      let _ ← skipString
      let _ ← skipStringSet
      let _ ← readU64
      let _ ← readU64
      return ())
    return ()
  | .queryMissing => do
    let _ ← skipStringSet
    let _ ← skipStringSet
    let _ ← skipStringSet
    let _ ← readU64
    let _ ← readU64
    return ()
  | .buildDerivation => skipBuildResult version
  | .buildPathsWithResults => skipKeyedBuildResults version
  | .queryRealisation => do
    let _ ← skipStringSet
    return ()

structure ValidPathInfoFields where
  deriver : Str
  narHash : Str
  references : List Str
  registrationTime : UInt64
  narSize : UInt64
  ultimate : Option Bool
  sigs : Option (List Str)
  ca : Option Str

def readUnkeyedValidPathInfo (version : ProtocolVersion) : Rd WireError R ValidPathInfoFields := do
  let deriver ← readString
  let narHash ← readString
  let references ← readStringSet
  let registrationTime ← readU64
  let narSize ← readU64
  if version ≥ .new 1 16 then
    let ultimate ← readU64
    let sigs ← readStringSet
    let ca ← readString
    return { deriver, narHash, references, registrationTime, narSize,
             ultimate := some (ultimate != 0), sigs := some sigs, ca := some ca }
  else return { deriver, narHash, references, registrationTime, narSize, ultimate := none, sigs := none, ca := none }

/-- The result for a path the daemon knows. -/
def validPathInfo (info : ValidPathInfoFields) : PathInfoResult :=
  { valid := true, deriver := some info.deriver, narHash := some info.narHash, references := some info.references,
    registrationTime := some info.registrationTime, narSize := some info.narSize, ultimate := info.ultimate,
    sigs := info.sigs, ca := info.ca }

/-- The result for a path it does not know. -/
def invalidPathInfo : PathInfoResult :=
  { valid := false, deriver := none, narHash := none, references := none, registrationTime := none,
    narSize := none, ultimate := none, sigs := none, ca := none }

/-- An element of QuerySubstitutablePathInfos: the path and its deriver are kept. -/
def readSubstitutableElem : Rd WireError R (Str × Str) := do
  let path ← readString
  let deriver ← readString
  let _ ← skipStringSet
  let _ ← readU64
  let _ ← readU64
  return (path, deriver)

/-- Read what the daemon returns after STDERR_LAST. -/
def readDaemonResult (op : Op) (version : ProtocolVersion) : Rd WireError R ResultData :=
  match op with
  | .setOptions | .registerDrvOutput | .addMultipleToStore | .addToStoreNar => return .none
  | .isValidPath | .verifyStore | .addTempRoot | .addIndirectRoot | .ensurePath | .syncWithGC | .optimiseStore
  | .addSignatures | .addBuildLog | .buildPaths => do
    let v ← readU64
    return .u64 v
  | .addPermRoot | .addTextToStore | .queryDeriver | .queryPathFromHashPart => do
    let s ← readString
    return .str s
  | .addToStore => do
    if version ≥ .new 1 25 then
      let _ ← readString -- path
      let info ← readUnkeyedValidPathInfo version
      return .pathInfo (validPathInfo info)
    else
      let s ← readString
      return .str s
  | .narFromPath => do
    if version ≥ .new 1 23 then
      let data ← readFramed
      return .framed data
    else return .none
  | .queryReferrers | .queryAllValidPaths | .queryValidDerivers | .querySubstitutablePaths | .queryValidPaths
  | .queryDerivationOutputs | .queryDerivationOutputNames => do
    let set ← readStringSet
    return .stringSet set
  | .queryDerivationOutputMap => do
    let pairs ← readPairs
    return .stringMap pairs
  | .findRoots => do
    let pairs ← readPairs
    return .stringMap pairs
  | .queryPathInfo => do
    let valid ← readU64
    if valid != 0 then
      let info ← readUnkeyedValidPathInfo version
      return .pathInfo (validPathInfo info)
    else return .pathInfo invalidPathInfo
  | .collectGarbage => do
    let bytesFreed ← readU64
    let _ ← readU64 -- obsolete
    let _ ← readU64 -- obsolete
    return .collectGarbage bytesFreed
  | .querySubstitutablePathInfo => do
    let valid ← readU64
    if valid != 0 then
      let deriver ← readString
      let refs ← readStringSet
      let downloadSize ← readU64
      let narSize ← readU64
      return .substitutablePathInfo true (some deriver) (some refs) (some downloadSize) (some narSize)
    else return .substitutablePathInfo false none none none none
  | .querySubstitutablePathInfos => do
    let count ← readU64
    reserve (count.toNat * pairSize)
    let pairs ← Rd.times count.toNat readSubstitutableElem
    return .stringMap pairs
  | .queryMissing => do
    let willBuild ← readStringSet
    let willSubstitute ← readStringSet
    let unknown ← readStringSet
    let downloadSize ← readU64
    let narSize ← readU64
    return .missing willBuild willSubstitute unknown downloadSize narSize
  -- too complex, skipped
  | .buildDerivation => do
    let _ ← skipBuildResult version
    return .none
  | .buildPathsWithResults => do
    let _ ← skipKeyedBuildResults version
    return .none
  | .queryRealisation => do
    let set ← readStringSet
    return .stringSet set

end

end NixWire
