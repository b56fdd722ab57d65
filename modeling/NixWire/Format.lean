/-
  NixWire.Format — a script as `.nwscript` text (script/format.rs).

  A writer gives the lines it writes; `formatScript` ends each with a line feed. Such a
  line can hold line feeds of its own, from a string of the script.

  Large framed data is written to files while a script is formatted. The writers of the
  script, named with an `M`, run in any monad that writes files; without it they are the same
  writers over files that succeed or fail by their path and bytes.
-/

import NixWire.Base.Text
import NixWire.Serialize

namespace NixWire

open Base

structure FormatOptions where
  /-- The directory for large framed data. -/
  dataDir : Option Str
  /-- Larger data goes to a file when there is a `dataDir`. -/
  inlineThreshold : Nat
  deriving DecidableEq, Repr

def FormatOptions.default : FormatOptions := ⟨none, 64⟩

/-! ## Values -/

def formatPathSet (paths : List Str) : Str :=
  if paths.isEmpty then ['{', ' ', '}'] else ['{', ' '] ++ List.intercalate ", ".toList paths ++ [' ', '}']

def hexEncode (data : List UInt8) : Str := data.flatMap fun b => zeroPad 2 (lowerHex b.toNat)

def escapeString (s : Str) : Str :=
  replaceChar '\t' "\\t".toList <| replaceChar '\r' "\\r".toList <| replaceChar '\n' "\\n".toList <|
    replaceChar '"' "\\\"".toList <| replaceChar '\\' "\\\\".toList s

def formatU64 (v : UInt64) : Str := decimal v.toNat

/-- A flag as a number. -/
def formatFlag (b : Bool) : Str := if b then ['1'] else ['0']

/-! ## Expects -/

def formatExpect : Expect → Str
  | .terminal code => "  expect: ".toList ++ code
  | .result field matcher =>
    let fieldStr := match field with
      | some f => "result.".toList ++ f
      | none => "result".toList
    "  expect ".toList ++ fieldStr ++ ": ".toList ++ matcher.display
  | .error matcher => "  expect error: ".toList ++ matcher.display
  | .stderrCount matcher => "  expect stderr.count: ".toList ++ matcher.display
  | .daemon matcher => "  expect daemon: ".toList ++ matcher.display
  | .trust matcher => "  expect trust: ".toList ++ matcher.display
  | .serverFeatures matcher => "  expect server_features: ".toList ++ matcher.display

def formatPreambleExpect : Expect → Str
  | .daemon matcher => "expect daemon: ".toList ++ matcher.display
  | .trust matcher => "expect trust: ".toList ++ matcher.display
  | .serverFeatures matcher => "expect server_features: ".toList ++ matcher.display
  | other => trimStart (formatExpect other)

/-! ## Response comments -/

def formatPathInfoComment (info : PathInfoResult) : List Str :=
  ["  # result.valid: ".toList ++ formatFlag info.valid]
    ++ (match info.deriver with
      | some d => if d.isEmpty then [] else ["  # result.deriver: ".toList ++ d]
      | none => [])
    ++ (info.narHash.map fun h => "  # result.narHash: ".toList ++ h).toList
    ++ (info.references.map fun refs => "  # result.references: ".toList ++ formatPathSet refs).toList
    ++ (info.narSize.map fun ns => "  # result.narSize: ".toList ++ formatU64 ns).toList

def formatResultComment : ResultData → List Str
  | .u64 v => ["  # result: ".toList ++ formatU64 v]
  | .str s => ["  # result: ".toList ++ s]
  | .pathInfo info => formatPathInfoComment info
  | .stringSet set => ["  # result: ".toList ++ formatPathSet set]
  | .stringMap pairs =>
    ["  # result.count: ".toList ++ decimal pairs.length]
      ++ (pairs.take 5).map (fun kv => "  # result: \"".toList ++ kv.1 ++ "\" = \"".toList ++ kv.2 ++ "\"".toList)
      ++ (if pairs.length > 5 then ["  # ... and ".toList ++ decimal (pairs.length - 5) ++ " more".toList] else [])
  | .none => []
  | .collectGarbage bytesFreed => ["  # result.bytes_freed: ".toList ++ formatU64 bytesFreed]
  | .substitutablePathInfo valid deriver _ downloadSize narSize =>
    ["  # result.valid: ".toList ++ formatFlag valid]
      ++ (deriver.map fun d => "  # result.deriver: ".toList ++ d).toList
      ++ (downloadSize.map fun ds => "  # result.downloadSize: ".toList ++ formatU64 ds).toList
      ++ (narSize.map fun ns => "  # result.narSize: ".toList ++ formatU64 ns).toList
  | .missing willBuild willSubstitute unknown downloadSize narSize =>
    ["  # result.willBuild: ".toList ++ formatPathSet willBuild,
      "  # result.willSubstitute: ".toList ++ formatPathSet willSubstitute,
      "  # result.unknown: ".toList ++ formatPathSet unknown,
      "  # result.downloadSize: ".toList ++ formatU64 downloadSize,
      "  # result.narSize: ".toList ++ formatU64 narSize]
  | .framed data => ["  # result: framed ".toList ++ decimal data.length ++ " bytes".toList]
  | .raw data => ["  # result: raw ".toList ++ decimal data.length ++ " bytes".toList]

def formatResponseComment (resp : DaemonResponse) : List Str :=
  ["  # response: ".toList ++ resp.terminal]
    ++ (if resp.stderrCount > 1 then ["  # stderr.count: ".toList ++ formatU64 resp.stderrCount] else [])
    ++ (resp.error.map fun err => "  # error: ".toList ++ err.message).toList
    ++ (resp.result.map formatResultComment).getD []

/-! ## Entries -/

/-- One line `  name: value` of a call's block. -/
def fieldLine (name : String) (value : Str) : Str := "  ".toList ++ name.toList ++ ": ".toList ++ value

section

-- the file system: writing the bytes to the path, and whether it succeeds
variable {m : Type → Type} [Monad m] (writeFile : Str → List UInt8 → m Bool)

/-- The `data` line, and how many files were written so far. -/
def formatFramedDataM (data : FramedData) (opts : FormatOptions) (fileCounter : Nat) : m (Str × Nat) :=
  match data with
  | .inline bytes =>
    let inlineLine := fieldLine "data" ("x\"".toList ++ hexEncode bytes ++ "\"".toList)
    if bytes.length > opts.inlineThreshold then
      match opts.dataDir with
      | some dir => do
        let filename := zeroPad 4 (decimal fileCounter) ++ ".bin".toList
        if ← writeFile (joinPath dir filename) bytes then
          return (fieldLine "data" ("@file:".toList ++ filename), fileCounter + 1)
        else
          -- fall back to inline
          return (inlineLine, fileCounter)
      | none => return (inlineLine, fileCounter)
    else
      return (inlineLine, fileCounter)
  | .fileRef path => return (fieldLine "data" ("@file:".toList ++ path), fileCounter)

/-- The lines of a call, after its timestamp `ts`. -/
def formatOpCallM (ts : Str) (opCall : OpCall) (opts : FormatOptions) (fileCounter : Nat) : m (List Str × Nat) :=
  match opCall with
  | .singlePath op path => return ([ts ++ op.name ++ " ".toList ++ path], fileCounter)
  | .singleString op value => return ([ts ++ op.name ++ " ".toList ++ value], fileCounter)
  | .pathSet op paths => return ([ts ++ op.name ++ " ".toList ++ formatPathSet paths], fileCounter)
  | .pathSetFlag op paths substitute =>
    if substitute then return ([ts ++ op.name ++ " ".toList ++ formatPathSet paths ++ " substitute".toList], fileCounter)
    else return ([ts ++ op.name ++ " ".toList ++ formatPathSet paths], fileCounter)
  | .pathSetMode op paths mode =>
    return ([ts ++ op.name ++ " ".toList ++ formatPathSet paths ++ " ".toList ++ mode], fileCounter)
  | .noArgs op => return ([ts ++ op.name], fileCounter)
  | .setOptions keepFailed keepGoing tryFallback verbosity maxBuildJobs maxSilentTime useBuildHook verboseBuild
      logType printBuildTrace buildCores useSubstitutes overrides =>
    return ([ts ++ "SetOptions".toList,
        fieldLine "keep_failed" (formatU64 keepFailed),
        fieldLine "keep_going" (formatU64 keepGoing),
        fieldLine "try_fallback" (formatU64 tryFallback),
        fieldLine "verbosity" (formatU64 verbosity),
        fieldLine "max_build_jobs" (formatU64 maxBuildJobs),
        fieldLine "max_silent_time" (formatU64 maxSilentTime),
        fieldLine "use_build_hook" (formatU64 useBuildHook),
        fieldLine "verbose_build" (formatU64 verboseBuild),
        fieldLine "log_type" (formatU64 logType),
        fieldLine "print_build_trace" (formatU64 printBuildTrace),
        fieldLine "build_cores" (formatU64 buildCores),
        fieldLine "use_substitutes" (formatU64 useSubstitutes),
        fieldLine "overrides" (decimal overrides.length)]
      ++ overrides.map (fun o => "    \"".toList ++ o.1 ++ "\" = \"".toList ++ o.2 ++ "\"".toList), fileCounter)
  | .collectGarbage action paths ignoreLiveness maxFreed =>
    return ([ts ++ "CollectGarbage".toList,
      fieldLine "action" (formatU64 action),
      fieldLine "paths" (formatPathSet paths),
      fieldLine "ignore_liveness" (formatU64 ignoreLiveness),
      fieldLine "max_freed" (formatU64 maxFreed)], fileCounter)
  | .verifyStore checkContents repair =>
    return ([ts ++ "VerifyStore".toList,
      fieldLine "check_contents" (formatFlag checkContents),
      fieldLine "repair" (formatFlag repair)], fileCounter)
  | .addPermRoot path gcRoot => return ([ts ++ "AddPermRoot ".toList ++ path ++ " ".toList ++ gcRoot], fileCounter)
  | .addSignatures path sigs =>
    return ([ts ++ "AddSignatures ".toList ++ path ++ " ".toList ++ formatPathSet sigs], fileCounter)
  | .addTextToStore suffix text refs =>
    return ([ts ++ "AddTextToStore".toList,
      fieldLine "suffix" ("\"".toList ++ suffix ++ "\"".toList),
      fieldLine "text" ("\"".toList ++ escapeString text ++ "\"".toList),
      fieldLine "refs" (formatPathSet refs)], fileCounter)
  | .addToStore name camStr refs repair data => do
    let (dataLine, fileCounter) ← formatFramedDataM writeFile data opts fileCounter
    return ([ts ++ "AddToStore".toList,
      fieldLine "name" ("\"".toList ++ name ++ "\"".toList),
      fieldLine "cam_str" ("\"".toList ++ camStr ++ "\"".toList),
      fieldLine "refs" (formatPathSet refs),
      fieldLine "repair" (formatFlag repair),
      dataLine], fileCounter)
  | .addMultipleToStore repair dontCheckSigs data => do
    let (dataLine, fileCounter) ← formatFramedDataM writeFile data opts fileCounter
    return ([ts ++ "AddMultipleToStore".toList,
      fieldLine "repair" (formatFlag repair),
      fieldLine "dont_check_sigs" (formatFlag dontCheckSigs),
      dataLine], fileCounter)
  | .addBuildLog path data => do
    let (dataLine, fileCounter) ← formatFramedDataM writeFile data opts fileCounter
    return ([ts ++ "AddBuildLog ".toList ++ path, dataLine], fileCounter)
  | .registerDrvOutput value => return ([ts ++ "RegisterDrvOutput ".toList ++ value], fileCounter)
  | .queryRealisation value => return ([ts ++ "QueryRealisation ".toList ++ value], fileCounter)
  | .querySubstitutablePathInfo path => return ([ts ++ "QuerySubstitutablePathInfo ".toList ++ path], fileCounter)
  | .querySubstitutablePathInfos paths =>
    return ([ts ++ "QuerySubstitutablePathInfos ".toList ++ formatPathSet paths], fileCounter)
  | .rawBytes op data =>
    return ([ts ++ op.name] ++ (if data.isEmpty then [] else ["  raw x\"".toList ++ hexEncode data ++ "\"".toList]),
      fileCounter)

-- a float with three decimals
variable {τ : Type} (formatMs : τ → Str)

def formatTimestamp : Option τ → Str
  | some ms => "@".toList ++ formatMs ms ++ "ms ".toList
  | none => []

def formatEntryM (entry : Entry τ) (opts : FormatOptions) (fileCounter : Nat) : m (List Str × Nat) := do
  let (call, fileCounter) ←
    formatOpCallM writeFile (formatTimestamp formatMs entry.timestampMs) entry.opCall opts fileCounter
  return (call ++ entry.expects.map formatExpect ++ (entry.response.map formatResponseComment).getD [], fileCounter)

/-- The lines of each entry, a blank line before them. -/
def formatEntriesM (opts : FormatOptions) : List (Entry τ) → Nat → m (List (List Str))
  | [], _ => return []
  | entry :: entries, fileCounter => do
    let (lines, fileCounter) ← formatEntryM writeFile formatMs entry opts fileCounter
    let blocks ← formatEntriesM opts entries fileCounter
    return ([[]] ++ lines) :: blocks

def formatPreamble (preamble : Preamble) : List Str :=
  ["# nwscript v1".toList,
      "protocol: ".toList ++ preamble.protocolVersion.display,
      "features: ".toList ++ formatPathSet preamble.clientFeatures]
    ++ (preamble.daemonVersion.map fun ver => "# daemon: ".toList ++ ver).toList
    ++ (preamble.trust.map fun trust => "# trust: ".toList ++ trust).toList
    ++ (preamble.serverFeatures.map fun feats => "# server_features: ".toList ++ formatPathSet feats).toList
    ++ preamble.expects.map formatPreambleExpect
    ++ ["---".toList]

def formatScriptM (script : Script τ) (opts : FormatOptions) : m Str := do
  let blocks ← formatEntriesM writeFile formatMs opts script.entries 0
  return (formatPreamble script.preamble ++ blocks.flatten).flatMap writeln

end

/-! ## Where the path and the bytes decide a write -/

section

-- whether a write succeeds
variable (writeFile : Str → List UInt8 → Bool)

def formatOpCall (ts : Str) (opCall : OpCall) (opts : FormatOptions) (fileCounter : Nat) : List Str × Nat :=
  Id.run (formatOpCallM (fun path bytes => pure (writeFile path bytes)) ts opCall opts fileCounter)

variable {τ : Type} (formatMs : τ → Str)

def formatEntry (entry : Entry τ) (opts : FormatOptions) (fileCounter : Nat) : List Str × Nat :=
  Id.run (formatEntryM (fun path bytes => pure (writeFile path bytes)) formatMs entry opts fileCounter)

def formatEntries (opts : FormatOptions) (entries : List (Entry τ)) (fileCounter : Nat) : List Str :=
  (Id.run (formatEntriesM (fun path bytes => pure (writeFile path bytes)) formatMs opts entries fileCounter)).flatten

def formatScript (script : Script τ) (opts : FormatOptions) : Str :=
  Id.run (formatScriptM (fun path bytes => pure (writeFile path bytes)) formatMs script opts)

variable (opts : FormatOptions)

theorem formatEntry_eq (entry : Entry τ) (fileCounter : Nat) : formatEntry writeFile formatMs entry opts fileCounter =
    let call := formatOpCall writeFile (formatTimestamp formatMs entry.timestampMs) entry.opCall opts fileCounter
    (call.1 ++ entry.expects.map formatExpect ++ (entry.response.map formatResponseComment).getD [], call.2) := rfl

theorem formatEntries_cons (entry : Entry τ) (entries : List (Entry τ)) (fileCounter : Nat) :
    formatEntries writeFile formatMs opts (entry :: entries) fileCounter =
      [] :: ((formatEntry writeFile formatMs entry opts fileCounter).1 ++
        formatEntries writeFile formatMs opts entries (formatEntry writeFile formatMs entry opts fileCounter).2) := rfl

theorem formatScript_eq (script : Script τ) : formatScript writeFile formatMs script opts =
    (formatPreamble script.preamble ++ formatEntries writeFile formatMs opts script.entries 0).flatMap writeln := rfl

end

end NixWire
