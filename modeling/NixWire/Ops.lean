/-
  NixWire.Ops — the operation codes of the worker protocol (ops.rs).

  A code names at most one operation, and an operation's code and name lead back to it
  (`fromU64_code`, `code_of_fromU64`, `fromName_name`).
-/

import NixWire.Base.Utf8

namespace NixWire

open Base

inductive Op where
  | isValidPath
  | queryReferrers
  | addToStore
  | addTextToStore
  | buildPaths
  | ensurePath
  | addTempRoot
  | addIndirectRoot
  | syncWithGC
  | findRoots
  | queryDeriver
  | setOptions
  | collectGarbage
  | querySubstitutablePathInfo
  | queryDerivationOutputs
  | queryAllValidPaths
  | queryPathInfo
  | queryDerivationOutputNames
  | queryPathFromHashPart
  | querySubstitutablePathInfos
  | queryValidPaths
  | querySubstitutablePaths
  | queryValidDerivers
  | optimiseStore
  | verifyStore
  | buildDerivation
  | addSignatures
  | narFromPath
  | addToStoreNar
  | queryMissing
  | queryDerivationOutputMap
  | registerDrvOutput
  | queryRealisation
  | addMultipleToStore
  | addBuildLog
  | buildPathsWithResults
  | addPermRoot
  deriving DecidableEq, Repr

namespace Op

/-- The operation's word on the wire (`op as u64`). -/
def code : Op → UInt64
  | isValidPath => 1
  | queryReferrers => 6
  | addToStore => 7
  | addTextToStore => 8
  | buildPaths => 9
  | ensurePath => 10
  | addTempRoot => 11
  | addIndirectRoot => 12
  | syncWithGC => 13
  | findRoots => 14
  | queryDeriver => 18
  | setOptions => 19
  | collectGarbage => 20
  | querySubstitutablePathInfo => 21
  | queryDerivationOutputs => 22
  | queryAllValidPaths => 23
  | queryPathInfo => 26
  | queryDerivationOutputNames => 28
  | queryPathFromHashPart => 29
  | querySubstitutablePathInfos => 30
  | queryValidPaths => 31
  | querySubstitutablePaths => 32
  | queryValidDerivers => 33
  | optimiseStore => 34
  | verifyStore => 35
  | buildDerivation => 36
  | addSignatures => 37
  | narFromPath => 38
  | addToStoreNar => 39
  | queryMissing => 40
  | queryDerivationOutputMap => 41
  | registerDrvOutput => 42
  | queryRealisation => 43
  | addMultipleToStore => 44
  | addBuildLog => 45
  | buildPathsWithResults => 46
  | addPermRoot => 47

def fromU64 (v : UInt64) : Option Op :=
  match v.toNat with
  | 1 => some isValidPath
  | 6 => some queryReferrers
  | 7 => some addToStore
  | 8 => some addTextToStore
  | 9 => some buildPaths
  | 10 => some ensurePath
  | 11 => some addTempRoot
  | 12 => some addIndirectRoot
  | 13 => some syncWithGC
  | 14 => some findRoots
  | 18 => some queryDeriver
  | 19 => some setOptions
  | 20 => some collectGarbage
  | 21 => some querySubstitutablePathInfo
  | 22 => some queryDerivationOutputs
  | 23 => some queryAllValidPaths
  | 26 => some queryPathInfo
  | 28 => some queryDerivationOutputNames
  | 29 => some queryPathFromHashPart
  | 30 => some querySubstitutablePathInfos
  | 31 => some queryValidPaths
  | 32 => some querySubstitutablePaths
  | 33 => some queryValidDerivers
  | 34 => some optimiseStore
  | 35 => some verifyStore
  | 36 => some buildDerivation
  | 37 => some addSignatures
  | 38 => some narFromPath
  | 39 => some addToStoreNar
  | 40 => some queryMissing
  | 41 => some queryDerivationOutputMap
  | 42 => some registerDrvOutput
  | 43 => some queryRealisation
  | 44 => some addMultipleToStore
  | 45 => some addBuildLog
  | 46 => some buildPathsWithResults
  | 47 => some addPermRoot
  | _ => none

def name : Op → Str
  | isValidPath => "IsValidPath".toList
  | queryReferrers => "QueryReferrers".toList
  | addToStore => "AddToStore".toList
  | addTextToStore => "AddTextToStore".toList
  | buildPaths => "BuildPaths".toList
  | ensurePath => "EnsurePath".toList
  | addTempRoot => "AddTempRoot".toList
  | addIndirectRoot => "AddIndirectRoot".toList
  | syncWithGC => "SyncWithGC".toList
  | findRoots => "FindRoots".toList
  | queryDeriver => "QueryDeriver".toList
  | setOptions => "SetOptions".toList
  | collectGarbage => "CollectGarbage".toList
  | querySubstitutablePathInfo => "QuerySubstitutablePathInfo".toList
  | queryDerivationOutputs => "QueryDerivationOutputs".toList
  | queryAllValidPaths => "QueryAllValidPaths".toList
  | queryPathInfo => "QueryPathInfo".toList
  | queryDerivationOutputNames => "QueryDerivationOutputNames".toList
  | queryPathFromHashPart => "QueryPathFromHashPart".toList
  | querySubstitutablePathInfos => "QuerySubstitutablePathInfos".toList
  | queryValidPaths => "QueryValidPaths".toList
  | querySubstitutablePaths => "QuerySubstitutablePaths".toList
  | queryValidDerivers => "QueryValidDerivers".toList
  | optimiseStore => "OptimiseStore".toList
  | verifyStore => "VerifyStore".toList
  | buildDerivation => "BuildDerivation".toList
  | addSignatures => "AddSignatures".toList
  | narFromPath => "NarFromPath".toList
  | addToStoreNar => "AddToStoreNar".toList
  | queryMissing => "QueryMissing".toList
  | queryDerivationOutputMap => "QueryDerivationOutputMap".toList
  | registerDrvOutput => "RegisterDrvOutput".toList
  | queryRealisation => "QueryRealisation".toList
  | addMultipleToStore => "AddMultipleToStore".toList
  | addBuildLog => "AddBuildLog".toList
  | buildPathsWithResults => "BuildPathsWithResults".toList
  | addPermRoot => "AddPermRoot".toList

/-- The arms of `fromName`. -/
def names : List (Str × Op) := [
  ("IsValidPath".toList, isValidPath),
  ("QueryReferrers".toList, queryReferrers),
  ("AddToStore".toList, addToStore),
  ("AddTextToStore".toList, addTextToStore),
  ("BuildPaths".toList, buildPaths),
  ("EnsurePath".toList, ensurePath),
  ("AddTempRoot".toList, addTempRoot),
  ("AddIndirectRoot".toList, addIndirectRoot),
  ("SyncWithGC".toList, syncWithGC),
  ("FindRoots".toList, findRoots),
  ("QueryDeriver".toList, queryDeriver),
  ("SetOptions".toList, setOptions),
  ("CollectGarbage".toList, collectGarbage),
  ("QuerySubstitutablePathInfo".toList, querySubstitutablePathInfo),
  ("QueryDerivationOutputs".toList, queryDerivationOutputs),
  ("QueryAllValidPaths".toList, queryAllValidPaths),
  ("QueryPathInfo".toList, queryPathInfo),
  ("QueryDerivationOutputNames".toList, queryDerivationOutputNames),
  ("QueryPathFromHashPart".toList, queryPathFromHashPart),
  ("QuerySubstitutablePathInfos".toList, querySubstitutablePathInfos),
  ("QueryValidPaths".toList, queryValidPaths),
  ("QuerySubstitutablePaths".toList, querySubstitutablePaths),
  ("QueryValidDerivers".toList, queryValidDerivers),
  ("OptimiseStore".toList, optimiseStore),
  ("VerifyStore".toList, verifyStore),
  ("BuildDerivation".toList, buildDerivation),
  ("AddSignatures".toList, addSignatures),
  ("NarFromPath".toList, narFromPath),
  ("AddToStoreNar".toList, addToStoreNar),
  ("QueryMissing".toList, queryMissing),
  ("QueryDerivationOutputMap".toList, queryDerivationOutputMap),
  ("RegisterDrvOutput".toList, registerDrvOutput),
  ("QueryRealisation".toList, queryRealisation),
  ("AddMultipleToStore".toList, addMultipleToStore),
  ("AddBuildLog".toList, addBuildLog),
  ("BuildPathsWithResults".toList, buildPathsWithResults),
  ("AddPermRoot".toList, addPermRoot)]

def fromName (s : Str) : Option Op := (names.find? fun e => e.1 == s).map (·.2)

@[simp] theorem fromU64_code (op : Op) : fromU64 op.code = some op := by
  cases op <;> rfl

theorem code_of_fromU64 {v : UInt64} {op : Op} (h : fromU64 v = some op) : op.code = v := by
  apply UInt64.toNat_inj.mp
  unfold fromU64 at h
  split at h
  all_goals first
    | (cases h; rename_i hv; rw [hv]; rfl)
    | cases h

@[simp] theorem fromName_name (op : Op) : fromName op.name = some op := by
  cases op <;> decide

end Op

end NixWire
