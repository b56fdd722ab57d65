/-
  NixWire.Parse — `.nwscript` text as a script (script/parse.rs).

  The parsers run over the lines that are left. An operation's block is read by
  `parseBlock`: it ends at the first line that is not indented, blank, a comment or an
  expect.
-/

import NixWire.Base.Lines
import NixWire.Base.Text
import NixWire.Script

namespace NixWire

open Base

inductive ParseError where
  | unexpectedPreambleLine (line : Str)
  | badTimestamp
  | malformedTimestamp (line : Str)
  | unknownOp (opName : Str)
  | unclosedPathSet
  | unsupportedData (value : Str)
  | notAnExpect
  | unrecognizedExpect (line : Str)
  | badNumber (comparison : Str)
  deriving DecidableEq, Repr

def ParseError.message : ParseError → Str
  | unexpectedPreambleLine line => "unexpected line in preamble (missing `---` delimiter?): ".toList ++ line
  | badTimestamp => "bad timestamp".toList
  | malformedTimestamp line => "malformed timestamp: ".toList ++ line
  | unknownOp opName => "unknown op: ".toList ++ opName
  | unclosedPathSet => "unclosed path set brace".toList
  | unsupportedData value =>
    "unsupported data format: ".toList ++ value ++ " (expected x\"...\" or @file:...)".toList
  | notAnExpect => "not an expect line".toList
  | unrecognizedExpect line => "unrecognized expect: ".toList ++ line
  | badNumber comparison => "bad number in ".toList ++ comparison

/-- Parsers over the lines that are left. -/
abbrev ParseM (α : Type) : Type := Rd ParseError (List Str) α

/-! ## Values -/

def parseVersionStr (verStr : Str) : Option ProtocolVersion :=
  match verStr.splitOn '.' with
  | [major, minor] => do
    let major ← parseU16 major
    let minor ← parseU8 minor
    return .new major minor
  | _ => none

/-- `s[1..s.len() - 1]`. -/
def inner (s : Str) : Str := (s.drop 1).dropLast

def parseFeatureSet (s : Str) : List Str :=
  let s := trim s
  if s.head? = some '{' ∧ s.getLast? = some '}' then
    let inner := trim (inner s)
    if inner.isEmpty then [] else ((inner.splitOn ',').map trim).filter fun f => !f.isEmpty
  else if s.isEmpty then []
  else splitWhitespace s

/-- The set, and what follows it on the line. -/
def parseInlinePathSet (s : Str) : Except ParseError (List Str × Str) :=
  let s := trim s
  if s.head? = some '{' then
    match splitOnce ['}'] s with
    | some (set, rest) =>
      let inner := trim (set.drop 1)
      .ok (if inner.isEmpty then [] else (inner.splitOn ',').map trim, rest)
    | none => .error .unclosedPathSet
  else if s.isEmpty then .ok ([], [])
  else .ok ([s], [])

def hexDigit (c : Char) : Option Nat :=
  if c.isDigit then some (c.toNat - '0'.toNat)
  else if 'a' ≤ c ∧ c ≤ 'f' then some (c.toNat - 'a'.toNat + 10)
  else if 'A' ≤ c ∧ c ≤ 'F' then some (c.toNat - 'A'.toNat + 10)
  else none

/-- Two characters as a byte (`u8::from_str_radix`): a plus may stand for the first digit. -/
def hexByte (a b : Char) : Option UInt8 :=
  if a = '+' then (hexDigit b).map UInt8.ofNat
  else do
    let hi ← hexDigit a
    let lo ← hexDigit b
    return UInt8.ofNat (16 * hi + lo)

/-- Two characters at a time; a pair that is no byte is left out, and so is a last character. -/
def hexPairs : Str → List UInt8
  | a :: b :: s => (hexByte a b).toList ++ hexPairs s
  | _ => []

def hexDecode (hex : Str) : List UInt8 := hexPairs (hex.filter (· ≠ ' '))

def unquote (s : Str) : Str :=
  let s := trim s
  if s.head? = some '"' ∧ s.getLast? = some '"' ∧ s.length ≥ 2 then
    replacePair '\\' '\\' ['\\'] <| replacePair '\\' '"' ['"'] <| replacePair '\\' 't' ['\t'] <|
      replacePair '\\' 'r' ['\r'] <| replacePair '\\' 'n' ['\n'] (inner s)
  else s

def parseDataValue (value : Str) : Except ParseError FramedData :=
  match stripPrefix "x\"".toList value with
  | some rest => .ok (.inline (hexDecode (trimEndMatches '"' rest)))
  | none => match stripPrefix "@file:".toList value with
    | some path => .ok (.fileRef path)
    | none => .error (.unsupportedData value)

/-- `"name" = "value"`. -/
def parseKvPair (s : Str) : Option (Str × Str) := do
  let rest ← stripPrefix ['"'] (trim s)
  let (name, rest) ← splitOnce ['"'] rest
  let rest ← stripPrefix ['='] (trim rest)
  let rest ← stripPrefix ['"'] (trim rest)
  let (value, _) ← splitOnce ['"'] rest
  return (name, value)

/-! ## Expects -/

def parseBound (comparison : String) (rest : Str) : Except ParseError Int :=
  match parseI64 (trim rest) with
  | some n => .ok n
  | none => .error (.badNumber comparison.toList)

def parseMatcher (s : Str) : Except ParseError Matcher :=
  if s.head? = some '/' ∧ s.getLast? = some '/' ∧ s.length > 1 then .ok (.regex (inner s))
  else match stripPrefix ">=".toList s with
  | some rest => .greaterOrEqual <$> parseBound ">=" rest
  | none => match stripPrefix "<=".toList s with
  | some rest => .lessOrEqual <$> parseBound "<=" rest
  | none => match stripPrefix ">".toList s with
  | some rest => .greaterThan <$> parseBound ">" rest
  | none => match stripPrefix "<".toList s with
  | some rest => .lessThan <$> parseBound "<" rest
  | none => .ok (.exact s)

/-- What may follow `expect result`. -/
def parseResultExpect (rest : Str) : Option (Option Str × Str) :=
  match stripPrefix [':'] rest with
  | some value => some (none, value)
  | none => do
    let rest ← stripPrefix ['.'] rest
    let (field, value) ← splitOnce [':'] rest
    return (some (trim field), value)

/-- The handshake expects. -/
def parseHandshakeExpect (line rest : Str) : Except ParseError Expect :=
  match stripPrefix "daemon:".toList rest with
  | some rest => .daemon <$> parseMatcher (trim rest)
  | none => match stripPrefix "trust:".toList rest with
  | some rest => .trust <$> parseMatcher (trim rest)
  | none => match stripPrefix "server_features:".toList rest with
  | some rest => .serverFeatures <$> parseMatcher (trim rest)
  | none => .error (.unrecognizedExpect line)

def parseExpect (line : Str) : Except ParseError Expect :=
  match (stripPrefix "expect".toList line).map trim with
  | none => .error .notAnExpect
  | some rest => match stripPrefix [':'] rest with
  | some value => .ok (.terminal (trim value))
  | none => match stripPrefix "stderr.count:".toList rest with
  | some rest => .stderrCount <$> parseMatcher (trim rest)
  | none => match stripPrefix "error:".toList rest with
  | some rest => .error <$> parseMatcher (trim rest)
  | none => match (stripPrefix "result".toList rest).bind fun rest => parseResultExpect (trim rest) with
  | some (field, value) => .result field <$> parseMatcher (trim value)
  | none => parseHandshakeExpect line rest

/-! ## Blocks -/

def indented (line : Str) : Bool := startsWith "  ".toList line || startsWith ['\t'] line

/-- A line of an operation's block, trimmed; `none` where the block ends. -/
def blockLine (line : Str) : Option Str :=
  if indented line then
    let trimmed := trim line
    if trimmed.isEmpty || startsWith ['#'] trimmed || startsWith "expect".toList trimmed then none else some trimmed
  else none

section

variable {σ α : Type}

/-- The loop of the block parsers; they differ in what they do with a line of the block. -/
def parseBlock (onLine : σ → Str → Except ParseError (LineStep σ α)) (finish : σ → α) : σ → ParseM α :=
  readLines (fun s line => match blockLine line with
    | some trimmed => onLine s trimmed
    | none => .ok (.leave (finish s))) finish

/-- A line `key: value`; other lines are passed over. -/
def keyedLine (onField : σ → Str → Str → Except ParseError σ) (s : σ) (trimmed : Str) :
    Except ParseError (LineStep σ α) :=
  match splitOnce [':'] trimmed with
  | some (key, value) => .next <$> onField s (trim key) (trim value)
  | none => .ok (.next s)

/-- A block of `key: value` lines. -/
def parseFields (onField : σ → Str → Str → Except ParseError σ) (finish : σ → α) : σ → ParseM α :=
  parseBlock (keyedLine onField) finish

end

structure OptionLines where
  /-- The last value set is first. -/
  opts : List (Str × Str) := []
  overrides : List (Str × Str) := []
  inOverrides : Bool := false

def OptionLines.getU64 (s : OptionLines) (key : String) : UInt64 := ((s.opts.lookup key.toList).bind parseU64).getD 0

def OptionLines.finish (s : OptionLines) : OpCall :=
  .setOptions (s.getU64 "keep_failed") (s.getU64 "keep_going") (s.getU64 "try_fallback") (s.getU64 "verbosity")
    (s.getU64 "max_build_jobs") (s.getU64 "max_silent_time") (s.getU64 "use_build_hook") (s.getU64 "verbose_build")
    (s.getU64 "log_type") (s.getU64 "print_build_trace") (s.getU64 "build_cores") (s.getU64 "use_substitutes")
    s.overrides

def setOptionsLine (s : OptionLines) (trimmed : Str) : Except ParseError (LineStep OptionLines OpCall) :=
  if s.inOverrides && startsWith ['"'] trimmed then
    .ok (.next { s with overrides := s.overrides ++ (parseKvPair trimmed).toList })
  else
    keyedLine (fun s key value =>
      if key = "overrides".toList then .ok { s with inOverrides := true }
      else .ok { s with opts := (key, value) :: s.opts }) { s with inOverrides := false } trimmed

def parseSetOptions : ParseM OpCall := parseBlock setOptionsLine OptionLines.finish {}

structure GarbageFields where
  action : UInt64 := 0
  paths : List Str := []
  ignoreLiveness : UInt64 := 0
  maxFreed : UInt64 := 0

def GarbageFields.set (s : GarbageFields) (key value : Str) : Except ParseError GarbageFields :=
  if key = "action".toList then .ok { s with action := (parseU64 value).getD 0 }
  else if key = "paths".toList then do
    let (paths, _) ← parseInlinePathSet value
    return { s with paths := paths }
  else if key = "ignore_liveness".toList then .ok { s with ignoreLiveness := (parseU64 value).getD 0 }
  else if key = "max_freed".toList then .ok { s with maxFreed := (parseU64 value).getD 0 }
  else .ok s

def parseCollectGarbage : ParseM OpCall :=
  parseFields GarbageFields.set (fun s => .collectGarbage s.action s.paths s.ignoreLiveness s.maxFreed) {}

structure VerifyFields where
  checkContents : Bool := false
  repair : Bool := false

def VerifyFields.set (s : VerifyFields) (key value : Str) : Except ParseError VerifyFields :=
  if key = "check_contents".toList then .ok { s with checkContents := value ≠ ['0'] }
  else if key = "repair".toList then .ok { s with repair := value ≠ ['0'] }
  else .ok s

def parseVerifyStore : ParseM OpCall :=
  parseFields VerifyFields.set (fun s => .verifyStore s.checkContents s.repair) {}

structure TextFields where
  suffix : Str := []
  text : Str := []
  refs : List Str := []

def TextFields.set (s : TextFields) (key value : Str) : Except ParseError TextFields :=
  if key = "suffix".toList then .ok { s with suffix := unquote value }
  else if key = "text".toList then .ok { s with text := unquote value }
  else if key = "refs".toList then do
    let (refs, _) ← parseInlinePathSet value
    return { s with refs := refs }
  else .ok s

def parseAddTextToStore : ParseM OpCall :=
  parseFields TextFields.set (fun s => .addTextToStore s.suffix s.text s.refs) {}

structure StoreFields where
  name : Str := []
  camStr : Str := []
  refs : List Str := []
  repair : Bool := false
  data : FramedData := .inline []

def StoreFields.set (s : StoreFields) (key value : Str) : Except ParseError StoreFields :=
  if key = "name".toList then .ok { s with name := unquote value }
  else if key = "cam_str".toList then .ok { s with camStr := unquote value }
  else if key = "refs".toList then do
    let (refs, _) ← parseInlinePathSet value
    return { s with refs := refs }
  else if key = "repair".toList then .ok { s with repair := value ≠ ['0'] }
  else if key = "data".toList then do
    let data ← parseDataValue value
    return { s with data := data }
  else .ok s

def parseAddToStore : ParseM OpCall :=
  parseFields StoreFields.set (fun s => .addToStore s.name s.camStr s.refs s.repair s.data) {}

structure MultipleFields where
  repair : Bool := false
  dontCheckSigs : Bool := false
  data : FramedData := .inline []

def MultipleFields.set (s : MultipleFields) (key value : Str) : Except ParseError MultipleFields :=
  if key = "repair".toList then .ok { s with repair := value ≠ ['0'] }
  else if key = "dont_check_sigs".toList then .ok { s with dontCheckSigs := value ≠ ['0'] }
  else if key = "data".toList then do
    let data ← parseDataValue value
    return { s with data := data }
  else .ok s

def parseAddMultipleToStore : ParseM OpCall :=
  parseFields MultipleFields.set (fun s => .addMultipleToStore s.repair s.dontCheckSigs s.data) {}

/-- The first `data` line of the block; the lines after it are left. -/
def parseInlineFramedData : ParseM FramedData :=
  parseBlock (fun _ trimmed => match splitOnce [':'] trimmed with
    | some (key, value) => if trim key = "data".toList then .done <$> parseDataValue (trim value) else .ok (.next ())
    | none => .ok (.next ())) (fun _ => .inline []) ()

/-- The first `raw` line of the block; the lines after it are left. -/
def parseRawHex : ParseM (List UInt8) :=
  parseBlock (fun _ trimmed => match stripPrefix "raw x\"".toList trimmed with
    | some rest => .ok (.done (hexDecode (trimEndMatches '"' rest)))
    | none => .ok (.next ())) (fun _ => []) ()

/-! ## Entries -/

def lift {α : Type} : Except ParseError α → ParseM α
  | .ok a => pure a
  | .error e => Rd.fail e

/-- What stands before and after the first space; after it nothing when there is none. -/
def splitSpace (s : Str) : Str × Str := (splitOnce [' '] s).getD (s, [])

def parseOpArgs (op : Op) (args : Str) : ParseM OpCall :=
  match op with
  | .setOptions => parseSetOptions
  | .collectGarbage => parseCollectGarbage
  | .verifyStore => parseVerifyStore
  | .addTextToStore => parseAddTextToStore
  | .addToStore => parseAddToStore
  | .addMultipleToStore => parseAddMultipleToStore
  | .syncWithGC | .findRoots | .queryAllValidPaths | .optimiseStore => pure (.noArgs op)
  | .isValidPath | .queryReferrers | .queryDeriver | .queryDerivationOutputs | .queryDerivationOutputNames
  | .queryDerivationOutputMap | .queryValidDerivers | .queryPathInfo | .ensurePath | .addTempRoot | .narFromPath =>
    pure (.singlePath op args)
  | .addIndirectRoot | .queryPathFromHashPart => pure (.singleString op args)
  | .queryValidPaths => do
    let (paths, rest) ← lift (parseInlinePathSet args)
    return .pathSetFlag op paths (trim rest = "substitute".toList)
  | .buildPaths | .buildPathsWithResults => do
    let (paths, rest) ← lift (parseInlinePathSet args)
    return .pathSetMode op paths (if (trim rest).isEmpty then "normal".toList else trim rest)
  | .querySubstitutablePaths | .queryMissing => do
    let (paths, _) ← lift (parseInlinePathSet args)
    return .pathSet op paths
  | .addPermRoot => pure (.addPermRoot (splitSpace args).1 (splitSpace args).2)
  | .addSignatures => do
    let (sigs, _) ← lift (parseInlinePathSet (splitSpace args).2)
    return .addSignatures (splitSpace args).1 sigs
  | .addBuildLog => .addBuildLog args <$> parseInlineFramedData
  | .registerDrvOutput => pure (.registerDrvOutput args)
  | .queryRealisation => pure (.queryRealisation args)
  | .querySubstitutablePathInfo => pure (.querySubstitutablePathInfo args)
  | .querySubstitutablePathInfos => do
    let (paths, _) ← lift (parseInlinePathSet args)
    return .querySubstitutablePathInfos paths
  | .buildDerivation | .addToStoreNar => .rawBytes op <$> parseRawHex

/-- The operation's name and inline arguments. -/
def parseOpLine (line : Str) : ParseM OpCall :=
  match Op.fromName (splitSpace line).1 with
  | some op => parseOpArgs op (trim (splitSpace line).2)
  | none => Rd.fail (.unknownOp (splitSpace line).1)

/-- The indented lines after a call: comments are passed over, expects collected. -/
def expectStep (expects : List Expect) (next : Str) : Except ParseError (LineStep (List Expect) (List Expect)) :=
  if indented next then
    let trimmed := trim next
    if trimmed.isEmpty || startsWith ['#'] trimmed then .ok (.next expects)
    else if startsWith "expect".toList trimmed then (fun e => .next (expects ++ [e])) <$> parseExpect trimmed
    else .ok (.leave expects)
  else .ok (.leave expects)

def parseExpects : ParseM (List Expect) := readLines expectStep id []

section

-- a float, as `str::parse` reads it
variable {τ : Type} (parseMs : Str → Option τ)

def parseTimestamp (line : Str) : Except ParseError (Option τ × Str) :=
  match splitOnce "ms".toList (line.drop 1) with
  | some (num, after) => match parseMs num with
    | some ms => .ok (some ms, trim after)
    | none => .error .badTimestamp
  | none => .error (.malformedTimestamp line)

/-- An entry that starts on `line`. -/
def parseEntry (line : Str) : ParseM (Entry τ) := do
  let line := trim line
  let (timestampMs, rest) ← lift (if startsWith ['@'] line then parseTimestamp parseMs line else .ok (none, line))
  let opCall ← parseOpLine rest
  let expects ← parseExpects
  return { timestampMs := timestampMs, opCall := opCall, response := none, expects := expects }

/-- Blank lines and comments, passed over between entries. -/
def skippedLine (line : Str) : Bool :=
  let line := trim line
  line.isEmpty || (startsWith ['#'] line && !startsWith "# nwscript".toList line)

def entriesPass (entries : List (Entry τ)) : ParseM (List (Entry τ) ⊕ List (Entry τ)) :=
  nextLine (pure (.inr entries)) fun line =>
    if skippedLine line then pure (.inl entries)
    else do
      let entry ← parseEntry parseMs line
      return .inl (entries ++ [entry])

def parseEntries : ParseM (List (Entry τ)) := Rd.iterate List.length (entriesPass parseMs) []

end

/-! ## The preamble and the script -/

def Preamble.default : Preamble where
  protocolVersion := .new 1 38
  clientFeatures := []
  expects := []
  daemonVersion := none
  trust := none
  serverFeatures := none

/-- A comment of the preamble. -/
def preambleComment (p : Preamble) (content : Str) : Preamble :=
  match stripPrefix "daemon:".toList content with
  | some rest => { p with daemonVersion := some (trim rest) }
  | none => match stripPrefix "trust:".toList content with
  | some rest => { p with trust := some (trim rest) }
  | none => match stripPrefix "server_features:".toList content with
  | some rest => { p with serverFeatures := some (parseFeatureSet (trim rest)) }
  | none => p

def preambleStep (p : Preamble) (line : Str) : Except ParseError (LineStep Preamble Preamble) :=
  let line := trim line
  if line.isEmpty then .ok (.next p)
  else if line = "---".toList then .ok (.done p)
  else if startsWith ['#'] line then .ok (.next (preambleComment p (trim (trimStartMatches '#' line))))
  else match stripPrefix "protocol:".toList line with
  | some rest => .ok (.next { p with protocolVersion := (parseVersionStr (trim rest)).getD p.protocolVersion })
  | none => match stripPrefix "features:".toList line with
  | some rest => .ok (.next { p with clientFeatures := parseFeatureSet (trim rest) })
  | none =>
    if startsWith "expect ".toList line || startsWith "expect:".toList line then
      (fun e => .next { p with expects := p.expects ++ [e] }) <$> parseExpect line
    else .error (.unexpectedPreambleLine line)

def parsePreamble : ParseM Preamble := readLines preambleStep id .default

def parseScript {τ : Type} (parseMs : Str → Option τ) (text : Str) : Res ParseError (Script τ) :=
  ((do
    let preamble ← parsePreamble
    let entries ← parseEntries parseMs
    return { preamble := preamble, entries := entries } : ParseM (Script τ)).run (lines text)).1

end NixWire
