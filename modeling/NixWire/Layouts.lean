/-
  NixWire.Layouts — the layout of every message, and that the parsers read it.

  A `Layout` is a format with the meaning of its values. Over any reader, each parser of
  `Protocol` is the parser of its layout: the arguments of an operation and what skips
  them (`readOpArgs_eq`, `skipOpArgs_eq`), its results (`readDaemonResult_eq`,
  `skipDaemonResult_eq`), the payloads of the stderr messages (`skipStderrPayload_eq`,
  `readErrorInfo_eq`). What the skipping functions read is the layout of the reading ones
  as one skips it (`skips_result`).
-/

import NixWire.WireProofs
import NixWire.Protocol

namespace NixWire

open Base

abbrev setFmt : Fmt := .many stringSize .str

abbrev skipSetFmt : Fmt := .many 0 .bytes

abbrev pairsFmt : Fmt := .many pairSize (.seq .str .str)

abbrev skipPairsFmt : Fmt := .many 0 (.seq .bytes .bytes)

/-- A flag, followed by `f` when it is nonzero. -/
abbrev optFmt (f : Fmt) : Fmt := .alt .unit f

/-! ## Arguments -/

/-- The arguments of `setOptions`: ten words, and what the version adds. -/
abbrev setOptionsFmt (v : ProtocolVersion) : Fmt :=
  .seq .word <| .seq .word <| .seq .word <| .seq .word <| .seq .word <| .seq .word <| .seq .word <| .seq .word <|
    .seq .word <| .seq .word <| .seq (.gate (v ≥ .new 1 10) .word) <| .seq (.gate (v ≥ .new 1 12) .word) <|
    .gate (v ≥ .new 1 12) pairsFmt

def argsLayout (op : Op) (v : ProtocolVersion) : Layout (Option OpCall) :=
  match op with
  | .isValidPath | .queryReferrers | .queryDeriver | .queryDerivationOutputs | .queryDerivationOutputNames
  | .queryDerivationOutputMap | .queryValidDerivers | .queryPathInfo | .ensurePath | .addTempRoot | .narFromPath =>
    ⟨.str, fun path => some (.singlePath op path)⟩
  | .addIndirectRoot | .queryPathFromHashPart => ⟨.str, fun s => some (.singleString op s)⟩
  | .queryValidPaths =>
    ⟨.seq setFmt (.gate (v ≥ .new 1 27) .flag), fun (paths, sub) => some (.pathSetFlag op paths (sub.getD false))⟩
  | .querySubstitutablePaths | .queryMissing => ⟨setFmt, fun paths => some (.pathSet op paths)⟩
  | .setOptions =>
    ⟨setOptionsFmt v, fun (kf, kg, tf, vb, mj, ms, bh, vl, lt, bt, bc, us, ov) =>
      some (.setOptions kf kg tf vb mj ms bh vl lt bt (bc.getD 0) (us.getD 0) (ov.getD []))⟩
  | .syncWithGC | .findRoots | .queryAllValidPaths | .optimiseStore => ⟨.unit, fun _ => some (.noArgs op)⟩
  | .addToStore =>
    ⟨.gate (v ≥ .new 1 25) (.seq (.seq .str (.seq .str (.seq setFmt .flag))) .framed), fun args =>
      args.map fun ((name, camStr, refs, repair), data) => .addToStore name camStr refs repair (.inline data)⟩
  | .addMultipleToStore =>
    ⟨.seq (.seq .flag .flag) .framed, fun ((repair, dontCheckSigs), data) =>
      some (.addMultipleToStore repair dontCheckSigs (.inline data))⟩
  | .addBuildLog => ⟨.seq .str .framed, fun (path, data) => some (.addBuildLog path (.inline data))⟩
  | .buildPaths | .buildPathsWithResults =>
    ⟨.seq setFmt .word, fun (paths, mode) => some (.pathSetMode op paths (modeName mode))⟩
  | .querySubstitutablePathInfo => ⟨.str, fun path => some (.querySubstitutablePathInfo path)⟩
  | .querySubstitutablePathInfos => ⟨setFmt, fun paths => some (.querySubstitutablePathInfos paths)⟩
  | .collectGarbage =>
    ⟨.seq .word (.seq setFmt (.seq .word (.seq .word (.seq .junk (.seq .junk .junk))))),
      fun (action, paths, ignoreLiveness, maxFreed, _) => some (.collectGarbage action paths ignoreLiveness maxFreed)⟩
  | .verifyStore => ⟨.seq .flag .flag, fun (checkContents, repair) => some (.verifyStore checkContents repair)⟩
  | .addPermRoot => ⟨.seq .str .str, fun (path, gcRoot) => some (.addPermRoot path gcRoot)⟩
  | .addSignatures => ⟨.seq .str setFmt, fun (path, sigs) => some (.addSignatures path sigs)⟩
  | .registerDrvOutput => ⟨.str, fun value => some (.registerDrvOutput value)⟩
  | .queryRealisation => ⟨.str, fun value => some (.queryRealisation value)⟩
  | .addTextToStore =>
    ⟨.seq .str (.seq .str setFmt), fun (suffix, text, refs) => some (.addTextToStore suffix text refs)⟩
  | .addToStoreNar | .buildDerivation => ⟨.unit, fun _ => none⟩

/-- A set as one skips it, described by its size. -/
def pathsText (paths : skipSetFmt.Val) : Option Str := some (countText (UInt64.ofNat paths.length) " paths".toList)

def skipArgsLayout (op : Op) (v : ProtocolVersion) : Layout (Option Str) :=
  match op with
  | .isValidPath | .queryReferrers | .queryDeriver | .queryDerivationOutputs | .queryDerivationOutputNames
  | .queryDerivationOutputMap | .queryValidDerivers | .queryPathInfo | .ensurePath | .addTempRoot | .narFromPath
  | .addIndirectRoot | .queryPathFromHashPart | .querySubstitutablePathInfo | .registerDrvOutput | .queryRealisation
  | .addBuildLog => ⟨.str, some⟩
  | .queryValidPaths => ⟨.seq skipSetFmt (.gate (v ≥ .new 1 27) .junk), fun (paths, _) => pathsText paths⟩
  | .querySubstitutablePaths | .queryMissing | .querySubstitutablePathInfos => ⟨skipSetFmt, pathsText⟩
  | .setOptions =>
    ⟨.seq .junk <| .seq .junk <| .seq .junk <| .seq .junk <| .seq .junk <| .seq .junk <| .seq .junk <| .seq .junk <|
      .seq .junk <| .seq .junk <| .seq (.gate (v ≥ .new 1 10) .junk) <| .seq (.gate (v ≥ .new 1 12) .junk) <|
      .gate (v ≥ .new 1 12) skipPairsFmt, fun (_, _, _, _, _, _, _, _, _, _, _, _, ov) =>
        some (ov.elim [] fun ov => countText (UInt64.ofNat ov.length) " overrides".toList)⟩
  | .syncWithGC | .findRoots | .queryAllValidPaths | .optimiseStore => ⟨.unit, fun _ => some []⟩
  | .addToStore =>
    if v ≥ .new 1 25 then ⟨.seq .str (.seq .bytes (.seq skipSetFmt .junk)), fun (name, _) => some name⟩
    else ⟨.seq .str (.seq .junk (.seq .junk .bytes)), fun (name, _) => some name⟩
  | .addMultipleToStore | .verifyStore => ⟨.seq .junk .junk, fun _ => some []⟩
  | .buildPaths | .buildPathsWithResults => ⟨.seq skipSetFmt .junk, fun (paths, _) => pathsText paths⟩
  | .collectGarbage =>
    ⟨.seq .junk (.seq skipSetFmt (.seq .junk (.seq .junk (.seq .junk (.seq .junk .junk))))), fun _ => some []⟩
  | .addPermRoot => ⟨.seq .bytes .bytes, fun _ => some []⟩
  | .addSignatures => ⟨.seq .str skipSetFmt, fun (path, _) => some path⟩
  | .addTextToStore => ⟨.seq .bytes (.seq .bytes skipSetFmt), fun _ => some []⟩
  | .addToStoreNar | .buildDerivation => ⟨.unit, fun _ => none⟩

/-! ## Stderr messages -/

/-- A field: a type word, then a number when it is zero and a string otherwise. -/
abbrev fieldFmt : Fmt := .alt .junk .bytes

abbrev fieldsFmt : Fmt := .many 0 fieldFmt

/-- The payload of a non-terminal message. -/
def payloadFmt : StderrCode → Fmt
  | .next | .write => .bytes
  | .read | .stopActivity => .junk
  | .startActivity => .seq .junk (.seq .junk (.seq .junk (.seq .bytes (.seq fieldsFmt .junk))))
  | .result => .seq .junk (.seq .junk fieldsFmt)
  | .last | .error => .unit

/-- The payload of STDERR_ERROR: type, level, name, message, and perhaps a position. -/
def errorLayout : Layout ErrorInfo :=
  ⟨.seq .str (.seq .word (.seq .str (.seq .str (optFmt (.seq .bytes (.seq .junk .junk)))))),
    fun (errorType, level, name, message, _) => { errorType, level, name, message }⟩

/-! ## Results -/

abbrev pathInfoFmt (v : ProtocolVersion) : Fmt :=
  .seq .str (.seq .str (.seq setFmt (.seq .word (.seq .word
    (.gate (v ≥ .new 1 16) (.seq .flag (.seq setFmt .str)))))))

abbrev skipPathInfoFmt (v : ProtocolVersion) : Fmt :=
  .seq .bytes (.seq .bytes (.seq skipSetFmt (.seq .junk (.seq .junk
    (.gate (v ≥ .new 1 16) (.seq .junk (.seq skipSetFmt .bytes)))))))

def pathInfoOf {v : ProtocolVersion} : (pathInfoFmt v).Val → ResultData :=
  fun (deriver, narHash, references, registrationTime, narSize, more) =>
    .pathInfo (validPathInfo
      { deriver, narHash, references, registrationTime, narSize, ultimate := more.map (·.1), sigs := more.map (·.2.1),
        ca := more.map (·.2.2) })

abbrev buildResultFmt (v : ProtocolVersion) : Fmt :=
  .seq .junk (.seq .bytes (.seq (.gate (v ≥ .new 1 29) (.seq .junk (.seq .junk (.seq .junk .junk))))
    (.seq (.gate (v ≥ .new 1 37) (.seq (optFmt .junk) (optFmt .junk))) (.gate (v ≥ .new 1 28) skipPairsFmt))))

def resultLayout (op : Op) (v : ProtocolVersion) : Layout ResultData :=
  match op with
  | .setOptions | .registerDrvOutput | .addMultipleToStore | .addToStoreNar => ⟨.unit, fun _ => .none⟩
  | .isValidPath | .verifyStore | .addTempRoot | .addIndirectRoot | .ensurePath | .syncWithGC | .optimiseStore
  | .addSignatures | .addBuildLog | .buildPaths => ⟨.word, .u64⟩
  | .addPermRoot | .addTextToStore | .queryDeriver | .queryPathFromHashPart => ⟨.str, .str⟩
  | .addToStore =>
    if v ≥ .new 1 25 then ⟨.seq .str (pathInfoFmt v), fun (_, info) => pathInfoOf info⟩ else ⟨.str, .str⟩
  | .narFromPath => if v ≥ .new 1 23 then ⟨.framed, .framed⟩ else ⟨.unit, fun _ => .none⟩
  | .queryReferrers | .queryAllValidPaths | .queryValidDerivers | .querySubstitutablePaths | .queryValidPaths
  | .queryDerivationOutputs | .queryDerivationOutputNames | .queryRealisation => ⟨setFmt, .stringSet⟩
  | .queryDerivationOutputMap | .findRoots => ⟨pairsFmt, .stringMap⟩
  | .queryPathInfo => ⟨optFmt (pathInfoFmt v), fun
    | .inl _ => .pathInfo invalidPathInfo
    | .inr info => pathInfoOf info⟩
  | .collectGarbage => ⟨.seq .word (.seq .junk .junk), fun (bytesFreed, _) => .collectGarbage bytesFreed⟩
  | .querySubstitutablePathInfo => ⟨optFmt (.seq .str (.seq setFmt (.seq .word .word))), fun
    | .inl _ => .substitutablePathInfo false none none none none
    | .inr (deriver, refs, downloadSize, narSize) =>
      .substitutablePathInfo true (some deriver) (some refs) (some downloadSize) (some narSize)⟩
  | .querySubstitutablePathInfos =>
    ⟨.many pairSize (.seq .str (.seq .str (.seq skipSetFmt (.seq .junk .junk)))), fun pairs =>
      .stringMap (pairs.map fun (path, deriver, _) => (path, deriver))⟩
  | .queryMissing =>
    ⟨.seq setFmt (.seq setFmt (.seq setFmt (.seq .word .word))),
      fun (willBuild, willSubstitute, unknown, downloadSize, narSize) =>
        .missing willBuild willSubstitute unknown downloadSize narSize⟩
  | .buildDerivation => ⟨buildResultFmt v, fun _ => .none⟩
  | .buildPathsWithResults => ⟨.many 0 (.seq .bytes (buildResultFmt v)), fun _ => .none⟩

def skipResultFmt (op : Op) (v : ProtocolVersion) : Fmt :=
  match op with
  | .setOptions | .registerDrvOutput | .addMultipleToStore | .addToStoreNar => .unit
  | .isValidPath | .verifyStore | .addTempRoot | .addIndirectRoot | .ensurePath | .syncWithGC | .optimiseStore
  | .addSignatures | .addBuildLog | .buildPaths => .junk
  | .addPermRoot | .addTextToStore | .queryDeriver | .queryPathFromHashPart => .bytes
  | .addToStore => if v ≥ .new 1 25 then .seq .bytes (skipPathInfoFmt v) else .bytes
  | .narFromPath => if v ≥ .new 1 23 then .blob else .unit
  | .queryReferrers | .queryAllValidPaths | .queryValidDerivers | .querySubstitutablePaths | .queryValidPaths
  | .queryDerivationOutputs | .queryDerivationOutputNames | .queryRealisation => skipSetFmt
  | .queryDerivationOutputMap | .findRoots => skipPairsFmt
  | .queryPathInfo => optFmt (skipPathInfoFmt v)
  | .collectGarbage => .seq .junk (.seq .junk .junk)
  | .querySubstitutablePathInfo => optFmt (.seq .bytes (.seq skipSetFmt (.seq .junk .junk)))
  | .querySubstitutablePathInfos => .many 0 (.seq .bytes (.seq .bytes (.seq skipSetFmt (.seq .junk .junk))))
  | .queryMissing => .seq skipSetFmt (.seq skipSetFmt (.seq skipSetFmt (.seq .junk .junk)))
  | .buildDerivation => buildResultFmt v
  | .buildPathsWithResults => .many 0 (.seq .bytes (buildResultFmt v))

/-! ## The parsers read the layouts -/

section

variable {R : Type} [BufRead R]

theorem readU64_eq : (readU64 : Rd WireError R _) = Fmt.parse wirePrims .word := rfl

theorem readString_eq : (readString : Rd WireError R _) = Fmt.parse wirePrims .str := rfl

theorem skipString_eq : (skipString : Rd WireError R _) = (fun _ => ()) <$> Fmt.parse wirePrims .bytes := by
  rw [map_eq_pure_bind]
  rfl

theorem readFramed_eq : (readFramed : Rd WireError R _) = Fmt.parse wirePrims .framed := rfl

theorem skipFramed_eq_blob : (skipFramed : Rd WireError R _) = Fmt.parse wirePrims .blob := rfl

theorem readStringSet_eq : (readStringSet : Rd WireError R _) = Fmt.parse wirePrims setFmt := rfl

theorem readPairs_eq : (readPairs : Rd WireError R _) = Fmt.parse wirePrims pairsFmt := rfl

/-- A counted list read for its length only. -/
theorem skip_many {α : Type} (f : Fmt) (x : Rd WireError R α) (g : f.Val → α) (hx : x = g <$> f.parse wirePrims)
    {β : Type} (k : UInt64 → β) :
    (readU64 >>= fun count => Rd.times count.toNat x >>= fun _ => pure (k count)) =
      (fun l => k (UInt64.ofNat l.length)) <$> Fmt.parse wirePrims (.many 0 f) := by
  subst hx
  simp only [Fmt.parse, map_bind, Rd.times_map, Nat.mul_zero]
  congr 1
  funext n
  have hlen := Rd.times_length (f.parse (wirePrims : Prims WireError R)) n.toNat fun m => k (UInt64.ofNat m)
  rw [UInt64.ofNat_toNat] at hlen
  rw [bind_map_left, show wirePrims.reserve 0 = (pure () : Rd WireError R Unit) from rfl, pure_bind, hlen,
    map_eq_pure_bind]

theorem skipStringSet_eq :
    (skipStringSet : Rd WireError R _) = (fun l => UInt64.ofNat l.length) <$> Fmt.parse wirePrims skipSetFmt :=
  skip_many .bytes skipString (fun _ => ()) skipString_eq id

theorem skipPairs_eq : (skipPairs : Rd WireError R _) = (fun _ => ()) <$> Fmt.parse wirePrims skipPairsFmt := by
  refine skip_many (.seq .bytes .bytes) skipPair (fun _ => ()) ?_ fun _ => ()
  simp [skipPair, skipString_eq, Fmt.parse]

theorem readOpArgs_eq (op : Op) (v : ProtocolVersion) :
    (readOpArgs op v : Rd WireError R _) = (argsLayout op v).parse wirePrims := by
  cases op <;>
    simp only [readOpArgs, argsLayout, Layout.parse, parse_unit, parse_word, parse_flag, parse_junk, parse_gate, parse_seq,
      readU64_eq, readString_eq, readFramed_eq, readStringSet_eq, readPairs_eq, map_eq_pure_bind, bind_assoc, pure_bind]
  case queryValidPaths => by_cases h : v ≥ .new 1 27 <;> simp [h]
  case setOptions => by_cases h : v ≥ .new 1 10 <;> by_cases h' : v ≥ .new 1 12 <;> simp [h, h']
  case addToStore => by_cases h : v ≥ .new 1 25 <;> simp [h]

theorem skipOpArgs_eq (op : Op) (v : ProtocolVersion) :
    (skipOpArgs op v : Rd WireError R _) = (skipArgsLayout op v).parse wirePrims := by
  have hoverrides : (readU64 >>= fun count => Rd.times count.toNat (skipString >>= fun _ => skipString) >>= fun _ =>
      (pure (some (countText count " overrides".toList)) : Rd WireError R _)) =
      (fun l => some (countText (UInt64.ofNat l.length) " overrides".toList)) <$> Fmt.parse wirePrims skipPairsFmt := by
    refine skip_many (.seq .bytes .bytes) (skipString >>= fun _ => skipString) (fun _ => ()) ?_ _
    simp [skipString_eq, parse_seq]
  cases op
  case addToStore =>
    simp only [skipOpArgs, skipArgsLayout, Layout.parse_ite]
    by_cases h : v ≥ .new 1 25 <;>
      simp only [Layout.parse, h, if_true, if_false, parse_junk, parse_seq, parse_word, readU64_eq, readString_eq,
        skipString_eq, skipStringSet_eq, map_eq_pure_bind, bind_assoc, pure_bind]
  case setOptions =>
    by_cases h : v ≥ .new 1 10 <;> by_cases h' : v ≥ .new 1 12 <;>
      simp only [skipOpArgs, h, h', if_true, if_false, hoverrides] <;>
      simp [skipArgsLayout, Layout.parse, Rd.times, h, h', parse_junk, parse_seq, parse_gate, parse_word, readU64_eq]
  case queryValidPaths =>
    by_cases h : v ≥ .new 1 27 <;>
      simp [skipOpArgs, skipArgsLayout, Layout.parse, h, pathsText, parse_junk, parse_gate, parse_seq, parse_word,
        readU64_eq, skipStringSet_eq]
  all_goals
    simp only [skipOpArgs, skipArgsLayout, Layout.parse, pathsText, parse_unit, parse_junk, parse_seq, parse_word,
      readU64_eq, readString_eq, skipString_eq, skipStringSet_eq, map_eq_pure_bind, bind_assoc, pure_bind]

theorem skipField_eq : (skipField : Rd WireError R _) = (fun _ => ()) <$> fieldFmt.parse wirePrims := by
  simp only [skipField, map_eq_pure_bind, parse_alt, Rd.ite_bind, parse_junk, parse_word, readU64_eq, skipString_eq, bind_assoc,
    pure_bind]

theorem skipFields_eq : (skipFields : Rd WireError R _) = (fun _ => ()) <$> fieldsFmt.parse wirePrims :=
  skip_many fieldFmt skipField (fun _ => ()) skipField_eq fun _ => ()

theorem skipStderrPayload_eq (code : StderrCode) :
    (skipStderrPayload code : Rd WireError R _) = (fun _ => ()) <$> (payloadFmt code).parse wirePrims := by
  cases code <;>
    simp only [skipStderrPayload, payloadFmt, parse_unit, parse_junk, parse_seq, parse_word, readU64_eq, skipString_eq,
      skipFields_eq, map_eq_pure_bind, bind_assoc, pure_bind]

theorem readErrorInfo_eq : (readErrorInfo : Rd WireError R _) = errorLayout.parse wirePrims := by
  simp only [readErrorInfo, errorLayout, Layout.parse, parse_unit, parse_junk, parse_seq, parse_word, parse_alt, Rd.ite_bind,
    readU64_eq, readString_eq, skipString_eq, map_eq_pure_bind, bind_assoc, pure_bind, bne_iff_ne, ne_eq, ite_not,
    beq_iff_eq]

/-! ### Results -/

theorem skipUnkeyedValidPathInfo_eq (v : ProtocolVersion) :
    (skipUnkeyedValidPathInfo v : Rd WireError R _) = (fun _ => ()) <$> (skipPathInfoFmt v).parse wirePrims := by
  by_cases h : v ≥ .new 1 16 <;>
    simp [skipUnkeyedValidPathInfo, h, parse_junk, parse_seq, parse_word, parse_gate, readU64_eq, skipString_eq,
      skipStringSet_eq]

theorem skipOptionalDuration_eq :
    (skipOptionalDuration : Rd WireError R _) = (fun _ => ()) <$> (optFmt .junk).parse wirePrims := by
  simp only [skipOptionalDuration, parse_unit, parse_junk, parse_word, parse_alt, Rd.ite_bind, readU64_eq, map_eq_pure_bind,
    bind_assoc, pure_bind, bne_iff_ne, ne_eq, ite_not, beq_iff_eq]

theorem skipBuildResult_eq (v : ProtocolVersion) :
    (skipBuildResult v : Rd WireError R _) = (fun _ => ()) <$> (buildResultFmt v).parse wirePrims := by
  by_cases h29 : v ≥ .new 1 29 <;> by_cases h37 : v ≥ .new 1 37 <;> by_cases h28 : v ≥ .new 1 28 <;>
    simp [skipBuildResult, h29, h37, h28, parse_junk, parse_seq, parse_word, parse_gate, readU64_eq, skipString_eq,
      skipOptionalDuration_eq, skipPairs_eq]

theorem skipKeyedBuildResults_eq (v : ProtocolVersion) : (skipKeyedBuildResults v : Rd WireError R _) =
    (fun _ => ()) <$> Fmt.parse wirePrims (.many 0 (.seq .bytes (buildResultFmt v))) := by
  refine skip_many (.seq .bytes (buildResultFmt v)) (skipKeyedBuildResult v) (fun _ => ()) ?_ fun _ => ()
  simp [skipKeyedBuildResult, skipString_eq, skipBuildResult_eq, parse_seq]

theorem readUnkeyedValidPathInfo_eq (v : ProtocolVersion) :
    (readUnkeyedValidPathInfo v >>= fun info => (pure (.pathInfo (validPathInfo info)) : Rd WireError R _)) =
      pathInfoOf <$> (pathInfoFmt v).parse wirePrims := by
  by_cases h : v ≥ .new 1 16 <;>
    simp [readUnkeyedValidPathInfo, pathInfoOf, h, parse_flag, parse_seq, parse_word, parse_gate, readU64_eq, readString_eq,
      readStringSet_eq]

theorem readSubstitutableElem_eq : (readSubstitutableElem : Rd WireError R _) =
    (fun (path, deriver, _) => (path, deriver)) <$>
      Fmt.parse wirePrims (.seq .str (.seq .str (.seq skipSetFmt (.seq .junk .junk)))) := by
  simp [readSubstitutableElem, parse_junk, parse_seq, parse_word, readU64_eq, readString_eq, skipStringSet_eq]

theorem readDaemonResult_eq (op : Op) (v : ProtocolVersion) :
    (readDaemonResult op v : Rd WireError R _) = (resultLayout op v).parse wirePrims := by
  cases op
  case addToStore =>
    simp only [readDaemonResult, resultLayout, Layout.parse_ite]
    by_cases h : v ≥ .new 1 25 <;>
      simp only [Layout.parse, h, if_true, if_false, readUnkeyedValidPathInfo_eq, parse_seq, readString_eq, map_eq_pure_bind,
        bind_assoc, pure_bind]
  case narFromPath =>
    simp only [readDaemonResult, resultLayout, Layout.parse_ite]
    by_cases h : v ≥ .new 1 23 <;>
      simp only [Layout.parse, h, if_true, if_false, parse_unit, readFramed_eq, map_eq_pure_bind, pure_bind]
  case queryPathInfo =>
    simp only [readDaemonResult, resultLayout, Layout.parse, readUnkeyedValidPathInfo_eq, parse_unit, parse_word, parse_alt,
      Rd.ite_bind, readU64_eq, map_eq_pure_bind, bind_assoc, pure_bind, bne_iff_ne, ne_eq, ite_not, beq_iff_eq]
  case querySubstitutablePathInfo =>
    simp only [readDaemonResult, resultLayout, Layout.parse, parse_unit, parse_word, parse_seq, parse_alt, Rd.ite_bind,
      readU64_eq, readString_eq, readStringSet_eq, map_eq_pure_bind, bind_assoc, pure_bind, bne_iff_ne, ne_eq, ite_not,
      beq_iff_eq]
  case querySubstitutablePathInfos =>
    simp only [readDaemonResult, resultLayout, Layout.parse, parse_many, readSubstitutableElem_eq, Rd.times_map]
    simp only [readU64_eq, parse_word, map_eq_pure_bind, bind_assoc, pure_bind]
    rfl
  all_goals
    simp only [readDaemonResult, resultLayout, Layout.parse, parse_unit, parse_junk, parse_seq, parse_word, readU64_eq,
      readString_eq, readStringSet_eq, readPairs_eq, skipBuildResult_eq, skipKeyedBuildResults_eq, map_eq_pure_bind,
      bind_assoc, pure_bind]

theorem skipDaemonResult_eq (op : Op) (v : ProtocolVersion) :
    (skipDaemonResult op v : Rd WireError R _) = (fun _ => ()) <$> (skipResultFmt op v).parse wirePrims := by
  cases op
  case addToStore =>
    simp only [skipDaemonResult, skipResultFmt, skip_ite]
    by_cases h : v ≥ .new 1 25 <;>
      simp only [h, if_true, if_false, skipUnkeyedValidPathInfo_eq, parse_seq, skipString_eq, map_eq_pure_bind, bind_assoc,
        pure_bind]
  case narFromPath =>
    simp only [skipDaemonResult, skipResultFmt, skip_ite]
    by_cases h : v ≥ .new 1 23 <;>
      simp only [h, if_true, if_false, parse_unit, skipFramed_eq_blob, map_eq_pure_bind, pure_bind]
  case queryPathInfo =>
    simp only [skipDaemonResult, skipResultFmt, skipUnkeyedValidPathInfo_eq, parse_unit, parse_word, parse_alt,
      Rd.ite_bind, readU64_eq, map_eq_pure_bind, bind_assoc, pure_bind, bne_iff_ne, ne_eq, ite_not, beq_iff_eq]
  case querySubstitutablePathInfo =>
    simp only [skipDaemonResult, skipResultFmt, parse_unit, parse_junk, parse_word, parse_seq, parse_alt, Rd.ite_bind,
      readU64_eq, skipString_eq, skipStringSet_eq, map_eq_pure_bind, bind_assoc, pure_bind, bne_iff_ne, ne_eq, ite_not,
      beq_iff_eq]
  case querySubstitutablePathInfos =>
    refine skip_many (.seq .bytes (.seq .bytes (.seq skipSetFmt (.seq .junk .junk)))) _ (fun _ => ()) ?_ fun _ => ()
    simp [parse_junk, parse_seq, parse_word, readU64_eq, skipString_eq, skipStringSet_eq]
  all_goals
    simp only [skipDaemonResult, skipResultFmt, parse_unit, parse_junk, parse_seq, parse_word, readU64_eq, skipString_eq,
      skipStringSet_eq, skipPairs_eq, skipBuildResult_eq, skipKeyedBuildResults_eq, map_eq_pure_bind, bind_assoc, pure_bind]

end

/-! ## Skipping -/

theorem skips_set : setFmt.Skips skipSetFmt := .many (by decide) .str

theorem skips_pathInfo (v : ProtocolVersion) : (pathInfoFmt v).Skips (skipPathInfoFmt v) :=
  .seq .str (.seq .str (.seq skips_set (.seq .word (.seq .word (.gate _ (.seq .flag (.seq skips_set .str)))))))

/-- What `skipDaemonResult` reads is the result as one skips it. -/
theorem skips_result (op : Op) (v : ProtocolVersion) : (resultLayout op v).fmt.Skips (skipResultFmt op v) := by
  cases op
  case addToStore =>
    simp only [resultLayout, skipResultFmt]
    split
    · exact .seq .str (skips_pathInfo v)
    · exact .str
  case narFromPath =>
    simp only [resultLayout, skipResultFmt]
    split
    · exact .framed
    · exact .refl _
  case queryPathInfo => exact .alt (.refl _) (skips_pathInfo v)
  case querySubstitutablePathInfo => exact .alt (.refl _) (.seq .str (.seq skips_set (.seq .word .word)))
  case querySubstitutablePathInfos =>
    exact .many (by decide) (.seq .str (.seq .str (.refl _)))
  case queryMissing => exact .seq skips_set (.seq skips_set (.seq skips_set (.seq .word .word)))
  case queryDerivationOutputMap => exact .many (by decide) (.seq .str .str)
  case findRoots => exact .many (by decide) (.seq .str .str)
  case collectGarbage => exact .seq .word (.refl _)
  all_goals first
    | exact .refl _
    | exact .word
    | exact .str
    | exact skips_set

end NixWire
