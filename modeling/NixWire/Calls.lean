/-
  NixWire.Calls — the lines of a call, read back.

  A call is a line with its operation and inline arguments, then a block, which ends at the
  expects or at the blank line of the next entry. What comes back of a call is `reread`:
  its sets cut at their commas, its quoted fields unescaped, its overrides taken apart
  (`formatOpCall_reads`). Of a clean call that is the call.
-/

import NixWire.Blocks

namespace NixWire

open Base

/-! ## Calls that can be written -/

/-- A call with an operation the parser gives its shape, and clean strings. -/
def OpCall.Clean : OpCall → Prop
  | .singlePath op path => op ∈ singlePathOps ∧ CleanStr path
  | .singleString op value => op ∈ [.addIndirectRoot, .queryPathFromHashPart] ∧ CleanStr value
  | .pathSet op paths => op ∈ [.querySubstitutablePaths, .queryMissing] ∧ ∀ p ∈ paths, CleanStr p
  | .pathSetFlag op paths _ => op = .queryValidPaths ∧ ∀ p ∈ paths, CleanStr p
  | .pathSetMode op paths mode => op ∈ [.buildPaths, .buildPathsWithResults] ∧ (∀ p ∈ paths, CleanStr p) ∧ CleanStr mode
  | .noArgs op => op ∈ [.syncWithGC, .findRoots, .queryAllValidPaths, .optimiseStore]
  | .setOptions _ _ _ _ _ _ _ _ _ _ _ _ overrides => ∀ o ∈ overrides, CleanStr o.1 ∧ CleanStr o.2
  | .collectGarbage _ paths _ _ => ∀ p ∈ paths, CleanStr p
  | .verifyStore _ _ => True
  | .addPermRoot path gcRoot => CleanStr path ∧ CleanStr gcRoot
  | .addSignatures path sigs => CleanStr path ∧ ∀ s ∈ sigs, CleanStr s
  | .addTextToStore suffix text refs => Quotable suffix ∧ '\\' ∉ text ∧ ∀ r ∈ refs, CleanStr r
  | .addToStore name camStr refs _ data => Quotable name ∧ Quotable camStr ∧ (∀ r ∈ refs, CleanStr r) ∧ data.Clean
  | .addMultipleToStore _ _ data => data.Clean
  | .addBuildLog path data => CleanStr path ∧ data.Clean
  | .registerDrvOutput value | .queryRealisation value => CleanStr value
  | .querySubstitutablePathInfo path => CleanStr path
  | .querySubstitutablePathInfos paths => ∀ p ∈ paths, CleanStr p
  | .rawBytes op _ => op ∈ [.buildDerivation, .addToStoreNar]

/-- A call whose strings can be written where they stand. -/
def OpCall.Writable : OpCall → Prop
  | .singlePath op path => op ∈ singlePathOps ∧ CleanStr path
  | .singleString op value => op ∈ [.addIndirectRoot, .queryPathFromHashPart] ∧ CleanStr value
  | .pathSet op paths => op ∈ [.querySubstitutablePaths, .queryMissing] ∧ ∀ p ∈ paths, SetElement p
  | .pathSetFlag op paths _ => op = .queryValidPaths ∧ ∀ p ∈ paths, SetElement p
  | .pathSetMode op paths mode => op ∈ [.buildPaths, .buildPathsWithResults] ∧ (∀ p ∈ paths, SetElement p) ∧ CleanStr mode
  | .noArgs op => op ∈ [.syncWithGC, .findRoots, .queryAllValidPaths, .optimiseStore]
  | .setOptions _ _ _ _ _ _ _ _ _ _ _ _ overrides => ∀ o ∈ overrides, '\n' ∉ o.1 ∧ '\n' ∉ o.2
  | .collectGarbage _ paths _ _ => ∀ p ∈ paths, SetElement p
  | .verifyStore _ _ => True
  | .addPermRoot path gcRoot => CleanStr path ∧ CleanStr gcRoot
  | .addSignatures path sigs => CleanStr path ∧ ∀ s ∈ sigs, SetElement s
  | .addTextToStore suffix _ refs => '\n' ∉ suffix ∧ ∀ r ∈ refs, SetElement r
  | .addToStore name camStr refs _ data => '\n' ∉ name ∧ '\n' ∉ camStr ∧ (∀ r ∈ refs, SetElement r) ∧ data.Clean
  | .addMultipleToStore _ _ data => data.Clean
  | .addBuildLog path data => CleanStr path ∧ data.Clean
  | .registerDrvOutput value | .queryRealisation value => CleanStr value
  | .querySubstitutablePathInfo path => CleanStr path
  | .querySubstitutablePathInfos paths => ∀ p ∈ paths, SetElement p
  | .rawBytes op _ => op ∈ [.buildDerivation, .addToStoreNar]

/-- A call as it is read back. -/
def OpCall.reread : OpCall → OpCall
  | .pathSet op paths => .pathSet op (cutCommas paths)
  | .pathSetFlag op paths substitute => .pathSetFlag op (cutCommas paths) substitute
  | .pathSetMode op paths mode => .pathSetMode op (cutCommas paths) mode
  | .setOptions keepFailed keepGoing tryFallback verbosity maxBuildJobs maxSilentTime useBuildHook verboseBuild
      logType printBuildTrace buildCores useSubstitutes overrides =>
    .setOptions keepFailed keepGoing tryFallback verbosity maxBuildJobs maxSilentTime useBuildHook verboseBuild
      logType printBuildTrace buildCores useSubstitutes (readOverrides overrides)
  | .collectGarbage action paths ignoreLiveness maxFreed => .collectGarbage action (cutCommas paths) ignoreLiveness maxFreed
  | .addSignatures path sigs => .addSignatures path (cutCommas sigs)
  | .addTextToStore suffix text refs => .addTextToStore (unescape suffix) (mangled text) (cutCommas refs)
  | .addToStore name camStr refs repair data =>
    .addToStore (unescape name) (unescape camStr) (cutCommas refs) repair data
  | .querySubstitutablePathInfos paths => .querySubstitutablePathInfos (cutCommas paths)
  | call => call

/-- The framed data of a call. -/
def OpCall.framed : OpCall → Option FramedData
  | .addToStore _ _ _ _ data | .addMultipleToStore _ _ data | .addBuildLog _ data => some data
  | _ => none

theorem OpCall.Clean.writable {call : OpCall} (h : call.Clean) : call.Writable := by
  cases call with
  | pathSet => exact ⟨h.1, cleanElements h.2⟩
  | pathSetFlag => exact ⟨h.1, cleanElements h.2⟩
  | pathSetMode => exact ⟨h.1, cleanElements h.2.1, h.2.2⟩
  | setOptions => exact fun o ho => ⟨(h o ho).1.printable.oneLine, (h o ho).2.printable.oneLine⟩
  | collectGarbage => exact cleanElements h
  | addSignatures => exact ⟨h.1, cleanElements h.2⟩
  | addTextToStore => exact ⟨h.1.1, cleanElements h.2.2⟩
  | addToStore => exact ⟨h.1.1, h.2.1.1, cleanElements h.2.2.1, h.2.2.2⟩
  | querySubstitutablePathInfos => exact cleanElements h
  | _ => exact h

theorem OpCall.Clean.reread {call : OpCall} (h : call.Clean) : call.reread = call := by
  cases call with
  | pathSet => rw [OpCall.reread, cutCommas_clean h.2]
  | pathSetFlag => rw [OpCall.reread, cutCommas_clean h.2]
  | pathSetMode => rw [OpCall.reread, cutCommas_clean h.2.1]
  | setOptions =>
    have hoverrides := readOverrides_self.mpr fun o ho => ⟨(h o ho).1.not_mem (by simp), (h o ho).2.not_mem (by simp)⟩
    rw [OpCall.reread, hoverrides]
  | collectGarbage => rw [OpCall.reread, cutCommas_clean h]
  | addSignatures => rw [OpCall.reread, cutCommas_clean h.2]
  | addTextToStore =>
    rw [OpCall.reread, h.1.unescape, mangled_self.mpr (not_backslashBefore h.2.1 _), cutCommas_clean h.2.2]
  | addToStore => rw [OpCall.reread, h.1.unescape, h.2.1.unescape, cutCommas_clean h.2.2.1]
  | querySubstitutablePathInfos => rw [OpCall.reread, cutCommas_clean h]
  | _ => rfl

/-! ## The line of a call -/

/-- A line that an entry starts on, without a timestamp. -/
structure CallLine (line : Str) : Prop where
  printable : Printable line
  ne_nil : line ≠ []
  not_comment : startsWith ['#'] line = false
  not_timestamp : startsWith ['@'] line = false

theorem Op.name_printable (op : Op) : Printable op.name ∧ ' ' ∉ op.name ∧ op.name ≠ [] := by
  cases op <;> decide

theorem Op.name_head (op : Op) : startsWith ['#'] op.name = false ∧ startsWith ['@'] op.name = false := by
  cases op <;> decide

theorem callLine_name (op : Op) : CallLine op.name :=
  ⟨op.name_printable.1, op.name_printable.2.2, op.name_head.1, op.name_head.2⟩

/-- Two pieces of a line, a blank between them. -/
theorem Printable.blank {a b : Str} (ha : Printable a) (hane : a ≠ []) (hb : Printable b) (hbne : b ≠ []) :
    Printable (a ++ ' ' :: b) := by
  refine ⟨tight_append ha.tight.1 hane ?_ (List.cons_ne_nil _ _), by simp [ha.oneLine, hb.oneLine]⟩
  rw [List.getLast?_cons_of_ne_nil hbne]
  exact hb.tight.2

theorem callLine_args (op : Op) {args : Str} (hargs : Printable args) (hne : args ≠ []) :
    CallLine (op.name ++ ' ' :: args) := by
  obtain ⟨hop, -, hopne⟩ := op.name_printable
  obtain ⟨hhash, hat⟩ := op.name_head
  refine ⟨hop.blank hopne hargs hne, by simp, ?_, ?_⟩
  · cases hname : op.name with
    | nil => exact (hopne hname).elim
    | cons c t => simpa [hname] using hhash
  · cases hname : op.name with
    | nil => exact (hopne hname).elim
    | cons c t => simpa [hname] using hat

theorem parseOpLine_name (op : Op) : parseOpLine op.name = parseOpArgs op [] := by
  have hsplit : splitSpace op.name = (op.name, []) := by rw [splitSpace, splitOnce_none op.name_printable.2.1]; rfl
  unfold parseOpLine
  rw [hsplit, Op.fromName_name]
  rfl

theorem parseOpLine_args (op : Op) {args : Str} (hargs : Tight args) :
    parseOpLine (op.name ++ ' ' :: args) = parseOpArgs op args := by
  have hsplit : splitSpace (op.name ++ ' ' :: args) = (op.name, args) := by
    rw [splitSpace, splitOnce_char op.name_printable.2.1]
    rfl
  unfold parseOpLine
  rw [hsplit, Op.fromName_name]
  simp only [trim_tight hargs]

/-! ## Calls -/

/-- `call` is read off the lines `ls`: a line, and a block up to its end. -/
def CallReads (call : OpCall) (ls : List Str) : Prop :=
  ∃ line block, ls = line :: block ∧ CallLine line ∧ BlockReads (parseOpLine line) block call

theorem CallReads.of_block (op : Op) {block : List Str} {call : OpCall} (h : BlockReads (parseOpArgs op []) block call) :
    CallReads call (op.name :: block) := by
  refine ⟨op.name, block, rfl, callLine_name op, ?_⟩
  rw [parseOpLine_name]
  exact h

theorem CallReads.of_args (op : Op) {line args : Str} {block : List Str} {call : OpCall}
    (hline : line = op.name ++ ' ' :: args) (hargs : Printable args) (hne : args ≠ [])
    (h : BlockReads (parseOpArgs op args) block call) : CallReads call (line :: block) := by
  subst hline
  refine ⟨_, block, rfl, callLine_args op hargs hne, ?_⟩
  rw [parseOpLine_args op hargs.tight]
  exact h

/-- The operation's name and a blank as they are written. -/
theorem label_args (op : Op) {label : String} (h : label.toList = op.name ++ [' ']) (args : Str) :
    [] ++ label.toList ++ args = op.name ++ ' ' :: args := by
  rw [List.nil_append, h, List.append_assoc]
  rfl

/-- A call that its line says all about. -/
theorem BlockReads.pure (call : OpCall) : BlockReads (Pure.pure call) [] call := ⟨by simp, fun _ _ => rfl⟩

theorem formatPathSet_ne_nil (paths : List Str) : formatPathSet paths ≠ [] := by simp [formatPathSet_eq]

theorem splitSpace_word {word arg : Str} (hword : CleanStr word) : splitSpace (word ++ ' ' :: arg) = (word, arg) := by
  rw [splitSpace, splitOnce_char (hword.not_white rfl)]
  rfl

section

variable {op : Op} {paths : List Str}

theorem parseOpArgs_singlePath (args : Str) : ∀ op ∈ singlePathOps, parseOpArgs op args = Pure.pure (.singlePath op args) := by
  simp only [singlePathOps, List.forall_mem_cons]
  exact ⟨rfl, rfl, rfl, rfl, rfl, rfl, rfl, rfl, rfl, rfl, rfl, nofun⟩

theorem parseOpArgs_singleString (args : Str) :
    ∀ op ∈ ([.addIndirectRoot, .queryPathFromHashPart] : List Op), parseOpArgs op args = Pure.pure (.singleString op args) := by
  simp only [List.forall_mem_cons]
  exact ⟨rfl, rfl, nofun⟩

theorem parseOpArgs_noArgs : ∀ op ∈ ([.syncWithGC, .findRoots, .queryAllValidPaths, .optimiseStore] : List Op),
    parseOpArgs op [] = Pure.pure (.noArgs op) := by
  simp only [List.forall_mem_cons]
  exact ⟨rfl, rfl, rfl, rfl, nofun⟩

theorem pathSet_reads (hop : op ∈ [.querySubstitutablePaths, .queryMissing]) (h : ∀ p ∈ paths, SetElement p) :
    BlockReads (parseOpArgs op (formatPathSet paths)) [] (.pathSet op (cutCommas paths)) := by
  have hset := parseInlinePathSet_set h
  simp only [List.mem_cons, List.not_mem_nil, or_false] at hop
  rcases hop with rfl | rfl
  all_goals
    rw [parseOpArgs, hset]
    exact .pure _

theorem pathSetFlag_reads (h : ∀ p ∈ paths, SetElement p) :
    BlockReads (parseOpArgs .queryValidPaths (formatPathSet paths)) [] (.pathSetFlag .queryValidPaths (cutCommas paths) false) := by
  unfold parseOpArgs
  rw [parseInlinePathSet_set h]
  exact .pure _

theorem pathSetFlag_substitute_reads (h : ∀ p ∈ paths, SetElement p) :
    BlockReads (parseOpArgs .queryValidPaths (formatPathSet paths ++ ' ' :: "substitute".toList)) []
      (.pathSetFlag .queryValidPaths (cutCommas paths) true) := by
  unfold parseOpArgs
  rw [parseInlinePathSet_format h (by decide)]
  exact .pure _

theorem pathSetMode_reads (hop : op ∈ [.buildPaths, .buildPathsWithResults]) (h : ∀ p ∈ paths, SetElement p) {mode : Str}
    (hmode : CleanStr mode) :
    BlockReads (parseOpArgs op (formatPathSet paths ++ ' ' :: mode)) [] (.pathSetMode op (cutCommas paths) mode) := by
  have hset := parseInlinePathSet_format h hmode.printable.tight
  have htrim := trim_spaced hmode.printable.tight
  have hne : mode.isEmpty = false := by simpa using hmode.1
  simp only [List.mem_cons, List.not_mem_nil, or_false] at hop
  rcases hop with rfl | rfl
  all_goals
    unfold parseOpArgs
    rw [hset]
    show BlockReads (Pure.pure (OpCall.pathSetMode _ (cutCommas paths)
      (if (trim (spaced mode)).isEmpty then _ else trim (spaced mode)))) [] _
    rw [htrim, hne]
    exact .pure _

theorem addSignatures_reads {path : Str} (hpath : CleanStr path) (h : ∀ p ∈ paths, SetElement p) :
    BlockReads (parseOpArgs .addSignatures (path ++ ' ' :: formatPathSet paths)) [] (.addSignatures path (cutCommas paths)) := by
  unfold parseOpArgs
  rw [splitSpace_word hpath, parseInlinePathSet_set h]
  exact .pure _

end

theorem overrideLine_oneLine {o : Str × Str} (hname : '\n' ∉ o.1) (hvalue : '\n' ∉ o.2) :
    OneLine ("    \"".toList ++ o.1 ++ "\" = \"".toList ++ o.2 ++ "\"".toList) := by
  refine ⟨by simp [hname, hvalue], ?_⟩
  rw [List.getLast?_append_of_ne_nil _ (by simp)]
  simp

theorem parseSetOptions_reads {overrides : List (Str × Str)} (h : ∀ o ∈ overrides, '\n' ∉ o.1 ∧ '\n' ∉ o.2)
    (keepFailed keepGoing tryFallback verbosity maxBuildJobs maxSilentTime useBuildHook verboseBuild logType
      printBuildTrace buildCores useSubstitutes : UInt64) :
    BlockReads parseSetOptions
      (fieldLines ((optionFields keepFailed keepGoing tryFallback verbosity maxBuildJobs maxSilentTime useBuildHook
        verboseBuild logType printBuildTrace buildCores useSubstitutes).map fun f => (f.1, formatU64 f.2))
        ++ fieldLine "overrides" (decimal overrides.length)
          :: overrides.map (fun o => "    \"".toList ++ o.1 ++ "\" = \"".toList ++ o.2 ++ "\"".toList))
      (.setOptions keepFailed keepGoing tryFallback verbosity maxBuildJobs maxSilentTime useBuildHook verboseBuild
        logType printBuildTrace buildCores useSubstitutes (readOverrides overrides)) where
  oneLine := by
    intro l hl
    rcases List.mem_append.mp hl with hl | hl
    · simp only [fieldLines, optionFields, List.map_map, List.mem_map] at hl
      obtain ⟨f, hf, rfl⟩ := hl
      have hname : FieldName f.1 := by
        have hnames : ∀ n ∈ ["keep_failed", "keep_going", "try_fallback", "verbosity", "max_build_jobs", "max_silent_time",
            "use_build_hook", "verbose_build", "log_type", "print_build_trace", "build_cores", "use_substitutes"],
            FieldName n := by decide
        exact hnames f.1 (by simpa using List.mem_map_of_mem (f := Prod.fst) hf)
      exact fieldLine_oneLine hname (formatU64_printable _)
    · rcases List.mem_cons.mp hl with rfl | hl
      · exact fieldLine_oneLine (by decide) (decimal_printable _)
      · obtain ⟨o, ho, rfl⟩ := List.mem_map.mp hl
        exact overrideLine_oneLine (h o ho).1 (h o ho).2
  run rest hend := by
    rw [List.append_assoc]
    exact parseSetOptions_run hend overrides _ _ _ _ _ _ _ _ _ _ _ _

/-- What is written for a call is read as the call, reread. -/
theorem formatOpCall_reads (writeFile : Str → List UInt8 → Bool) {call : OpCall} (h : call.Writable) {opts : FormatOptions}
    (hdata : ∀ data ∈ call.framed, data.Kept opts) (fileCounter : Nat) :
    CallReads call.reread (formatOpCall writeFile [] call opts fileCounter).1 := by
  cases call with
  | singlePath op path =>
    refine .of_args op (by simp) h.2.printable h.2.1 ?_
    rw [parseOpArgs_singlePath path op h.1]
    exact .pure _
  | singleString op value =>
    refine .of_args op (by simp) h.2.printable h.2.1 ?_
    rw [parseOpArgs_singleString value op h.1]
    exact .pure _
  | pathSet op paths =>
    exact .of_args op (by simp) (formatPathSet_printable h.2) (formatPathSet_ne_nil paths) (pathSet_reads h.1 h.2)
  | pathSetFlag op paths substitute =>
    obtain ⟨rfl, hpaths⟩ := h
    have hset := formatPathSet_printable hpaths
    cases substitute with
    | false => exact .of_args .queryValidPaths (by simp) hset (formatPathSet_ne_nil paths) (pathSetFlag_reads hpaths)
    | true =>
      exact .of_args .queryValidPaths (by simp) (hset.blank (formatPathSet_ne_nil paths) (by decide) (by decide)) (by simp)
        (pathSetFlag_substitute_reads hpaths)
  | pathSetMode op paths mode =>
    obtain ⟨hop, hpaths, hmode⟩ := h
    exact .of_args op (by simp) ((formatPathSet_printable hpaths).blank (formatPathSet_ne_nil paths) hmode.printable hmode.1)
      (by simp) (pathSetMode_reads hop hpaths hmode)
  | noArgs op =>
    refine .of_block op ?_
    rw [parseOpArgs_noArgs op h]
    exact .pure _
  | setOptions => exact .of_block .setOptions (parseSetOptions_reads h _ _ _ _ _ _ _ _ _ _ _ _)
  | collectGarbage action paths ignoreLiveness maxFreed =>
    exact .of_block .collectGarbage (parseCollectGarbage_reads h _ _ _)
  | verifyStore checkContents repair => exact .of_block .verifyStore (parseVerifyStore_reads _ _)
  | addPermRoot path gcRoot =>
    have hlabel : "AddPermRoot ".toList = Op.addPermRoot.name ++ [' '] := by decide
    have hline := label_args .addPermRoot hlabel (path ++ ' ' :: gcRoot)
    refine .of_args .addPermRoot (by simpa using hline) (h.1.printable.blank h.1.1 h.2.printable h.2.1) (by simp) ?_
    unfold parseOpArgs
    rw [splitSpace_word h.1]
    exact .pure _
  | addSignatures path sigs =>
    have hlabel : "AddSignatures ".toList = Op.addSignatures.name ++ [' '] := by decide
    have hline := label_args .addSignatures hlabel (path ++ ' ' :: formatPathSet sigs)
    refine .of_args .addSignatures (by simpa using hline)
      (h.1.printable.blank h.1.1 (formatPathSet_printable h.2) (formatPathSet_ne_nil sigs)) (by simp) ?_
    exact addSignatures_reads h.1 h.2
  | addTextToStore suffix text refs =>
    exact .of_block .addTextToStore (parseAddTextToStore_reads h.1 h.2 text)
  | addToStore name camStr refs repair data =>
    obtain ⟨hname, hcam, hrefs, hclean⟩ := h
    simp only [formatOpCall, formatOpCallM, formatFramedDataM_kept _ (hdata data rfl), pure_bind, Id.run_pure]
    exact .of_block .addToStore (parseAddToStore_reads hname hcam hrefs hclean repair)
  | addMultipleToStore repair dontCheckSigs data =>
    simp only [formatOpCall, formatOpCallM, formatFramedDataM_kept _ (hdata data rfl), pure_bind, Id.run_pure]
    exact .of_block .addMultipleToStore (parseAddMultipleToStore_reads h _ _)
  | addBuildLog path data =>
    simp only [formatOpCall, formatOpCallM, formatFramedDataM_kept _ (hdata data rfl), pure_bind, Id.run_pure]
    exact .of_args .addBuildLog (label_args .addBuildLog (by decide) _) h.1.printable h.1.1
      ((parseInlineFramedData_reads h.2).map _)
  | registerDrvOutput value =>
    exact .of_args .registerDrvOutput (label_args .registerDrvOutput (by decide) _) h.printable h.1 (.pure _)
  | queryRealisation value =>
    exact .of_args .queryRealisation (label_args .queryRealisation (by decide) _) h.printable h.1 (.pure _)
  | querySubstitutablePathInfo path =>
    exact .of_args .querySubstitutablePathInfo (label_args .querySubstitutablePathInfo (by decide) _) h.printable h.1 (.pure _)
  | querySubstitutablePathInfos paths =>
    refine .of_args .querySubstitutablePathInfos (label_args .querySubstitutablePathInfos (by decide) _)
      (formatPathSet_printable h)
      (formatPathSet_ne_nil paths) ?_
    rw [parseOpArgs, parseInlinePathSet_set h]
    exact .pure _
  | rawBytes op data =>
    have hop : BlockReads (parseOpArgs op []) (rawLines data) (.rawBytes op data) := by
      have hraw := (parseRawHex_reads data).map (OpCall.rawBytes op)
      simp only [OpCall.Writable, List.mem_cons, List.not_mem_nil, or_false] at h
      rcases h with rfl | rfl
      · exact hraw
      · exact hraw
    exact .of_block op hop

/-- A timestamp stands before the first line of the call. -/
theorem formatOpCall_timestamp (writeFile : Str → List UInt8 → Bool) (ts : Str) (call : OpCall) (opts : FormatOptions)
    (fileCounter : Nat) {line : Str} {block : List Str}
    (h : (formatOpCall writeFile [] call opts fileCounter).1 = line :: block) :
    (formatOpCall writeFile ts call opts fileCounter).1 = (ts ++ line) :: block := by
  cases call with
  | pathSetFlag op paths substitute =>
    cases substitute with
    | false =>
      obtain ⟨rfl, rfl⟩ := List.cons.inj h
      simp only [formatOpCall, formatOpCallM, Id.run_pure, List.nil_append, List.append_assoc, Bool.false_eq_true, if_false]
    | true =>
      obtain ⟨rfl, rfl⟩ := List.cons.inj h
      simp only [formatOpCall, formatOpCallM, Id.run_pure, List.nil_append, List.append_assoc, if_true]
  | _ =>
    simp only [formatOpCall, formatOpCallM, Id.run_bind, Id.run_pure, List.cons_append] at h ⊢
    obtain ⟨rfl, rfl⟩ := List.cons.inj h
    simp only [List.nil_append, List.append_assoc]

end NixWire
