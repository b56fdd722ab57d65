/-
  NixWire.Authored — scripts that come from text, and what they send.

  A script may be written by hand, so its calls need not be the ones unpacking gives:
  a mode of any text, fields that the version leaves out, data in files. The parser gives
  each call the shape of its operation all the same (`parseScript_shaped`). What goes to
  the wire is the call with its mode as a number, its data inline and no field that the
  version leaves out (`OpCall.sent`), and that is what is read back: whatever session is
  recorded of the script unpacks to its calls, as sent (`parsed_script_sent`).
-/

import NixWire.Base.Yields
import NixWire.Commands

namespace NixWire

open Base

/-! ## The calls a parser gives -/

/-- Placeholders stand for two operations only; the other calls for those their fields fit. -/
def OpCall.Shaped : OpCall → Prop
  | .singlePath op _ => op ∈ singlePathOps
  | .singleString op _ => op ∈ [.addIndirectRoot, .queryPathFromHashPart]
  | .pathSet op _ => op ∈ [.querySubstitutablePaths, .queryMissing]
  | .pathSetFlag op _ _ => op = .queryValidPaths
  | .pathSetMode op _ _ => op ∈ [.buildPaths, .buildPathsWithResults]
  | .noArgs op => op ∈ [.syncWithGC, .findRoots, .queryAllValidPaths, .optimiseStore]
  | .rawBytes op _ => op ∈ [.buildDerivation, .addToStoreNar]
  | _ => True

/-- A call of this operation. -/
def OpCall.Of (op : Op) (call : OpCall) : Prop := call.op = op ∧ call.Shaped

theorem parseBlock_yields {σ α : Type} {P : α → Prop} {onLine : σ → Str → Except ParseError (LineStep σ α)} {finish : σ → α}
    (hfinish : ∀ s, P (finish s)) (honLine : ∀ s l a, onLine s l = .ok (.done a) ∨ onLine s l = .ok (.leave a) → P a) (s : σ) :
    (parseBlock onLine finish s).Yields P := by
  refine Rd.Yields.readLines hfinish (fun s l a h => ?_) s
  cases hl : blockLine l with
  | none =>
    simp only [hl] at h
    rcases h with h | h
    · cases h
    · cases h
      exact hfinish s
  | some trimmed =>
    simp only [hl] at h
    exact honLine s trimmed a h

theorem keyedLine_goes {σ α : Type} {onField : σ → Str → Str → Except ParseError σ} {s : σ} {l : Str} {o : LineStep σ α}
    (h : keyedLine onField s l = .ok o) : ∃ s', o = .next s' := by
  unfold keyedLine at h
  split at h
  · rename_i key value _
    cases hfield : onField s (trim key) (trim value) with
    | error e =>
      rw [hfield] at h
      cases h
    | ok s' =>
      rw [hfield] at h
      cases h
      exact ⟨s', rfl⟩
  · cases h
    exact ⟨s, rfl⟩

/-- A block whose lines all go on ends with its state. -/
theorem parseBlock_finish {σ α : Type} {P : α → Prop} {onLine : σ → Str → Except ParseError (LineStep σ α)} {finish : σ → α}
    (hfinish : ∀ s, P (finish s)) (hgoes : ∀ {s l o}, onLine s l = .ok o → ∃ s', o = .next s') (s : σ) :
    (parseBlock onLine finish s).Yields P := by
  refine parseBlock_yields hfinish (fun s l a h => ?_) s
  rcases h with h | h
  · obtain ⟨s', hnext⟩ := hgoes h
    cases hnext
  · obtain ⟨s', hnext⟩ := hgoes h
    cases hnext

theorem parseFields_yields {σ α : Type} {P : α → Prop} {onField : σ → Str → Str → Except ParseError σ} {finish : σ → α}
    (hfinish : ∀ s, P (finish s)) (s : σ) : (parseFields onField finish s).Yields P :=
  parseBlock_finish hfinish keyedLine_goes s

theorem setOptionsLine_goes {s : OptionLines} {l : Str} {o : LineStep OptionLines OpCall}
    (h : setOptionsLine s l = .ok o) : ∃ s', o = .next s' := by
  unfold setOptionsLine at h
  split at h
  · cases h
    exact ⟨_, rfl⟩
  · exact keyedLine_goes h

theorem parseOpArgs_yields (op : Op) (args : Str) : (parseOpArgs op args).Yields (OpCall.Of op) := by
  cases op
  case setOptions => exact parseBlock_finish (fun _ => ⟨rfl, trivial⟩) setOptionsLine_goes _
  case collectGarbage | verifyStore | addTextToStore | addToStore | addMultipleToStore =>
    exact parseFields_yields (fun _ => ⟨rfl, trivial⟩) _
  case addBuildLog => exact Rd.Yields.map fun _ _ _ _ => ⟨rfl, trivial⟩
  case buildDerivation | addToStoreNar =>
    exact Rd.Yields.map fun _ _ _ _ => ⟨rfl, by simp [OpCall.Shaped]⟩
  case queryValidPaths | buildPaths | buildPathsWithResults | querySubstitutablePaths | queryMissing =>
    exact Rd.Yields.after fun _ => Rd.Yields.pure ⟨rfl, by simp [OpCall.Shaped]⟩
  case addSignatures | querySubstitutablePathInfos => exact Rd.Yields.after fun _ => Rd.Yields.pure ⟨rfl, trivial⟩
  all_goals exact Rd.Yields.pure ⟨rfl, by simp [OpCall.Shaped, singlePathOps]⟩

theorem parseOpLine_yields (line : Str) : (parseOpLine line).Yields OpCall.Shaped := by
  unfold parseOpLine
  cases Op.fromName (splitSpace line).1 with
  | none => exact Rd.Yields.fail _
  | some op => exact (parseOpArgs_yields op _).mono fun _ h => h.2

section

variable {τ : Type} (parseMs : Str → Option τ)

theorem parseEntry_yields (line : Str) : (parseEntry parseMs line).Yields fun entry => entry.opCall.Shaped := by
  refine Rd.Yields.after fun ts => ?_
  refine (parseOpLine_yields ts.2).bind fun call hcall => ?_
  exact Rd.Yields.after fun _ => Rd.Yields.pure hcall

theorem parseEntries_yields : (parseEntries parseMs).Yields fun entries => ∀ entry ∈ entries, entry.opCall.Shaped := by
  refine Rd.Yields.iterate (I := fun entries : List (Entry τ) => ∀ entry ∈ entries, entry.opCall.Shaped)
    (fun entries hentries => ?_) (List.forall_mem_nil _)
  refine Rd.Yields.nextLine (Rd.Yields.pure hentries) fun line => ?_
  split
  · exact Rd.Yields.pure hentries
  · refine (parseEntry_yields parseMs line).bind fun entry hentry => Rd.Yields.pure ?_
    intro e he
    rcases List.mem_append.mp he with he | he
    · exact hentries e he
    · cases List.mem_singleton.mp he
      exact hentry

/-- The calls of any script that parses have the shapes of their operations. -/
theorem parseScript_shaped {text : Str} {script : Script τ} (h : parseScript parseMs text = .ok script) :
    ∀ entry ∈ script.entries, entry.opCall.Shaped := by
  unfold parseScript at h
  generalize hx : (parsePreamble >>= _ : ParseM (Script τ)) = x at h
  have hyields : x.Yields fun script => ∀ entry ∈ script.entries, entry.opCall.Shaped := by
    rw [← hx]
    refine Rd.Yields.after fun preamble => ?_
    exact (parseEntries_yields parseMs).bind fun entries hentries => Rd.Yields.pure hentries
  exact hyields _ _ _ (Prod.ext h rfl)

end

/-! ## What is sent -/

section

variable (readFile : Str → Except Str (List UInt8)) (baseDir : Option Str)

/-- The data itself, where the file it refers to can be read. -/
def FramedData.loaded : FramedData → FramedData
  | .inline bytes => .inline bytes
  | .fileRef path => match readFile (resolvePath baseDir path) with
    | .ok bytes => .inline bytes
    | .error _ => .fileRef path

/-- The call as version `v` carries it. -/
def OpCall.sent (v : ProtocolVersion) : OpCall → OpCall
  | .pathSetFlag op paths substitute => .pathSetFlag op paths (if v ≥ .new 1 27 then substitute else false)
  | .pathSetMode op paths mode => .pathSetMode op paths (modeName (modeValue mode))
  | .setOptions keepFailed keepGoing tryFallback verbosity maxBuildJobs maxSilentTime useBuildHook verboseBuild
      logType printBuildTrace buildCores useSubstitutes overrides =>
    .setOptions keepFailed keepGoing tryFallback verbosity maxBuildJobs maxSilentTime useBuildHook verboseBuild
      logType printBuildTrace (if v ≥ .new 1 10 then buildCores else 0) (if v ≥ .new 1 12 then useSubstitutes else 0)
      (if v ≥ .new 1 12 then overrides else [])
  | .addToStore name camStr refs repair data => .addToStore name camStr refs repair (data.loaded readFile baseDir)
  | .addMultipleToStore repair dontCheckSigs data => .addMultipleToStore repair dontCheckSigs (data.loaded readFile baseDir)
  | .addBuildLog path data => .addBuildLog path (data.loaded readFile baseDir)
  | call => call

/-- The reader's limits hold of the call's strings, and its arguments are ones the reader
    parses: no raw bytes, and none of AddToStore before 1.25. -/
def OpCall.Readable (v : ProtocolVersion) : OpCall → Prop
  | .singlePath _ text | .singleString _ text => TextFits text
  | .pathSet _ paths | .pathSetFlag _ paths _ | .pathSetMode _ paths _ => SetFits paths
  | .noArgs _ | .verifyStore _ _ | .addMultipleToStore _ _ _ => True
  | .setOptions _ _ _ _ _ _ _ _ _ _ _ _ overrides => PairsFit overrides
  | .collectGarbage _ paths _ _ => SetFits paths
  | .addPermRoot path gcRoot => TextFits path ∧ TextFits gcRoot
  | .addSignatures path sigs => TextFits path ∧ SetFits sigs
  | .addTextToStore suffix text refs => TextFits suffix ∧ TextFits text ∧ SetFits refs
  | .addToStore name camStr refs _ _ => v ≥ .new 1 25 ∧ TextFits name ∧ TextFits camStr ∧ SetFits refs
  | .addBuildLog path _ => TextFits path
  | .registerDrvOutput value | .queryRealisation value => TextFits value
  | .querySubstitutablePathInfo path => TextFits path
  | .querySubstitutablePathInfos paths => SetFits paths
  | .rawBytes _ _ => False

variable {readFile baseDir}

theorem writeFramedData_loaded {data : FramedData} {bytes : List UInt8}
    (h : writeFramedData readFile data baseDir = .ok bytes) :
    Inline (data.loaded readFile baseDir) ∧ writeFramedData readFile (data.loaded readFile baseDir) baseDir = .ok bytes := by
  cases data with
  | inline fileData => exact ⟨⟨fileData, rfl⟩, h⟩
  | fileRef path =>
    cases hread : readFile (resolvePath baseDir path) with
    | error e =>
      simp only [writeFramedData, hread] at h
      cases h
    | ok fileData =>
      simp only [writeFramedData, hread] at h
      simp only [FramedData.loaded, hread]
      exact ⟨⟨fileData, rfl⟩, h⟩

theorem modeName_named (w : UInt64) : ModeName (modeName w) := by
  unfold modeName
  split
  · exact Or.inl rfl
  · exact Or.inr (Or.inl rfl)
  · exact Or.inr (Or.inr (Or.inl rfl))
  · rename_i n h0 h1 h2
    refine Or.inr (Or.inr (Or.inr ⟨w, UInt64.le_iff_toNat_le.mpr ?_, rfl⟩))
    show 3 ≤ w.toNat
    have h0' : w.toNat ≠ 0 := h0
    have h1' : w.toNat ≠ 1 := h1
    have h2' : w.toNat ≠ 2 := h2
    omega

theorem OpCall.sent_op (v : ProtocolVersion) (call : OpCall) : (call.sent readFile baseDir v).op = call.op := by
  cases call <;> rfl

/-- Framed data in a message is sent as the data it was loaded from. -/
theorem framed_loaded {data : FramedData} {f : List UInt8 → List UInt8} {bytes : List UInt8}
    (h : (do return f (← writeFramedData readFile data baseDir)) = .ok bytes) :
    Inline (data.loaded readFile baseDir) ∧
      (do return f (← writeFramedData readFile (data.loaded readFile baseDir) baseDir)) = .ok bytes := by
  cases hdata : writeFramedData readFile data baseDir with
  | error e =>
    rw [hdata] at h
    cases h
  | ok framed =>
    obtain ⟨hinline, hloaded⟩ := writeFramedData_loaded hdata
    rw [hloaded, ← h, hdata]
    exact ⟨hinline, rfl⟩

/-- What is sent of a call is canonical, and has the bytes of the call. -/
theorem sent_canonical {v : ProtocolVersion} {call : OpCall} (hshaped : call.Shaped) (hreadable : call.Readable v)
    {bytes : List UInt8} (h : serializeOpArgs readFile call v baseDir = .ok bytes) :
    Canonical v (call.sent readFile baseDir v) ∧
      serializeOpArgs readFile (call.sent readFile baseDir v) v baseDir = .ok bytes := by
  cases call with
  | pathSetFlag op paths substitute =>
    refine ⟨⟨hshaped, hreadable, fun hv => if_neg hv⟩, ?_⟩
    rw [← h]
    simp only [OpCall.sent, serializeOpArgs]
    by_cases hv : v ≥ .new 1 27
    · simp only [if_pos hv]
    · simp only [if_neg hv]
  | pathSetMode op paths mode =>
    refine ⟨⟨hshaped, hreadable, modeName_named _⟩, ?_⟩
    rw [← h]
    simp only [OpCall.sent, serializeOpArgs, modeValue_modeName]
  | setOptions kf kg tf vb mj ms bh vl lt bt buildCores useSubstitutes overrides =>
    refine ⟨⟨fun hv => if_neg hv, fun hv => ⟨if_neg hv, if_neg hv⟩, ?_⟩, ?_⟩
    · by_cases hv : v ≥ .new 1 12
      · rw [if_pos hv]
        exact hreadable
      · rw [if_neg hv]
        exact ⟨Nat.zero_le _, List.forall_mem_nil _⟩
    · rw [← h]
      simp only [OpCall.sent, serializeOpArgs]
      by_cases hcores : v ≥ .new 1 10
      · by_cases hsubst : v ≥ .new 1 12
        · simp only [if_pos hcores, if_pos hsubst]
        · simp only [if_pos hcores, if_neg hsubst]
      · by_cases hsubst : v ≥ .new 1 12
        · simp only [if_neg hcores, if_pos hsubst]
        · simp only [if_neg hcores, if_neg hsubst]
  | addToStore name camStr refs repair data =>
    simp only [serializeOpArgs, OpCall.sent] at h ⊢
    obtain ⟨hinline, hloaded⟩ := framed_loaded h
    exact ⟨⟨hreadable.1, hreadable.2.1, hreadable.2.2.1, hreadable.2.2.2, hinline⟩, hloaded⟩
  | addMultipleToStore repair dontCheckSigs data =>
    simp only [serializeOpArgs, OpCall.sent] at h ⊢
    obtain ⟨hinline, hloaded⟩ := framed_loaded h
    exact ⟨hinline, hloaded⟩
  | addBuildLog path data =>
    simp only [serializeOpArgs, OpCall.sent] at h ⊢
    obtain ⟨hinline, hloaded⟩ := framed_loaded h
    exact ⟨⟨hreadable, hinline⟩, hloaded⟩
  | singlePath op path => exact ⟨⟨hshaped, hreadable⟩, h⟩
  | singleString op value => exact ⟨⟨hshaped, hreadable⟩, h⟩
  | pathSet op paths => exact ⟨⟨hshaped, hreadable⟩, h⟩
  | noArgs op => exact ⟨hshaped, h⟩
  | rawBytes op data => exact hreadable.elim
  | collectGarbage | verifyStore | addPermRoot | addSignatures | addTextToStore | registerDrvOutput | queryRealisation
  | querySubstitutablePathInfo | querySubstitutablePathInfos => exact ⟨hreadable, h⟩

theorem sent_packed {v : ProtocolVersion} {call : OpCall} (hshaped : call.Shaped) (hreadable : call.Readable v)
    {bytes : List UInt8} (h : serializeOpCall readFile call v baseDir = .ok bytes) :
    Packed v (call.sent readFile baseDir v) bytes := by
  cases hargs : serializeOpArgs readFile call v baseDir with
  | error e =>
    rw [serializeOpCall, hargs] at h
    cases h
  | ok args =>
    obtain ⟨hcanonical, hsent⟩ := sent_canonical hshaped hreadable hargs
    obtain ⟨bs, hpacked, hser⟩ := serialize_call readFile baseDir hcanonical
    rw [serializeOpCall, hargs] at h
    rw [serializeOpCall, hsent, OpCall.sent_op] at hser
    cases h.symm.trans hser
    exact hpacked

theorem sent_calls {v : ProtocolVersion} {calls : List OpCall} (hcalls : ∀ call ∈ calls, call.Shaped ∧ call.Readable v)
    {bytes : List UInt8} (h : serializeOpCalls readFile v baseDir calls = .ok bytes) :
    ∃ parts, List.Forall₂ (Packed v) (calls.map (OpCall.sent readFile baseDir v)) parts ∧ bytes = parts.flatten := by
  induction calls generalizing bytes with
  | nil =>
    cases h
    exact ⟨[], .nil, rfl⟩
  | cons call calls ih =>
    obtain ⟨⟨hshaped, hreadable⟩, hothers⟩ := List.forall_mem_cons.mp hcalls
    rw [serializeOpCalls] at h
    cases hcall : serializeOpCall readFile call v baseDir with
    | error e =>
      rw [hcall] at h
      cases h
    | ok bs =>
      cases hmore : serializeOpCalls readFile v baseDir calls with
      | error e =>
        rw [hcall, hmore] at h
        cases h
      | ok more =>
        rw [hcall, hmore] at h
        cases h
        obtain ⟨parts, hparts, rfl⟩ := ih hothers hmore
        exact ⟨bs :: parts, .cons (sent_packed hshaped hreadable hcall) hparts, rfl⟩

end

/-! ## Read back -/

/-- The features that version `v` has a place for. -/
def sentFeatures (v : ProtocolVersion) (features : List Str) : List Str := if v.hasFeatures then features else []

theorem handshake_sent (v : ProtocolVersion) (features : List Str) :
    serializeClientHandshake v features = serializeClientHandshake v (sentFeatures v features) := by
  unfold serializeClientHandshake sentFeatures
  by_cases hv : v.hasFeatures = true
  · simp only [if_pos hv]
  · simp only [if_neg hv]

/-- Packed calls behind a handshake come back from every daemon stream they can be unpacked with. -/
theorem packed_unpacks {τ : Type} {v : ProtocolVersion} {features : List Str} {calls : List OpCall}
    {parts : List (List UInt8)} (hmajor : v.major < 256) (hfeatures : SetFits features)
    (hdefault : v.hasFeatures = false → features = []) (hparts : List.Forall₂ (Packed v) calls parts)
    {timestamps : List (Nat × τ)} {daemonBytes : List UInt8} {out : Script τ} {m : Streams}
    (hannounced : Announces v daemonBytes)
    (hout : (decompileStreams timestamps).run (.new (serializeClientHandshake v features ++ parts.flatten),
      .new daemonBytes) = (.ok out, m)) :
    out.preamble.protocolVersion = v ∧ out.preamble.clientFeatures = features ∧ out.entries.map (·.opCall) = calls := by
  obtain ⟨x, hx, hfs, hhello⟩ := serialize_hello hfeatures hdefault
  obtain ⟨q, hflat, -⟩ := mem_runs (decompile_rel timestamps _ _) hout
  have hnow := timestampLeft_looks timestamps (serializeClientHandshake v features ++ parts.flatten).length
  obtain ⟨info, p, n, hhand, hr, hshort, hpre⟩ := (decompileWith_ok_iff hnow).mp hflat
  -- the daemon announces, and the version negotiated is the one sent
  obtain ⟨sw, drest, rfl, hle⟩ := hannounced
  obtain ⟨c, d⟩ := p
  obtain ⟨cw, sw', _, _, w, y, z, cb, db, rfl, rfl, hw, hy, -, hc, hd, -, rfl⟩ := parseHandshake_ok_iff.mp hhand
  rw [hhello, List.append_assoc, List.append_assoc] at hc
  obtain ⟨rfl, hrest⟩ := word_append_inj (word_append_inj hc).2
  obtain ⟨rfl, -⟩ := word_append_inj (word_append_inj hd).2
  obtain rfl : w = v := by
    rw [hw, ProtocolVersion.from_wire_to_wire hmajor, ProtocolVersion.min_eq_left hle]
  obtain ⟨rfl, -, rfl⟩ := Fmt.Enc.unique wirePrims_lawful (enc_write _ _ _ hx) hy hrest
  have hops := unpack_calls hnow hparts hr hshort
  rw [List.map_nil, List.nil_append] at hops
  rw [hpre]
  exact ⟨rfl, hfs, hops⟩

/-- Whatever the text of a script, a session recorded of running it unpacks to its calls, as sent. -/
theorem parsed_script_sent {τ σ : Type} (parseMs : Str → Option τ) (readFile : Str → Except Str (List UInt8))
    (baseDir : Option Str) {text : Str} {script : Script τ} (hparse : parseScript parseMs text = .ok script)
    (hmajor : script.preamble.protocolVersion.major < 256) (hfeatures : SetFits script.preamble.clientFeatures)
    (hcalls : ∀ entry ∈ script.entries, entry.opCall.Readable script.preamble.protocolVersion) {clientBytes : List UInt8}
    (hrun : cmdRunBytes parseMs readFile text baseDir = .ok clientBytes) {timestamps : List (Nat × σ)}
    {daemonBytes : List UInt8} {out : Script σ} {m : Streams}
    (hannounced : Announces script.preamble.protocolVersion daemonBytes)
    (hout : (decompileStreams timestamps).run (.new clientBytes, .new daemonBytes) = (.ok out, m)) :
    out.preamble.protocolVersion = script.preamble.protocolVersion ∧
      out.preamble.clientFeatures = sentFeatures script.preamble.protocolVersion script.preamble.clientFeatures ∧
      out.entries.map (·.opCall) =
        script.entries.map fun entry => entry.opCall.sent readFile baseDir script.preamble.protocolVersion := by
  have hser : serializeScript readFile script baseDir = .ok clientBytes := by
    simp only [cmdRunBytes, hparse] at hrun
    cases hscript : serializeScript readFile script baseDir with
    | error e =>
      rw [hscript] at hrun
      cases hrun
    | ok bytes =>
      rw [hscript] at hrun
      cases hrun
      rfl
  cases hops : serializeOpCalls readFile script.preamble.protocolVersion baseDir (script.entries.map (·.opCall)) with
  | error e =>
    rw [serializeScript, hops] at hser
    cases hser
  | ok bytes =>
    rw [serializeScript, hops] at hser
    have hshaped := parseScript_shaped parseMs hparse
    obtain ⟨parts, hparts, rfl⟩ := sent_calls (List.forall_mem_map.mpr fun entry he => ⟨hshaped entry he, hcalls entry he⟩) hops
    rw [List.map_map] at hparts
    have hbytes : clientBytes = serializeClientHandshake script.preamble.protocolVersion
        (sentFeatures script.preamble.protocolVersion script.preamble.clientFeatures) ++ parts.flatten := by
      cases hser
      rw [← handshake_sent]
    rw [hbytes] at hout
    refine packed_unpacks hmajor ?_ (fun hv => ?_) hparts hannounced hout
    · unfold sentFeatures
      split
      · exact hfeatures
      · exact ⟨Nat.zero_le _, List.forall_mem_nil _⟩
    · rw [sentFeatures, hv]
      rfl

/-- Two calls by hand at 1.37: a mode that is none, and a field that is not a number. -/
def handText : Str := "protocol: 1.37\n---\nBuildPaths { } fast\nVerifyStore\n  repair: yes\n".toList

def handScript : Script Nat where
  preamble := { Preamble.default with protocolVersion := .new 1 37 }
  entries :=
    [{ timestampMs := none, opCall := .pathSetMode .buildPaths [] "fast".toList, response := none, expects := [] },
     { timestampMs := none, opCall := .verifyStore false true, response := none, expects := [] }]

theorem parse_handText : parseScript (fun _ => none) handText = .ok handScript := by
  decide

def handBytes : List UInt8 := [workerMagic1, 0x0125, 0, 0, 9, 0, 0, 35, 0, 1].flatMap wordBytes

def handUnpacked : Script Nat where
  preamble :=
    { protocolVersion := .new 1 37, clientFeatures := [], expects := [], daemonVersion := some [],
      trust := some "trusted".toList, serverFeatures := some [] }
  entries :=
    [{ timestampMs := none, opCall := .pathSetMode .buildPaths [] "normal".toList,
       response := some ⟨"Last".toList, 1, some (.u64 1), none⟩, expects := [] },
     { timestampMs := none, opCall := .verifyStore false true, response := some ⟨"Last".toList, 1, some (.u64 1), none⟩,
       expects := [] }]

theorem decompile_handBytes : (decompileStreams []).run (.new handBytes, .new verifyDaemon) =
    (.ok handUnpacked, (⟨handBytes, 80⟩, ⟨verifyDaemon, 72⟩)) := by
  decide

/-- The mode comes back as the one it was sent as. -/
theorem parsed_script_sent_hand : handUnpacked.entries.map (·.opCall) =
    handScript.entries.map fun entry => entry.opCall.sent (fun _ => .error []) none (.new 1 37) := by
  have hrun : cmdRunBytes (fun _ => (none : Option Nat)) (fun _ => .error []) handText none = .ok handBytes := by
    simp only [cmdRunBytes, parse_handText]
    have hser : serializeScript (fun _ => .error []) handScript none = .ok handBytes := by decide
    rw [hser]
  have hset : SetFits handScript.preamble.clientFeatures := ⟨Nat.zero_le _, List.forall_mem_nil _⟩
  have hcalls : ∀ entry ∈ handScript.entries, entry.opCall.Readable handScript.preamble.protocolVersion := by
    simp only [handScript, List.forall_mem_cons]
    exact ⟨⟨Nat.zero_le _, List.forall_mem_nil _⟩, trivial, List.forall_mem_nil _⟩
  exact (parsed_script_sent (fun _ => none) (fun _ => .error []) none parse_handText (by decide) hset hcalls hrun
    ⟨0x0126, _, rfl, by decide⟩ decompile_handBytes).2.2

end NixWire
