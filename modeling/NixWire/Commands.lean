/-
  NixWire.Commands — unpacking, packing and running a script (bin/script.rs).

  `cmd_pack` writes its recording record by record as it serializes the calls; `cmd_run`
  serializes them all before it connects. The two agree (`pack_follows_run`): the
  recording's client bytes are what a run sends, both fail on the same texts with the same
  error, and then the file that is left is a recording of the calls before the failing one.

  A recording that is unpacked and packed unedited is unpacked to the same script again
  (`unpack_pack_unpack`), if no call is a placeholder and its text says what the script
  does.
-/

import NixWire.Roundtrip
import NixWire.Unpacked

namespace NixWire

open Base

/-! ## The commands -/

/-- Why `cmd_pack` or `cmd_run` gets no further than the script. -/
inductive ScriptFailure where
  | parse (o : Stop ParseError)
  | serialize (e : SerializeError)

/-- Why `cmd_unpack` fails. -/
inductive UnpackFailure where
  | recording (o : Stop RecordingError)
  | protocol (o : Stop WireError)

section

variable {τ : Type}

-- timestamps: read from a text, written to it, in nanoseconds, and from nanoseconds
variable (parseMs : Str → Option τ) (formatMs : τ → Str) (nanos : τ → UInt64) (ms : UInt64 → τ)

-- the file system
variable (readFile : Str → Except Str (List UInt8)) (writeFile : Str → List UInt8 → Bool)

/-- The text `cmd_unpack` prints or writes for a recording. -/
def cmdUnpack (file : List UInt8) (opts : FormatOptions) : Except UnpackFailure Str :=
  match readHeader.run file with
  | (.stop o, _) => .error (.recording o)
  | (.ok _, rest) =>
    match readAll.run rest with
    | (.stop o, _) => .error (.recording o)
    | (.ok records, _) =>
      let split := splitRecords records
      let clientTs := split.clientTs.map fun t => (t.1, ms t.2)
      match (decompileStreams clientTs).run (.new split.clientBytes, .new split.daemonBytes) with
      | (.stop o, _) => .error (.protocol o)
      | (.ok script, _) => .ok (formatScript writeFile formatMs script opts)

/-- What the loop over the entries writes, until it fails. -/
def packLoop (version : ProtocolVersion) (baseDir : Option Str) :
    UInt64 → List (Entry τ) → List UInt8 × Except ScriptFailure Unit
  | _, [] => ([], .ok ())
  | offsetNs, entry :: rest =>
    let entryOffset := entry.timestampMs.elim offsetNs nanos
    match serializeOpCall readFile entry.opCall version baseDir with
    | .error e => ([], .error (.serialize e))
    | .ok opBytes =>
      let (written, result) := packLoop version baseDir (entryOffset + 1000000) rest
      ((Record.mk entryOffset .clientToDaemon opBytes).bytes ++ written, result)

/-- The output file of `cmd_pack`, if it comes to creating it, and how the command ends. -/
def cmdPack (text : Str) (baseDir : Option Str) : Option (List UInt8) × Except ScriptFailure Unit :=
  match parseScript parseMs text with
  | .stop o => (none, .error (.parse o))
  | .ok script =>
    let version := script.preamble.protocolVersion
    let handshake : Record := ⟨0, .clientToDaemon, serializeClientHandshake version script.preamble.clientFeatures⟩
    let (written, result) := packLoop nanos readFile version baseDir 1000000 script.entries
    (some ((Header.new 0).bytes ++ handshake.bytes ++ written), result)

/-- The client's bytes of `cmd_run`. -/
def cmdRunBytes (text : Str) (baseDir : Option Str) : Except ScriptFailure (List UInt8) :=
  match parseScript parseMs text with
  | .stop o => .error (.parse o)
  | .ok script =>
    match serializeScript readFile script baseDir with
    | .error e => .error (.serialize e)
    | .ok clientBytes => .ok clientBytes

/-! ## Packing against running -/

variable {nanos readFile} {version : ProtocolVersion} {baseDir : Option Str}

/-- Where every call can be serialized, the records are written in order. -/
theorem packLoop_ok {entries : List (Entry τ)} {offsetNs : UInt64} {records : List Record}
    (h : packEntries nanos readFile version baseDir offsetNs entries = .ok records) :
    packLoop nanos readFile version baseDir offsetNs entries = (records.flatMap Record.bytes, .ok ()) := by
  induction entries generalizing offsetNs records with
  | nil =>
    cases h
    rfl
  | cons entry rest ih =>
    rw [packEntries] at h
    unfold packLoop
    simp only
    cases hop : serializeOpCall readFile entry.opCall version baseDir with
    | error e =>
      rw [hop] at h
      cases h
    | ok opBytes =>
      rw [hop] at h
      simp only [bind, Except.bind] at h
      cases hmore : packEntries nanos readFile version baseDir (entry.timestampMs.elim offsetNs nanos + 1000000) rest with
      | error e =>
        rw [hmore] at h
        cases h
      | ok more =>
        rw [hmore] at h
        cases h
        simp only [ih hmore, List.flatMap_cons]

/-- Where one cannot, the records of the calls before it are. -/
theorem packLoop_error {entries : List (Entry τ)} {offsetNs : UInt64} {e : SerializeError}
    (h : serializeOpCalls readFile version baseDir (entries.map (·.opCall)) = .error e) :
    ∃ k entry records, entries[k]? = some entry ∧ serializeOpCall readFile entry.opCall version baseDir = .error e ∧
      packEntries nanos readFile version baseDir offsetNs (entries.take k) = .ok records ∧
      packLoop nanos readFile version baseDir offsetNs entries = (records.flatMap Record.bytes, .error (.serialize e)) := by
  induction entries generalizing offsetNs with
  | nil => cases h
  | cons entry rest ih =>
    rw [List.map_cons, serializeOpCalls] at h
    unfold packLoop
    simp only
    cases hop : serializeOpCall readFile entry.opCall version baseDir with
    | error e' =>
      rw [hop] at h
      cases h
      exact ⟨0, entry, [], rfl, hop, rfl, rfl⟩
    | ok opBytes =>
      rw [hop] at h
      simp only [bind, Except.bind] at h
      cases hmore : serializeOpCalls readFile version baseDir (rest.map (·.opCall)) with
      | ok more =>
        rw [hmore] at h
        cases h
      | error e' =>
        rw [hmore] at h
        cases h
        let entryOffset := entry.timestampMs.elim offsetNs nanos
        obtain ⟨k, failing, records, hk, hfail, hrecords, hloop⟩ := @ih (entryOffset + 1000000) hmore
        refine ⟨k + 1, failing, ⟨entryOffset, .clientToDaemon, opBytes⟩ :: records, hk, hfail, ?_, ?_⟩
        · rw [List.take_succ_cons, packEntries, hop]
          simp only [bind, Except.bind]
          rw [hrecords]
          rfl
        · rw [hloop, List.flatMap_cons]

/-- The calls that can be serialized can be packed. -/
theorem packEntries_total {entries : List (Entry τ)} {offsetNs : UInt64} {bytes : List UInt8}
    (h : serializeOpCalls readFile version baseDir (entries.map (·.opCall)) = .ok bytes) :
    ∃ records, packEntries nanos readFile version baseDir offsetNs entries = .ok records := by
  induction entries generalizing offsetNs bytes with
  | nil => exact ⟨[], rfl⟩
  | cons entry rest ih =>
    rw [List.map_cons, serializeOpCalls] at h
    cases hop : serializeOpCall readFile entry.opCall version baseDir with
    | error e =>
      rw [hop] at h
      cases h
    | ok opBytes =>
      rw [hop] at h
      simp only [bind, Except.bind] at h
      cases hmore : serializeOpCalls readFile version baseDir (rest.map (·.opCall)) with
      | error e =>
        rw [hmore] at h
        cases h
      | ok more =>
        obtain ⟨records, hrecords⟩ := @ih (entry.timestampMs.elim offsetNs nanos + 1000000) _ hmore
        refine ⟨⟨entry.timestampMs.elim offsetNs nanos, .clientToDaemon, opBytes⟩ :: records, ?_⟩
        rw [packEntries, hop]
        simp only [bind, Except.bind, hrecords]
        rfl

variable (readFile) in
/-- The recording that packing leaves of a script. -/
structure RecordingOf (baseDir : Option Str) (script : Script τ) (records : List Record) (file : List UInt8) : Prop where
  written : file = recordingFile 0 records
  client : serializeScript readFile script baseDir = .ok (splitRecords records).clientBytes
  daemon : (splitRecords records).daemonBytes = []
  -- a record's length takes four bytes
  readable : (∀ r ∈ records, r.data.length < 2 ^ 32) →
    ∃ rest q, readHeader.run file = (.ok (.new 0), rest) ∧ readAll.run rest = (.ok records, q)

theorem packRecords_recording {script : Script τ} {records : List Record}
    (h : packRecords nanos readFile script baseDir = .ok records) :
    RecordingOf readFile baseDir script records (recordingFile 0 records) where
  written := rfl
  client := packed_client nanos readFile h
  daemon := packed_daemon nanos readFile h
  readable := readAll_recordingFile 0

/-- The first record is the handshake. -/
theorem packRecords_entries {script : Script τ} {ops : List Record}
    (h : packEntries nanos readFile script.preamble.protocolVersion baseDir 1000000 script.entries = .ok ops) :
    packRecords nanos readFile script baseDir = .ok (⟨0, .clientToDaemon,
      serializeClientHandshake script.preamble.protocolVersion script.preamble.clientFeatures⟩ :: ops) := by
  rw [packRecords]
  simp only [bind, Except.bind, h]
  rfl

/-- A script that can be serialized is packed. -/
theorem cmdPack_ok {text : Str} {script : Script τ} {bytes : List UInt8} (hparse : parseScript parseMs text = .ok script)
    (hser : serializeScript readFile script baseDir = .ok bytes) :
    ∃ records, cmdPack parseMs nanos readFile text baseDir = (some (recordingFile 0 records), .ok ()) ∧
      RecordingOf readFile baseDir script records (recordingFile 0 records) := by
  rw [serializeScript] at hser
  cases hcalls : serializeOpCalls readFile script.preamble.protocolVersion baseDir (script.entries.map (·.opCall)) with
  | error e =>
    rw [hcalls] at hser
    cases hser
  | ok calls =>
    obtain ⟨ops, hops⟩ := @packEntries_total _ nanos _ _ _ _ 1000000 _ hcalls
    have hpack := packRecords_entries hops
    refine ⟨_, ?_, packRecords_recording hpack⟩
    unfold cmdPack
    simp only [hparse, packLoop_ok hops, recordingFile, List.flatMap_cons, List.append_assoc]

/-- One that cannot is packed up to the first call that cannot. -/
theorem cmdPack_error {text : Str} {script : Script τ} {e : SerializeError} (hparse : parseScript parseMs text = .ok script)
    (hser : serializeScript readFile script baseDir = .error e) :
    ∃ k entry records, script.entries[k]? = some entry ∧
      serializeOpCall readFile entry.opCall script.preamble.protocolVersion baseDir = .error e ∧
      cmdPack parseMs nanos readFile text baseDir = (some (recordingFile 0 records), .error (.serialize e)) ∧
      RecordingOf readFile baseDir { script with entries := script.entries.take k } records (recordingFile 0 records) := by
  rw [serializeScript] at hser
  cases hcalls : serializeOpCalls readFile script.preamble.protocolVersion baseDir (script.entries.map (·.opCall)) with
  | ok calls =>
    rw [hcalls] at hser
    cases hser
  | error e' =>
    rw [hcalls] at hser
    cases hser
    obtain ⟨k, entry, ops, hk, hfail, hops, hloop⟩ := @packLoop_error _ nanos _ _ _ _ 1000000 _ hcalls
    have hpack : packRecords nanos readFile { script with entries := script.entries.take k } baseDir = .ok _ :=
      packRecords_entries hops
    refine ⟨k, entry, _, hk, hfail, ?_, packRecords_recording hpack⟩
    unfold cmdPack
    simp only [hparse, hloop, recordingFile, List.flatMap_cons, List.append_assoc]

end

/-- Packing a text agrees with running it: it fails on the same texts, and its recording is of
    what is run, or of what comes before the call that fails. -/
theorem pack_follows_run {τ : Type} (parseMs : Str → Option τ) (nanos : τ → UInt64)
    (readFile : Str → Except Str (List UInt8)) (text : Str) (baseDir : Option Str) :
    match cmdRunBytes parseMs readFile text baseDir with
    | .ok clientBytes => ∃ script records file, parseScript parseMs text = .ok script ∧
        cmdPack parseMs nanos readFile text baseDir = (some file, .ok ()) ∧
        RecordingOf readFile baseDir script records file ∧ (splitRecords records).clientBytes = clientBytes
    | .error (.parse o) => cmdPack parseMs nanos readFile text baseDir = (none, .error (.parse o))
    | .error (.serialize e) => ∃ script k entry records file, parseScript parseMs text = .ok script ∧
        script.entries[k]? = some entry ∧
        serializeOpCall readFile entry.opCall script.preamble.protocolVersion baseDir = .error e ∧
        cmdPack parseMs nanos readFile text baseDir = (some file, .error (.serialize e)) ∧
        RecordingOf readFile baseDir { script with entries := script.entries.take k } records file := by
  cases hparse : parseScript parseMs text with
  | stop o =>
    unfold cmdRunBytes cmdPack
    simp only [hparse]
  | ok script =>
    cases hser : serializeScript readFile script baseDir with
    | ok clientBytes =>
      obtain ⟨records, hpack, hrec⟩ := @cmdPack_ok _ _ nanos _ _ _ _ _ hparse hser
      unfold cmdRunBytes
      simp only [hparse, hser]
      have hclient := hrec.client
      rw [hser] at hclient
      exact ⟨script, records, _, rfl, hpack, hrec, (Except.ok.inj hclient).symm⟩
    | error e =>
      obtain ⟨k, entry, records, hk, hfail, hpack, hrec⟩ := @cmdPack_error _ _ nanos _ _ _ _ _ hparse hser
      unfold cmdRunBytes
      simp only [hparse, hser]
      exact ⟨script, k, entry, records, _, rfl, hk, hfail, hpack, hrec⟩

/-! ## Unpacking, packing, unpacking -/

section

variable {τ : Type} {parseMs : Str → Option τ} {formatMs : τ → Str} {nanos : τ → UInt64} {ms : UInt64 → τ}
variable {readFile : Str → Except Str (List UInt8)} {writeFile : Str → List UInt8 → Bool}

/-- The script's times are those of the client's records. -/
def stampsOf (ms : UInt64 → τ) (records : List Record) : List (Nat × τ) :=
  (splitRecords records).clientTs.map fun t => (t.1, ms t.2)

theorem cmdUnpack_ok {file rest q : List UInt8} {header : Header} {records : List Record} {script : Script τ} {m : Streams}
    (hheader : readHeader.run file = (.ok header, rest)) (hrecords : readAll.run rest = (.ok records, q))
    (hscript : (decompileStreams (stampsOf ms records)).run
      (.new (splitRecords records).clientBytes, .new (splitRecords records).daemonBytes) = (.ok script, m))
    (opts : FormatOptions) :
    cmdUnpack formatMs ms writeFile file opts = .ok (formatScript writeFile formatMs script opts) := by
  unfold stampsOf at hscript
  unfold cmdUnpack
  simp only [hheader, hrecords, hscript]

/-- Only the calls are packed. -/
theorem serializeScript_reread {baseDir : Option Str} {script : Script τ}
    (h : ∀ entry ∈ script.entries, entry.opCall.reread = entry.opCall) :
    serializeScript readFile ⟨script.preamble, script.entries.map (Entry.reread parseMs formatMs)⟩ baseDir =
      serializeScript readFile script baseDir := by
  have hcalls : (script.entries.map (Entry.reread parseMs formatMs)).map (·.opCall) = script.entries.map (·.opCall) := by
    rw [List.map_map]
    exact List.map_congr_left h
  unfold serializeScript
  simp only [hcalls]

end

/-- A script that its text says, unpacked from a recording, is packed unedited into client
    bytes that stand for the recorded ones: any recording of them and of the same daemon's bytes
    is unpacked to the script again, times aside. -/
theorem unpack_pack_unpack {τ : Type} (parseMs : Str → Option τ) (formatMs : τ → Str) (nanos : τ → UInt64) (ms : UInt64 → τ)
    (readFile : Str → Except Str (List UInt8)) (writeFile : Str → List UInt8 → Bool) (baseDir : Option Str)
    {file rest q : List UInt8} {header : Header} {records : List Record} {script : Script τ} {m : Streams}
    {opts : FormatOptions} (hheader : readHeader.run file = (.ok header, rest))
    (hrecords : readAll.run rest = (.ok records, q))
    (hscript : (decompileStreams (stampsOf ms records)).run
      (.new (splitRecords records).clientBytes, .new (splitRecords records).daemonBytes) = (.ok script, m))
    (hpreamble : script.preamble.Clean) (hentries : ∀ entry ∈ script.entries,
      entry.Writable parseMs formatMs opts ∧ entry.opCall.reread = entry.opCall ∧ ¬entry.opCall.Raw) :
    ∃ text packed, cmdUnpack formatMs ms writeFile file opts = .ok text ∧
      cmdPack parseMs nanos readFile text baseDir = (some (recordingFile 0 packed), .ok ()) ∧
      ∀ (epochNs : UInt64) (merged : List Record),
        (splitRecords merged).clientBytes = (splitRecords packed).clientBytes →
        (splitRecords merged).daemonBytes = (splitRecords records).daemonBytes → (∀ r ∈ merged, r.data.length < 2 ^ 32) →
        ∃ again : Script τ, cmdUnpack formatMs ms writeFile (recordingFile epochNs merged) opts =
          .ok (formatScript writeFile formatMs again opts) ∧ again.untimed = script.untimed := by
  have hparse := parseScript_format parseMs writeFile formatMs hpreamble fun entry he => (hentries entry he).1
  obtain ⟨_, _, _, _, pieces, _, _, _, _, _, hall, hagain⟩ := unpacked_run hscript fun entry he => (hentries entry he).2.2
  have hser := resent_script readFile baseDir hall
  rw [← serializeScript_reread fun entry he => (hentries entry he).2.1] at hser
  obtain ⟨packed, hpack, hrec⟩ := @cmdPack_ok _ _ nanos _ _ _ _ _ hparse hser
  have hclient := Except.ok.inj (hser.symm.trans hrec.client)
  refine ⟨_, packed, cmdUnpack_ok hheader hrecords hscript opts, hpack, ?_⟩
  intro epochNs merged hmerged hdaemon hdata
  obtain ⟨rest', q', hheader', hrecords'⟩ := readAll_recordingFile epochNs hdata
  obtain ⟨again, m', hrun, huntimed, -⟩ := hagain (stampsOf ms merged)
  rw [hclient, ← hmerged, ← hdaemon] at hrun
  exact ⟨again, cmdUnpack_ok hheader' hrecords' hrun opts, huntimed⟩

/-- The calls of 1.37 as they were recorded, with the daemon's answers. -/
def flaggedRecords : List Record := [⟨0, .clientToDaemon, flaggedBytes⟩, ⟨5, .daemonToClient, verifyDaemon⟩]

/-- A time of 0, as it is written. -/
def zeroText : Str := "0.000".toList

def parseZero (s : Str) : Option Nat := if s = zeroText then some 0 else none

def stampedScript : Script Nat :=
  { flaggedScript with entries := flaggedScript.entries.map fun entry => { entry with timestampMs := some 0 } }

theorem decompile_flaggedRecords : (decompileStreams (stampsOf (fun ns => ns.toNat / 1000000) flaggedRecords)).run
    (.new (splitRecords flaggedRecords).clientBytes, .new (splitRecords flaggedRecords).daemonBytes) =
      (.ok stampedScript, (⟨flaggedBytes, 64⟩, ⟨verifyDaemon, 72⟩)) := by
  decide

theorem stamped_writable : ∀ entry ∈ stampedScript.entries,
    entry.Writable parseZero (fun _ => zeroText) .default ∧ entry.opCall.reread = entry.opCall ∧ ¬entry.opCall.Raw := by
  have hstamp : ∀ ms ∈ some 0, FloatText zeroText ∧ (parseZero zeroText).isSome = true := by
    have hchars : zeroText.all fun c => decide (c ≠ 'm' ∧ c ≠ '\n') := by decide
    intro ms _
    refine ⟨fun c hc => ?_, rfl⟩
    exact of_decide_eq_true (List.all_eq_true.mp hchars c hc)
  have hresponse : ∀ resp ∈ some ⟨"Last".toList, 1, some (.u64 1), none⟩, ∀ l ∈ formatResponseComment resp, OneLine l := by
    have hlines : (formatResponseComment ⟨"Last".toList, 1, some (.u64 1), none⟩).all fun l =>
        decide ('\n' ∉ l ∧ l.getLast? ≠ some '\r') := by decide
    intro resp hresp l hl
    cases hresp
    have hline := of_decide_eq_true (List.all_eq_true.mp hlines l hl)
    exact ⟨hline.1, hline.2⟩
  simp only [stampedScript, flaggedScript, List.map_cons, List.map_nil, List.forall_mem_cons]
  refine ⟨⟨⟨hstamp, trivial, by simp [OpCall.framed], hresponse, List.forall_mem_nil _⟩, rfl, by simp [OpCall.Raw]⟩,
    ⟨⟨hstamp, ?_, by simp [OpCall.framed], hresponse, List.forall_mem_nil _⟩, rfl, by simp [OpCall.Raw]⟩,
    List.forall_mem_nil _⟩
  simp [OpCall.Writable]

theorem unpack_pack_unpack_flagged : ∃ text packed,
    cmdUnpack (fun _ => zeroText) (fun ns => ns.toNat / 1000000) (fun _ _ => false) (recordingFile 7 flaggedRecords) .default =
      .ok text ∧
    cmdPack parseZero (fun ms => UInt64.ofNat (ms * 1000000)) (fun _ => .error []) text none =
      (some (recordingFile 0 packed), .ok ()) ∧
    ∀ (epochNs : UInt64) (merged : List Record), (splitRecords merged).clientBytes = (splitRecords packed).clientBytes →
      (splitRecords merged).daemonBytes = (splitRecords flaggedRecords).daemonBytes →
      (∀ r ∈ merged, r.data.length < 2 ^ 32) →
      ∃ again : Script Nat, cmdUnpack (fun _ => zeroText) (fun ns => ns.toNat / 1000000) (fun _ _ => false)
          (recordingFile epochNs merged) .default =
        .ok (formatScript (fun _ _ => false) (fun _ => zeroText) again .default) ∧
        again.untimed = stampedScript.untimed := by
  obtain ⟨rest, q, hheader, hrecords⟩ := @readAll_recordingFile 7 flaggedRecords (by decide)
  exact unpack_pack_unpack parseZero (fun _ => zeroText) _ _ _ _ none hheader hrecords decompile_flaggedRecords
    ⟨by decide, List.forall_mem_nil _, by decide, by decide, by decide⟩ stamped_writable

end NixWire
