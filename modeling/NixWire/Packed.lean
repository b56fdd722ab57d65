/-
  NixWire.Packed — packing a script into a recording (bin/script.rs, `cmd_pack`).

  The records are the client's handshake and, one each, the script's operations, all from
  client to daemon. Put together they are the script's client bytes (`packed_client`),
  and there is nothing from the daemon (`packed_daemon`). Replaying parses a recording's
  two sides before it sends anything, so it takes no packed script
  (`packed_never_replays`): it misses the daemon's handshake (`parseHandshake_no_daemon`).
-/

import NixWire.HandshakeProofs
import NixWire.Mirror
import NixWire.Recorder
import NixWire.Serialize

namespace NixWire

open Base

section

variable {τ : Type}

-- nanoseconds of a timestamp in milliseconds, and the file system
variable (nanos : τ → UInt64) (readFile : Str → Except Str (List UInt8))

/-- The operations' records: an operation without a timestamp comes 1 ms after the one
    before. -/
def packEntries (version : ProtocolVersion) (baseDir : Option Str) :
    UInt64 → List (Entry τ) → Except SerializeError (List Record)
  | _, [] => .ok []
  | offsetNs, entry :: rest => do
    let entryOffset := entry.timestampMs.elim offsetNs nanos
    let opBytes ← serializeOpCall readFile entry.opCall version baseDir
    let more ← packEntries version baseDir (entryOffset + 1000000) rest
    return ⟨entryOffset, .clientToDaemon, opBytes⟩ :: more

def packRecords (script : Script τ) (baseDir : Option Str) : Except SerializeError (List Record) := do
  let version := script.preamble.protocolVersion
  let ops ← packEntries nanos readFile version baseDir 1000000 script.entries
  return ⟨0, .clientToDaemon, serializeClientHandshake version script.preamble.clientFeatures⟩ :: ops

/-- What `pre_parse_recording` makes of the records. -/
def replayOf (records : List Record) : Res WireError PreParseResult × Streams :=
  preParseRecording.run (.new (splitRecords records).clientBytes, .new (splitRecords records).daemonBytes)

/-! ## The two sides of a packed script -/

theorem packEntries_ok {version : ProtocolVersion} {baseDir : Option Str} {entries : List (Entry τ)} :
    ∀ {offsetNs : UInt64} {records : List Record}, packEntries nanos readFile version baseDir offsetNs entries = .ok records →
      (∀ r ∈ records, r.direction = .clientToDaemon) ∧
        serializeOpCalls readFile version baseDir (entries.map (·.opCall)) = .ok (records.flatMap Record.data) := by
  induction entries with
  | nil =>
    intro offsetNs records h
    cases h
    exact ⟨by simp, rfl⟩
  | cons entry rest ih =>
    intro offsetNs records h
    rw [packEntries] at h
    simp only [List.map_cons, serializeOpCalls]
    cases hop : serializeOpCall readFile entry.opCall version baseDir with
    | error e =>
      rw [hop] at h
      cases h
    | ok opBytes =>
      rw [hop] at h
      cases hmore : packEntries nanos readFile version baseDir (entry.timestampMs.elim offsetNs nanos + 1000000) rest with
      | error e =>
        simp only [bind, Except.bind, hmore] at h
        cases h
      | ok more =>
        simp only [bind, Except.bind, hmore, pure, Except.pure] at h
        cases h
        obtain ⟨hdir, hbytes⟩ := ih hmore
        refine ⟨fun r hr => ?_, ?_⟩
        · rcases List.mem_cons.mp hr with rfl | hr
          · rfl
          · exact hdir r hr
        · simp only [bind, Except.bind, hbytes, pure, Except.pure, List.flatMap_cons]

theorem packRecords_ok {script : Script τ} {baseDir : Option Str} {records : List Record}
    (h : packRecords nanos readFile script baseDir = .ok records) : (∀ r ∈ records, r.direction = .clientToDaemon) ∧
      serializeScript readFile script baseDir = .ok (records.flatMap Record.data) := by
  rw [packRecords] at h
  cases hops : packEntries nanos readFile script.preamble.protocolVersion baseDir 1000000 script.entries with
  | error e =>
    simp only [bind, Except.bind, hops] at h
    cases h
  | ok ops =>
    simp only [bind, Except.bind, hops, pure, Except.pure] at h
    cases h
    obtain ⟨hdir, hbytes⟩ := packEntries_ok nanos readFile hops
    refine ⟨fun r hr => ?_, ?_⟩
    · rcases List.mem_cons.mp hr with rfl | hr
      · rfl
      · exact hdir r hr
    · simp only [serializeScript, hbytes, bind, Except.bind, pure, Except.pure, List.flatMap_cons]

/-- The client's side of the recording is the script. -/
theorem packed_client {script : Script τ} {baseDir : Option Str} {records : List Record}
    (h : packRecords nanos readFile script baseDir = .ok records) :
    serializeScript readFile script baseDir = .ok (splitRecords records).clientBytes := by
  obtain ⟨hdir, hbytes⟩ := packRecords_ok nanos readFile h
  have hall : records.filter (fun r => r.direction = .clientToDaemon) = records :=
    List.filter_eq_self.mpr fun r hr => by simpa using hdir r hr
  have hsplit := Recorder.splitRecords_bytes records .clientToDaemon
  rw [Recorder.chunksOf, hall] at hsplit
  rw [hbytes, List.flatMap_def]
  exact congrArg Except.ok hsplit.symm

/-- There is no daemon's side. -/
theorem packed_daemon {script : Script τ} {baseDir : Option Str} {records : List Record}
    (h : packRecords nanos readFile script baseDir = .ok records) : (splitRecords records).daemonBytes = [] := by
  have hdir := (packRecords_ok nanos readFile h).1
  have hnone : records.filter (fun r => r.direction = .daemonToClient) = [] :=
    List.filter_eq_nil_iff.mpr fun r hr => by simp [hdir r hr]
  have hsplit := Recorder.splitRecords_bytes records .daemonToClient
  rw [Recorder.chunksOf, hnone] at hsplit
  exact hsplit

/-! ## Replaying it -/

/-- A handshake needs the daemon's bytes. -/
theorem parseHandshake_no_daemon (clientBytes : List UInt8) {info : HandshakeInfo} {m : Streams} :
    parseHandshake.run (MemReader.new clientBytes, MemReader.new []) ≠ (.ok info, m) := by
  intro h
  obtain ⟨⟨c, d⟩, hrun, -⟩ := mem_runs (parseHandshake_rel MemReader.mirrors MemReader.mirrors) h
  obtain ⟨cw, sw, cv, sv, v, x, y, cb, db, -, -, -, -, -, -, hd, -⟩ := parseHandshake_ok_iff.mp hrun
  have hlen := congrArg List.length hd
  simp only [List.length_nil, List.length_append, wordBytes_length] at hlen
  omega

/-- A packed script is replayed if its records, read back from their file, are accepted
    with the script's version and its operations in order. -/
def Replays (script : Script τ) (baseDir : Option Str) : Prop :=
  ∃ records rest q result m, packRecords nanos readFile script baseDir = .ok records ∧
    readHeader.run (recordingFile 0 records) = (.ok (.new 0), rest) ∧ readAll.run rest = (.ok records, q) ∧
    replayOf records = (.ok result, m) ∧ result.clientVersion = script.preamble.protocolVersion ∧
    result.ops = script.entries.map fun entry => some entry.opCall.op

theorem packed_never_replays (script : Script τ) (baseDir : Option Str) : ¬Replays nanos readFile script baseDir := by
  intro h
  obtain ⟨records, rest, q, result, m, hpack, -, -, hreplay, -⟩ := h
  rw [replayOf, packed_daemon nanos readFile hpack, preParseRecording] at hreplay
  obtain ⟨info, m', hinfo, -⟩ := Rd.bind_ok_iff.mp hreplay
  exact parseHandshake_no_daemon _ hinfo

end

/-- A session of one operation, packed. -/
def syncScript : Script Nat where
  preamble := ⟨.new 1 35, [], [], none, none, none⟩
  entries := [⟨none, .noArgs .syncWithGC, none, []⟩]

def syncRecords : List Record :=
  [⟨0, .clientToDaemon, serializeClientHandshake (.new 1 35) []⟩, ⟨1000000, .clientToDaemon, writeU64 Op.syncWithGC.code ++ []⟩]

theorem pack_syncScript : packRecords (fun ms => UInt64.ofNat (ms * 1000000)) (fun _ => .error []) syncScript none =
    .ok syncRecords := rfl

/-- It reads back as it was written, and replaying it fails to read a word from the daemon. -/
theorem packed_rejected : packRecords (fun ms => UInt64.ofNat (ms * 1000000)) (fun _ => .error []) syncScript none =
    .ok syncRecords ∧
    (∃ rest q, readHeader.run (recordingFile 0 syncRecords) = (.ok (.new 0), rest) ∧
      readAll.run rest = (.ok syncRecords, q)) ∧
    (replayOf syncRecords).1 = .stop (.err .readU64) := by
  have hshort : ∀ r ∈ syncRecords, r.data.length < 2 ^ 32 := by decide
  exact ⟨pack_syncScript, readAll_recordingFile 0 hshort, by decide⟩

end NixWire
