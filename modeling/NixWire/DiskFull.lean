/-
  NixWire.DiskFull — the recorder when its file fails (record.rs, `copy_and_record`;
  nix-wire-recording/src/lib.rs, `RecordingWriter`).

  The tasks of `Recorder` write through one buffered file, under a lock: a record's four
  fields one after the other, given up at the first that fails, and then a flush; errors
  are logged or dropped, and the chunk is forwarded all the same. The file takes `room`
  bytes and no more.

  - `full_disk_harmless`: the proxy has the same runs whatever the room.
  - `killed_recording`: at any instant the file is the front of the recording of what was
    recorded, as long as there was room for, and it reads back as some of the first of
    these records or not at all.
-/

import NixWire.Base.Buffered
import NixWire.Accepted
import NixWire.Recorder

namespace NixWire.Recorder

open Base

/-! ## The file -/

/-- The buffer of a `BufWriter`. -/
def fileBuf : Nat := 8 * 1024

/-- The writes of `Header::write_to`. -/
def headerPieces (h : Header) : List (List UInt8) :=
  [recordingMagic, leU16 h.version, leU16 h.flags, wordBytes h.epochNs, leU32 0]

/-- The writes of `Record::write_to`. -/
def recordPieces (r : Record) : List (List UInt8) :=
  [wordBytes r.offsetNs, [r.direction.code], leU32 (UInt32.ofNat r.data.length), r.data]

/-- `RecordingWriter::new`. -/
def newWriter (epochNs : UInt64) (room : Nat) : BufFile × Bool :=
  (BufFile.create room).writePieces fileBuf (headerPieces (.new epochNs))

/-- The file's lock: free, or with a task that has these writes of its record left. -/
inductive Lock where
  | free
  | held (d : Direction) (record : Record) (left : List (List UInt8))

/-- The record being written. -/
def Lock.records : Lock → List Record
  | .free => []
  | .held _ record _ => [record]

structure Session where
  proxy : Proxy
  file : BufFile
  lock : Lock

def start (epochNs : UInt64) (room : Nat) : Session := ⟨init epochNs, (newWriter epochNs room).1, .free⟩

inductive FileStep : Session → Session → Prop
  /-- Any step but the writing of a record. -/
  | other {s t : Proxy} (file : BufFile) (lock : Lock) : Step s t → t.records = s.records →
      FileStep ⟨s, file, lock⟩ ⟨t, file, lock⟩
  | lock (s : Proxy) (file : BufFile) (d : Direction) (record : Record) : (s.task d).stage = .stamped record →
      FileStep ⟨s, file, .free⟩ ⟨s, file, .held d record (recordPieces record)⟩
  | write (s : Proxy) (file : BufFile) (d : Direction) (record : Record) (p : List UInt8) (ps : List (List UInt8)) :
      (file.writeAll fileBuf p).2 = true →
      FileStep ⟨s, file, .held d record (p :: ps)⟩ ⟨s, (file.writeAll fileBuf p).1, .held d record ps⟩
  | writeFails (s : Proxy) (file : BufFile) (d : Direction) (record : Record) (p : List UInt8) (ps : List (List UInt8)) :
      (file.writeAll fileBuf p).2 = false →
      FileStep ⟨s, file, .held d record (p :: ps)⟩ ⟨s, (file.writeAll fileBuf p).1, .held d record []⟩
  | unlock (s : Proxy) (file : BufFile) (d : Direction) (record : Record) :
      FileStep ⟨s, file, .held d record []⟩ ⟨s.afterWrite d record, file.flush.1, .free⟩

theorem headerPieces_flatten (h : Header) : (headerPieces h).flatten = h.bytes := by
  simp [headerPieces, Header.bytes]

theorem recordPieces_flatten (r : Record) : (recordPieces r).flatten = r.bytes := by
  simp [recordPieces, Record.bytes]

theorem recordingFile_snoc (epochNs : UInt64) (records : List Record) (r : Record) :
    recordingFile epochNs (records ++ [r]) = recordingFile epochNs records ++ r.bytes := by
  simp [recordingFile]

/-- The header goes to the buffer. -/
theorem newWriter_eq (epochNs : UInt64) (room : Nat) : newWriter epochNs room = (⟨[], room, (Header.new epochNs).bytes⟩, true) := by
  have hfits : ∀ (buf bs : List UInt8), bs.length < fileBuf - buf.length →
      BufFile.writeAll fileBuf ⟨[], room, buf⟩ bs = (⟨[], room, buf ++ bs⟩, true) := by
    intro buf bs h
    rw [BufFile.writeAll, if_pos h]
  rw [← headerPieces_flatten]
  simp only [newWriter, BufFile.create, headerPieces, BufFile.writePieces]
  simp (disch := simp [recordingMagic, fileBuf]) only [hfits]
  simp

/-! ## The proxy's side -/

theorem step_records {s t : Proxy} (h : Step s t) :
    t.records = s.records ∨ ∃ d record, (s.task d).stage = .stamped record ∧ t = s.afterWrite d record := by
  cases h with
  | writeRecord d record hstage => exact Or.inr ⟨d, record, hstage, rfl⟩
  | _ => exact Or.inl rfl

/-- A task that waits for the lock, or has it, waits through the other steps. -/
theorem step_waits {s t : Proxy} (h : Step s t) (hrecords : t.records = s.records) {d : Direction} {record : Record}
    (hstage : (s.task d).stage = .stamped record) : (t.task d).stage = .stamped record := by
  have hset : ∀ (d' : Direction) (u : Task), (s.task d').stage ≠ .stamped record →
      ((s.set d' u).task d).stage = .stamped record := by
    intro d' u hne
    have hd : d ≠ d' := fun h => hne (h ▸ hstage)
    rw [set_task_ne _ _ hd]
    exact hstage
  cases h with
  | tick now _ => exact hstage
  | writeRecord d' record' _ =>
    have hlen := congrArg List.length hrecords
    simp [Proxy.afterWrite] at hlen
  | read d' chunk h _ _ => exact hset d' _ (by rw [h]; simp)
  | readEnds d' h => exact hset d' _ (by rw [h]; simp)
  | takeTime d' data h => exact hset d' _ (by rw [h]; simp)
  | forward d' n left h => exact hset d' _ (by rw [h]; simp)
  | next d' h => exact hset d' _ (by rw [h]; simp)
  | forwardFails d' left h => exact hset d' _ (by rw [h]; simp)

/-! ## The file's side -/

variable {epochNs : UInt64} {room : Nat}

/-- What the file holds: all that was recorded, with what of the record at hand was written. -/
def FileHolds (epochNs : UInt64) (room : Nat) (s : Proxy) (file : BufFile) : Lock → Prop
  | .free => file.Holds room (recordingFile epochNs s.records) ∧
      file.disk = if s.records = [] then [] else (recordingFile epochNs s.records).take room
  | .held d record left => (s.task d).stage = .stamped record ∧
      ∃ written, written ++ left.flatten = record.bytes ∧ file.Holds room (recordingFile epochNs s.records ++ written)

theorem start_holds (epochNs : UInt64) (room : Nat) :
    FileHolds epochNs room (init epochNs) (newWriter epochNs room).1 .free := by
  rw [newWriter_eq]
  refine ⟨⟨Nat.zero_add room, Or.inl ?_⟩, rfl⟩
  simp [recordingFile, init]

theorem fileStep_holds (st st' : Session) (h : FileStep st st') (hs : FileHolds epochNs room st.proxy st.file st.lock) :
    FileHolds epochNs room st'.proxy st'.file st'.lock := by
  have hbuf : 0 < fileBuf := by decide
  cases h with
  | @other s t file lock hstep hrecords =>
    cases lock with
    | free =>
      show file.Holds room (recordingFile epochNs t.records) ∧ _
      rw [hrecords]
      exact hs
    | held d record left =>
      show (t.task d).stage = .stamped record ∧ _
      rw [hrecords]
      exact ⟨step_waits hstep hrecords hs.1, hs.2⟩
  | lock s file d record hstage =>
    refine ⟨hstage, [], recordPieces_flatten record, ?_⟩
    rw [List.append_nil]
    exact hs.1
  | write s file d record p ps hok =>
    obtain ⟨hstage, written, hbytes, hholds⟩ := hs
    refine ⟨hstage, written ++ p, ?_, ?_⟩
    · rw [← hbytes, List.flatten_cons, List.append_assoc]
    · rw [← List.append_assoc]
      exact (hholds.writeAll hbuf p).1
  | writeFails s file d record p ps hfails =>
    obtain ⟨hstage, written, hbytes, hholds⟩ := hs
    obtain ⟨hnext, hroom⟩ := hholds.writeAll hbuf p
    refine ⟨hstage, record.bytes, List.append_nil _, ?_⟩
    have hall := hnext.full (hroom hfails) ps.flatten
    rw [List.append_assoc, List.append_assoc] at hall
    rw [← hbytes]
    exact hall
  | unlock s file d record =>
    obtain ⟨-, written, hbytes, hholds⟩ := hs
    rw [List.flatten_nil, List.append_nil] at hbytes
    rw [hbytes, ← recordingFile_snoc] at hholds
    refine ⟨hholds.flush, ?_⟩
    rw [if_neg (by simp [Proxy.afterWrite])]
    exact hholds.flush_disk

/-- With the file left out, a step is the proxy's, or none. -/
theorem fileStep_proxy {st st' : Session} (h : FileStep st st') (hs : FileHolds epochNs room st.proxy st.file st.lock) :
    st'.proxy = st.proxy ∨ Step st.proxy st'.proxy := by
  cases h with
  | other file lock hstep _ => exact Or.inr hstep
  | unlock s file d record => exact Or.inr (.writeRecord s d record hs.1)
  | _ => exact Or.inl rfl

theorem session_run {st : Session} (h : Run FileStep (start epochNs room) st) :
    Run Step (init epochNs) st.proxy ∧ FileHolds epochNs room st.proxy st.file st.lock := by
  induction h with
  | refl => exact ⟨.refl, start_holds epochNs room⟩
  | tail _ hstep ih =>
    obtain ⟨hrun, hholds⟩ := ih
    refine ⟨?_, fileStep_holds _ _ hstep hholds⟩
    rcases fileStep_proxy hstep hholds with heq | hproxy
    · rw [heq]
      exact hrun
    · exact hrun.tail hproxy

/-! ## The file leaves the proxy alone -/

/-- A record's writes come to an end, whatever becomes of them. -/
theorem writes_end (s : Proxy) (d : Direction) (record : Record) (ps : List (List UInt8)) (file : BufFile) :
    ∃ file', Run FileStep ⟨s, file, .held d record ps⟩ ⟨s, file', .held d record []⟩ := by
  induction ps generalizing file with
  | nil => exact ⟨file, .refl⟩
  | cons p ps ih =>
    cases hok : (file.writeAll fileBuf p).2 with
    | false => exact ⟨_, .single (.writeFails s file d record p ps hok)⟩
    | true =>
      obtain ⟨file', hrun⟩ := ih (file.writeAll fileBuf p).1
      exact ⟨file', .head (.write s file d record p ps hok) hrun⟩

/-- Whatever room the file has, the proxy has the runs it has with a file that does not fail. -/
theorem full_disk_harmless (epochNs : UInt64) (room : Nat) (s : Proxy) :
    Run Step (init epochNs) s ↔ ∃ file, Run FileStep (start epochNs room) ⟨s, file, .free⟩ := by
  constructor
  · intro h
    induction h with
    | refl => exact ⟨_, .refl⟩
    | @tail s t _ hstep ih =>
      obtain ⟨file, hrun⟩ := ih
      rcases step_records hstep with hrecords | ⟨d, record, hstage, rfl⟩
      · exact ⟨file, hrun.tail (.other file .free hstep hrecords)⟩
      · obtain ⟨file', hwrites⟩ := writes_end s d record (recordPieces record) file
        have hlocked := hrun.tail (.lock s file d record hstage)
        exact ⟨file'.flush.1, (hlocked.trans hwrites).tail (.unlock s file' d record)⟩
  · rintro ⟨file, hrun⟩
    exact (session_run hrun).1

/-! ## What a recording cut anywhere reads back as -/

/-- The front of a recording gives some of its first records, if it is read at all. -/
theorem readRecording_front {epochNs : UInt64} {records : List Record} (hdata : ∀ r ∈ records, r.data.length < 2 ^ 32)
    {file : List UInt8} (hfile : file <+: recordingFile epochNs records) {x : Header × List Record}
    (h : (readRecording.run file).1 = .ok x) : ∃ k, x = (.new epochNs, records.take k) := by
  rcases readHeader_whole epochNs _ file hfile with ⟨rest, rfl, hrest, hheader⟩ | ⟨-, e, q, hheader⟩
  · obtain ⟨hok, hstop⟩ := readAll_cut hdata hrest []
    have hall : (readRecording.run ((Header.new epochNs).bytes ++ rest)).1 =
        (((fun records => (Header.new epochNs, records)) <$> readAll).run rest).1 := by
      rw [readRecording, Rd.bind_ok hheader, map_eq_pure_bind]
    rw [hall] at h
    obtain ⟨read, hread, rfl⟩ := Rd.map_ok_iff.mp (Prod.ext h rfl)
    rw [readAll] at hread
    by_cases hends : ∃ k, EndsAfter records k rest
    · obtain ⟨k, hk⟩ := hends
      obtain ⟨q, hrun⟩ := hok k hk
      cases hrun.symm.trans hread
      exact ⟨k, rfl⟩
    · obtain ⟨e, q, hrun⟩ := hstop fun k hk => hends ⟨k, hk⟩
      cases hrun.symm.trans hread
  · rw [readRecording, Rd.bind_stop hheader] at h
    cases h

/-- The records written, and the one at hand. -/
def Session.begun (st : Session) : List Record := st.proxy.records ++ st.lock.records

theorem session_front {st : Session} (h : FileHolds epochNs room st.proxy st.file st.lock) :
    st.file.disk <+: recordingFile epochNs st.begun := by
  obtain ⟨s, file, lock⟩ := st
  cases lock with
  | free =>
    show file.disk <+: recordingFile epochNs (s.records ++ [])
    rw [List.append_nil]
    exact h.1.disk_front
  | held d record left =>
    obtain ⟨-, written, hbytes, hholds⟩ := h
    show file.disk <+: recordingFile epochNs (s.records ++ [record])
    rw [recordingFile_snoc, ← hbytes, ← List.append_assoc]
    exact hholds.disk_front.trans (List.prefix_append _ _)

theorem begun_small {st : Session} (hrun : Run Step (init epochNs) st.proxy)
    (h : FileHolds epochNs room st.proxy st.file st.lock) : ∀ r ∈ st.begun, r.data.length < 2 ^ 32 := by
  obtain ⟨s, file, lock⟩ := st
  have hinv := run_inv hrun
  intro r hr
  rcases List.mem_append.mp hr with hr | hr
  · exact records_small hinv r hr
  · cases lock with
    | free => cases hr
    | held d record left =>
      cases List.mem_singleton.mp hr
      -- a record at hand is of a chunk that was read
      have hd := hinv d
      have hchunk : r.data ∈ (s.task d).chunks := by
        rw [hd.chunks, h.1]
        simp [Stage.held]
      have hlen := (hd.small r.data hchunk).2
      have hbuf : bufSize < 2 ^ 32 := by decide
      omega

/-- At any instant, the file is the front of the recording; between records it has all there is
    room for; and it reads back as some of the first records, or not at all. -/
theorem killed_recording {st : Session} (h : Run FileStep (start epochNs room) st) :
    st.file.disk <+: recordingFile epochNs st.begun ∧
      (∀ s file, st = ⟨s, file, .free⟩ → s.records ≠ [] → file.disk = (recordingFile epochNs s.records).take room) ∧
      ∀ x, (readRecording.run st.file.disk).1 = .ok x → ∃ k, x = (.new epochNs, st.begun.take k) := by
  obtain ⟨hrun, hholds⟩ := session_run h
  refine ⟨session_front hholds, ?_, fun x hx => ?_⟩
  · rintro s file rfl hne
    rw [hholds.2, if_neg hne]
  · exact readRecording_front (begun_small hrun hholds) (session_front hholds) hx

/-- A record of two bytes in a file that has room for the header and six bytes more. -/
theorem killed_recording_six : ∃ st, Run FileStep (start 7 30) st ∧
    st.file.disk = (recordingFile 7 [⟨7 - 7, .clientToDaemon, [1, 2]⟩]).take 30 := by
  let record : Record := ⟨7 - 7, .clientToDaemon, [1, 2]⟩
  let s₁ := (init 7).afterRead .clientToDaemon [1, 2]
  let s₂ := s₁.afterStamp .clientToDaemon [1, 2]
  let file := (newWriter 7 30).1
  have h₁ : FileStep (start 7 30) ⟨s₁, file, .free⟩ :=
    .other file .free (.read (init 7) .clientToDaemon [1, 2] rfl (by decide) (by decide)) rfl
  have h₂ : FileStep ⟨s₁, file, .free⟩ ⟨s₂, file, .free⟩ := .other file .free (.takeTime s₁ .clientToDaemon [1, 2] rfl) rfl
  have h₃ : FileStep ⟨s₂, file, .free⟩ ⟨s₂, file, .held .clientToDaemon record (recordPieces record)⟩ :=
    .lock s₂ file .clientToDaemon record rfl
  obtain ⟨file', hwrites⟩ := writes_end s₂ .clientToDaemon record (recordPieces record) file
  have hrun := (((Relation.ReflTransGen.single h₁).tail h₂).tail h₃).trans hwrites
  have hall := hrun.tail (.unlock s₂ file' .clientToDaemon record)
  obtain ⟨-, hdisk, -⟩ := killed_recording hall
  exact ⟨_, hall, hdisk (s₂.afterWrite .clientToDaemon record) file'.flush.1 rfl (List.cons_ne_nil _ _)⟩

end NixWire.Recorder
