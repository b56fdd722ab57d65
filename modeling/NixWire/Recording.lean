/-
  NixWire.Recording — the recording file format (nix-wire-recording/src/lib.rs).

  A header of 24 bytes, then the records one after the other, with no end mark.
  `readAll` takes a read of a record's first 8 bytes that comes short as the end of the
  file. So of a file cut short it gives the whole records when the cut falls less than 8
  bytes into the next one, and fails otherwise (`recording_cut`).

  The length field of a record has 32 bits, and `writeTo` cuts the length to them without
  an error: what it wrote reads back as the record exactly when the data has fewer than
  2^32 bytes (`writeTo_readRecord`).
-/

import NixWire.Base.Bytes
import NixWire.Base.Loop
import NixWire.Base.Number

namespace NixWire

open Base

/-- "NIXWREC" and a zero byte. -/
def recordingMagic : List UInt8 := [0x4e, 0x49, 0x58, 0x57, 0x52, 0x45, 0x43, 0x00]

def recordingVersion : UInt16 := 1

structure Header where
  version : UInt16
  flags : UInt16
  epochNs : UInt64
  deriving DecidableEq, Repr

def Header.new (epochNs : UInt64) : Header := ⟨recordingVersion, 0, epochNs⟩

inductive Direction where
  | clientToDaemon
  | daemonToClient
  deriving DecidableEq, Repr

namespace Direction

def code : Direction → UInt8
  | clientToDaemon => 0
  | daemonToClient => 1

def fromU8 (v : UInt8) : Option Direction :=
  if v = 0 then some clientToDaemon else if v = 1 then some daemonToClient else none

@[simp] theorem fromU8_code (d : Direction) : fromU8 d.code = some d := by cases d <;> rfl

end Direction

structure Record where
  offsetNs : UInt64
  direction : Direction
  data : List UInt8
  deriving DecidableEq, Repr

/-! ## Writing -/

def leU16 (v : UInt16) : List UInt8 := leBytes 2 v.toNat

def leU32 (v : UInt32) : List UInt8 := leBytes 4 v.toNat

/-- `Header::write_to`. -/
def Header.bytes (h : Header) : List UInt8 :=
  recordingMagic ++ leU16 h.version ++ leU16 h.flags ++ wordBytes h.epochNs ++ leU32 0

/-- `Record::write_to`; the length is cut to 32 bits. -/
def Record.bytes (r : Record) : List UInt8 :=
  wordBytes r.offsetNs ++ [r.direction.code] ++ leU32 (UInt32.ofNat r.data.length) ++ r.data

/-- What a `RecordingWriter` writes: the header, then each record. -/
def recordingFile (epochNs : UInt64) (records : List Record) : List UInt8 :=
  (Header.new epochNs).bytes ++ records.flatMap Record.bytes

/-! ## Reading -/

inductive RecordingError where
  | readMagic
  | notARecording (magic : List UInt8)
  | unsupportedVersion (version : UInt16)
  | unexpectedEof
  | invalidDirection (byte : UInt8)
  deriving DecidableEq, Repr

/-- `{:?}` of a byte array. -/
def debugBytes (bs : List UInt8) : Str :=
  "[".toList ++ List.intercalate ", ".toList (bs.map fun b => decimal b.toNat) ++ "]".toList

def RecordingError.message : RecordingError → Str
  | readMagic => "failed to read recording magic".toList
  | notARecording magic =>
    "not a nix-wire recording (magic: ".toList ++ debugBytes magic ++ ", expected: ".toList ++ debugBytes recordingMagic
      ++ ")".toList
  | unsupportedVersion version =>
    "unsupported recording version ".toList ++ decimal version.toNat ++ " (expected ".toList
      ++ decimal recordingVersion.toNat ++ ")".toList
  | unexpectedEof => "failed to fill whole buffer".toList
  | invalidDirection byte => "invalid direction byte: ".toList ++ decimal byte.toNat

section

variable {R : Type} [BufRead R]

def readLeU16 : Rd RecordingError R UInt16 := (fun bs => UInt16.ofNat (leNat bs)) <$> readExact .unexpectedEof 2

def readLeU32 : Rd RecordingError R UInt32 := (fun bs => UInt32.ofNat (leNat bs)) <$> readExact .unexpectedEof 4

def readLeU64 : Rd RecordingError R UInt64 := wordOf <$> readExact .unexpectedEof 8

def readHeader : Rd RecordingError R Header := do
  let magic ← readExact .readMagic 8
  if magic ≠ recordingMagic then Rd.fail (.notARecording magic)
  else
    let version ← readLeU16
    if version ≠ recordingVersion then Rd.fail (.unsupportedVersion version)
    else
      let flags ← readLeU16
      let epochNs ← readLeU64
      let _ ← readLeU32
      return { version := version, flags := flags, epochNs := epochNs }

/-- A record after its first 8 bytes. -/
def readRecordRest (offsetNs : UInt64) : Rd RecordingError R Record := do
  let dirByte ← readExact .unexpectedEof 1
  match Direction.fromU8 (dirByte.headD 0) with
  | none => Rd.fail (.invalidDirection (dirByte.headD 0))
  | some direction =>
    let len ← readLeU32
    let data ← readExact .unexpectedEof len.toNat
    return { offsetNs := offsetNs, direction := direction, data := data }

/-- The next record, or none at the end of the file. -/
def readRecord : Rd RecordingError R (Option Record) := do
  match ← readLeU64.attempt with
  | .error .unexpectedEof => return none
  | .error e => Rd.fail e
  | .ok offsetNs => some <$> readRecordRest offsetNs

def readAllPass (records : List Record) : Rd RecordingError R (List Record ⊕ List Record) := do
  match ← readRecord with
  | some record => return .inl (records ++ [record])
  | none => return .inr records

def readAll : Rd RecordingError R (List Record) := readLoop readAllPass []

end

/-! ## Reads of a file cut short -/

theorem leNat_leU16 (v : UInt16) : UInt16.ofNat (leNat (leU16 v)) = v := by
  apply UInt16.toNat_inj.mp
  have := v.toNat_lt
  rw [leU16, leNat_leBytes, UInt16.toNat_ofNat']
  omega

theorem leNat_leU32 (v : UInt32) : UInt32.ofNat (leNat (leU32 v)) = v := by
  apply UInt32.toNat_inj.mp
  have := v.toNat_lt
  rw [leU32, leNat_leBytes, UInt32.toNat_ofNat']
  omega

@[simp] theorem leU16_length (v : UInt16) : (leU16 v).length = 2 := leBytes_length 2 _

@[simp] theorem leU32_length (v : UInt32) : (leU32 v).length = 4 := leBytes_length 4 _

/-- Of bytes that begin like `bs`, `x` reads `a` off all of `bs`, or fails if they are fewer. -/
def ReadsWhole {α : Type} (x : Rd RecordingError (List UInt8) α) (bs : List UInt8) (a : α) : Prop :=
  ∀ more s, s <+: bs ++ more →
    (∃ t, s = bs ++ t ∧ t <+: more ∧ x.run s = (.ok a, t)) ∨
      s.length < bs.length ∧ ∃ e q, x.run s = (.stop (.err e), q)

section

variable {α β : Type}

theorem ReadsWhole.pure (a : α) : ReadsWhole (Pure.pure a) [] a := fun _ s h => Or.inl ⟨s, rfl, h, rfl⟩

theorem ReadsWhole.bind {x : Rd RecordingError (List UInt8) α} {f : α → Rd RecordingError (List UInt8) β}
    {as bs : List UInt8} {a : α} {b : β} (hx : ReadsWhole x as a) (hf : ReadsWhole (f a) bs b) :
    ReadsWhole (x >>= f) (as ++ bs) b := by
  intro more s hs
  rw [List.append_assoc] at hs
  rcases hx _ s hs with ⟨t, rfl, ht, hrun⟩ | ⟨hlt, e, q, hrun⟩
  · rw [Rd.bind_ok hrun]
    rcases hf more t ht with ⟨u, rfl, hu, hrun'⟩ | ⟨hlt, e, q, hrun'⟩
    · exact Or.inl ⟨u, (List.append_assoc _ _ _).symm, hu, hrun'⟩
    · exact Or.inr ⟨by simp only [List.length_append]; omega, e, q, hrun'⟩
  · exact Or.inr ⟨by simp only [List.length_append]; omega, e, q, Rd.bind_stop hrun⟩

theorem ReadsWhole.map {x : Rd RecordingError (List UInt8) α} {bs : List UInt8} {a : α} (hx : ReadsWhole x bs a)
    (f : α → β) : ReadsWhole (f <$> x) bs (f a) := by
  rw [map_eq_pure_bind]
  rw [← List.append_nil bs]
  exact hx.bind (ReadsWhole.pure (f a))

/-- With all the bytes there. -/
theorem ReadsWhole.run {x : Rd RecordingError (List UInt8) α} {bs : List UInt8} {a : α} (hx : ReadsWhole x bs a)
    (rest : List UInt8) : x.run (bs ++ rest) = (.ok a, rest) := by
  rcases hx rest (bs ++ rest) List.prefix_rfl with ⟨t, ht, -, hrun⟩ | ⟨hlt, -⟩
  · cases List.append_cancel_left ht
    exact hrun
  · simp at hlt

theorem readExact_whole (e : RecordingError) {bs : List UInt8} {n : Nat} (hn : bs.length = n) :
    ReadsWhole (readExact e n) bs bs := by
  intro more s h
  by_cases hlen : n ≤ s.length
  · left
    obtain ⟨t, rfl⟩ : bs <+: s := List.prefix_of_prefix_length_le (List.prefix_append bs more) h (by omega)
    exact ⟨t, rfl, (List.prefix_append_right_inj bs).mp h, readExact_append e hn⟩
  · right
    rw [readExact_bytes, if_neg hlen]
    exact ⟨by omega, e, [], rfl⟩

end

theorem readLeU16_whole (v : UInt16) : ReadsWhole readLeU16 (leU16 v) v := by
  have h := (readExact_whole .unexpectedEof (leU16_length v)).map fun bs => UInt16.ofNat (leNat bs)
  rwa [leNat_leU16] at h

theorem readLeU32_whole (v : UInt32) : ReadsWhole readLeU32 (leU32 v) v := by
  have h := (readExact_whole .unexpectedEof (leU32_length v)).map fun bs => UInt32.ofNat (leNat bs)
  rwa [leNat_leU32] at h

theorem readLeU64_whole (w : UInt64) : ReadsWhole readLeU64 (wordBytes w) w := by
  have h := (readExact_whole .unexpectedEof (wordBytes_length w)).map wordOf
  rwa [word_bytes] at h

theorem readHeader_whole (epochNs : UInt64) : ReadsWhole readHeader (Header.new epochNs).bytes (.new epochNs) := by
  have hbytes : (Header.new epochNs).bytes =
      recordingMagic ++ (leU16 recordingVersion ++ (leU16 0 ++ (wordBytes epochNs ++ (leU32 0 ++ [])))) := by
    simp [Header.bytes, Header.new]
  rw [hbytes, readHeader]
  refine (readExact_whole _ rfl).bind ?_
  rw [if_neg (by simp)]
  refine (readLeU16_whole _).bind ?_
  rw [if_neg (by simp)]
  refine (readLeU16_whole _).bind ?_
  refine (readLeU64_whole _).bind ?_
  refine (readLeU32_whole _).bind ?_
  exact ReadsWhole.pure (Header.new epochNs)

/-- A record after its first 8 bytes. -/
def Record.restBytes (r : Record) : List UInt8 := [r.direction.code] ++ (leU32 (UInt32.ofNat r.data.length) ++ r.data)

theorem Record.bytes_eq (r : Record) : r.bytes = wordBytes r.offsetNs ++ r.restBytes := by
  simp [Record.bytes, Record.restBytes]

theorem readRecordRest_whole {r : Record} (h : r.data.length < 2 ^ 32) :
    ReadsWhole (readRecordRest r.offsetNs) r.restBytes r := by
  have hlen : r.data.length = (UInt32.ofNat r.data.length).toNat := by
    rw [UInt32.toNat_ofNat', Nat.mod_eq_of_lt h]
  rw [Record.restBytes, readRecordRest]
  refine (readExact_whole _ rfl).bind ?_
  simp only [List.headD_cons, Direction.fromU8_code]
  refine (readLeU32_whole _).bind ?_
  have hdata := (readExact_whole .unexpectedEof hlen).map fun data => Record.mk r.offsetNs r.direction data
  rwa [map_eq_pure_bind] at hdata

/-! ## Records of a file cut short -/

theorem readExact_short {ε : Type} (e : ε) {n : Nat} {s : List UInt8} (h : s.length < n) :
    (readExact e n).run s = (.stop (.err e), []) := by
  rw [readExact_bytes, if_neg (by omega)]

/-- A number of `n` bytes off fewer. -/
theorem readNumber_short {ε α : Type} (f : List UInt8 → α) (e : ε) {n : Nat} {s : List UInt8} (h : s.length < n) :
    (f <$> readExact e n : Rd ε _ α).run s = (.stop (.err e), []) := by
  rw [Rd.map_stop_iff]
  exact readExact_short e h

section

variable {r : Record} (h : r.data.length < 2 ^ 32)

/-- Fewer than 8 bytes are the end of the file. -/
theorem readRecord_short {s : List UInt8} (hs : s.length < 8) : readRecord.run s = (.ok none, []) := by
  have hword : (readLeU64 : Rd RecordingError (List UInt8) UInt64).run s = (.stop (.err .unexpectedEof), []) :=
    readNumber_short wordOf _ hs
  have hattempt : (readLeU64.attempt : Rd RecordingError (List UInt8) _).run s = (.ok (.error .unexpectedEof), []) := by
    simp only [Rd.attempt, hword]
  rw [readRecord, Rd.bind_ok hattempt]
  rfl

theorem readRecord_word (w : UInt64) (t : List UInt8) :
    readRecord.run (wordBytes w ++ t) = (some <$> readRecordRest w).run t := by
  rw [readRecord, Rd.bind_ok (Rd.attempt_ok ((readLeU64_whole w).run t))]

include h

theorem readRecord_bytes (t : List UInt8) : readRecord.run (r.bytes ++ t) = (.ok (some r), t) := by
  rw [Record.bytes_eq, List.append_assoc, readRecord_word]
  exact ((readRecordRest_whole h).map some).run t

/-- A record cut after its first 8 bytes. -/
theorem readRecord_cut {s more : List UInt8} (hs : s <+: r.bytes ++ more) (hlo : 8 ≤ s.length)
    (hhi : s.length < r.bytes.length) : ∃ e q, readRecord.run s = (.stop (.err e), q) := by
  rw [Record.bytes_eq, List.append_assoc] at hs
  obtain ⟨t, rfl⟩ : wordBytes r.offsetNs <+: s :=
    List.prefix_of_prefix_length_le (List.prefix_append _ _) hs (by simpa using hlo)
  have ht := (List.prefix_append_right_inj _).mp hs
  rw [readRecord_word]
  rcases ((readRecordRest_whole h).map some) more t ht with ⟨u, rfl, -, -⟩ | ⟨-, e, q, hrun⟩
  · rw [Record.bytes_eq] at hhi
    simp only [List.length_append] at hhi
    omega
  · exact ⟨e, q, hrun⟩

end

/-! ## The reader's loop -/

theorem readRecordRest_forward (w : UInt64) : Forward (readRecordRest w : Rd _ (List UInt8) _) := by
  refine (readExact_forward _ _).bind fun dirByte => ?_
  split
  · exact Forward.fail _
  · exact ((readExact_forward _ _).map _).bind fun _ => (readExact_forward _ _).bind fun _ => Forward.pure _

theorem readAllPass_shrinks : Rd.Shrinks (R := List UInt8) BufRead.size 8 readAllPass := by
  intro records records' s q hrun
  rw [readAllPass, Rd.bind_ok_iff] at hrun
  obtain ⟨o, t, hrecord, hpass⟩ := hrun
  show q.length + 8 ≤ s.length
  rcases word_or_short s with ⟨w, rest, rfl⟩ | hshort
  · rw [readRecord_word] at hrecord
    obtain ⟨r, hrest, rfl⟩ := Rd.map_ok_iff.mp hrecord
    have hle := ((readRecordRest_forward w).of_run hrest).length_le
    cases hpass
    simp only [List.length_append, wordBytes_length]
    omega
  · rw [readRecord_short hshort] at hrecord
    cases hrecord
    cases hpass

section

variable {acc : List Record} {s : List UInt8}

theorem readAll_end (hs : s.length < 8) : (readLoop readAllPass acc).run s = (.ok acc, []) := by
  refine iterate_inr readAllPass_shrinks (by omega) ?_
  rw [readAllPass, Rd.bind_ok (readRecord_short hs)]
  rfl

theorem readAll_record {r : Record} (h : r.data.length < 2 ^ 32) :
    (readLoop readAllPass acc).run (r.bytes ++ s) = (readLoop readAllPass (acc ++ [r])).run s := by
  refine iterate_inl readAllPass_shrinks (by omega) ?_
  rw [readAllPass, Rd.bind_ok (readRecord_bytes h s)]
  rfl

theorem readAll_stop {e : RecordingError} {q : List UInt8} (h : readRecord.run s = (.stop (.err e), q)) :
    (readLoop readAllPass acc).run s = (.stop (.err e), q) := by
  refine iterate_stop readAllPass_shrinks (by omega) ?_
  rw [readAllPass, Rd.bind_stop h]

end

/-- Where the `k`-th record ends. -/
def recordEnd (records : List Record) (k : Nat) : Nat := ((records.take k).flatMap Record.bytes).length

/-- Less than 8 bytes of a next record follow the `k`-th. -/
def EndsAfter (records : List Record) (k : Nat) (s : List UInt8) : Prop :=
  k ≤ records.length ∧ recordEnd records k ≤ s.length ∧ s.length < recordEnd records k + 8

@[simp] theorem recordEnd_zero (records : List Record) : recordEnd records 0 = 0 := rfl

@[simp] theorem recordEnd_cons (r : Record) (records : List Record) (k : Nat) :
    recordEnd (r :: records) (k + 1) = r.bytes.length + recordEnd records k := by
  simp [recordEnd]

theorem endsAfter_cons {r : Record} {records : List Record} {k : Nat} {t : List UInt8} :
    EndsAfter (r :: records) (k + 1) (r.bytes ++ t) ↔ EndsAfter records k t := by
  simp only [EndsAfter, recordEnd_cons, List.length_append, List.length_cons]
  omega

theorem record_length (r : Record) : 8 ≤ r.bytes.length := by
  simp [Record.bytes]

/-- A prefix of the records gives the whole ones, or an error. -/
theorem readAll_cut {records : List Record} (hdata : ∀ r ∈ records, r.data.length < 2 ^ 32) {s : List UInt8}
    (hs : s <+: records.flatMap Record.bytes) (acc : List Record) :
    (∀ k, EndsAfter records k s → ∃ q, (readLoop readAllPass acc).run s = (.ok (acc ++ records.take k), q)) ∧
      ((∀ k, ¬EndsAfter records k s) → ∃ e q, (readLoop readAllPass acc).run s = (.stop (.err e), q)) := by
  induction records generalizing s acc with
  | nil =>
    obtain rfl : s = [] := List.prefix_nil.mp hs
    constructor
    · intro k _
      exact ⟨[], by rw [readAll_end (by simp), List.take_nil, List.append_nil]⟩
    · intro hno
      exact (hno 0 ⟨Nat.le_refl 0, by simp, by simp⟩).elim
  | cons r records ih =>
    have hr := hdata r List.mem_cons_self
    have hrecords : ∀ r' ∈ records, r'.data.length < 2 ^ 32 := fun r' h => hdata r' (List.mem_cons_of_mem r h)
    have h8 := record_length r
    rw [List.flatMap_cons] at hs
    by_cases hshort : s.length < 8
    · -- the file ends before this record
      constructor
      · rintro (_ | k) ⟨-, hlo, -⟩
        · exact ⟨[], by rw [readAll_end hshort, List.take_zero, List.append_nil]⟩
        · rw [recordEnd_cons] at hlo
          omega
      · intro hno
        exact (hno 0 ⟨Nat.zero_le _, by simp, by simpa using hshort⟩).elim
    by_cases hcut : s.length < r.bytes.length
    · -- inside this record
      obtain ⟨e, q, hstop⟩ := readRecord_cut hr hs (by omega) hcut
      constructor
      · rintro (_ | k) ⟨-, hlo, hhi⟩
        · rw [recordEnd_zero] at hhi
          omega
        · rw [recordEnd_cons] at hlo
          omega
      · exact fun _ => ⟨e, q, readAll_stop hstop⟩
    · obtain ⟨t, rfl⟩ : r.bytes <+: s := List.prefix_of_prefix_length_le (List.prefix_append _ _) hs (by omega)
      obtain ⟨hok, hstop⟩ := ih hrecords ((List.prefix_append_right_inj _).mp hs) (acc ++ [r])
      rw [readAll_record hr]
      constructor
      · rintro (_ | k) hk
        · have hhi := hk.2.2
          rw [recordEnd_zero] at hhi
          omega
        · obtain ⟨q, hrun⟩ := hok k (endsAfter_cons.mp hk)
          exact ⟨q, by rw [hrun, List.append_assoc, List.take_succ_cons]; rfl⟩
      · exact fun hno => hstop fun k hk => hno (k + 1) (endsAfter_cons.mpr hk)

/-- A whole recording reads back as the records written. -/
theorem readAll_recordingFile (epochNs : UInt64) {records : List Record} (hdata : ∀ r ∈ records, r.data.length < 2 ^ 32) :
    ∃ rest q, readHeader.run (recordingFile epochNs records) = (.ok (.new epochNs), rest) ∧
      readAll.run rest = (.ok records, q) := by
  refine ⟨records.flatMap Record.bytes, ?_⟩
  obtain ⟨q, hrun⟩ := (readAll_cut hdata List.prefix_rfl []).1 records.length
    ⟨Nat.le_refl _, by simp [recordEnd], by simp [recordEnd]⟩
  rw [List.take_length] at hrun
  exact ⟨q, (readHeader_whole epochNs).run _, hrun⟩

/-- Whatever prefix of a recording is left, reading it back gives no wrong record. -/
theorem recording_cut (epochNs : UInt64) {records : List Record} (hdata : ∀ r ∈ records, r.data.length < 2 ^ 32)
    {file : List UInt8} (hfile : file <+: recordingFile epochNs records) :
    (file.length < 24 → ∃ e q, readHeader.run file = (.stop (.err e), q)) ∧
      (24 ≤ file.length → ∃ rest, readHeader.run file = (.ok (.new epochNs), rest) ∧
        (∀ k ≤ records.length, 24 + recordEnd records k ≤ file.length → file.length < 24 + recordEnd records k + 8 →
          ∃ q, readAll.run rest = (.ok (records.take k), q)) ∧
        ((∀ k ≤ records.length, ¬(24 + recordEnd records k ≤ file.length ∧ file.length < 24 + recordEnd records k + 8)) →
          ∃ e q, readAll.run rest = (.stop (.err e), q))) ∧
      (file = recordingFile epochNs records → ∃ rest q, readHeader.run file = (.ok (.new epochNs), rest) ∧
        readAll.run rest = (.ok records, q)) := by
  have hheader : (Header.new epochNs).bytes.length = 24 := by simp [Header.bytes, recordingMagic]
  have hcut (hlong : 24 ≤ file.length) : ∃ rest, file = (Header.new epochNs).bytes ++ rest ∧
      rest <+: records.flatMap Record.bytes := by
    obtain ⟨rest, rfl⟩ : (Header.new epochNs).bytes <+: file :=
      List.prefix_of_prefix_length_le (List.prefix_append _ _) hfile (by omega)
    exact ⟨rest, rfl, (List.prefix_append_right_inj _).mp hfile⟩
  refine ⟨fun hshort => ?_, fun hlong => ?_, fun hwhole => ?_⟩
  · rcases readHeader_whole epochNs _ file hfile with ⟨t, rfl, -, -⟩ | ⟨-, e, q, hrun⟩
    · rw [List.length_append] at hshort
      omega
    · exact ⟨e, q, hrun⟩
  · obtain ⟨rest, rfl, hrest⟩ := hcut hlong
    obtain ⟨hok, hstop⟩ := readAll_cut hdata hrest []
    rw [List.length_append, hheader]
    refine ⟨rest, (readHeader_whole epochNs).run rest, fun k hk hlo hhi => ?_, fun hno => ?_⟩
    · exact hok k ⟨hk, by omega, by omega⟩
    · refine hstop fun k hk => hno k hk.1 ⟨?_, ?_⟩
      · have := hk.2.1
        omega
      · have := hk.2.2
        omega
  · subst hwhole
    exact readAll_recordingFile epochNs hdata

/-- A file cut in its second record's data. -/
theorem recording_cut_words :
    let records := [Record.mk 0 .clientToDaemon [1, 2], Record.mk 7 .daemonToClient [3, 4, 5]]
    ∃ rest, readHeader.run ((recordingFile 9 records).take 53) = (.ok (.new 9), rest) ∧
      ∃ e q, readAll.run rest = (.stop (.err e), q) := by
  intro records
  have hlen : ((recordingFile 9 records).take 53).length = 53 := by decide
  obtain ⟨-, hlong, -⟩ := @recording_cut 9 records (by decide) _ (List.take_prefix 53 (recordingFile 9 records))
  obtain ⟨rest, hheader, -, hstop⟩ := hlong (by omega)
  refine ⟨rest, hheader, hstop ?_⟩
  rw [hlen]
  decide

/-! ## A record written and read back -/

/-- A `Write`: `writeAll` fails, or appends all of the bytes to what was written. -/
class Write (W : Type) where
  written : W → List UInt8
  writeAll : W → List UInt8 → Option W
  appends : ∀ {w w' : W} {bs : List UInt8}, writeAll w bs = some w' → written w' = written w ++ bs

/-- A `Vec<u8>`, which does not fail. -/
instance : Write (List UInt8) where
  written := id
  writeAll w bs := some (w ++ bs)
  appends h := (Option.some.inj h).symm

def Record.writeTo {W : Type} [Write W] (r : Record) (w : W) : Option W := do
  let w ← Write.writeAll w (wordBytes r.offsetNs)
  let w ← Write.writeAll w [r.direction.code]
  let len := UInt32.ofNat r.data.length
  let w ← Write.writeAll w (leU32 len)
  Write.writeAll w r.data

theorem writeTo_written {W : Type} [Write W] {r : Record} {w w' : W} (h : r.writeTo w = some w') :
    Write.written w' = Write.written w ++ r.bytes := by
  simp only [Record.writeTo, Option.bind_eq_bind, Option.bind_eq_some_iff] at h
  obtain ⟨w₁, h₁, w₂, h₂, w₃, h₃, h₄⟩ := h
  rw [Write.appends h₄, Write.appends h₃, Write.appends h₂, Write.appends h₁]
  simp [Record.bytes]

/-- What the length field counts of the data, and what it leaves to the next read. -/
def Record.counted (r : Record) : Record := { r with data := r.data.take (r.data.length % 2 ^ 32) }

def Record.uncounted (r : Record) : List UInt8 := r.data.drop (r.data.length % 2 ^ 32)

theorem counted_length (r : Record) : r.counted.data.length = r.data.length % 2 ^ 32 := by
  have := Nat.mod_le r.data.length (2 ^ 32)
  simp only [Record.counted, List.length_take]
  omega

theorem bytes_counted (r : Record) : r.bytes = r.counted.bytes ++ r.uncounted := by
  have hlen : UInt32.ofNat r.counted.data.length = UInt32.ofNat r.data.length := by
    apply UInt32.toNat_inj.mp
    rw [UInt32.toNat_ofNat', UInt32.toNat_ofNat', counted_length, Nat.mod_mod]
  rw [Record.bytes, Record.bytes, hlen]
  simp only [Record.counted, Record.uncounted, List.append_assoc, List.take_append_drop]

/-- Of any record written, the read gives what its length field counts. -/
theorem readRecord_counted (r : Record) (rest : List UInt8) :
    readRecord.run (r.bytes ++ rest) = (.ok (some r.counted), r.uncounted ++ rest) := by
  have hlt : r.counted.data.length < 2 ^ 32 := by
    rw [counted_length]
    exact Nat.mod_lt _ (by decide)
  rw [bytes_counted, List.append_assoc, readRecord_bytes hlt]

/-- Reading a written record back gives it, and leaves what follows, exactly when its length fits the field. -/
theorem writeTo_readRecord {W : Type} [Write W] (r : Record) (w w' : W) (rest : List UInt8)
    (hwrite : r.writeTo w = some w') :
    ∃ out, Write.written w' = Write.written w ++ out ∧
      (readRecord.run (out ++ rest) = (.ok (some r), rest) ↔ r.data.length < 2 ^ 32) := by
  refine ⟨r.bytes, writeTo_written hwrite, ?_, fun h => readRecord_bytes h rest⟩
  intro hread
  rw [readRecord_counted] at hread
  have hrecord : r.counted = r := Option.some.inj (Res.ok.inj (congrArg Prod.fst hread))
  have hlen := counted_length r
  rw [hrecord] at hlen
  rw [hlen]
  exact Nat.mod_lt _ (by decide)

theorem writeTo_readRecord_two :
    ∃ out, Write.written (Record.mk 5 .clientToDaemon [1, 2]).bytes = Write.written ([] : List UInt8) ++ out ∧
      (readRecord.run (out ++ [9]) = (.ok (some ⟨5, .clientToDaemon, [1, 2]⟩), [9]) ↔ [(1 : UInt8), 2].length < 2 ^ 32) :=
  writeTo_readRecord ⟨5, .clientToDaemon, [1, 2]⟩ [] _ [9] (by decide)

/-- A record of 4 GiB, written without an error, reads back as an empty one. -/
theorem writeTo_four_gib :
    let r := Record.mk 0 .clientToDaemon (List.replicate (2 ^ 32) 0)
    r.writeTo ([] : List UInt8) = some r.bytes ∧
      readRecord.run (r.bytes ++ []) = (.ok (some ⟨0, .clientToDaemon, []⟩), r.data) ∧
      readRecord.run (r.bytes ++ []) ≠ (.ok (some r), []) := by
  intro r
  have hlen : r.data.length = 2 ^ 32 := List.length_replicate
  have hread : readRecord.run (r.bytes ++ []) = (.ok (some ⟨0, .clientToDaemon, []⟩), r.data) := by
    rw [readRecord_counted, Record.counted, Record.uncounted, hlen, Nat.mod_self, List.drop_zero, List.append_nil]
    rfl
  refine ⟨?_, hread, ?_⟩
  · simp only [Record.writeTo, Write.writeAll, Option.bind_eq_bind, Option.bind_some, List.nil_append, Record.bytes]
  · rw [hread]
    intro h
    have hdata := congrArg (fun x => x.2.length) h
    simp [hlen] at hdata

end NixWire
