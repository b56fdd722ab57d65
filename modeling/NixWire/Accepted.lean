/-
  NixWire.Accepted — which files the recording reader takes (nix-wire-recording/src/lib.rs).

  `Accepts` is the format as the reader has it: the magic and the version, any flags and
  any reserved word, whole records, and fewer than 8 bytes after them, which it drops.
  `Refuses` lists the other files with the error each one gets. Every file is one or the
  other (`accepts_or_refuses`), so the reader takes exactly the first
  (`recording_accepted_iff`) and names the fault of the second (`recording_refused_iff`),
  however the file comes to its buffer.
-/

import NixWire.Recording
import NixWire.Chunked

namespace NixWire

open Base

/-- `RecordingReader::new`, then `read_all`. -/
def readRecording {R : Type} [BufRead R] : Rd RecordingError R (Header × List Record) := do
  let header ← readHeader
  let records ← readAll
  return (header, records)

/-! ## The format -/

/-- The 24 bytes of a header of this version. -/
def headBytes (flags : UInt16) (epochNs : UInt64) (reserved : UInt32) : List UInt8 :=
  recordingMagic ++ (leU16 recordingVersion ++ (leU16 flags ++ (wordBytes epochNs ++ leU32 reserved)))

/-- The length field counts the data. -/
def Record.Fits (r : Record) : Prop := r.data.length < 2 ^ 32

/-- What the file holds, and what the reader makes of it. -/
inductive Accepts : List UInt8 → Header × List Record → Prop where
  | mk {flags : UInt16} {epochNs : UInt64} {reserved : UInt32} {records : List Record} {tail : List UInt8} :
      (∀ r ∈ records, r.Fits) → tail.length < 8 →
      Accepts (headBytes flags epochNs reserved ++ (records.flatMap Record.bytes ++ tail))
        (⟨recordingVersion, flags, epochNs⟩, records)

/-- Neither a record nor the end of the file: where the read of a record fails. -/
inductive Breaks : List UInt8 → RecordingError → Prop where
  | directionCut {w : UInt64} : Breaks (wordBytes w) .unexpectedEof
  | direction {w : UInt64} {b : UInt8} {rest : List UInt8} : Direction.fromU8 b = none →
      Breaks (wordBytes w ++ b :: rest) (.invalidDirection b)
  | lengthCut {w : UInt64} {d : Direction} {rest : List UInt8} : rest.length < 4 →
      Breaks (wordBytes w ++ d.code :: rest) .unexpectedEof
  | dataCut {w : UInt64} {d : Direction} {len : UInt32} {rest : List UInt8} : rest.length < len.toNat →
      Breaks (wordBytes w ++ d.code :: (leU32 len ++ rest)) .unexpectedEof

/-- Each fault of a file, and what the reader says of it. -/
inductive Refuses : List UInt8 → RecordingError → Prop where
  | magicCut {s : List UInt8} : s.length < 8 → Refuses s .readMagic
  | magic {magic rest : List UInt8} : magic.length = 8 → magic ≠ recordingMagic →
      Refuses (magic ++ rest) (.notARecording magic)
  | versionCut {rest : List UInt8} : rest.length < 2 → Refuses (recordingMagic ++ rest) .unexpectedEof
  | version {version : UInt16} {rest : List UInt8} : version ≠ recordingVersion →
      Refuses (recordingMagic ++ (leU16 version ++ rest)) (.unsupportedVersion version)
  | headCut {rest : List UInt8} : rest.length < 14 →
      Refuses (recordingMagic ++ (leU16 recordingVersion ++ rest)) .unexpectedEof
  | records {flags : UInt16} {epochNs : UInt64} {reserved : UInt32} {records : List Record} {rest : List UInt8}
      {e : RecordingError} : (∀ r ∈ records, r.Fits) → Breaks rest e →
      Refuses (headBytes flags epochNs reserved ++ (records.flatMap Record.bytes ++ rest)) e

/-! ## The bytes of a number -/

theorem leU16_or_short (s : List UInt8) : (∃ v rest, s = leU16 v ++ rest) ∨ s.length < 2 := by
  rcases leBytes_or_short 2 s with ⟨n, hn, rest, rfl⟩ | h
  · refine Or.inl ⟨UInt16.ofNat n, rest, ?_⟩
    rw [leU16, UInt16.toNat_ofNat', Nat.mod_eq_of_lt (by omega)]
  · exact Or.inr h

theorem leU32_or_short (s : List UInt8) : (∃ v rest, s = leU32 v ++ rest) ∨ s.length < 4 := by
  rcases leBytes_or_short 4 s with ⟨n, hn, rest, rfl⟩ | h
  · refine Or.inl ⟨UInt32.ofNat n, rest, ?_⟩
    rw [leU32, UInt32.toNat_ofNat', Nat.mod_eq_of_lt (by omega)]
  · exact Or.inr h

/-! ## One record -/

theorem direction_code {b : UInt8} {d : Direction} (h : Direction.fromU8 b = some d) : d.code = b := by
  unfold Direction.fromU8 at h
  split at h
  · rename_i h0
    cases h
    exact h0.symm
  · split at h
    · rename_i h1
      cases h
      exact h1.symm
    · cases h

/-- A record of so much data. -/
theorem record_fits {w : UInt64} {d : Direction} {data : List UInt8} {len : UInt32} (h : data.length = len.toNat) :
    (Record.mk w d data).Fits ∧ (Record.mk w d data).bytes = wordBytes w ++ ([d.code] ++ (leU32 len ++ data)) := by
  have hfits : data.length < 2 ^ 32 := h ▸ len.toNat_lt
  refine ⟨hfits, ?_⟩
  have hlen : UInt32.ofNat data.length = len := by
    apply UInt32.toNat_inj.mp
    rw [UInt32.toNat_ofNat', Nat.mod_eq_of_lt hfits, h]
  simp only [Record.bytes, hlen, List.append_assoc]

/-- Bytes are a record, the end of the file, or neither. -/
theorem record_cases (s : List UInt8) :
    (∃ r rest, Record.Fits r ∧ s = r.bytes ++ rest) ∨ s.length < 8 ∨ ∃ e, Breaks s e := by
  rcases word_or_short s with ⟨w, t, rfl⟩ | hshort
  · rcases t with _ | ⟨b, t⟩
    · rw [List.append_nil]
      exact Or.inr (Or.inr ⟨_, .directionCut⟩)
    rcases hd : Direction.fromU8 b with _ | d
    · exact Or.inr (Or.inr ⟨_, .direction hd⟩)
    obtain rfl := direction_code hd
    rcases leU32_or_short t with ⟨len, u, rfl⟩ | hcut
    · by_cases hlen : len.toNat ≤ u.length
      · left
        have hdata : (u.take len.toNat).length = len.toNat := by rw [List.length_take]; omega
        obtain ⟨hfits, hbytes⟩ := @record_fits w d _ _ hdata
        refine ⟨_, u.drop len.toNat, hfits, ?_⟩
        rw [hbytes]
        simp only [List.append_assoc, List.cons_append, List.nil_append, List.take_append_drop]
      · exact Or.inr (Or.inr ⟨_, .dataCut (by omega)⟩)
    · exact Or.inr (Or.inr ⟨_, .lengthCut hcut⟩)
  · exact Or.inr (Or.inl hshort)

theorem readRecord_breaks {s : List UInt8} {e : RecordingError} (h : Breaks s e) :
    ∃ q, readRecord.run s = (.stop (.err e), q) := by
  have hdir : ∀ (b : UInt8) (rest : List UInt8),
      (readExact .unexpectedEof 1 : Rd RecordingError _ _).run (b :: rest) = (.ok [b], rest) := by
    intro b rest
    exact readExact_append _ (a := [b]) rfl
  rcases h with _ | hb | hcut | hcut
  · rename_i w
    refine ⟨[], ?_⟩
    rw [← List.append_nil (wordBytes w), readRecord_word, Rd.map_stop_iff, readRecordRest]
    exact Rd.bind_stop (readExact_short _ (by simp))
  · rename_i w b rest
    refine ⟨rest, ?_⟩
    rw [readRecord_word, Rd.map_stop_iff, readRecordRest, Rd.bind_ok (hdir b rest)]
    simp only [List.headD_cons, hb]
    rfl
  · rename_i w d rest
    refine ⟨[], ?_⟩
    rw [readRecord_word, Rd.map_stop_iff, readRecordRest, Rd.bind_ok (hdir _ rest)]
    simp only [List.headD_cons, Direction.fromU8_code]
    exact Rd.bind_stop (readNumber_short _ _ hcut)
  · rename_i w d len rest
    refine ⟨[], ?_⟩
    rw [readRecord_word, Rd.map_stop_iff, readRecordRest, Rd.bind_ok (hdir _ _)]
    simp only [List.headD_cons, Direction.fromU8_code]
    rw [Rd.bind_ok ((readLeU32_whole len).run rest)]
    exact Rd.bind_stop (readExact_short _ hcut)

/-! ## All of them -/

/-- Whole records, and what comes after the last of them. -/
theorem records_cases (s : List UInt8) : ∃ (records : List Record) (rest : List UInt8), (∀ r ∈ records, r.Fits) ∧
    s = records.flatMap Record.bytes ++ rest ∧ (rest.length < 8 ∨ ∃ e, Breaks rest e) := by
  induction hn : s.length using Nat.strongRecOn generalizing s with
  | ind n ih =>
    rcases record_cases s with ⟨r, t, hr, rfl⟩ | hend
    · have h8 := record_length r
      rw [List.length_append] at hn
      obtain ⟨records, rest, hfits, rfl, hrest⟩ := ih t.length (by omega) t rfl
      refine ⟨r :: records, rest, ?_, ?_, hrest⟩
      · exact List.forall_mem_cons.mpr ⟨hr, hfits⟩
      · rw [List.flatMap_cons, List.append_assoc]
    · exact ⟨[], s, List.forall_mem_nil _, rfl, hend⟩

theorem readAll_records {records : List Record} (hfits : ∀ r ∈ records, r.Fits) (s : List UInt8)
    (acc : List Record) : (readLoop readAllPass acc).run (records.flatMap Record.bytes ++ s) =
      (readLoop readAllPass (acc ++ records)).run s := by
  induction records generalizing acc with
  | nil => rw [List.append_nil]; rfl
  | cons r records ih =>
    obtain ⟨hr, hrecords⟩ := List.forall_mem_cons.mp hfits
    rw [List.flatMap_cons, List.append_assoc, readAll_record hr, ih hrecords, List.append_assoc,
      List.singleton_append]

/-! ## The header -/

theorem readHeader_head (flags : UInt16) (epochNs : UInt64) (reserved : UInt32) (rest : List UInt8) :
    readHeader.run (headBytes flags epochNs reserved ++ rest) = (.ok ⟨recordingVersion, flags, epochNs⟩, rest) := by
  have hwhole : ReadsWhole readHeader (headBytes flags epochNs reserved) ⟨recordingVersion, flags, epochNs⟩ := by
    rw [headBytes, readHeader, ← List.append_nil (leU32 reserved)]
    refine (readExact_whole _ rfl).bind ?_
    rw [if_neg (by simp)]
    refine (readLeU16_whole _).bind ?_
    rw [if_neg (by simp)]
    refine (readLeU16_whole flags).bind ?_
    refine (readLeU64_whole epochNs).bind ?_
    exact (readLeU32_whole reserved).bind (ReadsWhole.pure _)
  exact hwhole.run rest

/-- Bytes begin with a header, or the reader refuses them. -/
theorem header_cases (s : List UInt8) :
    (∃ flags epochNs reserved rest, s = headBytes flags epochNs reserved ++ rest) ∨ ∃ e, Refuses s e := by
  by_cases hmagic : s.length < 8
  · exact Or.inr ⟨_, .magicCut hmagic⟩
  have hlen : (s.take 8).length = 8 := by rw [List.length_take]; omega
  rw [← List.take_append_drop 8 s]
  generalize s.take 8 = magic at hlen ⊢
  generalize s.drop 8 = t
  by_cases hne : magic = recordingMagic
  · subst hne
    rcases leU16_or_short t with ⟨version, u, rfl⟩ | hcut
    · by_cases hversion : version = recordingVersion
      · subst hversion
        by_cases hhead : u.length < 14
        · exact Or.inr ⟨_, .headCut hhead⟩
        · obtain ⟨flags, u, rfl⟩ := (leU16_or_short u).resolve_right (by omega)
          rw [List.length_append, leU16_length] at hhead
          obtain ⟨epochNs, u, rfl⟩ := (word_or_short u).resolve_right (by omega)
          rw [List.length_append, wordBytes_length] at hhead
          obtain ⟨reserved, u, rfl⟩ := (leU32_or_short u).resolve_right (by omega)
          refine Or.inl ⟨flags, epochNs, reserved, u, ?_⟩
          simp only [headBytes, List.append_assoc]
      · exact Or.inr ⟨_, .version hversion⟩
    · exact Or.inr ⟨_, .versionCut hcut⟩
  · exact Or.inr ⟨_, .magic hlen hne⟩

theorem accepts_or_refuses (s : List UInt8) : (∃ x, Accepts s x) ∨ ∃ e, Refuses s e := by
  rcases header_cases s with ⟨flags, epochNs, reserved, t, rfl⟩ | h
  · obtain ⟨records, rest, hfits, rfl, hend | ⟨e, hbreaks⟩⟩ := records_cases t
    · exact Or.inl ⟨_, .mk hfits hend⟩
    · exact Or.inr ⟨e, .records hfits hbreaks⟩
  · exact Or.inr h

/-! ## The reader -/

theorem readRecording_head (flags : UInt16) (epochNs : UInt64) (reserved : UInt32) (rest : List UInt8) :
    readRecording.run (headBytes flags epochNs reserved ++ rest) =
      ((fun records => (⟨recordingVersion, flags, epochNs⟩, records)) <$> readAll).run rest := by
  rw [readRecording, Rd.bind_ok (readHeader_head flags epochNs reserved rest)]
  rw [map_eq_pure_bind]

theorem readRecording_accepts {s : List UInt8} {x : Header × List Record} (h : Accepts s x) :
    (readRecording.run s).1 = .ok x := by
  obtain ⟨hfits, htail⟩ := h
  rename_i flags epochNs reserved records tail
  have hall : readAll.run (records.flatMap Record.bytes ++ tail) = (.ok records, []) := by
    rw [readAll, readAll_records hfits, List.nil_append, readAll_end htail]
  rw [readRecording_head]
  exact congrArg Prod.fst (Rd.map_ok_iff.mpr ⟨records, hall, rfl⟩)

theorem readRecording_refuses {s : List UInt8} {e : RecordingError} (h : Refuses s e) :
    (readRecording.run s).1 = .stop (.err e) := by
  have hmagic : ∀ t, (readExact RecordingError.readMagic 8).run (recordingMagic ++ t) = (.ok recordingMagic, t) := by
    intro t
    exact readExact_append _ rfl
  -- a header that fails fails the reader
  have hstop : ∀ {s q : List UInt8} {e : RecordingError}, readHeader.run s = (.stop (.err e), q) →
      (readRecording.run s).1 = .stop (.err e) := by
    intro s q e h
    rw [readRecording, Rd.bind_stop h]
  rcases h with hcut | ⟨hlen, hne⟩ | hcut | hversion | hcut | ⟨hfits, hbreaks⟩
  · refine hstop (q := []) ?_
    rw [readHeader, Rd.bind_stop (readExact_short _ hcut)]
  · rename_i magic rest
    refine hstop (q := rest) ?_
    rw [readHeader, Rd.bind_ok (readExact_append _ hlen), if_pos hne]
    rfl
  · refine hstop (q := []) ?_
    rw [readHeader, Rd.bind_ok (hmagic _), if_neg (by simp)]
    exact Rd.bind_stop (readNumber_short _ _ hcut)
  · rename_i version rest
    refine hstop (q := rest) ?_
    rw [readHeader, Rd.bind_ok (hmagic _), if_neg (by simp), Rd.bind_ok ((readLeU16_whole version).run rest), if_pos hversion]
    rfl
  · rename_i rest
    refine hstop (q := []) ?_
    rw [readHeader, Rd.bind_ok (hmagic _), if_neg (by simp), Rd.bind_ok ((readLeU16_whole _).run rest), if_neg (by simp)]
    rcases leU16_or_short rest with ⟨flags, u, rfl⟩ | hflags
    · rw [List.length_append, leU16_length] at hcut
      rw [Rd.bind_ok ((readLeU16_whole flags).run u)]
      rcases word_or_short u with ⟨epochNs, u, rfl⟩ | hepoch
      · rw [List.length_append, wordBytes_length] at hcut
        rw [Rd.bind_ok ((readLeU64_whole epochNs).run u)]
        exact Rd.bind_stop (readNumber_short _ _ (by omega))
      · exact Rd.bind_stop (readNumber_short _ _ hepoch)
    · exact Rd.bind_stop (readNumber_short _ _ hflags)
  · rename_i flags epochNs reserved records rest
    obtain ⟨q, hrecord⟩ := readRecord_breaks hbreaks
    have hall : readAll.run (records.flatMap Record.bytes ++ rest) = (.stop (.err e), q) := by
      rw [readAll, readAll_records hfits, readAll_stop hrecord]
    rw [readRecording_head, congrArg Prod.fst (Rd.map_stop_iff.mpr hall)]

/-- Over any buffer, the reader comes to what it comes to over the bytes. -/
theorem readRecording_rel {R : Type} [BufRead R] {ρ : R → List UInt8 → Prop} (d : Delivers ρ) :
    Rel ρ readRecording readRecording := by
  have h16 : Rel ρ readLeU16 readLeU16 := (d.exact _ 2).map _
  have h32 : Rel ρ readLeU32 readLeU32 := (d.exact _ 4).map _
  have h64 : Rel ρ readLeU64 readLeU64 := (d.exact _ 8).map _
  have hheader : Rel ρ readHeader readHeader := by
    refine (d.exact _ 8).bind fun magic => Rel.ite (Rel.fail _) ?_
    refine h16.bind fun version => Rel.ite (Rel.fail _) ?_
    exact h16.bind fun flags => h64.bind fun epochNs => h32.bind fun _ => Rel.pure _
  have hrest : ∀ w, Rel ρ (readRecordRest w) (readRecordRest w) := by
    intro w
    refine (d.exact _ 1).bind fun dirByte => ?_
    cases Direction.fromU8 (dirByte.headD 0) with
    | none => exact Rel.fail _
    | some direction => exact h32.bind fun len => (d.exact _ len.toNat).bind fun _ => Rel.pure _
  have hrecord : Rel ρ readRecord readRecord := by
    refine h64.attempt.bind fun o => ?_
    rcases o with e | w
    · cases e with
      | unexpectedEof => exact Rel.pure _
      | _ => exact Rel.fail _
    · exact (hrest w).map _
  have hpass : ∀ records, Rel ρ (readAllPass records) (readAllPass records) := by
    intro records
    refine hrecord.bind fun o => ?_
    cases o with
    | none => exact Rel.pure _
    | some record => exact Rel.pure _
  exact hheader.bind fun header => (d.readLoop hpass []).bind fun _ => Rel.pure _

theorem readRecording_unread (r : BufReader) : (readRecording.run r).1 = (readRecording.run r.unread).1 :=
  (readRecording_rel (BufReader.delivers (r.buf :: r.chunks)) r r.unread ⟨rfl, Or.inr ⟨[], [], rfl⟩⟩).1

/-- A recording is read exactly when it has this version's header, with any flags and any reserved
    word, then whole records, then fewer than 8 bytes; and those records are what the reader gives. -/
theorem recording_accepted_iff (r : BufReader) (x : Header × List Record) :
    (readRecording.run r).1 = .ok x ↔ Accepts r.unread x := by
  rw [readRecording_unread]
  refine ⟨fun hrun => ?_, readRecording_accepts⟩
  rcases accepts_or_refuses r.unread with ⟨y, h⟩ | ⟨e, h⟩
  · cases hrun.symm.trans (readRecording_accepts h)
    exact h
  · cases hrun.symm.trans (readRecording_refuses h)

/-- Any other recording is refused, with the error of its first fault; no other stop is possible. -/
theorem recording_refused_iff (r : BufReader) (o : Stop RecordingError) :
    (readRecording.run r).1 = .stop o ↔ ∃ e, o = .err e ∧ Refuses r.unread e := by
  rw [readRecording_unread]
  constructor
  · intro hrun
    rcases accepts_or_refuses r.unread with ⟨x, h⟩ | ⟨e, h⟩
    · cases hrun.symm.trans (readRecording_accepts h)
    · cases hrun.symm.trans (readRecording_refuses h)
      exact ⟨e, rfl, h⟩
  · rintro ⟨e, rfl, h⟩
    exact readRecording_refuses h

end NixWire
