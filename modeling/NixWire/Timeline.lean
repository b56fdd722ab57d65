/-
  NixWire.Timeline — where and when the operations of a recording are (decode.rs).

  The walk's requests lie end to end in the client's stream (`Laid`): from the end of the
  handshake to fewer than eight bytes before the end of the stream, no byte is skipped and
  none is counted twice (`decode_accounts`).

  In a recording without empty records whose times do not decrease, an operation starts at
  the time of the record that carries the first byte of its code. So the operations start
  in order, and none of them is printed as ending after the last record or lasting longer
  than the recording (`decode_timeline`).
-/

import NixWire.Timestamps
import NixWire.Visits

namespace NixWire

open Base Recorder

/-! ## The summary -/

/-- `total_c2d` and `total_d2c`. -/
def totalBytes (d : Direction) (records : List Record) : Nat :=
  ((records.filter fun r => r.direction = d).map fun r => r.data.length).sum

/-- `total_duration`. The subtraction overflows if the last record is before the first. -/
def totalDuration (records : List Record) : Option UInt64 :=
  match records.head?, records.getLast? with
  | some first, some last => some (last.offsetNs - first.offsetNs)
  | _, _ => none

theorem totalBytes_eq (d : Direction) (records : List Record) :
    totalBytes d records = (bytesOf d (splitRecords records)).length := by
  rw [splitRecords_bytes, List.length_flatten, chunksOf, List.map_map]
  rfl

/-! ## Where -/

/-- The requests of some visits lie end to end, from `p` to `q`. -/
inductive Laid : Nat → List Visit → Nat → Prop where
  | nil (p : Nat) : Laid p [] p
  | cons {x : Visit} {visits : List Visit} {q : Nat} : x.start + 8 ≤ x.requestEnd → Laid x.requestEnd visits q →
      Laid x.start (x :: visits) q

section

variable {p q : Nat} {visits : List Visit}

theorem Laid.sum (h : Laid p visits q) : p + (visits.map Visit.requestBytes).sum = q := by
  induction h with
  | nil p => rfl
  | @cons x visits q hx _ ih =>
    have hbytes : x.start + x.requestBytes = x.requestEnd := by
      unfold Visit.requestBytes
      omega
    rw [List.map_cons, List.sum_cons, ← Nat.add_assoc, hbytes, ih]

theorem Laid.le (h : Laid p visits q) : p ≤ q := Nat.le.intro h.sum

theorem Laid.bytes (h : Laid p visits q) : ∀ x ∈ visits, 8 ≤ x.requestBytes ∧ p ≤ x.start ∧ x.start < q := by
  induction h with
  | nil p => simp
  | @cons x visits q hx hrest ih =>
    have hle := hrest.le
    intro y hy
    rcases List.mem_cons.mp hy with rfl | hy
    · unfold Visit.requestBytes
      omega
    · obtain ⟨hbytes, hfrom, hto⟩ := ih y hy
      omega

/-- Each starts where those before it end. -/
theorem Laid.start (h : Laid p visits q) : ∀ i x, visits[i]? = some x →
    x.start = p + ((visits.take i).map Visit.requestBytes).sum := by
  induction h with
  | nil p => simp
  | @cons x visits q hx _ ih =>
    intro i y hy
    cases i with
    | zero =>
      cases hy
      simp
    | succ i =>
      have hstart := ih i y hy
      have hbytes : x.start + x.requestBytes = x.requestEnd := by
        unfold Visit.requestBytes
        omega
      rw [List.take_succ_cons, List.map_cons, List.sum_cons, ← Nat.add_assoc, hbytes]
      exact hstart

theorem Laid.sorted (h : Laid p visits q) : visits.Pairwise fun x y => x.start ≤ y.start := by
  induction h with
  | nil p => exact .nil
  | @cons x visits q hx hrest ih =>
    refine .cons (fun y hy => ?_) ih
    obtain ⟨_, hfrom, _⟩ := hrest.bytes y hy
    omega

end

/-- Some passes of the walk: their requests lie end to end, and no response ends past the
    daemon's stream. -/
theorem walked {C D c d : List UInt8} {v : ProtocolVersion} {n : Nat} {x y : List Visit × Streams}
    (h : Rd.Reaches (visitPass v) n x y) (hm : At C D x.2 c d) : ∃ visits c' d', y.1 = x.1 ++ visits ∧
      Laid x.2.1.position visits y.2.1.position ∧ At C D y.2 c' d' ∧ ∀ z ∈ visits, z.responseEnd ≤ D.length := by
  induction h generalizing c d with
  | refl x => exact ⟨[], c, d, (List.append_nil _).symm, .nil _, hm, by simp⟩
  | step hpass _ ih =>
    obtain ⟨z, hz, rfl⟩ := visitPass_inl_iff.mp hpass
    obtain ⟨c₀, c₁, hc₀, hc₁, hle, hstart, hend⟩ := hz.client
    obtain ⟨d₁, hd₁, _, _, hlast⟩ := hz.daemon hm.2
    rw [hm.1.1] at hc₀ hc₁
    obtain ⟨visits, c', d', hvisits, hlaid, hat, hends⟩ := ih ⟨hc₁, hd₁⟩
    have hlen := hc₀.2.1
    have hlen' := hc₁.2.1
    refine ⟨z :: visits, c', d', by rw [hvisits, List.append_assoc]; rfl, ?_, hat, ?_⟩
    · rw [← hstart]
      rw [← hend] at hlaid
      refine .cons ?_ hlaid
      rw [hstart, hend]
      unfold MemReader.position
      omega
    · refine List.forall_mem_cons.mpr ⟨?_, hends⟩
      rw [hlast, ← hd₁.1]
      exact hd₁.pos_le

/-- A walk that returns, from the end of the handshake to what it leaves. -/
theorem walk_laid {C D : List UInt8} {info : HandshakeInfo} {visits : List Visit} {m : Streams}
    (h : walk.run (.new C, .new D) = (.ok (info, visits), m)) : ∃ start : Streams,
      parseHandshake.run (.new C, .new D) = (.ok info, start) ∧ Laid start.1.position visits m.1.position ∧
      m.1.position ≤ C.length ∧ C.length < m.1.position + 8 ∧ ∀ x ∈ visits, x.responseEnd ≤ D.length := by
  obtain ⟨_, start, hshake, h⟩ := Rd.bind_ok_iff.mp h
  obtain ⟨_, m₁, hloop, h⟩ := Rd.bind_ok_iff.mp h
  cases h
  obtain ⟨⟨c, d⟩, _, hstart⟩ := mem_runs (parseHandshake_rel MemReader.mirrors MemReader.mirrors) hshake
  obtain ⟨n, last, m₂, hr, hend⟩ := (iterate_ok_iff (visitPass_shrinks _) (Nat.succ_pos 7)).mp hloop
  obtain ⟨hpeek, rfl⟩ := visitPass_inr_iff.mp hend
  obtain ⟨seen, c', d', hseen, hlaid, hat, hends⟩ := walked hr hstart
  obtain rfl : visits = seen := hseen
  -- the last peek moves nothing
  obtain ⟨left, hlist, hleft⟩ := (peekU64_rel MemReader.mirrors).followed hat.1 (Rd.onFst_iff.mp hpeek).1
  obtain ⟨rfl, hshort⟩ := peekU64_none hlist
  rw [hat.1.eq hleft] at hlaid
  have hlen : m.1.pos + left.length = C.length := hleft.2.1
  have hfew : left.length < 8 := hshort
  refine ⟨start, hshake, hlaid, hleft.pos_le.trans_eq (by rw [hleft.1]), ?_, hends⟩
  unfold MemReader.position
  omega

/-- The printed requests account for every byte of the client's stream: those of the
    handshake, each operation's, and fewer than the eight of a code. -/
theorem decode_accounts {records : List Record} {info : HandshakeInfo} {lines : List DecodedOp} {m : Streams}
    (h : (decodeText (splitRecords records)).run
      (.new (splitRecords records).clientBytes, .new (splitRecords records).daemonBytes) = (.ok (info, lines), m)) :
    ∃ (start : Streams) (rest : Nat),
      parseHandshake.run (.new (splitRecords records).clientBytes, .new (splitRecords records).daemonBytes) =
        (.ok info, start) ∧
      start.1.position + (lines.map DecodedOp.requestBytes).sum + rest = totalBytes .clientToDaemon records ∧
      rest < 8 ∧ ∀ line ∈ lines, 8 ≤ line.requestBytes := by
  rw [decodeText_visits] at h
  obtain ⟨⟨_, visits⟩, hwalk, hlines⟩ := Rd.map_ok_iff.mp h
  cases hlines
  obtain ⟨start, hshake, hlaid, hle, hlt, _⟩ := walk_laid hwalk
  have htotal : totalBytes .clientToDaemon records = (splitRecords records).clientBytes.length := totalBytes_eq _ _
  have hsum := hlaid.sum
  refine ⟨start, (splitRecords records).clientBytes.length - m.1.position, hshake, ?_, by omega, ?_⟩
  · rw [List.map_map, htotal]
    show start.1.position + (visits.map Visit.requestBytes).sum + _ = _
    omega
  · intro line hline
    obtain ⟨x, hx, rfl⟩ := List.mem_map.mp hline
    exact (hlaid.bytes x hx).1

/-- What `decode` prints of two recorded syncs. -/
def syncLines : List DecodedOp :=
  [⟨5, "SyncWithGC".toList, 8, 1, 4, StderrCode.last.name, []⟩, ⟨12, "SyncWithGC".toList, 8, 1, 3, StderrCode.last.name, []⟩]

theorem decodeText_syncs : (decodeText (splitRecords (syncRecording ++ secondSync))).run
    (.new (splitRecords (syncRecording ++ secondSync)).clientBytes, .new (splitRecords (syncRecording ++ secondSync)).daemonBytes) =
      (.ok (failingSession.info, syncLines), (⟨(splitRecords (syncRecording ++ secondSync)).clientBytes, 48⟩,
        ⟨(splitRecords (syncRecording ++ secondSync)).daemonBytes, 56⟩)) := by
  decide

/-- The handshake takes 32 bytes of the recording, and the syncs eight each. -/
theorem decode_accounts_sync : ∃ start : Streams,
    parseHandshake.run (.new (splitRecords (syncRecording ++ secondSync)).clientBytes,
      .new (splitRecords (syncRecording ++ secondSync)).daemonBytes) = (.ok failingSession.info, start) ∧
    start.1.position + 16 ≤ 48 ∧ 48 < start.1.position + 24 := by
  obtain ⟨start, rest, hshake, hsum, hrest, _⟩ := decode_accounts decodeText_syncs
  have htotal : totalBytes .clientToDaemon (syncRecording ++ secondSync) = 48 := by decide
  simp only [htotal, syncLines, List.map_cons, List.map_nil, List.sum_cons, List.sum_nil] at hsum
  exact ⟨start, hshake, by omega, by omega⟩

/-! ## When -/

section

variable {records : List Record}

/-- The time found is the record's. -/
theorem timeAt_carried (hne : ∀ r ∈ records, r.data ≠ []) {d : Direction} {offset k : Nat} {r : Record}
    (h : CarriedBy d records offset r k) : timeAt (tsOf d (splitRecords records)) offset = r.offsetNs := by
  have hlookup : (lookupTimestamp (tsOf d (splitRecords records)) offset : Rd WireError Unit UInt64) = pure r.offsetNs :=
    lookupTimestamp_carried hne h
  unfold timeAt
  rw [hlookup]
  rfl

theorem carried_mem {d : Direction} {offset k : Nat} {r : Record} (h : CarriedBy d records offset r k) : r ∈ records := by
  obtain ⟨before, after, rfl, _⟩ := h
  simp

/-- No record is before the first or after the last. -/
theorem between_ends (htimes : records.Pairwise fun r r' => r.offsetNs ≤ r'.offsetNs) {first last r : Record}
    (hfirst : records.head? = some first) (hlast : records.getLast? = some last) (hr : r ∈ records) :
    first.offsetNs ≤ r.offsetNs ∧ r.offsetNs ≤ last.offsetNs := by
  constructor
  · cases records with
    | nil => cases hfirst
    | cons r₀ records =>
      cases hfirst
      rcases List.mem_cons.mp hr with rfl | hr
      · exact UInt64.le_refl _
      · exact (List.pairwise_cons.mp htimes).1 r hr
  · obtain ⟨front, rfl⟩ := List.getLast?_eq_some_iff.mp hlast
    rcases List.mem_append.mp hr with hr | hr
    · exact (List.pairwise_append.mp htimes).2.2 r hr last (List.mem_singleton_self last)
    · obtain rfl := List.mem_singleton.mp hr
      exact UInt64.le_refl _

/-- An operation starts with a byte that some record carries, at that record's time. -/
theorem Visit.starts (hne : ∀ r ∈ records, r.data ≠ []) {x : Visit}
    (hstart : x.start < (splitRecords records).clientBytes.length) :
    ∃ r k, CarriedBy .clientToDaemon records x.start r k ∧ x.startNs (splitRecords records) = r.offsetNs := by
  have hlt : x.start < (bytesOf .clientToDaemon (splitRecords records)).length := hstart
  obtain ⟨r, k, hr⟩ := exists_carriedBy hlt
  exact ⟨r, k, hr, timeAt_carried hne hr⟩

/-- An operation ends when the record with its response's last byte does, or as it starts. -/
theorem Visit.ends (hne : ∀ r ∈ records, r.data ≠ []) {x : Visit}
    (hend : x.responseEnd ≤ (splitRecords records).daemonBytes.length) :
    (∃ r ∈ records, x.endNs (splitRecords records) = r.offsetNs) ∨
      x.endNs (splitRecords records) = x.startNs (splitRecords records) := by
  unfold Visit.endNs
  by_cases hresponse : x.responseEnd > x.responseStart
  · rw [if_pos hresponse]
    have hlt : x.responseEnd - 1 < (bytesOf .daemonToClient (splitRecords records)).length := by
      show _ < (splitRecords records).daemonBytes.length
      omega
    obtain ⟨r, k, hr⟩ := exists_carriedBy hlt
    exact Or.inl ⟨r, carried_mem hr, timeAt_carried hne hr⟩
  · rw [if_neg hresponse]
    exact Or.inr rfl

theorem saturatingSub_toNat (a b : UInt64) : (saturatingSub a b).toNat = a.toNat - b.toNat := by
  unfold saturatingSub
  by_cases h : b ≤ a
  · rw [if_pos h, UInt64.toNat_sub_of_le _ _ h]
  · have hlt : a.toNat < b.toNat := UInt64.lt_iff_toNat_lt.mp (UInt64.not_le.mp h)
    rw [if_neg h, UInt64.toNat_zero]
    omega

/-- An operation is over by the last record. -/
theorem Visit.isOver (hne : ∀ r ∈ records, r.data ≠ []) (htimes : records.Pairwise fun r r' => r.offsetNs ≤ r'.offsetNs)
    {x : Visit} (hstart : x.start < (splitRecords records).clientBytes.length)
    (hend : x.responseEnd ≤ (splitRecords records).daemonBytes.length) {first last : Record}
    (hfirst : records.head? = some first) (hlast : records.getLast? = some last) :
    first.offsetNs ≤ x.startNs (splitRecords records) ∧
      (x.startNs (splitRecords records)).toNat + (x.durationNs (splitRecords records)).toNat ≤ last.offsetNs.toNat := by
  obtain ⟨r, k, hr, htime⟩ := Visit.starts hne hstart
  obtain ⟨hlo, hhi⟩ := between_ends htimes hfirst hlast (carried_mem hr)
  have hend : x.endNs (splitRecords records) ≤ last.offsetNs := by
    rcases Visit.ends hne hend with ⟨r', hr', hend⟩ | hend
    · rw [hend]
      exact (between_ends htimes hfirst hlast hr').2
    · rw [hend, htime]
      exact hhi
  rw [← htime] at hlo hhi
  refine ⟨hlo, ?_⟩
  rw [Visit.durationNs, saturatingSub_toNat]
  have hhi := UInt64.le_iff_toNat_le.mp hhi
  have hend := UInt64.le_iff_toNat_le.mp hend
  omega

end

/-- How the printed operations lie in the recording: each starts when the record with the
    first byte of its code was made, none starts before the one printed above it, and each
    is over by the last record. -/
structure OnTimeline (records : List Record) (start : Nat) (lines : List DecodedOp) : Prop where
  starts : ∀ i line, lines[i]? = some line → ∃ r k,
    CarriedBy .clientToDaemon records (start + ((lines.take i).map DecodedOp.requestBytes).sum) r k ∧
      line.opStartNs = r.offsetNs
  inOrder : lines.Pairwise fun line later => line.opStartNs ≤ later.opStartNs
  ends : ∀ first last, records.head? = some first → records.getLast? = some last → ∀ line ∈ lines,
    first.offsetNs ≤ line.opStartNs ∧ line.opStartNs.toNat + line.durationNs.toNat ≤ last.offsetNs.toNat
  within : ∀ total, totalDuration records = some total → ∀ line ∈ lines, line.durationNs ≤ total

theorem decode_timeline {records : List Record} (hne : ∀ r ∈ records, r.data ≠ [])
    (htimes : records.Pairwise fun r r' => r.offsetNs ≤ r'.offsetNs) {info : HandshakeInfo} {lines : List DecodedOp}
    {m : Streams} (h : (decodeText (splitRecords records)).run
      (.new (splitRecords records).clientBytes, .new (splitRecords records).daemonBytes) = (.ok (info, lines), m)) :
    ∃ start : Streams,
      parseHandshake.run (.new (splitRecords records).clientBytes, .new (splitRecords records).daemonBytes) =
        (.ok info, start) ∧ OnTimeline records start.1.position lines := by
  rw [decodeText_visits] at h
  obtain ⟨⟨_, visits⟩, hwalk, hlines⟩ := Rd.map_ok_iff.mp h
  cases hlines
  obtain ⟨start, hshake, hlaid, hle, _, hends⟩ := walk_laid hwalk
  have hstarts : ∀ x ∈ visits, x.start < (splitRecords records).clientBytes.length :=
    fun x hx => Nat.lt_of_lt_of_le (hlaid.bytes x hx).2.2 hle
  have hover : ∀ first last, records.head? = some first → records.getLast? = some last →
      ∀ line ∈ visits.map (decodedOp (splitRecords records)),
        first.offsetNs ≤ line.opStartNs ∧ line.opStartNs.toNat + line.durationNs.toNat ≤ last.offsetNs.toNat := by
    intro first last hfirst hlast line hline
    obtain ⟨x, hx, rfl⟩ := List.mem_map.mp hline
    exact Visit.isOver hne htimes (hstarts x hx) (hends x hx) hfirst hlast
  refine ⟨start, hshake, ?_, ?_, hover, ?_⟩
  · intro i line hline
    rw [List.getElem?_map] at hline
    obtain ⟨x, hx, rfl⟩ := Option.map_eq_some_iff.mp hline
    obtain ⟨r, k, hr, hstart⟩ := Visit.starts hne (hstarts x (List.mem_of_getElem? hx))
    rw [hlaid.start i x hx] at hr
    refine ⟨r, k, ?_, hstart⟩
    rw [← List.map_take, List.map_map]
    exact hr
  · rw [List.pairwise_map]
    refine (List.pairwise_iff_forall_sublist.mpr ?_)
    intro x y hxy
    have hmem := hxy.subset
    obtain ⟨r, k, hr, hstart⟩ := Visit.starts hne (hstarts x (hmem (by simp)))
    obtain ⟨r', k', hr', hstart'⟩ := Visit.starts hne (hstarts y (hmem (by simp)))
    have hle := List.pairwise_iff_forall_sublist.mp hlaid.sorted hxy
    show x.startNs _ ≤ y.startNs _
    rw [hstart, hstart']
    exact carried_mono htimes hle hr hr'
  · intro total htotal line hline
    unfold totalDuration at htotal
    rcases hfirst : records.head? with _ | first
    · simp [hfirst] at htotal
    rcases hlast : records.getLast? with _ | last
    · simp [hlast] at htotal
    rw [hfirst, hlast] at htotal
    cases htotal
    obtain ⟨hlo, hsum⟩ := hover first last hfirst hlast line hline
    obtain ⟨hstart, hlast'⟩ := between_ends htimes hfirst hlast (List.mem_of_mem_head? (by rw [hfirst]; rfl))
    have hlo := UInt64.le_iff_toNat_le.mp hlo
    rw [UInt64.le_iff_toNat_le, UInt64.toNat_sub_of_le _ _ hlast']
    omega

/-- The syncs are sent at 5 and 12 ns and answered at 9 and 15. -/
theorem decode_timeline_sync : ∃ start : Streams,
    parseHandshake.run (.new (splitRecords (syncRecording ++ secondSync)).clientBytes,
      .new (splitRecords (syncRecording ++ secondSync)).daemonBytes) = (.ok failingSession.info, start) ∧
    OnTimeline (syncRecording ++ secondSync) start.1.position syncLines :=
  decode_timeline (by decide) (by decide) decodeText_syncs

end NixWire
