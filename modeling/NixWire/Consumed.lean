/-
  NixWire.Consumed — the client bytes that stats accounts for (stats.rs, `collect_ops`).

  A pass that goes on records what it took from the client's stream (`collectPass_inl`),
  and none of the reads after that touches it. So the request bytes of the records sum to
  the bytes between the end of the handshake and the end of the last recorded operation,
  however the loop was left (`collected`). `stats_account` says it together with what
  `aggregate` makes of the records.
-/

import NixWire.Drivers
import NixWire.Stats

namespace NixWire

open Base

/-! ## One pass -/

section

variable {C c : List UInt8} {m m' : Streams} {o : Op} {v : ProtocolVersion}

/-- The daemon's side of a pass leaves the client's reader as it is. -/
theorem collectResponse_keeps (o : Op) (v : ProtocolVersion) : (collectResponse o v).KeepsFst := by
  refine (Rd.KeepsFst.onSnd _).bind fun r => ?_
  cases r with
  | error e => exact Rd.KeepsFst.pure none
  | ok stderrResult =>
    simp only
    split
    · refine (Rd.KeepsFst.onSnd _).bind fun r => ?_
      cases r <;> exact Rd.KeepsFst.pure _
    · exact Rd.KeepsFst.pure _

theorem skipFramed_length {s rest : List UInt8} {total : UInt64} (h : skipFramed.run s = (.ok total, rest)) :
    rest.length + total.toNat ≤ s.length := by
  rw [skipFramed_eq] at h
  obtain ⟨b, hb, rfl⟩ := Rd.map_ok_iff.mp h
  obtain ⟨bs, hbs, rfl⟩ := readFramed_ok_iff.mp hb
  have hle := hbs.length_le
  have hnat : (UInt64.ofNat b.length).toNat ≤ b.length := by
    rw [UInt64.toNat_ofNat']
    exact Nat.mod_le _ _
  rw [List.length_append]
  omega

theorem collectRequest_some {r q : MemReader} {argInfo : Option Str} {framedBytes : Option UInt64}
    (hr : MemReader.Left C r c) (h : (collectRequest o v).run (r, q) = (.ok (some (argInfo, framedBytes)), m')) :
    ∃ c', MemReader.Left C m'.1 c' ∧ m'.2 = q ∧ c'.length + (framedBytes.getD 0).toNat ≤ c.length := by
  unfold collectRequest at h
  obtain ⟨args, r₁, hargs, h⟩ := Rd.onFst_bind_ok_iff.mp h
  obtain ⟨c₁, hlist₁, h₁⟩ := (skipOpArgs_rel MemReader.mirrors o v).attempt.followed hr hargs
  have hle₁ : c₁.length ≤ c.length := ((skipOpArgs_forward o v).attempt.of_run hlist₁).length_le
  cases args with
  | error e => cases h
  | ok argInfo =>
    simp only at h
    split at h
    · obtain ⟨framed, r₂, hframed, h⟩ := Rd.onFst_bind_ok_iff.mp h
      obtain ⟨c₂, hlist₂, h₂⟩ := (skipFramed_rel MemReader.delivers).attempt.followed h₁ hframed
      cases framed with
      | error e => cases h
      | ok total =>
        cases h
        have hle₂ := skipFramed_length (Rd.attempt_ok_iff.mp hlist₂)
        exact ⟨c₂, h₂, rfl, hle₂.trans hle₁⟩
    · cases h
      exact ⟨c₁, h₁, rfl, hle₁⟩

/-- A reader that could be peeked at is inside its data. -/
theorem peekU64_left {r r' : MemReader} {w : Option UInt64} (h : peekU64.run r = (.ok w, r')) :
    MemReader.Left r.data r (r.data.drop r.pos) := by
  have hpos : r.pos ≤ r.data.length := by
    by_contra hpos
    have hfill : (BufRead.fillBuf : Rd WireError MemReader _).run r = (.stop (.panic .sliceOutOfRange), r) := if_neg hpos
    have hpass : (peekPass ()).run r = (.stop (.panic .sliceOutOfRange), r) := Rd.bind_stop hfill
    have hpeek : peekU64.run r = (Rd.loop peekPass (BufRead.size r + 1) ()).run r := rfl
    rw [hpeek, Rd.loop_succ, Rd.bind_stop hpass] at h
    cases h
  refine ⟨rfl, ?_, rfl⟩
  rw [List.length_drop]
  omega

/-- `rec` says what a pass from `m` to `m'` took from the client's stream. -/
structure Took (m m' : Streams) (rec : OpRecord) : Prop where
  data : m'.1.data = m.1.data
  inside : m'.1.position ≤ m'.1.data.length
  bytes : m.1.position + rec.requestBytes = m'.1.position
  framed : 8 + rec.framedSize ≤ rec.requestBytes

theorem collectPass_inl {split : SplitRecords} {acc acc' : List OpRecord}
    (h : (collectPass split v acc).run m = (.ok (.inl acc'), m')) : ∃ rec, acc' = acc ++ [rec] ∧ Took m m' rec := by
  obtain ⟨r, q⟩ := m
  rw [collectPass, Rd.bind_ok (run_client_position (r, q))] at h
  obtain ⟨code, r₁, hpeek, h⟩ := Rd.onFst_bind_ok_iff.mp h
  have hr := peekU64_left hpeek
  obtain ⟨c₁, hlist, h₁⟩ := (peekU64_rel MemReader.mirrors).followed hr hpeek
  cases code with
  | none => cases h
  | some opCode =>
    obtain ⟨rfl, rest, hrest⟩ := peekU64_some hlist
    have htake : (client (consume 8)).run (r₁, q) = (.ok (), (BufRead.consume 8 r₁, q)) := rfl
    have h₂ : MemReader.Left r.data (BufRead.consume 8 r₁) rest := by
      have hconsume := h₁.consume (show 8 ≤ (r.data.drop r.pos).length by rw [hrest]; simp)
      rwa [show BufRead.consume 8 (r.data.drop r.pos) = rest by rw [hrest]; exact List.drop_left' (wordBytes_length _)]
        at hconsume
    obtain ⟨opStart, hstart⟩ := lookupTimestamp_pure split.clientTs r.position
    simp only at h
    rw [Rd.bind_ok htake, hstart, pure_bind] at h
    split at h
    · cases h
    split at h
    · cases h
    rename_i o _
    obtain ⟨request, m₃, hrequest, h⟩ := Rd.bind_ok_iff.mp h
    cases request with
    | none => cases h
    | some request =>
      obtain ⟨argInfo, framedBytes⟩ := request
      obtain ⟨c₃, h₃, _, hle⟩ := collectRequest_some h₂ hrequest
      simp only at h
      rw [Rd.bind_ok (run_client_position m₃), Rd.bind_ok (run_daemon_position m₃)] at h
      obtain ⟨response, m₄, hresponse, h⟩ := Rd.bind_ok_iff.mp h
      cases response with
      | none => cases h
      | some stderrResult =>
        have hkeeps : m₄.1 = m₃.1 := by
          have hclient := collectResponse_keeps o v m₃
          rwa [hresponse] at hclient
        obtain ⟨opEndNs, hend⟩ := opEnd_pure split.daemonTs m₃.2.position m₄.2.position opStart
        simp only at h
        rw [Rd.bind_ok (run_daemon_position m₄), hend, pure_bind] at h
        cases h
        have hstart : r.pos + (8 + rest.length) = r.data.length := by
          rw [← hr.2.1, hrest, List.length_append, wordBytes_length]
        have hstop : m₃.1.pos + c₃.length = r.data.length := h₃.2.1
        refine ⟨_, rfl, ?_, ?_, ?_, ?_⟩
        · rw [hkeeps]
          exact h₃.1
        · rw [hkeeps]
          exact h₃.pos_le
        · rw [hkeeps]
          show r.pos + (m₃.1.pos - r.pos) = m₃.1.pos
          omega
        · show 8 + (framedBytes.getD 0).toNat ≤ m₃.1.pos - r.pos
          omega

/-- A pass that ends the loop adds nothing. -/
theorem collectPass_inr {split : SplitRecords} {acc out : List OpRecord}
    (h : (collectPass split v acc).run m = (.ok (.inr out), m')) : out = acc := by
  rw [collectPass, Rd.bind_ok (run_client_position m)] at h
  obtain ⟨code, m₁, _, h⟩ := Rd.bind_ok_iff.mp h
  cases code with
  | none => cases h; rfl
  | some opCode =>
    obtain ⟨_, m₂, _, h⟩ := Rd.bind_ok_iff.mp h
    obtain ⟨_, m₂', _, h⟩ := Rd.bind_ok_iff.mp h
    split at h
    · cases h; rfl
    split at h
    · cases h; rfl
    obtain ⟨request, m₃, _, h⟩ := Rd.bind_ok_iff.mp h
    cases request with
    | none => cases h; rfl
    | some request =>
      obtain ⟨_, _, _, h⟩ := Rd.bind_ok_iff.mp h
      obtain ⟨_, _, _, h⟩ := Rd.bind_ok_iff.mp h
      obtain ⟨response, m₄, _, h⟩ := Rd.bind_ok_iff.mp h
      cases response with
      | none => cases h; rfl
      | some stderrResult =>
        obtain ⟨_, _, _, h⟩ := Rd.bind_ok_iff.mp h
        obtain ⟨_, _, _, h⟩ := Rd.bind_ok_iff.mp h
        cases h

theorem collectPass_shrinks (split : SplitRecords) (v : ProtocolVersion) :
    Rd.Shrinks clientSize 8 (collectPass split v) := by
  intro acc acc' m m' h
  obtain ⟨rec, _, hdata, hinside, hbytes, hframed⟩ := collectPass_inl h
  show m'.1.data.length - m'.1.position + 8 ≤ m.1.data.length - m.1.position
  rw [hdata] at hinside ⊢
  omega

end

/-! ## The loop -/

/-- What some passes recorded is what they took from the client's stream. -/
theorem collected {split : SplitRecords} {v : ProtocolVersion} {n : Nat} {x y : List OpRecord × Streams}
    (h : Rd.Reaches (collectPass split v) n x y) : ∃ recs, y.1 = x.1 ++ recs ∧ recs.length = n ∧
      x.2.1.position + (recs.map OpRecord.requestBytes).sum = y.2.1.position ∧
      (recs.map OpRecord.framedSize).sum ≤ (recs.map OpRecord.requestBytes).sum := by
  induction h with
  | refl x => exact ⟨[], by simp⟩
  | step hpass _ ih =>
    obtain ⟨rec, rfl, _, _, hbytes, hframed⟩ := collectPass_inl hpass
    obtain ⟨recs, hrecs, hlen, hsum, hsmall⟩ := ih
    refine ⟨rec :: recs, by simp [hrecs], by simp [hlen], ?_, ?_⟩
    · simp only [List.map_cons, List.sum_cons] at hbytes hsum ⊢
      omega
    · simp only [List.map_cons, List.sum_cons]
      omega

/-- `collect_ops` returns what the passes before the one that ends its loop recorded. -/
theorem collectOps_ok_iff {split : SplitRecords} {info : HandshakeInfo} {recs : List OpRecord} {p m : Streams} :
    (collectOps split).run p = (.ok (info, recs), m) ↔ ∃ start last, parseHandshake.run p = (.ok info, start) ∧
      Rd.Reaches (collectPass split info.negotiatedVersion) recs.length ([], start) (recs, last) ∧
      (collectPass split info.negotiatedVersion recs).run last = (.ok (.inr recs), m) := by
  unfold collectOps
  simp only [Rd.bind_ok_iff, iterate_ok_iff (collectPass_shrinks _ _) (Nat.succ_pos 7)]
  constructor
  · intro h
    obtain ⟨_, start, hshake, _, m₁, ⟨n, acc, last, hr, hend⟩, h⟩ := h
    cases h
    obtain rfl := collectPass_inr hend
    obtain ⟨recs', hrecs, hlen, _⟩ := collected hr
    obtain rfl : recs = recs' := by simpa using hrecs
    exact ⟨start, last, hshake, hlen.symm ▸ hr, hend⟩
  · intro h
    obtain ⟨start, last, hshake, hr, hend⟩ := h
    exact ⟨info, start, hshake, recs, m, ⟨_, recs, last, hr, hend⟩, rfl⟩

/-! ## Every operation once -/

/-- What the rows sum to is what the records come to. -/
structure SumsOf (opRecords : List OpRecord) (stats : List OpStats) : Prop where
  count : (stats.map OpStats.count).sum = opRecords.length
  errors : (stats.map OpStats.errorCount).sum = (opRecords.filter fun rec => !rec.success).length
  requestBytes : (stats.map OpStats.totalRequestBytes).sum = UInt64.ofNat (opRecords.map OpRecord.requestBytes).sum
  framedBytes : (stats.map OpStats.totalFramedBytes).sum = UInt64.ofNat (opRecords.map OpRecord.framedSize).sum
  requestExact : (opRecords.map OpRecord.requestBytes).sum < 2 ^ 64 →
    (stats.map fun row => row.totalRequestBytes.toNat).sum = (opRecords.map OpRecord.requestBytes).sum
  framedExact : (opRecords.map OpRecord.framedSize).sum < 2 ^ 64 →
    (stats.map fun row => row.totalFramedBytes.toNat).sum = (opRecords.map OpRecord.framedSize).sum

theorem RowsOf.sums {opRecords : List OpRecord} {stats : List OpStats} (h : RowsOf opRecords stats) :
    SumsOf opRecords stats where
  count := h.count_sum
  errors := h.error_sum
  requestBytes := h.wrapped fun row hrow => (h.row row hrow).requestBytes
  framedBytes := h.wrapped fun row hrow => (h.row row hrow).framedBytes
  requestExact := h.exact fun row hrow => (h.row row hrow).requestBytes
  framedExact := h.exact fun row hrow => (h.row row hrow).framedBytes

/-- The statistics of any records account for each of them once, and the records of any
    recording for each client byte of the operations recorded. -/
theorem stats_account (order : HashOrder) :
    (∀ opRecords : List OpRecord, ∃ (stats : List OpStats) (slowest : List SlowestOp) (paths : List PathCount)
      (picked : List (Fin opRecords.length)), aggregate opRecords order = some (stats, slowest, paths) ∧
        RowsOf opRecords stats ∧ SumsOf opRecords stats ∧ SlowestOf opRecords slowest picked ∧ TopPathsOf opRecords paths) ∧
    (∀ (records : List Record) (info : HandshakeInfo) (opRecords : List OpRecord) (m : Streams),
      (collectOps (splitRecords records)).run
          (.new (splitRecords records).clientBytes, .new (splitRecords records).daemonBytes) = (.ok (info, opRecords), m) →
        ∃ start last : Streams,
          parseHandshake.run (.new (splitRecords records).clientBytes, .new (splitRecords records).daemonBytes) =
            (.ok info, start) ∧
          Rd.Reaches (collectPass (splitRecords records) info.negotiatedVersion) opRecords.length ([], start)
            (opRecords, last) ∧
          start.1.position + (opRecords.map OpRecord.requestBytes).sum = last.1.position ∧
          (opRecords.map OpRecord.framedSize).sum ≤ (opRecords.map OpRecord.requestBytes).sum) := by
  constructor
  · intro opRecords
    obtain ⟨stats, hrun, hrows⟩ := aggregate_rows opRecords order
    obtain ⟨picked, hpicked⟩ := slowestOps_of opRecords
    exact ⟨stats, _, _, picked, hrun, hrows, hrows.sums, hpicked, topPaths_of opRecords order⟩
  · intro records info opRecords m h
    obtain ⟨start, last, hshake, hr, _⟩ := collectOps_ok_iff.mp h
    obtain ⟨recs, hrecs, _, hsum, hframed⟩ := collected hr
    obtain rfl : opRecords = recs := by simpa using hrecs
    exact ⟨start, last, hshake, hr, hsum, hframed⟩

/-- A recording at 1.23 of a sync. -/
def syncRecording : List Record :=
  [{ direction := .clientToDaemon, offsetNs := 5, data := [workerMagic1, 0x0117, 0, 0, 13].flatMap wordBytes },
    { direction := .daemonToClient, offsetNs := 9,
      data := [workerMagic2, 0x0117, StderrCode.last.code, StderrCode.last.code, 1].flatMap wordBytes }]

/-- A sync that comes after the recorded one. -/
def secondSync : List Record :=
  [{ direction := .clientToDaemon, offsetNs := 12, data := wordBytes 13 },
    { direction := .daemonToClient, offsetNs := 15, data := [StderrCode.last.code, 1].flatMap wordBytes }]

/-- What is recorded of the two. -/
def syncOpRecords : List OpRecord :=
  [⟨"SyncWithGC".toList, 4, 8, none, true, some []⟩, ⟨"SyncWithGC".toList, 3, 8, none, true, some []⟩]

/-- Each of the two takes the eight bytes of its code. -/
theorem stats_account_sync :
    (collectOps (splitRecords (syncRecording ++ secondSync))).run (.new (splitRecords (syncRecording ++ secondSync)).clientBytes,
      .new (splitRecords (syncRecording ++ secondSync)).daemonBytes) =
        (.ok (failingSession.info, syncOpRecords), (⟨(splitRecords (syncRecording ++ secondSync)).clientBytes, 48⟩,
          ⟨(splitRecords (syncRecording ++ secondSync)).daemonBytes, 56⟩)) ∧
    (∃ stats slowest paths, ∃ picked : List (Fin 2), aggregate syncOpRecords ⟨id, List.Perm.refl⟩ = some (stats, slowest, paths) ∧
      RowsOf syncOpRecords stats ∧ SumsOf syncOpRecords stats ∧ SlowestOf syncOpRecords slowest picked ∧ TopPathsOf syncOpRecords paths) ∧
    ∃ start last : Streams,
      parseHandshake.run (.new (splitRecords (syncRecording ++ secondSync)).clientBytes,
        .new (splitRecords (syncRecording ++ secondSync)).daemonBytes) = (.ok failingSession.info, start) ∧
      Rd.Reaches (collectPass (splitRecords (syncRecording ++ secondSync)) failingSession.info.negotiatedVersion) 2 ([], start)
        (syncOpRecords, last) ∧
      start.1.position + 16 = last.1.position ∧ 0 ≤ 16 := by
  obtain ⟨hrows, hcollected⟩ := stats_account ⟨id, List.Perm.refl⟩
  have hrun : (collectOps (splitRecords (syncRecording ++ secondSync))).run
      (.new (splitRecords (syncRecording ++ secondSync)).clientBytes,
        .new (splitRecords (syncRecording ++ secondSync)).daemonBytes) =
      (.ok (failingSession.info, syncOpRecords), (⟨(splitRecords (syncRecording ++ secondSync)).clientBytes, 48⟩,
        ⟨(splitRecords (syncRecording ++ secondSync)).daemonBytes, 56⟩)) := by
    decide
  exact ⟨hrun, hrows syncOpRecords, hcollected _ _ _ _ hrun⟩

end NixWire
