/-
  NixWire.Sender — what a replay sends, and when (replay.rs, `send_client_records`).

  The sender writes the recording's client records in order. With `timing` it sleeps first
  as long as the record's offset is past that of the client record before. How long sleeps
  and writes really take is a parameter (`Clock`).

  - What is written is the client's side of the recording, whatever the timing; where the
    pipe breaks it is as much of it as the pipe took, and the error names the record that
    the break is in (`sent_bytes`).
  - If a sleep takes no less than it was asked for, no write begins before the record's time.
    Where no offset goes back, what the sleeps before it were asked for is the record's
    offset; only after offsets that went back is it more (`sent_in_time`).
-/

import NixWire.Recorder

namespace NixWire

open Base

/-! ## send_client_records -/

/-- How long things take, in nanoseconds: the `n`-th sleep, by what it is asked for, and the
    `n`-th write. -/
structure Clock where
  slept (n ns : Nat) : Nat
  wrote (n : Nat) : Nat

/-- A write. -/
structure Sent where
  /-- When it began, in nanoseconds since the sender did. -/
  time : Nat
  /-- What the sleeps before it were asked for, in all. -/
  asked : Nat
  data : List UInt8
  deriving DecidableEq

/-- The sender's end of the pipe. -/
structure Outlet where
  now : Nat
  /-- What each sleep was asked for. -/
  asked : List Nat
  written : List Sent
  /-- How many bytes more the pipe takes before it breaks, if it does. -/
  room : Option Nat

inductive SendError where
  /-- "failed to write record {i} to daemon" -/
  | writeRecord (i : Nat)

section

variable (clock : Clock)

def sleep (ns : Nat) : Rd SendError Outlet Unit := ⟨fun w =>
  (.ok (), { w with now := w.now + clock.slept w.asked.length ns, asked := w.asked ++ [ns] })⟩

/-- These bytes are written. -/
def Outlet.write (w : Outlet) (data : List UInt8) (room : Option Nat) : Outlet :=
  { w with
    now := w.now + clock.wrote w.written.length
    written := w.written ++ [⟨w.now, w.asked.sum, data⟩]
    room }

/-- `write_all` of record `i`, and the flush. -/
def writeRecord (i : Nat) (data : List UInt8) : Rd SendError Outlet Unit := ⟨fun w =>
  match w.room with
  | none => (.ok (), w.write clock data none)
  | some n =>
    if data.length ≤ n then (.ok (), w.write clock data (some (n - data.length)))
    else (.stop (.err (.writeRecord i)), w.write clock (data.take n) (some 0))⟩

def sendLoop (timing : Bool) : Nat → UInt64 → List Record → Rd SendError Outlet Unit
  | _, _, [] => return ()
  | i, prevOffsetNs, rec :: rest =>
    if rec.direction ≠ .clientToDaemon then sendLoop timing (i + 1) prevOffsetNs rest
    else do
      if timing && rec.offsetNs > prevOffsetNs then sleep clock (rec.offsetNs - prevOffsetNs).toNat
      writeRecord clock i rec.data
      sendLoop timing (i + 1) rec.offsetNs rest

def sendClientRecords (timing : Bool) (records : List Record) : Rd SendError Outlet Unit := sendLoop clock timing 0 0 records

end

/-! ## What is written -/

/-- The bytes written. -/
def Outlet.bytes (w : Outlet) : List UInt8 := w.written.flatMap (·.data)

def clientRecords (records : List Record) : List Record := records.filter fun r => r.direction = .clientToDaemon

def clientData (records : List Record) : List UInt8 := (clientRecords records).flatMap Record.data

theorem clientData_split (records : List Record) : (splitRecords records).clientBytes = clientData records := by
  rw [clientData, List.flatMap_def]
  exact Recorder.splitRecords_bytes records .clientToDaemon

section

variable {clock : Clock} {timing : Bool} {i : Nat} {prevOffsetNs : UInt64} {rec : Record} {rest : List Record} {w : Outlet}

theorem clientRecords_cons_ne (h : rec.direction ≠ .clientToDaemon) : clientRecords (rec :: rest) = clientRecords rest := by
  rw [clientRecords, List.filter_cons_of_neg (by simpa using h)]
  rfl

theorem clientRecords_cons (h : rec.direction = .clientToDaemon) : clientRecords (rec :: rest) = rec :: clientRecords rest := by
  rw [clientRecords, List.filter_cons_of_pos (by simpa using h)]
  rfl

theorem clientData_cons_ne (h : rec.direction ≠ .clientToDaemon) : clientData (rec :: rest) = clientData rest := by
  rw [clientData, clientRecords_cons_ne h, clientData]

theorem clientData_cons (h : rec.direction = .clientToDaemon) : clientData (rec :: rest) = rec.data ++ clientData rest := by
  rw [clientData, clientRecords_cons h, List.flatMap_cons, clientData]

/-- The sleep before the record, if there is one. -/
def Outlet.pause (w : Outlet) (clock : Clock) (timing : Bool) (prevOffsetNs : UInt64) (rec : Record) : Outlet :=
  if timing && rec.offsetNs > prevOffsetNs then ((sleep clock (rec.offsetNs - prevOffsetNs).toNat).run w).2 else w

@[simp] theorem pause_written : (w.pause clock timing prevOffsetNs rec).written = w.written := by
  unfold Outlet.pause
  split <;> rfl

@[simp] theorem pause_room : (w.pause clock timing prevOffsetNs rec).room = w.room := by
  unfold Outlet.pause
  split <;> rfl

theorem sendLoop_skip (h : rec.direction ≠ .clientToDaemon) :
    sendLoop clock timing i prevOffsetNs (rec :: rest) = sendLoop clock timing (i + 1) prevOffsetNs rest := by
  rw [sendLoop, if_pos h]

theorem sendLoop_send (h : rec.direction = .clientToDaemon) : (sendLoop clock timing i prevOffsetNs (rec :: rest)).run w =
    (writeRecord clock i rec.data >>= fun _ => sendLoop clock timing (i + 1) rec.offsetNs rest).run
      (w.pause clock timing prevOffsetNs rec) := by
  rw [sendLoop, if_neg (by simpa using h), Outlet.pause]
  by_cases hgap : (timing && decide (rec.offsetNs > prevOffsetNs)) = true
  · rw [if_pos hgap, if_pos hgap]
    rfl
  · rw [if_neg hgap, if_neg hgap]

/-- The pipe takes `n` bytes more. -/
def Outlet.Takes (w : Outlet) (n : Nat) : Prop := ∀ room ∈ w.room, n ≤ room

theorem writeRecord_takes (i : Nat) {data : List UInt8} {more : Nat} (h : w.Takes (data.length + more)) :
    ∃ w', (writeRecord clock i data).run w = (.ok (), w') ∧ w'.bytes = w.bytes ++ data ∧ w'.Takes more := by
  obtain ⟨now, asked, written, room⟩ := w
  cases room with
  | none => exact ⟨_, rfl, by simp [Outlet.bytes, Outlet.write], fun _ hroom => by cases hroom⟩
  | some n =>
    have hn : data.length + more ≤ n := h n rfl
    refine ⟨Outlet.write clock ⟨now, asked, written, some n⟩ data (some (n - data.length)), ?_, ?_, ?_⟩
    · simp only [writeRecord, if_pos (show data.length ≤ n by omega)]
    · simp [Outlet.bytes, Outlet.write]
    · intro room hroom
      cases hroom
      omega

theorem writeRecord_breaks (i : Nat) {data : List UInt8} {n : Nat} (hroom : w.room = some n) (h : n < data.length) :
    (writeRecord clock i data).run w = (.stop (.err (.writeRecord i)), w.write clock (data.take n) (some 0)) := by
  simp only [writeRecord, hroom, if_neg (show ¬data.length ≤ n by omega)]

theorem writeRecord_room (i : Nat) {data : List UInt8} {n : Nat} (hroom : w.room = some n) (h : data.length ≤ n) :
    (writeRecord clock i data).run w = (.ok (), w.write clock data (some (n - data.length))) := by
  simp only [writeRecord, hroom, if_pos h]

theorem pause_bytes : (w.pause clock timing prevOffsetNs rec).bytes = w.bytes := by
  rw [Outlet.bytes, pause_written, Outlet.bytes]

theorem write_bytes (data : List UInt8) (room : Option Nat) : (w.write clock data room).bytes = w.bytes ++ data := by
  simp [Outlet.bytes, Outlet.write]

/-- The loop writes the records it is given, if the pipe takes them. -/
theorem sendLoop_takes {records : List Record} (h : w.Takes (clientData records).length) :
    ∃ w', (sendLoop clock timing i prevOffsetNs records).run w = (.ok (), w') ∧ w'.bytes = w.bytes ++ clientData records := by
  induction records generalizing i prevOffsetNs w with
  | nil => exact ⟨w, rfl, (List.append_nil _).symm⟩
  | cons rec rest ih =>
    by_cases hdir : rec.direction = .clientToDaemon
    · rw [clientData_cons hdir] at h ⊢
      rw [List.length_append] at h
      have hpaused : (w.pause clock timing prevOffsetNs rec).Takes (rec.data.length + (clientData rest).length) := by
        rw [Outlet.Takes, pause_room]
        exact h
      obtain ⟨w₁, hwrite, hbytes₁, htakes⟩ := @writeRecord_takes clock _ i _ _ hpaused
      obtain ⟨w', hrest, hbytes⟩ := @ih (i + 1) rec.offsetNs w₁ htakes
      refine ⟨w', ?_, ?_⟩
      · rw [sendLoop_send hdir, Rd.bind_ok hwrite, hrest]
      · rw [hbytes, hbytes₁, pause_bytes, List.append_assoc]
    · rw [clientData_cons_ne hdir] at h ⊢
      obtain ⟨w', hrest, hbytes⟩ := @ih (i + 1) prevOffsetNs w h
      exact ⟨w', (congrArg (fun x => x.run w) (sendLoop_skip hdir)).trans hrest, hbytes⟩

/-- Where the pipe breaks, the loop stops in the record of the break. -/
theorem sendLoop_breaks {records : List Record} {n : Nat} (hroom : w.room = some n) (h : n < (clientData records).length) :
    ∃ k rec w', (sendLoop clock timing i prevOffsetNs records).run w = (.stop (.err (.writeRecord (i + k))), w') ∧
      records[k]? = some rec ∧ rec.direction = .clientToDaemon ∧ w'.bytes = w.bytes ++ (clientData records).take n ∧
      (clientData (records.take k)).length ≤ n ∧ n < (clientData (records.take k)).length + rec.data.length := by
  induction records generalizing i prevOffsetNs w n with
  | nil => cases h
  | cons rec rest ih =>
    by_cases hdir : rec.direction = .clientToDaemon
    · rw [clientData_cons hdir] at h ⊢
      rw [List.length_append] at h
      rw [sendLoop_send hdir]
      have hpaused : (w.pause clock timing prevOffsetNs rec).room = some n := pause_room.trans hroom
      by_cases hfits : rec.data.length ≤ n
      · -- the record is written, and the break is in a later one
        have hwrite := @writeRecord_room clock _ i _ _ hpaused hfits
        obtain ⟨k, failing, w', hrest, hk, hclient, hbytes, hle, hlt⟩ := @ih (i + 1) rec.offsetNs
          ((w.pause clock timing prevOffsetNs rec).write clock rec.data (some (n - rec.data.length))) _ rfl
          (show n - rec.data.length < (clientData rest).length by omega)
        refine ⟨k + 1, failing, w', ?_, hk, hclient, ?_, ?_, ?_⟩
        · rw [Rd.bind_ok hwrite, hrest, Nat.add_assoc, Nat.add_comm 1]
        · rw [hbytes, write_bytes, pause_bytes, List.append_assoc, List.take_append, List.take_of_length_le hfits]
        · rw [List.take_succ_cons, clientData_cons hdir, List.length_append]
          omega
        · rw [List.take_succ_cons, clientData_cons hdir, List.length_append]
          omega
      · have hwrite := @writeRecord_breaks clock _ i _ _ hpaused (Nat.lt_of_not_le hfits)
        refine ⟨0, rec, _, Rd.bind_stop hwrite, rfl, hdir, ?_, Nat.zero_le _, ?_⟩
        · rw [write_bytes, pause_bytes, List.take_append_of_le_length (by omega)]
        · rw [List.take_zero]
          show n < 0 + rec.data.length
          omega
    · rw [clientData_cons_ne hdir] at h ⊢
      rw [sendLoop_skip hdir]
      obtain ⟨k, failing, w', hrest, hk, hclient, hbytes, hle, hlt⟩ := @ih (i + 1) prevOffsetNs w n hroom h
      have htake : clientData ((rec :: rest).take (k + 1)) = clientData (rest.take k) := by
        rw [List.take_succ_cons, clientData_cons_ne hdir]
      refine ⟨k + 1, failing, w', ?_, hk, hclient, hbytes, ?_, ?_⟩
      · rw [hrest, Nat.add_assoc, Nat.add_comm 1]
      · rwa [htake]
      · rwa [htake]

end

/-- Whatever the timing, the client's side of the recording is written; or as much of it as
    the pipe takes, and the error names the record that breaks it. -/
theorem sent_bytes (clock : Clock) (timing : Bool) (records : List Record) (room : Option Nat) :
    match (sendClientRecords clock timing records).run ⟨0, [], [], room⟩ with
    | (.ok (), w) => w.bytes = (splitRecords records).clientBytes ∧ ∀ n ∈ room, (splitRecords records).clientBytes.length ≤ n
    | (.stop o, w) => ∃ n k rec, room = some n ∧ o = .err (.writeRecord k) ∧ records[k]? = some rec ∧
        rec.direction = .clientToDaemon ∧ w.bytes = (splitRecords records).clientBytes.take n ∧
        (splitRecords (records.take k)).clientBytes.length ≤ n ∧
        n < (splitRecords (records.take k)).clientBytes.length + rec.data.length := by
  simp only [clientData_split]
  by_cases htakes : ∀ n ∈ room, (clientData records).length ≤ n
  · obtain ⟨w', hrun, hbytes⟩ := @sendLoop_takes clock timing 0 0 ⟨0, [], [], room⟩ records htakes
    rw [sendClientRecords, hrun]
    exact ⟨hbytes, htakes⟩
  · obtain ⟨n, hn, hlong⟩ : ∃ n, room = some n ∧ n < (clientData records).length := by
      by_contra hno
      refine htakes fun n hn => ?_
      by_contra hlong
      exact hno ⟨n, hn, by omega⟩
    obtain ⟨k, rec, w', hrun, hk, hclient, hbytes, hle, hlt⟩ := @sendLoop_breaks clock timing 0 0 ⟨0, [], [], room⟩ records n hn hlong
    rw [Nat.zero_add] at hrun
    rw [sendClientRecords, hrun]
    exact ⟨n, k, rec, hn, rfl, hk, hclient, hbytes, hle, hlt⟩

/-! ## When it is written -/

/-- The record is written as it is, and not before its time. -/
def InTime (rec : Record) (sent : Sent) : Prop := sent.data = rec.data ∧ rec.offsetNs.toNat ≤ sent.time

/-- The offsets of the client records do not go back. -/
def Chronological (prevOffsetNs : UInt64) (records : List Record) : Prop :=
  (prevOffsetNs :: (clientRecords records).map Record.offsetNs).Pairwise (· ≤ ·)

section

variable {clock : Clock} {prevOffsetNs : UInt64} {rec : Record} {w : Outlet}

/-- The sleeps add up to the record's offset, where it is past the last one. -/
theorem pause_asked : (w.pause clock true prevOffsetNs rec).asked.sum =
    w.asked.sum + (rec.offsetNs.toNat - prevOffsetNs.toNat) := by
  rw [Outlet.pause, Bool.true_and]
  by_cases hgap : prevOffsetNs < rec.offsetNs
  · rw [if_pos (decide_eq_true hgap)]
    show (w.asked ++ [(rec.offsetNs - prevOffsetNs).toNat]).sum = _
    rw [List.sum_append, List.sum_singleton, UInt64.toNat_sub_of_le _ _ (UInt64.le_of_lt hgap)]
  · rw [if_neg (by simpa using hgap)]
    rw [UInt64.lt_iff_toNat_lt] at hgap
    omega

theorem pause_now (hsleep : ∀ n ns, ns ≤ clock.slept n ns) (h : w.asked.sum ≤ w.now) :
    w.now ≤ (w.pause clock true prevOffsetNs rec).now ∧
      (w.pause clock true prevOffsetNs rec).asked.sum ≤ (w.pause clock true prevOffsetNs rec).now := by
  unfold Outlet.pause
  split
  · have hslept := hsleep w.asked.length (rec.offsetNs - prevOffsetNs).toNat
    refine ⟨Nat.le_add_right _ _, ?_⟩
    show (w.asked ++ [(rec.offsetNs - prevOffsetNs).toNat]).sum ≤ w.now + clock.slept w.asked.length _
    rw [List.sum_append, List.sum_singleton]
    omega
  · exact ⟨Nat.le_refl _, h⟩

/-- From a time when the last offset was asked for. -/
theorem sendLoop_times (hsleep : ∀ n ns, ns ≤ clock.slept n ns) {records : List Record} {i : Nat} (hroom : w.room = none)
    (hasked : prevOffsetNs.toNat ≤ w.asked.sum) (hnow : w.asked.sum ≤ w.now) :
    ∃ sent w', (sendLoop clock true i prevOffsetNs records).run w = (.ok (), w') ∧ w'.written = w.written ++ sent ∧
      List.Forall₂ InTime (clientRecords records) sent ∧ (sent.map Sent.time).Pairwise (· ≤ ·) ∧
      (∀ s ∈ sent, w.now ≤ s.time) ∧
      (Chronological prevOffsetNs records → w.asked.sum = prevOffsetNs.toNat →
        List.Forall₂ (fun rec s => s.asked = rec.offsetNs.toNat) (clientRecords records) sent) := by
  induction records generalizing i prevOffsetNs w with
  | nil => exact ⟨[], w, rfl, (List.append_nil _).symm, .nil, .nil, List.forall_mem_nil _, fun _ _ => .nil⟩
  | cons rec rest ih =>
    by_cases hdir : rec.direction = .clientToDaemon
    · -- the record is written after a pause, if any
      obtain ⟨hlater, hslept⟩ := @pause_now clock prevOffsetNs rec w hsleep hnow
      have hsum := @pause_asked clock prevOffsetNs rec w
      have hroom' : (w.pause clock true prevOffsetNs rec).room = none := pause_room.trans hroom
      have hwritten' : (w.pause clock true prevOffsetNs rec).written = w.written := pause_written
      generalize hpaused : w.pause clock true prevOffsetNs rec = paused at hlater hslept hsum hroom' hwritten'
      have hwrite : (writeRecord clock i rec.data).run paused = (.ok (), paused.write clock rec.data none) := by
        simp only [writeRecord, hroom']
      have hbegun : rec.offsetNs.toNat ≤ paused.asked.sum := by omega
      obtain ⟨sent, w', hrest, hwritten, htimes, hsorted, hafter, hexact⟩ := @ih rec.offsetNs (paused.write clock rec.data none)
        (i + 1) rfl hbegun (Nat.le_trans hslept (Nat.le_add_right _ _))
      refine ⟨⟨paused.now, paused.asked.sum, rec.data⟩ :: sent, w', ?_, ?_, ?_, ?_, ?_, ?_⟩
      · rw [sendLoop_send hdir, hpaused, Rd.bind_ok hwrite, hrest]
      · rw [hwritten, Outlet.write, hwritten', List.append_assoc]
        rfl
      · rw [clientRecords_cons hdir]
        exact .cons ⟨rfl, Nat.le_trans hbegun hslept⟩ htimes
      · rw [List.map_cons, List.pairwise_cons]
        refine ⟨fun time htime => ?_, hsorted⟩
        obtain ⟨s, hs, rfl⟩ := List.mem_map.mp htime
        exact Nat.le_trans (Nat.le_add_right _ _) (hafter s hs)
      · rw [List.forall_mem_cons]
        exact ⟨hlater, fun s hs => Nat.le_trans hlater (Nat.le_trans (Nat.le_add_right _ _) (hafter s hs))⟩
      · intro hchron hstart
        rw [Chronological, clientRecords_cons hdir, List.map_cons, List.pairwise_cons] at hchron
        obtain ⟨hfirst, hrestchron⟩ := hchron
        have hle : prevOffsetNs.toNat ≤ rec.offsetNs.toNat := UInt64.le_iff_toNat_le.mp (hfirst _ List.mem_cons_self)
        have hexactly : paused.asked.sum = rec.offsetNs.toNat := by omega
        rw [clientRecords_cons hdir]
        exact .cons hexactly (hexact hrestchron hexactly)
    · obtain ⟨sent, w', hrest, hwritten, htimes, hsorted, hafter, hexact⟩ := @ih prevOffsetNs w (i + 1) hroom hasked hnow
      refine ⟨sent, w', (congrArg (fun x => x.run w) (sendLoop_skip hdir)).trans hrest, hwritten, ?_, hsorted, hafter, ?_⟩
      · rwa [clientRecords_cons_ne hdir]
      · intro hchron hstart
        rw [Chronological, clientRecords_cons_ne hdir] at hchron
        rw [clientRecords_cons_ne hdir]
        exact hexact hchron hstart

end

/-- With `timing` every client record is written, in order, and none begun before its time, if
    no sleep is too short; where no offset goes back, what the sleeps before a record are asked
    for adds up to its offset. -/
theorem sent_in_time (clock : Clock) (hsleep : ∀ n ns, ns ≤ clock.slept n ns) (records : List Record) :
    ∃ w, (sendClientRecords clock true records).run ⟨0, [], [], none⟩ = (.ok (), w) ∧
      List.Forall₂ InTime (clientRecords records) w.written ∧ (w.written.map Sent.time).Pairwise (· ≤ ·) ∧
      (((clientRecords records).map Record.offsetNs).Pairwise (· ≤ ·) →
        List.Forall₂ (fun rec s => s.asked = rec.offsetNs.toNat) (clientRecords records) w.written) := by
  obtain ⟨sent, w, hrun, hwritten, htimes, hsorted, -, hexact⟩ :=
    @sendLoop_times clock 0 ⟨0, [], [], none⟩ hsleep records 0 rfl (Nat.le_refl _) (Nat.le_refl _)
  rw [List.nil_append] at hwritten
  subst hwritten
  refine ⟨w, hrun, htimes, hsorted, fun hchron => hexact ?_ rfl⟩
  rw [Chronological, List.pairwise_cons]
  exact ⟨fun offsetNs _ => UInt64.le_iff_toNat_le.mpr (Nat.zero_le _), hchron⟩

/-- Sleeps that end at the millisecond after, and writes of ten nanoseconds. -/
def millisecondClock : Clock where
  slept _ ns := (ns / 1000000 + 1) * 1000000
  wrote _ := 10

/-- Two client records, and one of the daemon's between them. -/
def threeRecords : List Record :=
  [⟨1500, .clientToDaemon, [1]⟩, ⟨2000, .daemonToClient, [2]⟩, ⟨2500000, .clientToDaemon, [3]⟩]

theorem sent_in_time_three : ∃ w, (sendClientRecords millisecondClock true threeRecords).run ⟨0, [], [], none⟩ = (.ok (), w) ∧
    List.Forall₂ InTime (clientRecords threeRecords) w.written ∧ (w.written.map Sent.time).Pairwise (· ≤ ·) ∧
    (((clientRecords threeRecords).map Record.offsetNs).Pairwise (· ≤ ·) →
      List.Forall₂ (fun rec s => s.asked = rec.offsetNs.toNat) (clientRecords threeRecords) w.written) :=
  sent_in_time millisecondClock (fun _ ns => by show ns ≤ (ns / 1000000 + 1) * 1000000; omega) threeRecords

end NixWire
