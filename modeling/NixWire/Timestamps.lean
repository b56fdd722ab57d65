/-
  NixWire.Timestamps — the time of a byte (stats.rs, decode.rs, `split_records` and
  `lookup_timestamp`; script/decompile.rs, `lookup_timestamp_ms`).

  Splitting a recording keeps, for each direction, where every record's data starts in the
  joined stream, with the record's time. Looking an offset up there gives the time of the
  record that carried the byte, if no record is empty (`lookup_carrier`).
-/

import NixWire.Base.Stamps
import NixWire.Recorder

namespace NixWire.Recorder

open Base

/-! ## The index -/

/-- One direction's index. -/
def tsOf (d : Direction) (split : SplitRecords) : TimestampIndex :=
  match d with
  | .clientToDaemon => split.clientTs
  | .daemonToClient => split.daemonTs

/-- The records of one direction, each with its data. -/
def recordsOf (d : Direction) (records : List Record) : List (List UInt8 × Record) :=
  (records.filter fun r => r.direction = d).map fun r => (r.data, r)

/-- The time that goes into the index. -/
def stampTime {τ : Type} (time : Record → τ) (p : Nat × Record) : Nat × τ := (p.1, time p.2)

theorem recordsOf_same {d : Direction} {r : Record} (h : r.direction = d) (records : List Record) :
    recordsOf d (r :: records) = (r.data, r) :: recordsOf d records := by simp [recordsOf, h]

theorem recordsOf_other {d : Direction} {r : Record} (h : r.direction ≠ d) (records : List Record) :
    recordsOf d (r :: records) = recordsOf d records := by simp [recordsOf, h]

theorem joined_recordsOf (d : Direction) (records : List Record) : joined (recordsOf d records) = (chunksOf d records).flatten := by
  simp [joined, recordsOf, chunksOf, Function.comp_def]

theorem splitRecord_ts_same {split : SplitRecords} {r : Record} {d : Direction} (h : r.direction = d) :
    tsOf d (splitRecord split r) = tsOf d split ++ [((bytesOf d split).length, r.offsetNs)] := by
  subst h
  obtain ⟨offsetNs, direction, data⟩ := r
  cases direction <;> rfl

theorem splitRecord_ts_other {split : SplitRecords} {r : Record} {d : Direction} (h : r.direction ≠ d) :
    tsOf d (splitRecord split r) = tsOf d split := by
  obtain ⟨offsetNs, direction, data⟩ := r
  cases direction <;> cases d <;> first | rfl | exact absurd rfl h

theorem splitRecords_ts (records : List Record) (d : Direction) :
    tsOf d (splitRecords records) = (starts 0 (recordsOf d records)).map (stampTime Record.offsetNs) := by
  have hfold : ∀ split, tsOf d (records.foldl splitRecord split) =
      tsOf d split ++ (starts (bytesOf d split).length (recordsOf d records)).map (stampTime Record.offsetNs) := by
    induction records with
    | nil => intro split; simp [recordsOf, starts]
    | cons r records ih =>
      intro split
      rw [List.foldl_cons, ih, splitRecord_bytes]
      by_cases hd : r.direction = d
      · rw [splitRecord_ts_same hd, recordsOf_same hd, chunksOf_same hd, starts, List.map_cons, List.append_assoc]
        simp [stampTime]
      · rw [splitRecord_ts_other hd, recordsOf_other hd, chunksOf_other hd]
        simp
  rw [splitRecords, hfold]
  cases d <;> rfl

/-! ## The lookup -/

section

variable {τ : Type} {ts before after : List (Nat × τ)} {o byteOffset : Nat} {t : τ}

theorem timestampAt_split {ε R : Type} (h : ts = before ++ (o, t) :: after) :
    (timestampAt ts before.length : Rd ε R _) = pure (some t) := by
  subst h
  simp [timestampAt]

/-- The entry found is the last one at or before the offset. -/
theorem lookup_split (h : ts = before ++ (o, t) :: after) (hbefore : ∀ p ∈ before, p.1 < o) (ho : o ≤ byteOffset)
    (hafter : ∀ p ∈ after, byteOffset < p.1) {ε R : Type} :
    (lookupTimestampMs ts byteOffset : Rd ε R _) = pure (some t) := by
  have hat : (timestampAt ts before.length : Rd ε R _) = pure (some t) := timestampAt_split h
  have hne : ts.isEmpty = false := by simp [h]
  have hbefore' : ∀ p ∈ before, (p.1 == byteOffset) = false := by
    intro p hp
    have := hbefore p hp
    simp
    omega
  have hfind : ts.findIdx? (fun p => p.1 == byteOffset) = if o = byteOffset then some before.length else none := by
    rw [h, List.findIdx?_append, List.findIdx?_eq_none_iff.mpr hbefore', List.findIdx?_cons]
    by_cases heq : o = byteOffset
    · simp [heq]
    · have hnone : after.findIdx? (fun p => p.1 == byteOffset) = none := by
        refine List.findIdx?_eq_none_iff.mpr fun p hp => ?_
        have := hafter p hp
        simp
        omega
      simp [heq, hnone]
  have hcount : o ≠ byteOffset → ts.countP (fun p => p.1 < byteOffset) = before.length + 1 := by
    intro heq
    have hall : before.countP (fun p => decide (p.1 < byteOffset)) = before.length := by
      refine List.countP_eq_length.mpr fun p hp => ?_
      have := hbefore p hp
      simp
      omega
    have hnone : after.countP (fun p => decide (p.1 < byteOffset)) = 0 := by
      refine List.countP_eq_zero.mpr fun p hp => ?_
      have := hafter p hp
      simp
      omega
    rw [h, List.countP_append, List.countP_cons, hall, hnone, if_pos (by simp; omega)]
  unfold lookupTimestampMs
  rw [hne, if_neg (by simp), binarySearch, hfind]
  by_cases heq : o = byteOffset
  · rw [if_pos heq]
    exact hat
  · rw [if_neg heq, hcount heq]
    exact hat

end

/-- The record of direction `d` whose data holds the byte at the offset, as its `k`-th. -/
def CarriedBy (d : Direction) (records : List Record) (offset : Nat) (r : Record) (k : Nat) : Prop :=
  ∃ before after, records = before ++ r :: after ∧ r.direction = d ∧ k < r.data.length ∧
    offset = (bytesOf d (splitRecords before)).length + k

theorem carriedBy_stamp {d : Direction} {records : List Record} {offset k : Nat} {r : Record}
    (h : CarriedBy d records offset r k) : stampAt (recordsOf d records) offset = some r := by
  obtain ⟨before, after, rfl, hd, hk, rfl⟩ := h
  have hjoined : (joined (recordsOf d before)).length = (bytesOf d (splitRecords before)).length := by
    rw [joined_recordsOf, splitRecords_bytes]
  have hsplit : recordsOf d (before ++ r :: after) = recordsOf d before ++ (r.data, r) :: recordsOf d after := by
    rw [← recordsOf_same hd]
    simp [recordsOf]
  exact stampAt_iff.mpr ⟨recordsOf d before, r.data, recordsOf d after, hsplit, by omega, by omega⟩

theorem exists_carriedBy {d : Direction} {records : List Record} {offset : Nat}
    (h : offset < (bytesOf d (splitRecords records)).length) : ∃ r k, CarriedBy d records offset r k := by
  rw [splitRecords_bytes, ← joined_recordsOf] at h
  obtain ⟨r, hr⟩ := exists_stampAt h
  obtain ⟨before, c, after, heq, hlo, hhi⟩ := stampAt_iff.mp hr
  -- the record and those around it, in the whole recording
  obtain ⟨firsts, rest, hfilter, hfirsts, hrest⟩ := List.map_eq_append_iff.mp heq
  obtain ⟨r', others, rfl, hr', -⟩ := List.map_eq_cons_iff.mp hrest
  cases hr'
  obtain ⟨whole₁, whole₂, rfl, rfl, hwhole⟩ := List.filter_eq_append_iff.mp hfilter
  obtain ⟨skipped, whole₃, rfl, hskipped, hd, -⟩ := List.filter_eq_cons_iff.mp hwhole
  have hnone : recordsOf d skipped = [] := by
    rw [recordsOf, List.filter_eq_nil_iff.mpr fun a ha => by simpa using hskipped a ha, List.map_nil]
  have hbefore : recordsOf d (whole₁ ++ skipped) = before := by
    rw [← hfirsts, ← List.append_nil (List.map _ _), ← hnone]
    simp [recordsOf]
  have hlen : (bytesOf d (splitRecords (whole₁ ++ skipped))).length = (joined before).length := by
    rw [splitRecords_bytes, ← joined_recordsOf, hbefore]
  exact ⟨r, offset - (joined before).length, whole₁ ++ skipped, whole₃, by simp, by simpa using hd, by omega, by omega⟩

/-- The byte is the record's. -/
theorem CarriedBy.byte {d : Direction} {records : List Record} {offset k : Nat} {r : Record}
    (h : CarriedBy d records offset r k) : (bytesOf d (splitRecords records))[offset]? = r.data[k]? := by
  obtain ⟨before, after, rfl, hd, hk, rfl⟩ := h
  have hsplit : before ++ r :: after = before ++ ([r] ++ after) := rfl
  rw [splitRecords_bytes, splitRecords_bytes, hsplit, chunksOf_append, chunksOf_append, chunksOf_same hd]
  rw [List.flatten_append, List.getElem?_append_right (by omega), Nat.add_sub_cancel_left]
  simp [List.getElem?_append_left hk]

/-- The time found for a byte is the time of its record, whatever the times are kept as. -/
theorem lookup_carried {d : Direction} {records : List Record} (hne : ∀ r ∈ records, r.data ≠ []) {offset k : Nat} {r : Record}
    (h : CarriedBy d records offset r k) {τ : Type} (ms : UInt64 → τ) {ε R : Type} :
    (lookupTimestampMs ((tsOf d (splitRecords records)).map fun p => (p.1, ms p.2)) offset : Rd ε R _) =
      pure (some (ms r.offsetNs)) := by
  have hchunks : ∀ c ∈ recordsOf d records, c.1 ≠ [] := by
    intro c hc
    obtain ⟨r', hr', rfl⟩ := List.mem_map.mp hc
    exact hne r' (List.mem_of_mem_filter hr')
  obtain ⟨before, o, after, heq, hbefore, ho, hafter⟩ := @starts_split _ _ 0 _ hchunks _ _ (carriedBy_stamp h)
  have hindex : (tsOf d (splitRecords records)).map (fun p => (p.1, ms p.2)) =
      before.map (stampTime fun r => ms r.offsetNs) ++ (o, ms r.offsetNs) :: after.map (stampTime fun r => ms r.offsetNs) := by
    rw [splitRecords_ts, heq, List.map_map, List.map_append]
    rfl
  refine lookup_split hindex ?_ (by omega) ?_
  · intro p hp
    obtain ⟨q, hq, rfl⟩ := List.mem_map.mp hp
    exact hbefore q hq
  · intro p hp
    obtain ⟨q, hq, rfl⟩ := List.mem_map.mp hp
    have := hafter q hq
    show offset < q.1
    omega

theorem lookupTimestamp_carried {d : Direction} {records : List Record} (hne : ∀ r ∈ records, r.data ≠ []) {offset k : Nat}
    {r : Record} (h : CarriedBy d records offset r k) {ε R : Type} :
    (lookupTimestamp (tsOf d (splitRecords records)) offset : Rd ε R _) = pure r.offsetNs := by
  have hms := @lookup_carried _ _ hne _ _ _ h _ id ε R
  simp only [id_eq, Prod.mk.eta, List.map_id'] at hms
  rw [lookupTimestamp_ms, hms, map_pure]
  rfl

theorem carried_mono {d : Direction} {records : List Record} (htimes : records.Pairwise fun r r' => r.offsetNs ≤ r'.offsetNs)
    {a b k k' : Nat} {r r' : Record} (hab : a ≤ b) (ha : CarriedBy d records a r k) (hb : CarriedBy d records b r' k') :
    r.offsetNs ≤ r'.offsetNs := by
  have hpairwise : (recordsOf d records).Pairwise fun c c' => c.2.offsetNs ≤ c'.2.offsetNs :=
    List.pairwise_map.mpr (htimes.filter _)
  have hrefl : ∀ r : Record, r.offsetNs ≤ r.offsetNs := fun r => UInt64.le_refl _
  exact stampAt_mono (r := fun r r' : Record => r.offsetNs ≤ r'.offsetNs) hrefl hpairwise hab (carriedBy_stamp ha)
    (carriedBy_stamp hb)

/-- Every byte of a direction is in the data of one of its records, and looking its offset up
    gives that record's time (in the tools' index and in the unpacker's, which keeps the
    times in another unit); where the records' times do not decrease, neither do the times
    found. -/
theorem lookup_carrier {records : List Record} (hne : ∀ r ∈ records, r.data ≠ []) (d : Direction) :
    (∀ offset < (bytesOf d (splitRecords records)).length, ∃ r k, CarriedBy d records offset r k) ∧
    (∀ offset r k, CarriedBy d records offset r k → (bytesOf d (splitRecords records))[offset]? = r.data[k]? ∧
      (∀ {ε R : Type}, (lookupTimestamp (tsOf d (splitRecords records)) offset : Rd ε R _) = pure r.offsetNs) ∧
      ∀ {τ ε R : Type} (ms : UInt64 → τ),
        (lookupTimestampMs ((tsOf d (splitRecords records)).map fun p => (p.1, ms p.2)) offset : Rd ε R _) =
          pure (some (ms r.offsetNs))) ∧
    (records.Pairwise (fun r r' => r.offsetNs ≤ r'.offsetNs) → ∀ a b, a ≤ b →
      b < (bytesOf d (splitRecords records)).length → ∃ ta tb, ta ≤ tb ∧
        ∀ {ε R : Type}, (lookupTimestamp (tsOf d (splitRecords records)) a : Rd ε R _) = pure ta ∧
          (lookupTimestamp (tsOf d (splitRecords records)) b : Rd ε R _) = pure tb) := by
  refine ⟨fun offset h => exists_carriedBy h, fun offset r k h => ⟨h.byte, ?_, ?_⟩, fun htimes a b hab hb => ?_⟩
  · exact lookupTimestamp_carried hne h
  · exact fun ms => lookup_carried hne h ms
  · obtain ⟨r, k, hr⟩ := exists_carriedBy (Nat.lt_of_le_of_lt hab hb)
    obtain ⟨r', k', hr'⟩ := exists_carriedBy hb
    exact ⟨r.offsetNs, r'.offsetNs, carried_mono htimes hab hr hr', lookupTimestamp_carried hne hr, lookupTimestamp_carried hne hr'⟩

/-- The client sends one byte at 5 ns and two at 9 ns, with an answer between: its bytes are
    of 5, 9 and 9 ns. -/
theorem lookup_carrier_three :
    let records : List Record := [⟨5, .clientToDaemon, [1]⟩, ⟨7, .daemonToClient, [2, 3]⟩, ⟨9, .clientToDaemon, [4, 5]⟩]
    (lookupTimestamp (tsOf .clientToDaemon (splitRecords records)) 0 : Rd WireError Unit _) = pure 5 ∧
      (lookupTimestamp (tsOf .clientToDaemon (splitRecords records)) 2 : Rd WireError Unit _) = pure 9 := by
  intro records
  obtain ⟨-, hfound, -⟩ := @lookup_carrier records (by decide) .clientToDaemon
  refine ⟨(hfound 0 ⟨5, .clientToDaemon, [1]⟩ 0 ?_).2.1, (hfound 2 ⟨9, .clientToDaemon, [4, 5]⟩ 1 ?_).2.1⟩
  · exact ⟨[], records.drop 1, rfl, rfl, by decide, by decide⟩
  · exact ⟨records.take 2, [], rfl, rfl, by decide, by decide⟩

end NixWire.Recorder
