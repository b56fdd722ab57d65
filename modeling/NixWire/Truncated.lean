/-
  NixWire.Truncated — a recording that was cut short (decode.rs, stats.rs,
  script/decompile.rs).

  A recorder that is killed leaves some of its first records. Over a front of their bytes
  every parser does what it does over all of them, until it reads past the cut (`Trimmed`,
  `TrimsBoth`). A code is peeked at before it is taken, so one that is cut is left where it
  is (`takeCode_trims`, `readStderrPass_trims`). The bytes that are left have the times they
  always had, as the same records carry them (`timeAt_front`, `stamp_front`).

  So what a tool had reported of a recording when it had read no further than the cut, it
  reports of what is left:
  - `cut_decoded`: the lines of `decode`, with their times.
  - `cut_counted`: the records of `stats`, with their durations.
  - `cut_unpacked`: the entries of `script unpack`, with their times.
-/

import NixWire.Base.Trim
import NixWire.Warnings
import NixWire.Timeline
import NixWire.Commands

namespace NixWire

open Base Recorder

/-! ## The parsers -/

section

variable {more : List UInt8}

theorem readU64_trims : Trimmed more readU64 := (readExact_trims _ 8).bind fun _ => Trims.pure _

theorem readBytes_trims : Trimmed more readBytes :=
  readU64_trims.bind fun _ => Trims.ite (Trims.fail _) <|
    (readExact_trims _ _).bind fun _ => Trims.ite ((readExact_trims _ _).bind fun _ => Trims.pure _) (Trims.pure _)

theorem readFramed_trims : Trimmed more readFramed := by
  refine readLoop_trims (fun _ => ?_) readFramedPass_shrinks (by omega) []
  exact readU64_trims.bind fun _ => Trims.ite (Trims.pure _) <| Trims.ite (Trims.fail _) <|
    (readExact_trims _ _).bind fun _ => Trims.pure _

theorem skipFramed_trims : Trimmed more skipFramed := by
  unfold Trimmed
  rw [skipFramed_eq]
  exact readFramed_trims.map _

theorem wirePrims_trims : (wirePrims : Prims WireError (List UInt8)).Related
    (fun {α} => @Trims WireError (List UInt8) (List UInt8) α (Before more) (Beyond more)) wirePrims where
  word := readU64_trims
  bytes := readBytes_trims
  framed := readFramed_trims
  blob := skipFramed_trims
  reserve _ := Trims.ite (Trims.abort _) (Trims.pure _)
  badText := rfl

theorem fmt_trims (f : Fmt) : Trimmed more (f.parse (wirePrims : Prims WireError (List UInt8))) :=
  parse_congr trims_congruence wirePrims_trims f

theorem layout_trims {α : Type} (l : Layout α) : Trimmed more (l.parse (wirePrims : Prims WireError (List UInt8))) :=
  (fmt_trims l.fmt).map l.of

theorem skipOpArgs_trims (op : Op) (v : ProtocolVersion) : Trimmed more (skipOpArgs op v) := by
  unfold Trimmed
  rw [skipOpArgs_eq]
  exact layout_trims _

theorem skipDaemonResult_trims (op : Op) (v : ProtocolVersion) : Trimmed more (skipDaemonResult op v) := by
  unfold Trimmed
  rw [skipDaemonResult_eq]
  exact (fmt_trims _).map _

theorem readOpCall_trims (op : Option Op) (v : ProtocolVersion) : Trimmed more (readOpCall op v) := by
  cases op with
  | none => exact Trims.pure _
  | some o =>
    have hargs : Trimmed more (readOpArgs o v : Rd WireError (List UInt8) _) := by
      unfold Trimmed
      rw [readOpArgs_eq]
      exact layout_trims _
    refine hargs.bind fun call => ?_
    cases call with
    | some call => exact Trims.pure _
    | none =>
      refine (skipOpArgs_trims o v).attempt.bind fun _ => ?_
      exact (Trims.ite (skipFramed_trims.map some) (Trims.pure none)).bind fun _ => Trims.pure _

theorem readResult_trims (op : Option Op) (v : ProtocolVersion) (terminal : Option StderrCode) :
    Trimmed more (readResult op v terminal) := by
  refine Trims.ite ?_ (Trims.pure _)
  cases op with
  | none => exact Trims.pure _
  | some o =>
    have hresult : Trimmed more (readDaemonResult o v : Rd WireError (List UInt8) _) := by
      unfold Trimmed
      rw [readDaemonResult_eq]
      exact layout_trims _
    exact hresult.attempt.bind fun _ => Trims.pure _

theorem readStderrPass_trims (count : UInt64) : Trimmed more (readStderrPass count) := by
  refine .of_forward (readStderrPass_forward count) fun s => ?_
  by_cases hs : StartsWithCode s
  · obtain ⟨code, rest, rfl⟩ := hs
    have hskip : Trimmed more (skipStderrPayload code : Rd WireError (List UInt8) _) := by
      unfold Trimmed
      rw [skipStderrPayload_eq]
      exact (fmt_trims _).map _
    have hpass : Trimmed more (if code.isTerminal then pure (Sum.inr ⟨count + 1, some code⟩) else do
        let _ ← skipStderrPayload code
        return Sum.inl (count + 1) : Rd WireError (List UInt8) (UInt64 ⊕ StderrResult)) :=
      Trims.ite (Trims.pure _) (hskip.bind fun _ => Trims.pure _)
    rw [List.append_assoc, readStderrPass_code, readStderrPass_code]
    exact (hpass.same rest (rest ++ more) rfl).imp_right fun hsame => Prod.ext hsame.1.symm hsame.2
  · rw [readStderrPass_other count hs]
    by_cases hmore : StartsWithCode (s ++ more)
    · -- the code is cut
      obtain ⟨code, rest, heq⟩ := hmore
      have hshort : s.length < 8 := by
        by_contra hlong
        have htake : s.take 8 = wordBytes code.code := by
          have hfront : (s ++ more).take 8 = s.take 8 := List.take_append_of_le_length (by omega)
          rw [← hfront, heq, List.take_left' (wordBytes_length _)]
        exact hs ⟨code, s.drop 8, by rw [← htake, List.take_append_drop]⟩
      have hlen := congrArg List.length heq
      have hle := (readStderrPass_eats count code rest).length_le
      left
      rw [heq]
      unfold Beyond
      simp only [List.length_append, wordBytes_length] at hlen
      omega
    · rw [readStderrPass_other count hmore]
      exact Or.inr rfl

theorem readStderrLoop_trims : Trimmed more readStderrLoop :=
  readLoop_trims readStderrPass_trims readStderrPass_shrinks (by omega) 0

theorem readStderrWithError_trims : Trimmed more readStderrWithError := by
  refine readStderrLoop_trims.bind fun _ => Trims.ite (Trims.bind ?_ fun _ => Trims.pure _) (Trims.pure _)
  rw [readErrorInfo_eq]
  exact layout_trims _

end

/-! ## In memory -/

namespace MemReader

variable {front more : List UInt8} {r s : MemReader} {l : List UInt8}

/-- A reader over the front of some data, and one at the same place over all of it. -/
def OnFront (front more : List UInt8) (r s : MemReader) : Prop := ∃ l, Left front r l ∧ Left (front ++ more) s (l ++ more)

def PastFront (front more : List UInt8) (s : MemReader) : Prop := ∃ l, Left (front ++ more) s l ∧ Beyond more l

theorem onFront_new (front more : List UInt8) : OnFront front more (new front) (new (front ++ more)) :=
  ⟨front, left_new _, left_new _⟩

theorem OnFront.position_eq (h : OnFront front more r s) : r.position = s.position := by
  obtain ⟨l, hr, hs⟩ := h
  have hr := hr.2.1
  have hs := hs.2.1
  simp only [List.length_append] at hs
  show r.pos = s.pos
  omega

theorem not_pastFront (h : s.position ≤ front.length) : ¬PastFront front more s := by
  rintro ⟨l, hs, hbeyond⟩
  have hlen : s.pos + l.length = (front ++ more).length := hs.2.1
  have hpos : s.pos ≤ front.length := h
  unfold Beyond at hbeyond
  rw [List.length_append] at hlen
  omega

/-- From what is done on the bytes that are left. -/
theorem trims_front {ε α : Type} {x : Rd ε MemReader α} {y : Rd ε (List UInt8) α} (hx : ∀ data, Rel (Left data) x y)
    (hy : Trimmed more y) : Trims (OnFront front more) (PastFront front more) x x where
  out := by
    rintro s ⟨l, hl, hbeyond⟩
    exact ⟨_, (hx _ s l hl).2, hy.out l hbeyond⟩
  same := by
    rintro r s ⟨l, hr, hs⟩
    obtain ⟨hvalue, hleft⟩ := hx front r l hr
    obtain ⟨hvalue', hleft'⟩ := hx (front ++ more) s (l ++ more) hs
    rcases hy.same l (l ++ more) rfl with hout | ⟨hsame, hbefore⟩
    · exact Or.inl ⟨_, hleft', hout⟩
    · exact Or.inr ⟨hvalue.trans (hsame.trans hvalue'.symm), _, hleft, hbefore ▸ hleft'⟩

theorem position_trims : Trims (OnFront front more) (PastFront front more) NixWire.position NixWire.position where
  out _ h := h
  same _ _ h := Or.inr ⟨congrArg Res.ok h.position_eq, h⟩

theorem peekU64_run {data : List UInt8} (h : Left data r l) :
    peekU64.run r = (.ok (if 8 ≤ l.length then some (wordOf (l.take 8)) else none), r) := by
  have hlist : peekU64.run l = (.ok (if 8 ≤ l.length then some (wordOf (l.take 8)) else none), l) := by
    rw [peekU64_bytes]
    split <;> rfl
  obtain ⟨r', hrun, hr'⟩ := (peekU64_rel mirrors).run h hlist
  rw [hrun, h.eq hr']

/-- Two clocks for the same places: one over the front, and one over all of the data. -/
structure Synced {τ : Type} (front more : List UInt8) (now now' : Rd WireError MemReader τ) : Prop where
  stays : ∀ s, ∃ t, now'.run s = (.ok t, s)
  same : ∀ {r s : MemReader}, OnFront front more r s → r.position < front.length →
    ∃ t, now.run r = (.ok t, r) ∧ now'.run s = (.ok t, s)

end MemReader

/-! ## The two streams -/

section

variable {τ α : Type}

/-- Take a code, if one can be seen, and what the clock says where it starts. -/
def takeCode (now : Rd WireError MemReader τ) : Rd WireError MemReader (Option (τ × UInt64)) := do
  match ← peekU64 with
  | none => return none
  | some opCode =>
    let t ← now
    let _ ← consume 8
    return some (t, opCode)

/-- The passes of the loops: a code, and what follows it. -/
theorem onCode_eq (now : Rd WireError MemReader τ) (a : α) (k : τ → UInt64 → Rd WireError Streams α) :
    (do match ← client peekU64 with
        | none => return a
        | some opCode =>
          let t ← client now
          let _ ← client (consume 8)
          k t opCode) =
      client (takeCode now) >>= fun o => match o with
        | none => pure a
        | some (t, opCode) => k t opCode := by
  unfold takeCode client
  rw [Rd.onFst_bind, bind_assoc]
  congr 1
  funext o
  cases o with
  | none => rfl
  | some opCode =>
    simp only [Rd.onFst_bind, bind_assoc, Rd.onFst_pure, pure_bind]

variable {front more : List UInt8} {now now' : Rd WireError MemReader τ}

open MemReader in
theorem takeCode_trims (h : Synced front more now now') :
    Trims (OnFront front more) (PastFront front more) (takeCode now) (takeCode now') where
  out := by
    rintro s ⟨l, hs, hbeyond⟩
    obtain ⟨t, ht⟩ := h.stays s
    unfold takeCode
    rw [Rd.bind_ok (peekU64_run hs)]
    by_cases hlen : 8 ≤ l.length
    · rw [if_pos hlen]
      simp only
      rw [Rd.bind_ok ht]
      refine ⟨_, hs.consume hlen, ?_⟩
      exact Nat.lt_of_le_of_lt (List.drop_suffix 8 l).length_le hbeyond
    · rw [if_neg hlen]
      exact ⟨l, hs, hbeyond⟩
  same := by
    rintro r s ⟨l, hr, hs⟩
    unfold takeCode
    rw [Rd.bind_ok (peekU64_run hr), Rd.bind_ok (peekU64_run hs)]
    by_cases hlen : 8 ≤ l.length
    · have hlt : r.position < front.length := by
        have := hr.2.1
        show r.pos < _
        omega
      obtain ⟨t, ht, ht'⟩ := h.same ⟨l, hr, hs⟩ hlt
      have hlen' : 8 ≤ (l ++ more).length := by
        rw [List.length_append]
        omega
      have hnext : Left (front ++ more) (BufRead.consume 8 s) (l.drop 8 ++ more) := by
        have hconsume := hs.consume hlen'
        rwa [show BufRead.consume 8 (l ++ more) = l.drop 8 ++ more from List.drop_append_of_le_length hlen] at hconsume
      rw [if_pos hlen, if_pos hlen', List.take_append_of_le_length hlen]
      simp only
      rw [Rd.bind_ok ht, Rd.bind_ok ht']
      exact Or.inr ⟨rfl, l.drop 8, hr.consume hlen, hnext⟩
    · rw [if_neg hlen]
      by_cases hlen' : 8 ≤ (l ++ more).length
      · -- the code is cut
        obtain ⟨t, ht⟩ := h.stays s
        rw [if_pos hlen']
        simp only
        rw [Rd.bind_ok ht]
        refine Or.inl ⟨_, hs.consume hlen', ?_⟩
        show ((l ++ more).drop 8).length < more.length
        rw [List.length_append] at hlen'
        rw [List.length_drop, List.length_append]
        omega
      · rw [if_neg hlen']
        exact Or.inr ⟨rfl, l, hr, hs⟩

end

/-- `y` over two streams, and `x` over a front of each. -/
abbrev TrimsBoth {α : Type} (c c' d d' : List UInt8) (x y : Rd WireError Streams α) : Prop :=
  Trims (Both (MemReader.OnFront c c') (MemReader.OnFront d d'))
    (OutEither (MemReader.PastFront c c') (MemReader.PastFront d d')) x y

section

variable {c c' d d' : List UInt8} {α : Type}

theorem client_trims {x : Rd WireError MemReader α} {y : Rd WireError (List UInt8) α}
    (hx : ∀ data, Rel (MemReader.Left data) x y) (hy : Trimmed c' y) : TrimsBoth c c' d d' (client x) (client x) :=
  (MemReader.trims_front hx hy).onFst

theorem daemon_trims {x : Rd WireError MemReader α} {y : Rd WireError (List UInt8) α}
    (hx : ∀ data, Rel (MemReader.Left data) x y) (hy : Trimmed d' y) : TrimsBoth c c' d d' (daemon x) (daemon x) :=
  (MemReader.trims_front hx hy).onSnd

theorem parseHandshake_trims : TrimsBoth c c' d d' parseHandshake parseHandshake := by
  have hc : TrimsBoth c c' d d' (client readU64) (client readU64) :=
    client_trims (fun _ => readU64_rel MemReader.delivers) readU64_trims
  have hd : TrimsBoth c c' d d' (daemon readU64) (daemon readU64) :=
    daemon_trims (fun _ => readU64_rel MemReader.delivers) readU64_trims
  have hcf (f : Fmt) : TrimsBoth c c' d d' (client (f.parse wirePrims)) (client (f.parse wirePrims)) :=
    client_trims (fun _ => fmt_rel MemReader.mirrors f) (fmt_trims f)
  have hdf (f : Fmt) : TrimsBoth c c' d d' (daemon (f.parse wirePrims)) (daemon (f.parse wirePrims)) :=
    daemon_trims (fun _ => fmt_rel MemReader.mirrors f) (fmt_trims f)
  have haffinity : TrimsBoth c c' d d' (client readCpuAffinity) (client readCpuAffinity) := by
    refine client_trims (y := readCpuAffinity) (fun data => ?_) ?_
    · have hword : Rel (MemReader.Left data) readU64 readU64 := readU64_rel MemReader.delivers
      exact hword.bind fun _ => Rel.ite (hword.bind fun _ => Rel.pure _) (Rel.pure _)
    · exact readU64_trims.bind fun _ => Trims.ite (readU64_trims.bind fun _ => Trims.pure _) (Trims.pure _)
  refine hc.bind fun _ => hc.bind fun _ => hd.bind fun _ => hd.bind fun _ => ?_
  refine Trims.ite (Trims.fail _) (Trims.ite (Trims.fail _) ?_)
  refine (Trims.ite (hcf setFmt) (Trims.pure _)).bind fun _ => ?_
  refine (Trims.ite (hdf setFmt) (Trims.pure _)).bind fun _ => ?_
  refine (Trims.ite haffinity (Trims.pure _)).bind fun _ => ?_
  refine (Trims.ite (hc.map some) (Trims.pure _)).bind fun _ => ?_
  refine (Trims.ite ((hdf .str).map some) (Trims.pure _)).bind fun _ => ?_
  refine (Trims.ite (hd.map some) (Trims.pure _)).bind fun _ => ?_
  exact hd.bind fun _ => Trims.ite (Trims.fail _) (Trims.pure _)

theorem visitRequest_trims (op : Option Op) (v : ProtocolVersion) :
    TrimsBoth c c' d d' (visitRequest op v) (visitRequest op v) := by
  unfold visitRequest
  cases op with
  | none => exact Trims.pure _
  | some o =>
    have hargs : TrimsBoth c c' d d' (client (skipOpArgs o v).attempt) (client (skipOpArgs o v).attempt) :=
      client_trims (fun _ => (skipOpArgs_rel MemReader.mirrors o v).attempt) (skipOpArgs_trims o v).attempt
    have hframed : TrimsBoth c c' d d' (client skipFramed.attempt) (client skipFramed.attempt) :=
      client_trims (fun _ => (skipFramed_rel MemReader.delivers).attempt) skipFramed_trims.attempt
    exact hargs.bind fun _ => Trims.ite (hframed.bind fun _ => Trims.pure _) (Trims.pure _)

theorem visitResult_trims (op : Option Op) (v : ProtocolVersion) (terminal : Option StderrCode) :
    TrimsBoth c c' d d' (visitResult op v terminal) (visitResult op v terminal) := by
  unfold visitResult
  cases op with
  | none => exact Trims.pure _
  | some o =>
    refine Trims.ite (Trims.map some ?_) (Trims.pure _)
    exact daemon_trims (fun _ => (skipDaemonResult_rel MemReader.mirrors o v).attempt) (skipDaemonResult_trims o v).attempt

theorem onCode_trims {τ : Type} {now now' : Rd WireError MemReader τ} (h : MemReader.Synced c c' now now') (a : α)
    {k k' : τ → UInt64 → Rd WireError Streams α} (hk : ∀ t opCode, TrimsBoth c c' d d' (k t opCode) (k' t opCode)) :
    TrimsBoth c c' d d'
      (do match ← client peekU64 with
          | none => return a
          | some opCode =>
            let t ← client now
            let _ ← client (consume 8)
            k t opCode)
      (do match ← client peekU64 with
          | none => return a
          | some opCode =>
            let t ← client now'
            let _ ← client (consume 8)
            k' t opCode) := by
  unfold TrimsBoth
  rw [onCode_eq, onCode_eq]
  refine (takeCode_trims h).onFst.bind fun o => ?_
  cases o with
  | none => exact Trims.pure a
  | some code => exact hk code.1 code.2

/-- A pass that looks at no clock. -/
theorem onSeen_trims (a : α) {k : UInt64 → Rd WireError Streams α}
    (hk : ∀ opCode, TrimsBoth c c' d d' (k opCode) (k opCode)) :
    TrimsBoth c c' d d'
      (do match ← client peekU64 with
          | none => return a
          | some opCode =>
            let _ ← client (consume 8)
            k opCode)
      (do match ← client peekU64 with
          | none => return a
          | some opCode =>
            let _ ← client (consume 8)
            k opCode) := by
  have hclock : MemReader.Synced c c' (pure () : Rd WireError MemReader Unit) (pure ()) :=
    ⟨fun _ => ⟨(), rfl⟩, fun _ _ => ⟨(), rfl, rfl⟩⟩
  exact onCode_trims hclock a fun _ opCode => hk opCode

theorem visitPass_trims (v : ProtocolVersion) (visits : List Visit) :
    TrimsBoth c c' d d' (visitPass v visits) (visitPass v visits) := by
  have hstart : TrimsBoth c c' d d' (client position) (client position) := MemReader.position_trims.onFst
  have hend : TrimsBoth c c' d d' (daemon position) (daemon position) := MemReader.position_trims.onSnd
  have hloop : TrimsBoth c c' d d' (daemon readStderrLoop) (daemon readStderrLoop) :=
    daemon_trims (fun _ => readStderrLoop_rel MemReader.mirrors) readStderrLoop_trims
  refine hstart.bind fun start => onSeen_trims (Sum.inr visits) fun opCode => ?_
  refine (visitRequest_trims _ v).bind fun request => hstart.bind fun _ => hend.bind fun _ => hloop.bind fun _ => ?_
  exact (visitResult_trims _ v _).bind fun _ => hend.bind fun _ => Trims.pure _

theorem decompilePass_trims {τ : Type} {now now' : Rd WireError MemReader (Option τ)} (h : MemReader.Synced c c' now now')
    (v : ProtocolVersion) (entries : List (Entry τ)) :
    TrimsBoth c c' d d' (decompilePass now v entries) (decompilePass now' v entries) := by
  have hstderr : TrimsBoth c c' d d' (daemon readStderrWithError) (daemon readStderrWithError) :=
    daemon_trims (fun _ => readStderrWithError_rel MemReader.mirrors) readStderrWithError_trims
  refine onCode_trims h (Sum.inr entries) fun t opCode => Trims.bind ?_ fun _ => Trims.pure _
  refine (client_trims (fun _ => readOpCall_rel MemReader.mirrors _ v) (readOpCall_trims _ v)).bind fun _ => ?_
  refine hstderr.bind fun _ => Trims.bind ?_ fun _ => Trims.pure _
  exact daemon_trims (fun _ => readResult_rel MemReader.mirrors _ v _) (readResult_trims _ v _)

end

/-! ## The records that are left -/

section

variable {records more : List Record}

theorem bytesOf_append (d : Direction) (records more : List Record) :
    bytesOf d (splitRecords (records ++ more)) = bytesOf d (splitRecords records) ++ bytesOf d (splitRecords more) := by
  rw [splitRecords_bytes, splitRecords_bytes, splitRecords_bytes, chunksOf_append, List.flatten_append]

theorem streamsOf_append (records more : List Record) : streamsOf (records ++ more) =
    (.new ((splitRecords records).clientBytes ++ (splitRecords more).clientBytes),
      .new ((splitRecords records).daemonBytes ++ (splitRecords more).daemonBytes)) :=
  Prod.ext (congrArg MemReader.new (bytesOf_append .clientToDaemon records more))
    (congrArg MemReader.new (bytesOf_append .daemonToClient records more))

theorem carried_append {d : Direction} {offset k : Nat} {r : Record} (h : CarriedBy d records offset r k)
    (more : List Record) : CarriedBy d (records ++ more) offset r k := by
  obtain ⟨before, after, rfl, hr⟩ := h
  exact ⟨before, after ++ more, by rw [List.append_assoc, List.cons_append], hr⟩

section

variable (hne : ∀ r ∈ records ++ more, r.data ≠ []) {d : Direction} {offset : Nat}
  (h : offset < (bytesOf d (splitRecords records)).length)

include hne

theorem nonempty_front : ∀ r ∈ records, r.data ≠ [] := fun r hr => hne r (List.mem_append_left more hr)

include h

/-- The records that are left carry their bytes at the times they always did. -/
theorem timeAt_front : timeAt (tsOf d (splitRecords records)) offset =
    timeAt (tsOf d (splitRecords (records ++ more))) offset := by
  obtain ⟨r, k, hr⟩ := exists_carriedBy h
  rw [timeAt_carried (nonempty_front hne) hr, timeAt_carried hne (carried_append hr more)]

end

theorem stamp_front (hne : ∀ r ∈ records ++ more, r.data ≠ []) {offset : Nat}
    (h : offset < (splitRecords records).clientBytes.length) {τ : Type} (ms : UInt64 → τ) : ∃ t, ∀ {ε R : Type},
      (lookupTimestampMs (stampsOf ms records) offset : Rd ε R _) = pure t ∧
        (lookupTimestampMs (stampsOf ms (records ++ more)) offset : Rd ε R _) = pure t := by
  have hlt : offset < (bytesOf .clientToDaemon (splitRecords records)).length := h
  obtain ⟨r, k, hr⟩ := exists_carriedBy hlt
  exact ⟨some (ms r.offsetNs), lookup_carried (nonempty_front hne) hr ms, lookup_carried hne (carried_append hr more) ms⟩

/-- The records have the first byte of the visit's code, and all of its response. -/
def Visit.Within (records : List Record) (x : Visit) : Prop :=
  x.start < (splitRecords records).clientBytes.length ∧ x.responseEnd ≤ (splitRecords records).daemonBytes.length

section

variable (hne : ∀ r ∈ records ++ more, r.data ≠ []) {x : Visit} (h : x.Within records)

include hne h

theorem Visit.startNs_front : x.startNs (splitRecords records) = x.startNs (splitRecords (records ++ more)) :=
  @timeAt_front _ _ hne .clientToDaemon _ h.1

theorem Visit.endNs_front : x.endNs (splitRecords records) = x.endNs (splitRecords (records ++ more)) := by
  unfold Visit.endNs
  by_cases hresponse : x.responseEnd > x.responseStart
  · rw [if_pos hresponse, if_pos hresponse]
    have hle := h.2
    have hlt : x.responseEnd - 1 < (bytesOf .daemonToClient (splitRecords records)).length := by
      show _ < (splitRecords records).daemonBytes.length
      omega
    exact timeAt_front hne hlt
  · rw [if_neg hresponse, if_neg hresponse, Visit.startNs_front hne h]

theorem Visit.durationNs_front : x.durationNs (splitRecords records) = x.durationNs (splitRecords (records ++ more)) := by
  unfold Visit.durationNs
  rw [Visit.startNs_front hne h, Visit.endNs_front hne h]

theorem decodedOp_front : decodedOp (splitRecords records) x = decodedOp (splitRecords (records ++ more)) x := by
  unfold decodedOp
  rw [Visit.startNs_front hne h, Visit.durationNs_front hne h]

theorem recordOf_front : recordOf (splitRecords records) x = recordOf (splitRecords (records ++ more)) x := by
  unfold recordOf
  rw [Visit.durationNs_front hne h]

end

/-- The streams stand where the records have a place for them. -/
def Inside (records : List Record) (m : Streams) : Prop :=
  m.1.position ≤ totalBytes .clientToDaemon records ∧ m.2.position ≤ totalBytes .daemonToClient records

def SamePlace (m m' : Streams) : Prop := m.1.position = m'.1.position ∧ m.2.position = m'.2.position

/-- The streams of the records that are left, where those of all of them stand. -/
abbrev OnCut (records more : List Record) : Streams → Streams → Prop :=
  Both (MemReader.OnFront (splitRecords records).clientBytes (splitRecords more).clientBytes)
    (MemReader.OnFront (splitRecords records).daemonBytes (splitRecords more).daemonBytes)

theorem onCut_start (records more : List Record) : OnCut records more (streamsOf records) (streamsOf (records ++ more)) := by
  rw [streamsOf_append]
  exact ⟨MemReader.onFront_new _ _, MemReader.onFront_new _ _⟩

theorem OnCut.samePlace {m m' : Streams} (h : OnCut records more m m') : SamePlace m m' := ⟨h.1.position_eq, h.2.position_eq⟩

theorem Inside.not_past {m : Streams} (h : Inside records m) :
    ¬OutEither (MemReader.PastFront (splitRecords records).clientBytes (splitRecords more).clientBytes)
      (MemReader.PastFront (splitRecords records).daemonBytes (splitRecords more).daemonBytes) m := by
  obtain ⟨hclient, hdaemon⟩ := h
  rw [totalBytes_eq] at hclient hdaemon
  rintro (hpast | hpast)
  · exact MemReader.not_pastFront hclient hpast
  · exact MemReader.not_pastFront hdaemon hpast

/-- A handshake and some passes that stay inside the records that are left, over these alone. -/
theorem cut_passes {β : Type} {body body' : β → Rd WireError Streams (β ⊕ β)}
    (h : ∀ b, TrimsBoth (splitRecords records).clientBytes (splitRecords more).clientBytes
      (splitRecords records).daemonBytes (splitRecords more).daemonBytes (body b) (body' b))
    {info : HandshakeInfo} {start m : Streams} {n : Nat} {b b' : β}
    (hshake : parseHandshake.run (streamsOf (records ++ more)) = (.ok info, start))
    (hr : Rd.Reaches body' n (b, start) (b', m)) (hin : Inside records m) :
    ∃ start' m', parseHandshake.run (streamsOf records) = (.ok info, start') ∧ Rd.Reaches body n (b, start') (b', m') ∧
      OnCut records more m' m := by
  have hsame := parseHandshake_trims.same _ _ (onCut_start records more)
  rw [hshake] at hsame
  rcases hsame with hout | ⟨hvalue, hstart⟩
  · exact absurd (Trims.reaches_out h hr hout) hin.not_past
  · obtain ⟨m', hr', hm'⟩ := Trims.reaches h hr hin.not_past hstart
    exact ⟨(parseHandshake.run (streamsOf records)).2, m', Prod.ext hvalue rfl, hr', hm'⟩

/-- The visits of a walk that stays inside the records that are left. -/
theorem cut_visits {info : HandshakeInfo} {v : ProtocolVersion} {start m : Streams} {n : Nat} {visits : List Visit}
    (hshake : parseHandshake.run (streamsOf (records ++ more)) = (.ok info, start))
    (hr : Rd.Reaches (visitPass v) n ([], start) (visits, m)) (hin : Inside records m) :
    ∃ start' m', parseHandshake.run (streamsOf records) = (.ok info, start') ∧
      Rd.Reaches (visitPass v) n ([], start') (visits, m') ∧ SamePlace m' m ∧ ∀ x ∈ visits, x.Within records := by
  obtain ⟨start', m', hshake', hr', hm'⟩ := cut_passes (visitPass_trims v) hshake hr hin
  obtain ⟨⟨c, d⟩, _, hat⟩ := mem_runs (parseHandshake_rel MemReader.mirrors MemReader.mirrors) hshake'
  obtain ⟨seen, _, _, hseen, hlaid, hat', hends⟩ := walked hr' hat
  obtain rfl : visits = seen := hseen
  have hle : m'.1.position ≤ (splitRecords records).clientBytes.length := hat'.1.pos_le.trans_eq (by rw [hat'.1.1])
  refine ⟨start', m', hshake', hr', hm'.samePlace, fun x hx => ⟨?_, hends x hx⟩⟩
  exact Nat.lt_of_lt_of_le (hlaid.bytes x hx).2.2 hle

/-! ## decode -/

theorem visitPass_gathers (v : ProtocolVersion) : Rd.Gathers (visitPass v) := by
  intro visits o m m' h
  cases o with
  | inl out =>
    obtain ⟨x, _, rfl⟩ := visitPass_inl_iff.mp h
    exact List.prefix_append visits [x]
  | inr out =>
    obtain ⟨_, rfl⟩ := visitPass_inr_iff.mp h
    exact List.prefix_rfl

/-- What `decode` had printed of a recording when it had read no further than some of its first
    records, it prints of these records alone, times included. -/
theorem cut_decoded (hne : ∀ r ∈ records ++ more, r.data ≠ []) {info : HandshakeInfo} {start m : Streams} {n : Nat}
    {lines : List DecodedOp} (hshake : parseHandshake.run (streamsOf (records ++ more)) = (.ok info, start))
    (hr : Rd.Reaches (decodePass (splitRecords (records ++ more)) info.negotiatedVersion) n ([], start) (lines, m))
    (hin : Inside records m) :
    ∃ start' m', parseHandshake.run (streamsOf records) = (.ok info, start') ∧
      Rd.Reaches (decodePass (splitRecords records) info.negotiatedVersion) n ([], start') (lines, m') ∧ SamePlace m' m ∧
      ∀ info' lines' last, (decodeText (splitRecords records)).run (streamsOf records) = (.ok (info', lines'), last) →
        info' = info ∧ lines <+: lines' := by
  obtain ⟨visits, rfl, hvisits⟩ := (Rd.reaches_map_iff (b := []) (decodePass_visits _ _)).mp hr
  obtain ⟨start', m', hshake', hvisits', hplace, hinside⟩ := cut_visits hshake hvisits hin
  have hlines : visits.map (decodedOp (splitRecords (records ++ more))) = visits.map (decodedOp (splitRecords records)) :=
    List.map_congr_left fun x hx => (decodedOp_front hne (hinside x hx)).symm
  simp only [hlines]
  refine ⟨start', m', hshake', (Rd.reaches_map_iff (b := []) (decodePass_visits _ _)).mpr ⟨visits, rfl, hvisits'⟩, hplace, ?_⟩
  intro info' lines' last h
  rw [decodeText_visits] at h
  obtain ⟨⟨_, visits'⟩, hwalk, hout⟩ := Rd.map_ok_iff.mp h
  cases hout
  obtain ⟨_, _, hsame, hwalk⟩ := Rd.bind_ok_iff.mp hwalk
  cases hshake'.symm.trans hsame
  obtain ⟨_, _, hloop, hwalk⟩ := Rd.bind_ok_iff.mp hwalk
  cases hwalk
  exact ⟨rfl, ((visitPass_gathers _).iterated hvisits' hloop).map _⟩

/-- A place in the recording of both. -/
def syncStreams (c d : Nat) : Streams :=
  let split := splitRecords (syncRecording ++ secondSync)
  (⟨split.clientBytes, c⟩, ⟨split.daemonBytes, d⟩)

theorem syncs_start : parseHandshake.run (streamsOf (syncRecording ++ secondSync)) =
    (.ok failingSession.info, syncStreams 32 24) := by
  decide

theorem syncs_inside : Inside syncRecording (syncStreams 40 40) := by
  unfold Inside
  decide

/-- The first sync is printed of its own recording as it is of both. -/
theorem cut_decoded_sync : ∃ start m, parseHandshake.run (streamsOf syncRecording) = (.ok failingSession.info, start) ∧
    Rd.Reaches (decodePass (splitRecords syncRecording) failingSession.info.negotiatedVersion) 1 ([], start)
      ([⟨5, "SyncWithGC".toList, 8, 1, 4, StderrCode.last.name, []⟩], m) ∧ SamePlace m (syncStreams 40 40) := by
  have hpass : (decodePass (splitRecords (syncRecording ++ secondSync)) failingSession.info.negotiatedVersion []).run
      (syncStreams 32 24) =
        (.ok (.inl [⟨5, "SyncWithGC".toList, 8, 1, 4, StderrCode.last.name, []⟩]), syncStreams 40 40) := by
    decide
  obtain ⟨start, m, hstart, hr, hm, _⟩ := cut_decoded (by decide) syncs_start (.step hpass (.refl _)) syncs_inside
  exact ⟨start, m, hstart, hr, hm⟩

/-! ## stats -/

/-- What some passes of `collect_ops` record are visits without warnings. -/
theorem collected_quiet {split : SplitRecords} {v : ProtocolVersion} {n : Nat} {p q : List OpRecord × Streams}
    (hr : Rd.Reaches (collectPass split v) n p q) (before : List Visit) : ∃ visits : List Visit,
      Rd.Reaches (visitPass v) n (before, p.2) (before ++ visits, q.2) ∧ q.1 = p.1 ++ visits.map (recordOf split) ∧
      ∀ x ∈ visits, x.quiet = true := by
  induction hr generalizing before with
  | refl p => exact ⟨[], by rw [List.append_nil]; exact .refl _, (List.append_nil _).symm, List.forall_mem_nil _⟩
  | step hpass _ ih =>
    obtain ⟨x, hx, hquiet, rfl⟩ := collectPass_visited hpass
    obtain ⟨visits, hvisits, hrecs, hall⟩ := ih (before ++ [x])
    rw [List.append_assoc] at hvisits hrecs
    exact ⟨x :: visits, .step (visitPass_inl_iff.mpr ⟨x, hx, rfl⟩) hvisits, hrecs, List.forall_mem_cons.mpr ⟨hquiet, hall⟩⟩

/-- Visits without warnings are recorded. -/
theorem quiet_collected (split : SplitRecords) {v : ProtocolVersion} {n : Nat} {p q : List Visit × Streams}
    (hr : Rd.Reaches (visitPass v) n p q) (acc : List OpRecord) : ∃ visits : List Visit, q.1 = p.1 ++ visits ∧
      ((∀ x ∈ visits, x.quiet = true) →
        Rd.Reaches (collectPass split v) n (acc, p.2) (acc ++ visits.map (recordOf split), q.2)) := by
  induction hr generalizing acc with
  | refl p => exact ⟨[], (List.append_nil _).symm, fun _ => by rw [List.map_nil, List.append_nil]; exact .refl _⟩
  | step hpass _ ih =>
    obtain ⟨x, hx, rfl⟩ := visitPass_inl_iff.mp hpass
    obtain ⟨visits, hvisits, hrest⟩ := ih (acc ++ [recordOf split x])
    refine ⟨x :: visits, by rw [hvisits, List.append_assoc]; rfl, fun hall => ?_⟩
    obtain ⟨hquiet, hall⟩ := List.forall_mem_cons.mp hall
    have hcollect := collectPass_visits split hx acc
    rw [if_pos hquiet] at hcollect
    have hreached := hrest hall
    rw [List.append_assoc] at hreached
    exact .step hcollect hreached

theorem collectPass_gathers (split : SplitRecords) (v : ProtocolVersion) : Rd.Gathers (collectPass split v) := by
  intro acc o m m' h
  cases o with
  | inl out =>
    obtain ⟨rec, rfl, _⟩ := collectPass_inl h
    exact List.prefix_append acc [rec]
  | inr out =>
    obtain rfl := collectPass_inr h
    exact List.prefix_rfl

/-- What `stats` had counted of a recording when it had read no further than some of its first
    records, it counts of these records alone, durations included. -/
theorem cut_counted (hne : ∀ r ∈ records ++ more, r.data ≠ []) {info : HandshakeInfo} {start m : Streams} {n : Nat}
    {recs : List OpRecord} (hshake : parseHandshake.run (streamsOf (records ++ more)) = (.ok info, start))
    (hr : Rd.Reaches (collectPass (splitRecords (records ++ more)) info.negotiatedVersion) n ([], start) (recs, m))
    (hin : Inside records m) :
    ∃ start' m', parseHandshake.run (streamsOf records) = (.ok info, start') ∧
      Rd.Reaches (collectPass (splitRecords records) info.negotiatedVersion) n ([], start') (recs, m') ∧ SamePlace m' m ∧
      ∀ info' recs' last, (collectOps (splitRecords records)).run (streamsOf records) = (.ok (info', recs'), last) →
        info' = info ∧ recs <+: recs' := by
  obtain ⟨visits, hvisits, hrecs, hquiet⟩ := collected_quiet hr []
  obtain rfl : recs = visits.map (recordOf (splitRecords (records ++ more))) := hrecs
  obtain ⟨start', m', hshake', hvisits', hplace, hinside⟩ := cut_visits hshake hvisits hin
  have hsame : visits.map (recordOf (splitRecords (records ++ more))) = visits.map (recordOf (splitRecords records)) :=
    List.map_congr_left fun x hx => (recordOf_front hne (hinside x hx)).symm
  obtain ⟨seen, hseen, hreached⟩ := quiet_collected (splitRecords records) hvisits' []
  obtain rfl : visits = seen := hseen
  have hcollect := hreached hquiet
  simp only [hsame]
  refine ⟨start', m', hshake', hcollect, hplace, ?_⟩
  intro info' recs' last h
  obtain ⟨_, _, hstart, h⟩ := Rd.bind_ok_iff.mp h
  cases hshake'.symm.trans hstart
  obtain ⟨_, _, hloop, h⟩ := Rd.bind_ok_iff.mp h
  cases h
  exact ⟨rfl, (collectPass_gathers _ _).iterated hcollect hloop⟩

theorem cut_counted_sync : ∃ start m, parseHandshake.run (streamsOf syncRecording) = (.ok failingSession.info, start) ∧
    Rd.Reaches (collectPass (splitRecords syncRecording) failingSession.info.negotiatedVersion) 1 ([], start)
      ([⟨"SyncWithGC".toList, 4, 8, none, true, some []⟩], m) ∧ SamePlace m (syncStreams 40 40) := by
  have hpass : (collectPass (splitRecords (syncRecording ++ secondSync)) failingSession.info.negotiatedVersion []).run
      (syncStreams 32 24) = (.ok (.inl [⟨"SyncWithGC".toList, 4, 8, none, true, some []⟩]), syncStreams 40 40) := by
    decide
  obtain ⟨start, m, hstart, hr, hm, _⟩ := cut_counted (by decide) syncs_start (.step hpass (.refl _)) syncs_inside
  exact ⟨start, m, hstart, hr, hm⟩

/-! ## script unpack -/

section

variable {τ : Type} (ms : UInt64 → τ)

theorem timestampNow_synced (hne : ∀ r ∈ records ++ more, r.data ≠ []) :
    MemReader.Synced (splitRecords records).clientBytes (splitRecords more).clientBytes (timestampNow (stampsOf ms records))
      (timestampNow (stampsOf ms (records ++ more))) where
  stays s := by
    obtain ⟨t, ht⟩ := lookupTimestampMs_pure (stampsOf ms (records ++ more)) s.position
    refine ⟨t, ?_⟩
    show (lookupTimestampMs _ s.position).run s = _
    rw [ht, Rd.run_pure]
  same {r s} h hlt := by
    obtain ⟨t, ht⟩ := stamp_front hne hlt ms
    refine ⟨t, ?_, ?_⟩
    · show (lookupTimestampMs _ r.position).run r = _
      rw [ht.1, Rd.run_pure]
    · show (lookupTimestampMs _ s.position).run s = _
      rw [← h.position_eq, ht.2, Rd.run_pure]

theorem decompilePass_gathers {now : Rd WireError MemReader (Option τ)} (v : ProtocolVersion) :
    Rd.Gathers (decompilePass (D := MemReader) now v) := by
  intro entries o m m' h
  obtain ⟨code, m₁, _, h⟩ := Rd.bind_ok_iff.mp h
  cases code with
  | none =>
    cases h
    exact List.prefix_rfl
  | some opCode =>
    obtain ⟨_, _, _, h⟩ := Rd.bind_ok_iff.mp h
    obtain ⟨_, _, _, h⟩ := Rd.bind_ok_iff.mp h
    obtain ⟨entry, _, _, h⟩ := Rd.bind_ok_iff.mp h
    cases h
    exact List.prefix_append entries [entry]

/-- What unpacking had written of a recording when it had read no further than some of its first
    records, it writes of these records alone, times included. -/
theorem cut_unpacked (hne : ∀ r ∈ records ++ more, r.data ≠ []) {info : HandshakeInfo} {start m : Streams} {n : Nat}
    {entries : List (Entry τ)} (hshake : parseHandshake.run (streamsOf (records ++ more)) = (.ok info, start))
    (hr : Rd.Reaches (decompilePass (timestampNow (stampsOf ms (records ++ more))) info.negotiatedVersion) n ([], start)
      (entries, m)) (hin : Inside records m) :
    ∃ start' m', parseHandshake.run (streamsOf records) = (.ok info, start') ∧
      Rd.Reaches (decompilePass (timestampNow (stampsOf ms records)) info.negotiatedVersion) n ([], start') (entries, m') ∧
      SamePlace m' m ∧
      ∀ script last, (decompileStreams (stampsOf ms records)).run (streamsOf records) = (.ok script, last) →
        script.preamble = preambleOf info ∧ entries <+: script.entries := by
  obtain ⟨start', m', hshake', hr', hm'⟩ :=
    cut_passes (decompilePass_trims (timestampNow_synced ms hne) info.negotiatedVersion) hshake hr hin
  refine ⟨start', m', hshake', hr', hm'.samePlace, ?_⟩
  intro script last h
  obtain ⟨_, _, hstart, h⟩ := Rd.bind_ok_iff.mp h
  cases hshake'.symm.trans hstart
  obtain ⟨_, _, hloop, h⟩ := Rd.bind_ok_iff.mp h
  cases h
  exact ⟨rfl, (decompilePass_gathers _).iterated hr' hloop⟩

end

def syncEntry : Entry Nat := ⟨some 5, .noArgs .syncWithGC, some ⟨"Last".toList, 1, some (.u64 1), none⟩, []⟩

theorem cut_unpacked_sync : ∃ start m, parseHandshake.run (streamsOf syncRecording) = (.ok failingSession.info, start) ∧
    Rd.Reaches (decompilePass (timestampNow (stampsOf UInt64.toNat syncRecording)) failingSession.info.negotiatedVersion) 1
      ([], start) ([syncEntry], m) ∧ SamePlace m (syncStreams 40 40) := by
  have hpass : (decompilePass (timestampNow (stampsOf UInt64.toNat (syncRecording ++ secondSync)))
      failingSession.info.negotiatedVersion []).run (syncStreams 32 24) = (.ok (.inl [syncEntry]), syncStreams 40 40) := by
    decide
  obtain ⟨start, m, hstart, hr, hm, _⟩ :=
    cut_unpacked UInt64.toNat (by decide) syncs_start (.step hpass (.refl _)) syncs_inside
  exact ⟨start, m, hstart, hr, hm⟩

end

end NixWire
