/-
  NixWire.Drivers — the four offline drivers on one session (script/decompile.rs, stats.rs,
  decode.rs, replay.rs).

  A session is a handshake at 1.23 or later and operations with their responses, every byte
  as documented (`Session`).
  - One pass of a driver takes one operation off both streams, and where that operation
    failed it leaves the error (`decompile_steps`, `collect_steps`, `preParse_steps`,
    `decode_steps`). Only decompiling reads the error.
  - So after each pass over a session without failures a driver stands before the next
    operation (`run_steps`, `standsAt_iff`), and the drivers agree on what they report and on
    where they stand exactly when no operation of the session failed (`drivers_agree_iff`).
-/

import NixWire.Requests
import NixWire.Responses
import NixWire.Tools
import NixWire.Unpack

namespace NixWire

open Base

/-! ## Sessions -/

/-- An operation of a session: its call, and the daemon's response to it. -/
structure SessionOp where
  op : Op
  call : OpCall
  response : Response

/-- `bs` are the client's and the daemon's bytes for the operation. -/
def SessionOp.Enc (v : ProtocolVersion) (x : SessionOp) (bs : List UInt8 × List UInt8) : Prop :=
  (∃ args : List UInt8, (readOpArgs x.op v).run (MemReader.new args) = (.ok (some x.call), ⟨args, args.length⟩) ∧
    bs.1 = wordBytes x.op.code ++ args) ∧
  x.response.Enc x.op v bs.2

/-- A recording of a handshake and, after it, of operations in the documented format. -/
structure Session where
  split : SplitRecords
  info : HandshakeInfo
  start : Streams
  ops : List SessionOp
  parts : List (List UInt8 × List UInt8)
  handshake : parseHandshake.run (.new split.clientBytes, .new split.daemonBytes) = (.ok info, start)
  version : info.negotiatedVersion ≥ .new 1 23
  encoded : List.Forall₂ (SessionOp.Enc info.negotiatedVersion) ops parts
  client_rest : split.clientBytes.drop start.1.position = (parts.map Prod.fst).flatten
  daemon_rest : split.daemonBytes.drop start.2.position = (parts.map Prod.snd).flatten

/-- The operation was answered by STDERR_LAST and a result. -/
def SessionOp.succeeds (x : SessionOp) : Bool :=
  match x.response.ending with
  | .last _ => true
  | .error _ => false

/-! ## Skipping a request and a response -/

/-- Arguments read on their own are the encoding of the call's. -/
theorem readOpArgs_mem {op : Op} {v : ProtocolVersion} {args : List UInt8} {call : OpCall}
    (h : (readOpArgs op v).run (MemReader.new args) = (.ok (some call), ⟨args, args.length⟩)) :
    ∃ vs, (argsLayout op v).fmt.Enc wireLimits vs args ∧ (argsLayout op v).of vs = some call := by
  obtain ⟨s, hs, hleft⟩ := (mem_run_iff (readOpArgs_rel MemReader.mirrors op v)).mp h
  obtain rfl : s = [] := List.length_eq_zero_iff.mp (Nat.add_left_cancel hleft.2.1)
  obtain ⟨vs, bs, hbs, hcall, rfl⟩ := readOpArgs_ok_iff.mp hs
  exact ⟨vs, by simpa using hbs, hcall⟩

/-- `left` is what the stderr loop and the skipped result leave of the response. -/
def LeavesOf (v : ProtocolVersion) (x : SessionOp) (bs left : List UInt8) : Prop :=
  ∃ mid, (∀ rest, readStderrLoop.run (bs ++ rest) = (.ok x.response.report.1, mid ++ rest)) ∧
    if x.response.report.1.terminal = some .last
      then ∀ rest, (skipDaemonResult x.op v).run (mid ++ rest) = (.ok (), left ++ rest) else left = mid

/-- They leave nothing of a success, and the payload of an error. -/
theorem skip_response {x : SessionOp} {v : ProtocolVersion} {bs : List UInt8} (h : x.response.Enc x.op v bs) :
    ∃ left, LeavesOf v x bs left ∧ if x.succeeds then left = [] else 0 < left.length := by
  obtain ⟨op, call, messages, ending⟩ := x
  obtain ⟨parts, _, hparts, hend, rfl⟩ := h
  cases ending with
  | last result =>
    obtain ⟨resultBytes, hresult, rfl⟩ := hend
    refine ⟨[], ⟨resultBytes, fun rest => ?_, fun rest => skip_of_read (readDaemonResult_front hresult rest)⟩, rfl⟩
    rw [List.append_assoc, List.append_assoc]
    exact readStderrLoop_terminal hparts rfl (resultBytes ++ rest)
  | error payload =>
    obtain ⟨payloadBytes, hpayload, rfl⟩ := hend
    refine ⟨payloadBytes, ⟨payloadBytes, fun rest => ?_, rfl⟩, lt_of_lt_of_le (by decide) hpayload.minSize_le⟩
    rw [List.append_assoc, List.append_assoc]
    exact readStderrLoop_terminal hparts rfl (payloadBytes ++ rest)

/-! ## Following a session -/

section

variable {C D : List UInt8}

/-- The streams stand inside `C` and `D`, with `c` and `d` left of them. -/
abbrev At (C D : List UInt8) (m : Streams) (c d : List UInt8) : Prop :=
  Both (MemReader.Left C) (MemReader.Left D) m (c, d)

theorem At.onClient {α : Type} {x : Rd WireError MemReader α} {y : Rd WireError (List UInt8) α}
    (hxy : Rel (MemReader.Left C) x y)
    {m : Streams} {c c' d : List UInt8} {o : Res WireError α} (h : At C D m c d) (hy : y.run c = (o, c')) :
    ∃ m', (client x).run m = (o, m') ∧ At C D m' c' d := by
  obtain ⟨r, hx, hr⟩ := hxy.run h.1 hy
  exact ⟨(r, m.2), Rd.onFst_iff.mpr ⟨hx, rfl⟩, hr, h.2⟩

theorem At.onDaemon {α : Type} {x : Rd WireError MemReader α} {y : Rd WireError (List UInt8) α}
    (hxy : Rel (MemReader.Left D) x y)
    {m : Streams} {c d d' : List UInt8} {o : Res WireError α} (h : At C D m c d) (hy : y.run d = (o, d')) :
    ∃ m', (daemon x).run m = (o, m') ∧ At C D m' c d' := by
  obtain ⟨r, hx, hr⟩ := hxy.run h.2 hy
  exact ⟨(m.1, r), Rd.onSnd_iff.mpr ⟨hx, rfl⟩, h.1, hr⟩

theorem At.takes {m : Streams} {w : UInt64} {c d : List UInt8} (h : At C D m (wordBytes w ++ c) d) :
    ∃ m', (client (consume 8)).run m = (.ok (), m') ∧ At C D m' c d := by
  refine ⟨(BufRead.consume 8 m.1, m.2), rfl, ?_, h.2⟩
  have hleft := h.1.consume (show 8 ≤ (wordBytes w ++ c).length by simp)
  rwa [show BufRead.consume 8 (wordBytes w ++ c) = c from List.drop_left' (wordBytes_length w)] at hleft

theorem At.position {m : Streams} {c d : List UInt8} (h : At C D m c d) : m.2.position + d.length = D.length := h.2.2.1

/-- A pass over the operation `x`, whose bytes are `bs`, that leaves `left` of the response. -/
def StepsOver {γ : Type} (C D : List UInt8) (body : List γ → Rd WireError Streams (List γ ⊕ List γ)) (Same : SessionOp → γ → Prop)
    (x : SessionOp) (bs : List UInt8 × List UInt8) (left : List UInt8) : Prop :=
  ∀ m acc c d, At C D m (bs.1 ++ c) (bs.2 ++ d) →
    ∃ g m', (body acc).run m = (.ok (.inl (acc ++ [g])), m') ∧ At C D m' c (left ++ d) ∧ Same x g

/-- The driver stops when the client's stream is used up. -/
def EndsWell {γ : Type} (C D : List UInt8) (body : List γ → Rd WireError Streams (List γ ⊕ List γ)) : Prop :=
  ∀ m acc d, At C D m [] d → ∃ m', (body acc).run m = (.ok (.inr acc), m')

variable {γ : Type} {body : List γ → Rd WireError Streams (List γ ⊕ List γ)} {Same : SessionOp → γ → Prop}

/-- Passes that leave nothing of the responses follow the session. -/
theorem run_steps {ops : List SessionOp} {parts : List (List UInt8 × List UInt8)}
    (h : List.Forall₂ (fun x bs => StepsOver C D body Same x bs []) ops parts) {m : Streams} {acc : List γ} {c d : List UInt8}
    (hm : At C D m ((parts.map Prod.fst).flatten ++ c) ((parts.map Prod.snd).flatten ++ d)) :
    ∃ gs m', Rd.Reaches body ops.length (acc, m) (acc ++ gs, m') ∧ At C D m' c d ∧ List.Forall₂ Same ops gs := by
  induction h generalizing m acc with
  | nil => exact ⟨[], m, by simpa using Rd.Reaches.refl (acc, m), by simpa using hm, .nil⟩
  | @cons x bs ops parts hx _ ih =>
    simp only [List.map_cons, List.flatten_cons, List.append_assoc] at hm
    obtain ⟨g, m₁, hrun, hm₁, hg⟩ := hx m acc _ _ hm
    obtain ⟨gs, m', hr, hm', hgs⟩ := @ih m₁ (acc ++ [g]) hm₁
    refine ⟨g :: gs, m', .step hrun ?_, hm', .cons hg hgs⟩
    rwa [List.append_assoc] at hr

/-- After `i` passes from `start`, the driver stands at `pos` of the daemon's stream. -/
def StandsAt (body : List γ → Rd WireError Streams (List γ ⊕ List γ)) (start : Streams) (i pos : Nat) : Prop :=
  ∃ acc m, Rd.Reaches body i ([], start) (acc, m) ∧ m.2.position = pos

theorem standsAt_iff {ops : List SessionOp} {parts : List (List UInt8 × List UInt8)}
    (h : List.Forall₂ (fun x bs => StepsOver C D body Same x bs []) ops parts) (hend : EndsWell C D body) {start : Streams}
    (hm : At C D start (parts.map Prod.fst).flatten (parts.map Prod.snd).flatten) (i pos : Nat) :
    StandsAt body start i pos ↔ i ≤ ops.length ∧ pos + ((parts.drop i).map Prod.snd).flatten.length = D.length := by
  -- where the first `i` passes stand, for `i` up to the end
  have hat : ∀ i ≤ ops.length, ∃ acc m, Rd.Reaches body i ([], start) (acc, m) ∧
      At C D m ((parts.drop i).map Prod.fst).flatten ((parts.drop i).map Prod.snd).flatten := by
    intro i hi
    have hsplit : ∀ f : List UInt8 × List UInt8 → List UInt8,
        (parts.map f).flatten = ((parts.take i).map f).flatten ++ ((parts.drop i).map f).flatten := by
      intro f
      rw [← List.flatten_append, ← List.map_append, List.take_append_drop]
    rw [hsplit, hsplit] at hm
    obtain ⟨gs, m, hr, hm', _⟩ := run_steps (List.forall₂_take i h) hm
    rw [List.length_take, Nat.min_eq_left hi] at hr
    exact ⟨gs, m, hr, hm'⟩
  constructor
  · intro h
    obtain ⟨acc, m, hr, rfl⟩ := h
    by_cases hi : i ≤ ops.length
    · obtain ⟨acc', m', hr', hm'⟩ := hat i hi
      cases hr.det hr'
      exact ⟨hi, hm'.position⟩
    · -- past the end there is no pass that goes on
      obtain ⟨k, rfl⟩ : ∃ k, i = ops.length + (k + 1) := ⟨i - ops.length - 1, by omega⟩
      obtain ⟨⟨acc₁, m₁⟩, hr₁, hr₂⟩ := hr.split
      obtain ⟨acc', m', hr', hm'⟩ := hat ops.length (Nat.le_refl _)
      cases hr₁.det hr'
      rw [List.drop_eq_nil_of_le (by rw [h.length_eq])] at hm'
      obtain ⟨_, hstop⟩ := hend m₁ acc₁ _ hm'
      cases hr₂ with
      | step hb _ =>
        rw [hstop] at hb
        cases hb
  · intro h
    obtain ⟨hi, hpos⟩ := h
    obtain ⟨acc, m, hr, hm'⟩ := hat i hi
    exact ⟨acc, m, hr, by have := hm'.position; omega⟩

end

/-! ## The steps of the drivers -/

theorem lookupTimestamp_pure (tsIndex : TimestampIndex) (byteOffset : Nat) :
    ∃ t, ∀ {R : Type}, (lookupTimestamp tsIndex byteOffset : Rd WireError R _) = pure t := by
  obtain ⟨t, ht⟩ := lookupTimestampMs_pure tsIndex byteOffset
  refine ⟨t.getD 0, ?_⟩
  intro R
  rw [lookupTimestamp_ms, ht, map_pure]

theorem opEnd_pure (daemonTs : TimestampIndex) (before after : Nat) (opStartNs : UInt64) :
    ∃ t, opEnd daemonTs before after opStartNs = pure t := by
  obtain ⟨t, ht⟩ := lookupTimestamp_pure daemonTs (after - 1)
  unfold opEnd
  split
  · exact ⟨t, ht⟩
  · exact ⟨opStartNs, rfl⟩

section

variable {C D : List UInt8} {v : ProtocolVersion} {x : SessionOp} {bs : List UInt8 × List UInt8}

/-- A code is seen, and taken off the client's stream. -/
theorem At.code {m : Streams} {w : UInt64} {c d : List UInt8} (h : At C D m (wordBytes w ++ c) d) :
    ∃ m₁ m₂, (client peekU64).run m = (.ok (some w), m₁) ∧ (client (consume 8)).run m₁ = (.ok (), m₂) ∧ At C D m₂ c d := by
  obtain ⟨m₁, hpeek, h₁⟩ := h.onClient (peekU64_rel MemReader.mirrors) (peekU64_word w c)
  obtain ⟨m₂, htake, h₂⟩ := h₁.takes
  exact ⟨m₁, m₂, hpeek, htake, h₂⟩

theorem At.no_code {m : Streams} {d : List UInt8} (h : At C D m [] d) : ∃ m₁, (client peekU64).run m = (.ok none, m₁) := by
  obtain ⟨m₁, hpeek, _⟩ := h.onClient (peekU64_rel MemReader.mirrors) (peekU64_bytes [])
  exact ⟨m₁, hpeek⟩

theorem At.attempt_client {α : Type} {z : Rd WireError MemReader α} {y : Rd WireError (List UInt8) α}
    (hxy : Rel (MemReader.Left C) z y) {m : Streams} {c c' d : List UInt8} {a : α} (h : At C D m c d)
    (hy : y.run c = (.ok a, c')) :
    ∃ m', (client z.attempt).run m = (.ok (.ok a), m') ∧ At C D m' c' d := h.onClient hxy.attempt (Rd.attempt_ok hy)

theorem At.attempt_daemon {α : Type} {z : Rd WireError MemReader α} {y : Rd WireError (List UInt8) α}
    (hxy : Rel (MemReader.Left D) z y) {m : Streams} {c d d' : List UInt8} {a : α} (h : At C D m c d)
    (hy : y.run d = (.ok a, d')) :
    ∃ m', (daemon z.attempt).run m = (.ok (.ok a), m') ∧ At C D m' c d' := h.onDaemon hxy.attempt (Rd.attempt_ok hy)

theorem usesFramed_of {v : ProtocolVersion} (hv : v ≥ .new 1 23) : usesFramed v = true := by
  simpa [usesFramed] using hv

/-- Reading a response is reading its messages, then its result. -/
theorem readResponse_split {op : Op} {v : ProtocolVersion} {report : Report} {s rest : List UInt8}
    (h : (readResponse op v).run s = (.ok report, rest)) :
    ∃ s₁, readStderrWithError.run s = (.ok (report.1, report.2.1), s₁) ∧
      (readResult (some op) v report.1.terminal).run s₁ = (.ok report.2.2, rest) := by
  obtain ⟨⟨r, e⟩, s₁, hstderr, hrest⟩ := Rd.bind_ok_iff.mp h
  simp only at hrest
  split at hrest
  · rename_i hterm
    obtain ⟨result, s₂, hresult, hout⟩ := Rd.bind_ok_iff.mp hrest
    cases hout
    refine ⟨s₁, hstderr, ?_⟩
    rw [readResult.eq_def, if_pos hterm]
    simp only
    rw [Rd.bind_ok (Rd.attempt_ok hresult)]
    rfl
  · rename_i hterm
    cases hrest
    exact ⟨_, hstderr, by rw [readResult.eq_def, if_neg hterm]; rfl⟩

/-- What decompiling says of the operation. -/
def SameEntry {τ : Type} (x : SessionOp) (entry : Entry τ) : Prop :=
  entry.opCall = x.call ∧ entry.opCall.op = x.op ∧ entry.response = some
    { terminal := terminalName x.response.report.1.terminal, stderrCount := x.response.report.1.count,
      result := x.response.report.2.2, error := x.response.report.2.1 }

theorem decompile_steps {τ : Type} (timestamps : List (Nat × τ)) (h : x.Enc v bs) :
    StepsOver C D (decompilePass (timestampNow timestamps) v) SameEntry x bs [] := by
  intro m acc c d hm
  obtain ⟨⟨args, hargs, hbs⟩, hresponse⟩ := h
  obtain ⟨vs, hvs, hcall⟩ := readOpArgs_mem hargs
  have hread : (readOpCall (Op.fromU64 x.op.code) v).run (args ++ c) = (.ok x.call, c) := by
    have hfront : (readOpArgs x.op v).run (args ++ c) = (.ok (some x.call), c) :=
      readOpArgs_ok_iff.mpr ⟨vs, args, hvs, hcall, rfl⟩
    rw [Op.fromU64_code, readOpCall, Rd.bind_ok hfront]
    rfl
  obtain ⟨d₁, hstderr, hresult⟩ := readResponse_split (readResponse_enc hresponse d)
  have hnow := timestampLeft_looks timestamps C.length
  obtain ⟨t, ht⟩ := hnow (bs.1 ++ c)
  let entry : Entry τ :=
    { timestampMs := t, opCall := x.call, expects := [], response := some
        { terminal := terminalName x.response.report.1.terminal, stderrCount := x.response.report.1.count,
          result := x.response.report.2.2, error := x.response.report.2.1 } }
  have hop : (decompileOp v x.op.code t).run (args ++ c, bs.2 ++ d) = (.ok entry, (c, d)) :=
    decompileOp_ok_iff.mpr ⟨x.call, x.response.report.1, x.response.report.2.1, d₁, x.response.report.2.2, hread, hstderr,
      by rw [Op.fromU64_code]; exact hresult, rfl⟩
  have hflat : (decompilePass (timestampLeft timestamps C.length) v acc).run (bs.1 ++ c, bs.2 ++ d) =
      (.ok (.inl (acc ++ [entry])), (c, d)) :=
    (decompilePass_inl_iff hnow).mpr ⟨x.op.code, args ++ c, t, entry, by rw [hbs, List.append_assoc], ht, hop, rfl⟩
  obtain ⟨m', hrun, hm'⟩ := (decompilePass_rel MemReader.mirrors MemReader.mirrors (timestampNow_rel timestamps C)
    (timestampLeft_stay timestamps C.length) v acc).run hm hflat
  exact ⟨entry, m', hrun, hm', rfl, (serialize_args (fun _ => .error []) none hvs.fits hcall).1, rfl⟩

def SameRecord (x : SessionOp) (rec : OpRecord) : Prop :=
  rec.opName = x.op.name ∧ rec.success = decide (x.response.report.1.terminal = some .last)

/-- The request skipped from memory. -/
theorem At.skip_request {op : Op} {args : List UInt8} {call : OpCall}
    (h : (readOpArgs op v).run (MemReader.new args) = (.ok (some call), ⟨args, args.length⟩)) {m : Streams} {c d : List UInt8}
    (hm : At C D m (args ++ c) d) : ∃ info m₁, (client (skipOpArgs op v).attempt).run m = (.ok (.ok info), m₁) ∧
      if opHasClientFramedData op then ∃ total m₂, (client skipFramed.attempt).run m₁ = (.ok (.ok total), m₂) ∧ At C D m₂ c d
      else At C D m₁ c d := by
  obtain ⟨vs, hvs, hcall⟩ := readOpArgs_mem h
  obtain ⟨info, mid, hinfo, -, hframed⟩ := NixWire.skip_request hvs hcall c
  obtain ⟨m₁, hrun, h₁⟩ := hm.attempt_client (skipOpArgs_rel MemReader.mirrors op v) hinfo
  refine ⟨info, m₁, hrun, ?_⟩
  split at hframed
  · rename_i hop
    obtain ⟨m₂, hrun₂, h₂⟩ := h₁.attempt_client (skipFramed_rel MemReader.delivers) hframed
    rw [if_pos hop]
    exact ⟨_, m₂, hrun₂, h₂⟩
  · rename_i hop
    rw [if_neg hop, ← hframed.1]
    exact h₁

/-- The response skipped from memory. -/
theorem At.skip_response {db left : List UInt8} (h : LeavesOf v x db left) {m : Streams} {c d : List UInt8}
    (hm : At C D m c (db ++ d)) : ∃ m₁, (daemon readStderrLoop).run m = (.ok x.response.report.1, m₁) ∧
      (daemon readStderrLoop.attempt).run m = (.ok (.ok x.response.report.1), m₁) ∧
      if x.response.report.1.terminal = some .last
        then ∃ m₂, (daemon (skipDaemonResult x.op v).attempt).run m₁ = (.ok (.ok ()), m₂) ∧ At C D m₂ c (left ++ d)
      else At C D m₁ c (left ++ d) := by
  obtain ⟨mid, hloop, hskip⟩ := h
  have hrel : Rel (MemReader.Left D) readStderrLoop readStderrLoop := readStderrLoop_rel MemReader.mirrors
  obtain ⟨m₁, hrun, h₁⟩ := hm.onDaemon hrel (hloop d)
  obtain ⟨m₁', hrun', h₁'⟩ := hm.attempt_daemon hrel (hloop d)
  obtain rfl : m₁ = m₁' := Prod.ext (h₁.1.eq h₁'.1) (h₁.2.eq h₁'.2)
  refine ⟨m₁, hrun, hrun', ?_⟩
  split at hskip
  · rename_i hterm
    rw [if_pos hterm]
    exact h₁.attempt_daemon (skipDaemonResult_rel MemReader.mirrors x.op v) (hskip d)
  · rename_i hterm
    rw [if_neg hterm, hskip]
    exact h₁

/-- A request skipped from 1.23 on, its framed data after it if it has some. -/
theorem At.skip_framed_request (hv : v ≥ .new 1 23) {op : Op} {args : List UInt8} {call : OpCall}
    (h : (readOpArgs op v).run (MemReader.new args) = (.ok (some call), ⟨args, args.length⟩)) {m : Streams} {c d : List UInt8}
    (hm : At C D m (args ++ c) d) : ∃ info m₁ m₂, (client (skipOpArgs op v).attempt).run m = (.ok (.ok info), m₁) ∧
      At C D m₂ c d ∧
      ((usesFramed v && opHasClientFramedData op) = true ∧ (∃ total, (client skipFramed.attempt).run m₁ = (.ok (.ok total), m₂)) ∨
        (usesFramed v && opHasClientFramedData op) = false ∧ m₁ = m₂) := by
  obtain ⟨info, m₁, hrun, hframed⟩ := hm.skip_request h
  rw [usesFramed_of hv, Bool.true_and]
  split at hframed
  · rename_i hop
    obtain ⟨total, m₂, hrun₂, h₂⟩ := hframed
    exact ⟨info, m₁, m₂, hrun, h₂, Or.inl ⟨hop, total, hrun₂⟩⟩
  · rename_i hop
    exact ⟨info, m₁, m₁, hrun, hframed, Or.inr ⟨Bool.eq_false_iff.mpr hop, rfl⟩⟩

theorem collectRequest_run (hv : v ≥ .new 1 23) {op : Op} {args : List UInt8} {call : OpCall}
    (h : (readOpArgs op v).run (MemReader.new args) = (.ok (some call), ⟨args, args.length⟩)) {m : Streams} {c d : List UInt8}
    (hm : At C D m (args ++ c) d) :
    ∃ request m', (collectRequest op v).run m = (.ok (some request), m') ∧ At C D m' c d := by
  obtain ⟨info, m₁, m₂, hrun, h₂, ⟨hop, total, hrun₂⟩ | ⟨hop, rfl⟩⟩ := hm.skip_framed_request hv h
  · refine ⟨(info, some total), m₂, ?_, h₂⟩
    rw [collectRequest, Rd.bind_ok hrun]
    simp only [hop, if_true]
    rw [Rd.bind_ok hrun₂]
    rfl
  · refine ⟨(info, none), m₁, ?_, h₂⟩
    rw [collectRequest, Rd.bind_ok hrun]
    simp only [hop, Bool.false_eq_true, if_false]
    rfl

theorem collectResponse_run {db left : List UInt8} (h : LeavesOf v x db left) {m : Streams} {c d : List UInt8}
    (hm : At C D m c (db ++ d)) : ∃ m', (collectResponse x.op v).run m = (.ok (some x.response.report.1), m') ∧
      At C D m' c (left ++ d) := by
  obtain ⟨m₁, _, hrun, hskip⟩ := hm.skip_response h
  rw [collectResponse, Rd.bind_ok hrun]
  simp only
  split at hskip
  · rename_i hterm
    obtain ⟨m₂, hrun₂, h₂⟩ := hskip
    rw [if_pos hterm, Rd.bind_ok hrun₂]
    exact ⟨m₂, rfl, h₂⟩
  · rename_i hterm
    rw [if_neg hterm]
    exact ⟨m₁, rfl, hskip⟩

@[simp] theorem run_client_position (m : Streams) : (client position).run m = (.ok m.1.position, m) := rfl

@[simp] theorem run_daemon_position (m : Streams) : (daemon position).run m = (.ok m.2.position, m) := rfl

/-- How a pass of `collect_ops` and of `decode_text` begins: it sees the operation's code and
    looks up when the operation was sent. -/
theorem At.opens (split : SplitRecords) (h : x.Enc v bs) {m : Streams} {c d : List UInt8} (hm : At C D m (bs.1 ++ c) d) :
    ∃ args m₁ m₂ opStart,
      (readOpArgs x.op v).run (MemReader.new args) = (.ok (some x.call), ⟨args, args.length⟩) ∧
      (client peekU64).run m = (.ok (some x.op.code), m₁) ∧ (client (consume 8)).run m₁ = (.ok (), m₂) ∧
      At C D m₂ (args ++ c) d ∧
      (lookupTimestamp split.clientTs m.1.position : Rd WireError Streams UInt64) = pure opStart := by
  obtain ⟨args, hargs, hbs⟩ := h.1
  rw [hbs, List.append_assoc] at hm
  obtain ⟨m₁, m₂, hpeek, htake, h₂⟩ := hm.code
  obtain ⟨opStart, hstart⟩ := lookupTimestamp_pure split.clientTs m.1.position
  exact ⟨args, m₁, m₂, opStart, hargs, hpeek, htake, h₂, hstart⟩

/-- An operation's code passes the guard of the drivers. -/
theorem code_in_range (op : Op) : (op.code == 0 || op.code > 64) = false := by
  cases op <;> decide

theorem collect_steps (split : SplitRecords) (hv : v ≥ .new 1 23) (h : x.Enc v bs) {left : List UInt8}
    (hleft : LeavesOf v x bs.2 left) : StepsOver C D (collectPass split v) SameRecord x bs left := by
  intro m acc c d hm
  obtain ⟨args, m₁, m₂, opStart, hargs, hpeek, htake, h₂, hstart⟩ := hm.opens split h
  obtain ⟨request, m₃, hrequest, h₃⟩ := collectRequest_run hv hargs h₂
  obtain ⟨m₄, hresponse, h₄⟩ := collectResponse_run hleft h₃
  obtain ⟨opEndNs, hendNs⟩ := opEnd_pure split.daemonTs m₃.2.position m₄.2.position opStart
  rw [collectPass, Rd.bind_ok (run_client_position m), Rd.bind_ok hpeek]
  simp only
  rw [Rd.bind_ok htake, hstart, pure_bind, code_in_range, if_neg (by simp)]
  simp only [Op.fromU64_code]
  rw [Rd.bind_ok hrequest]
  simp only
  rw [Rd.bind_ok (run_client_position m₃), Rd.bind_ok (run_daemon_position m₃), Rd.bind_ok hresponse]
  simp only
  rw [Rd.bind_ok (run_daemon_position m₄), hendNs, pure_bind]
  exact ⟨_, m₄, rfl, h₄, rfl, rfl⟩

/-- The skipped result of `preParsePass` and `decodePass`. -/
theorem skipResult_run {db left : List UInt8} (h : LeavesOf v x db left) {m : Streams} {c d : List UInt8}
    (hm : At C D m c (db ++ d)) : ∃ m₁ m₂, (daemon readStderrLoop).run m = (.ok x.response.report.1, m₁) ∧
      (if x.response.report.1.terminal = some .last then do
          let _ ← daemon (skipDaemonResult x.op v).attempt
          return ()
        else pure () : Rd WireError Streams Unit).run m₁ = (.ok (), m₂) ∧ At C D m₂ c (left ++ d) := by
  obtain ⟨m₁, hrun, _, hskip⟩ := hm.skip_response h
  split at hskip
  · rename_i hterm
    obtain ⟨m₂, hrun₂, h₂⟩ := hskip
    refine ⟨m₁, m₂, hrun, ?_, h₂⟩
    rw [if_pos hterm, Rd.bind_ok hrun₂]
    rfl
  · rename_i hterm
    refine ⟨m₁, m₁, hrun, ?_, hskip⟩
    rw [if_neg hterm]
    rfl

theorem preParse_steps (hv : v ≥ .new 1 23) (h : x.Enc v bs) {left : List UInt8} (hleft : LeavesOf v x bs.2 left) :
    StepsOver C D (preParsePass v) (fun x op => op = some x.op) x bs left := by
  intro m acc c d hm
  obtain ⟨args, hargs, hbs⟩ := h.1
  rw [hbs, List.append_assoc] at hm
  obtain ⟨m₁, m₂, hpeek, htake, h₂⟩ := hm.code
  have hrequest : ∃ m₃, (do
      let _ ← client (skipOpArgs x.op v).attempt
      if usesFramed v && opHasClientFramedData x.op then
        let _ ← client skipFramed.attempt
        return ()
      else return () : Rd WireError Streams Unit).run m₂ = (.ok (), m₃) ∧ At C D m₃ c (bs.2 ++ d) := by
    obtain ⟨info, m₃, m₄, hrun, h₄, ⟨hop, total, hrun₄⟩ | ⟨hop, rfl⟩⟩ := h₂.skip_framed_request hv hargs
    · refine ⟨m₄, ?_, h₄⟩
      rw [Rd.bind_ok hrun, if_pos hop, Rd.bind_ok hrun₄]
      rfl
    · refine ⟨m₃, ?_, h₄⟩
      rw [Rd.bind_ok hrun, if_neg (by simp [hop])]
      rfl
  obtain ⟨m₃, hrequest, h₃⟩ := hrequest
  obtain ⟨m₄, m₅, hloop, hresult, h₅⟩ := skipResult_run hleft h₃
  rw [preParsePass, Rd.bind_ok hpeek]
  simp only
  rw [Rd.bind_ok htake]
  simp only [Op.fromU64_code]
  rw [Rd.bind_ok hrequest, Rd.bind_ok hloop, Rd.bind_ok hresult]
  exact ⟨_, m₅, rfl, h₅, rfl⟩

theorem decodeRequest_run (hv : v ≥ .new 1 23) {op : Op} {args : List UInt8} {call : OpCall}
    (h : (readOpArgs op v).run (MemReader.new args) = (.ok (some call), ⟨args, args.length⟩)) {m : Streams} {c d : List UInt8}
    (hm : At C D m (args ++ c) d) :
    ∃ request m', (decodeRequest (some op) v).run m = (.ok request, m') ∧ At C D m' c d := by
  obtain ⟨info, m₁, m₂, hrun, h₂, ⟨hop, total, hrun₂⟩ | ⟨hop, rfl⟩⟩ := hm.skip_framed_request hv h
  · refine ⟨(info, some total), m₂, ?_, h₂⟩
    rw [decodeRequest, Rd.bind_ok hrun, if_pos hop, Rd.bind_ok hrun₂]
    rfl
  · refine ⟨(info, none), m₁, ?_, h₂⟩
    rw [decodeRequest, Rd.bind_ok hrun, if_neg (by simp [hop])]
    rfl

/-- What `decode` prints of the operation. -/
def SameLine (x : SessionOp) (line : DecodedOp) : Prop :=
  line.opName = x.op.name ∧ line.stderrCount = x.response.report.1.count ∧
    line.resultStr = x.response.report.1.terminal.elim "(no terminal)".toList StderrCode.name

theorem decode_steps (split : SplitRecords) (hv : v ≥ .new 1 23) (h : x.Enc v bs) {left : List UInt8}
    (hleft : LeavesOf v x bs.2 left) : StepsOver C D (decodePass split v) SameLine x bs left := by
  intro m acc c d hm
  obtain ⟨args, m₁, m₂, opStart, hargs, hpeek, htake, h₂, hstart⟩ := hm.opens split h
  obtain ⟨request, m₃, hrequest, h₃⟩ := decodeRequest_run hv hargs h₂
  obtain ⟨m₄, m₅, hloop, hresult, h₅⟩ := skipResult_run hleft h₃
  obtain ⟨opEndNs, hendNs⟩ := opEnd_pure split.daemonTs m₃.2.position m₅.2.position opStart
  rw [decodePass, Rd.bind_ok (run_client_position m), Rd.bind_ok hpeek]
  simp only
  rw [Rd.bind_ok htake, hstart, pure_bind]
  simp only [Op.fromU64_code]
  rw [Rd.bind_ok hrequest, Rd.bind_ok (run_client_position m₃), Rd.bind_ok (run_daemon_position m₃), Rd.bind_ok hloop,
    Rd.bind_ok hresult, Rd.bind_ok (run_daemon_position m₅), hendNs, pure_bind]
  exact ⟨_, m₅, rfl, h₅, rfl, rfl, rfl⟩

theorem decompile_ends {τ : Type} (timestamps : List (Nat × τ)) : EndsWell C D (decompilePass (timestampNow timestamps) v) := by
  intro m acc d hm
  obtain ⟨m₁, hpeek⟩ := hm.no_code
  rw [decompilePass, Rd.bind_ok hpeek]
  exact ⟨m₁, rfl⟩

theorem collect_ends (split : SplitRecords) : EndsWell C D (collectPass split v) := by
  intro m acc d hm
  obtain ⟨m₁, hpeek⟩ := hm.no_code
  have hbefore : (client position).run m = (.ok m.1.position, m) := rfl
  rw [collectPass, Rd.bind_ok hbefore, Rd.bind_ok hpeek]
  exact ⟨m₁, rfl⟩

theorem preParse_ends : EndsWell C D (preParsePass v) := by
  intro m acc d hm
  obtain ⟨m₁, hpeek⟩ := hm.no_code
  rw [preParsePass, Rd.bind_ok hpeek]
  exact ⟨m₁, rfl⟩

theorem decode_ends (split : SplitRecords) : EndsWell C D (decodePass split v) := by
  intro m acc d hm
  obtain ⟨m₁, hpeek⟩ := hm.no_code
  have hbefore : (client position).run m = (.ok m.1.position, m) := rfl
  rw [decodePass, Rd.bind_ok hbefore, Rd.bind_ok hpeek]
  exact ⟨m₁, rfl⟩

end

/-! ## Agreement -/

theorem Session.starts (s : Session) :
    At s.split.clientBytes s.split.daemonBytes s.start (s.parts.map Prod.fst).flatten (s.parts.map Prod.snd).flatten := by
  obtain ⟨⟨c, d⟩, _, hc, hd⟩ := mem_runs (parseHandshake_rel MemReader.mirrors MemReader.mirrors) s.handshake
  obtain rfl : c = _ := hc.2.2.symm.trans s.client_rest
  obtain rfl : d = _ := hd.2.2.symm.trans s.daemon_rest
  exact ⟨hc, hd⟩

/-- Every operation takes a byte of the client's stream. -/
theorem Session.length_le (s : Session) : s.ops.length ≤ clientSize s.start := by
  have hparts : s.ops.length ≤ (s.parts.map Prod.fst).flatten.length := by
    have h := s.encoded
    generalize s.ops = ops, s.parts = parts at h
    induction h with
    | nil => simp
    | cons hx _ ih =>
      obtain ⟨⟨args, _, hbs⟩, _⟩ := hx
      simp only [List.map_cons, List.flatten_cons, List.length_append, List.length_cons, hbs, wordBytes_length]
      omega
  have hleft : s.start.1.pos + (s.parts.map Prod.fst).flatten.length = s.start.1.data.length := by
    rw [s.starts.1.1]
    exact s.starts.1.2.1
  have hsize : clientSize s.start = s.start.1.data.length - s.start.1.pos := rfl
  omega

/-- A loop whose passes leave nothing of the responses returns where the session ends. -/
theorem Session.iterate_ok (s : Session) {γ : Type} {body : List γ → Rd WireError Streams (List γ ⊕ List γ)}
    {Same : SessionOp → γ → Prop} (hend : EndsWell s.split.clientBytes s.split.daemonBytes body)
    (h : List.Forall₂ (fun x bs => StepsOver s.split.clientBytes s.split.daemonBytes body Same x bs []) s.ops s.parts) :
    ∃ gs m, (Rd.iterate clientSize body []).run s.start = (.ok gs, m) ∧ List.Forall₂ Same s.ops gs := by
  have hstart := s.starts
  rw [← List.append_nil (List.flatten (List.map Prod.fst _)), ← List.append_nil (List.flatten (List.map Prod.snd _))] at hstart
  obtain ⟨gs, m, hr, hm, hgs⟩ := run_steps h hstart
  obtain ⟨m', hstop⟩ := hend m ([] ++ gs) [] hm
  exact ⟨gs, m', hr.loop_ok hstop s.length_le, hgs⟩

/-- The response of a decompiled entry says what the stderr loop reported. -/
def Reported {τ : Type} (entry : Entry τ) (r : StderrResult) : Prop :=
  ∃ response, entry.response = some response ∧ response.terminal = terminalName r.terminal ∧ response.stderrCount = r.count

/-- `collect_ops` records the operation of a decompiled entry. -/
def AgreesRecord {τ : Type} (entry : Entry τ) (rec : OpRecord) : Prop :=
  rec.opName = entry.opCall.op.name ∧ ∃ r, Reported entry r ∧ rec.success = decide (r.terminal = some .last)

/-- `decode_text` prints the operation of a decompiled entry. -/
def AgreesLine {τ : Type} (entry : Entry τ) (line : DecodedOp) : Prop :=
  line.opName = entry.opCall.op.name ∧ ∃ r, Reported entry r ∧ line.stderrCount = r.count ∧
    line.resultStr = r.terminal.elim "(no terminal)".toList StderrCode.name

/-- The four drivers run through the session, process the same operations in order, report
    the same, and stand at the same byte of the daemon's stream after each. -/
structure DriversAgree (s : Session) {τ : Type} (timestamps : List (Nat × τ)) : Prop where
  reports : ∃ (script : Script τ) (records : List OpRecord) (pre : PreParseResult) (lines : List DecodedOp),
    (∃ m, (decompileStreams timestamps).run (.new s.split.clientBytes, .new s.split.daemonBytes) = (.ok script, m)) ∧
    (∃ m, (collectOps s.split).run (.new s.split.clientBytes, .new s.split.daemonBytes) = (.ok (s.info, records), m)) ∧
    (∃ m, preParseRecording.run (.new s.split.clientBytes, .new s.split.daemonBytes) = (.ok pre, m)) ∧
    (∃ m, (decodeText s.split).run (.new s.split.clientBytes, .new s.split.daemonBytes) = (.ok (s.info, lines), m)) ∧
    List.Forall₂ AgreesRecord script.entries records ∧ pre.ops = script.entries.map (fun entry => some entry.opCall.op) ∧
    List.Forall₂ AgreesLine script.entries lines
  stands : ∀ i pos,
    (StandsAt (decompilePass (timestampNow timestamps) s.info.negotiatedVersion) s.start i pos ↔
      StandsAt (collectPass s.split s.info.negotiatedVersion) s.start i pos) ∧
    (StandsAt (decompilePass (timestampNow timestamps) s.info.negotiatedVersion) s.start i pos ↔
      StandsAt (preParsePass s.info.negotiatedVersion) s.start i pos) ∧
    (StandsAt (decompilePass (timestampNow timestamps) s.info.negotiatedVersion) s.start i pos ↔
      StandsAt (decodePass s.split s.info.negotiatedVersion) s.start i pos)

theorem forall₂_join {α β γ : Type} {R : α → β → Prop} {S : α → γ → Prop} {T : β → γ → Prop} (hT : ∀ a b c, R a b → S a c → T b c)
    {as : List α} {bs : List β} {cs : List γ} (hbs : List.Forall₂ R as bs) (hcs : List.Forall₂ S as cs) :
    List.Forall₂ T bs cs := by
  induction hbs generalizing cs with
  | nil =>
    cases hcs
    exact .nil
  | cons hb _ ih =>
    cases hcs with
    | cons hc hcs => exact .cons (hT _ _ _ hb hc) (ih hcs)

section

variable (s : Session) {τ : Type} (timestamps : List (Nat × τ))

/-- On a session without failures every driver follows it. -/
theorem agree_of_succeeds (h : ∀ x ∈ s.ops, x.succeeds = true) : DriversAgree s timestamps := by
  have hall := (List.forall₂_and_left _ _).mpr ⟨h, s.encoded⟩
  have hleaves : ∀ {x bs}, x.succeeds = true ∧ SessionOp.Enc s.info.negotiatedVersion x bs →
      LeavesOf s.info.negotiatedVersion x bs.2 [] := by
    rintro x bs ⟨hx, henc⟩
    obtain ⟨left, hleft, hnil⟩ := skip_response henc.2
    rw [if_pos hx] at hnil
    rwa [hnil] at hleft
  have hdecompile := s.encoded.imp fun x bs hx =>
    decompile_steps (C := s.split.clientBytes) (D := s.split.daemonBytes) timestamps hx
  have hcollect := hall.imp fun x bs hx =>
    collect_steps (C := s.split.clientBytes) (D := s.split.daemonBytes) s.split s.version hx.2 (hleaves hx)
  have hpre := hall.imp fun x bs hx =>
    preParse_steps (C := s.split.clientBytes) (D := s.split.daemonBytes) s.version hx.2 (hleaves hx)
  have hdecode := hall.imp fun x bs hx =>
    decode_steps (C := s.split.clientBytes) (D := s.split.daemonBytes) s.split s.version hx.2 (hleaves hx)
  constructor
  · obtain ⟨entries, m₁, hrun₁, hentries⟩ := s.iterate_ok (decompile_ends timestamps) hdecompile
    obtain ⟨records, m₂, hrun₂, hrecords⟩ := s.iterate_ok (collect_ends s.split) hcollect
    obtain ⟨ops, m₃, hrun₃, hops⟩ := s.iterate_ok preParse_ends hpre
    obtain ⟨lines, m₄, hrun₄, hlines⟩ := s.iterate_ok (decode_ends s.split) hdecode
    refine ⟨{ preamble := preambleOf s.info, entries }, records,
      { negotiatedVersion := s.info.negotiatedVersion, clientVersion := s.info.clientVersion, ops }, lines, ⟨m₁, ?_⟩, ⟨m₂, ?_⟩,
      ⟨m₃, ?_⟩, ⟨m₄, ?_⟩, ?_, ?_, ?_⟩
    · rw [decompileStreams, decompileWith, Rd.bind_ok s.handshake, Rd.bind_ok hrun₁]
      rfl
    · rw [collectOps, Rd.bind_ok s.handshake, Rd.bind_ok hrun₂]
      rfl
    · rw [preParseRecording, Rd.bind_ok s.handshake, Rd.bind_ok hrun₃]
      rfl
    · rw [decodeText, Rd.bind_ok s.handshake, Rd.bind_ok hrun₄]
      rfl
    · refine forall₂_join ?_ hentries hrecords
      rintro x entry rec ⟨_, hop, hresponse⟩ ⟨hname, hsuccess⟩
      exact ⟨by rw [hop, hname], _, ⟨_, hresponse, rfl, rfl⟩, hsuccess⟩
    · rw [← List.forall₂_eq_eq_eq, List.forall₂_map_right_iff]
      refine forall₂_join ?_ hops hentries
      rintro x op entry rfl ⟨_, hop, _⟩
      rw [hop]
    · refine forall₂_join ?_ hentries hlines
      rintro x entry line ⟨_, hop, hresponse⟩ ⟨hname, hcount, hterm⟩
      exact ⟨by rw [hop, hname], _, ⟨_, hresponse, rfl, rfl⟩, hcount, hterm⟩
  · intro i pos
    have hstart := s.starts
    rw [standsAt_iff hdecompile (decompile_ends timestamps) hstart, standsAt_iff hcollect (collect_ends s.split) hstart,
      standsAt_iff hpre preParse_ends hstart, standsAt_iff hdecode (decode_ends s.split) hstart]
    exact ⟨Iff.rfl, Iff.rfl, Iff.rfl⟩

variable {s timestamps}

/-- Past the first failure `decompile_streams` stands behind the error's payload and
    `collect_ops` in front of it. -/
theorem disagree_of_failure (h : ¬∀ x ∈ s.ops, x.succeeds = true) : ¬DriversAgree s timestamps := by
  intro hagree
  obtain ⟨x, hfind⟩ : ∃ x, s.ops.find? (fun x => !x.succeeds) = some x := by
    rw [← Option.isSome_iff_exists, List.find?_isSome]
    simpa using h
  obtain ⟨hx, before, after, hops, hbefore⟩ := List.find?_eq_some_iff_append.mp hfind
  have htake : s.ops.take before.length = before := by rw [hops, List.take_left]
  have hdrop : s.ops.drop before.length = x :: after := by rw [hops, List.drop_left]
  -- the successes before it, which every driver follows
  have hfollow : List.Forall₂ (fun x bs => StepsOver s.split.clientBytes s.split.daemonBytes
      (collectPass s.split s.info.negotiatedVersion) SameRecord x bs []) before (s.parts.take before.length) := by
    have henc := List.forall₂_take before.length s.encoded
    rw [htake] at henc
    refine ((List.forall₂_and_left _ _).mpr ⟨hbefore, henc⟩).imp ?_
    rintro y bs ⟨hy, hbs⟩
    obtain ⟨left, hleft, hnil⟩ := skip_response hbs.2
    rw [if_pos (by simpa using hy)] at hnil
    rw [hnil] at hleft
    exact collect_steps s.split s.version hbs hleft
  have hfail := List.forall₂_drop before.length s.encoded
  rw [hdrop] at hfail
  generalize hparts : s.parts.drop before.length = parts at hfail
  cases hfail with
  | @cons _ bs _ rest hbs _ =>
    obtain ⟨left, hleft, hpos⟩ := skip_response hbs.2
    rw [if_neg (by simpa using hx)] at hpos
    have hsplit : ∀ f : List UInt8 × List UInt8 → List UInt8, (s.parts.map f).flatten =
        ((s.parts.take before.length).map f).flatten ++ (f bs ++ (rest.map f).flatten) := by
      intro f
      rw [← List.flatten_cons, ← List.map_cons, ← hparts, ← List.flatten_append, ← List.map_append, List.take_append_drop]
    have hstart := s.starts
    rw [hsplit, hsplit] at hstart
    obtain ⟨gs, m, hr, hm, _⟩ := run_steps hfollow hstart
    obtain ⟨g, m', hrun, hm', _⟩ := collect_steps s.split s.version hbs hleft m ([] ++ gs) _ _ hm
    have hcollect : StandsAt (collectPass s.split s.info.negotiatedVersion) s.start (before.length + 1) m'.2.position :=
      ⟨_, m', hr.snoc hrun, rfl⟩
    have hdecompile := s.encoded.imp fun x bs hx =>
      decompile_steps (C := s.split.clientBytes) (D := s.split.daemonBytes) timestamps hx
    obtain ⟨_, hend⟩ := (standsAt_iff hdecompile (decompile_ends timestamps) s.starts _ _).mp ((hagree.stands _ _).1.mpr hcollect)
    have hrest : s.parts.drop (before.length + 1) = rest := by rw [← List.drop_drop, hparts]; rfl
    have hposition := hm'.position
    rw [hrest] at hend
    rw [List.length_append] at hposition
    omega

variable (s timestamps)

/-- The drivers agree on a session exactly when no operation of it is answered by STDERR_ERROR. -/
theorem drivers_agree_iff : DriversAgree s timestamps ↔ ∀ x ∈ s.ops, x.succeeds = true := by
  constructor
  · intro h
    by_contra hfail
    exact disagree_of_failure hfail h
  · exact agree_of_succeeds s timestamps

end

/-- A recording at 1.23 of two syncs, the first of them refused. -/
def failingSession : Session where
  split :=
    { clientBytes := [workerMagic1, 0x0117, 0, 0, 13, 13].flatMap wordBytes
      daemonBytes := [workerMagic2, 0x0117, StderrCode.last.code, StderrCode.error.code, 0, 0, 0, 0, 0, StderrCode.last.code, 1]
        |>.flatMap wordBytes
      clientTs := []
      daemonTs := [] }
  info :=
    { clientVersion := .new 1 23, serverVersion := .new 1 23, negotiatedVersion := .new 1 23, clientFeatures := [],
      serverFeatures := [], daemonNixVersion := none, trustStatus := none }
  start := (⟨[workerMagic1, 0x0117, 0, 0, 13, 13].flatMap wordBytes, 32⟩,
    ⟨[workerMagic2, 0x0117, StderrCode.last.code, StderrCode.error.code, 0, 0, 0, 0, 0,
      StderrCode.last.code, 1].flatMap wordBytes, 24⟩)
  ops := [⟨.syncWithGC, .noArgs .syncWithGC, [], .error (([] : Str), 0, ([] : Str), ([] : Str), .inl ())⟩,
    ⟨.syncWithGC, .noArgs .syncWithGC, [], .last (.u64 1)⟩]
  parts := [(wordBytes 13, [StderrCode.error.code, 0, 0, 0, 0, 0].flatMap wordBytes),
    (wordBytes 13, [StderrCode.last.code, 1].flatMap wordBytes)]
  handshake := by decide
  version := by decide
  encoded := by
    refine .cons ⟨⟨[], by decide, rfl⟩, [], _, .nil, ⟨_, ?_, rfl⟩, rfl⟩ (.cons ⟨⟨[], by decide, rfl⟩, [], _, .nil, ?_, rfl⟩ .nil)
    · exact enc_write wireLimits errorLayout.fmt _ ⟨Nat.zero_le _, trivial, Nat.zero_le _, Nat.zero_le _, trivial⟩
    · exact ⟨wordBytes 1, by decide, rfl⟩
  client_rest := by decide
  daemon_rest := by decide

/-- After its first operation the drivers stand at different bytes. -/
theorem drivers_disagree : ¬DriversAgree failingSession ([] : List (Nat × Nat)) :=
  disagree_of_failure (by simp [failingSession, SessionOp.succeeds])

end NixWire
