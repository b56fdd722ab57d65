/-
  NixWire.Unpacked — packing what was unpacked.

  A script that unpacking gives, and that has no placeholder for an operation it could not
  parse, can be packed; unpacking that, against the same daemon bytes, gives the script
  again, times aside (`unpacked_repacks`). So one round settles every choice of encoding.

  The packed bytes follow the recorded ones part by part: a handshake, and one piece for each
  operation that is read as the same call. Where the operation sends no framed data the two
  pieces are as long, and differ only in padding, flag words and words that are ignored
  (`unpacked_resends`).
-/

import NixWire.RawBytes
import NixWire.Repack
import NixWire.Visits

namespace NixWire

open Base

/-! ## Operations that were parsed -/

/-- A placeholder for an operation that was not parsed. -/
def OpCall.Raw (call : OpCall) : Prop := ∃ op data, call = .rawBytes op data

/-- What was recorded and read as the call, packed again as `part`. -/
structure Resent (v : ProtocolVersion) (call : OpCall) (piece part : List UInt8) : Prop where
  recorded : ReadAs v call piece
  packed : Packed v call part
  same : opHasClientFramedData call.op = false →
    ∃ args args', piece = wordBytes call.op.code ++ args ∧ part = wordBytes call.op.code ++ args' ∧
      (argsLayout call.op v).fmt.Same args args'

section

variable {v : ProtocolVersion}

/-- An operation that was parsed can be packed. -/
theorem readOpCall_resent {opCode : UInt64} {call : OpCall} {s rest : List UInt8}
    (h : (readOpCall (Op.fromU64 opCode) v).run s = (.ok call, rest)) (hraw : ¬call.Raw) :
    opCode = call.op.code ∧ ∃ args part, s = args ++ rest ∧ Resent v call (wordBytes opCode ++ args) part := by
  cases hcode : Op.fromU64 opCode with
  | none =>
    rw [hcode] at h
    cases h
    exact absurd ⟨_, _, rfl⟩ hraw
  | some o =>
    rw [hcode, readOpCall] at h
    obtain ⟨parsed, s₁, hargs, hcall⟩ := Rd.bind_ok_iff.mp h
    cases parsed with
    | none =>
      obtain ⟨_, _, _, hmore⟩ := Rd.bind_ok_iff.mp hcall
      obtain ⟨_, _, _, hout⟩ := Rd.bind_ok_iff.mp hmore
      cases hout
      exact absurd ⟨_, _, rfl⟩ hraw
    | some parsed =>
      cases hcall
      obtain ⟨args, bs, hbs, hof, rfl⟩ := readOpArgs_ok_iff.mp hargs
      obtain ⟨rfl, _⟩ := serialize_args (fun _ => .error []) none hbs.fits hof
      obtain rfl := Op.code_of_fromU64 hcode
      refine ⟨rfl, bs, _, rfl, readAs_enc hbs hof, ⟨args, hbs.fits, hof, rfl⟩, fun hframed => ?_⟩
      exact ⟨bs, _, rfl, rfl, hbs.same (unframed_args hframed v)⟩

theorem Packed.serialize (readFile : Str → Except Str (List UInt8)) (baseDir : Option Str) {call : OpCall} {bs : List UInt8}
    (h : Packed v call bs) : serializeOpCall readFile call v baseDir = .ok bs := by
  obtain ⟨args, hfits, hcall, rfl⟩ := h
  obtain ⟨_, hser⟩ := serialize_args readFile baseDir hfits hcall
  rw [serializeOpCall, hser]
  rfl

theorem packed_calls (readFile : Str → Except Str (List UInt8)) (baseDir : Option Str) {calls : List OpCall}
    {parts : List (List UInt8)} (h : List.Forall₂ (Packed v) calls parts) :
    serializeOpCalls readFile v baseDir calls = .ok parts.flatten := by
  induction h with
  | nil => rfl
  | cons hbs _ ih =>
    rw [serializeOpCalls, hbs.serialize readFile baseDir, ih]
    rfl

end

/-! ## Passes over the packed bytes -/

section

variable {τ : Type} {now : Rd WireError (List UInt8) (Option τ)} (hnow : Looks now) {v : ProtocolVersion}

include hnow

/-- A pass over the packed operation does what the pass over the recorded one did, whatever
    the times. -/
theorem resent_pass {entries out : List (Entry τ)} {c d : List UInt8} {q : List UInt8 × List UInt8}
    (h : (decompilePass now v entries).run (c, d) = (.ok (.inl out), q)) : ∃ entry, out = entries ++ [entry] ∧
      (¬entry.opCall.Raw → ∃ piece part, c = piece ++ q.1 ∧ Resent v entry.opCall piece part ∧
        ∀ now', Looks now' → ∀ entries' rest, ∃ entry' : Entry τ, (decompilePass now' v entries').run (part ++ rest, d) =
          (.ok (.inl (entries' ++ [entry'])), (rest, q.2)) ∧ entry'.untimed = entry.untimed) := by
  obtain ⟨opCode, s, t, entry, rfl, _, hop, rfl⟩ := (decompilePass_inl_iff hnow).mp h
  refine ⟨entry, rfl, fun hraw => ?_⟩
  obtain ⟨c', d'⟩ := q
  obtain ⟨call, r, e, d₁, result, hcall, hstderr, hresult, rfl⟩ := decompileOp_ok_iff.mp hop
  obtain ⟨rfl, args, part, rfl, hresent⟩ := readOpCall_resent hcall hraw
  refine ⟨_, part, (List.append_assoc ..).symm, hresent, fun now' hnow' entries' rest => ?_⟩
  obtain ⟨args', rfl, hread⟩ := hresent.packed.readAs
  obtain ⟨t', ht'⟩ := hnow' (wordBytes call.op.code ++ (args' ++ rest))
  rw [List.append_assoc]
  exact ⟨_, (decompilePass_inl_iff hnow').mpr ⟨_, _, t', _, rfl, ht',
    decompileOp_ok_iff.mpr ⟨call, r, e, d₁, result, hread rest, hstderr, hresult, rfl⟩, rfl⟩, rfl⟩

theorem resent_passes {n : Nat} {entries out : List (Entry τ)} {p q : List UInt8 × List UInt8}
    (h : Rd.Reaches (decompilePass now v) n (entries, p) (out, q)) : ∃ more, out = entries ++ more ∧
      ((∀ entry ∈ more, ¬entry.opCall.Raw) → ∃ pieces : List (List UInt8 × List UInt8),
        p.1 = (pieces.map Prod.fst).flatten ++ q.1 ∧
        List.Forall₂ (fun (entry : Entry τ) bs => Resent v entry.opCall bs.1 bs.2) more pieces ∧
        ∀ now', Looks now' → ∀ entries' rest, ∃ more', Rd.Reaches (decompilePass now' v) n
          (entries', ((pieces.map Prod.snd).flatten ++ rest, p.2)) (entries' ++ more', (rest, q.2)) ∧
            more'.map Entry.untimed = more.map Entry.untimed) := by
  induction n generalizing entries p with
  | zero =>
    cases h
    exact ⟨[], (List.append_nil _).symm, fun _ => ⟨[], rfl, .nil, fun _ _ entries' rest =>
      ⟨[], by rw [List.append_nil]; exact .refl _, rfl⟩⟩⟩
  | succ n ih =>
    cases h with
    | step hpass hr =>
      obtain ⟨entry, rfl, hentry⟩ := resent_pass hnow hpass
      obtain ⟨more, rfl, hmore⟩ := ih hr
      refine ⟨entry :: more, List.append_assoc .., fun hraw => ?_⟩
      obtain ⟨hfirst, hothers⟩ := List.forall_mem_cons.mp hraw
      obtain ⟨piece, part, hc, hresent, hrun⟩ := hentry hfirst
      obtain ⟨pieces, hrest, hall, hruns⟩ := hmore hothers
      refine ⟨(piece, part) :: pieces, ?_, .cons hresent hall, fun now' hnow' entries' rest => ?_⟩
      · rw [List.map_cons, List.flatten_cons, List.append_assoc, ← hrest]
        exact hc
      · obtain ⟨entry', hstep, huntimed⟩ := hrun now' hnow' entries' ((pieces.map Prod.snd).flatten ++ rest)
        obtain ⟨more', hreach, hsame⟩ := hruns now' hnow' (entries' ++ [entry']) rest
        refine ⟨entry' :: more', ?_, ?_⟩
        · rw [List.map_cons, List.flatten_cons, List.append_assoc]
          rw [List.append_assoc] at hreach
          exact .step hstep hreach
        · rw [List.map_cons, List.map_cons, huntimed, hsame]

end

/-! ## The handshake -/

theorem Fmt.Fits.set {set : List Str} (h : setFmt.Fits wireLimits set) : SetFits set := ⟨h.2.1, h.2.2⟩

theorem ProtocolVersion.min_le_right (a b : ProtocolVersion) : min a b ≤ b := by
  show (if a ≤ b then a else b) ≤ b
  by_cases h : a ≤ b
  · rw [if_pos h]
    exact h
  · rw [if_neg h, ProtocolVersion.le_iff]

/-- A version off the wire goes back on it. -/
theorem ProtocolVersion.min_wire (cw sw : UInt64) : (min (fromWire cw) (fromWire sw)).major < 256 := by
  have hbyte : ∀ w, (fromWire w).major < 256 := by
    intro w
    rw [UInt16.lt_iff_toNat_lt, from_wire_major]
    exact Nat.mod_lt _ (by decide)
  show (if fromWire cw ≤ fromWire sw then fromWire cw else fromWire sw).major < 256
  split
  · exact hbyte cw
  · exact hbyte sw

/-- `hello` is all that the handshake takes of the client's bytes; of the daemon's `d` it leaves `d'`. -/
def Greets (hello d : List UInt8) (info : HandshakeInfo) (d' : List UInt8) : Prop :=
  ∀ rest, parseHandshake.run (hello ++ rest, d) = (.ok info, (rest, d'))

/-- The handshake packed for a script is read as the recorded one was, its own version aside. -/
theorem resent_handshake {c d : List UInt8} {info : HandshakeInfo} {p : List UInt8 × List UInt8}
    (h : parseHandshake.run (c, d) = (.ok info, p)) : ∃ hello info', c = hello ++ p.1 ∧ Greets hello d info p.2 ∧
      Greets (serializeClientHandshake info.negotiatedVersion info.clientFeatures) d info' p.2 ∧
      info'.negotiatedVersion = info.negotiatedVersion ∧ preambleOf info' = preambleOf info := by
  obtain ⟨c', d'⟩ := p
  obtain ⟨cw, sw, _, _, v, x, y, cb, db, rfl, rfl, hv, hx, hy, rfl, rfl, hlast, rfl⟩ := parseHandshake_ok_iff.mp h
  have hfeatures : SetFits (x.1.getD []) := by
    cases hset : x.1 with
    | none => exact ⟨Nat.zero_le _, List.forall_mem_nil _⟩
    | some features =>
      have hfits := hx.fits.1
      rw [hset] at hfits
      exact Fmt.Fits.set hfits.2
  have hdefault : v.hasFeatures = false → x.1.getD [] = [] := by
    intro hno
    cases hset : x.1 with
    | none => rfl
    | some features =>
      have hfits := hx.fits.1
      rw [hset] at hfits
      exact absurd (hno.symm.trans hfits.1) Bool.false_ne_true
  obtain ⟨x', hx', hsame, hser⟩ := serialize_hello hfeatures hdefault
  have hmajor : v.major < 256 := by
    rw [hv]
    exact ProtocolVersion.min_wire cw sw
  have hnegotiated : v = min (.fromWire v.toWire) (.fromWire sw) := by
    rw [ProtocolVersion.from_wire_to_wire hmajor, ProtocolVersion.min_eq_left]
    rw [hv]
    exact ProtocolVersion.min_le_right _ _
  refine ⟨wordBytes workerMagic1 ++ (wordBytes cw ++ cb), _, by simp, fun rest => ?_, fun rest => parseHandshake_ok_iff.mpr
    ⟨v.toWire, sw, _, _, v, x', y, _, db, rfl, rfl, hnegotiated, enc_write _ _ _ hx', hy, ?_, rfl, hlast, rfl⟩, rfl, ?_⟩
  · exact parseHandshake_ok_iff.mpr ⟨cw, sw, _, _, v, x, y, cb, db, rfl, rfl, hv, hx, hy, by simp, rfl, hlast, rfl⟩
  · show serializeClientHandshake v (x.1.getD []) ++ rest = _
    rw [hser]
    simp only [List.append_assoc]
  · unfold preambleOf handshakeInfo
    simp only [hsame]

/-! ## The round -/

/-- A script without its entries' times. -/
def Script.untimed {τ : Type} (script : Script τ) : Script τ := { script with entries := script.entries.map Entry.untimed }

/-- What a run that unpacks a script without placeholders is made of, and the run over what
    the script is packed as. -/
theorem unpacked_run {τ : Type} {timestamps : List (Nat × τ)} {clientBytes daemonBytes : List UInt8} {script : Script τ}
    {m : Streams} (h : (decompileStreams timestamps).run (.new clientBytes, .new daemonBytes) = (.ok script, m))
    (hraw : ∀ entry ∈ script.entries, ¬entry.opCall.Raw) : ∃ (hello d : List UInt8) (info info' : HandshakeInfo)
      (pieces : List (List UInt8 × List UInt8)) (rest : List UInt8),
      clientBytes = hello ++ ((pieces.map Prod.fst).flatten ++ rest) ∧ rest.length < 8 ∧
      (Greets hello daemonBytes info d ∧ preambleOf info = script.preamble) ∧
      (Greets (serializeClientHandshake script.preamble.protocolVersion script.preamble.clientFeatures) daemonBytes info' d ∧
        preambleOf info' = script.preamble) ∧
      List.Forall₂ (fun (entry : Entry τ) bs => Resent script.preamble.protocolVersion entry.opCall bs.1 bs.2) script.entries
        pieces ∧
      ∀ timestamps' : List (Nat × τ), ∃ again m', (decompileStreams timestamps').run
        (.new (serializeClientHandshake script.preamble.protocolVersion script.preamble.clientFeatures
          ++ (pieces.map Prod.snd).flatten), .new daemonBytes) = (.ok again, m') ∧
        again.untimed = script.untimed ∧ m'.2 = m.2 := by
  obtain ⟨q, hflat, hat⟩ := mem_runs (decompile_rel timestamps _ _) h
  have hnow := timestampLeft_looks timestamps clientBytes.length
  obtain ⟨info, p, n, hhand, hr, hshort, hpre⟩ := (decompileWith_ok_iff hnow).mp hflat
  obtain ⟨hello, info', hc, hgreets, hgreets', hversion', hpre'⟩ := resent_handshake hhand
  obtain ⟨more, hmore, hpasses⟩ := resent_passes hnow hr
  obtain rfl : script.entries = more := hmore
  obtain ⟨pieces, hp, hall, hruns⟩ := hpasses hraw
  have hversion : script.preamble.protocolVersion = info.negotiatedVersion := by
    rw [hpre]
    rfl
  have hfeatures : script.preamble.clientFeatures = info.clientFeatures := by
    rw [hpre]
    rfl
  rw [hversion, hfeatures]
  have hpreamble : preambleOf info = script.preamble := by rw [hpre]
  refine ⟨hello, p.2, info, info', pieces, q.1, by rw [← hp]; exact hc, hshort, ⟨hgreets, hpreamble⟩,
    ⟨hgreets', hpre'.trans hpreamble⟩, hall, fun timestamps' => ?_⟩
  generalize hbytes : serializeClientHandshake info.negotiatedVersion info.clientFeatures ++
    (pieces.map Prod.snd).flatten = bytes
  have hnow' := timestampLeft_looks timestamps' bytes.length
  have hhand' := hgreets' (pieces.map Prod.snd).flatten
  obtain ⟨entries, hreach, huntimed⟩ := hruns _ hnow' [] []
  rw [List.append_nil] at hreach
  rw [hbytes] at hhand'
  rw [← hversion'] at hreach
  let again : Script τ := { preamble := preambleOf info', entries }
  have hrun : (decompileWith (timestampLeft timestamps' bytes.length)).run (bytes, daemonBytes) = (.ok again, ([], q.2)) :=
    (decompileWith_ok_iff hnow').mpr ⟨info', _, n, hhand', hreach, Nat.zero_lt_succ 7, rfl⟩
  have hstart : At bytes daemonBytes (.new bytes, .new daemonBytes) bytes daemonBytes :=
    ⟨MemReader.left_new bytes, MemReader.left_new daemonBytes⟩
  obtain ⟨m', hrun', hat'⟩ := (decompile_rel timestamps' bytes daemonBytes).run hstart hrun
  refine ⟨again, m', hrun', ?_, hat'.2.eq hat.2⟩
  show ({ preamble := preambleOf info', entries := entries.map Entry.untimed } : Script τ) = { script with entries := _ }
  rw [huntimed, hpre', ← hpre]

theorem resent_script {τ : Type} (readFile : Str → Except Str (List UInt8)) (baseDir : Option Str) {script : Script τ}
    {pieces : List (List UInt8 × List UInt8)} (h : List.Forall₂
      (fun (entry : Entry τ) bs => Resent script.preamble.protocolVersion entry.opCall bs.1 bs.2) script.entries pieces) :
    serializeScript readFile script baseDir = .ok (serializeClientHandshake script.preamble.protocolVersion
      script.preamble.clientFeatures ++ (pieces.map Prod.snd).flatten) := by
  have hpacked : List.Forall₂ (Packed script.preamble.protocolVersion) (script.entries.map (·.opCall))
      (pieces.map Prod.snd) :=
    List.forall₂_map_left_iff.mpr (List.forall₂_map_right_iff.mpr (h.imp fun _ _ h => h.packed))
  rw [serializeScript, packed_calls readFile baseDir hpacked]
  rfl

/-- Packing what was unpacked and unpacking it again gives the script, and leaves the
    daemon's stream where it was left. -/
theorem unpacked_repacks {τ : Type} (readFile : Str → Except Str (List UInt8)) (baseDir : Option Str)
    {timestamps : List (Nat × τ)} {clientBytes daemonBytes : List UInt8} {script : Script τ} {m : Streams}
    (h : (decompileStreams timestamps).run (.new clientBytes, .new daemonBytes) = (.ok script, m))
    (hraw : ∀ entry ∈ script.entries, ¬entry.opCall.Raw) :
    ∃ bytes, serializeScript readFile script baseDir = .ok bytes ∧ ∀ timestamps' : List (Nat × τ), ∃ again m',
      (decompileStreams timestamps').run (.new bytes, .new daemonBytes) = (.ok again, m') ∧
      again.untimed = script.untimed ∧ m'.2 = m.2 := by
  obtain ⟨_, _, _, _, pieces, _, _, _, _, _, hall, hagain⟩ := unpacked_run h hraw
  exact ⟨_, resent_script readFile baseDir hall, hagain⟩

/-- What is unpacked of two calls at 1.37, the first with a flag of 5. -/
def flaggedBytes : List UInt8 := [workerMagic1, 0x0125, 0, 0, 35, 5, 0, 13].flatMap wordBytes

def flaggedScript : Script Nat where
  preamble :=
    { protocolVersion := .new 1 37, clientFeatures := [], expects := [], daemonVersion := some [],
      trust := some "trusted".toList, serverFeatures := some [] }
  entries :=
    [{ timestampMs := none, opCall := .verifyStore true false, response := some ⟨"Last".toList, 1, some (.u64 1), none⟩,
       expects := [] },
     { timestampMs := none, opCall := .noArgs .syncWithGC, response := some ⟨"Last".toList, 1, some (.u64 1), none⟩,
       expects := [] }]

theorem decompile_flagged : (decompileStreams []).run (.new flaggedBytes, .new verifyDaemon) =
    (.ok flaggedScript, (⟨flaggedBytes, 64⟩, ⟨verifyDaemon, 72⟩)) := by
  decide

theorem flagged_parsed : ∀ entry ∈ flaggedScript.entries, ¬entry.opCall.Raw := by
  simp [flaggedScript, OpCall.Raw]

/-- The flag comes back as 1, which reads alike. -/
theorem unpacked_repacks_flagged : ∃ bytes, serializeScript (fun _ => .error []) flaggedScript none = .ok bytes ∧
    ∀ timestamps' : List (Nat × Nat), ∃ again m', (decompileStreams timestamps').run (.new bytes, .new verifyDaemon) =
      (.ok again, m') ∧ again.untimed = flaggedScript.untimed ∧ m'.2 = ⟨verifyDaemon, 72⟩ :=
  unpacked_repacks (fun _ => .error []) none decompile_flagged flagged_parsed

/-- The packed bytes are the recorded ones part by part, the client's version aside: a handshake,
    and for each operation its code and arguments, which without framed data are as many bytes. -/
theorem unpacked_resends {τ : Type} (readFile : Str → Except Str (List UInt8)) (baseDir : Option Str)
    {timestamps : List (Nat × τ)} {clientBytes daemonBytes : List UInt8} {script : Script τ} {m : Streams}
    (h : (decompileStreams timestamps).run (.new clientBytes, .new daemonBytes) = (.ok script, m))
    (hraw : ∀ entry ∈ script.entries, ¬entry.opCall.Raw) : ∃ (hello hello' d : List UInt8) (info info' : HandshakeInfo)
      (pieces : List (List UInt8 × List UInt8)) (rest : List UInt8),
      clientBytes = hello ++ ((pieces.map Prod.fst).flatten ++ rest) ∧ rest.length < 8 ∧
      hello' = serializeClientHandshake script.preamble.protocolVersion script.preamble.clientFeatures ∧
      serializeScript readFile script baseDir = .ok (hello' ++ (pieces.map Prod.snd).flatten) ∧
      (Greets hello daemonBytes info d ∧ preambleOf info = script.preamble) ∧
      (Greets hello' daemonBytes info' d ∧ preambleOf info' = script.preamble) ∧
      List.Forall₂ (fun (entry : Entry τ) bs => Resent script.preamble.protocolVersion entry.opCall bs.1 bs.2 ∧
        ReadAs script.preamble.protocolVersion entry.opCall bs.1 ∧ ReadAs script.preamble.protocolVersion entry.opCall bs.2 ∧
        (opHasClientFramedData entry.opCall.op = false → bs.2.length = bs.1.length)) script.entries pieces := by
  obtain ⟨hello, d, info, info', pieces, rest, hclient, hshort, hgreets, hgreets', hall, _⟩ := unpacked_run h hraw
  refine ⟨hello, _, d, info, info', pieces, rest, hclient, hshort, rfl, resent_script readFile baseDir hall, hgreets, hgreets',
    hall.imp fun entry bs hbs => ⟨hbs, hbs.recorded, hbs.packed.readAs, fun hframed => ?_⟩⟩
  obtain ⟨args, args', hpiece, hpart, hsame⟩ := hbs.same hframed
  rw [hpiece, hpart, List.length_append, List.length_append, hsame.length]

theorem unpacked_resends_flagged : ∃ (hello hello' d : List UInt8) (info info' : HandshakeInfo)
    (pieces : List (List UInt8 × List UInt8)) (rest : List UInt8),
    flaggedBytes = hello ++ ((pieces.map Prod.fst).flatten ++ rest) ∧ rest.length < 8 ∧
    hello' = serializeClientHandshake flaggedScript.preamble.protocolVersion flaggedScript.preamble.clientFeatures ∧
    serializeScript (fun _ => .error []) flaggedScript none = .ok (hello' ++ (pieces.map Prod.snd).flatten) ∧
    (Greets hello verifyDaemon info d ∧ preambleOf info = flaggedScript.preamble) ∧
    (Greets hello' verifyDaemon info' d ∧ preambleOf info' = flaggedScript.preamble) ∧
    List.Forall₂ (fun (entry : Entry Nat) bs => Resent flaggedScript.preamble.protocolVersion entry.opCall bs.1 bs.2 ∧
      ReadAs flaggedScript.preamble.protocolVersion entry.opCall bs.1 ∧
      ReadAs flaggedScript.preamble.protocolVersion entry.opCall bs.2 ∧
      (opHasClientFramedData entry.opCall.op = false → bs.2.length = bs.1.length)) flaggedScript.entries pieces :=
  unpacked_resends (fun _ => .error []) none decompile_flagged flagged_parsed

end NixWire
