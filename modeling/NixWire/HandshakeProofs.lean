/-
  NixWire.HandshakeProofs — what the handshake parser accepts.

  `parseHandshake_ok_iff`: on two byte lists it succeeds exactly when both begin with their
  magic number and a version, followed by what the negotiated version makes each side send
  (`clientHelloFmt`, `daemonHelloFmt`); it consumes exactly that and reports it.
-/

import NixWire.Layouts

namespace NixWire

open Base

/-- What the client sends after its version, at negotiated version `v`. -/
abbrev clientHelloFmt (v : ProtocolVersion) : Fmt :=
  .seq (.gate v.hasFeatures setFmt) (.seq (.gate v.hasCpuAffinity (optFmt .junk)) (.gate v.hasReserveSpace .word))

/-- What the daemon sends after its version. -/
abbrev daemonHelloFmt (v : ProtocolVersion) : Fmt :=
  .seq (.gate v.hasFeatures setFmt) (.seq (.gate (v ≥ .new 1 33) .str) (.seq (.gate (v ≥ .new 1 35) .word) .word))

/-- What a handshake reports. -/
def handshakeInfo (cv sv : ProtocolVersion) {v : ProtocolVersion} (x : (clientHelloFmt v).Val) (y : (daemonHelloFmt v).Val) :
    HandshakeInfo :=
  { clientVersion := cv, serverVersion := sv, negotiatedVersion := v, clientFeatures := x.1.getD [],
    serverFeatures := y.1.getD [], daemonNixVersion := y.2.1, trustStatus := y.2.2.1 }

/-! ## The gates as formats -/

section

variable {C D : Type} [BufRead C] [BufRead D]

theorem readCpuAffinity_eq : (readCpuAffinity : Rd WireError C _) = (fun _ => ()) <$> (optFmt .junk).parse wirePrims := by
  simp only [readCpuAffinity, parse_unit, parse_junk, parse_word, parse_alt, Rd.ite_bind, readU64_eq, map_eq_pure_bind,
    bind_assoc, pure_bind, bne_iff_ne, ne_eq, ite_not, beq_iff_eq]

omit [BufRead D] in
theorem client_gate {α : Type} (c : Bool) (f : Fmt) (g : Option f.Val → α) {x : Rd WireError C α}
    (hx : x = (fun v => g (some v)) <$> f.parse wirePrims) :
    (if c then client x else pure (g none) : Rd WireError (C × D) α) = g <$> client ((Fmt.gate c f).parse wirePrims) := by
  subst hx
  cases c with
  | false => rfl
  | true => simp [client, parse_gate, Rd.onFst_map]

omit [BufRead C] in
theorem daemon_gate {α : Type} (c : Bool) (f : Fmt) (g : Option f.Val → α) {x : Rd WireError D α}
    (hx : x = (fun v => g (some v)) <$> f.parse wirePrims) :
    (if c then daemon x else pure (g none) : Rd WireError (C × D) α) = g <$> daemon ((Fmt.gate c f).parse wirePrims) := by
  subst hx
  cases c with
  | false => rfl
  | true => simp [daemon, parse_gate, Rd.onSnd_map]

omit [BufRead D] in
theorem client_gate_some (c : Bool) (f : Fmt) :
    (if c then some <$> client (f.parse wirePrims) else pure none : Rd WireError (C × D) (Option f.Val)) =
      client ((Fmt.gate c f).parse wirePrims) := by
  cases c with
  | false => rfl
  | true => simp [client, parse_gate, Rd.onFst_map]

omit [BufRead C] in
theorem daemon_gate_some (c : Prop) [Decidable c] (f : Fmt) :
    (if c then some <$> daemon (f.parse wirePrims) else pure none : Rd WireError (C × D) (Option f.Val)) =
      daemon ((Fmt.gate c f).parse wirePrims) := by
  by_cases h : c
  · simp [daemon, parse_gate, Rd.onSnd_map, h]
  · simp [daemon, parse_gate, h]

/-- What follows the versions: each side's fields, the client's first where they interleave. -/
def hello (cv sv v : ProtocolVersion) : Rd WireError (C × D) HandshakeInfo := do
  let clientFeatures ← client ((Fmt.gate v.hasFeatures setFmt).parse wirePrims)
  let serverFeatures ← daemon ((Fmt.gate v.hasFeatures setFmt).parse wirePrims)
  let affinity ← client ((Fmt.gate v.hasCpuAffinity (optFmt .junk)).parse wirePrims)
  let reserveSpace ← client ((Fmt.gate v.hasReserveSpace .word).parse wirePrims)
  let daemonNixVersion ← daemon ((Fmt.gate (v ≥ .new 1 33) .str).parse wirePrims)
  let trustStatus ← daemon ((Fmt.gate (v ≥ .new 1 35) .word).parse wirePrims)
  let codeVal ← daemon (Fmt.word.parse wirePrims)
  if StderrCode.fromU64 codeVal ≠ some .last then Rd.fail (.expectedLast codeVal)
  else
    return handshakeInfo cv sv (v := v) (clientFeatures, affinity, reserveSpace)
      (serverFeatures, daemonNixVersion, trustStatus, codeVal)

theorem parseHandshake_eq : (parseHandshake : Rd WireError (C × D) _) = (do
    let magic1 ← client (Fmt.word.parse wirePrims)
    let clientVerWire ← client (Fmt.word.parse wirePrims)
    let magic2 ← daemon (Fmt.word.parse wirePrims)
    let serverVerWire ← daemon (Fmt.word.parse wirePrims)
    if magic1 ≠ workerMagic1 then Rd.fail (.clientMagic magic1)
    else if magic2 ≠ workerMagic2 then Rd.fail (.serverMagic magic2)
    else
      let clientVersion := ProtocolVersion.fromWire clientVerWire
      let serverVersion := ProtocolVersion.fromWire serverVerWire
      hello clientVersion serverVersion (min clientVersion serverVersion)) := by
  have hset : ∀ v : ProtocolVersion,
      (if v.hasFeatures then client readStringSet else pure [] : Rd WireError (C × D) (List Str)) = _ :=
    fun v => client_gate v.hasFeatures setFmt (fun o => o.getD []) (id_map _).symm
  have hset' : ∀ v : ProtocolVersion,
      (if v.hasFeatures then daemon readStringSet else pure [] : Rd WireError (C × D) (List Str)) = _ :=
    fun v => daemon_gate v.hasFeatures setFmt (fun o => o.getD []) (id_map _).symm
  have haffinity : ∀ v : ProtocolVersion,
      (if v.hasCpuAffinity then client readCpuAffinity else pure () : Rd WireError (C × D) Unit) = _ :=
    fun v => client_gate v.hasCpuAffinity (optFmt .junk) (fun _ => ()) readCpuAffinity_eq
  have hreserve : ∀ v : ProtocolVersion,
      (if v.hasReserveSpace then some <$> client readU64 else pure none : Rd WireError (C × D) (Option UInt64)) = _ :=
    fun v => client_gate_some v.hasReserveSpace .word
  have hversion : ∀ v : ProtocolVersion,
      (if v ≥ .new 1 33 then some <$> daemon readString else pure none : Rd WireError (C × D) (Option Str)) = _ :=
    fun v => daemon_gate_some (v ≥ .new 1 33) .str
  have htrust : ∀ v : ProtocolVersion,
      (if v ≥ .new 1 35 then some <$> daemon readU64 else pure none : Rd WireError (C × D) (Option UInt64)) = _ :=
    fun v => daemon_gate_some (v ≥ .new 1 35) .word
  simp only [parseHandshake, hset, hset', haffinity, hreserve, hversion, htrust, bind_map_left]
  rfl

end

/-! ## On byte lists -/

theorem client_bind_ok_iff {α : Type} {f : Fmt} {k : f.Val → Rd WireError (List UInt8 × List UInt8) α} {c d : List UInt8}
    {b : α} {q : List UInt8 × List UInt8} : (client (f.parse wirePrims) >>= k).run (c, d) = (.ok b, q) ↔
      ∃ a bs c', f.Enc wireLimits a bs ∧ c = bs ++ c' ∧ (k a).run (c', d) = (.ok b, q) := by
  simp only [client, Rd.onFst_bind_ok_iff, parse_ok_iff wirePrims_lawful]
  grind

theorem daemon_bind_ok_iff {α : Type} {f : Fmt} {k : f.Val → Rd WireError (List UInt8 × List UInt8) α} {c d : List UInt8}
    {b : α} {q : List UInt8 × List UInt8} : (daemon (f.parse wirePrims) >>= k).run (c, d) = (.ok b, q) ↔
      ∃ a bs d', f.Enc wireLimits a bs ∧ d = bs ++ d' ∧ (k a).run (c, d') = (.ok b, q) := by
  simp only [daemon, Rd.onSnd_bind_ok_iff, parse_ok_iff wirePrims_lawful]
  grind

theorem hello_ok_iff {cv sv v : ProtocolVersion} {c d c' d' : List UInt8} {info : HandshakeInfo} :
    (hello cv sv v).run (c, d) = (.ok info, (c', d')) ↔ ∃ x y cb db, (clientHelloFmt v).Enc wireLimits x cb ∧
      (daemonHelloFmt v).Enc wireLimits y db ∧ c = cb ++ c' ∧ d = db ++ d' ∧
      StderrCode.fromU64 y.2.2.2 = some .last ∧ info = handshakeInfo cv sv x y := by
  constructor
  · intro h
    obtain ⟨cf, cf', _, hcf, rfl, h₁⟩ := client_bind_ok_iff.mp h
    obtain ⟨sf, sf', _, hsf, rfl, h₂⟩ := daemon_bind_ok_iff.mp h₁
    obtain ⟨aff, aff', _, haff, rfl, h₃⟩ := client_bind_ok_iff.mp h₂
    obtain ⟨rs, rs', _, hrs, rfl, h₄⟩ := client_bind_ok_iff.mp h₃
    obtain ⟨nv, nv', _, hnv, rfl, h₅⟩ := daemon_bind_ok_iff.mp h₄
    obtain ⟨ts, ts', _, hts, rfl, h₆⟩ := daemon_bind_ok_iff.mp h₅
    obtain ⟨w, w', _, hw, rfl, h₇⟩ := daemon_bind_ok_iff.mp h₆
    split at h₇
    · cases h₇
    rename_i hlast
    cases h₇
    exact ⟨(cf, aff, rs), (sf, nv, ts, w), _, _, ⟨_, _, hcf, ⟨_, _, haff, hrs, rfl⟩, rfl⟩,
      ⟨_, _, hsf, ⟨_, _, hnv, ⟨_, _, hts, hw, rfl⟩, rfl⟩, rfl⟩, by simp, by simp, not_not.mp hlast, rfl⟩
  · rintro ⟨⟨cf, aff, rs⟩, ⟨sf, nv, ts, w⟩, _, _, ⟨cf', _, hcf, ⟨aff', rs', haff, hrs, rfl⟩, rfl⟩,
      ⟨sf', _, hsf, ⟨nv', _, hnv, ⟨ts', w', hts, hw, rfl⟩, rfl⟩, rfl⟩, rfl, rfl, hlast, rfl⟩
    simp only [List.append_assoc]
    refine client_bind_ok_iff.mpr ⟨cf, cf', _, hcf, rfl, daemon_bind_ok_iff.mpr ⟨sf, sf', _, hsf, rfl, ?_⟩⟩
    refine client_bind_ok_iff.mpr ⟨aff, aff', _, haff, rfl, client_bind_ok_iff.mpr ⟨rs, rs', _, hrs, rfl, ?_⟩⟩
    refine daemon_bind_ok_iff.mpr ⟨nv, nv', _, hnv, rfl, daemon_bind_ok_iff.mpr ⟨ts, ts', _, hts, rfl, ?_⟩⟩
    refine daemon_bind_ok_iff.mpr ⟨w, w', _, hw, rfl, ?_⟩
    rw [if_neg (not_not.mpr hlast)]
    rfl

/-- The handshakes accepted: on each side the magic number, the version and what the
    negotiated version adds, the daemon's ending in STDERR_LAST. -/
theorem parseHandshake_ok_iff {c d c' d' : List UInt8} {info : HandshakeInfo} :
    parseHandshake.run (c, d) = (.ok info, (c', d')) ↔ ∃ (cw sw : UInt64) (cv sv v : ProtocolVersion)
      (x : (clientHelloFmt v).Val) (y : (daemonHelloFmt v).Val) (cb db : List UInt8),
      cv = .fromWire cw ∧ sv = .fromWire sw ∧ v = min cv sv ∧
      (clientHelloFmt v).Enc wireLimits x cb ∧ (daemonHelloFmt v).Enc wireLimits y db ∧
      c = wordBytes workerMagic1 ++ (wordBytes cw ++ (cb ++ c')) ∧
      d = wordBytes workerMagic2 ++ (wordBytes sw ++ (db ++ d')) ∧
      StderrCode.fromU64 y.2.2.2 = some .last ∧ info = handshakeInfo cv sv x y := by
  rw [parseHandshake_eq]
  constructor
  · intro h
    obtain ⟨m₁, _, _, rfl, rfl, h₁⟩ := client_bind_ok_iff.mp h
    obtain ⟨cw, _, _, rfl, rfl, h₂⟩ := client_bind_ok_iff.mp h₁
    obtain ⟨m₂, _, _, rfl, rfl, h₃⟩ := daemon_bind_ok_iff.mp h₂
    obtain ⟨sw, _, _, rfl, rfl, h₄⟩ := daemon_bind_ok_iff.mp h₃
    split at h₄
    · cases h₄
    rename_i hm₁
    split at h₄
    · cases h₄
    rename_i hm₂
    obtain ⟨x, y, cb, db, hx, hy, rfl, rfl, hlast, rfl⟩ := hello_ok_iff.mp h₄
    rw [not_not.mp hm₁, not_not.mp hm₂]
    exact ⟨cw, sw, _, _, _, x, y, cb, db, rfl, rfl, rfl, hx, hy, rfl, rfl, hlast, rfl⟩
  · intro h
    obtain ⟨cw, sw, _, _, _, x, y, cb, db, rfl, rfl, rfl, hx, hy, rfl, rfl, hlast, rfl⟩ := h
    refine client_bind_ok_iff.mpr ⟨workerMagic1, _, _, rfl, rfl, client_bind_ok_iff.mpr ⟨cw, _, _, rfl, rfl, ?_⟩⟩
    refine daemon_bind_ok_iff.mpr ⟨workerMagic2, _, _, rfl, rfl, daemon_bind_ok_iff.mpr ⟨sw, _, _, rfl, rfl, ?_⟩⟩
    rw [if_neg (by simp), if_neg (by simp)]
    exact hello_ok_iff.mpr ⟨x, y, cb, db, hx, hy, rfl, rfl, hlast, rfl⟩

end NixWire
