/-
  NixWire.Negotiation — the handshake at every pair of versions.

  - `daemon_handshake_agrees`: the daemon-only parser finds what the full one does, and
    stops where it does.
  - `parse_greeting`: a handshake written as documented, each optional field there exactly
    when the lower version reaches its gate, is read back, field by field, to its end.
  - `script_handshake_iff`: the handshake of a script is gated on the script's version, and
    is read back exactly when the negotiated version passes the same gates.
-/

import NixWire.HandshakeProofs
import NixWire.Mirror
import NixWire.Serialize

namespace NixWire

open Base

/-! ## The daemon's side alone -/

section

variable {R : Type} [BufRead R]

theorem gate_getD {α : Type} (c : Bool) {f : Fmt} (d : α) (g : f.Val → α) {x : Rd WireError R α}
    (hx : x = g <$> f.parse wirePrims) :
    (if c then x else pure d) = (fun o => (o.map g).getD d) <$> (Fmt.gate c f).parse wirePrims := by
  subst hx
  cases c <;> simp [parse_gate]

theorem gate_some (c : Prop) [Decidable c] (f : Fmt) :
    (if c then some <$> f.parse wirePrims else pure none : Rd WireError R (Option f.Val)) =
      (Fmt.gate c f).parse wirePrims := by
  by_cases h : c <;> simp [parse_gate, h]

theorem parseDaemonHandshake_eq (cv : ProtocolVersion) : (parseDaemonHandshake cv : Rd WireError R _) = (do
    let magic2 ← Fmt.word.parse wirePrims
    let serverVerWire ← Fmt.word.parse wirePrims
    if magic2 ≠ workerMagic2 then Rd.fail (.serverMagic magic2)
    else
      let sv := ProtocolVersion.fromWire serverVerWire
      let y ← (daemonHelloFmt (min cv sv)).parse wirePrims
      if StderrCode.fromU64 y.2.2.2 ≠ some .last then Rd.fail (.expectedLast y.2.2.2)
      else return { handshakeInfo cv sv (v := min cv sv) (none, none, none) y with clientFeatures := [] }) := by
  have hset : ∀ v : ProtocolVersion, (if v.hasFeatures then readStringSet else pure [] : Rd WireError R (List Str)) = _ :=
    fun v => gate_getD v.hasFeatures (f := setFmt) [] id (id_map _).symm
  have hversion : ∀ v : ProtocolVersion,
      (if v ≥ .new 1 33 then some <$> readString else pure none : Rd WireError R (Option Str)) = _ :=
    fun v => gate_some (v ≥ .new 1 33) .str
  have htrust : ∀ v : ProtocolVersion,
      (if v ≥ .new 1 35 then some <$> readU64 else pure none : Rd WireError R (Option UInt64)) = _ :=
    fun v => gate_some (v ≥ .new 1 35) .word
  simp only [parseDaemonHandshake, hset, hversion, htrust]
  simp only [readU64_eq, parse_seq, bind_assoc, pure_bind, bind_map_left, Option.map_id, id_eq]
  rfl

end

theorem parseDaemonHandshake_ok {sw : UInt64} {cv v : ProtocolVersion} {y : (daemonHelloFmt v).Val} {db : List UInt8}
    (hv : v = min cv (.fromWire sw)) (hy : (daemonHelloFmt v).Enc wireLimits y db)
    (hlast : StderrCode.fromU64 y.2.2.2 = some .last) (rest : List UInt8) :
    (parseDaemonHandshake cv).run (wordBytes workerMagic2 ++ (wordBytes sw ++ (db ++ rest))) =
      (.ok { handshakeInfo cv (.fromWire sw) (v := v) (none, none, none) y with clientFeatures := [] }, rest) := by
  subst hv
  have hword (w : UInt64) (s : List UInt8) : (Fmt.word.parse wirePrims).run (wordBytes w ++ s) = (.ok w, s) :=
    readU64_ok_iff.mpr rfl
  rw [parseDaemonHandshake_eq, Rd.bind_ok (hword workerMagic2 _), Rd.bind_ok (hword sw _), if_neg (by simp)]
  rw [Rd.bind_ok ((parse_ok_iff wirePrims_lawful).mpr ⟨db, hy, rfl⟩), if_neg (not_not.mpr hlast)]
  rfl

theorem parseDaemonHandshake_rel {R : Type} [BufRead R] {ρ : R → List UInt8 → Prop} (m : Mirrors ρ) (cv : ProtocolVersion) :
    Rel ρ (parseDaemonHandshake cv) (parseDaemonHandshake cv) := by
  rw [parseDaemonHandshake_eq, parseDaemonHandshake_eq]
  refine (fmt_rel m .word).bind fun _ => (fmt_rel m .word).bind fun _ => Rel.ite (Rel.fail _) ?_
  exact (fmt_rel m _).bind fun _ => Rel.ite (Rel.fail _) (Rel.pure _)

theorem daemon_handshake_follows {clientBytes daemonBytes : List UInt8} {info : HandshakeInfo} {c d : MemReader}
    (h : parseHandshake.run (.new clientBytes, .new daemonBytes) = (.ok info, (c, d))) :
    ∃ d', (parseDaemonHandshake info.clientVersion).run daemonBytes = (.ok { info with clientFeatures := [] }, d') ∧
      MemReader.Left daemonBytes d d' := by
  obtain ⟨⟨c', d'⟩, hrun, -, hleft⟩ := mem_runs (parseHandshake_rel MemReader.mirrors MemReader.mirrors) h
  obtain ⟨cw, sw, cv, sv, v, x, y, cb, db, -, rfl, rfl, -, hy, -, hdata, hlast, rfl⟩ := parseHandshake_ok_iff.mp hrun
  have hflat := parseDaemonHandshake_ok rfl hy hlast d'
  rw [← hdata] at hflat
  exact ⟨d', hflat, hleft⟩

/-- Where the full parser succeeds, the daemon-only one told the client's version finds the
    same, but for the client's features, and leaves the same bytes. -/
theorem daemon_handshake_agrees {clientBytes daemonBytes : List UInt8} {info : HandshakeInfo} {c d : MemReader}
    (h : parseHandshake.run (.new clientBytes, .new daemonBytes) = (.ok info, (c, d))) :
    (parseDaemonHandshake info.clientVersion).run (.new daemonBytes) = (.ok { info with clientFeatures := [] }, d) :=
  (mem_run_iff (parseDaemonHandshake_rel MemReader.mirrors _)).mpr (daemon_handshake_follows h)

/-- A client at 1.38, and the daemon at 1.35 that answers it. -/
def offerBytes : List UInt8 := writeU64 workerMagic1 ++ writeU64 0x126 ++ writeU64 0 ++ writeU64 0 ++ writeU64 1

def answerBytes : List UInt8 :=
  writeU64 workerMagic2 ++ writeU64 0x123 ++ writeString "2.18".toList ++ writeU64 1 ++
    writeU64 StderrCode.last.code ++ writeU64 7

def answerInfo : HandshakeInfo :=
  ⟨.new 1 38, .new 1 35, .new 1 35, [], [], some "2.18".toList, some 1⟩

theorem parseHandshake_answer : parseHandshake.run (MemReader.new offerBytes, MemReader.new answerBytes) =
    (.ok answerInfo, (MemReader.mk offerBytes 32, MemReader.mk answerBytes 48)) := by
  decide

theorem daemon_handshake_agrees_answer :
    (parseDaemonHandshake answerInfo.clientVersion).run (MemReader.new answerBytes) =
      (.ok { answerInfo with clientFeatures := [] }, MemReader.mk answerBytes 48) := by
  have hrun := daemon_handshake_agrees parseHandshake_answer
  exact hrun

/-! ## Handshakes as documented -/

/-- A vector of strings each short enough for a reader. -/
def ShortStrings (l : List Str) : Prop :=
  l.length * stringSize ≤ isizeMax ∧ ∀ s ∈ l, (utf8 s).length ≤ 256 * 1024 * 1024

instance (l : List Str) : Decidable (ShortStrings l) := inferInstanceAs (Decidable (_ ∧ _))

/-- What the two sides of a handshake have to say, whether or not the version lets them. -/
structure Greeting where
  clientVersion : ProtocolVersion
  serverVersion : ProtocolVersion
  clientFeatures : List Str
  serverFeatures : List Str
  /-- The CPU affinity flag, and the value that follows a nonzero one. -/
  affinityFlag : UInt64
  affinityValue : UInt64
  reserveSpace : UInt64
  daemonNixVersion : Str
  trust : UInt64
  client_major : clientVersion.major < 256
  server_major : serverVersion.major < 256
  clientFeatures_short : ShortStrings clientFeatures
  serverFeatures_short : ShortStrings serverFeatures
  daemonNixVersion_short : (utf8 daemonNixVersion).length ≤ 256 * 1024 * 1024

namespace Greeting

variable (g : Greeting)

def negotiated : ProtocolVersion := min g.clientVersion g.serverVersion

def affinityBytes : List UInt8 :=
  if g.affinityFlag = 0 then writeU64 0 else writeU64 g.affinityFlag ++ writeU64 g.affinityValue

/-- What the client sends after its version. -/
def clientHello : List UInt8 :=
  (if g.negotiated ≥ .new 1 38 then writeStringSet g.clientFeatures else []) ++
    ((if g.negotiated ≥ .new 1 14 then g.affinityBytes else []) ++
      (if g.negotiated ≥ .new 1 11 then writeU64 g.reserveSpace else []))

/-- What the daemon sends after its version, to STDERR_LAST. -/
def daemonHello : List UInt8 :=
  (if g.negotiated ≥ .new 1 38 then writeStringSet g.serverFeatures else []) ++
    ((if g.negotiated ≥ .new 1 33 then writeString g.daemonNixVersion else []) ++
      ((if g.negotiated ≥ .new 1 35 then writeU64 g.trust else []) ++ writeU64 StderrCode.last.code))

def clientBytes : List UInt8 := writeU64 workerMagic1 ++ (writeU64 g.clientVersion.toWire ++ g.clientHello)

def daemonBytes : List UInt8 := writeU64 workerMagic2 ++ (writeU64 g.serverVersion.toWire ++ g.daemonHello)

/-- What the fields sent say. -/
def info : HandshakeInfo where
  clientVersion := g.clientVersion
  serverVersion := g.serverVersion
  negotiatedVersion := g.negotiated
  clientFeatures := if g.negotiated ≥ .new 1 38 then g.clientFeatures else []
  serverFeatures := if g.negotiated ≥ .new 1 38 then g.serverFeatures else []
  daemonNixVersion := if g.negotiated ≥ .new 1 33 then some g.daemonNixVersion else none
  trustStatus := if g.negotiated ≥ .new 1 35 then some g.trust else none

end Greeting

theorem enc_gate {L : Limits} (c : Prop) [Decidable c] {f : Fmt} {v : f.Val} {bs : List UInt8} (h : f.Enc L v bs) :
    (Fmt.gate (decide c) f).Enc L (if c then some v else none) (if c then bs else []) := by
  by_cases hc : c <;> simp [hc, Fmt.Enc, h]

theorem enc_stringSet {l : List Str} (h : ShortStrings l) : setFmt.Enc wireLimits l (writeStringSet l) := by
  have hroom : l.length * 24 ≤ 2 ^ 63 - 1 := h.1
  rw [writeStringSet_eq]
  exact enc_write wireLimits setFmt l ⟨by omega, h.1, h.2⟩

theorem enc_string {s : Str} (h : (utf8 s).length ≤ 256 * 1024 * 1024) : Fmt.str.Enc wireLimits s (writeString s) := by
  show EncBytes wireLimits (utf8 s) (writeBytes (utf8 s))
  rw [writeBytes_eq]
  exact encBytes_writePadded wireLimits h

namespace Greeting

variable (g : Greeting)

def affinity : (optFmt .junk).Val := if g.affinityFlag = 0 then .inl () else .inr ()

theorem enc_affinity : (optFmt .junk).Enc wireLimits g.affinity g.affinityBytes := by
  rw [affinity, affinityBytes]
  by_cases h : g.affinityFlag = 0
  · rw [if_pos h, if_pos h]
    exact ⟨[], rfl, (List.append_nil _).symm⟩
  · rw [if_neg h, if_neg h]
    exact ⟨g.affinityFlag, writeU64 g.affinityValue, h, ⟨g.affinityValue, rfl⟩, rfl⟩

def clientValues : (clientHelloFmt g.negotiated).Val :=
  (if g.negotiated ≥ .new 1 38 then some g.clientFeatures else none,
    if g.negotiated ≥ .new 1 14 then some g.affinity else none,
    if g.negotiated ≥ .new 1 11 then some g.reserveSpace else none)

def daemonValues : (daemonHelloFmt g.negotiated).Val :=
  (if g.negotiated ≥ .new 1 38 then some g.serverFeatures else none,
    if g.negotiated ≥ .new 1 33 then some g.daemonNixVersion else none,
    if g.negotiated ≥ .new 1 35 then some g.trust else none,
    StderrCode.last.code)

theorem enc_clientHello : (clientHelloFmt g.negotiated).Enc wireLimits g.clientValues g.clientHello :=
  ⟨_, _, enc_gate _ (enc_stringSet g.clientFeatures_short), ⟨_, _, enc_gate _ g.enc_affinity, enc_gate _ rfl, rfl⟩, rfl⟩

theorem enc_daemonHello : (daemonHelloFmt g.negotiated).Enc wireLimits g.daemonValues g.daemonHello :=
  ⟨_, _, enc_gate _ (enc_stringSet g.serverFeatures_short),
    ⟨_, _, enc_gate _ (enc_string g.daemonNixVersion_short), ⟨_, _, enc_gate _ rfl, rfl, rfl⟩, rfl⟩, rfl⟩

theorem handshakeInfo_values :
    handshakeInfo g.clientVersion g.serverVersion g.clientValues g.daemonValues = g.info := by
  have hgetD (c : Prop) [Decidable c] (l : List Str) : (if c then some l else none).getD [] = if c then l else [] := by
    split <;> rfl
  simp only [handshakeInfo, clientValues, daemonValues, info, hgetD]

end Greeting

theorem MemReader.left_append (bs rest : List UInt8) : Left (bs ++ rest) ⟨bs ++ rest, bs.length⟩ rest :=
  ⟨rfl, by simp, by simp⟩

/-- A documented handshake is read back at every pair of versions, up to its end. -/
theorem parse_greeting (g : Greeting) (clientRest daemonRest : List UInt8) :
    parseHandshake.run (MemReader.new (g.clientBytes ++ clientRest), MemReader.new (g.daemonBytes ++ daemonRest)) =
      (.ok g.info, (MemReader.mk (g.clientBytes ++ clientRest) g.clientBytes.length,
        MemReader.mk (g.daemonBytes ++ daemonRest) g.daemonBytes.length)) := by
  have hflat : parseHandshake.run (g.clientBytes ++ clientRest, g.daemonBytes ++ daemonRest) =
      (.ok g.info, (clientRest, daemonRest)) := by
    refine parseHandshake_ok_iff.mpr ⟨g.clientVersion.toWire, g.serverVersion.toWire, _, _, g.negotiated, g.clientValues,
      g.daemonValues, _, _, rfl, rfl, ?_, g.enc_clientHello, g.enc_daemonHello, ?_, ?_, rfl, ?_⟩
    · rw [ProtocolVersion.from_wire_to_wire g.client_major, ProtocolVersion.from_wire_to_wire g.server_major]
      rfl
    · simp only [Greeting.clientBytes, List.append_assoc]
      rfl
    · simp only [Greeting.daemonBytes, List.append_assoc]
      rfl
    · rw [ProtocolVersion.from_wire_to_wire g.client_major, ProtocolVersion.from_wire_to_wire g.server_major,
        g.handshakeInfo_values]
  have hstart : Both (MemReader.Left (g.clientBytes ++ clientRest)) (MemReader.Left (g.daemonBytes ++ daemonRest))
      (MemReader.new (g.clientBytes ++ clientRest), MemReader.new (g.daemonBytes ++ daemonRest))
      (g.clientBytes ++ clientRest, g.daemonBytes ++ daemonRest) := ⟨MemReader.left_new _, MemReader.left_new _⟩
  obtain ⟨⟨c, d⟩, hrun, hc, hd⟩ := (parseHandshake_rel MemReader.mirrors MemReader.mirrors).run hstart hflat
  obtain rfl : c = _ := hc.eq (MemReader.left_append _ _)
  obtain rfl : d = _ := hd.eq (MemReader.left_append _ _)
  exact hrun

/-- A client at 1.38 with a feature and an affinity, and a daemon at 1.35. -/
def pinnedGreeting : Greeting where
  clientVersion := .new 1 38
  serverVersion := .new 1 35
  clientFeatures := ["ca".toList]
  serverFeatures := []
  affinityFlag := 2
  affinityValue := 6
  reserveSpace := 1
  daemonNixVersion := "2.18".toList
  trust := 1
  client_major := by decide
  server_major := by decide
  clientFeatures_short := by decide
  serverFeatures_short := by decide
  daemonNixVersion_short := by decide

theorem parse_greeting_pinned :
    parseHandshake.run (MemReader.new (pinnedGreeting.clientBytes ++ [1, 2, 3]),
        MemReader.new (pinnedGreeting.daemonBytes ++ [])) =
      (.ok pinnedGreeting.info, (MemReader.mk (pinnedGreeting.clientBytes ++ [1, 2, 3]) 40,
        MemReader.mk (pinnedGreeting.daemonBytes ++ []) 48)) := by
  have hrun := parse_greeting pinnedGreeting [1, 2, 3] []
  rw [show pinnedGreeting.clientBytes.length = 40 by decide, show pinnedGreeting.daemonBytes.length = 48 by decide] at hrun
  exact hrun

/-! ## Handshakes of a script -/

/-- A `Vec<String>`: no allocation is longer than `isize::MAX`. -/
def InMemory (l : List Str) : Prop := l.length * stringSize ≤ isizeMax ∧ ∀ s ∈ l, (utf8 s).length ≤ isizeMax

instance (l : List Str) : Decidable (InMemory l) := inferInstanceAs (Decidable (_ ∧ _))

/-- The versions pass the same gates of the client's handshake. -/
def SameGates (a b : ProtocolVersion) : Prop :=
  a.hasFeatures = b.hasFeatures ∧ a.hasCpuAffinity = b.hasCpuAffinity ∧ a.hasReserveSpace = b.hasReserveSpace

instance (a b : ProtocolVersion) : Decidable (SameGates a b) := inferInstanceAs (Decidable (_ ∧ _))

namespace ProtocolVersion

theorem min_le_left (a b : ProtocolVersion) : min a b ≤ a := by
  show (if a ≤ b then a else b) ≤ a
  split
  · rw [le_iff]
  · rename_i h
    rw [le_iff] at *
    omega

/-- The wire drops what is above a byte of the major. -/
theorem from_wire_to_wire_le (v : ProtocolVersion) : fromWire v.toWire ≤ v := by
  have hmin := v.minor.toNat_lt
  rw [le_iff, rank, from_wire_major, from_wire_minor, to_wire_toNat, rank]
  omega

theorem gates_mono {a b : ProtocolVersion} (h : a ≤ b) :
    (a.hasFeatures → b.hasFeatures) ∧ (a.hasCpuAffinity → b.hasCpuAffinity) ∧ (a.hasReserveSpace → b.hasReserveSpace) := by
  simp only [hasFeatures, hasCpuAffinity, hasReserveSpace, decide_eq_true_eq]
  exact ⟨fun h' => le_trans h' h, fun h' => le_trans h' h, fun h' => le_trans h' h⟩

/-- A version with features has the older fields too. -/
theorem gates_chain (v : ProtocolVersion) :
    (v.hasFeatures → v.hasCpuAffinity) ∧ (v.hasCpuAffinity → v.hasReserveSpace) := by
  simp only [hasFeatures, hasCpuAffinity, hasReserveSpace, decide_eq_true_eq]
  have h₁ : new 1 14 ≤ new 1 38 := by decide
  have h₂ : new 1 11 ≤ new 1 14 := by decide
  exact ⟨le_trans h₁, le_trans h₂⟩

end ProtocolVersion

theorem ofNat_inj {n m : Nat} (hn : n < 2 ^ 64) (hm : m < 2 ^ 64) (h : UInt64.ofNat n = UInt64.ofNat m) : n = m := by
  have hnat := congrArg UInt64.toNat h
  rwa [UInt64.toNat_ofNat', UInt64.toNat_ofNat', Nat.mod_eq_of_lt hn, Nat.mod_eq_of_lt hm] at hnat

/-- A written string is read for what it is. -/
theorem encBytes_written {b b' bs t t' : List UInt8} (hb : b'.length < 2 ^ 64) (h : EncBytes wireLimits b bs)
    (heq : writeBytes b' ++ t = bs ++ t') : bs = writeBytes b' := by
  obtain ⟨hlong, pad, hpad, rfl⟩ := h
  have hlimit : wireLimits.text < 2 ^ 64 := wireLimits.text_lt
  rw [writeBytes_eq, writePadded] at *
  simp only [List.append_assoc] at heq
  obtain ⟨hword, hrest⟩ := word_append_inj heq
  obtain ⟨rfl, htail⟩ := List.append_inj hrest (ofNat_inj hb (by omega) hword)
  obtain ⟨rfl, -⟩ := List.append_inj htail (by rw [List.length_replicate, hpad])
  rfl

/-- Written strings are read for what they are. -/
theorem forall₂_written {l' : List Str} (hl' : ∀ s ∈ l', (utf8 s).length < 2 ^ 64) :
    ∀ {l : List Str} {parts : List (List UInt8)} {t t' : List UInt8}, l.length = l'.length →
      List.Forall₂ (Fmt.str.Enc wireLimits) l parts → l'.flatMap writeString ++ t = parts.flatten ++ t' →
      parts.flatten = l'.flatMap writeString := by
  induction l' with
  | nil =>
    intro l parts t t' hlen hp _
    obtain rfl := List.length_eq_zero_iff.mp hlen
    cases hp
    rfl
  | cons s l' ih =>
    intro l parts t t' hlen hp heq
    cases hp with
    | nil => cases hlen
    | @cons a b l parts hab hp =>
      simp only [List.flatMap_cons, List.flatten_cons, List.append_assoc] at heq ⊢
      obtain rfl : b = writeString s := encBytes_written (hl' s List.mem_cons_self) hab heq
      rw [ih (fun s' hs' => hl' s' (List.mem_cons_of_mem s hs')) (Nat.succ.inj hlen) hp (List.append_cancel_left heq)]

theorem setFmt_written {l l' : List Str} {bs t t' : List UInt8} (hl' : InMemory l') (h : setFmt.Enc wireLimits l bs)
    (heq : writeStringSet l' ++ t = bs ++ t') : bs = writeStringSet l' := by
  obtain ⟨hlong, -, parts, hp, rfl⟩ := h
  have hroom : l'.length * 24 ≤ 2 ^ 63 - 1 := hl'.1
  have hshort : ∀ s ∈ l', (utf8 s).length < 2 ^ 64 := fun s hs => lt_of_le_of_lt (hl'.2 s hs) (by decide)
  rw [writeStringSet] at *
  simp only [List.append_assoc] at heq
  obtain ⟨hword, hrest⟩ := word_append_inj heq
  have hlen : l.length = l'.length := (ofNat_inj (by omega) hlong hword).symm
  rw [forall₂_written hshort hlen hp hrest, hlen]
  rfl

/-- What a script sends after its version. -/
def scriptHello (version : ProtocolVersion) (features : List Str) : List UInt8 :=
  (if version.hasFeatures then writeStringSet features else []) ++
    ((if version.hasCpuAffinity then writeU64 0 else []) ++ (if version.hasReserveSpace then writeU64 0 else []))

theorem serializeClientHandshake_eq (version : ProtocolVersion) (features : List Str) :
    serializeClientHandshake version features =
      wordBytes workerMagic1 ++ (wordBytes version.toWire ++ scriptHello version features) := by
  simp only [serializeClientHandshake, scriptHello, List.append_assoc]
  rfl

/-- A field is read for what was written, if it is written under the same gate. -/
theorem gate_written {L : Limits} {c : Bool} {f : Fmt} {x : (Fmt.gate c f).Val} {w bs t t' : List UInt8}
    (hw : ∀ v b, f.Enc L v b → w ++ t = b ++ t' → b = w) (hx : (Fmt.gate c f).Enc L x bs)
    (heq : (if c then w else []) ++ t = bs ++ t') : bs = if c then w else [] := by
  cases x with
  | none =>
    obtain ⟨rfl, rfl⟩ := hx
    rfl
  | some v =>
    obtain ⟨rfl, hv⟩ := hx
    exact hw v bs hv heq

theorem word_written {L : Limits} {w v : UInt64} {b t t' : List UInt8} (hv : Fmt.word.Enc L v b)
    (heq : writeU64 w ++ t = b ++ t') : b = writeU64 w := by
  obtain rfl : b = wordBytes v := hv
  rw [(word_append_inj heq).1]
  rfl

/-- The flag a script writes is zero, so that no value follows it. -/
theorem affinity_written {L : Limits} {v : (optFmt .junk).Val} {b t t' : List UInt8} (hv : (optFmt .junk).Enc L v b)
    (heq : writeU64 0 ++ t = b ++ t') : b = writeU64 0 := by
  cases v with
  | inl u =>
    obtain ⟨_, rfl, rfl⟩ := hv
    exact List.append_nil _
  | inr u =>
    obtain ⟨w, _, hw, _, rfl⟩ := hv
    rw [List.append_assoc] at heq
    exact absurd (word_append_inj heq).1.symm hw

/-- With the same gates the script's hello is read to its end. -/
theorem scriptHello_same {c v : ProtocolVersion} {features : List Str} (hfeatures : InMemory features) (hsame : SameGates v c)
    {x : (clientHelloFmt v).Val} {cb t t' : List UInt8} (hx : (clientHelloFmt v).Enc wireLimits x cb)
    (heq : scriptHello c features ++ t = cb ++ t') : cb = scriptHello c features := by
  obtain ⟨fb, _, hf, ⟨ab, rb, ha, hr, rfl⟩, rfl⟩ := hx
  obtain ⟨h₁, h₂, h₃⟩ := hsame
  simp only [scriptHello, ← h₁, ← h₂, ← h₃, List.append_assoc] at heq ⊢
  have hfb := gate_written (fun _ _ => setFmt_written hfeatures) hf heq
  rw [hfb] at heq
  have heq₁ := List.append_cancel_left heq
  have hab := gate_written (fun _ _ => affinity_written) ha heq₁
  rw [hab] at heq₁
  have hrb := gate_written (fun _ _ => word_written) hr (List.append_cancel_left heq₁)
  rw [hfb, hab, hrb]

theorem gate_word_length {L : Limits} {c : Bool} {x : (Fmt.gate c .word).Val} {bs : List UInt8}
    (h : (Fmt.gate c .word).Enc L x bs) : bs.length = if c then 8 else 0 := by
  cases x with
  | none =>
    obtain ⟨rfl, rfl⟩ := h
    rfl
  | some w =>
    obtain ⟨rfl, hw⟩ := h
    rw [show bs = wordBytes w from hw]
    exact wordBytes_length w

/-- What the affinity takes: two words, or one that is zero. -/
theorem gate_affinity_length {L : Limits} {c : Bool} {x : (Fmt.gate c (optFmt .junk)).Val} {bs : List UInt8}
    (h : (Fmt.gate c (optFmt .junk)).Enc L x bs) :
    bs.length ≤ (if c then 8 else 0) ∨ c ∧ bs.length = 16 ∧ ∃ w rest, w ≠ 0 ∧ bs = wordBytes w ++ rest := by
  cases x with
  | none =>
    obtain ⟨rfl, rfl⟩ := h
    exact Or.inl (Nat.zero_le _)
  | some x =>
    obtain ⟨rfl, hx⟩ := h
    cases x with
    | inl u =>
      obtain ⟨_, rfl, rfl⟩ := hx
      exact Or.inl (by simp)
    | inr u =>
      obtain ⟨w, _, hw, ⟨w', rfl⟩, rfl⟩ := hx
      exact Or.inr ⟨rfl, by simp, w, _, hw, rfl⟩

/-- The reader without the writer's features takes fewer bytes than were written. -/
theorem scriptHello_other {c v : ProtocolVersion} (hle : v ≤ c) {features : List Str}
    (hother : ¬SameGates v c) {x : (clientHelloFmt v).Val} {cb t t' : List UInt8}
    (hx : (clientHelloFmt v).Enc wireLimits x cb) (heq : scriptHello c features ++ t = cb ++ t') :
    cb.length < (scriptHello c features).length := by
  obtain ⟨fb, _, hf, ⟨ab, rb, ha, hr, rfl⟩, rfl⟩ := hx
  obtain ⟨m₁, m₂, m₃⟩ := ProtocolVersion.gates_mono hle
  obtain ⟨v₁, v₂⟩ := v.gates_chain
  obtain ⟨c₁, c₂⟩ := c.gates_chain
  have hrb := gate_word_length hr
  -- had the reader features, the gates would be the same
  have hv : v.hasFeatures = false := by
    cases hv : v.hasFeatures with
    | false => rfl
    | true => exact absurd ⟨by simp [hv, m₁ hv], by simp [v₁ hv, m₂ (v₁ hv)], by simp [v₂ (v₁ hv), m₃ (v₂ (v₁ hv))]⟩ hother
  obtain rfl : fb = [] := by
    cases h : x.1 with
    | none =>
      rw [h] at hf
      exact hf.2
    | some l =>
      rw [h] at hf
      rw [hv] at hf
      cases hf.1
  have hlen : (scriptHello c features).length = (if c.hasFeatures then writeStringSet features else []).length +
      ((if c.hasCpuAffinity then 8 else 0) + (if c.hasReserveSpace then 8 else 0)) := by
    have hword (b : Bool) : (if b then writeU64 0 else []).length = if b then 8 else 0 := by cases b <;> rfl
    simp only [scriptHello, List.length_append, hword]
  rw [hlen, List.nil_append, List.length_append, hrb]
  cases hc : c.hasFeatures with
  | false =>
    -- the affinity or the reserved space is what the reader misses
    have hv₂ : v.hasCpuAffinity = false := by
      cases hv₂ : v.hasCpuAffinity with
      | false => rfl
      | true => exact absurd ⟨by rw [hv, hc], by rw [hv₂, m₂ hv₂], by rw [v₂ hv₂, m₃ (v₂ hv₂)]⟩ hother
    have hab : ab.length = 0 := by
      rcases gate_affinity_length ha with h | ⟨h, -, -⟩
      · simpa [hv₂] using h
      · simp [hv₂] at h
    have hgates : c.hasCpuAffinity ∨ c.hasReserveSpace ∧ v.hasReserveSpace = false := by
      by_contra hno
      refine hother ⟨by rw [hv, hc], ?_, ?_⟩
      · cases h : c.hasCpuAffinity <;> simp_all
      · cases h : c.hasReserveSpace <;> cases h' : v.hasReserveSpace <;> simp_all
    rcases hgates with h | ⟨h, h'⟩
    · rw [hab, h, c₂ h]
      cases v.hasReserveSpace <;> simp
    · rw [hab, h, h']
      simp
  | true =>
    have hrb' : (if v.hasReserveSpace then 8 else 0) ≤ 8 := by split <;> omega
    have hF : (writeStringSet features).length = 8 + (features.flatMap writeString).length := by
      rw [writeStringSet, List.length_append]
      exact congrArg (· + _) (wordBytes_length _)
    rw [c₁ hc, c₂ (c₁ hc), if_pos rfl, if_pos rfl, hF]
    rcases gate_affinity_length ha with h | ⟨-, h, w, rest, hw, rfl⟩
    · have : (if v.hasCpuAffinity then 8 else 0) ≤ 8 := by split <;> omega
      omega
    · -- the flag read is the count of the features, so there are some
      rw [scriptHello, hc, if_pos rfl, writeStringSet] at heq
      simp only [List.append_assoc, List.nil_append] at heq
      have hcount := (word_append_inj heq).1
      cases features with
      | nil => exact absurd hcount.symm hw
      | cons s features =>
        have hs : 8 ≤ (writeString s).length := by
          show 8 ≤ (writeBytes (utf8 s)).length
          rw [writeBytes_eq, writePadded, List.length_append, List.length_append, lenWord_length]
          omega
        have hcons : ((s :: features).flatMap writeString).length =
            (writeString s).length + (features.flatMap writeString).length := by rw [List.flatMap_cons, List.length_append]
        omega

/-- The daemon's stream begins by announcing `version`. -/
def AnnouncesVersion (daemonBytes : List UInt8) (version : ProtocolVersion) : Prop :=
  ∃ serverVerWire rest, daemonBytes = writeU64 workerMagic2 ++ (writeU64 serverVerWire ++ rest) ∧
    version = .fromWire serverVerWire

/-- The version negotiated with the daemon, who knows of the script's what goes through the wire. -/
def negotiatedWith (scriptVersion serverVersion : ProtocolVersion) : ProtocolVersion :=
  min (.fromWire scriptVersion.toWire) serverVersion

/-- The bytes of a script up to its first operation, and what follows. -/
def scriptBytes (version : ProtocolVersion) (features : List Str) (op : Op) (rest : List UInt8) : List UInt8 :=
  serializeClientHandshake version features ++ (writeU64 op.code ++ rest)

/-- Where the handshake is accepted, it is read to its end, so that the next word is the
    first operation's code, exactly when the negotiated version passes the script's gates. -/
theorem script_handshake_iff {version serverVersion : ProtocolVersion} {features : List Str} {op : Op}
    {rest daemonBytes : List UInt8} {info : HandshakeInfo} {c d : MemReader} (hfeatures : InMemory features)
    (hserver : AnnouncesVersion daemonBytes serverVersion)
    (h : parseHandshake.run (MemReader.new (scriptBytes version features op rest), MemReader.new daemonBytes) =
      (.ok info, (c, d))) :
    (c.position = (serializeClientHandshake version features).length ∧ (readU64.run c).1 = .ok op.code) ↔
      SameGates (negotiatedWith version serverVersion) version := by
  obtain ⟨⟨c', d'⟩, hrun, hleft, -⟩ := mem_runs (parseHandshake_rel MemReader.mirrors MemReader.mirrors) h
  obtain ⟨cw, sw, cv, sv, v, x, y, cb, db, rfl, rfl, hv, hx, -, hc, hd, -, -⟩ := parseHandshake_ok_iff.mp hrun
  obtain ⟨sw', rest', rfl, rfl⟩ := hserver
  obtain rfl : sw' = sw := (word_append_inj (word_append_inj hd).2).1
  rw [scriptBytes, serializeClientHandshake_eq, List.append_assoc, List.append_assoc] at hc
  obtain ⟨rfl, hhello⟩ := word_append_inj (word_append_inj hc).2
  rw [show negotiatedWith version (.fromWire sw') = v from hv.symm]
  have hpos : c.position + c'.length = (scriptBytes version features op rest).length := hleft.2.1
  have htotal : (scriptHello version features).length + (writeU64 op.code ++ rest).length = cb.length + c'.length := by
    rw [← List.length_append, hhello, List.length_append]
  have hhandshake : (serializeClientHandshake version features).length = 16 + (scriptHello version features).length := by
    rw [serializeClientHandshake_eq, List.length_append, List.length_append, wordBytes_length, wordBytes_length]
    omega
  rw [scriptBytes, List.length_append] at hpos
  constructor
  · intro h
    obtain ⟨hend, -⟩ := h
    by_contra hother
    have hle : v ≤ version := by
      rw [hv]
      exact ProtocolVersion.le_trans (ProtocolVersion.min_le_left _ _) (ProtocolVersion.from_wire_to_wire_le version)
    have := scriptHello_other hle hother hx hhello
    omega
  · intro hsame
    obtain rfl := scriptHello_same hfeatures hsame hx hhello
    obtain rfl := List.append_cancel_left hhello
    refine ⟨by omega, ?_⟩
    obtain ⟨hword, -⟩ := (readU64_rel MemReader.delivers) c (writeU64 op.code ++ rest) hleft
    rw [hword]
    exact congrArg Prod.fst (readU64_ok_iff.mpr rfl)

/-- A script at 1.35 before a daemon at 1.35. -/
theorem script_handshake_iff_same :
    (readU64.run (MemReader.mk (scriptBytes (.new 1 35) [] .syncWithGC []) 32)).1 = .ok Op.syncWithGC.code := by
  have hrun : parseHandshake.run (MemReader.new (scriptBytes (.new 1 35) [] .syncWithGC []), MemReader.new answerBytes) =
      (.ok { answerInfo with clientVersion := .new 1 35 },
        (MemReader.mk (scriptBytes (.new 1 35) [] .syncWithGC []) 32, MemReader.mk answerBytes 48)) := by
    decide
  exact ((script_handshake_iff (by decide) ⟨0x123, _, rfl, rfl⟩ hrun).mpr (by decide)).2

/-- A script at 1.38 before the same daemon: the handshake has 40 bytes and 32 are read. -/
theorem script_handshake_short :
    parseHandshake.run (MemReader.new (scriptBytes (.new 1 38) [] .syncWithGC []), MemReader.new answerBytes) =
        (.ok answerInfo, (MemReader.mk (scriptBytes (.new 1 38) [] .syncWithGC []) 32, MemReader.mk answerBytes 48)) ∧
      (serializeClientHandshake (.new 1 38) []).length = 40 ∧
      (readU64.run (MemReader.mk (scriptBytes (.new 1 38) [] .syncWithGC []) 32)).1 = .ok 0 := by
  decide

end NixWire
