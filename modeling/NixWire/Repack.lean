/-
  NixWire.Repack — packing a script and unpacking it again.

  A canonical call is one its layout carries (`canonical_args`), so it is packed as its
  code and the writer's encoding of its arguments (`serialize_calls`). Unpacking takes one
  such piece off the client's stream per pass, whatever the daemon's stream holds
  (`unpack_calls`); with the handshake read back as it was written, the script's version,
  features and calls come out as they went in (`repack`).
-/

import NixWire.Reencode
import NixWire.Unpack

namespace NixWire

open Base

/-! ## Canonical calls -/

/-- A wire string the reader takes. -/
def TextFits (s : Str) : Prop := (utf8 s).length ≤ maxWireStringLen.toNat

/-- Wire strings the reader takes, as many as a vector holds. -/
def SetFits (set : List Str) : Prop := set.length * stringSize ≤ isizeMax ∧ ∀ s ∈ set, TextFits s

/-- The same of pairs of strings. -/
def PairsFit (pairs : List (Str × Str)) : Prop :=
  pairs.length * pairSize ≤ isizeMax ∧ ∀ p ∈ pairs, TextFits p.1 ∧ TextFits p.2

/-- A build mode's name: one of three, or the number of another mode. -/
def ModeName (mode : Str) : Prop :=
  mode = "normal".toList ∨ mode = "repair".toList ∨ mode = "check".toList ∨ ∃ n : UInt64, 3 ≤ n ∧ mode = decimal n.toNat

def Inline (data : FramedData) : Prop := ∃ bytes, data = .inline bytes

/-- The calls that reading arguments at version `v` can return, with fields that the
    version leaves out at their defaults. -/
def Canonical (v : ProtocolVersion) : OpCall → Prop
  | .singlePath op path => op ∈ singlePathOps ∧ TextFits path
  | .singleString op value => op ∈ [.addIndirectRoot, .queryPathFromHashPart] ∧ TextFits value
  | .pathSet op paths => op ∈ [.querySubstitutablePaths, .queryMissing] ∧ SetFits paths
  | .pathSetFlag op paths substitute =>
    op = .queryValidPaths ∧ SetFits paths ∧ (¬v ≥ .new 1 27 → substitute = false)
  | .pathSetMode op paths mode => op ∈ [.buildPaths, .buildPathsWithResults] ∧ SetFits paths ∧ ModeName mode
  | .noArgs op => op ∈ [.syncWithGC, .findRoots, .queryAllValidPaths, .optimiseStore]
  | .setOptions _ _ _ _ _ _ _ _ _ _ buildCores useSubstitutes overrides =>
    (¬v ≥ .new 1 10 → buildCores = 0) ∧ (¬v ≥ .new 1 12 → useSubstitutes = 0 ∧ overrides = []) ∧ PairsFit overrides
  | .collectGarbage _ paths _ _ => SetFits paths
  | .verifyStore _ _ => True
  | .addPermRoot path gcRoot => TextFits path ∧ TextFits gcRoot
  | .addSignatures path sigs => TextFits path ∧ SetFits sigs
  | .addTextToStore suffix text refs => TextFits suffix ∧ TextFits text ∧ SetFits refs
  | .addToStore name camStr refs _ data =>
    v ≥ .new 1 25 ∧ TextFits name ∧ TextFits camStr ∧ SetFits refs ∧ Inline data
  | .addMultipleToStore _ _ data => Inline data
  | .addBuildLog path data => TextFits path ∧ Inline data
  | .registerDrvOutput value => TextFits value
  | .queryRealisation value => TextFits value
  | .querySubstitutablePathInfo path => TextFits path
  | .querySubstitutablePathInfos paths => SetFits paths
  | .rawBytes _ _ => False

theorem TextFits.fits {s : Str} (h : TextFits s) : Fmt.str.Fits wireLimits s := h

theorem SetFits.fits {set : List Str} (h : SetFits set) : setFmt.Fits wireLimits set := by
  have hroom : set.length * stringSize ≤ isizeMax := h.1
  refine ⟨?_, hroom, h.2⟩
  simp only [stringSize, isizeMax] at hroom
  omega

theorem PairsFit.fits {pairs : List (Str × Str)} (h : PairsFit pairs) : pairsFmt.Fits wireLimits pairs := by
  have hroom : pairs.length * pairSize ≤ isizeMax := h.1
  refine ⟨?_, hroom, h.2⟩
  simp only [pairSize, isizeMax] at hroom
  omega

theorem ModeName.mode {mode : Str} (h : ModeName mode) : ∃ w, modeName w = mode := by
  rcases h with rfl | rfl | rfl | ⟨n, hn, rfl⟩
  · exact ⟨0, rfl⟩
  · exact ⟨1, rfl⟩
  · exact ⟨2, rfl⟩
  · refine ⟨n, ?_⟩
    have hnat : 3 ≤ n.toNat := UInt64.le_iff_toNat_le.mp hn
    unfold modeName
    split
    case h_4 => rfl
    all_goals omega

/-- A gated field at its default where the gate is shut. -/
theorem gate_value (c : Prop) [Decidable c] {f : Fmt} {x d : f.Val} (hx : f.Fits wireLimits x) (hd : ¬c → x = d) :
    ∃ o : Option f.Val, (Fmt.gate (decide c) f).Fits wireLimits o ∧ o.getD d = x := by
  by_cases h : c
  · exact ⟨some x, ⟨by simpa using h, hx⟩, rfl⟩
  · exact ⟨none, by simpa [Fmt.Fits] using h, (hd h).symm⟩

theorem canonical_args {v : ProtocolVersion} {call : OpCall} (h : Canonical v call) :
    ∃ args, (argsLayout call.op v).fmt.Fits wireLimits args ∧ (argsLayout call.op v).of args = some call := by
  cases call with
  | singlePath op path =>
    obtain ⟨hop, hpath⟩ := h
    simp only [singlePathOps, List.mem_cons, List.not_mem_nil, or_false] at hop
    rcases hop with rfl | rfl | rfl | rfl | rfl | rfl | rfl | rfl | rfl | rfl | rfl
    all_goals exact ⟨path, hpath.fits, rfl⟩
  | singleString op value =>
    obtain ⟨hop, hvalue⟩ := h
    simp only [List.mem_cons, List.not_mem_nil, or_false] at hop
    rcases hop with rfl | rfl
    all_goals exact ⟨value, hvalue.fits, rfl⟩
  | pathSet op paths =>
    obtain ⟨hop, hpaths⟩ := h
    simp only [List.mem_cons, List.not_mem_nil, or_false] at hop
    rcases hop with rfl | rfl
    all_goals exact ⟨paths, hpaths.fits, rfl⟩
  | pathSetFlag op paths substitute =>
    obtain ⟨rfl, hpaths, hsub⟩ := h
    obtain ⟨o, ho, rfl⟩ := gate_value (v ≥ .new 1 27) (f := .flag) trivial hsub
    exact ⟨(paths, o), ⟨hpaths.fits, ho⟩, rfl⟩
  | pathSetMode op paths mode =>
    obtain ⟨hop, hpaths, hmode⟩ := h
    obtain ⟨w, rfl⟩ := hmode.mode
    simp only [List.mem_cons, List.not_mem_nil, or_false] at hop
    rcases hop with rfl | rfl
    all_goals exact ⟨(paths, w), ⟨hpaths.fits, trivial⟩, rfl⟩
  | noArgs op =>
    simp only [Canonical, List.mem_cons, List.not_mem_nil, or_false] at h
    rcases h with rfl | rfl | rfl | rfl
    all_goals exact ⟨(), trivial, rfl⟩
  | setOptions kf kg tf vb mj ms bh vl lt bt buildCores useSubstitutes overrides =>
    obtain ⟨hcores, hsubst, hpairs⟩ := h
    obtain ⟨bc, hbc, rfl⟩ := gate_value (v ≥ .new 1 10) (f := .word) trivial hcores
    obtain ⟨us, hus, rfl⟩ := gate_value (v ≥ .new 1 12) (f := .word) trivial fun hv => (hsubst hv).1
    obtain ⟨ov, hov, rfl⟩ := gate_value (v ≥ .new 1 12) hpairs.fits fun hv => (hsubst hv).2
    exact ⟨(kf, kg, tf, vb, mj, ms, bh, vl, lt, bt, bc, us, ov), ⟨trivial, trivial, trivial, trivial, trivial, trivial,
      trivial, trivial, trivial, trivial, hbc, hus, hov⟩, rfl⟩
  | collectGarbage action paths ignoreLiveness maxFreed =>
    exact ⟨(action, paths, ignoreLiveness, maxFreed, (), (), ()),
      ⟨trivial, SetFits.fits h, trivial, trivial, trivial, trivial, trivial⟩, rfl⟩
  | verifyStore checkContents repair => exact ⟨(checkContents, repair), ⟨trivial, trivial⟩, rfl⟩
  | addPermRoot path gcRoot => exact ⟨(path, gcRoot), ⟨h.1.fits, h.2.fits⟩, rfl⟩
  | addSignatures path sigs => exact ⟨(path, sigs), ⟨h.1.fits, h.2.fits⟩, rfl⟩
  | addTextToStore suffix text refs => exact ⟨(suffix, text, refs), ⟨h.1.fits, h.2.1.fits, h.2.2.fits⟩, rfl⟩
  | addToStore name camStr refs repair data =>
    obtain ⟨hv, hname, hcam, hrefs, bytes, rfl⟩ := h
    exact ⟨some ((name, camStr, refs, repair), bytes),
      ⟨by simpa using hv, ⟨hname.fits, hcam.fits, hrefs.fits, trivial⟩, trivial⟩, rfl⟩
  | addMultipleToStore repair dontCheckSigs data =>
    obtain ⟨bytes, rfl⟩ := h
    exact ⟨((repair, dontCheckSigs), bytes), ⟨⟨trivial, trivial⟩, trivial⟩, rfl⟩
  | addBuildLog path data =>
    obtain ⟨hpath, bytes, rfl⟩ := h
    exact ⟨(path, bytes), ⟨hpath.fits, trivial⟩, rfl⟩
  | registerDrvOutput value => exact ⟨value, TextFits.fits h, rfl⟩
  | queryRealisation value => exact ⟨value, TextFits.fits h, rfl⟩
  | querySubstitutablePathInfo path => exact ⟨path, TextFits.fits h, rfl⟩
  | querySubstitutablePathInfos paths => exact ⟨paths, SetFits.fits h, rfl⟩
  | rawBytes op data => exact h.elim

/-! ## Packing -/

/-- `bs` is a call's code and the writer's encoding of its arguments. -/
def Packed (v : ProtocolVersion) (call : OpCall) (bs : List UInt8) : Prop :=
  ∃ args, (argsLayout call.op v).fmt.Fits wireLimits args ∧ (argsLayout call.op v).of args = some call ∧
    bs = wordBytes call.op.code ++ (argsLayout call.op v).fmt.write wireLimits args

/-- `bs` is read as the call: its code, and arguments that are read to their end. -/
def ReadAs (v : ProtocolVersion) (call : OpCall) (bs : List UInt8) : Prop :=
  ∃ args, bs = wordBytes call.op.code ++ args ∧
    ∀ rest, (readOpCall (Op.fromU64 call.op.code) v).run (args ++ rest) = (.ok call, rest)

section

variable (readFile : Str → Except Str (List UInt8)) (baseDir : Option Str) {v : ProtocolVersion}

theorem serialize_call {call : OpCall} (h : Canonical v call) :
    ∃ bs, Packed v call bs ∧ serializeOpCall readFile call v baseDir = .ok bs := by
  obtain ⟨args, hfits, hcall⟩ := canonical_args h
  obtain ⟨_, hser⟩ := serialize_args readFile baseDir hfits hcall
  refine ⟨_, ⟨args, hfits, hcall, rfl⟩, ?_⟩
  rw [serializeOpCall, hser]
  rfl

theorem serialize_calls {calls : List OpCall} (h : ∀ call ∈ calls, Canonical v call) :
    ∃ parts, List.Forall₂ (Packed v) calls parts ∧ serializeOpCalls readFile v baseDir calls = .ok parts.flatten := by
  induction calls with
  | nil => exact ⟨[], .nil, rfl⟩
  | cons call calls ih =>
    obtain ⟨hcall, hcalls⟩ := List.forall_mem_cons.mp h
    obtain ⟨bs, hbs, hser⟩ := serialize_call readFile baseDir hcall
    obtain ⟨parts, hparts, hrest⟩ := ih hcalls
    refine ⟨bs :: parts, .cons hbs hparts, ?_⟩
    rw [serializeOpCalls, hser, hrest]
    rfl

end

/-- The client's hello carries the features, no CPU affinity and no reserved space. -/
theorem serialize_hello {v : ProtocolVersion} {features : List Str} (hset : SetFits features)
    (hdefault : v.hasFeatures = false → features = []) :
    ∃ x : (clientHelloFmt v).Val, (clientHelloFmt v).Fits wireLimits x ∧ x.1.getD [] = features ∧
      serializeClientHandshake v features =
        wordBytes workerMagic1 ++ (wordBytes v.toWire ++ (clientHelloFmt v).write wireLimits x) := by
  obtain ⟨fs, hfs, rfl⟩ : ∃ fs : Option (List Str),
      (Fmt.gate v.hasFeatures setFmt).Fits wireLimits fs ∧ fs.getD [] = features := by
    cases hv : v.hasFeatures with
    | false => exact ⟨none, rfl, (hdefault hv).symm⟩
    | true => exact ⟨some features, ⟨rfl, hset.fits⟩, rfl⟩
  obtain ⟨aff, haff, hzero⟩ : ∃ aff : Option (Unit ⊕ Unit), (Fmt.gate v.hasCpuAffinity (optFmt .junk)).Fits wireLimits aff ∧
      aff.getD (.inl ()) = .inl () := by
    cases v.hasCpuAffinity with
    | false => exact ⟨none, rfl, rfl⟩
    | true => exact ⟨some (.inl ()), ⟨rfl, trivial⟩, rfl⟩
  obtain ⟨rs, hrs, hspace⟩ : ∃ rs : Option UInt64, (Fmt.gate v.hasReserveSpace .word).Fits wireLimits rs ∧ rs.getD 0 = 0 := by
    cases v.hasReserveSpace with
    | false => exact ⟨none, rfl, rfl⟩
    | true => exact ⟨some 0, ⟨rfl, trivial⟩, rfl⟩
  refine ⟨(fs, aff, rs), ⟨hfs, haff, hrs⟩, rfl, ?_⟩
  have h₁ := write_flagged _ [] hfs
  have h₂ := write_flagged _ (f := optFmt .junk) (.inl ()) haff
  have h₃ := write_flagged _ 0 hrs
  rw [hzero] at h₂
  rw [hspace] at h₃
  show writeU64 workerMagic1 ++ writeU64 v.toWire ++ _ ++ _ ++ _ = _
  rw [writeStringSet_eq', h₁]
  simp only [Fmt.write, ← h₂, ← h₃, List.append_assoc, List.append_nil]
  rfl

/-! ## Unpacking what was packed -/

section

variable {τ : Type} {now : Rd WireError (List UInt8) (Option τ)} (hnow : Looks now) {v : ProtocolVersion}

theorem readAs_enc {call : OpCall} {args : (argsLayout call.op v).fmt.Val} {bs : List UInt8}
    (hbs : (argsLayout call.op v).fmt.Enc wireLimits args bs) (hcall : (argsLayout call.op v).of args = some call) :
    ReadAs v call (wordBytes call.op.code ++ bs) := by
  refine ⟨bs, rfl, fun rest => ?_⟩
  have hargs : (readOpArgs call.op v).run (bs ++ rest) = (.ok (some call), rest) := readOpArgs_ok_iff.mpr ⟨args, bs, hbs, hcall, rfl⟩
  rw [Op.fromU64_code, readOpCall, Rd.bind_ok hargs]
  rfl

theorem Packed.readAs {call : OpCall} {bs : List UInt8} (h : Packed v call bs) : ReadAs v call bs := by
  obtain ⟨args, hfits, hcall, rfl⟩ := h
  exact readAs_enc (enc_write _ _ _ hfits) hcall

include hnow

/-- The passes that use up a packed client stream append its calls, whatever the daemon's
    stream holds. -/
theorem unpack_calls {calls : List OpCall} {parts : List (List UInt8)} (h : List.Forall₂ (Packed v) calls parts) {n : Nat}
    {entries entries' : List (Entry τ)} {d : List UInt8} {q : List UInt8 × List UInt8}
    (hr : Rd.Reaches (decompilePass now v) n (entries, (parts.flatten, d)) (entries', q)) (hq : q.1.length < 8) :
    entries'.map (·.opCall) = entries.map (·.opCall) ++ calls := by
  induction h generalizing n entries d with
  | nil =>
    cases hr with
    | refl => simp
    | step hb _ =>
      obtain ⟨opCode, rest, _, _, hc, _⟩ := (decompilePass_inl_iff hnow).mp hb
      have hlen := congrArg List.length hc
      simp only [List.flatten_nil, List.length_nil, List.length_append, wordBytes_length] at hlen
      omega
  | @cons call bs calls parts hbs _ ih =>
    obtain ⟨args, rfl, hread⟩ := hbs.readAs
    cases hr with
    | refl =>
      simp only [List.flatten_cons, List.length_append, wordBytes_length] at hq
      omega
    | step hb hr =>
      rename_i p
      obtain ⟨c', d'⟩ := p
      obtain ⟨opCode, rest, t, entry, hc, _, hop, rfl⟩ := (decompilePass_inl_iff hnow).mp hb
      rw [List.flatten_cons, List.append_assoc] at hc
      obtain ⟨rfl, rfl⟩ := word_append_inj hc
      obtain ⟨call', _, _, _, _, hcall, _, _, rfl⟩ := decompileOp_ok_iff.mp hop
      rw [hread] at hcall
      cases hcall
      rw [ih hr]
      simp

end

/-! ## The round trip -/

/-- The daemon's stream announces version `v` or a later one. -/
def Announces (v : ProtocolVersion) (daemonBytes : List UInt8) : Prop :=
  ∃ serverVerWire rest, daemonBytes = wordBytes workerMagic2 ++ (wordBytes serverVerWire ++ rest) ∧
    v ≤ .fromWire serverVerWire

/-- A packed script with canonical calls comes back with its version, features and calls,
    from every daemon stream it can be unpacked with. -/
theorem repack {τ : Type} (readFile : Str → Except Str (List UInt8)) (baseDir : Option Str) (script : Script τ)
    (hmajor : script.preamble.protocolVersion.major < 256) (hfeatures : SetFits script.preamble.clientFeatures)
    (hdefault : script.preamble.protocolVersion.hasFeatures = false → script.preamble.clientFeatures = [])
    (hcalls : ∀ entry ∈ script.entries, Canonical script.preamble.protocolVersion entry.opCall) :
    ∃ clientBytes, serializeScript readFile script baseDir = .ok clientBytes ∧
      ∀ (timestamps : List (Nat × τ)) (daemonBytes : List UInt8) (out : Script τ) (m : MemReader × MemReader),
        Announces script.preamble.protocolVersion daemonBytes →
        (decompileStreams timestamps).run (.new clientBytes, .new daemonBytes) = (.ok out, m) →
        out.preamble.protocolVersion = script.preamble.protocolVersion ∧
        out.preamble.clientFeatures = script.preamble.clientFeatures ∧
        out.entries.map (·.opCall) = script.entries.map (·.opCall) := by
  obtain ⟨x, hx, hfs, hhello⟩ := serialize_hello hfeatures hdefault
  have hcanon : ∀ call ∈ script.entries.map (·.opCall), Canonical script.preamble.protocolVersion call := by
    simpa using hcalls
  obtain ⟨parts, hparts, hser⟩ := serialize_calls readFile baseDir hcanon
  refine ⟨serializeClientHandshake script.preamble.protocolVersion script.preamble.clientFeatures ++ parts.flatten, ?_, ?_⟩
  · rw [serializeScript, hser]
    rfl
  rintro timestamps daemonBytes out m ⟨sw, drest, rfl, hannounced⟩ hout
  obtain ⟨q, hflat, _⟩ := mem_runs (decompile_rel timestamps _ _) hout
  have hnow := timestampLeft_looks timestamps
    (serializeClientHandshake script.preamble.protocolVersion script.preamble.clientFeatures ++ parts.flatten).length
  obtain ⟨info, ⟨c, d⟩, n, hhand, hr, hq, hpre⟩ := (decompileWith_ok_iff hnow).mp hflat
  obtain ⟨cw, sw', _, _, v, y, z, cb, db, rfl, rfl, hv, hy, _, hc, hd, _, rfl⟩ := parseHandshake_ok_iff.mp hhand
  -- the client's side of the handshake is the one written
  rw [hhello, List.append_assoc, List.append_assoc] at hc
  obtain ⟨rfl, hrest⟩ := word_append_inj (word_append_inj hc).2
  obtain ⟨rfl, _⟩ := word_append_inj (word_append_inj hd).2
  obtain rfl : v = script.preamble.protocolVersion := by
    rw [hv, ProtocolVersion.from_wire_to_wire hmajor, ProtocolVersion.min_eq_left hannounced]
  obtain ⟨rfl, _, rfl⟩ := Fmt.Enc.unique wirePrims_lawful (enc_write _ _ _ hx) hy hrest
  have hops := unpack_calls hnow hparts hr hq
  rw [hpre]
  exact ⟨rfl, hfs, by simpa using hops⟩

/-- A session of two calls at 1.37. -/
def verifySession : Script Nat :=
  { preamble := { protocolVersion := .new 1 37, clientFeatures := [], expects := [], daemonVersion := none, trust := none,
                  serverFeatures := none }
    entries := [{ timestampMs := none, opCall := .verifyStore true false, response := none, expects := [] },
                { timestampMs := none, opCall := .noArgs .syncWithGC, response := none, expects := [] }] }

/-- A daemon at 1.38 that answers two calls with a word each. -/
def verifyDaemon : List UInt8 :=
  [workerMagic2, 0x0126, 0, 1, StderrCode.last.code, StderrCode.last.code, 1, StderrCode.last.code, 1].flatMap wordBytes

theorem repack_verify : ∃ (clientBytes : List UInt8) (out : Script Nat) (m : MemReader × MemReader),
    serializeScript (fun _ => .error []) verifySession none = .ok clientBytes ∧
    (decompileStreams []).run (.new clientBytes, .new verifyDaemon) = (.ok out, m) ∧
    out.entries.map (·.opCall) = verifySession.entries.map (·.opCall) := by
  obtain ⟨clientBytes, hser, hback⟩ := repack (fun _ => .error []) none verifySession (by decide) ⟨by decide, fun _ h => nomatch h⟩
    (fun _ => rfl) (by simp [verifySession, Canonical])
  have hbytes : serializeScript (fun _ => .error []) verifySession none =
      .ok ([workerMagic1, 0x0125, 0, 0, 35, 1, 0, 13].flatMap wordBytes) := by decide
  cases hbytes.symm.trans hser
  rcases hrun : (decompileStreams (τ := Nat) []).run (.new _, .new verifyDaemon) with ⟨out | o, m⟩
  · exact ⟨_, out, m, hser, hrun, (hback [] verifyDaemon out m ⟨0x0126, _, rfl, by decide⟩ hrun).2.2⟩
  · have hok : (match ((decompileStreams (τ := Nat) []).run
        (.new ([workerMagic1, 0x0125, 0, 0, 35, 1, 0, 13].flatMap wordBytes), .new verifyDaemon)).1 with
      | .ok _ => true
      | .stop _ => false) = true := by decide
    rw [hrun] at hok
    cases hok

end NixWire
