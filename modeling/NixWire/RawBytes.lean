/-
  NixWire.RawBytes — what the raw fallback of unpacking keeps.

  An operation `read_op_args` cannot parse becomes a `RawBytes` call with no data, packed
  as its code alone. So it survives unpacking and packing exactly when the loop moved over
  nothing but the code of a known operation (`raw_survives_iff`).
-/

import NixWire.Reencode
import NixWire.Unpack

namespace NixWire

open Base

/-! ## Falling back -/

/-- `read_op_args` does not parse the arguments of this code. -/
def FallsBack (v : ProtocolVersion) (opCode : UInt64) : Prop :=
  match Op.fromU64 opCode with
  | none | some .buildDerivation | some .addToStoreNar => True
  | some .addToStore => ¬v ≥ .new 1 25
  | some _ => False

/-- The fallback takes nothing after the code, and the code is that of the call it builds. -/
def TakesCode (v : ProtocolVersion) (opCode : UInt64) (rest : List UInt8) : Prop :=
  match Op.fromU64 opCode with
  | some .buildDerivation => True
  | some .addToStoreNar => ¬v ≥ .new 1 23
  | some .addToStore => ¬v ≥ .new 1 23 ∧ rest = []
  | _ => False

/-- Parsed arguments are not raw bytes. -/
theorem args_not_raw {o op : Op} {v : ProtocolVersion} {data : List UInt8} {args : (argsLayout o v).fmt.Val}
    (h : (argsLayout o v).of args = some (.rawBytes op data)) : False := by
  cases o
  case addToStore =>
    cases args with
    | none => cases h
    | some args => cases h
  all_goals cases h

theorem fallsBack_iff {o : Op} {v : ProtocolVersion} {args : (argsLayout o v).fmt.Val} {opCode : UInt64}
    {bs : List UInt8} (hcode : Op.fromU64 opCode = some o) (h : (argsLayout o v).fmt.Enc wireLimits args bs) :
    FallsBack v opCode ↔ (argsLayout o v).of args = none := by
  simp only [FallsBack, hcode]
  cases o
  case addToStore =>
    cases args with
    | none => simpa [argsLayout] using h.1
    | some args =>
      have hv : v ≥ .new 1 25 := by simpa using h.1
      simp [argsLayout, hv]
  all_goals simp [argsLayout]

/-- Arguments that are not parsed are not looked at either. -/
theorem noArgs_of_fallsBack {o : Op} {v : ProtocolVersion} {args : (argsLayout o v).fmt.Val} {opCode : UInt64}
    {bs : List UInt8} (hcode : Op.fromU64 opCode = some o) (hback : FallsBack v opCode)
    (h : (argsLayout o v).fmt.Enc wireLimits args bs) : bs = [] := by
  simp only [FallsBack, hcode] at hback
  cases o
  case buildDerivation => exact h
  case addToStoreNar => exact h
  case addToStore =>
    cases args with
    | none => exact h.2
    | some args => exact absurd (by simpa using h.1) hback
  all_goals cases hback

/-- However it ends, `x` takes a byte at least when there is one. -/
def Takes {α : Type} (x : Rd WireError (List UInt8) α) : Prop := ∀ s, s ≠ [] → (x.run s).2.length < s.length

theorem Takes.bind {α β : Type} {x : Rd WireError (List UInt8) α} {f : α → Rd WireError (List UInt8) β} (hx : Takes x)
    (hf : ∀ a, Forward (f a)) : Takes (x >>= f) := by
  intro s hs
  have hlt := hx s hs
  rw [Rd.run_bind]
  split
  · rename_i a r h
    rw [h] at hlt
    exact lt_of_le_of_lt (hf a r).length_le hlt
  · rename_i o r h
    rwa [h] at hlt

theorem readString_takes : Takes readString := by
  have hword : Takes readU64 := by
    intro s hs
    have hpos : 0 < s.length := List.length_pos_iff.mpr hs
    rcases h : readU64.run s with ⟨w | o, rest⟩
    · obtain rfl := readU64_ok_iff.mp h
      simp
    · rcases Rd.bind_stop_iff.mp h with h' | ⟨_, _, _, h'⟩
      · rw [(readExact_stop h').2.2]
        simpa using hpos
      · cases h'
  have hbytes : Takes readBytes := hword.bind fun _ => Forward.ite (Forward.fail _) <| (readExact_forward _ _).bind fun _ =>
    Forward.ite ((readExact_forward _ _).bind fun _ => Forward.pure _) (Forward.pure _)
  refine hbytes.bind fun b => ?_
  split
  · exact Forward.pure _
  · exact Forward.fail _

/-- Skipping the arguments of `AddToStore` takes something unless there is nothing. -/
theorem skip_addToStore_stays (v : ProtocolVersion) (s : List UInt8) :
    ((skipOpArgs .addToStore v).attempt.run s).2 = s ↔ s = [] := by
  have hleft : ((skipOpArgs .addToStore v).attempt.run s).2 = ((skipOpArgs .addToStore v).run s).2 := by
    simp only [Rd.attempt]
    rcases (skipOpArgs .addToStore v).run s with ⟨a | (e | p | _), r⟩ <;> rfl
  have htakes : Takes (skipOpArgs .addToStore v) := by
    rw [skipOpArgs_eq]
    simp only [skipArgsLayout]
    -- both layouts start with the name
    split <;>
    · simp only [Layout.parse, parse_seq, map_eq_pure_bind, bind_assoc, pure_bind]
      exact readString_takes.bind fun _ => (parse_forward wirePrims_forward _).bind fun _ =>
        (parse_forward wirePrims_forward _).bind fun _ => (parse_forward wirePrims_forward _).bind fun _ => Forward.pure _
  rw [hleft]
  constructor
  · intro h
    by_contra hs
    have := htakes s hs
    rw [h] at this
    omega
  · intro h
    obtain rfl := h
    exact List.suffix_nil.mp (skipOpArgs_forward .addToStore v [])

theorem skipFramed_moves {s rest : List UInt8} {total : UInt64} (h : skipFramed.run s = (.ok total, rest)) :
    rest.length + 8 ≤ s.length := by
  rw [skipFramed_eq_blob] at h
  have := parse_length_le wirePrims_lawful h
  simp only [Fmt.minSize] at this
  omega

/-- What the fallback takes after an operation's code. -/
theorem fallback_moves {o : Op} {v : ProtocolVersion} {opCode : UInt64} {s s₁ rest : List UInt8}
    {x : Except WireError (Option Str)}
    {y : Option UInt64} (hcode : Op.fromU64 opCode = some o) (hfalls : FallsBack v opCode)
    (hskip : (skipOpArgs o v).attempt.run s = (.ok x, s₁))
    (hframed : (if v ≥ .new 1 23 ∧ opHasClientFramedData o then some <$> skipFramed else pure none : Rd WireError _ _).run s₁ =
      (.ok y, rest)) : rest = s ↔ TakesCode v opCode s := by
  simp only [FallsBack, hcode] at hfalls
  simp only [TakesCode, hcode]
  -- frames take at least their end marker
  have hmoves : v ≥ .new 1 23 → opHasClientFramedData o = true → rest.length + 8 ≤ s₁.length := by
    intro hv ho
    rw [if_pos ⟨hv, ho⟩] at hframed
    obtain ⟨total, htotal, _⟩ := Rd.map_ok_iff.mp hframed
    exact skipFramed_moves htotal
  have hstays : ¬(v ≥ .new 1 23 ∧ opHasClientFramedData o = true) → rest = s₁ := by
    intro h
    rw [if_neg h] at hframed
    cases hframed
    rfl
  cases o
  case buildDerivation =>
    cases hskip
    simpa using hstays (by simp [opHasClientFramedData])
  case addToStoreNar =>
    cases hskip
    by_cases hv : v ≥ .new 1 23
    · have := hmoves hv rfl
      refine iff_of_false ?_ (not_not_intro hv)
      intro h
      obtain rfl := h
      omega
    · exact iff_of_true (hstays fun h => hv h.1) hv
  case addToStore =>
    have hstay := skip_addToStore_stays v s
    rw [hskip] at hstay
    by_cases hv : v ≥ .new 1 23
    · refine iff_of_false ?_ fun h => h.1 hv
      intro h
      obtain rfl := h
      have hle := (Forward.attempt (skipOpArgs_forward .addToStore v)).of_run hskip |>.length_le
      have := hmoves hv rfl
      omega
    · rw [hstays fun h => hv h.1]
      simpa [hv] using hstay
  all_goals cases hfalls

/-- The raw call built for an operation, and when the code is all it moves over. -/
theorem readOpCall_raw {opCode : UInt64} {v : ProtocolVersion} {s rest : List UInt8} {call : OpCall}
    (h : (readOpCall (Op.fromU64 opCode) v).run s = (.ok call, rest)) :
    (FallsBack v opCode ↔ ∃ op data, call = .rawBytes op data) ∧
      ∀ op data, call = .rawBytes op data → data = [] ∧ (op.code = opCode ∧ rest = s ↔ TakesCode v opCode s) := by
  cases hcode : Op.fromU64 opCode with
  | none =>
    rw [hcode] at h
    cases h
    refine ⟨by simp [FallsBack, hcode], ?_⟩
    intro op data hraw
    cases hraw
    refine ⟨rfl, ?_⟩
    simp only [TakesCode, hcode, and_true, iff_false]
    intro h
    obtain rfl := h
    rw [Op.fromU64_code] at hcode
    cases hcode
  | some o =>
    rw [hcode, readOpCall] at h
    obtain ⟨parsed, s₁, hargs, hcall⟩ := Rd.bind_ok_iff.mp h
    obtain ⟨args, bs, hbs, hof, rfl⟩ := readOpArgs_ok_iff.mp hargs
    have hfalls := fallsBack_iff hcode hbs
    cases parsed with
    | some parsed =>
      cases hcall
      refine ⟨iff_of_false (fun h => ?_) ?_, ?_⟩
      · cases (hfalls.mp h).symm.trans hof
      · intro h
        obtain ⟨op, data, rfl⟩ := h
        exact args_not_raw hof
      · rintro op data rfl
        exact (args_not_raw hof).elim
    | none =>
      obtain ⟨x, s₂, hskip, hmore⟩ := Rd.bind_ok_iff.mp hcall
      obtain ⟨y, s₃, hframed, hout⟩ := Rd.bind_ok_iff.mp hmore
      cases hout
      have hback := hfalls.mpr hof
      refine ⟨iff_of_true hback ⟨o, [], rfl⟩, ?_⟩
      intro op data hraw
      cases hraw
      obtain rfl : bs = [] := noArgs_of_fallsBack hcode hback hbs
      exact ⟨rfl, by simpa [Op.code_of_fromU64 hcode] using fallback_moves hcode hback hskip hframed⟩

/-! ## A whole run -/

section

variable {τ : Type} (timestamps : List (Nat × τ)) (clientBytes daemonBytes : List UInt8)

/-- The pass that makes entry `i` leads from `before` to `after`. -/
def PassAt (i : Nat) (before after : MemReader × MemReader) : Prop :=
  ∃ info start acc out, parseHandshake.run (.new clientBytes, .new daemonBytes) = (.ok info, start) ∧
    Rd.Reaches (decompilePass (timestampNow timestamps) info.negotiatedVersion) i ([], start) (acc, before) ∧
    (decompilePass (timestampNow timestamps) info.negotiatedVersion acc).run before = (.ok (.inl out), after)

/-- The client's bytes a pass moves over. -/
def movedBytes (before after : MemReader × MemReader) : List UInt8 :=
  (clientBytes.drop before.1.position).take (after.1.position - before.1.position)

/-- Every raw call is packed as the client's bytes its pass moved over. -/
def RawSurvives (readFile : Str → Except Str (List UInt8)) (baseDir : Option Str) (script : Script τ) : Prop :=
  ∀ i entry op data, script.entries[i]? = some entry → entry.opCall = .rawBytes op data →
    ∃ before after, PassAt timestamps clientBytes daemonBytes i before after ∧
      serializeOpCall readFile entry.opCall script.preamble.protocolVersion baseDir = .ok (movedBytes clientBytes before after)

variable {timestamps clientBytes daemonBytes}

theorem passAt_det {i : Nat} {before after before' after' : MemReader × MemReader}
    (h : PassAt timestamps clientBytes daemonBytes i before after)
    (h' : PassAt timestamps clientBytes daemonBytes i before' after') :
    before = before' ∧ after = after' := by
  obtain ⟨info, start, acc, out, hhand, hr, hrun⟩ := h
  obtain ⟨info', start', acc', out', hhand', hr', hrun'⟩ := h'
  cases hhand.symm.trans hhand'
  cases hr.det hr'
  cases hrun.symm.trans hrun'
  exact ⟨rfl, rfl⟩

variable {script : Script τ} {m : MemReader × MemReader}
variable (h : (decompileStreams timestamps).run (.new clientBytes, .new daemonBytes) = (.ok script, m))

include h

/-- The passes of a run from memory: the handshake, a pass for every entry, and one that ends it. -/
theorem run_passes : ∃ info start p n q m', parseHandshake.run (.new clientBytes, .new daemonBytes) = (.ok info, start) ∧
    Both (MemReader.Left clientBytes) (MemReader.Left daemonBytes) start p ∧
    Rd.Reaches (decompilePass (timestampLeft timestamps clientBytes.length) info.negotiatedVersion) n ([], p) (script.entries, q) ∧
    Rd.Reaches (decompilePass (timestampNow timestamps) info.negotiatedVersion) n ([], start) (script.entries, m') ∧
    (∃ m'', (decompilePass (timestampNow timestamps) info.negotiatedVersion script.entries).run m' =
      (.ok (.inr script.entries), m'')) ∧
    script.preamble.protocolVersion = info.negotiatedVersion := by
  have hnow := timestampLeft_looks timestamps clientBytes.length
  obtain ⟨⟨c, d⟩, hflat, _⟩ := mem_runs (decompile_rel timestamps clientBytes daemonBytes) h
  obtain ⟨info, p, n, hhand, hr, hshort, hpre⟩ := (decompileWith_ok_iff hnow).mp hflat
  have hnew : Both (MemReader.Left clientBytes) (MemReader.Left daemonBytes) (.new clientBytes, .new daemonBytes)
    (clientBytes, daemonBytes) := ⟨MemReader.left_new clientBytes, MemReader.left_new daemonBytes⟩
  obtain ⟨start, hstart, hp⟩ := (parseHandshake_rel MemReader.mirrors MemReader.mirrors).run hnew hhand
  have hbody : ∀ entries, Rel (Both (MemReader.Left clientBytes) (MemReader.Left daemonBytes))
      (decompilePass (timestampNow timestamps) info.negotiatedVersion entries) (decompilePass _ info.negotiatedVersion entries) :=
    decompilePass_rel MemReader.mirrors MemReader.mirrors (timestampNow_rel timestamps clientBytes)
      (timestampLeft_stay timestamps clientBytes.length) info.negotiatedVersion
  obtain ⟨m', hr', hm'⟩ := hr.rel hbody hp
  obtain ⟨m'', hstop, _⟩ := (hbody script.entries).run hm' (decompilePass_short hshort)
  exact ⟨info, start, p, n, (c, d), m', hstart, hp, hr, hr', ⟨m'', hstop⟩, by rw [hpre]; rfl⟩

/-- Every pass that goes on makes an entry. -/
theorem passAt_entry {i : Nat} {before after : MemReader × MemReader}
    (hpass : PassAt timestamps clientBytes daemonBytes i before after) :
    ∃ entry, script.entries[i]? = some entry := by
  obtain ⟨info, start, p, n, q, m', hhand, _, hflat, hr, ⟨m'', hstop⟩, _⟩ := run_passes h
  obtain ⟨info', start', acc, out, hhand', hr', hrun⟩ := hpass
  cases hhand.symm.trans hhand'
  have hlen : script.entries.length = n := by
    simpa using reaches_length (timestampLeft_looks timestamps clientBytes.length) hflat
  rcases Nat.lt_or_ge i n with hi | hi
  · exact ⟨_, List.getElem?_eq_getElem (hlen ▸ hi)⟩
  · -- a pass after the last would go on where the loop ended
    obtain ⟨k, rfl⟩ : ∃ k, i = n + k := ⟨i - n, by omega⟩
    have hlong : Rd.Reaches _ (n + (k + 1)) ([], start) (out, after) := hr'.snoc hrun
    obtain ⟨y, hr₁, hr₂⟩ := hlong.split
    cases hr.det hr₁
    cases hr₂ with
    | step hb _ => cases hstop.symm.trans hb

/-- What the pass that makes an entry takes from the client. -/
theorem entry_moves {i : Nat} {entry : Entry τ} (hentry : script.entries[i]? = some entry) :
    ∃ before after opCode s rest, PassAt timestamps clientBytes daemonBytes i before after ∧
      clientBytes.drop before.1.position = wordBytes opCode ++ s ∧
      wordBytes opCode ++ s = movedBytes clientBytes before after ++ rest ∧
      (readOpCall (Op.fromU64 opCode) script.preamble.protocolVersion).run s = (.ok entry.opCall, rest) := by
  have hnow := timestampLeft_looks timestamps clientBytes.length
  obtain ⟨info, start, p, n, q, m', hhand, hp, hflat, _, _, hversion⟩ := run_passes h
  obtain ⟨acc, ⟨c, d⟩, p₂, hr, hpass⟩ := entry_pass hnow hflat hentry
  have hbody : ∀ entries, Rel (Both (MemReader.Left clientBytes) (MemReader.Left daemonBytes))
      (decompilePass (timestampNow timestamps) info.negotiatedVersion entries) (decompilePass _ info.negotiatedVersion entries) :=
    decompilePass_rel MemReader.mirrors MemReader.mirrors
    (timestampNow_rel timestamps clientBytes) (timestampLeft_stay timestamps clientBytes.length) info.negotiatedVersion
  obtain ⟨before, hreach, hbefore⟩ := hr.rel hbody hp
  obtain ⟨after, hrun, hafter⟩ := (hbody acc).run hbefore hpass
  obtain ⟨opCode, s, t, entry', hc, _, hop, hout⟩ := (decompilePass_inl_iff hnow).mp hpass
  obtain rfl : entry = entry' := by simpa using hout
  obtain ⟨call, _, _, _, _, hcall, _, _, hentry'⟩ := decompileOp_ok_iff.mp hop
  have hmoved : c = movedBytes clientBytes before after ++ p₂.1 := by
    have hle := ((readOpCall_forward _ _).of_run hcall).length_le
    have hb : before.1.pos + c.length = clientBytes.length := hbefore.1.2.1
    have ha : after.1.pos + p₂.1.length = clientBytes.length := hafter.1.2.1
    have hcdrop : clientBytes.drop before.1.pos = c := hbefore.1.2.2
    have hadrop : clientBytes.drop after.1.pos = p₂.1 := hafter.1.2.2
    have hlen : c.length = 8 + s.length := by rw [hc, List.length_append, wordBytes_length]
    show c = (clientBytes.drop before.1.pos).take (after.1.pos - before.1.pos) ++ p₂.1
    have hrest : p₂.1 = c.drop (after.1.pos - before.1.pos) := by
      rw [← hcdrop, List.drop_drop, ← hadrop]
      congr 1
      omega
    rw [hcdrop, hrest, List.take_append_drop]
  refine ⟨before, after, opCode, s, p₂.1, ⟨info, start, acc, _, hhand, hreach, hrun⟩, hbefore.1.2.2.trans hc, hc ▸ hmoved, ?_⟩
  rw [hversion, hcall, hentry']

/-- A script loses nothing in its raw calls exactly when every operation the loop could not
    parse cost it no more than a known code. -/
theorem raw_survives_iff (readFile : Str → Except Str (List UInt8)) (baseDir : Option Str) :
    RawSurvives timestamps clientBytes daemonBytes readFile baseDir script ↔
      ∀ i before after opCode s, PassAt timestamps clientBytes daemonBytes i before after →
        clientBytes.drop before.1.position = wordBytes opCode ++ s → FallsBack script.preamble.protocolVersion opCode →
        TakesCode script.preamble.protocolVersion opCode s := by
  -- a raw call is its code alone
  have hserialize : ∀ {entry : Entry τ} {op : Op} {moved : List UInt8}, entry.opCall = .rawBytes op [] →
      (serializeOpCall readFile entry.opCall script.preamble.protocolVersion baseDir = .ok moved ↔ wordBytes op.code = moved) := by
    intro entry op moved hraw
    rw [hraw]
    show Except.ok (wordBytes op.code ++ []) = _ ↔ _
    rw [List.append_nil, Except.ok.injEq]
  constructor
  · intro hall i before after opCode s hpass hs hback
    obtain ⟨entry, hentry⟩ := passAt_entry h hpass
    obtain ⟨before', after', opCode', s', rest, hpass', hs', hmoved, hcall⟩ := entry_moves h hentry
    obtain ⟨rfl, rfl⟩ := passAt_det hpass hpass'
    obtain ⟨rfl, rfl⟩ := word_append_inj (hs.symm.trans hs')
    obtain ⟨hfalls, hiff⟩ := readOpCall_raw hcall
    obtain ⟨op, data, hraw⟩ := hfalls.mp hback
    obtain ⟨rfl, htakes⟩ := hiff op data hraw
    obtain ⟨before'', after'', hpass'', hser⟩ := hall i entry op [] hentry hraw
    obtain ⟨rfl, rfl⟩ := passAt_det hpass hpass''
    rw [← (hserialize hraw).mp hser] at hmoved
    obtain ⟨hcode, hrest⟩ := word_append_inj hmoved
    exact htakes.mp ⟨hcode.symm, hrest.symm⟩
  · intro hall i entry op data hentry hraw
    obtain ⟨before, after, opCode, s, rest, hpass, hs, hmoved, hcall⟩ := entry_moves h hentry
    obtain ⟨hfalls, hiff⟩ := readOpCall_raw hcall
    obtain ⟨rfl, htakes⟩ := hiff op data hraw
    obtain ⟨rfl, rfl⟩ := htakes.mpr (hall i before after opCode s hpass hs (hfalls.mpr ⟨op, [], hraw⟩))
    exact ⟨before, after, hpass, (hserialize hraw).mpr (List.append_cancel_right hmoved)⟩

end

def rawInfo : HandshakeInfo :=
  { clientVersion := .new 1 23, serverVersion := .new 1 23, negotiatedVersion := .new 1 23, clientFeatures := [],
    serverFeatures := [], daemonNixVersion := none, trustStatus := none }

/-- The script of one raw call at 1.23. -/
def rawScript (op : Op) (result : Option ResultData) : Script Nat :=
  { preamble := preambleOf rawInfo
    entries := [{ timestampMs := none, opCall := .rawBytes op [], expects := [],
                  response := some { terminal := "Last".toList, stderrCount := 1, result, error := none } }] }

/-- A daemon at 1.23 that answers one call. -/
def rawDaemon : List UInt8 := [workerMagic2, 0x0117, StderrCode.last.code, StderrCode.last.code].flatMap wordBytes

/-- A client whose stream ends with the code of `BuildDerivation`. -/
def codeClient : List UInt8 := [workerMagic1, 0x0117, 0, 0, Op.buildDerivation.code].flatMap wordBytes

theorem raw_survives_code : RawSurvives [] codeClient rawDaemon (fun _ => .error []) none (rawScript .buildDerivation none) := by
  have h : (decompileStreams []).run (.new codeClient, .new rawDaemon) =
      (.ok (rawScript .buildDerivation none), (⟨codeClient, 40⟩, ⟨rawDaemon, 32⟩)) := by decide
  refine (raw_survives_iff h (fun _ => .error []) none).mpr ?_
  intro i before after opCode s hpass hs _
  obtain ⟨_, hentry⟩ := passAt_entry h hpass
  obtain rfl : i = 0 := by simpa [rawScript] using (List.getElem?_eq_some_iff.mp hentry).1
  have hfirst : PassAt ([] : List (Nat × Nat)) codeClient rawDaemon 0 (⟨codeClient, 32⟩, ⟨rawDaemon, 24⟩)
      (⟨codeClient, 40⟩, ⟨rawDaemon, 32⟩) :=
    ⟨rawInfo, _, [], (rawScript .buildDerivation none).entries, by decide, .refl _, by decide⟩
  obtain ⟨rfl, _⟩ := passAt_det hpass hfirst
  obtain ⟨rfl, _⟩ := word_append_inj (hs.symm.trans (by decide : codeClient.drop 32 = wordBytes Op.buildDerivation.code ++ []))
  trivial

/-- A client that sends a `AddToStoreNar` with eight bytes in a frame. -/
def framedClient : List UInt8 := [workerMagic1, 0x0117, 0, 0, Op.addToStoreNar.code, 8, 7, 0].flatMap wordBytes

/-- The frame is lost. -/
theorem raw_lost : (decompileStreams []).run (.new framedClient, .new rawDaemon) =
      (.ok (rawScript .addToStoreNar (some .none)), (⟨framedClient, 64⟩, ⟨rawDaemon, 32⟩)) ∧
    ¬RawSurvives [] framedClient rawDaemon (fun _ => .error []) none (rawScript .addToStoreNar (some .none)) := by
  refine ⟨by decide, fun hall => ?_⟩
  obtain ⟨before, after, hpass, hser⟩ := hall 0 _ _ _ rfl rfl
  have hfirst : PassAt ([] : List (Nat × Nat)) framedClient rawDaemon 0 (⟨framedClient, 32⟩, ⟨rawDaemon, 24⟩)
      (⟨framedClient, 64⟩, ⟨rawDaemon, 32⟩) :=
    ⟨rawInfo, _, [], (rawScript .addToStoreNar (some .none)).entries, by decide, .refl _, by decide⟩
  obtain ⟨rfl, rfl⟩ := passAt_det hpass hfirst
  revert hser
  decide

end NixWire
