/-
  NixWire.Reencode — encoding decoded arguments again.

  `serialize_args`: a call that the layout of an operation's arguments carries is
  serialized as the writer writes that layout. So re-encoding what `readOpArgs` returned
  gives back the bytes it consumed up to padding, flag words and ignored words, or, when
  the arguments hold a blob, bytes that decode to the same call (`reencode`).
-/

import NixWire.Mirror
import NixWire.Serialize

namespace NixWire

open Base

/-! ## The writers write the layouts -/

theorem writeU64_eq : writeU64 = Fmt.write wireLimits .word := rfl

theorem writeBool_eq : writeBool = Fmt.write wireLimits .flag := rfl

theorem writeString_eq : writeString = Fmt.write wireLimits .str := funext fun s => writeBytes_eq (utf8 s)

theorem writeStringSet_eq' : writeStringSet = Fmt.write wireLimits setFmt := funext writeStringSet_eq

theorem writePairs_eq : writePairs = Fmt.write wireLimits pairsFmt := by
  funext pairs
  have h : (fun p : Str × Str => writeString p.1 ++ writeString p.2) = Fmt.write wireLimits (.seq .str .str) := by
    rw [writeString_eq]
    rfl
  rw [writePairs, h]
  rfl

theorem write_flagged (c : Bool) {f : Fmt} {v : Option f.Val} (d : f.Val) (h : (Fmt.gate c f).Fits wireLimits v) :
    (if c then f.write wireLimits (v.getD d) else []) = (Fmt.gate c f).write wireLimits v := by
  cases v with
  | none =>
    obtain rfl : c = false := h
    rfl
  | some v =>
    obtain rfl : c = true := h.1
    rfl

theorem write_gate (c : Prop) [Decidable c] {f : Fmt} {v : Option f.Val} (d : f.Val)
    (h : (Fmt.gate (decide c) f).Fits wireLimits v) :
    (if c then f.write wireLimits (v.getD d) else []) = (Fmt.gate (decide c) f).write wireLimits v := by
  rw [← write_flagged (decide c) d h]
  simp only [decide_eq_true_eq]

@[simp] theorem modeValue_modeName (w : UInt64) : modeValue (modeName w) = w := by
  unfold modeName
  split
  · rename_i h
    rw [← UInt64.toNat_inj, h]
    decide
  · rename_i h
    rw [← UInt64.toNat_inj, h]
    decide
  · rename_i h
    rw [← UInt64.toNat_inj, h]
    decide
  · have hne : ∀ t : Str, t.head?.any Char.isDigit = false → decimal w.toNat ≠ t := by
      rintro t ht rfl
      obtain ⟨c, s, hs, hc⟩ := decimal_eq_cons w.toNat
      rw [hs] at ht
      simp [hc] at ht
    rw [modeValue, if_neg (hne _ (by decide)), if_neg (hne _ (by decide)), if_neg (hne _ (by decide)), parseU64_decimal]
    rfl

section

variable (readFile : Str → Except Str (List UInt8)) (baseDir : Option Str)

/-- A call is serialized as the writer writes the layout of its arguments. -/
theorem serialize_args {op : Op} {v : ProtocolVersion} {args : (argsLayout op v).fmt.Val} {call : OpCall}
    (hfits : (argsLayout op v).fmt.Fits wireLimits args) (hcall : (argsLayout op v).of args = some call) :
    call.op = op ∧ serializeOpArgs readFile call v baseDir = .ok ((argsLayout op v).fmt.write wireLimits args) := by
  cases op
  case queryValidPaths =>
    obtain ⟨paths, sub⟩ := args
    cases hcall
    refine ⟨rfl, congrArg Except.ok ?_⟩
    simp only [writeStringSet_eq', writeBool_eq]
    exact congrArg _ (write_gate _ false hfits.2)
  case setOptions =>
    obtain ⟨kf, kg, tf, vb, mj, ms, bh, vl, lt, bt, bc, us, ov⟩ := args
    cases hcall
    refine ⟨rfl, congrArg Except.ok ?_⟩
    obtain ⟨-, -, -, -, -, -, -, -, -, -, hbc, hus, hov⟩ := hfits
    have h10 := write_gate _ 0 hbc
    have h12 := write_gate _ 0 hus
    have hpairs := write_gate _ [] hov
    simp only [writeU64_eq, writePairs_eq, h10, h12, hpairs, List.append_assoc]
    rfl
  case buildPaths =>
    cases hcall
    refine ⟨rfl, congrArg Except.ok ?_⟩
    simp only [writeStringSet_eq', writeU64_eq, modeValue_modeName]
    rfl
  case buildPathsWithResults =>
    cases hcall
    refine ⟨rfl, congrArg Except.ok ?_⟩
    simp only [writeStringSet_eq', writeU64_eq, modeValue_modeName]
    rfl
  case addToStore =>
    cases args with
    | none => cases hcall
    | some args =>
      cases hcall
      refine ⟨rfl, congrArg Except.ok ?_⟩
      simp only [writeString_eq, writeStringSet_eq', writeBool_eq, List.append_assoc]
      show _ = (_ ++ (_ ++ (_ ++ _))) ++ _
      simp only [List.append_assoc]
      rfl
  case addMultipleToStore =>
    cases hcall
    refine ⟨rfl, congrArg Except.ok ?_⟩
    simp only [writeBool_eq]
    rfl
  case addBuildLog =>
    cases hcall
    refine ⟨rfl, congrArg Except.ok ?_⟩
    simp only [writeString_eq]
    rfl
  case addToStoreNar => cases hcall
  case buildDerivation => cases hcall
  all_goals
    cases hcall
    refine ⟨rfl, congrArg Except.ok ?_⟩
    first
      | rfl
      | (simp only [writeString_eq, writeStringSet_eq', writeU64_eq, List.append_assoc]; rfl)

/-! ## Decoding, then encoding again -/

theorem unframed_args {op : Op} (h : opHasClientFramedData op = false) (v : ProtocolVersion) :
    (argsLayout op v).fmt.Unframed := by
  cases op <;> simp_all [argsLayout, Fmt.Unframed, opHasClientFramedData]

/-- The call carried by the bytes `readOpArgs` consumes. -/
theorem readOpArgs_ok_iff {op : Op} {v : ProtocolVersion} {s rest : List UInt8} {call : Option OpCall} :
    (readOpArgs op v).run s = (.ok call, rest) ↔ ∃ args bs, (argsLayout op v).fmt.Enc wireLimits args bs ∧
      (argsLayout op v).of args = call ∧ s = bs ++ rest := by
  rw [readOpArgs_eq]
  exact Layout.parse_ok_iff wirePrims_lawful

/-- Arguments decoded at some version and encoded again at the same version: the bytes
    consumed, up to padding, flag words and ignored words; with a blob among them, bytes
    that decode to the same call. -/
theorem reencode {op : Op} {v : ProtocolVersion} {clientBytes : List UInt8} {call : OpCall} {m : MemReader}
    (h : (readOpArgs op v).run (MemReader.new clientBytes) = (.ok (some call), m)) :
    ∃ bytes, serializeOpArgs readFile call v baseDir = .ok bytes ∧
      if opHasClientFramedData op then
        (readOpArgs op v).run (MemReader.new bytes) = (.ok (some call), ⟨bytes, bytes.length⟩)
      else bytes.length = m.position ∧ (argsLayout op v).fmt.Same (clientBytes.take m.position) bytes := by
  have hrel : ∀ data : List UInt8, Rel (MemReader.Left data) (readOpArgs op v) (readOpArgs op v) :=
    fun data => readOpArgs_rel MemReader.mirrors op v
  obtain ⟨rest, hflat, hleft⟩ := (mem_run_iff (hrel clientBytes)).mp h
  obtain ⟨args, bs, henc, hcall, rfl⟩ := readOpArgs_ok_iff.mp hflat
  obtain ⟨_, hser⟩ := serialize_args readFile baseDir henc.fits hcall
  refine ⟨_, hser, ?_⟩
  split
  · refine (mem_run_iff (hrel _)).mpr ⟨[], ?_, rfl, by simp, by simp⟩
    exact readOpArgs_ok_iff.mpr ⟨args, _, enc_write _ _ _ henc.fits, hcall, by simp⟩
  · rename_i hframed
    have hpos : m.position = bs.length := by
      have := hleft.2.1
      rw [List.length_append] at this
      show m.pos = _
      omega
    have hsame := henc.same (unframed_args (by simpa using hframed) v)
    rw [hpos, List.take_left]
    exact ⟨hsame.length, hsame⟩

/-- Flags 5 and 0, read as true and false and written as 1 and 0. -/
theorem reencode_verify : ∃ bytes, serializeOpArgs (fun _ => .error []) (.verifyStore true false) (.new 1 37) none = .ok bytes ∧
    bytes.length = 16 ∧ (Fmt.seq .flag .flag).Same (wordBytes 5 ++ wordBytes 0) bytes := by
  have h : (readOpArgs .verifyStore (.new 1 37)).run (MemReader.new (wordBytes 5 ++ wordBytes 0 ++ [7])) =
      (.ok (some (.verifyStore true false)), ⟨wordBytes 5 ++ wordBytes 0 ++ [7], 16⟩) := by decide
  exact reencode (fun _ => .error []) none h

end

end NixWire
