/-
  NixWire.Requests — reading and skipping a request.

  The reader takes a request's framed data itself; the skipper leaves it to its callers,
  which skip it when `opHasClientFramedData` says so (`skipRequest`). `skip_request`: what
  can be read can be skipped, the summary being the call's path, name or string and the
  count the length of its data. `read_request`: what can be skipped can be read, up to an
  undecodable string and to the operations too complex to parse. Both leave the same
  bytes (`read_skip_request_agree`).
-/

import NixWire.Reencode
import NixWire.Results

namespace NixWire

open Base

/-- Skip a request as the callers do: the fixed arguments, then the framed data. -/
def skipRequest {R : Type} [BufRead R] (op : Op) (version : ProtocolVersion) : Rd WireError R (Option Str × UInt64) := do
  let argInfo ← skipOpArgs op version
  let framedBytes ← (if opHasClientFramedData op then skipFramed else pure 0)
  return (argInfo, framedBytes)

/-- The path, name or single string a call is about. -/
def OpCall.subject : OpCall → Option Str
  | .singlePath _ path => some path
  | .singleString _ value => some value
  | .addSignatures path _ => some path
  | .addToStore name _ _ _ _ => some name
  | .addBuildLog path _ => some path
  | .registerDrvOutput value => some value
  | .queryRealisation value => some value
  | .querySubstitutablePathInfo path => some path
  | _ => none

/-- The data that goes with a call. -/
def OpCall.framedData : OpCall → List UInt8
  | .addToStore _ _ _ _ (.inline data) => data
  | .addMultipleToStore _ _ (.inline data) => data
  | .addBuildLog _ (.inline data) => data
  | _ => []

/-! ## The layouts -/

theorem skips_args {op : Op} (h : opHasClientFramedData op = false) (v : ProtocolVersion) :
    (argsLayout op v).fmt.Skips (skipArgsLayout op v).fmt := by
  cases op
  case queryValidPaths => exact .seq skips_set (.gate _ .flag)
  case setOptions =>
    exact .seq .word <| .seq .word <| .seq .word <| .seq .word <| .seq .word <| .seq .word <| .seq .word <| .seq .word <|
      .seq .word <| .seq .word <| .seq (.gate _ .word) <| .seq (.gate _ .word) <| .gate _ <| .many (by decide) <| .seq .str .str
  case buildPaths => exact .seq skips_set .word
  case buildPathsWithResults => exact .seq skips_set .word
  case collectGarbage => exact .seq .word (.seq skips_set (.seq .word (.seq .word (.refl _))))
  case verifyStore => exact .seq .flag .flag
  case addPermRoot => exact .seq .str .str
  case addSignatures => exact .seq (.refl _) skips_set
  case addTextToStore => exact .seq .str (.seq .str skips_set)
  case addToStore => cases h
  case addMultipleToStore => cases h
  case addBuildLog => cases h
  case addToStoreNar => cases h
  all_goals first
    | exact .refl _
    | exact skips_set

theorem dense_set : setFmt.Dense 3 := ⟨by decide, trivial⟩

theorem dense_args (op : Op) (v : ProtocolVersion) : (argsLayout op v).fmt.Dense 3 := by
  have hpairs : pairsFmt.Dense 3 := ⟨by decide, trivial, trivial⟩
  cases op
  case queryValidPaths => exact ⟨dense_set, trivial⟩
  case setOptions =>
    exact ⟨trivial, trivial, trivial, trivial, trivial, trivial, trivial, trivial, trivial, trivial, trivial, trivial, hpairs⟩
  case buildPaths => exact ⟨dense_set, trivial⟩
  case buildPathsWithResults => exact ⟨dense_set, trivial⟩
  case collectGarbage => exact ⟨trivial, dense_set, trivial, trivial, trivial, trivial, trivial⟩
  case verifyStore => exact ⟨trivial, trivial⟩
  case addPermRoot => exact ⟨trivial, trivial⟩
  case addSignatures => exact ⟨trivial, dense_set⟩
  case addTextToStore => exact ⟨trivial, trivial, dense_set⟩
  case addToStore => exact ⟨⟨trivial, trivial, dense_set, trivial⟩, trivial⟩
  case addMultipleToStore => exact ⟨⟨trivial, trivial⟩, trivial⟩
  case addBuildLog => exact ⟨trivial, trivial⟩
  all_goals first
    | exact dense_set
    | trivial

theorem skipArgsLayout_addToStore {v : ProtocolVersion} (hv : v ≥ .new 1 25) : skipArgsLayout .addToStore v =
    ⟨.seq .str (.seq .bytes (.seq skipSetFmt .junk)), fun (name, _) => some name⟩ := if_pos hv

/-! ## Skipping what can be read -/

theorem skipOpArgs_enc {op : Op} {v : ProtocolVersion} {y : (skipArgsLayout op v).fmt.Val} {bs : List UInt8}
    (h : (skipArgsLayout op v).fmt.Enc wireLimits y bs) (rest : List UInt8) :
    (skipOpArgs op v).run (bs ++ rest) = (.ok ((skipArgsLayout op v).of y), rest) := by
  rw [skipOpArgs_eq]
  exact (Layout.parse_ok_iff wirePrims_lawful).mpr ⟨y, bs, h, rfl, rfl⟩

theorem skipFramed_ok {b bs : List UInt8} (h : EncFramed wireLimits b bs) (rest : List UInt8) :
    skipFramed.run (bs ++ rest) = (.ok (UInt64.ofNat b.length), rest) := by
  rw [skipFramed_eq]
  exact Rd.map_ok_iff.mpr ⟨b, readFramed_ok_iff.mpr ⟨bs, h, rfl⟩, rfl⟩

/-- Skipping the tail of a pair keeps its head. -/
theorem skips_tail {L : Limits} {f g g' : Fmt} (hg : g.Skips g') {x : (Fmt.seq f g).Val} {bs : List UInt8}
    (h : (Fmt.seq f g).Enc L x bs) : ∃ y : (Fmt.seq f g').Val, (Fmt.seq f g').Enc L y bs ∧ y.1 = x.1 := by
  obtain ⟨b₁, b₂, h₁, h₂, rfl⟩ := h
  obtain ⟨y, hy⟩ := hg.enc h₂
  exact ⟨(x.1, y), ⟨b₁, b₂, h₁, hy, rfl⟩, rfl⟩

/-- What a skipped call's description says of it. -/
def Describes (call : OpCall) (argInfo : Option Str) : Prop := ∃ summary, argInfo = some summary ∧ ∀ t ∈ call.subject, summary = t

/-- The fixed arguments of an operation without framed data. -/
theorem skip_args {op : Op} {v : ProtocolVersion} (hframed : opHasClientFramedData op = false)
    {vs : (argsLayout op v).fmt.Val} {bs : List UInt8} {call : OpCall} (h : (argsLayout op v).fmt.Enc wireLimits vs bs)
    (hcall : (argsLayout op v).of vs = some call) : call.framedData = [] ∧
      ∃ y, (skipArgsLayout op v).fmt.Enc wireLimits y bs ∧ Describes call ((skipArgsLayout op v).of y) := by
  obtain ⟨y, hy⟩ := (skips_args hframed v).enc h
  cases op
  case addToStore => cases hframed
  case addMultipleToStore => cases hframed
  case addBuildLog => cases hframed
  case addToStoreNar => cases hframed
  case buildDerivation => cases hcall
  case addSignatures =>
    obtain ⟨y, hy, hpath⟩ := skips_tail skips_set h
    cases hcall
    refine ⟨rfl, y, hy, y.1, rfl, ?_⟩
    intro t ht
    cases ht
    exact hpath
  -- a single string is its own summary
  case isValidPath | queryReferrers | queryDeriver | queryDerivationOutputs | queryDerivationOutputNames |
      queryDerivationOutputMap | queryValidDerivers | queryPathInfo | ensurePath | addTempRoot | narFromPath |
      addIndirectRoot | queryPathFromHashPart | querySubstitutablePathInfo | registerDrvOutput | queryRealisation =>
    cases hcall
    refine ⟨rfl, vs, h, vs, rfl, ?_⟩
    intro t ht
    cases ht
    rfl
  -- the other summaries are counts, or empty
  all_goals
    cases hcall
    refine ⟨rfl, y, hy, _, rfl, ?_⟩
    intro t ht
    cases ht

/-- What can be read as a call can be skipped: the fixed arguments, then the framed data. -/
theorem skip_request {op : Op} {v : ProtocolVersion} {vs : (argsLayout op v).fmt.Val} {bs : List UInt8} {call : OpCall}
    (h : (argsLayout op v).fmt.Enc wireLimits vs bs) (hcall : (argsLayout op v).of vs = some call) (rest : List UInt8) :
    ∃ argInfo mid, (skipOpArgs op v).run (bs ++ rest) = (.ok argInfo, mid) ∧ Describes call argInfo ∧
      if opHasClientFramedData op then skipFramed.run mid = (.ok (UInt64.ofNat call.framedData.length), rest)
        else mid = rest ∧ call.framedData = [] := by
  cases hframed : opHasClientFramedData op with
  | false =>
    obtain ⟨hdata, y, hy, hinfo⟩ := skip_args hframed h hcall
    exact ⟨_, rest, skipOpArgs_enc hy rest, hinfo, rfl, hdata⟩
  | true =>
    -- the fixed arguments and the blob after them
    have hsplit : ∀ {y : (skipArgsLayout op v).fmt.Val} {b₁ b₂ : List UInt8}, (skipArgsLayout op v).fmt.Enc wireLimits y b₁ →
        Describes call ((skipArgsLayout op v).of y) → EncFramed wireLimits call.framedData b₂ → bs = b₁ ++ b₂ →
        ∃ argInfo mid, (skipOpArgs op v).run (bs ++ rest) = (.ok argInfo, mid) ∧ Describes call argInfo ∧
          skipFramed.run mid = (.ok (UInt64.ofNat call.framedData.length), rest) := by
      rintro y b₁ b₂ hy hinfo hdata rfl
      refine ⟨_, b₂ ++ rest, ?_, hinfo, skipFramed_ok hdata rest⟩
      rw [List.append_assoc]
      exact skipOpArgs_enc hy (b₂ ++ rest)
    cases op
    case addToStore =>
      cases vs with
      | none => cases hcall
      | some vs =>
        have hv : v ≥ .new 1 25 := by simpa using h.1
        obtain ⟨args, data⟩ := vs
        obtain ⟨b₁, b₂, h₁, h₂, rfl⟩ := h.2
        obtain ⟨y, hy, hname⟩ := skips_tail (.seq .str (.seq skips_set .flag)) h₁
        cases hcall
        rw [skipArgsLayout_addToStore hv] at hsplit
        refine hsplit hy ⟨y.1, rfl, ?_⟩ h₂ rfl
        intro t ht
        cases ht
        exact hname
    case addMultipleToStore =>
      obtain ⟨b₁, b₂, h₁, h₂, rfl⟩ := h
      obtain ⟨y, hy⟩ := (Fmt.Skips.seq .flag .flag).enc h₁
      cases hcall
      exact hsplit hy ⟨_, rfl, fun t ht => by cases ht⟩ h₂ rfl
    case addBuildLog =>
      obtain ⟨b₁, b₂, h₁, h₂, rfl⟩ := h
      cases hcall
      exact hsplit h₁ ⟨_, rfl, fun t ht => by cases ht; rfl⟩ h₂ rfl
    case addToStoreNar => cases hcall
    all_goals cases hframed

/-! ## Reading what can be skipped -/

/-- Skipping the fixed arguments, then the framed data, is skipping them as one format. -/
theorem skipRequest_ok {op : Op} {v : ProtocolVersion} {s rest : List UInt8} {p : Option Str × UInt64}
    (h : (skipRequest op v).run s = (.ok p, rest)) : ∃ y mid, ((skipArgsLayout op v).fmt.parse wirePrims).run s = (.ok y, mid) ∧
      if opHasClientFramedData op then skipFramed.run mid = (.ok p.2, rest) else mid = rest := by
  obtain ⟨argInfo, mid, hargs, h⟩ := Rd.bind_ok_iff.mp h
  obtain ⟨framedBytes, _, hframed, h⟩ := Rd.bind_ok_iff.mp h
  cases h
  rw [skipOpArgs_eq] at hargs
  obtain ⟨y, hy, _⟩ := Rd.map_ok_iff.mp hargs
  refine ⟨y, mid, hy, ?_⟩
  split at hframed
  · rename_i hop
    rw [if_pos hop]
    exact hframed
  · rename_i hop
    rw [if_neg hop]
    cases hframed
    rfl

/-- What can be skipped can be read up to an undecodable string, or is not parsed at all. -/
theorem read_request {op : Op} {v : ProtocolVersion} {s rest : List UInt8} {p : Option Str × UInt64}
    (hs : s.length ≤ 2 ^ 61) (h : (skipRequest op v).run s = (.ok p, rest)) :
    (readOpArgs op v).run s = (.ok none, s) ∨ ReadsOr .notUtf8 (readOpArgs op v) s rest := by
  have hroom : 3 * s.length ≤ wireLimits.room := by
    show 3 * s.length ≤ 2 ^ 63 - 1
    omega
  obtain ⟨y, mid, hy, hframed⟩ := skipRequest_ok h
  have hdense := dense_args op v
  rw [readOpArgs_eq]
  cases hop : opHasClientFramedData op with
  | false =>
    rw [if_neg (by simp [hop])] at hframed
    subst hframed
    exact Or.inr ((skips_parse wirePrims_lawful (skips_args hop v) hdense hroom hy).map _)
  | true =>
    rw [if_pos hop] at hframed
    have hblob : ((Fmt.seq (skipArgsLayout op v).fmt .blob).parse wirePrims).run s = (.ok (y, p.2), rest) :=
      Rd.bind_ok_iff.mpr ⟨y, mid, hy, Rd.bind_ok_iff.mpr ⟨p.2, rest, hframed, rfl⟩⟩
    have hread : ∀ {f : Fmt}, f.Skips (skipArgsLayout op v).fmt → (Fmt.seq f .framed).Dense 3 →
        ReadsOr .notUtf8 ((Fmt.seq f .framed).parse wirePrims) s rest :=
      fun hf hd => skips_parse wirePrims_lawful (.seq hf .framed) hd hroom hblob
    cases op
    case addToStore =>
      by_cases hv : v ≥ .new 1 25
      · have hf : (Fmt.seq .str (.seq .str (.seq setFmt .flag))).Skips (skipArgsLayout .addToStore v).fmt := by
          rw [skipArgsLayout_addToStore hv]
          exact .seq (.refl _) (.seq .str (.seq skips_set .flag))
        have hgate := (hread hf hdense).map some
        refine Or.inr (ReadsOr.map ?_ _)
        simp only [argsLayout, parse_gate, decide_eq_true hv, if_true]
        exact hgate
      · refine Or.inl ?_
        simp only [argsLayout, Layout.parse, parse_gate, decide_eq_false hv]
        rfl
    case addMultipleToStore => exact Or.inr ((hread (.seq .flag .flag) hdense).map _)
    case addBuildLog => exact Or.inr ((hread (.refl _) hdense).map _)
    case addToStoreNar => exact Or.inl rfl
    all_goals cases hop

/-! ## From memory -/

theorem skipRequest_rel {R : Type} [BufRead R] {ρ : R → List UInt8 → Prop} (m : Mirrors ρ) (op : Op) (v : ProtocolVersion) :
    Rel ρ (skipRequest op v) (skipRequest op v) :=
  (skipOpArgs_rel m op v).bind fun _ => (Rel.ite (fmt_rel m .blob) (Rel.pure 0)).bind fun _ => Rel.pure _

/-- Reading and skipping a request agree at every version, on every byte string (of at
    most 2^61 bytes for the second half; the largest address space has 2^57). -/
theorem read_skip_request_agree (op : Op) (v : ProtocolVersion) (clientBytes : List UInt8) :
    (∀ call m, (readOpArgs op v).run (MemReader.new clientBytes) = (.ok (some call), m) →
      ∃ summary framedBytes, (skipRequest op v).run (MemReader.new clientBytes) = (.ok (some summary, framedBytes), m) ∧
        framedBytes = UInt64.ofNat call.framedData.length ∧ ∀ t ∈ call.subject, summary = t) ∧
    (clientBytes.length ≤ 2 ^ 61 → ∀ p m, (skipRequest op v).run (MemReader.new clientBytes) = (.ok p, m) →
      (∃ m', (readOpArgs op v).run (MemReader.new clientBytes) = (.ok none, m')) ∨
      (∃ call, (readOpArgs op v).run (MemReader.new clientBytes) = (.ok (some call), m)) ∨
      ∃ m', (readOpArgs op v).run (MemReader.new clientBytes) = (.stop (.err .notUtf8), m')) := by
  have hmirrors : Mirrors (MemReader.Left clientBytes) := MemReader.mirrors
  have hread := readOpArgs_rel hmirrors op v
  have hskip := skipRequest_rel hmirrors op v
  constructor
  · intro call m h
    obtain ⟨s, hs, hm⟩ := (mem_run_iff hread).mp h
    obtain ⟨vs, bs, hbs, hcall, hdata⟩ := readOpArgs_ok_iff.mp hs
    obtain ⟨_, mid, hargs, ⟨summary, rfl, hsummary⟩, hframed⟩ := skip_request hbs hcall s
    refine ⟨summary, _, (mem_run_iff hskip).mpr ⟨s, ?_, hm⟩, rfl, hsummary⟩
    rw [hdata, skipRequest, Rd.bind_ok hargs]
    cases hop : opHasClientFramedData op with
    | true =>
      rw [hop, if_pos rfl] at hframed
      rw [if_pos rfl, Rd.bind_ok hframed]
      rfl
    | false =>
      rw [hop, if_neg (by decide)] at hframed
      rw [if_neg (by decide), hframed.1, hframed.2]
      rfl
  · intro hmem p m h
    obtain ⟨s, hs, hm⟩ := (mem_run_iff hskip).mp h
    rcases read_request hmem hs with hnone | ⟨call, hcall⟩ | ⟨s', herr⟩
    · obtain ⟨m', hm', _⟩ := hread.run (MemReader.left_new clientBytes) hnone
      exact Or.inl ⟨m', hm'⟩
    · have hok := (mem_run_iff hread).mpr ⟨s, hcall, hm⟩
      cases call with
      | none => exact Or.inl ⟨m, hok⟩
      | some call => exact Or.inr (Or.inl ⟨call, hok⟩)
    · obtain ⟨m', hm', _⟩ := hread.run (MemReader.left_new clientBytes) herr
      exact Or.inr (Or.inr ⟨m', hm'⟩)

/-- A build log of five bytes, in two chunks. -/
theorem read_skip_request_agree_log :
    let clientBytes := writeString "x.drv".toList ++
      (wordBytes 3 ++ [1, 2, 3] ++ wordBytes 2 ++ [4, 5] ++ wordBytes 0) ++ wordBytes 29
    ∃ summary, (skipRequest .addBuildLog (.new 1 37)).run (MemReader.new clientBytes) =
      (.ok (some summary, 5), ⟨clientBytes, 45⟩) ∧ summary = "x.drv".toList := by
  intro clientBytes
  obtain ⟨summary, framedBytes, hrun, hcount, hsummary⟩ := (read_skip_request_agree .addBuildLog (.new 1 37) clientBytes).1
    (.addBuildLog "x.drv".toList (.inline [1, 2, 3, 4, 5])) ⟨clientBytes, 45⟩ (by decide)
  refine ⟨summary, ?_, hsummary _ rfl⟩
  rw [hrun, hcount]
  rfl

end NixWire
