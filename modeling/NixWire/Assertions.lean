/-
  NixWire.Assertions — response comments turned into expects.

  The comments of an unpacked script report what the daemon answered; `asExpect` writes
  such a line as an expect. What is reported is printed by the formatter and compared by
  the evaluator, each in its own way: which lines pass against the same response depends on
  the value's kind (`comments_hold`).
-/

import NixWire.Decompile
import NixWire.Expect
import NixWire.Values

namespace NixWire

open Base

/-! ## A comment as an expect -/

/-- `expect:` for `# response:`, `expect KEY:` for `# KEY:`. -/
def asExpect (line : Str) : Option Str :=
  let indent := line.takeWhile isWhitespace
  let comment := trimStart line
  match stripPrefix "# response:".toList comment with
  | some rest => some (indent ++ "expect:".toList ++ rest)
  | none => do
    let rest ← stripPrefix "# ".toList comment
    let (key, value) ← splitOnce [':'] rest
    return indent ++ "expect ".toList ++ key ++ [':'] ++ value

/-- The comment, as an expect, is accepted and passes. -/
def accepted (line : Str) (passes : Expect → Bool) : Bool :=
  match (asExpect line).map fun expectLine => parseExpect (trim expectLine) with
  | some (.ok e) => passes e
  | _ => false

section

variable (isMatch : Str → Str → Bool)

def holdsAsExpect (resp : DaemonResponse) (line : Str) : Bool :=
  accepted line fun e => (evaluateExpects isMatch [e] resp).all (·.passed)

def holdsAsHandshakeExpect (debug : Expect → Str) (info : HandshakeInfo) (line : Str) : Bool :=
  accepted line fun e => (evaluateHandshakeExpects isMatch debug [e] info).all (·.passed)

end

/-! ## What is reported -/

/-- How a reported value is compared. -/
inductive Compared where
  /-- With the terminal code, trimmed. -/
  | terminal
  /-- Printed and compared alike, and no matcher but its own text. -/
  | alike
  /-- With the text it was printed from, through whatever matcher the text spells. -/
  | text
  /-- Printed in another form than it is compared in, or never compared. -/
  | otherwise
  deriving DecidableEq, Repr

structure ReportedValue where
  key : Str
  value : Str
  compared : Compared
  deriving DecidableEq, Repr

def ReportedValue.comment (r : ReportedValue) : Str := "# ".toList ++ r.key ++ ": ".toList ++ r.value

/-- A field of a result. -/
def resultField (field : String) : Str := "result.".toList ++ field.toList

def PathInfoResult.reported (info : PathInfoResult) : List ReportedValue :=
  [⟨resultField "valid", formatFlag info.valid, .alike⟩]
    ++ (match info.deriver with
      | some d => if d.isEmpty then [] else [⟨resultField "deriver", d, .text⟩]
      | none => [])
    ++ (info.narHash.map fun h => ⟨resultField "narHash", h, .text⟩).toList
    ++ (info.references.map fun refs => ⟨resultField "references", formatPathSet refs, .otherwise⟩).toList
    ++ (info.narSize.map fun ns => ⟨resultField "narSize", formatU64 ns, .alike⟩).toList

def ResultData.reported : ResultData → List ReportedValue
  | u64 v => [⟨"result".toList, formatU64 v, .alike⟩]
  | str s => [⟨"result".toList, s, .text⟩]
  | pathInfo info => info.reported
  | stringSet set => [⟨"result".toList, formatPathSet set, .otherwise⟩]
  | stringMap pairs =>
    [⟨resultField "count", decimal pairs.length, .otherwise⟩]
      ++ (pairs.take 5).map fun kv =>
        ⟨"result".toList, "\"".toList ++ kv.1 ++ "\" = \"".toList ++ kv.2 ++ "\"".toList, .otherwise⟩
  | none => []
  | collectGarbage bytesFreed => [⟨resultField "bytes_freed", formatU64 bytesFreed, .alike⟩]
  | substitutablePathInfo valid deriver _ downloadSize narSize =>
    [⟨resultField "valid", formatFlag valid, .alike⟩]
      ++ (deriver.map fun d => ⟨resultField "deriver", d, .otherwise⟩).toList
      ++ (downloadSize.map fun ds => ⟨resultField "downloadSize", formatU64 ds, .alike⟩).toList
      ++ (narSize.map fun ns => ⟨resultField "narSize", formatU64 ns, .alike⟩).toList
  | missing willBuild willSubstitute unknown downloadSize narSize =>
    [⟨resultField "willBuild", formatPathSet willBuild, .otherwise⟩,
      ⟨resultField "willSubstitute", formatPathSet willSubstitute, .otherwise⟩,
      ⟨resultField "unknown", formatPathSet unknown, .otherwise⟩,
      ⟨resultField "downloadSize", formatU64 downloadSize, .alike⟩,
      ⟨resultField "narSize", formatU64 narSize, .alike⟩]
  | framed data => [⟨"result".toList, "framed ".toList ++ decimal data.length ++ " bytes".toList, .otherwise⟩]
  | raw data => [⟨"result".toList, "raw ".toList ++ decimal data.length ++ " bytes".toList, .otherwise⟩]

def DaemonResponse.reported (resp : DaemonResponse) : List ReportedValue :=
  [⟨"response".toList, resp.terminal, .terminal⟩]
    ++ (if resp.stderrCount > 1 then [⟨"stderr.count".toList, formatU64 resp.stderrCount, .alike⟩] else [])
    ++ (resp.error.map fun err => ⟨"error".toList, err.message, .text⟩).toList
    ++ (resp.result.map ResultData.reported).getD []

/-- How many pairs of a map are not listed. -/
def ResultData.unlisted : ResultData → List Str
  | stringMap pairs => if pairs.length > 5 then ["  # ... and ".toList ++ decimal (pairs.length - 5) ++ " more".toList] else []
  | _ => []

/-- The preamble of an unpacked script. -/
def HandshakeInfo.reported (info : HandshakeInfo) : List ReportedValue :=
  (info.daemonNixVersion.map fun ver => ⟨"daemon".toList, ver, .text⟩).toList
    ++ (info.trustStatus.map fun t => ⟨"trust".toList, trustName t, .alike⟩).toList
    ++ [⟨"server_features".toList, formatPathSet info.serverFeatures,
      if info.serverFeatures.isEmpty then .otherwise else .alike⟩]

/-- A value that is there or not, and its line. -/
theorem optional_reported {α : Type} (o : Option α) {line : α → Str} {f : α → ReportedValue}
    (h : ∀ a, line a = "  ".toList ++ (f a).comment) :
    (o.map line).toList = (o.map f).toList.map fun r => "  ".toList ++ r.comment := by
  cases o with
  | none => rfl
  | some a => exact congrArg (fun l => [l]) (h a)

theorem formatPathInfoComment_reported (info : PathInfoResult) :
    formatPathInfoComment info = info.reported.map fun r => "  ".toList ++ r.comment := by
  obtain ⟨valid, deriver, narHash, references, -, narSize, -, -, -⟩ := info
  unfold formatPathInfoComment PathInfoResult.reported
  rw [List.map_append, List.map_append, List.map_append, List.map_append]
  refine congrArg₂ _ (congrArg₂ _ (congrArg₂ _ (congrArg₂ _ rfl ?_) ?_) ?_) ?_
  · cases deriver with
    | none => rfl
    | some d => cases d <;> rfl
  · exact optional_reported narHash fun _ => rfl
  · exact optional_reported references fun _ => rfl
  · exact optional_reported narSize fun _ => rfl

theorem formatResultComment_reported (result : ResultData) :
    formatResultComment result = result.reported.map (fun r => "  ".toList ++ r.comment) ++ result.unlisted := by
  cases result with
  | pathInfo info => exact (formatPathInfoComment_reported info).trans (List.append_nil _).symm
  | stringMap pairs =>
    simp only [formatResultComment, ResultData.reported, ResultData.unlisted, List.map_append, List.map_map]
    rfl
  | substitutablePathInfo valid deriver refs downloadSize narSize =>
    unfold formatResultComment ResultData.reported ResultData.unlisted
    simp only
    rw [List.append_nil, List.map_append, List.map_append, List.map_append]
    refine congrArg₂ _ (congrArg₂ _ (congrArg₂ _ rfl ?_) ?_) ?_
    · exact optional_reported deriver fun _ => rfl
    · exact optional_reported downloadSize fun _ => rfl
    · exact optional_reported narSize fun _ => rfl
  | _ => rfl

theorem formatResponseComment_reported (resp : DaemonResponse) : formatResponseComment resp =
    resp.reported.map (fun r => "  ".toList ++ r.comment) ++ (resp.result.map ResultData.unlisted).getD [] := by
  obtain ⟨terminal, count, result, error⟩ := resp
  have hcount : (if count > 1 then ["  # stderr.count: ".toList ++ formatU64 count] else []) =
      (if count > 1 then [⟨"stderr.count".toList, formatU64 count, .alike⟩] else [] : List ReportedValue).map
        fun r => "  ".toList ++ r.comment := by
    split <;> rfl
  have hresult : (result.map formatResultComment).getD [] =
      ((result.map ResultData.reported).getD []).map (fun r => "  ".toList ++ r.comment) ++
        (result.map ResultData.unlisted).getD [] := by
    cases result with
    | none => rfl
    | some result => exact formatResultComment_reported result
  simp only [formatResponseComment, DaemonResponse.reported, List.map_append, hcount, hresult, List.append_assoc]
  cases error <;> rfl

theorem formatPreamble_reported (info : HandshakeInfo) : formatPreamble (preambleOf info) =
    ["# nwscript v1".toList, "protocol: ".toList ++ info.negotiatedVersion.display,
      "features: ".toList ++ formatPathSet info.clientFeatures] ++ info.reported.map ReportedValue.comment ++ ["---".toList] := by
  obtain ⟨-, -, negotiatedVersion, clientFeatures, serverFeatures, daemonNixVersion, trustStatus⟩ := info
  cases daemonNixVersion <;> cases trustStatus <;> rfl

/-! ## A line as it is parsed -/

/-- The text before the colon is the key. -/
theorem splitOnce_key {key value : Str} (hkey : ':' ∉ key) :
    splitOnce [':'] (key ++ ": ".toList ++ value) = some (key, ' ' :: value) := by
  have hsplit : key ++ ": ".toList ++ value = key ++ ':' :: ' ' :: value := by simp
  rw [hsplit, splitOnce_char hkey]

section

variable {indent key value : Str} (hindent : ∀ c ∈ indent, isWhitespace c = true)

include hindent

theorem asExpect_response : asExpect (indent ++ ("# response: ".toList ++ value)) =
    some (indent ++ "expect:".toList ++ ' ' :: value) := by
  have htake : (indent ++ ("# response: ".toList ++ value)).takeWhile isWhitespace = indent := by
    rw [List.takeWhile_append_of_pos hindent]
    exact List.append_nil _
  have htrim : trimStart (indent ++ ("# response: ".toList ++ value)) = "# response:".toList ++ ' ' :: value := by
    rw [trimStart, List.dropWhile_append_of_pos hindent]
    rfl
  simp only [asExpect, htake, htrim, stripPrefix_append]

theorem asExpect_key (hkey : ':' ∉ key) (hother : key ≠ "response".toList) :
    asExpect (indent ++ ("# ".toList ++ key ++ ": ".toList ++ value)) =
      some (indent ++ "expect ".toList ++ key ++ [':'] ++ ' ' :: value) := by
  have hline : indent ++ ("# ".toList ++ key ++ ": ".toList ++ value) =
      indent ++ '#' :: ' ' :: (key ++ ": ".toList ++ value) := by simp
  have htake : (indent ++ '#' :: ' ' :: (key ++ ": ".toList ++ value)).takeWhile isWhitespace = indent := by
    rw [List.takeWhile_append_of_pos hindent]
    exact List.append_nil _
  have htrim : trimStart (indent ++ '#' :: ' ' :: (key ++ ": ".toList ++ value)) =
      "# ".toList ++ (key ++ ": ".toList ++ value) := by
    rw [trimStart, List.dropWhile_append_of_pos hindent]
    rfl
  have hnot : stripPrefix "# response:".toList ("# ".toList ++ (key ++ ": ".toList ++ value)) = none := by
    refine stripPrefix_not fun hprefix => hother ?_
    obtain ⟨rest, hrest⟩ := List.isPrefixOf_iff_prefix.mp hprefix
    have happend : "# ".toList ++ ("response".toList ++ ':' :: rest) = "# ".toList ++ (key ++ ": ".toList ++ value) := by
      rw [← hrest]
      simp
    have hcut := List.append_cancel_left happend
    have hsplit := congrArg (splitOnce [':']) hcut
    rw [splitOnce_char (by decide), splitOnce_key hkey] at hsplit
    cases hsplit
    rfl
  simp only [hline, asExpect, htake, htrim, hnot, stripPrefix_append, Option.bind_eq_bind, Option.bind_some,
    splitOnce_key hkey, Option.pure_def]

theorem trim_indent (s : Str) : trim (indent ++ s) = trim s := by
  rw [trim, trim, trimStart, List.dropWhile_append_of_pos hindent]
  rfl

/-- A comment with a key, read as an expect. -/
theorem accepted_key {mk : Matcher → Expect} (hkey : ':' ∉ key) (hother : key ≠ "response".toList)
    (hparse : ∀ u, trimEnd u = u → parseExpect ("expect ".toList ++ key ++ [':'] ++ u) = mk <$> parseMatcher (trim u))
    (passes : Expect → Bool) : accepted (indent ++ ("# ".toList ++ key ++ ": ".toList ++ value)) passes =
      ((parseMatcher (trim value)).toOption.map fun m => passes (mk m)).getD false := by
  have htight : Tight ("expect ".toList ++ key ++ [':']) :=
    tight_append (by simp [isWhitespace]) (by simp) (by simp [isWhitespace]) (List.cons_ne_nil _ _)
  have hend : trimEnd (trimEnd (' ' :: value)) = trimEnd (' ' :: value) := List.rdropWhile_idempotent _ _
  have hline : indent ++ "expect ".toList ++ key ++ [':'] ++ ' ' :: value =
      indent ++ (("expect ".toList ++ key ++ [':']) ++ ' ' :: value) := by simp
  have hexpect : parseExpect (trim (indent ++ "expect ".toList ++ key ++ [':'] ++ ' ' :: value)) =
      mk <$> parseMatcher (trim value) := by
    rw [hline, trim_indent hindent, trim_append htight (by simp), hparse _ hend, trim_trimEnd, trim_cons rfl]
  rw [accepted, asExpect_key hindent hkey hother, Option.map_some, hexpect]
  cases parseMatcher (trim value) <;> rfl

theorem accepted_response (passes : Expect → Bool) :
    accepted (indent ++ ("# response: ".toList ++ value)) passes = passes (.terminal (trim value)) := by
  have hend : trimEnd (trimEnd (' ' :: value)) = trimEnd (' ' :: value) := List.rdropWhile_idempotent _ _
  have hexpect : parseExpect (trim (indent ++ "expect:".toList ++ ' ' :: value)) = .ok (.terminal (trim value)) := by
    rw [List.append_assoc, trim_indent hindent, trim_append (by decide) (by decide), parseExpect_terminal hend, trim_trimEnd,
      trim_cons rfl]
  rw [accepted, asExpect_response hindent, Option.map_some, hexpect]

end

/-! ## What a matcher makes of a printed value -/

section

variable (isMatch : Str → Str → Bool)

/-- Whether what is printed, read as a matcher, accepts a value. -/
def accepts (printed value : Str) : Bool :=
  ((parseMatcher (trim printed)).toOption.map fun m => matchesValue isMatch m value).getD false

/-- `/pattern/`. -/
abbrev Slashed (s : Str) : Prop := s.head? = some '/' ∧ s.getLast? = some '/' ∧ s.length > 1

/-- A text passes against itself as a regular expression that matches it, or when it is
    neither a comparison nor changed by trimming. -/
def TextHolds (text : Str) : Prop :=
  let t := trim text
  if Slashed t then isMatch (inner t) text = true
  else t = text ∧ t.head? ≠ some '>' ∧ t.head? ≠ some '<'

instance (text : Str) : Decidable (TextHolds isMatch text) := by
  unfold TextHolds
  infer_instance

theorem parseI64_chars {s : Str} {n : Int} (h : parseI64 s = some n) : ∀ c ∈ s, c.isDigit = true ∨ c = '+' ∨ c = '-' := by
  have hdigits {t : Str} {m : Nat} (ht : parseDigits t = some m) : ∀ c ∈ t, c.isDigit = true := by
    unfold parseDigits at ht
    split at ht
    · cases ht
    · rename_i hall
      simp only [Bool.or_eq_true, Bool.not_eq_true', not_or, Bool.not_eq_false] at hall
      exact List.all_eq_true.mp hall.2
  intro c hc
  unfold parseI64 at h
  split at h
  · obtain ⟨m, hm, -⟩ := Option.map_eq_some_iff.mp h
    rcases List.mem_cons.mp hc with rfl | hc
    · exact Or.inr (Or.inr rfl)
    · exact Or.inl (hdigits (Option.filter_eq_some_iff.mp hm).1 c hc)
  · obtain ⟨m, hm, -⟩ := Option.map_eq_some_iff.mp h
    have hunsigned := (Option.filter_eq_some_iff.mp hm).1
    unfold parseUnsigned at hunsigned
    split at hunsigned
    · rcases List.mem_cons.mp hc with rfl | hc
      · exact Or.inr (Or.inl rfl)
      · exact Or.inl (hdigits hunsigned c hc)
    · exact Or.inl (hdigits hunsigned c hc)

theorem stripPrefix_head {c : Char} {p s : Str} (h : s.head? ≠ some c) : stripPrefix (c :: p) s = none := by
  refine stripPrefix_not fun hprefix => h ?_
  obtain ⟨t, rfl⟩ := List.isPrefixOf_iff_prefix.mp hprefix
  rfl

theorem parseMatcher_exact {s : Str} (hslash : ¬Slashed s) (hgt : s.head? ≠ some '>') (hlt : s.head? ≠ some '<') :
    parseMatcher s = .ok (.exact s) := by
  have hge : stripPrefix ">=".toList s = none := stripPrefix_head hgt
  have hle : stripPrefix "<=".toList s = none := stripPrefix_head hlt
  have hgt' : stripPrefix ">".toList s = none := stripPrefix_head hgt
  have hlt' : stripPrefix "<".toList s = none := stripPrefix_head hlt
  unfold parseMatcher
  simp only [if_neg hslash, hge, hle, hgt', hlt']

/-- A comparison accepts numbers only. -/
theorem parseMatcher_comparison {isMatch : Str → Str → Bool} {s value : Str} {m : Matcher}
    (hhead : s.head? = some '>' ∨ s.head? = some '<') (hvalue : parseI64 value = none) (h : parseMatcher s = .ok m) :
    matchesValue isMatch m value = false := by
  have hslash : ¬Slashed s := by
    intro hslash
    rcases hhead with hhead | hhead <;> rw [hslash.1] at hhead <;> cases hhead
  have hbound {comparison : String} {rest : Str} {compare : Int → Matcher} (hm : compare <$> parseBound comparison rest = .ok m)
      (hcompare : ∀ n, matchesValue isMatch (compare n) value = false) : matchesValue isMatch m value = false := by
    cases hb : parseBound comparison rest with
    | error e =>
      rw [hb] at hm
      cases hm
    | ok n =>
      rw [hb] at hm
      cases hm
      exact hcompare n
  unfold parseMatcher at h
  rw [if_neg hslash] at h
  split at h
  · exact hbound h fun n => by simp [matchesValue, hvalue]
  split at h
  · exact hbound h fun n => by simp [matchesValue, hvalue]
  split at h
  · exact hbound h fun n => by simp [matchesValue, hvalue]
  split at h
  · exact hbound h fun n => by simp [matchesValue, hvalue]
  · -- one of the two prefixes is there
    rename_i hgt hlt
    cases s with
    | nil => rcases hhead with hhead | hhead <;> cases hhead
    | cons c s => rcases hhead with hhead | hhead <;> cases hhead <;> contradiction

variable {isMatch}

theorem accepts_ok {printed : Str} {m : Matcher} (h : parseMatcher (trim printed) = .ok m) (value : Str) :
    accepts isMatch printed value = matchesValue isMatch m value := by
  rw [accepts, h]
  rfl

theorem accepts_error {printed : Str} {e : ParseError} (h : parseMatcher (trim printed) = .error e) (value : Str) :
    accepts isMatch printed value = false := by
  rw [accepts, h]
  rfl

theorem accepts_self (text : Str) : accepts isMatch text text = true ↔ TextHolds isMatch text := by
  unfold TextHolds
  by_cases hslash : Slashed (trim text)
  · have hregex : parseMatcher (trim text) = .ok (.regex (inner (trim text))) := by
      unfold parseMatcher
      rw [if_pos hslash]
    rw [if_pos hslash, accepts_ok hregex, matchesValue]
  · rw [if_neg hslash]
    by_cases hhead : (trim text).head? = some '>' ∨ (trim text).head? = some '<'
    · have hvalue : parseI64 text = none := by
        cases hn : parseI64 text with
        | none => rfl
        | some n =>
          rcases hhead with hhead | hhead
          · exact absurd (parseI64_chars hn _ (mem_of_mem_trim (List.mem_of_mem_head? hhead))) (by decide)
          · exact absurd (parseI64_chars hn _ (mem_of_mem_trim (List.mem_of_mem_head? hhead))) (by decide)
      have hfalse : accepts isMatch text text = false := by
        cases hm : parseMatcher (trim text) with
        | error e => exact accepts_error hm text
        | ok m => rw [accepts_ok hm, parseMatcher_comparison hhead hvalue hm]
      refine iff_of_false (by simp [hfalse]) fun h => ?_
      rcases hhead with hhead | hhead
      · exact h.2.1 hhead
      · exact h.2.2 hhead
    · rw [not_or] at hhead
      rw [accepts_ok (parseMatcher_exact hslash hhead.1 hhead.2), matchesValue, beq_iff_eq]
      constructor
      · exact fun h => ⟨h.symm, hhead⟩
      · exact fun h => h.1.symm

/-- A text that spells no matcher accepts itself only. -/
theorem accepts_plain {printed : Str} (htight : Tight printed) (hhead : ∀ c ∈ ['/', '>', '<'], printed.head? ≠ some c)
    (value : Str) : accepts isMatch printed value = (value == printed) := by
  have hslash : ¬Slashed printed := fun h => hhead '/' (by simp) h.1
  have hexact := parseMatcher_exact hslash (hhead '>' (by simp)) (hhead '<' (by simp))
  have htrim : parseMatcher (trim printed) = .ok (.exact printed) := by rw [trim_tight htight, hexact]
  rw [accepts_ok htrim, matchesValue]

theorem accepts_number (n : Nat) : accepts isMatch (decimal n) (decimal n) = true := by
  have hhead : ∀ c ∈ ['/', '>', '<'], (decimal n).head? ≠ some c := by
    intro c hc hhead
    have hdigit := isDigit_decimal (List.mem_of_mem_head? hhead)
    revert c
    simp
  rw [accepts_plain (decimal_printable n).tight hhead, beq_self_eq_true]

theorem accepts_braced {printed : Str} (htight : Tight printed) (hhead : printed.head? = some '{') (value : Str) :
    accepts isMatch printed value = (value == printed) := by
  refine accepts_plain htight ?_ value
  rw [hhead]
  simp

variable (isMatch)

/-- The reported value passes against itself, as an expect. -/
def ReportedValue.Holds (r : ReportedValue) : Prop :=
  match r.compared with
  | .terminal => trim r.value = r.value
  | .alike => True
  | .text => TextHolds isMatch r.value
  | .otherwise => False

/-- The printed value accepts what the response gives for it exactly when it holds. -/
def ReportedValue.Judged (r : ReportedValue) (extracted : Option Str) : Prop :=
  (extracted.map (accepts isMatch r.value)).getD false = true ↔ r.Holds isMatch

variable {isMatch}

theorem judged_number (key : Str) (n : Nat) : ReportedValue.Judged isMatch ⟨key, decimal n, .alike⟩ (some (decimal n)) :=
  iff_of_true (accepts_number n) trivial

theorem judged_flag (key : Str) (b : Bool) :
    ReportedValue.Judged isMatch ⟨key, formatFlag b, .alike⟩ (some (decimal b.toNat)) := by
  cases b
  · exact judged_number key 0
  · exact judged_number key 1

theorem judged_text (key text : Str) : ReportedValue.Judged isMatch ⟨key, text, .text⟩ (some text) := accepts_self text

theorem judged_absent (key value : Str) : ReportedValue.Judged isMatch ⟨key, value, .otherwise⟩ none := by
  simp [ReportedValue.Judged, ReportedValue.Holds]

theorem formatPathSet_braces (items : List Str) : Tight (formatPathSet items) ∧ (formatPathSet items).head? = some '{' := by
  rw [formatPathSet_eq]
  refine ⟨tight_append (by simp [isWhitespace]) (List.cons_ne_nil _ _) (by simp [isWhitespace]) (List.cons_ne_nil _ _), ?_⟩
  rfl

/-- A set is printed in braces and compared in brackets. -/
theorem judged_set (key : Str) (items : List Str) :
    ReportedValue.Judged isMatch ⟨key, formatPathSet items, .otherwise⟩ (some (bracketedSet items)) := by
  obtain ⟨htight, hhead⟩ := formatPathSet_braces items
  have hne : bracketedSet items ≠ formatPathSet items := by
    intro heq
    rw [← heq] at hhead
    cases hhead
  refine iff_of_false ?_ id
  show ¬accepts isMatch (formatPathSet items) (bracketedSet items) = true
  rw [accepts_braced htight hhead, beq_iff_eq]
  exact hne

section

variable {resp : DaemonResponse} {value : Str} {compared : Compared}

/-- An expect of a result is judged by what the result gives for it. -/
theorem evaluate_result (field : Option Str) (value : Str) :
    ((parseMatcher (trim value)).toOption.map fun m =>
      (evaluateExpects isMatch [.result field m] resp).all (·.passed)).getD false =
    ((resp.result.bind fun result => extractResultValue result field).map (accepts isMatch value)).getD false := by
  unfold accepts
  cases parseMatcher (trim value) with
  | error e => cases resp.result.bind fun result => extractResultValue result field <;> rfl
  | ok m =>
    simp only [evaluateExpects, List.map_cons, List.map_nil, List.all_cons, List.all_nil, Bool.and_true, evaluateExpect,
      Except.toOption, Option.map_some, Option.getD_some]
    cases resp.result.bind fun result => extractResultValue result field <;> rfl

theorem indent_blank : ∀ c ∈ "  ".toList, isWhitespace c = true :=
  have hall : "  ".toList.all isWhitespace = true := by decide
  List.all_eq_true.mp hall

theorem holds_result (h : ReportedValue.Judged isMatch ⟨"result".toList, value, compared⟩
    (resp.result.bind fun result => extractResultValue result none)) :
    holdsAsExpect isMatch resp ("  ".toList ++ ReportedValue.comment ⟨"result".toList, value, compared⟩) = true ↔
      ReportedValue.Holds isMatch ⟨"result".toList, value, compared⟩ := by
  have hline := @accepted_key _ "result".toList value indent_blank (.result none) (by decide) (by decide)
    (fun u hu => parseExpect_whole hu) fun e => (evaluateExpects isMatch [e] resp).all (·.passed)
  show accepted ("  ".toList ++ ("# ".toList ++ "result".toList ++ ": ".toList ++ value)) _ = true ↔ _
  rw [hline, evaluate_result]
  exact h

theorem holds_field {field : String} (htight : Tight field.toList) (hcolon : ':' ∉ field.toList)
    (h : ReportedValue.Judged isMatch ⟨resultField field, value, compared⟩
      (resp.result.bind fun result => extractResultValue result (some field.toList))) :
    holdsAsExpect isMatch resp ("  ".toList ++ ReportedValue.comment ⟨resultField field, value, compared⟩) = true ↔
      ReportedValue.Holds isMatch ⟨resultField field, value, compared⟩ := by
  have hresult : ':' ∉ "result.".toList := by decide
  have hkey : ':' ∉ resultField field := fun hc => (List.mem_append.mp hc).elim hresult hcolon
  have hother : resultField field ≠ "response".toList := by
    intro heq
    have hprefix : "result.".toList <+: "response".toList := ⟨field.toList, heq⟩
    exact absurd hprefix (by decide)
  have hparse (u : Str) (hu : trimEnd u = u) : parseExpect ("expect ".toList ++ resultField field ++ [':'] ++ u) =
      .result (some field.toList) <$> parseMatcher (trim u) := parseExpect_field hu htight hcolon
  have hline := @accepted_key _ (resultField field) value indent_blank _ hkey hother hparse
    fun e => (evaluateExpects isMatch [e] resp).all (·.passed)
  show accepted ("  ".toList ++ ("# ".toList ++ resultField field ++ ": ".toList ++ value)) _ = true ↔ _
  rw [hline, evaluate_result]
  exact h

theorem pathInfo_holds {info : PathInfoResult} (hresult : resp.result = some (.pathInfo info)) :
    ∀ r ∈ info.reported, (holdsAsExpect isMatch resp ("  ".toList ++ r.comment) = true ↔ r.Holds isMatch) := by
  intro r hr
  have hjudged {r : ReportedValue} {field : Option Str} (h : r.Judged isMatch (extractResultValue (.pathInfo info) field)) :
      r.Judged isMatch (resp.result.bind fun result => extractResultValue result field) := by
    rw [hresult]
    exact h
  have hfield {field : String} {compared : Compared} {value : Str} (htight : Tight field.toList) (hcolon : ':' ∉ field.toList)
      (h : ReportedValue.Judged isMatch ⟨resultField field, value, compared⟩
        (extractResultValue (.pathInfo info) (some field.toList))) :=
    holds_field htight hcolon (hjudged h)
  simp only [PathInfoResult.reported, List.mem_append, List.mem_singleton, Option.mem_toList, Option.map_eq_some_iff] at hr
  rcases hr with (((rfl | hr) | ⟨hash, hhash, rfl⟩) | ⟨refs, hrefs, rfl⟩) | ⟨size, hsize, rfl⟩
  · exact hfield (by decide) (by decide) (judged_flag _ _)
  · cases hderiver : info.deriver with
    | none =>
      rw [hderiver] at hr
      cases hr
    | some d =>
      rw [hderiver] at hr
      simp only at hr
      split at hr
      · cases hr
      · rw [List.mem_singleton.mp hr]
        refine hfield (by decide) (by decide) ?_
        show ReportedValue.Judged _ _ info.deriver
        rw [hderiver]
        exact judged_text _ d
  · refine hfield (by decide) (by decide) ?_
    show ReportedValue.Judged _ _ info.narHash
    rw [hhash]
    exact judged_text _ hash
  · refine hfield (by decide) (by decide) ?_
    show ReportedValue.Judged _ _ (info.references.map bracketedSet)
    rw [hrefs]
    exact judged_set _ refs
  · refine hfield (by decide) (by decide) ?_
    show ReportedValue.Judged _ _ (info.narSize.map fun n => decimal n.toNat)
    rw [hsize]
    exact judged_number _ _

theorem result_holds {result : ResultData} (hresult : resp.result = some result) :
    ∀ r ∈ result.reported, (holdsAsExpect isMatch resp ("  ".toList ++ r.comment) = true ↔ r.Holds isMatch) := by
  have hjudged {r : ReportedValue} {field : Option Str} (h : r.Judged isMatch (extractResultValue result field)) :
      r.Judged isMatch (resp.result.bind fun result => extractResultValue result field) := by
    rw [hresult]
    exact h
  have hwhole {compared : Compared} {value : Str} (h : ReportedValue.Judged isMatch ⟨"result".toList, value, compared⟩
      (extractResultValue result none)) := holds_result (hjudged h)
  have hfield {field : String} {compared : Compared} {value : Str} (htight : Tight field.toList) (hcolon : ':' ∉ field.toList)
      (h : ReportedValue.Judged isMatch ⟨resultField field, value, compared⟩ (extractResultValue result (some field.toList))) :=
    holds_field htight hcolon (hjudged h)
  intro r hr
  cases result with
  | u64 v =>
    rw [List.mem_singleton.mp hr]
    exact hwhole (judged_number _ _)
  | str s =>
    rw [List.mem_singleton.mp hr]
    exact hwhole (judged_text _ s)
  | pathInfo info => exact pathInfo_holds hresult r hr
  | stringSet set =>
    rw [List.mem_singleton.mp hr]
    exact hwhole (judged_set _ set)
  | stringMap pairs =>
    rcases List.mem_cons.mp hr with rfl | hr
    · exact hfield (by decide) (by decide) (judged_absent _ _)
    · obtain ⟨kv, -, rfl⟩ := List.mem_map.mp hr
      exact hwhole (judged_absent _ _)
  | none => cases hr
  | collectGarbage bytesFreed =>
    rw [List.mem_singleton.mp hr]
    exact hfield (by decide) (by decide) (judged_number _ _)
  | substitutablePathInfo valid deriver refs downloadSize narSize =>
    simp only [ResultData.reported, List.mem_append, List.mem_singleton, Option.mem_toList, Option.map_eq_some_iff] at hr
    rcases hr with ((rfl | ⟨d, rfl, rfl⟩) | ⟨ds, rfl, rfl⟩) | ⟨ns, rfl, rfl⟩
    · exact hfield (by decide) (by decide) (judged_flag _ _)
    · exact hfield (by decide) (by decide) (judged_absent _ _)
    · exact hfield (by decide) (by decide) (judged_number _ _)
    · exact hfield (by decide) (by decide) (judged_number _ _)
  | missing willBuild willSubstitute unknown downloadSize narSize =>
    simp only [ResultData.reported, List.mem_cons, List.not_mem_nil, or_false] at hr
    rcases hr with rfl | rfl | rfl | rfl | rfl
    · exact hfield (by decide) (by decide) (judged_absent _ _)
    · exact hfield (by decide) (by decide) (judged_absent _ _)
    · exact hfield (by decide) (by decide) (judged_absent _ _)
    · exact hfield (by decide) (by decide) (judged_number _ _)
    · exact hfield (by decide) (by decide) (judged_number _ _)
  | framed data =>
    rw [List.mem_singleton.mp hr]
    exact hwhole (judged_absent _ _)
  | raw data =>
    rw [List.mem_singleton.mp hr]
    exact hwhole (judged_absent _ _)

/-- A key whose expect is judged by one text. -/
theorem holds_key {indent key : Str} {mk : Matcher → Expect} {passes : Expect → Bool} {actual : Str}
    (hindent : ∀ c ∈ indent, isWhitespace c = true) (hkey : ':' ∉ key) (hother : key ≠ "response".toList)
    (hparse : ∀ u, trimEnd u = u → parseExpect ("expect ".toList ++ key ++ [':'] ++ u) = mk <$> parseMatcher (trim u))
    (hpasses : ∀ m, passes (mk m) = matchesValue isMatch m actual)
    (h : ReportedValue.Judged isMatch ⟨key, value, compared⟩ (some actual)) :
    accepted (indent ++ ReportedValue.comment ⟨key, value, compared⟩) passes = true ↔
      ReportedValue.Holds isMatch ⟨key, value, compared⟩ := by
  show accepted (indent ++ ("# ".toList ++ key ++ ": ".toList ++ value)) _ = true ↔ _
  rw [accepted_key hindent hkey hother hparse passes]
  simp only [hpasses]
  exact h

theorem evaluateExpects_one (e : Expect) :
    (evaluateExpects isMatch [e] resp).all (·.passed) = (evaluateExpect isMatch e resp).passed := Bool.and_true _

theorem response_holds :
    ∀ r ∈ resp.reported, (holdsAsExpect isMatch resp ("  ".toList ++ r.comment) = true ↔ r.Holds isMatch) := by
  intro r hr
  simp only [DaemonResponse.reported, List.mem_append, List.mem_singleton, Option.mem_toList, Option.map_eq_some_iff] at hr
  rcases hr with ((rfl | hr) | ⟨err, herr, rfl⟩) | hr
  · show accepted ("  ".toList ++ ("# response: ".toList ++ resp.terminal)) _ = true ↔ trim resp.terminal = resp.terminal
    rw [accepted_response indent_blank, evaluateExpects_one]
    show (resp.terminal == trim resp.terminal) = true ↔ _
    rw [beq_iff_eq, eq_comm]
  · split at hr
    · rw [List.mem_singleton.mp hr]
      exact holds_key indent_blank (by decide) (by decide) (fun u hu => parseExpect_count hu)
        (fun m => evaluateExpects_one _) (judged_number _ _)
    · cases hr
  · refine holds_key indent_blank (by decide) (by decide) (fun u hu => parseExpect_error hu) (fun m => ?_) (judged_text _ _)
    rw [evaluateExpects_one, evaluateExpect, herr]
  · cases hresult : resp.result with
    | none =>
      rw [hresult] at hr
      cases hr
    | some result =>
      rw [hresult] at hr
      exact result_holds hresult r hr

theorem evaluateHandshakeExpects_one (debug : Expect → Str) (info : HandshakeInfo) (e : Expect) :
    (evaluateHandshakeExpects isMatch debug [e] info).all (·.passed) = (evaluateHandshakeExpect isMatch debug e info).passed :=
  Bool.and_true _

/-- A trust word is printed as it is compared. -/
theorem judged_trust (t : UInt64) : ReportedValue.Judged isMatch ⟨"trust".toList, trustName t, .alike⟩ (some (trustName t)) := by
  refine iff_of_true ?_ trivial
  show accepts isMatch (trustName t) (trustName t) = true
  have hplain : Tight (trustName t) ∧ ∀ c ∈ ['/', '>', '<'], (trustName t).head? ≠ some c := by
    unfold trustName
    split <;> exact ⟨by decide, by simp⟩
  rw [accepts_plain hplain.1 hplain.2, beq_self_eq_true]

/-- Features are, unless there are none. -/
theorem judged_features (features : List Str) : ReportedValue.Judged isMatch ⟨"server_features".toList, formatPathSet features,
    if features.isEmpty then .otherwise else .alike⟩ (some (bracedSet features)) := by
  obtain ⟨htight, hhead⟩ := formatPathSet_braces features
  cases features with
  | nil =>
    refine iff_of_false ?_ id
    show ¬accepts isMatch (formatPathSet []) (bracedSet []) = true
    rw [accepts_braced htight hhead]
    decide
  | cons f features =>
    refine iff_of_true ?_ trivial
    show accepts isMatch (formatPathSet (f :: features)) (formatPathSet (f :: features)) = true
    rw [accepts_braced htight hhead, beq_self_eq_true]

theorem handshake_holds (debug : Expect → Str) (info : HandshakeInfo) :
    ∀ r ∈ info.reported, (holdsAsHandshakeExpect isMatch debug info r.comment = true ↔ r.Holds isMatch) := by
  intro r hr
  simp only [HandshakeInfo.reported, List.mem_append, List.mem_singleton, Option.mem_toList, Option.map_eq_some_iff] at hr
  have hindent : ∀ c ∈ ([] : Str), isWhitespace c = true := List.forall_mem_nil _
  rcases hr with (⟨ver, hver, rfl⟩ | ⟨t, ht, rfl⟩) | rfl
  · refine holds_key hindent (by decide) (by decide) (fun u hu => parseExpect_daemon hu) (fun m => ?_) (judged_text _ ver)
    rw [evaluateHandshakeExpects_one, evaluateHandshakeExpect, hver]
    rfl
  · refine holds_key hindent (by decide) (by decide) (fun u hu => parseExpect_trust hu) (fun m => ?_) (judged_trust t)
    rw [evaluateHandshakeExpects_one, evaluateHandshakeExpect, ht, Option.map_some, trustName]
    generalize t.toNat = n
    rcases n with _ | _ | _ | n <;> rfl
  · exact holds_key hindent (by decide) (by decide) (fun u hu => parseExpect_serverFeatures hu)
      (fun m => evaluateHandshakeExpects_one debug info _) (judged_features _)

end

end

/-- Every comment that reports a value, as an expect, passes against the same response or
    handshake exactly when its value holds. -/
theorem comments_hold (isMatch : Str → Str → Bool) (debug : Expect → Str) (resp : DaemonResponse) (info : HandshakeInfo) :
    (formatResponseComment resp = resp.reported.map (fun r => "  ".toList ++ r.comment) ++
        (resp.result.map ResultData.unlisted).getD [] ∧
      ∀ r ∈ resp.reported, (holdsAsExpect isMatch resp ("  ".toList ++ r.comment) = true ↔ r.Holds isMatch)) ∧
    formatPreamble (preambleOf info) =
        ["# nwscript v1".toList, "protocol: ".toList ++ info.negotiatedVersion.display,
          "features: ".toList ++ formatPathSet info.clientFeatures] ++ info.reported.map ReportedValue.comment ++ ["---".toList] ∧
      ∀ r ∈ info.reported, (holdsAsHandshakeExpect isMatch debug info r.comment = true ↔ r.Holds isMatch) :=
  ⟨⟨formatResponseComment_reported resp, response_holds⟩, formatPreamble_reported info, handshake_holds debug info⟩

/-- The referrers of a path, printed in braces and compared in brackets. -/
theorem set_comment_fails :
    let resp : DaemonResponse := ⟨"Last".toList, 1, some (.stringSet ["/nix/store/a".toList]), none⟩
    formatResponseComment resp = ["  # response: Last".toList, "  # result: { /nix/store/a }".toList] ∧
      asExpect "  # result: { /nix/store/a }".toList = some "  expect result: { /nix/store/a }".toList ∧
      parseExpect (trim "  expect result: { /nix/store/a }".toList) = .ok (.result none (.exact "{ /nix/store/a }".toList)) ∧
      evaluateExpects (fun _ _ => true) [.result none (.exact "{ /nix/store/a }".toList)] resp =
        [⟨false, "result: expected { /nix/store/a }, got [/nix/store/a]".toList⟩] ∧
      holdsAsExpect (fun _ _ => true) resp "  # result: { /nix/store/a }".toList = false := by
  decide

end NixWire
