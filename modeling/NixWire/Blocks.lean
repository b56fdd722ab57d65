/-
  NixWire.Blocks — the blocks of indented lines.

  `fieldLine name value` is one `name: value` line; a list of fields that takes the block's
  state from its start to `s` (`FieldSteps`) is a block that gives `s` (`parseFields_reads`).
  A block ends where the next line is not indented, blank, a comment or an expect
  (`BlockEnd`). `BlockReads p block a`: up to there `p` reads `a`.
-/

import Mathlib.Data.List.Nodup
import NixWire.Values

namespace NixWire

open Base

/-! ## Lines of a block -/

/-- A name that a block line can start with. -/
def FieldName (name : String) : Prop :=
  Printable name.toList ∧ ':' ∉ name.toList ∧ ∃ c ∈ name.toList.head?, c ≠ '#' ∧ c ≠ 'e'

instance (name : String) : Decidable (FieldName name) :=
  @instDecidableAnd _ _ inferInstance (@instDecidableAnd _ _ inferInstance (Option.decidableExistsMem _))

/-- No block goes on here. -/
def BlockEnd (ls : List Str) : Prop := ∀ l ∈ ls.head?, blockLine l = none

/-- `p` reads `a` off the lines of `block`. -/
structure BlockReads {α : Type} (p : ParseM α) (block : List Str) (a : α) : Prop where
  oneLine : ∀ l ∈ block, OneLine l
  run : ∀ rest, BlockEnd rest → p.run (block ++ rest) = (.ok a, rest)

theorem BlockReads.map {α β : Type} {p : ParseM α} {block : List Str} {a : α} (h : BlockReads p block a) (f : α → β) :
    BlockReads (f <$> p) block (f a) where
  oneLine := h.oneLine
  run rest hrest := Rd.map_ok_iff.mpr ⟨a, h.run rest hrest, rfl⟩

theorem blockLine_of_head {line : Str} {c : Char} {t : Str} (hindent : indented line = true) (htrim : trim line = c :: t)
    (hc : c ≠ '#') (he : c ≠ 'e') : blockLine line = some (c :: t) := by
  have hhash : startsWith ['#'] (c :: t) = false := by simp [hc.symm]
  have hexpect : startsWith "expect".toList (c :: t) = false := by simp [he.symm]
  simp only [blockLine, hindent, htrim, hhash, hexpect]
  rfl

section

variable {name : String} {value : Str} (hn : FieldName name) (hv : Tight value)

include hn hv

theorem trim_fieldLine : trim (fieldLine name value) = name.toList ++ ':' :: spaced value := by
  have hne : name.toList ++ [':'] ≠ [] := by simp
  have htight : Tight (name.toList ++ [':']) := by
    obtain ⟨c, hc, -⟩ := hn.2.2
    have hname : name.toList ≠ [] := by
      intro h
      rw [h] at hc
      cases hc
    exact tight_append hn.1.tight.1 hname (by simp [isWhitespace]) (List.cons_ne_nil _ _)
  have hline : fieldLine name value = ' ' :: ' ' :: (name.toList ++ [':'] ++ ' ' :: value) := by simp [fieldLine]
  rw [hline, trim_cons rfl, trim_cons rfl, trim_label htight hne hv, List.append_assoc]
  rfl

theorem blockLine_field : blockLine (fieldLine name value) = some (name.toList ++ ':' :: spaced value) := by
  have htrim := trim_fieldLine hn hv
  obtain ⟨c, hc, hhash, he⟩ := hn.2.2
  cases hname : name.toList with
  | nil =>
    rw [hname] at hc
    cases hc
  | cons d t =>
    rw [hname] at hc htrim
    cases hc
    exact blockLine_of_head rfl htrim hhash he

omit hv in
theorem fieldLine_oneLine (hv : Printable value) : OneLine (fieldLine name value) := by
  have hline : fieldLine name value = ("  ".toList ++ name.toList ++ [':']) ++ ' ' :: value := by simp [fieldLine]
  have hname := hn.1.oneLine
  rw [hline]
  exact .append (by simp [hname]) (hv.tight.oneLine hv.oneLine).blank (List.cons_ne_nil _ _)

theorem keyedLine_field {σ α : Type} (onField : σ → Str → Str → Except ParseError σ) (s : σ) :
    (keyedLine onField s (name.toList ++ ':' :: spaced value) : Except ParseError (LineStep σ α)) =
      .next <$> onField s name.toList value := by
  rw [keyedLine, splitOnce_char hn.2.1]
  simp only [trim_spaced hv, trim_tight hn.1.tight]

end

/-! ## Runs of block parsers -/

section

variable {σ α : Type} {finish : σ → α} {rest : List Str}

theorem parseBlock_end {onLine : σ → Str → Except ParseError (LineStep σ α)} (h : BlockEnd rest) (s : σ) :
    (parseBlock onLine finish s).run rest = (.ok (finish s), rest) := by
  cases rest with
  | nil => rfl
  | cons l ls =>
    refine readLines_leave ?_
    simp only [h l rfl]

theorem parseBlock_next {onLine : σ → Str → Except ParseError (LineStep σ α)} {s s' : σ} {line trimmed : Str}
    (hline : blockLine line = some trimmed) (h : onLine s trimmed = .ok (.next s')) :
    (parseBlock onLine finish s).run (line :: rest) = (parseBlock onLine finish s').run rest := by
  refine readLines_next ?_
  simp only [hline, h]

theorem parseBlock_done {onLine : σ → Str → Except ParseError (LineStep σ α)} {s : σ} {a : α} {line trimmed : Str}
    (hline : blockLine line = some trimmed) (h : onLine s trimmed = .ok (.done a)) :
    (parseBlock onLine finish s).run (line :: rest) = (.ok a, rest) := by
  refine readLines_done ?_
  simp only [hline, h]

/-- The lines of a list of fields. -/
def fieldLines (fields : List (String × Str)) : List Str := fields.map fun f => fieldLine f.1 f.2

/-- A list of fields takes one state to another. -/
inductive FieldSteps (onField : σ → Str → Str → Except ParseError σ) : σ → List (String × Str) → σ → Prop where
  | nil (s : σ) : FieldSteps onField s [] s
  | cons {s t s' : σ} {n : String} {v : Str} {fields : List (String × Str)} : FieldName n → Printable v →
      onField s n.toList v = .ok t → FieldSteps onField t fields s' → FieldSteps onField s ((n, v) :: fields) s'

theorem parseFields_reads {onField : σ → Str → Str → Except ParseError σ} {fields : List (String × Str)} {s t : σ}
    (h : FieldSteps onField s fields t) : BlockReads (parseFields onField finish s) (fieldLines fields) (finish t) := by
  induction h with
  | nil s => exact ⟨by simp [fieldLines], fun rest hend => parseBlock_end hend s⟩
  | @cons s t s' n v fields hn hv hset _ ih =>
    refine ⟨List.forall_mem_cons.mpr ⟨fieldLine_oneLine hn hv, ih.oneLine⟩, fun rest hend => ?_⟩
    have hstep : (keyedLine onField s (n.toList ++ ':' :: spaced v) : Except ParseError (LineStep σ α)) = .ok (.next t) := by
      rw [keyedLine_field hn hv.tight, hset]
      rfl
    exact (parseBlock_next (blockLine_field hn hv.tight) hstep).trans (ih.run rest hend)

end

/-! ## The blocks of each operation -/

theorem formatU64_printable (v : UInt64) : Printable (formatU64 v) := decimal_printable _

theorem formatFlag_printable (b : Bool) : Printable (formatFlag b) := by cases b <;> decide

theorem formatFlag_zero (b : Bool) : decide (formatFlag b = ['0']) = !b := by cases b <;> decide

theorem quoted_printable {s : Str} (h : '\n' ∉ s) : Printable ('"' :: s ++ ['"']) := ⟨quoted_tight s, by simp [h]⟩

/-- Text that can be written between quotes as it is. -/
def Quotable (s : Str) : Prop := '\n' ∉ s ∧ '\\' ∉ s

instance (s : Str) : Decidable (Quotable s) := inferInstanceAs (Decidable (_ ∧ _))

theorem Quotable.unescape {s : Str} (h : Quotable s) : unescape s = s :=
  unescape_self.mpr (not_backslashBefore h.2 _)

theorem parseU64_format (v : UInt64) : parseU64 (formatU64 v) = some v := parseU64_decimal v

/-- Framed data that a line can hold: bytes, or a clean file name. -/
def FramedData.Clean : FramedData → Prop
  | inline _ => True
  | fileRef path => CleanStr path

/-- The value of a `data` line when nothing is written to files. -/
def dataText : FramedData → Str
  | .inline bytes => "x\"".toList ++ hexEncode bytes ++ ['"']
  | .fileRef path => "@file:".toList ++ path

/-- Data that is not moved to a file. -/
def FramedData.Kept (opts : FormatOptions) : FramedData → Prop
  | inline bytes => opts.dataDir = none ∨ bytes.length ≤ opts.inlineThreshold
  | fileRef _ => True

theorem formatFramedDataM_kept {m : Type → Type} [Monad m] (writeFile : Str → List UInt8 → m Bool) {data : FramedData}
    {opts : FormatOptions} (h : data.Kept opts) (fileCounter : Nat) :
    formatFramedDataM writeFile data opts fileCounter = pure (fieldLine "data" (dataText data), fileCounter) := by
  cases data with
  | inline bytes =>
    rcases h with hdir | hle
    · simp only [formatFramedDataM, hdir]
      exact ite_self _
    · exact if_neg (Nat.not_lt.mpr hle)
  | fileRef path => rfl

theorem dataText_printable {data : FramedData} (h : data.Clean) : Printable (dataText data) := by
  cases data with
  | inline bytes =>
    refine ⟨tight_append (a := "x\"".toList ++ hexEncode bytes) (by simp [isWhitespace]) (by simp) (by simp [isWhitespace])
      (List.cons_ne_nil _ _), ?_⟩
    have hbytes : '\n' ∉ hexEncode bytes := fun hc => hexEncode_not_mem bytes _ hc (by simp)
    simp [dataText, hbytes]
  | fileRef path =>
    have hp := h.printable
    refine ⟨tight_append (by simp [isWhitespace]) (by decide) hp.tight.2 h.1, ?_⟩
    simp [dataText, hp.oneLine]

theorem parseDataValue_text (data : FramedData) : parseDataValue (dataText data) = .ok data := by
  cases data with
  | inline bytes =>
    have htext : dataText (.inline bytes) = "x\"".toList ++ (hexEncode bytes ++ ['"']) := List.append_assoc _ _ _
    simp only [parseDataValue, htext, stripPrefix_append, hexDecode_quoted]
  | fileRef path =>
    have hnot := stripPrefix_none (p := "x\"".toList) (k := "@file:".toList) (by decide) (by decide) path
    simp only [parseDataValue, dataText, hnot, stripPrefix_append]

theorem parseCollectGarbage_reads {paths : List Str} (h : ∀ p ∈ paths, SetElement p)
    (action ignoreLiveness maxFreed : UInt64) :
    BlockReads parseCollectGarbage (fieldLines [("action", formatU64 action), ("paths", formatPathSet paths),
      ("ignore_liveness", formatU64 ignoreLiveness), ("max_freed", formatU64 maxFreed)])
      (.collectGarbage action (cutCommas paths) ignoreLiveness maxFreed) := by
  refine parseFields_reads (t := GarbageFields.mk action (cutCommas paths) ignoreLiveness maxFreed) ?_
  refine .cons (t := { action := action }) (by decide) (formatU64_printable _) ?_ <|
    .cons (t := { action := action, paths := cutCommas paths }) (by decide) (formatPathSet_printable h) ?_ <|
    .cons (t := { action := action, paths := cutCommas paths, ignoreLiveness := ignoreLiveness }) (by decide)
      (formatU64_printable _) ?_ <|
    .cons (by decide) (formatU64_printable _) ?_ <| .nil _
  all_goals unfold GarbageFields.set
  all_goals simp [parseU64_format, parseInlinePathSet_set h]

theorem parseVerifyStore_reads (checkContents repair : Bool) :
    BlockReads parseVerifyStore (fieldLines [("check_contents", formatFlag checkContents), ("repair", formatFlag repair)])
      (.verifyStore checkContents repair) := by
  refine parseFields_reads (t := VerifyFields.mk checkContents repair) ?_
  refine .cons (t := { checkContents := checkContents }) (by decide) (formatFlag_printable _) ?_ <|
    .cons (by decide) (formatFlag_printable _) ?_ <| .nil _
  all_goals unfold VerifyFields.set
  all_goals simp [formatFlag_zero]

theorem parseAddTextToStore_reads {suffix : Str} {refs : List Str} (hsuffix : '\n' ∉ suffix)
    (hrefs : ∀ r ∈ refs, SetElement r) (text : Str) :
    BlockReads parseAddTextToStore (fieldLines [("suffix", '"' :: suffix ++ ['"']),
      ("text", '"' :: escapeString text ++ ['"']), ("refs", formatPathSet refs)])
      (.addTextToStore (unescape suffix) (mangled text) (cutCommas refs)) := by
  refine parseFields_reads (t := TextFields.mk (unescape suffix) (mangled text) (cutCommas refs)) ?_
  refine .cons (t := { suffix := unescape suffix }) (by decide) (quoted_printable hsuffix) ?_ <|
    .cons (t := { suffix := unescape suffix, text := mangled text }) (by decide)
      (quoted_printable (escapeString_oneLine text)) ?_ <|
    .cons (by decide) (formatPathSet_printable hrefs) ?_ <| .nil _
  all_goals unfold TextFields.set
  · rw [if_pos rfl, unquote_quoted]
  · rw [if_neg (by decide), if_pos rfl, unquote_quoted, unescape_escape]
  · simp [parseInlinePathSet_set hrefs]

theorem parseAddToStore_reads {name camStr : Str} {refs : List Str} {data : FramedData} (hname : '\n' ∉ name)
    (hcam : '\n' ∉ camStr) (hrefs : ∀ r ∈ refs, SetElement r) (hdata : data.Clean) (repair : Bool) :
    BlockReads parseAddToStore (fieldLines [("name", '"' :: name ++ ['"']), ("cam_str", '"' :: camStr ++ ['"']),
      ("refs", formatPathSet refs), ("repair", formatFlag repair), ("data", dataText data)])
      (.addToStore (unescape name) (unescape camStr) (cutCommas refs) repair data) := by
  refine parseFields_reads (t := StoreFields.mk (unescape name) (unescape camStr) (cutCommas refs) repair data) ?_
  refine .cons (t := { name := unescape name }) (by decide) (quoted_printable hname) ?_ <|
    .cons (t := { name := unescape name, camStr := unescape camStr }) (by decide) (quoted_printable hcam) ?_ <|
    .cons (t := { name := unescape name, camStr := unescape camStr, refs := cutCommas refs }) (by decide)
      (formatPathSet_printable hrefs) ?_ <|
    .cons (t := { name := unescape name, camStr := unescape camStr, refs := cutCommas refs, repair := repair }) (by decide)
      (formatFlag_printable _) ?_ <|
    .cons (by decide) (dataText_printable hdata) ?_ <| .nil _
  all_goals unfold StoreFields.set
  · rw [if_pos rfl, unquote_quoted]
  · rw [if_neg (by decide), if_pos rfl, unquote_quoted]
  · simp [parseInlinePathSet_set hrefs]
  · simp [formatFlag_zero]
  · simp [parseDataValue_text data]

theorem parseAddMultipleToStore_reads {data : FramedData} (hdata : data.Clean) (repair dontCheckSigs : Bool) :
    BlockReads parseAddMultipleToStore (fieldLines [("repair", formatFlag repair),
      ("dont_check_sigs", formatFlag dontCheckSigs), ("data", dataText data)])
      (.addMultipleToStore repair dontCheckSigs data) := by
  refine parseFields_reads (t := MultipleFields.mk repair dontCheckSigs data) ?_
  refine .cons (t := { repair := repair }) (by decide) (formatFlag_printable _) ?_ <|
    .cons (t := { repair := repair, dontCheckSigs := dontCheckSigs }) (by decide) (formatFlag_printable _) ?_ <|
    .cons (by decide) (dataText_printable hdata) ?_ <| .nil _
  all_goals unfold MultipleFields.set
  · simp [formatFlag_zero]
  · simp [formatFlag_zero]
  · simp [parseDataValue_text data]

theorem parseInlineFramedData_reads {data : FramedData} (hdata : data.Clean) :
    BlockReads parseInlineFramedData [fieldLine "data" (dataText data)] data := by
  have hv := dataText_printable hdata
  have hn : FieldName "data" := by decide
  refine ⟨by simpa using fieldLine_oneLine hn hv, fun rest _ => parseBlock_done (blockLine_field hn hv.tight) ?_⟩
  rw [splitOnce_char hn.2.1]
  simp only [trim_tight hn.1.tight, trim_spaced hv.tight, parseDataValue_text data]
  rfl

/-- The lines of a `raw` block: none for no data. -/
def rawLines (data : List UInt8) : List Str :=
  if data.isEmpty then [] else ["  raw x\"".toList ++ hexEncode data ++ "\"".toList]

theorem parseRawHex_reads (data : List UInt8) : BlockReads parseRawHex (rawLines data) data := by
  cases data with
  | nil => exact ⟨by simp [rawLines], fun rest hend => parseBlock_end hend ()⟩
  | cons b data =>
    have htight : Tight ("raw x\"".toList ++ hexEncode (b :: data) ++ ['"']) :=
      tight_append (by simp [isWhitespace]) (by simp) (by simp [isWhitespace]) (List.cons_ne_nil _ _)
    have hline : "  raw x\"".toList ++ hexEncode (b :: data) ++ "\"".toList =
        ' ' :: ' ' :: ("raw x\"".toList ++ hexEncode (b :: data) ++ ['"']) := by simp
    have htrim : trim (' ' :: ' ' :: ("raw x\"".toList ++ hexEncode (b :: data) ++ ['"'])) =
        "raw x\"".toList ++ hexEncode (b :: data) ++ ['"'] := by
      rw [trim_cons rfl, trim_cons rfl, trim_tight htight]
    have hblock : blockLine (' ' :: ' ' :: ("raw x\"".toList ++ hexEncode (b :: data) ++ ['"'])) =
        some ("raw x\"".toList ++ (hexEncode (b :: data) ++ ['"'])) := by
      rw [List.append_assoc] at htrim
      simpa using blockLine_of_head (c := 'r') (by simp [indented]) (by simpa using htrim) (by decide) (by decide)
    have hbytes : '\n' ∉ hexEncode (b :: data) := fun hc => hexEncode_not_mem _ _ hc (by simp)
    have hlines : rawLines (b :: data) = [' ' :: ' ' :: ("raw x\"".toList ++ hexEncode (b :: data) ++ ['"'])] :=
      congrArg (fun l => [l]) hline
    rw [hlines]
    constructor
    · rw [List.forall_mem_singleton]
      exact (htight.oneLine (by simp [hbytes])).blank.blank
    · intro rest _
      exact parseBlock_done hblock (by simp only [stripPrefix_append, hexDecode_quoted])

/-! ## The block of SetOptions -/

section

variable {rest : List Str}

theorem setOptions_field {n : String} {v : Str} (hn : FieldName n) (hv : Tight v) (hne : n.toList ≠ "overrides".toList)
    (opts : List (Str × Str)) : (parseBlock setOptionsLine OptionLines.finish { opts := opts }).run (fieldLine n v :: rest) =
      (parseBlock setOptionsLine OptionLines.finish { opts := (n.toList, v) :: opts }).run rest := by
  refine parseBlock_next (blockLine_field hn hv) ?_
  rw [setOptionsLine, if_neg (by simp), keyedLine_field hn hv, if_neg hne]
  rfl

theorem setOptions_fields {fields : List (String × UInt64)}
    (h : ∀ f ∈ fields, FieldName f.1 ∧ f.1.toList ≠ "overrides".toList) (opts : List (Str × Str)) :
    (parseBlock setOptionsLine OptionLines.finish { opts := opts }).run
        (fieldLines (fields.map fun f => (f.1, formatU64 f.2)) ++ rest) =
      (parseBlock setOptionsLine OptionLines.finish
        { opts := (fields.map fun f => (f.1.toList, formatU64 f.2)).reverse ++ opts }).run rest := by
  induction fields generalizing opts with
  | nil => rfl
  | cons f fields ih =>
    obtain ⟨hn, hne⟩ := h f List.mem_cons_self
    refine (setOptions_field hn (formatU64_printable f.2).tight hne opts).trans ?_
    rw [List.map_cons, List.reverse_cons, List.append_assoc]
    exact ih (fun g hg => h g (List.mem_cons_of_mem f hg)) _

/-- An override as it is printed, trimmed. -/
def overrideText (o : Str × Str) : Str := ['"'] ++ (o.1 ++ '"' :: ' ' :: (['='] ++ ' ' :: (['"'] ++ (o.2 ++ ['"']))))

theorem overrideText_tight (o : Str × Str) : Tight (overrideText o) := by
  have htext : overrideText o = '"' :: (o.1 ++ "\" = \"".toList ++ o.2) ++ ['"'] := by simp [overrideText]
  rw [htext]
  exact quoted_tight _

/-- What an override line is taken apart into. -/
theorem parseKvPair_text (o : Str × Str) : parseKvPair (overrideText o) = (do
    let (name, rest) ← splitOnce ['"'] (o.1 ++ '"' :: ' ' :: (['='] ++ ' ' :: (['"'] ++ (o.2 ++ ['"']))))
    let rest ← stripPrefix ['='] (trim rest)
    let rest ← stripPrefix ['"'] (trim rest)
    let (value, _) ← splitOnce ['"'] rest
    return (name, value)) := by
  rw [parseKvPair, trim_tight (overrideText_tight o), overrideText, stripPrefix_append]
  rfl

/-- An override comes back as it was exactly when it holds no quote. -/
theorem parseKvPair_override {o : Str × Str} : parseKvPair (overrideText o) = some o ↔ '"' ∉ o.1 ∧ '"' ∉ o.2 := by
  have hsecond : Tight (['"'] ++ (o.2 ++ ['"'])) := quoted_tight o.2
  have hfirst : Tight (['='] ++ ' ' :: (['"'] ++ (o.2 ++ ['"']))) := by
    refine tight_append (by simp [isWhitespace]) (by decide) ?_ (List.cons_ne_nil _ _)
    rw [List.getLast?_cons_of_ne_nil (by simp)]
    exact hsecond.2
  rw [parseKvPair_text]
  constructor
  · intro h
    simp only [Option.bind_eq_bind, Option.bind_eq_some_iff] at h
    obtain ⟨⟨name, rest⟩, hname, _, -, _, -, ⟨value, _⟩, hvalue, heq⟩ := h
    cases heq
    exact ⟨(splitOnce_some hname).2, (splitOnce_some hvalue).2⟩
  · intro h
    rw [splitOnce_char h.1]
    simp only [Option.bind_eq_bind, Option.bind_some, trim_cons (c := ' ') rfl, trim_tight hfirst, trim_tight hsecond,
      stripPrefix_append]
    rw [splitOnce_char h.2]
    rfl

/-- The overrides as they are read back; one that is no pair is dropped. -/
def readOverrides (overrides : List (Str × Str)) : List (Str × Str) :=
  overrides.filterMap fun o => parseKvPair (overrideText o)

theorem readOverrides_self {overrides : List (Str × Str)} :
    readOverrides overrides = overrides ↔ ∀ o ∈ overrides, '"' ∉ o.1 ∧ '"' ∉ o.2 := by
  constructor
  · intro h
    induction overrides with
    | nil => exact nofun
    | cons o overrides ih =>
      have hle : (readOverrides overrides).length ≤ overrides.length := List.length_filterMap_le _ _
      rw [readOverrides, List.filterMap_cons] at h
      split at h
      · have hlen := congrArg List.length h
        simp only [List.length_cons] at hlen
        unfold readOverrides at hle
        omega
      · rename_i p hp
        obtain ⟨rfl, hrest⟩ := List.cons.inj h
        exact List.forall_mem_cons.mpr ⟨parseKvPair_override.mp hp, ih hrest⟩
  · intro h
    rw [readOverrides, List.filterMap_congr fun o ho => parseKvPair_override.mpr (h o ho), List.filterMap_some]

theorem setOptions_overrides (overrides : List (Str × Str)) {s : OptionLines} (hs : s.inOverrides = true) :
    (parseBlock setOptionsLine OptionLines.finish s).run
      (overrides.map (fun o => "    \"".toList ++ o.1 ++ "\" = \"".toList ++ o.2 ++ "\"".toList) ++ rest) =
      (parseBlock setOptionsLine OptionLines.finish
        { s with overrides := s.overrides ++ readOverrides overrides }).run rest := by
  induction overrides generalizing s with
  | nil => simp [readOverrides]
  | cons o overrides ih =>
    have hline : "    \"".toList ++ o.1 ++ "\" = \"".toList ++ o.2 ++ "\"".toList =
        ' ' :: ' ' :: ' ' :: ' ' :: overrideText o := by simp [overrideText]
    have htrim : trim (' ' :: ' ' :: ' ' :: ' ' :: overrideText o) = overrideText o := by
      rw [trim_cons rfl, trim_cons rfl, trim_cons rfl, trim_cons rfl, trim_tight (overrideText_tight o)]
    have hblock : blockLine (' ' :: ' ' :: ' ' :: ' ' :: overrideText o) = some (overrideText o) :=
      blockLine_of_head rfl htrim (by decide) (by decide)
    have hstep : setOptionsLine s (overrideText o) =
        .ok (.next { s with overrides := s.overrides ++ (parseKvPair (overrideText o)).toList }) := by
      have hquote : startsWith ['"'] (overrideText o) = true := startsWith_append _ _
      rw [setOptionsLine, hs, hquote, if_pos (by simp)]
    have hread : readOverrides (o :: overrides) = (parseKvPair (overrideText o)).toList ++ readOverrides overrides := by
      rw [readOverrides, List.filterMap_cons]
      split <;> simp_all [readOverrides]
    rw [List.map_cons, hline]
    refine (parseBlock_next hblock hstep).trans ?_
    rw [hread, ← List.append_assoc]
    exact ih (s := { s with overrides := s.overrides ++ (parseKvPair (overrideText o)).toList }) hs

/-- The numbers of a SetOptions block by name. -/
def optionFields (keepFailed keepGoing tryFallback verbosity maxBuildJobs maxSilentTime useBuildHook verboseBuild logType
    printBuildTrace buildCores useSubstitutes : UInt64) : List (String × UInt64) := [
  ("keep_failed", keepFailed), ("keep_going", keepGoing), ("try_fallback", tryFallback), ("verbosity", verbosity),
  ("max_build_jobs", maxBuildJobs), ("max_silent_time", maxSilentTime), ("use_build_hook", useBuildHook),
  ("verbose_build", verboseBuild), ("log_type", logType), ("print_build_trace", printBuildTrace),
  ("build_cores", buildCores), ("use_substitutes", useSubstitutes)]

theorem lookup_of_nodup {κ υ : Type} [BEq κ] [LawfulBEq κ] {l : List (κ × υ)} {k : κ} {v : υ}
    (hl : (l.map Prod.fst).Nodup) (h : (k, v) ∈ l) : l.lookup k = some v := by
  obtain ⟨l₁, l₂, rfl⟩ := List.append_of_mem h
  refine List.lookup_eq_some_iff.mpr ⟨l₁, l₂, rfl, fun p hp => ?_⟩
  rw [List.map_append, List.map_cons, List.nodup_append] at hl
  have hne := hl.2.2 p.1 (List.mem_map_of_mem hp) k List.mem_cons_self
  simpa using hne.symm

theorem getU64_fields {fields : List (String × UInt64)} (hl : (fields.map Prod.fst).Nodup) {n : String} {v : UInt64}
    (h : (n, v) ∈ fields) (overrides : List (Str × Str)) (inOverrides : Bool) :
    OptionLines.getU64 ⟨(fields.map fun f => (f.1.toList, formatU64 f.2)).reverse, overrides, inOverrides⟩ n = v := by
  have hnodup : ((fields.map fun f => (f.1.toList, formatU64 f.2)).reverse.map Prod.fst).Nodup := by
    have hmap : (fields.map fun f => (f.1.toList, formatU64 f.2)).map Prod.fst = (fields.map Prod.fst).map String.toList := by
      simp
    rw [List.map_reverse, List.nodup_reverse, hmap]
    exact hl.map fun a b hab => String.toList_inj.mp hab
  have hmem : (n.toList, formatU64 v) ∈ (fields.map fun f => (f.1.toList, formatU64 f.2)).reverse :=
    List.mem_reverse.mpr (List.mem_map_of_mem (f := fun f : String × UInt64 => (f.1.toList, formatU64 f.2)) h)
  simp only [OptionLines.getU64, lookup_of_nodup hnodup hmem, Option.bind_some, parseU64_format, Option.getD_some]

theorem finish_of_fields {keepFailed keepGoing tryFallback verbosity maxBuildJobs maxSilentTime useBuildHook verboseBuild
    logType printBuildTrace buildCores useSubstitutes : UInt64} {s : OptionLines}
    (h : ∀ f ∈ optionFields keepFailed keepGoing tryFallback verbosity maxBuildJobs maxSilentTime useBuildHook verboseBuild
      logType printBuildTrace buildCores useSubstitutes, s.getU64 f.1 = f.2) :
    s.finish = .setOptions keepFailed keepGoing tryFallback verbosity maxBuildJobs maxSilentTime useBuildHook verboseBuild
      logType printBuildTrace buildCores useSubstitutes s.overrides := by
  simp only [optionFields, List.forall_mem_cons] at h
  obtain ⟨h1, h2, h3, h4, h5, h6, h7, h8, h9, h10, h11, h12, -⟩ := h
  rw [OptionLines.finish, h1, h2, h3, h4, h5, h6, h7, h8, h9, h10, h11, h12]

theorem parseSetOptions_run (hend : BlockEnd rest) (overrides : List (Str × Str))
    (keepFailed keepGoing tryFallback verbosity maxBuildJobs maxSilentTime useBuildHook verboseBuild logType
      printBuildTrace buildCores useSubstitutes : UInt64) :
    parseSetOptions.run (fieldLines ((optionFields keepFailed keepGoing tryFallback verbosity maxBuildJobs maxSilentTime
        useBuildHook verboseBuild logType printBuildTrace buildCores useSubstitutes).map fun f => (f.1, formatU64 f.2))
      ++ (fieldLine "overrides" (decimal overrides.length)
        :: overrides.map (fun o => "    \"".toList ++ o.1 ++ "\" = \"".toList ++ o.2 ++ "\"".toList) ++ rest)) =
      (.ok (.setOptions keepFailed keepGoing tryFallback verbosity maxBuildJobs maxSilentTime useBuildHook verboseBuild
        logType printBuildTrace buildCores useSubstitutes (readOverrides overrides)), rest) := by
  have hcount : ∀ (opts : List (Str × Str)) (ls : List Str), (parseBlock setOptionsLine OptionLines.finish { opts := opts }).run
      (fieldLine "overrides" (decimal overrides.length) :: ls) =
      (parseBlock setOptionsLine OptionLines.finish { opts := opts, inOverrides := true }).run ls := by
    intro opts ls
    have hv := (decimal_printable overrides.length).tight
    refine parseBlock_next (blockLine_field (by decide) hv) ?_
    rw [setOptionsLine, if_neg (by simp), keyedLine_field (by decide) hv, if_pos rfl]
    rfl
  have hfields : ∀ f ∈ optionFields keepFailed keepGoing tryFallback verbosity maxBuildJobs maxSilentTime useBuildHook
      verboseBuild logType printBuildTrace buildCores useSubstitutes, FieldName f.1 ∧ f.1.toList ≠ "overrides".toList := by
    simp only [optionFields, List.forall_mem_cons]
    decide
  unfold parseSetOptions
  rw [setOptions_fields hfields, List.cons_append, hcount, setOptions_overrides overrides rfl]
  refine (parseBlock_end hend _).trans ?_
  have hnodup : ((optionFields keepFailed keepGoing tryFallback verbosity maxBuildJobs maxSilentTime useBuildHook
      verboseBuild logType printBuildTrace buildCores useSubstitutes).map Prod.fst).Nodup := by
    show ["keep_failed", "keep_going", "try_fallback", "verbosity", "max_build_jobs", "max_silent_time", "use_build_hook",
      "verbose_build", "log_type", "print_build_trace", "build_cores", "use_substitutes"].Nodup
    decide
  simp only [List.append_nil, List.nil_append]
  rw [finish_of_fields fun f hf => getU64_fields hnodup hf (readOverrides overrides) true]

end

end NixWire
