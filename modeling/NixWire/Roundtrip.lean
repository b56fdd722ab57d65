/-
  NixWire.Roundtrip — a script, formatted and parsed again.

  A formatted entry is a blank line, the lines of its call, a line for each expect and the
  comments of its response.

  - `parseEntries_format`: what is written for entries, any number of them in any order, is
    read as the entries, reread.
  - `parsePreamble_format`: so is the preamble, with what its comments carry.
  - `parse_format`: parsing a formatted clean script gives the script.
-/

import NixWire.Base.Congruence
import NixWire.Base.Loop
import NixWire.Calls

namespace NixWire

open Base

/-! ## Clean scripts -/

/-- An expect that a single line gives. -/
def Expect.OfLine (e : Expect) : Prop := ∃ line, '\n' ∉ line ∧ parseExpect line = .ok e

structure Preamble.Clean (p : Preamble) : Prop where
  clientFeatures : ∀ f ∈ p.clientFeatures, CleanStr f
  expects : ∀ e ∈ p.expects, e.OfLine
  daemonVersion : ∀ v ∈ p.daemonVersion, Printable v
  trust : ∀ t ∈ p.trust, Printable t
  serverFeatures : ∀ feats ∈ p.serverFeatures, ∀ f ∈ feats, CleanStr f

section

variable {τ : Type}

structure Entry.Clean (e : Entry τ) : Prop where
  timestampMs : e.timestampMs = none
  opCall : e.opCall.Clean
  response : e.response = none
  expects : ∀ x ∈ e.expects, x.OfLine

structure Script.Clean (s : Script τ) : Prop where
  preamble : s.preamble.Clean
  entries : ∀ e ∈ s.entries, e.Clean

end

section

variable {τ : Type} (parseMs : Str → Option τ) (formatMs : τ → Str)

/-- A number as a timestamp holds it, before its unit. -/
def FloatText (s : Str) : Prop := ∀ c ∈ s, c ≠ 'm' ∧ c ≠ '\n'

/-- An entry that can be written, its data on its line. -/
structure Entry.Writable (opts : FormatOptions) (e : Entry τ) : Prop where
  timestampMs : ∀ ms ∈ e.timestampMs, FloatText (formatMs ms) ∧ (parseMs (formatMs ms)).isSome = true
  opCall : e.opCall.Writable
  framed : ∀ data ∈ e.opCall.framed, data.Kept opts
  response : ∀ resp ∈ e.response, ∀ l ∈ formatResponseComment resp, OneLine l
  expects : ∀ x ∈ e.expects, x.OfLine

/-- An entry as it is read back. -/
def Entry.reread (e : Entry τ) : Entry τ where
  timestampMs := e.timestampMs.bind fun ms => parseMs (formatMs ms)
  opCall := e.opCall.reread
  response := none
  expects := e.expects

theorem Entry.Clean.writable {e : Entry τ} (h : e.Clean) : e.Writable parseMs formatMs .default where
  timestampMs := by simp [h.timestampMs]
  opCall := h.opCall.writable
  framed := fun data _ => by cases data <;> simp [FramedData.Kept, FormatOptions.default]
  response := by simp [h.response]
  expects := h.expects

theorem Entry.Clean.reread {e : Entry τ} (h : e.Clean) : e.reread parseMs formatMs = e := by
  unfold Entry.reread
  rw [h.opCall.reread, h.timestampMs, Option.bind_none, ← h.timestampMs, ← h.response]

end

theorem Expect.OfLine.written {e : Expect} (h : e.OfLine) : e.Written := by
  obtain ⟨line, hline, hparse⟩ := h
  exact parseExpect_written hparse hline

/-! ## Entries -/

section

variable {e : Expect} (h : e.Written)

include h

omit h in
theorem Expect.label_eq (e : Expect) : ∃ t, e.label = "expect".toList ++ t := by
  cases e with
  | result field m => cases field <;> exact ⟨_, rfl⟩
  | _ => exact ⟨_, rfl⟩

/-- An expect line, trimmed, starts with what tells it from the lines of a block. -/
theorem formatExpect_line : indented (formatExpect e) = true ∧ (trim (formatExpect e)).isEmpty = false ∧
    startsWith ['#'] (trim (formatExpect e)) = false ∧ startsWith "expect".toList (trim (formatExpect e)) = true := by
  obtain ⟨t, ht⟩ := e.label_eq
  have htrim : trim (formatExpect e) = "expect".toList ++ (t ++ spaced e.value) := by
    rw [trim_formatExpect h, ht, List.append_assoc]
  rw [htrim, formatExpect_eq]
  refine ⟨rfl, rfl, rfl, startsWith_append _ _⟩

theorem blockLine_formatExpect : blockLine (formatExpect e) = none := by
  obtain ⟨hindent, -, -, hexpect⟩ := formatExpect_line h
  simp only [blockLine, hindent, hexpect, Bool.or_true, if_true]

theorem expectStep_formatExpect (expects : List Expect) :
    expectStep expects (formatExpect e) = .ok (.next (expects ++ [e])) := by
  obtain ⟨hindent, hempty, hhash, hexpect⟩ := formatExpect_line h
  have hparse : parseExpect (trim (formatExpect e)) = .ok e := by rw [trim_formatExpect h, parseExpect_label h]
  simp only [expectStep, hindent, hempty, hhash, hexpect, hparse, Bool.or_self, Bool.false_eq_true, if_true, if_false]
  rfl

end

/-- An entry ends here: no line is left, or the next is not indented. -/
def EntryEnd (ls : List Str) : Prop := ∀ l ∈ ls.head?, indented l = false

/-- An indented comment. -/
def HashLine (line : Str) : Prop := ∃ t, line = "  #".toList ++ t

theorem HashLine.trim {line : Str} (h : HashLine line) : indented line = true ∧ startsWith ['#'] (trim line) = true := by
  obtain ⟨t, rfl⟩ := h
  obtain ⟨u, hu⟩ := trimEnd_cons (c := '#') rfl t
  have htrim : Base.trim ("  #".toList ++ t) = '#' :: u := by
    show Base.trim (' ' :: ' ' :: '#' :: t) = _
    rw [trim_cons rfl, trim_cons rfl, Base.trim, trimStart_eq_self (by simp [isWhitespace]), hu]
  rw [htrim]
  exact ⟨rfl, rfl⟩

theorem formatResultComment_hash (result : ResultData) : ∀ l ∈ formatResultComment result, HashLine l := by
  intro l hl
  cases result with
  | pathInfo info =>
    simp only [formatResultComment, formatPathInfoComment, List.mem_append, List.mem_singleton, Option.mem_toList,
      Option.map_eq_some_iff] at hl
    rcases hl with (((rfl | hl) | ⟨h, _, rfl⟩) | ⟨refs, _, rfl⟩) | ⟨ns, _, rfl⟩
    · exact ⟨_, rfl⟩
    · split at hl
      · split at hl
        · cases hl
        · rw [List.mem_singleton.mp hl]
          exact ⟨_, rfl⟩
      · cases hl
    all_goals exact ⟨_, rfl⟩
  | stringMap pairs =>
    simp only [formatResultComment, List.mem_append, List.mem_singleton, List.mem_map] at hl
    rcases hl with (rfl | ⟨kv, _, rfl⟩) | hl
    · exact ⟨_, rfl⟩
    · exact ⟨_, rfl⟩
    · split at hl
      · rw [List.mem_singleton.mp hl]
        exact ⟨_, rfl⟩
      · cases hl
  | substitutablePathInfo valid deriver refs downloadSize narSize =>
    simp only [formatResultComment, List.mem_append, List.mem_singleton, Option.mem_toList, Option.map_eq_some_iff] at hl
    rcases hl with ((rfl | ⟨d, _, rfl⟩) | ⟨ds, _, rfl⟩) | ⟨ns, _, rfl⟩
    all_goals exact ⟨_, rfl⟩
  | none => cases hl
  | missing =>
    simp only [formatResultComment, List.mem_cons, List.not_mem_nil, or_false] at hl
    rcases hl with rfl | rfl | rfl | rfl | rfl
    all_goals exact ⟨_, rfl⟩
  | _ =>
    rw [List.mem_singleton.mp hl]
    exact ⟨_, rfl⟩

theorem formatResponseComment_hash (resp : DaemonResponse) : ∀ l ∈ formatResponseComment resp, HashLine l := by
  intro l hl
  simp only [formatResponseComment, List.mem_append, List.mem_singleton, Option.mem_toList, Option.map_eq_some_iff] at hl
  rcases hl with ((rfl | hl) | ⟨err, _, rfl⟩) | hl
  · exact ⟨_, rfl⟩
  · split at hl
    · rw [List.mem_singleton.mp hl]
      exact ⟨_, rfl⟩
    · cases hl
  · exact ⟨_, rfl⟩
  · cases hresult : resp.result with
    | none =>
      rw [hresult] at hl
      cases hl
    | some result =>
      rw [hresult] at hl
      exact formatResultComment_hash result l hl

theorem HashLine.blockLine {line : Str} (h : HashLine line) : blockLine line = none := by
  simp only [NixWire.blockLine, h.trim.1, h.trim.2, Bool.or_true, Bool.true_or, if_true]

theorem HashLine.expectStep {line : Str} (h : HashLine line) (expects : List Expect) :
    expectStep expects line = .ok (.next expects) := by
  simp only [NixWire.expectStep, h.trim.1, h.trim.2, Bool.or_true, if_true]

/-- The lines of an entry after its call. -/
def afterCall (expects : List Expect) (comments : List Str) : List Str := expects.map formatExpect ++ comments

section

variable {expects : List Expect} (h : ∀ e ∈ expects, e.Written) {comments : List Str} (hcomments : ∀ l ∈ comments, HashLine l)
  {rest : List Str} (hrest : EntryEnd rest)

include h hcomments hrest

theorem parseExpects_format : parseExpects.run (afterCall expects comments ++ rest) = (.ok expects, rest) := by
  have hstep : ∀ e ∈ expects, ∀ es, expectStep es (formatExpect e) = .ok (.next (es ++ [e])) :=
    fun e he es => expectStep_formatExpect (h e he) es
  have hpass : ∀ l ∈ comments, ∀ es, expectStep es l = .ok (.next es) := fun l hl es => (hcomments l hl).expectStep es
  have hfold : expects.foldl (fun es e => es ++ [e]) [] = expects := by
    simpa [List.flatMap] using List.flatMap_singleton' expects
  have hkeep : comments.foldl (fun es (_ : Str) => es) expects = expects := List.foldl_const id expects comments ▸ by simp
  have hskip : (readLines expectStep id expects).run (comments ++ rest) = (readLines expectStep id expects).run rest := by
    have hfold := @readLines_foldl _ _ _ _ expectStep id expects rest _ id (fun es _ => es) comments hpass
    rwa [hkeep, List.map_id] at hfold
  unfold parseExpects afterCall
  rw [List.append_assoc, readLines_foldl expects hstep, hfold, hskip]
  cases rest with
  | nil => rfl
  | cons l rest =>
    refine readLines_leave ?_
    simp [NixWire.expectStep, hrest l rfl]

/-- Where the block of a call ends: at its expects, at its comments or with the entry. -/
theorem blockEnd_after : BlockEnd (afterCall expects comments ++ rest) := by
  intro l hl
  unfold afterCall at hl
  cases expects with
  | nil =>
    cases comments with
    | nil => simp [NixWire.blockLine, hrest l hl]
    | cons l' comments =>
      cases hl
      exact (hcomments l List.mem_cons_self).blockLine
  | cons e expects =>
    cases hl
    exact blockLine_formatExpect (h e List.mem_cons_self)

end

section

variable {τ : Type} (parseMs : Str → Option τ)

/-- An entry starts on `first`: at time `ms`, with the call on `line`. -/
structure EntryStart (first line : Str) (ms : Option τ) : Prop where
  printable : Printable first
  ne_nil : first ≠ []
  not_comment : startsWith ['#'] first = false
  parse : (if startsWith ['@'] first then parseTimestamp parseMs first else .ok (none, first)) = .ok (ms, line)

section

variable {parseMs} {line : Str} (hline : CallLine line)

include hline

theorem EntryStart.plain : EntryStart parseMs line line none :=
  ⟨hline.printable, hline.ne_nil, hline.not_comment, by simp only [hline.not_timestamp, Bool.false_eq_true, if_false]⟩

theorem EntryStart.stamped {num : Str} {ms : τ} (hnum : FloatText num) (hms : parseMs num = some ms) :
    EntryStart parseMs ("@".toList ++ num ++ "ms ".toList ++ line) line (some ms) where
  printable := by
    refine ⟨tight_append (by simp [isWhitespace]) (by simp) hline.printable.tight.2 hline.ne_nil, ?_⟩
    have hoff : '\n' ∉ num := fun h => (hnum _ h).2 rfl
    simp [hoff, hline.printable.oneLine]
  ne_nil := by simp
  not_comment := rfl
  parse := by
    have hoff : 'm' ∉ num := fun h => (hnum _ h).1 rfl
    have hsplit : splitOnce "ms".toList (("@".toList ++ num ++ "ms ".toList ++ line).drop 1) = some (num, ' ' :: line) := by
      have htext : ("@".toList ++ num ++ "ms ".toList ++ line).drop 1 = num ++ 'm' :: 's' :: ' ' :: line := by simp
      rw [htext]
      exact splitOnce_two hoff
    have hat : startsWith ['@'] ("@".toList ++ num ++ "ms ".toList ++ line) = true := rfl
    rw [hat, if_pos rfl]
    simp only [parseTimestamp, hsplit, hms, trim_cons (c := ' ') rfl, trim_tight hline.printable.tight]

end

theorem EntryStart.not_skipped {first line : Str} {ms : Option τ} (h : EntryStart parseMs first line ms) :
    skippedLine first = false := by
  have hempty : first.isEmpty = false := by simpa using h.ne_nil
  simp only [skippedLine, trim_tight h.printable.tight, hempty, h.not_comment, Bool.false_and, Bool.or_self]

theorem parseEntry_format {call : OpCall} {first line : Str} {ms : Option τ} {block : List Str}
    (hstart : EntryStart parseMs first line ms) (hcall : BlockReads (parseOpLine line) block call) {expects : List Expect}
    (h : ∀ e ∈ expects, e.Written) {comments : List Str} (hcomments : ∀ l ∈ comments, HashLine l) {rest : List Str}
    (hrest : EntryEnd rest) :
    (parseEntry parseMs first).run (block ++ (afterCall expects comments ++ rest)) = (.ok ⟨ms, call, none, expects⟩, rest) := by
  unfold parseEntry
  simp only [trim_tight hstart.printable.tight, hstart.parse]
  have hlift : (lift (.ok (ms, line)) : ParseM (Option τ × Str)).run (block ++ (afterCall expects comments ++ rest)) =
      (.ok (ms, line), block ++ (afterCall expects comments ++ rest)) := rfl
  rw [Rd.bind_ok hlift, Rd.bind_ok (hcall.run _ (blockEnd_after h hcomments hrest)),
    Rd.bind_ok (parseExpects_format h hcomments hrest)]
  rfl

section

variable {C : {α : Type} → ParseM α → ParseM α → Prop} (h : Congruence C)
  (hblock : ∀ {σ α : Type} (onLine : σ → Str → Except ParseError (LineStep σ α)) (finish : σ → α) (s : σ),
    C (parseBlock onLine finish s) (parseBlock onLine finish s))
  (hexpects : C parseExpects parseExpects)

include h

theorem lift_congr {α : Type} (x : Except ParseError α) : C (lift x) (lift x) := by
  cases x with
  | ok a => exact h.pure a
  | error e => exact h.fail e

include hblock

/-- What holds of every block holds of the arguments of every operation. -/
theorem parseOpArgs_congr (op : Op) (args : Str) : C (parseOpArgs op args) (parseOpArgs op args) := by
  cases op
  case setOptions | collectGarbage | verifyStore | addTextToStore | addToStore | addMultipleToStore => exact hblock _ _ _
  case addBuildLog | buildDerivation | addToStoreNar => exact h.map _ (hblock _ _ _)
  case queryValidPaths | buildPaths | buildPathsWithResults | querySubstitutablePaths | queryMissing | addSignatures |
      querySubstitutablePathInfos => exact h.bind (lift_congr h _) fun _ => h.pure _
  all_goals exact h.pure _

theorem parseOpLine_congr (line : Str) : C (parseOpLine line) (parseOpLine line) := by
  unfold parseOpLine
  split
  · exact parseOpArgs_congr h hblock _ _
  · exact h.fail _

include hexpects

theorem parseEntry_congr (line : Str) : C (parseEntry parseMs line) (parseEntry parseMs line) := by
  unfold parseEntry
  exact h.bind (lift_congr h _) fun _ => h.bind (parseOpLine_congr h hblock _) fun _ => h.bind hexpects fun _ => h.pure _

end

theorem parseEntry_forward (line : Str) : Forward (parseEntry parseMs line) :=
  parseEntry_congr parseMs forward_congruence (fun _ _ _ => readLines_forward _) (readLines_forward _) line

/-- A pass takes a line at least. -/
theorem entriesPass_shrinks : Rd.Shrinks List.length 1 (entriesPass parseMs) := by
  intro acc acc' ls ls' h
  cases ls with
  | nil => cases h
  | cons l ls =>
    have hsuffix : ls' <:+ ls := by
      have hforward : Forward (if skippedLine l then Pure.pure (.inl acc) else do
          let entry ← parseEntry parseMs l
          return .inl (acc ++ [entry]) : ParseM (List (Entry τ) ⊕ List (Entry τ))) :=
        .ite (.pure _) ((parseEntry_forward parseMs l).bind fun _ => .pure _)
      exact hforward.of_run h
    exact Nat.succ_le_succ hsuffix.length_le

theorem entriesPass_skip {line : Str} (hline : skippedLine line = true) (acc : List (Entry τ)) (ls : List Str) :
    (entriesPass parseMs acc).run (line :: ls) = (.ok (.inl acc), ls) := by
  show (if skippedLine line then Pure.pure (.inl acc) else do
    let entry ← parseEntry parseMs line
    return .inl (acc ++ [entry]) : ParseM (List (Entry τ) ⊕ List (Entry τ))).run ls = _
  rw [if_pos hline]
  rfl

theorem entriesPass_line {line : Str} (hline : skippedLine line = false) (acc : List (Entry τ)) (ls : List Str) :
    (entriesPass parseMs acc).run (line :: ls) = ((fun entry => .inl (acc ++ [entry])) <$> parseEntry parseMs line).run ls := by
  show (if skippedLine line then Pure.pure (.inl acc) else do
    let entry ← parseEntry parseMs line
    return .inl (acc ++ [entry]) : ParseM (List (Entry τ) ⊕ List (Entry τ))).run ls = _
  rw [hline, if_neg (by simp), map_eq_pure_bind]

variable (writeFile : Str → List UInt8 → Bool) (formatMs : τ → Str) {opts : FormatOptions}

theorem formatEntry_reads {entry : Entry τ} (h : entry.Writable parseMs formatMs opts) (fileCounter : Nat) :
    ∃ first line block, (formatEntry writeFile formatMs entry opts fileCounter).1 =
        first :: (block ++ afterCall entry.expects ((entry.response.map formatResponseComment).getD [])) ∧
      EntryStart parseMs first line (entry.timestampMs.bind fun ms => parseMs (formatMs ms)) ∧
      BlockReads (parseOpLine line) block entry.opCall.reread := by
  obtain ⟨line, block, hlines, hline, hblock⟩ := formatOpCall_reads writeFile h.opCall h.framed fileCounter
  have htimed := formatOpCall_timestamp writeFile (formatTimestamp formatMs entry.timestampMs) _ _ _ hlines
  have htext : (formatEntry writeFile formatMs entry opts fileCounter).1 = (formatTimestamp formatMs entry.timestampMs ++ line) ::
      (block ++ afterCall entry.expects ((entry.response.map formatResponseComment).getD [])) := by
    rw [formatEntry_eq]
    simp [htimed, afterCall]
  refine ⟨_, line, block, htext, ?_, hblock⟩
  cases hts : entry.timestampMs with
  | none => exact .plain hline
  | some ms =>
    obtain ⟨hnum, hparse⟩ := h.timestampMs ms hts
    obtain ⟨ms', hms⟩ := Option.isSome_iff_exists.mp hparse
    rw [Option.bind_some, hms]
    exact .stamped hline hnum hms

theorem formatEntries_end (entries : List (Entry τ)) (fileCounter : Nat) :
    EntryEnd (formatEntries writeFile formatMs opts entries fileCounter) := by
  intro l hl
  cases entries with
  | nil => cases hl
  | cons entry entries =>
    cases hl
    rfl

theorem responseLines_hash (response : Option DaemonResponse) :
    ∀ l ∈ (response.map formatResponseComment).getD [], HashLine l := by
  cases response with
  | none => exact fun _ hl => nomatch hl
  | some resp => exact formatResponseComment_hash resp

/-- A printed entry, and the text that follows it. -/
theorem entriesPass_format {entry : Entry τ} (h : entry.Writable parseMs formatMs opts) (fileCounter : Nat)
    (acc : List (Entry τ)) {rest : List Str} (hrest : EntryEnd rest) :
    (Rd.iterate List.length (entriesPass parseMs) acc).run
        ((formatEntry writeFile formatMs entry opts fileCounter).1 ++ rest) =
      (Rd.iterate List.length (entriesPass parseMs) (acc ++ [entry.reread parseMs formatMs])).run rest := by
  obtain ⟨first, line, block, hlines, hstart, hblock⟩ := formatEntry_reads parseMs writeFile formatMs h fileCounter
  have hexpects : ∀ e ∈ entry.expects, e.Written := fun e he => (h.expects e he).written
  have hparse := parseEntry_format parseMs hstart hblock hexpects (responseLines_hash entry.response) hrest
  have hpass := (entriesPass_line parseMs (hstart.not_skipped parseMs) acc _).trans (Rd.map_ok_iff.mpr ⟨_, hparse, rfl⟩)
  rw [hlines, List.cons_append, List.append_assoc]
  exact iterate_inl (entriesPass_shrinks parseMs) Nat.one_pos hpass

theorem parseEntries_format {entries : List (Entry τ)} (h : ∀ e ∈ entries, e.Writable parseMs formatMs opts)
    (fileCounter : Nat) (acc : List (Entry τ)) :
    (Rd.iterate List.length (entriesPass parseMs) acc).run (formatEntries writeFile formatMs opts entries fileCounter) =
      (.ok (acc ++ entries.map (Entry.reread parseMs formatMs)), []) := by
  induction entries generalizing fileCounter acc with
  | nil => simpa using iterate_inr (b := acc) (a := acc) (entriesPass_shrinks parseMs) Nat.one_pos rfl
  | cons entry entries ih =>
    have hrest : EntryEnd (formatEntries writeFile formatMs opts entries
        (formatEntry writeFile formatMs entry opts fileCounter).2) :=
      formatEntries_end writeFile formatMs entries _
    have htext : formatEntries writeFile formatMs opts (entry :: entries) fileCounter =
        [] :: ((formatEntry writeFile formatMs entry opts fileCounter).1 ++ formatEntries writeFile formatMs opts entries
          (formatEntry writeFile formatMs entry opts fileCounter).2) := rfl
    have hpass := entriesPass_format parseMs writeFile formatMs (h entry List.mem_cons_self) fileCounter acc hrest
    rw [htext, iterate_inl (entriesPass_shrinks parseMs) Nat.one_pos (entriesPass_skip parseMs rfl acc _), hpass,
      ih fun e he => h e (List.mem_cons_of_mem entry he), List.map_cons, List.append_assoc]
    rfl

theorem formatExpect_oneLine {e : Expect} (h : e.Written) : OneLine (formatExpect e) := by
  have hvalue := (h.value.tight.oneLine h.value.oneLine).blank
  rw [formatExpect_eq]
  exact (OneLine.append h.label.oneLine hvalue (List.cons_ne_nil _ _)).blank.blank

theorem formatEntry_oneLine {entry : Entry τ} (h : entry.Writable parseMs formatMs opts) (fileCounter : Nat) :
    ∀ l ∈ (formatEntry writeFile formatMs entry opts fileCounter).1, OneLine l := by
  obtain ⟨first, line, block, hlines, hstart, hblock⟩ := formatEntry_reads parseMs writeFile formatMs h fileCounter
  rw [hlines]
  intro l hl
  simp only [afterCall, List.mem_cons, List.mem_append, List.mem_map] at hl
  rcases hl with rfl | hl | ⟨e, he, rfl⟩ | hl
  · exact hstart.printable.tight.oneLine hstart.printable.oneLine
  · exact hblock.oneLine l hl
  · exact formatExpect_oneLine (h.expects e he).written
  · cases hresp : entry.response with
    | none =>
      rw [hresp] at hl
      cases hl
    | some resp =>
      rw [hresp] at hl
      exact h.response resp hresp l hl

theorem formatEntries_oneLine {entries : List (Entry τ)} (h : ∀ e ∈ entries, e.Writable parseMs formatMs opts)
    (fileCounter : Nat) : ∀ l ∈ formatEntries writeFile formatMs opts entries fileCounter, OneLine l := by
  induction entries generalizing fileCounter with
  | nil => exact fun _ hl => nomatch hl
  | cons entry entries ih =>
    have hentry := formatEntry_oneLine parseMs writeFile formatMs (h entry List.mem_cons_self) fileCounter
    have hrest := ih (fun e he => h e (List.mem_cons_of_mem entry he))
      (formatEntry writeFile formatMs entry opts fileCounter).2
    intro l hl
    rcases List.mem_cons.mp hl with rfl | hl
    · exact ⟨by simp, by simp⟩
    · rcases List.mem_append.mp hl with hl | hl
      · exact hentry l hl
      · exact hrest l hl

end

/-! ## The preamble -/

section

variable {value : Str} (hv : Tight value) (p : Preamble)

include hv

theorem preambleStep_protocol : preambleStep p ("protocol: ".toList ++ value) =
    .ok (.next { p with protocolVersion := (parseVersionStr value).getD p.protocolVersion }) := by
  have htrim : trim ("protocol: ".toList ++ value) = "protocol:".toList ++ spaced value :=
    @trim_label "protocol:".toList _ (by decide) (by decide) hv
  have hdelimiter : "protocol:".toList ++ spaced value ≠ "---".toList := by simp
  unfold preambleStep
  simp only [htrim, if_neg hdelimiter, stripPrefix_append, trim_spaced hv]
  rfl

theorem preambleStep_features : preambleStep p ("features: ".toList ++ value) =
    .ok (.next { p with clientFeatures := parseFeatureSet value }) := by
  have htrim : trim ("features: ".toList ++ value) = "features:".toList ++ spaced value :=
    @trim_label "features:".toList _ (by decide) (by decide) hv
  have hdelimiter : "features:".toList ++ spaced value ≠ "---".toList := by simp
  have hprotocol := stripPrefix_none (p := "protocol:".toList) (k := "features:".toList) (by decide) (by decide) (spaced value)
  unfold preambleStep
  simp only [htrim, if_neg hdelimiter, hprotocol, stripPrefix_append, trim_spaced hv]
  rfl

/-- A comment `# key: value`. -/
theorem preambleStep_comment (key : String) (hkey : Printable key.toList) (hne : key.toList ≠ []) :
    preambleStep p ('#' :: ' ' :: (key.toList ++ ' ' :: value)) =
      .ok (.next (preambleComment p (key.toList ++ spaced value))) := by
  have hlabel : Tight ('#' :: ' ' :: key.toList) :=
    tight_append (a := ['#', ' ']) (by simp [isWhitespace]) (List.cons_ne_nil _ _) hkey.tight.2 hne
  have htrim : trim ('#' :: ' ' :: (key.toList ++ ' ' :: value)) = '#' :: ' ' :: (key.toList ++ spaced value) :=
    trim_label hlabel (List.cons_ne_nil _ _) hv
  have hcontent : trim (trimStartMatches '#' ('#' :: ' ' :: (key.toList ++ spaced value))) = key.toList ++ spaced value := by
    show trim (' ' :: (key.toList ++ spaced value)) = _
    rw [trim_cons rfl, trim_label_spaced hkey.tight hne hv]
  have hdelimiter : '#' :: ' ' :: (key.toList ++ spaced value) ≠ "---".toList := by simp
  unfold preambleStep
  simp only [htrim, if_neg hdelimiter, hcontent]
  rfl

theorem preambleComment_daemon :
    preambleComment p ("daemon:".toList ++ spaced value) = { p with daemonVersion := some value } := by
  simp only [preambleComment, stripPrefix_append, trim_spaced hv]

theorem preambleComment_trust : preambleComment p ("trust:".toList ++ spaced value) = { p with trust := some value } := by
  have hdaemon := stripPrefix_none (p := "daemon:".toList) (k := "trust:".toList) (by decide) (by decide) (spaced value)
  simp only [preambleComment, hdaemon, stripPrefix_append, trim_spaced hv]

theorem preambleComment_serverFeatures : preambleComment p ("server_features:".toList ++ spaced value) =
    { p with serverFeatures := some (parseFeatureSet value) } := by
  have hdaemon := stripPrefix_none (p := "daemon:".toList) (k := "server_features:".toList) (by decide) (by decide)
    (spaced value)
  have htrust := stripPrefix_none (p := "trust:".toList) (k := "server_features:".toList) (by decide) (by decide)
    (spaced value)
  simp only [preambleComment, hdaemon, htrust, stripPrefix_append, trim_spaced hv]

end

theorem formatPreambleExpect_eq (e : Expect) : formatPreambleExpect e = e.label ++ ' ' :: e.value := by
  obtain ⟨t, ht⟩ := e.label_eq
  have hstart : trimStart (formatExpect e) = e.label ++ ' ' :: e.value := by
    rw [formatExpect_eq, ht]
    rfl
  cases e with
  | daemon m => exact List.append_assoc "expect daemon:".toList [' '] m.display
  | trust m => exact List.append_assoc "expect trust:".toList [' '] m.display
  | serverFeatures m => exact List.append_assoc "expect server_features:".toList [' '] m.display
  | terminal t => exact hstart
  | result field m => exact hstart
  | error m => exact hstart
  | stderrCount m => exact hstart

theorem preambleStep_expect {e : Expect} (h : e.Written) (p : Preamble) :
    preambleStep p (formatPreambleExpect e) = .ok (.next { p with expects := p.expects ++ [e] }) := by
  obtain ⟨t, ht⟩ := e.label_eq
  have hne : e.label ≠ [] := by simp [ht]
  have htrim : trim (formatPreambleExpect e) = e.label ++ spaced e.value := by
    rw [formatPreambleExpect_eq, trim_label h.label.tight hne h.value.tight]
  have hstart : startsWith "expect ".toList (e.label ++ spaced e.value) = true ∨
      startsWith "expect:".toList (e.label ++ spaced e.value) = true := by
    cases e with
    | terminal t => exact Or.inr rfl
    | result field m => cases field <;> exact Or.inl rfl
    | _ => exact Or.inl rfl
  have hparse := parseExpect_label h
  have hprotocol := stripPrefix_none (p := "protocol:".toList) (k := "expect".toList) (by decide) (by decide)
    (t ++ spaced e.value)
  have hfeatures := stripPrefix_none (p := "features:".toList) (k := "expect".toList) (by decide) (by decide)
    (t ++ spaced e.value)
  rw [← List.append_assoc, ← ht] at hprotocol hfeatures
  have hempty : (e.label ++ spaced e.value).isEmpty = false := by simp [ht]
  have hdelimiter : e.label ++ spaced e.value ≠ "---".toList := by simp [ht]
  have hhash : startsWith ['#'] (e.label ++ spaced e.value) = false := by simp [ht]
  unfold preambleStep
  simp only [htrim, hempty, hdelimiter, hhash, hprotocol, hfeatures, hparse, Bool.or_eq_true, hstart, if_true, if_false,
    Bool.false_eq_true]
  rfl

/-- A line that is written only for some value. -/
theorem readPreamble_option {α : Type} {x : Option α} {line : α → Str} {p q : Preamble} {rest : List Str}
    (hsome : ∀ a ∈ x, preambleStep p (line a) = .ok (.next q)) (hnone : x = none → p = q) :
    (readLines preambleStep id p).run ((x.map line).toList ++ rest) = (readLines preambleStep id q).run rest := by
  cases x with
  | none =>
    rw [hnone rfl]
    rfl
  | some a => exact readLines_next (hsome a rfl)

theorem parsePreamble_format {p : Preamble} (h : p.Clean) (rest : List Str) :
    parsePreamble.run (formatPreamble p ++ rest) = (.ok p, rest) := by
  have hheader : preambleStep .default "# nwscript v1".toList = .ok (.next .default) := rfl
  have hversion := display_printable p.protocolVersion
  have hfeatures := formatPathSet_printable (cleanElements h.clientFeatures)
  have hexpects : ∀ e ∈ p.expects, ∀ q : Preamble, preambleStep q (formatPreambleExpect e) =
      .ok (.next { q with expects := q.expects ++ [e] }) := fun e he q => preambleStep_expect (h.expects e he).written q
  have hfold : ∀ (es : List Expect) (q : Preamble),
      es.foldl (fun q e => { q with expects := q.expects ++ [e] }) q = { q with expects := q.expects ++ es } := by
    intro es
    induction es with
    | nil => simp
    | cons e es ih =>
      intro q
      rw [List.foldl_cons, ih]
      simp
  unfold parsePreamble formatPreamble
  simp only [List.cons_append, List.nil_append, List.append_assoc]
  rw [readLines_next hheader, readLines_next (preambleStep_protocol hversion.tight _), parseVersionStr_display,
    readLines_next (preambleStep_features hfeatures.tight _), parseFeatureSet_format h.clientFeatures]
  -- the preamble so far, before each of its comments
  show (readLines preambleStep id ⟨p.protocolVersion, p.clientFeatures, [], none, none, none⟩).run _ = _
  rw [readPreamble_option (q := ⟨p.protocolVersion, p.clientFeatures, [], p.daemonVersion, none, none⟩) (fun v hv => ?_)
      (fun hv => by rw [hv]),
    readPreamble_option (q := ⟨p.protocolVersion, p.clientFeatures, [], p.daemonVersion, p.trust, none⟩) (fun t ht => ?_)
      (fun ht => by rw [ht]),
    readPreamble_option (q := ⟨p.protocolVersion, p.clientFeatures, [], p.daemonVersion, p.trust, p.serverFeatures⟩)
      (fun feats hfeats => ?_) (fun hfeats => by rw [hfeats]),
    readLines_foldl p.expects hexpects, hfold]
  · exact readLines_done rfl
  · have hset := h.serverFeatures feats hfeats
    have htight := (formatPathSet_printable (cleanElements hset)).tight
    refine (preambleStep_comment htight _ "server_features:" (by decide) (by decide)).trans ?_
    rw [preambleComment_serverFeatures htight, parseFeatureSet_format hset, hfeats]
  · refine (preambleStep_comment (h.trust t ht).tight _ "trust:" (by decide) (by decide)).trans ?_
    rw [preambleComment_trust (h.trust t ht).tight, ht]
  · refine (preambleStep_comment (h.daemonVersion v hv).tight _ "daemon:" (by decide) (by decide)).trans ?_
    rw [preambleComment_daemon (h.daemonVersion v hv).tight, hv]

theorem default_clean : Preamble.Clean .default :=
  ⟨by simp [Preamble.default], by simp [Preamble.default], by simp [Preamble.default], by simp [Preamble.default],
    by simp [Preamble.default]⟩

theorem formatPreamble_oneLine {p : Preamble} (h : p.Clean) : ∀ l ∈ formatPreamble p, OneLine l := by
  have hvalue : ∀ {key value : Str}, '\n' ∉ key → key.getLast? ≠ some '\r' → Printable value → OneLine (key ++ value) :=
    fun hkey hlast hv => .concat ⟨hkey, hlast⟩ (hv.tight.oneLine hv.oneLine)
  intro l hl
  simp only [formatPreamble, List.mem_append, List.mem_cons, List.not_mem_nil, or_false, Option.mem_toList,
    Option.map_eq_some_iff, List.mem_map] at hl
  rcases hl with (((((rfl | rfl | rfl) | ⟨v, hv, rfl⟩) | ⟨t, ht, rfl⟩) | ⟨feats, hfeats, rfl⟩) | ⟨e, he, rfl⟩) | rfl
  · exact ⟨by decide, by decide⟩
  · exact hvalue (by decide) (by decide) (display_printable _)
  · exact hvalue (by decide) (by decide) (formatPathSet_printable (cleanElements h.clientFeatures))
  · exact hvalue (by decide) (by decide) (h.daemonVersion v hv)
  · exact hvalue (by decide) (by decide) (h.trust t ht)
  · exact hvalue (by decide) (by decide) (formatPathSet_printable (cleanElements (h.serverFeatures feats hfeats)))
  · have hw := (h.expects e he).written
    rw [formatPreambleExpect_eq]
    exact .append hw.label.oneLine (hw.value.tight.oneLine hw.value.oneLine).blank (List.cons_ne_nil _ _)
  · exact ⟨by decide, by decide⟩

/-! ## The round trip -/

section

variable {τ : Type} (parseMs : Str → Option τ) (writeFile : Str → List UInt8 → Bool) (formatMs : τ → Str)

/-- A formatted script is read with its entries reread. -/
theorem parseScript_format {s : Script τ} {opts : FormatOptions} (hpreamble : s.preamble.Clean)
    (hentries : ∀ e ∈ s.entries, e.Writable parseMs formatMs opts) :
    parseScript parseMs (formatScript writeFile formatMs s opts) =
      .ok ⟨s.preamble, s.entries.map (Entry.reread parseMs formatMs)⟩ := by
  have hlines : lines (formatScript writeFile formatMs s opts) =
      formatPreamble s.preamble ++ formatEntries writeFile formatMs opts s.entries 0 := by
    refine lines_written fun l hl => ?_
    rcases List.mem_append.mp hl with hl | hl
    · exact formatPreamble_oneLine hpreamble l hl
    · exact formatEntries_oneLine parseMs writeFile formatMs hentries 0 l hl
  unfold parseScript
  rw [hlines, Rd.bind_ok (parsePreamble_format hpreamble _), parseEntries,
    Rd.bind_ok (parseEntries_format parseMs writeFile formatMs hentries 0 [])]
  rfl

end

theorem parse_format {τ : Type} (parseMs : Str → Option τ) (writeFile : Str → List UInt8 → Bool) (formatMs : τ → Str)
    {s : Script τ} (hs : s.Clean) : parseScript parseMs (formatScript writeFile formatMs s .default) = .ok s := by
  have hentries : s.entries.map (Entry.reread parseMs formatMs) = s.entries :=
    (List.map_congr_left fun e he => (hs.entries e he).reread parseMs formatMs).trans (List.map_id _)
  rw [parseScript_format parseMs writeFile formatMs hs.preamble fun e he => (hs.entries e he).writable parseMs formatMs,
    hentries]

/-- A script with a few shapes of call, expects on both levels and comments in the preamble. -/
def sampleScript : Script Unit where
  preamble := {
    protocolVersion := .new 1 38, clientFeatures := ["ca-derivations".toList],
    expects := [.daemon (.exact "2.24.1".toList), .trust (.regex "trust.*".toList)],
    daemonVersion := some "2.24.1".toList, trust := some [], serverFeatures := some [] }
  entries := [
    { timestampMs := none, opCall := .pathSetMode .buildPaths ["/nix/store/a.drv".toList] "normal".toList, response := none,
      expects := [.terminal "Last".toList, .result (some "valid".toList) (.greaterOrEqual (-1))] },
    { timestampMs := none, opCall := .addTextToStore "notes".toList "two\nlines: \"quoted\"".toList [], response := none,
      expects := [] },
    { timestampMs := none, opCall := .addBuildLog "/nix/store/a.drv".toList (.inline [0, 255]), response := none,
      expects := [.stderrCount (.lessThan 5)] }]

theorem parse_format_sample : parseScript (fun _ => none)
    (formatScript (fun _ _ => false) (fun _ => []) sampleScript .default) = .ok sampleScript := by
  refine parse_format _ _ _ ⟨⟨by decide, ?_, by decide, by decide, by decide⟩, ?_⟩
  · simp only [sampleScript, List.forall_mem_cons]
    exact ⟨⟨"expect daemon: 2.24.1".toList, by decide, by decide⟩,
      ⟨"expect trust: /trust.*/".toList, by decide, by decide⟩, List.forall_mem_nil _⟩
  · simp only [sampleScript, List.forall_mem_cons]
    refine ⟨⟨rfl, ⟨by decide, by decide, by decide⟩, rfl, ?_⟩,
      ⟨rfl, ⟨by decide, by decide, List.forall_mem_nil _⟩, rfl, List.forall_mem_nil _⟩,
      ⟨rfl, ⟨by decide, trivial⟩, rfl, ?_⟩, List.forall_mem_nil _⟩
    · simp only [List.forall_mem_cons]
      exact ⟨⟨"expect: Last".toList, by decide, by decide⟩,
        ⟨"expect result.valid: >= -1".toList, by decide, by decide⟩, List.forall_mem_nil _⟩
    · simp only [List.forall_mem_cons]
      exact ⟨⟨"expect stderr.count: < 5".toList, by decide, by decide⟩, List.forall_mem_nil _⟩

end NixWire
