/-
  NixWire.Fields — which fields of an entry come back as they were.

  An entry is read back as `Entry.reread` says (`parseEntries_entry`), so each kind of field
  survives exactly when its strings have nothing that its reader takes for syntax:

  - `path_sets_survive`: a set, when no element has a comma.
  - `text_survives`: the text of AddTextToStore, when no `n`, `r` or `t` stands directly
    after a backslash.
  - `quoted_fields_survive`: the other quoted fields, when they hold no escape; an override,
    when it holds no quote.
-/

import NixWire.Roundtrip

namespace NixWire

open Base

/-! ## One entry -/

section

variable {τ : Type} (parseMs : Str → Option τ) (writeFile : Str → List UInt8 → Bool) (formatMs : τ → Str)
  {opts : FormatOptions}

/-- The entries read off a printed entry. -/
def readEntry (entry : Entry τ) (opts : FormatOptions) (fileCounter : Nat) : Res ParseError (List (Entry τ)) :=
  ((parseEntries parseMs).run (lines ((formatEntry writeFile formatMs entry opts fileCounter).1.flatMap writeln))).1

theorem parseEntries_entry {entry : Entry τ} (h : entry.Writable parseMs formatMs opts) (fileCounter : Nat) :
    readEntry parseMs writeFile formatMs entry opts fileCounter = .ok [entry.reread parseMs formatMs] := by
  have hrun := entriesPass_format parseMs writeFile formatMs h fileCounter [] (fun _ hl => nomatch hl : EntryEnd [])
  have hend : (Rd.iterate List.length (entriesPass parseMs) ([] ++ [entry.reread parseMs formatMs])).run [] =
      (.ok ([] ++ [entry.reread parseMs formatMs]), []) := iterate_inr (entriesPass_shrinks parseMs) Nat.one_pos rfl
  rw [List.append_nil, hend] at hrun
  rw [readEntry, lines_written (formatEntry_oneLine parseMs writeFile formatMs h fileCounter), parseEntries, hrun]
  rfl

end

/-- A call on its own. -/
def bareEntry (call : OpCall) : Entry Unit := ⟨none, call, none, []⟩

theorem bareEntry_writable {call : OpCall} (h : call.Writable) (hframed : call.framed = none) :
    (bareEntry call).Writable (fun _ => none) (fun _ => []) .default where
  timestampMs := fun _ hms => nomatch hms
  opCall := h
  framed := by
    intro data hdata
    rw [show (bareEntry call).opCall.framed = none from hframed] at hdata
    cases hdata
  response := fun _ hresp => nomatch hresp
  expects := List.forall_mem_nil _

/-- How a call on its own is read back. -/
def readBare (call : OpCall) : Res ParseError (List (Entry Unit)) :=
  readEntry (fun _ => none) (fun _ _ => false) (fun _ => []) (bareEntry call) .default 0

theorem readBare_reread {call : OpCall} (h : call.Writable) (hframed : call.framed = none) :
    readBare call = .ok [bareEntry call.reread] := parseEntries_entry _ _ _ (bareEntry_writable h hframed) 0

/-! ## Sets -/

/-- The elements of a call's set. -/
def OpCall.set : OpCall → List Str
  | .pathSet _ paths | .pathSetFlag _ paths _ | .pathSetMode _ paths _ | .collectGarbage _ paths _ _
  | .querySubstitutablePathInfos paths => paths
  | .addSignatures _ sigs => sigs
  | .addTextToStore _ _ refs | .addToStore _ _ refs _ _ => refs
  | _ => []

theorem reread_set (call : OpCall) : call.reread.set = cutCommas call.set := by cases call <;> rfl

/-- A printed set is read back as it was exactly when no element has a comma, wherever it stands. -/
theorem path_sets_survive {τ : Type} (parseMs : Str → Option τ) (writeFile : Str → List UInt8 → Bool) (formatMs : τ → Str)
    (opts : FormatOptions) (fileCounter : Nat) :
    (∀ paths : List Str, (∀ p ∈ paths, SetElement p) →
      (parseInlinePathSet (formatPathSet paths) = .ok (paths, []) ↔ ∀ p ∈ paths, ',' ∉ p)) ∧
    ∀ entry : Entry τ, entry.Writable parseMs formatMs opts →
      ∃ e, readEntry parseMs writeFile formatMs entry opts fileCounter = .ok [e] ∧
        (e.opCall.set = entry.opCall.set ↔ ∀ p ∈ entry.opCall.set, ',' ∉ p) := by
  refine ⟨fun paths h => ?_, fun entry h => ?_⟩
  · rw [parseInlinePathSet_set h, Except.ok.injEq, Prod.mk.injEq, eq_self, and_true, cutCommas_self]
  · refine ⟨_, parseEntries_entry parseMs writeFile formatMs h fileCounter, ?_⟩
    show entry.opCall.reread.set = _ ↔ _
    rw [reread_set, cutCommas_self]

theorem path_sets_survive_build :
    let paths := ["/nix/store/a.drv!out".toList, "/nix/store/b.drv!*".toList]
    parseInlinePathSet (formatPathSet paths) = .ok (paths, []) ∧
      ∃ e, readBare (.pathSetMode .buildPaths paths "normal".toList) = .ok [e] ∧ e.opCall.set = paths := by
  intro paths
  have hpaths : (∀ p ∈ paths, SetElement p) ∧ ∀ p ∈ paths, ',' ∉ p := by decide
  obtain ⟨hset, hentry⟩ := @path_sets_survive Unit (fun _ => none) (fun _ _ => false) (fun _ => []) .default 0
  have hwritable : (OpCall.pathSetMode .buildPaths paths "normal".toList).Writable := ⟨by decide, hpaths.1, by decide⟩
  obtain ⟨e, he, hsame⟩ := hentry _ (bareEntry_writable hwritable rfl)
  exact ⟨(hset paths hpaths.1).mpr hpaths.2, e, he, hsame.mpr hpaths.2⟩

/-- The derived path of several outputs that the example session builds. -/
theorem path_set_outputs :
    let paths := ["/nix/store/x.drv!man,out".toList]
    (∀ p ∈ paths, SetElement p) ∧
      parseInlinePathSet (formatPathSet paths) = .ok (["/nix/store/x.drv!man".toList, "out".toList], []) ∧
      parseInlinePathSet (formatPathSet paths) ≠ .ok (paths, []) := by decide

/-! ## Text -/

theorem writeBytes_inj {a b : List UInt8} (h : writeBytes a = writeBytes b) : a = b := by
  simp only [writeBytes, writeU64, List.append_assoc] at h
  obtain ⟨hlen, hrest⟩ := word_append_inj h
  rw [hlen] at hrest
  exact List.append_cancel_right hrest

theorem writeString_inj {s t : Str} (h : writeString s = writeString t) : s = t := by
  have hs := fromUtf8_utf8 s
  rw [writeBytes_inj h, fromUtf8_utf8] at hs
  exact (Option.some.inj hs).symm

/-- Escaped text is read back, and reaches the wire, as it was exactly when no `n`, `r` or `t` stands directly after a
backslash. -/
theorem text_survives {τ : Type} (parseMs : Str → Option τ) (writeFile : Str → List UInt8 → Bool) (formatMs : τ → Str)
    (readFile : Str → Except Str (List UInt8)) (opts : FormatOptions) (baseDir : Option Str) :
    (∀ s, unquote ('"' :: escapeString s ++ ['"']) = s ↔ ¬BackslashBefore ['n', 'r', 't'] s) ∧
    ∀ script : Script τ, script.preamble.Clean → (∀ e ∈ script.entries, e.Writable parseMs formatMs opts) →
      ∃ parsed, parseScript parseMs (formatScript writeFile formatMs script opts) = .ok parsed ∧
        parsed.preamble = script.preamble ∧ parsed.entries.length = script.entries.length ∧
        ∀ (i : Nat) (entry : Entry τ) (suffix text : Str) (refs : List Str), script.entries[i]? = some entry →
          entry.opCall = .addTextToStore suffix text refs →
          ∃ e suffix' text' refs', parsed.entries[i]? = some e ∧ e.opCall = .addTextToStore suffix' text' refs' ∧
            serializeOpArgs readFile e.opCall script.preamble.protocolVersion baseDir =
              .ok (writeString suffix' ++ writeString text' ++ writeStringSet refs') ∧
            (writeString text' = writeString text ↔ ¬BackslashBefore ['n', 'r', 't'] text) := by
  constructor
  · intro s
    rw [unquote_quoted, unescape_escape, mangled_self]
  · intro script hpreamble hentries
    refine ⟨_, parseScript_format parseMs writeFile formatMs hpreamble hentries, rfl, List.length_map _, ?_⟩
    intro i entry suffix text refs hentry hcall
    have hreread : (entry.reread parseMs formatMs).opCall = .addTextToStore (unescape suffix) (mangled text) (cutCommas refs) := by
      rw [Entry.reread, hcall, OpCall.reread]
    refine ⟨entry.reread parseMs formatMs, _, _, _, by rw [List.getElem?_map, hentry]; rfl, hreread, ?_, ?_⟩
    · rw [hreread, serializeOpArgs]
    · rw [← mangled_self]
      exact ⟨writeString_inj, fun h => by rw [h]⟩

/-- A script that adds one text. -/
def textScript (text : Str) : Script Unit := ⟨.default, [bareEntry (.addTextToStore "notes".toList text [])]⟩

theorem text_survives_backslash :
    let text := "a \\\"quoted\\\" \\\\ text\n".toList
    unquote ('"' :: escapeString text ++ ['"']) = text ∧ ∃ parsed : Script Unit,
      parseScript (fun _ => none) (formatScript (fun _ _ => false) (fun _ => []) (textScript text) .default) = .ok parsed ∧
      ∃ e ∈ parsed.entries, ∃ suffix refs, serializeOpArgs (fun _ => .error []) e.opCall (.new 1 38) none =
        .ok (writeString suffix ++ writeString text ++ writeStringSet refs) := by
  intro text
  have htext : ¬BackslashBefore ['n', 'r', 't'] text := by decide
  obtain ⟨hquoted, hscript⟩ :=
    @text_survives Unit (fun _ => none) (fun _ _ => false) (fun _ => []) (fun _ => .error []) .default none
  have hentries : ∀ e ∈ (textScript text).entries, e.Writable (fun _ => none) (fun _ => []) .default := by
    intro e he
    rw [List.mem_singleton.mp he]
    have hwritable : (OpCall.addTextToStore "notes".toList text []).Writable := ⟨by decide, List.forall_mem_nil _⟩
    exact bareEntry_writable hwritable rfl
  obtain ⟨parsed, hparse, -, -, hwire⟩ := hscript (textScript text) default_clean hentries
  obtain ⟨e, suffix', text', refs', he, -, hbytes, hsame⟩ := hwire 0 _ _ _ _ rfl rfl
  rw [hsame.mpr htext] at hbytes
  exact ⟨(hquoted text).mpr htext, parsed, hparse, e, List.mem_of_getElem? he, suffix', refs', hbytes⟩

/-- A backslash and an `n`, as in a Windows path, come back as a backslash and a line feed. -/
theorem text_new : unquote ('"' :: escapeString "C:\\new".toList ++ ['"']) = "C:\\\new".toList ∧
    "C:\\\new".toList ≠ "C:\\new".toList := by decide

/-! ## The other quoted fields -/

/-- The quoted fields other than `text` hold nothing that their readers take for syntax. -/
def OpCall.QuotedPlain : OpCall → Prop
  | .setOptions _ _ _ _ _ _ _ _ _ _ _ _ overrides => ∀ o ∈ overrides, '"' ∉ o.1 ∧ '"' ∉ o.2
  | .addTextToStore suffix _ _ => ¬BackslashBefore escapeLetters suffix
  | .addToStore name camStr _ _ _ => ¬BackslashBefore escapeLetters name ∧ ¬BackslashBefore escapeLetters camStr
  | _ => True

/-- Sets and text survive. -/
def OpCall.OthersPlain (call : OpCall) : Prop :=
  (∀ p ∈ call.set, ',' ∉ p) ∧ ∀ suffix text refs, call = .addTextToStore suffix text refs →
    ¬BackslashBefore ['n', 'r', 't'] text

theorem reread_self {call : OpCall} (h : call.OthersPlain) : call.reread = call ↔ call.QuotedPlain := by
  obtain ⟨hset, htext⟩ := h
  have hcut := cutCommas_self.mpr hset
  cases call with
  | pathSet => exact iff_of_true (by rw [OpCall.reread]; exact congrArg _ hcut) trivial
  | pathSetFlag => exact iff_of_true (by rw [OpCall.reread]; exact congrArg (OpCall.pathSetFlag _ · _) hcut) trivial
  | pathSetMode => exact iff_of_true (by rw [OpCall.reread]; exact congrArg (OpCall.pathSetMode _ · _) hcut) trivial
  | setOptions => simp only [OpCall.reread, OpCall.QuotedPlain, OpCall.setOptions.injEq, true_and, readOverrides_self]
  | collectGarbage => exact iff_of_true (by rw [OpCall.reread]; exact congrArg (OpCall.collectGarbage _ · _ _) hcut) trivial
  | addSignatures => exact iff_of_true (by rw [OpCall.reread]; exact congrArg _ hcut) trivial
  | querySubstitutablePathInfos => exact iff_of_true (by rw [OpCall.reread]; exact congrArg _ hcut) trivial
  | addTextToStore suffix text refs =>
    have hrefs : cutCommas refs = refs := hcut
    have htext := mangled_self.mpr (htext suffix text refs rfl)
    simp only [OpCall.reread, OpCall.QuotedPlain, OpCall.addTextToStore.injEq, hrefs, htext, and_true, unescape_self]
  | addToStore name camStr refs repair data =>
    have hrefs : cutCommas refs = refs := hcut
    simp only [OpCall.reread, OpCall.QuotedPlain, OpCall.addToStore.injEq, hrefs, and_true, unescape_self]
  | _ => exact iff_of_true rfl trivial

/-- An entry whose sets and text survive is read back with its call exactly when its quoted fields are plain. -/
theorem quoted_fields_survive {τ : Type} (parseMs : Str → Option τ) (writeFile : Str → List UInt8 → Bool)
    (formatMs : τ → Str) (opts : FormatOptions) (fileCounter : Nat) {entry : Entry τ}
    (h : entry.Writable parseMs formatMs opts) (hothers : entry.opCall.OthersPlain) :
    (∃ e, readEntry parseMs writeFile formatMs entry opts fileCounter = .ok [e] ∧ e.opCall = entry.opCall) ↔
      entry.opCall.QuotedPlain := by
  rw [parseEntries_entry parseMs writeFile formatMs h, ← reread_self hothers]
  constructor
  · intro he
    obtain ⟨e, heq, hcall⟩ := he
    cases heq
    exact hcall
  · exact fun hcall => ⟨_, rfl, hcall⟩

/-- An override with a blank, a colon and a backslash. -/
theorem quoted_fields_survive_plain :
    let call := .setOptions 0 0 0 0 0 0 0 0 0 0 0 0 [("sub = x".toList, "a: \\n # b".toList)]
    ∃ e, readBare call = .ok [e] ∧ e.opCall = call := by
  intro call
  have hwritable : ∀ o ∈ [("sub = x".toList, "a: \\n # b".toList)], '\n' ∉ o.1 ∧ '\n' ∉ o.2 := by decide
  have hplain : ∀ o ∈ [("sub = x".toList, "a: \\n # b".toList)], '"' ∉ o.1 ∧ '"' ∉ o.2 := by decide
  have hentry : (bareEntry call).Writable (fun _ => none) (fun _ => []) .default := bareEntry_writable hwritable rfl
  exact (quoted_fields_survive _ _ _ _ _ hentry ⟨List.forall_mem_nil _, fun _ _ _ h => nomatch h⟩).mpr hplain

/-- An override is dropped, another cut short, and a suffix changed. -/
theorem quoted_fields_lost :
    let options := OpCall.setOptions 0 0 0 0 0 0 0 0 0 0 0 0 [("a\"".toList, "b".toList), ("c".toList, "d\"e".toList)]
    let text := OpCall.addTextToStore "a\\nb".toList [] []
    options.Writable ∧ text.Writable ∧
      readBare options = .ok [bareEntry (.setOptions 0 0 0 0 0 0 0 0 0 0 0 0 [("c".toList, "d".toList)])] ∧
      readBare text = .ok [bareEntry (.addTextToStore "a\nb".toList [] [])] ∧
      (¬∃ e, readBare options = .ok [e] ∧ e.opCall = options) ∧ ¬∃ e, readBare text = .ok [e] ∧ e.opCall = text := by
  intro options text
  have hoptions : options.Writable := by
    show ∀ o ∈ [("a\"".toList, "b".toList), ("c".toList, "d\"e".toList)], '\n' ∉ o.1 ∧ '\n' ∉ o.2
    decide
  have htext : text.Writable := ⟨by decide, List.forall_mem_nil _⟩
  have hoverrides : readOverrides [("a\"".toList, "b".toList), ("c".toList, "d\"e".toList)] = [("c".toList, "d".toList)] := by
    decide
  have hsuffix : unescape "a\\nb".toList = "a\nb".toList := by decide
  have hoptionsRead := readBare_reread hoptions rfl
  have htextRead := readBare_reread htext rfl
  simp only [options, text, OpCall.reread, hoverrides, hsuffix] at hoptionsRead htextRead
  refine ⟨hoptions, htext, hoptionsRead, htextRead, ?_, ?_⟩
  · intro h
    obtain ⟨e, he, hcall⟩ := h
    rw [hoptionsRead] at he
    cases he
    simp [bareEntry, options] at hcall
  · intro h
    obtain ⟨e, he, hcall⟩ := h
    rw [htextRead] at he
    cases he
    simp [bareEntry, text] at hcall

end NixWire
