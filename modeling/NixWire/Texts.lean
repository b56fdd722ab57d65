/-
  NixWire.Texts — what of a script's text the parser does not see, and texts put together.

  Of a line the parser sees whether it is indented, and the text between its outer
  blanks. So deeper indents, tabs for blanks, blanks at the end of a line and carriage
  returns change nothing (`blanks_unseen`).

  An operation ends before a line that is not indented, whatever the line is. So where
  the second of two bodies starts with one, the two put together have the operations of
  the one, then those of the other, and are sent so (`bodies_joined`).
-/

import NixWire.Base.LineRel
import NixWire.Commands

namespace NixWire

open Base

/-! ## What is not seen -/

/-- The parser sees the same of the two. -/
def Alike (l l' : Str) : Prop := trim l = trim l' ∧ indented l = indented l'

theorem Alike.blockLine {l l' : Str} (h : Alike l l') : blockLine l = blockLine l' := by
  unfold NixWire.blockLine
  rw [h.1, h.2]

theorem parseBlock_alikes {σ α : Type} (onLine : σ → Str → Except ParseError (LineStep σ α)) (finish : σ → α) (s : σ) :
    Rel (List.Forall₂ Alike) (parseBlock onLine finish s) (parseBlock onLine finish s) := by
  refine readLines_alike (fun s l l' h => ?_) s
  rw [h.blockLine]

theorem parseExpects_alikes : Rel (List.Forall₂ Alike) parseExpects parseExpects := by
  refine readLines_alike (fun s l l' h => ?_) []
  unfold expectStep
  rw [h.1, h.2]

theorem parsePreamble_alikes : Rel (List.Forall₂ Alike) parsePreamble parsePreamble := by
  refine readLines_alike (fun p l l' h => ?_) Preamble.default
  unfold preambleStep
  rw [h.1]

section

variable {τ : Type} (parseMs : Str → Option τ)

theorem entriesPass_alikes (entries : List (Entry τ)) :
    Rel (List.Forall₂ Alike) (entriesPass parseMs entries) (entriesPass parseMs entries) := by
  refine nextLine_alike (.pure _) fun l l' h => ?_
  have hskipped : skippedLine l = skippedLine l' := by
    unfold skippedLine
    rw [h.1]
  have hentry : parseEntry parseMs l = parseEntry parseMs l' := by
    unfold parseEntry
    rw [h.1]
  rw [hskipped, hentry]
  refine Rel.ite (.pure _) ?_
  exact (parseEntry_congr parseMs rel_congruence parseBlock_alikes parseExpects_alikes l').bind fun _ => .pure _

theorem parseScript_alikes {text text' : Str} (h : List.Forall₂ Alike (lines text) (lines text')) :
    parseScript parseMs text' = parseScript parseMs text := by
  have hpure : ∀ script : Script τ, Rel (List.Forall₂ Alike) (pure script : ParseM (Script τ)) (pure script) := Rel.pure
  have hrel := parsePreamble_alikes.bind fun preamble =>
    (iterate_alike (entriesPass_alikes parseMs) []).bind fun entries => hpure ⟨preamble, entries⟩
  exact (hrel _ _ h).1.symm

/-! ## Line ends -/

/-- The text with a carriage return before each line feed. -/
def crlf (text : Str) : Str := text.flatMap fun c => if c = '\n' then ['\r', '\n'] else [c]

theorem crlf_append (s t : Str) : crlf (s ++ t) = crlf s ++ crlf t := by
  rw [crlf, List.flatMap_append]
  rfl

theorem crlf_line {s : Str} (h : '\n' ∉ s) : crlf s = s := by
  have hchars : crlf s = s.flatMap fun c => [c] := by
    refine List.flatMap_congr fun c hc => ?_
    have hne : c ≠ '\n' := fun heq => h (by rwa [← heq])
    rw [if_neg hne]
  rw [hchars, List.flatMap_singleton']

theorem crlf_written {ls : List Str} (h : ∀ l ∈ ls, '\n' ∉ l) :
    crlf (ls.flatMap writeln) = (ls.map (· ++ ['\r'])).flatMap writeln := by
  induction ls with
  | nil => rfl
  | cons l ls ih =>
    obtain ⟨hl, hls⟩ := List.forall_mem_cons.mp h
    have hend : crlf ['\n'] = ['\r', '\n'] := rfl
    rw [List.flatMap_cons, crlf_append, ih hls, writeln, crlf_append, crlf_line hl, hend]
    simp [writeln]

/-- The lines of written lines with the rest of a line after them. -/
theorem lines_rest {ls : List Str} {b : Str} (hls : ∀ l ∈ ls, '\n' ∉ l) (hb : '\n' ∉ b) :
    lines (ls.flatMap writeln ++ b) = ls.map stripCr ++ (if b.isEmpty then [] else [b]) := by
  rw [lines, splitOn_written hls hb, List.dropLast_concat, List.getLast?_concat]
  cases b with
  | nil => rfl
  | cons c b => rfl

theorem Alike.refl (l : Str) : Alike l l := ⟨rfl, rfl⟩

/-- A carriage return at the end is not seen. -/
theorem alike_stripCr (l : Str) : Alike (stripCr l) l := by
  refine ⟨trim_stripCr l, ?_⟩
  unfold stripCr
  split
  · rename_i hlast
    obtain ⟨t, rfl⟩ : ∃ t, l = t ++ ['\r'] := ⟨l.dropLast, (List.dropLast_append_getLast? _ hlast).symm⟩
    rw [List.dropLast_concat]
    rcases t with _ | ⟨c, _ | ⟨d, t⟩⟩ <;> simp [indented, startsWith, List.isPrefixOf]
  · rfl

theorem lines_crlf (text : Str) : List.Forall₂ Alike (lines text) (lines (crlf text)) := by
  obtain ⟨ls, b, rfl, hls, hb⟩ := exists_written text
  have hcr : ∀ l ∈ ls.map (· ++ ['\r']), '\n' ∉ l := by
    simpa using hls
  rw [crlf_append, crlf_written hls, crlf_line hb, lines_rest hls hb, lines_rest hcr hb, List.map_map]
  refine List.rel_append ?_ ?_
  · rw [List.forall₂_map_left_iff, List.forall₂_map_right_iff]
    refine List.forall₂_same.mpr fun l _ => ?_
    have hstrip : stripCr (l ++ ['\r']) = l := by simp [stripCr]
    show Alike (stripCr l) (stripCr (l ++ ['\r']))
    rw [hstrip]
    exact alike_stripCr l
  · exact List.forall₂_same.mpr fun l _ => Alike.refl l

/-- A script reads alike however deep its lines are indented, with what blanks at their ends, and
    with either kind of line end. -/
theorem blanks_unseen (text : Str) :
    (∀ text', List.Forall₂ Alike (lines text) (lines text') → parseScript parseMs text' = parseScript parseMs text) ∧
      parseScript parseMs (crlf text) = parseScript parseMs text :=
  ⟨fun _ h => parseScript_alikes parseMs h, parseScript_alikes parseMs (lines_crlf text)⟩

end

/-! ## Bodies put together -/

section

variable {more : List Str} (hflush : ∀ l ∈ more.head?, indented l = false)

include hflush

theorem parseBlock_before {σ α : Type} (onLine : σ → Str → Except ParseError (LineStep σ α)) (finish : σ → α) (s : σ) :
    Rel (Before more) (parseBlock onLine finish s) (parseBlock onLine finish s) := by
  refine readLines_before (fun s l hl => ?_) s
  have hend : blockLine l = none := by
    unfold NixWire.blockLine
    rw [hflush l hl]
    rfl
  rw [hend]

theorem parseExpects_before : Rel (Before more) parseExpects parseExpects := by
  refine readLines_before (fun expects l hl => ?_) []
  unfold expectStep
  rw [hflush l hl]
  rfl

theorem entriesPass_before {τ : Type} (parseMs : Str → Option τ) (entries : List (Entry τ)) (l : Str) (ls : List Str) :
    (entriesPass parseMs entries).run (l :: ls ++ more) =
      (((entriesPass parseMs entries).run (l :: ls)).1, ((entriesPass parseMs entries).run (l :: ls)).2 ++ more) := by
  rw [List.cons_append]
  by_cases hskipped : skippedLine l = true
  · rw [entriesPass_skip parseMs hskipped, entriesPass_skip parseMs hskipped]
  · rw [Bool.not_eq_true] at hskipped
    rw [entriesPass_line parseMs hskipped, entriesPass_line parseMs hskipped]
    have hrel : Rel (Before more) (parseEntry parseMs l) (parseEntry parseMs l) :=
      parseEntry_congr parseMs rel_congruence (parseBlock_before hflush) (parseExpects_before hflush) l
    obtain ⟨hvalue, hleft⟩ := hrel.map (fun entry => Sum.inl (entries ++ [entry])) ls _ rfl
    exact Prod.ext hvalue.symm hleft

end

section

variable {τ : Type} (parseMs : Str → Option τ)

/-- What was parsed before is in front of what is parsed now. -/
theorem entriesPass_front (before entries : List (Entry τ)) :
    entriesPass parseMs (before ++ entries) = Sum.map (before ++ ·) (before ++ ·) <$> entriesPass parseMs entries := by
  refine Rd.ext fun ls => ?_
  cases ls with
  | nil => rfl
  | cons l ls =>
    by_cases hskipped : skippedLine l = true
    · rw [entriesPass_skip parseMs hskipped, Rd.map_ok_iff.mpr ⟨_, entriesPass_skip parseMs hskipped entries ls, rfl⟩]
      rfl
    · rw [Bool.not_eq_true] at hskipped
      rw [entriesPass_line parseMs hskipped]
      rcases hentry : (parseEntry parseMs l).run ls with ⟨entry | o, ls'⟩
      · have hpass := (entriesPass_line parseMs hskipped entries ls).trans (Rd.map_ok_iff.mpr ⟨entry, hentry, rfl⟩)
        rw [Rd.map_ok_iff.mpr ⟨entry, hentry, rfl⟩, Rd.map_ok_iff.mpr ⟨_, hpass, rfl⟩]
        simp only [Sum.map_inl, List.append_assoc]
      · have hpass := (entriesPass_line parseMs hskipped entries ls).trans (Rd.map_stop_iff.mpr hentry)
        rw [Rd.map_stop_iff.mpr hentry, Rd.map_stop_iff.mpr hpass]

theorem parseEntries_before {ls more : List Str} (hflush : ∀ l ∈ more.head?, indented l = false)
    {entries : List (Entry τ)} {rest : List Str} (h : (parseEntries parseMs).run ls = (.ok entries, rest)) :
    (parseEntries parseMs).run (ls ++ more) = ((entries ++ ·) <$> parseEntries parseMs).run more := by
  have hshrinks := entriesPass_shrinks parseMs
  obtain ⟨n, last, ls', hr, hend⟩ := (iterate_ok_iff hshrinks Nat.one_pos).mp h
  -- the loop ends where no line is left
  obtain ⟨rfl, rfl⟩ : ls' = [] ∧ last = entries := by
    cases ls' with
    | nil =>
      cases hend
      exact ⟨rfl, rfl⟩
    | cons l ls' =>
      by_cases hskipped : skippedLine l = true
      · cases (entriesPass_skip parseMs hskipped last ls').symm.trans hend
      · rw [Bool.not_eq_true] at hskipped
        obtain ⟨entry, _, hentry⟩ := Rd.map_ok_iff.mp ((entriesPass_line parseMs hskipped last ls').symm.trans hend)
        cases hentry
  have hnil : ∀ (b b' : List (Entry τ)) ls, (entriesPass parseMs b).run [] ≠ (.ok (.inl b'), ls) := by
    intro b b' ls heq
    cases heq
  have hreach := (hr.before (entriesPass_before hflush parseMs) hnil).iterate hshrinks Nat.one_pos
  have hloop := loop_map (fun b => entriesPass_front parseMs last b) (more.length + 1) []
  rw [List.append_nil] at hloop
  exact hreach.trans (congrArg (fun x => x.run more) hloop)

/-- The operations of another script after its own. -/
def Script.followedBy (s t : Script τ) : Script τ := { s with entries := s.entries ++ t.entries }

/-- A body is parsed by itself under a preamble that says nothing. -/
theorem parseScript_bare (body : Str) : parseScript parseMs (writeln "---".toList ++ body) =
    ((Script.mk Preamble.default <$> parseEntries parseMs).run (lines body)).1 := by
  have hlines : lines (writeln "---".toList ++ body) = "---".toList :: lines body := lines_writeln _ _
  have hdone : preambleStep .default "---".toList = .ok (.done Preamble.default) := rfl
  unfold parseScript parsePreamble
  rw [hlines, Rd.bind_ok (readLines_done hdone), map_eq_pure_bind]

/-- A script with operations is at its end when its lines are. -/
theorem parseScript_ended {text : Str} {s : Script τ} (h : parseScript parseMs text = .ok s) (hentries : s.entries ≠ []) :
    ∃ ls, (∀ more, parsePreamble.run (lines text ++ more) = (.ok s.preamble, ls ++ more)) ∧
      ((parseEntries parseMs).run ls).1 = .ok s.entries := by
  unfold parseScript at h
  rcases hpreamble : parsePreamble.run (lines text) with ⟨p | o, ls⟩
  · rw [Rd.bind_ok hpreamble] at h
    rcases hrun : (parseEntries parseMs).run ls with ⟨entries | o, rest⟩
    · rw [Rd.bind_ok hrun] at h
      cases h
      refine ⟨ls, readLines_ended hpreamble ?_, congrArg Prod.fst hrun⟩
      rintro rfl
      cases hrun
      exact hentries rfl
    · rw [Rd.bind_stop hrun] at h
      cases h
  · rw [Rd.bind_stop hpreamble] at h
    cases h

theorem parseScript_joined {a b : Str} {s : Script τ} (h : parseScript parseMs (writeln a) = .ok s)
    (hentries : s.entries ≠ []) (hfirst : ∀ l ∈ (lines b).head?, indented l = false) :
    parseScript parseMs (writeln a ++ b) = 
      (((fun entries => s.followedBy ⟨.default, entries⟩) <$> parseEntries parseMs).run (lines b)).1 := by
  obtain ⟨ls, hpreamble, hrun⟩ := parseScript_ended parseMs h hentries
  have hlines : lines (writeln a ++ b) = lines (writeln a) ++ lines b := by
    have ha := lines_writeln a []
    rw [List.append_nil, show lines [] = [] from rfl, List.append_nil] at ha
    rw [lines_writeln, ha]
  have hbefore := parseEntries_before parseMs hfirst (Prod.ext hrun rfl)
  unfold parseScript
  rw [hlines, Rd.bind_ok (hpreamble (lines b)), ← map_eq_pure_bind, Rd.map_congr (Script.mk s.preamble) hbefore,
    Functor.map_map]
  rfl

theorem serializeOpCalls_append (readFile : Str → Except Str (List UInt8)) (v : ProtocolVersion) (baseDir : Option Str)
    (calls more : List OpCall) : serializeOpCalls readFile v baseDir (calls ++ more) = (do
      let bytes ← serializeOpCalls readFile v baseDir calls
      let rest ← serializeOpCalls readFile v baseDir more
      return bytes ++ rest) := by
  induction calls with
  | nil =>
    rw [List.nil_append, serializeOpCalls]
    cases serializeOpCalls readFile v baseDir more <;> rfl
  | cons call calls ih =>
    rw [List.cons_append, serializeOpCalls, serializeOpCalls, ih]
    simp only [bind_assoc, pure_bind, List.append_assoc]

/-- More operations behind a script that is sent are sent behind it, or fail as they do. -/
theorem cmdRunBytes_followed (readFile : Str → Except Str (List UInt8)) (baseDir : Option Str) {text text' : Str}
    {s t : Script τ} {bytes : List UInt8} (hparse : parseScript parseMs text = .ok s)
    (hparse' : parseScript parseMs text' = .ok (s.followedBy t))
    (hbytes : cmdRunBytes parseMs readFile text baseDir = .ok bytes) :
    cmdRunBytes parseMs readFile text' baseDir =
      ((serializeOpCalls readFile s.preamble.protocolVersion baseDir (t.entries.map (·.opCall))).mapError
        .serialize).map (bytes ++ ·) := by
  simp only [cmdRunBytes, hparse, hparse', serializeScript] at hbytes ⊢
  rw [Script.followedBy, List.map_append, serializeOpCalls_append]
  cases hcalls : serializeOpCalls readFile s.preamble.protocolVersion baseDir (s.entries.map (·.opCall)) with
  | error e =>
    rw [hcalls] at hbytes
    cases hbytes
  | ok calls =>
    rw [hcalls] at hbytes
    cases hbytes
    cases serializeOpCalls readFile s.preamble.protocolVersion baseDir (t.entries.map (·.opCall)) with
    | error e => rfl
    | ok more => exact congrArg Except.ok (List.append_assoc _ _ _).symm

/-- Behind a script with operations, a body that starts with a line that is not indented is read as
    it is by itself, and its calls are sent behind the script's. -/
theorem bodies_joined (readFile : Str → Except Str (List UInt8)) (baseDir : Option Str) {a b : Str} {s : Script τ}
    (hparse : parseScript parseMs (writeln a) = .ok s) (hentries : s.entries ≠ [])
    (hfirst : ∀ l ∈ (lines b).head?, indented l = false) :
    (∀ t, parseScript parseMs (writeln "---".toList ++ b) = .ok t →
        parseScript parseMs (writeln a ++ b) = .ok (s.followedBy t) ∧
        ∀ bytes, cmdRunBytes parseMs readFile (writeln a) baseDir = .ok bytes →
          cmdRunBytes parseMs readFile (writeln a ++ b) baseDir =
            ((serializeOpCalls readFile s.preamble.protocolVersion baseDir (t.entries.map (·.opCall))).mapError
              .serialize).map (bytes ++ ·)) ∧
      ∀ o, parseScript parseMs (writeln "---".toList ++ b) = .stop o → parseScript parseMs (writeln a ++ b) = .stop o := by
  have hjoined := parseScript_joined parseMs hparse hentries hfirst
  rw [parseScript_bare]
  rcases hbody : (parseEntries parseMs).run (lines b) with ⟨entries | o, rest⟩
  · have hbare : (Script.mk Preamble.default <$> parseEntries parseMs).run (lines b) = (.ok ⟨.default, entries⟩, rest) :=
      Rd.map_ok_iff.mpr ⟨entries, hbody, rfl⟩
    rw [Rd.map_ok_iff.mpr ⟨entries, hbody, rfl⟩] at hjoined
    rw [hbare]
    refine ⟨fun t ht => ?_, fun o ho => ?_⟩
    · cases ht
      exact ⟨hjoined, fun bytes hbytes => cmdRunBytes_followed parseMs readFile baseDir hparse hjoined hbytes⟩
    · cases ho
  · have hbare : (Script.mk Preamble.default <$> parseEntries parseMs).run (lines b) = (.stop o, rest) :=
      Rd.map_stop_iff.mpr hbody
    rw [Rd.map_stop_iff.mpr hbody] at hjoined
    rw [hbare]
    refine ⟨fun t ht => ?_, fun o' ho => ?_⟩
    · cases ht
    · cases ho
      exact hjoined

end

def frontScript : Script Nat where
  preamble := { Preamble.default with protocolVersion := .new 1 37 }
  entries := [{ timestampMs := none, opCall := .noArgs .syncWithGC, response := none, expects := [] }]

/-- A check of the store behind a script that syncs with the collector. -/
theorem bodies_joined_verify :
    cmdRunBytes (fun _ => (none : Option Nat)) (fun _ => .error [])
      (writeln "protocol: 1.37\n---\nSyncWithGC".toList ++ "VerifyStore\n  repair: 1\n".toList) none =
      .ok ([workerMagic1, 0x0125, 0, 0, 13].flatMap wordBytes ++ [35, 0, 1].flatMap wordBytes) := by
  have hparse : parseScript (fun _ => (none : Option Nat)) (writeln "protocol: 1.37\n---\nSyncWithGC".toList) =
      .ok frontScript := by decide
  have hbody : parseScript (fun _ => (none : Option Nat)) (writeln "---".toList ++ "VerifyStore\n  repair: 1\n".toList) =
      .ok ⟨.default, [{ timestampMs := none, opCall := .verifyStore false true, response := none, expects := [] }]⟩ := by
    decide
  have hfirst : ∀ l ∈ (lines "VerifyStore\n  repair: 1\n".toList).head?, indented l = false := by decide
  have hrun : cmdRunBytes (fun _ => (none : Option Nat)) (fun _ => .error [])
      (writeln "protocol: 1.37\n---\nSyncWithGC".toList) none =
        .ok ([workerMagic1, 0x0125, 0, 0, 13].flatMap wordBytes) := by
    simp only [cmdRunBytes, hparse]
    have hser : serializeScript (fun _ => .error []) frontScript none =
        .ok ([workerMagic1, 0x0125, 0, 0, 13].flatMap wordBytes) := by decide
    rw [hser]
  exact ((bodies_joined (fun _ => none) (fun _ => .error []) none hparse (by decide) hfirst).1 _ hbody).2 _ hrun

end NixWire
