/-
  NixWire.Comments — lines that the parser of a script skips.

  Skipped lines may be put in wherever the script goes on with a line that is not indented,
  or ends (`Hushed`). A block then ends at the first of them, as it would at that line; the
  expects and the entries pass over them; in the preamble they say at most what the daemon
  said. So nothing else that is read changes (`outcome_quiet`).
-/

import NixWire.Roundtrip

namespace NixWire

open Base

/-! ## Scripts without the daemon's part -/

/-- What a script makes a client do: the session it opens, and the calls in order, with what
    is expected of each. -/
structure Plan where
  protocolVersion : ProtocolVersion
  clientFeatures : List Str
  expects : List Expect
  calls : List (OpCall × List Expect)
  deriving DecidableEq, Repr

section

variable {τ : Type}

/-- The preamble without what the daemon said. -/
def Preamble.redact (p : Preamble) : Preamble := { p with daemonVersion := none, trust := none, serverFeatures := none }

def Entry.redact (e : Entry τ) : Entry τ := { e with response := none }

def Script.redact (s : Script τ) : Script τ := ⟨s.preamble.redact, s.entries.map Entry.redact⟩

/-- What parsing gives, the daemon's part aside. -/
def outcome (parseMs : Str → Option τ) (text : Str) : Res ParseError (Script τ) :=
  match parseScript parseMs text with
  | .ok s => .ok s.redact
  | .stop o => .stop o

def Script.plan (s : Script τ) : Plan :=
  ⟨s.preamble.protocolVersion, s.preamble.clientFeatures, s.preamble.expects, s.entries.map fun e => (e.opCall, e.expects)⟩

/-- What parsing gives to run: nothing when it fails. -/
def reading (parseMs : Str → Option τ) (text : Str) : Option Plan :=
  match parseScript parseMs text with
  | .ok s => some s.plan
  | .stop _ => none

theorem Script.plan_redact (s : Script τ) : s.redact.plan = s.plan := by
  simp [Script.plan, Script.redact, Preamble.redact, Entry.redact]

theorem reading_eq (parseMs : Str → Option τ) (text : Str) : reading parseMs text = match outcome parseMs text with
    | .ok s => some s.plan
    | .stop _ => none := by
  unfold reading outcome
  cases parseScript parseMs text with
  | ok s => exact congrArg some s.plan_redact.symm
  | stop o => rfl

/-! ## Skipped lines -/

/-- Where skipped lines may stand before the script's own: it is not indented. -/
def Flush (line : Str) : Prop := indented line = false

def Skipped (line : Str) : Prop := skippedLine line = true

theorem Skipped.trim_cases {line : Str} (h : Skipped line) :
    (trim line).isEmpty = true ∨ startsWith ['#'] (trim line) = true ∧ startsWith "# nwscript".toList (trim line) = false := by
  simpa [Skipped, skippedLine] using h

theorem Skipped.blockLine {line : Str} (h : Skipped line) : blockLine line = none := by
  unfold NixWire.blockLine
  split
  · rcases h.trim_cases with hblank | ⟨hhash, -⟩
    · simp [hblank]
    · simp [hhash]
  · rfl

theorem Flush.blockLine {line : Str} (h : Flush line) : blockLine line = none := by
  unfold NixWire.blockLine
  rw [h]
  rfl

/-- The lines of a text with skipped lines put in. -/
abbrev Hushed : List Str → List Str → Prop := Quiet Skipped Flush

/-- A loop whose states and values are compared as they are. -/
theorem readLines_hushed {σ α : Type} {step : σ → Str → Except ParseError (LineStep σ α)} {finish : σ → α}
    (hskip : Skips step finish Eq id Skipped Flush) (s : σ) :
    Rel Hushed (readLines step finish s) (readLines step finish s) := by
  have hkeep : ∀ s s' x, s = s' → StepRel Eq id (step s x) (step s' x) := by
    intro s s' x hs
    rw [hs]
    exact .refl _
  have hrel := readLines_quiet hkeep (fun s s' hs => congrArg (fun s => id (finish s)) hs) hskip (rfl : s = s)
  rwa [id_map] at hrel

/-- Every block ends at a skipped line, as it does at the line after. -/
theorem parseBlock_hushed {σ α : Type} (onLine : σ → Str → Except ParseError (LineStep σ α)) (finish : σ → α) (s : σ) :
    Rel Hushed (parseBlock onLine finish s) (parseBlock onLine finish s) := by
  refine readLines_hushed (fun s s' x hs hx => Or.inr ⟨⟨finish s, ?_, ?_⟩, fun y hy => ?_⟩) s
  · simp only [hx.blockLine]
  · rw [hs]
  · simp only [hy.blockLine]

theorem parseExpects_hushed : Rel Hushed parseExpects parseExpects := by
  refine readLines_hushed (fun s s' x hs hx => ?_) []
  subst hs
  unfold expectStep
  by_cases hin : indented x = true
  · refine Or.inl ⟨s, ?_, rfl⟩
    rcases hx.trim_cases with hblank | ⟨hhash, -⟩
    · simp [hin, hblank]
    · simp [hin, hhash]
  · refine Or.inr ⟨⟨s, ?_, rfl⟩, fun y hy => ?_⟩
    · simp [hin]
    · have hflush : indented y = false := hy
      simp [hflush]

variable (parseMs : Str → Option τ)

theorem parseEntry_hushed (line : Str) : Rel Hushed (parseEntry parseMs line) (parseEntry parseMs line) :=
  parseEntry_congr parseMs rel_congruence parseBlock_hushed parseExpects_hushed line

theorem parseEntries_hushed {ls ls' : List Str} (h : Hushed ls ls') (acc : List (Entry τ)) :
    ((Rd.iterate List.length (entriesPass parseMs) acc).run ls).1 =
      ((Rd.iterate List.length (entriesPass parseMs) acc).run ls').1 := by
  have hshrinks := entriesPass_shrinks parseMs
  induction hn : ls.length using Nat.strongRecOn generalizing ls ls' acc with
  | ind n ih =>
    cases h with
    | nil => rfl
    | @skip x l l' hx hhead h =>
      rw [iterate_inl hshrinks Nat.one_pos (entriesPass_skip parseMs hx acc l)]
      rw [List.length_cons] at hn
      exact ih l.length (by omega) h acc rfl
    | @keep x l l' h =>
      rw [List.length_cons] at hn
      by_cases hx : skippedLine x = true
      · rw [iterate_inl hshrinks Nat.one_pos (entriesPass_skip parseMs hx acc l),
          iterate_inl hshrinks Nat.one_pos (entriesPass_skip parseMs hx acc l')]
        exact ih l.length (by omega) h acc rfl
      · -- an entry is read off both, and leaves lines that are hushed again
        rw [Bool.not_eq_true] at hx
        have hpass := entriesPass_line parseMs hx acc
        obtain ⟨hvalue, hleft⟩ := parseEntry_hushed parseMs x l l' h
        rcases hrun : (parseEntry parseMs x).run l with ⟨entry | o, m⟩
        · rcases hrun' : (parseEntry parseMs x).run l' with ⟨entry' | o', m'⟩
          · rw [hrun, hrun'] at hvalue hleft
            cases hvalue
            have hm : m <:+ l := (parseEntry_forward parseMs x).of_run hrun
            have hlen := hm.length_le
            rw [iterate_inl hshrinks Nat.one_pos ((hpass l).trans (Rd.map_ok_iff.mpr ⟨entry, hrun, rfl⟩)),
              iterate_inl hshrinks Nat.one_pos ((hpass l').trans (Rd.map_ok_iff.mpr ⟨entry, hrun', rfl⟩))]
            exact ih m.length (by omega) hleft _ rfl
          · rw [hrun, hrun'] at hvalue
            cases hvalue
        · rcases hrun' : (parseEntry parseMs x).run l' with ⟨entry' | o', m'⟩
          · rw [hrun, hrun'] at hvalue
            cases hvalue
          · rw [hrun, hrun'] at hvalue
            cases hvalue
            rw [iterate_stop hshrinks Nat.one_pos ((hpass l).trans (Rd.map_stop_iff.mpr hrun)),
              iterate_stop hshrinks Nat.one_pos ((hpass l').trans (Rd.map_stop_iff.mpr hrun'))]

/-! ## The preamble -/

/-- Two preambles that the client's side is the same of. -/
def SameClient (p q : Preamble) : Prop := p.redact = q.redact

theorem SameClient.fields {p q : Preamble} (h : SameClient p q) :
    p.protocolVersion = q.protocolVersion ∧ p.clientFeatures = q.clientFeatures ∧ p.expects = q.expects := by
  simpa [SameClient, Preamble.redact] using h

theorem preambleComment_redact (p : Preamble) (content : Str) : (preambleComment p content).redact = p.redact := by
  unfold preambleComment
  split
  · rfl
  · split
    · rfl
    · split <;> rfl

theorem preambleStep_same {p q : Preamble} (h : SameClient p q) (line : Str) :
    StepRel SameClient Preamble.redact (preambleStep p line) (preambleStep q line) := by
  obtain ⟨hversion, hfeatures, hexpects⟩ := h.fields
  unfold preambleStep
  by_cases hblank : (trim line).isEmpty = true
  · simp only [hblank, if_true]
    exact .next h
  by_cases hdelimiter : trim line = "---".toList
  · simp only [hdelimiter, if_true]
    exact .done h
  by_cases hcomment : startsWith ['#'] (trim line) = true
  · simp only [hblank, hdelimiter, hcomment, if_true, if_false, Bool.false_eq_true]
    refine .next ?_
    rw [SameClient, preambleComment_redact, preambleComment_redact]
    exact h
  simp only [hblank, hdelimiter, hcomment, if_false, Bool.false_eq_true]
  cases stripPrefix "protocol:".toList (trim line) with
  | some rest =>
    refine .next ?_
    simp only [SameClient, Preamble.redact, hversion, hfeatures, hexpects]
  | none =>
    cases stripPrefix "features:".toList (trim line) with
    | some rest =>
      refine .next ?_
      simp only [SameClient, Preamble.redact, hversion, hexpects]
    | none =>
      simp only
      split
      · cases parseExpect (trim line) with
        | error e => exact .error e
        | ok e =>
          refine .next ?_
          simp only [SameClient, Preamble.redact, hversion, hfeatures, hexpects]
      · exact .error _

/-- A skipped line of the preamble says at most what the daemon said. -/
theorem preambleStep_skipped {line : Str} (h : Skipped line) (p : Preamble) :
    ∃ q, preambleStep p line = .ok (.next q) ∧ SameClient q p := by
  unfold preambleStep
  rcases h.trim_cases with hblank | ⟨hcomment, -⟩
  · exact ⟨p, by simp only [hblank, if_true], rfl⟩
  · by_cases hblank : (trim line).isEmpty = true
    · exact ⟨p, by simp only [hblank, if_true], rfl⟩
    · have hdelimiter : trim line ≠ "---".toList := by
        intro heq
        simp [heq] at hcomment
      refine ⟨preambleComment p (trim (trimStartMatches '#' (trim line))), ?_, preambleComment_redact p _⟩
      simp only [hblank, hdelimiter, hcomment, if_true, if_false, Bool.false_eq_true]

theorem parsePreamble_hushed :
    Rel Hushed (Preamble.redact <$> parsePreamble) (Preamble.redact <$> parsePreamble) := by
  have hskip : Skips preambleStep id SameClient Preamble.redact Skipped Flush := by
    intro p q line hsame hline
    obtain ⟨p', hstep, hp'⟩ := preambleStep_skipped hline p
    exact Or.inl ⟨p', hstep, hp'.trans hsame⟩
  exact readLines_quiet (fun p q line h => preambleStep_same h line) (fun p q h => h) hskip rfl

/-! ## Scripts -/

theorem outcome_eq (text : Str) : outcome parseMs text = ((Preamble.redact <$> parsePreamble >>= fun p =>
    (fun es => Script.mk p (es.map Entry.redact)) <$> parseEntries parseMs).run (lines text)).1 := by
  unfold outcome parseScript
  rcases hp : parsePreamble.run (lines text) with ⟨p | o, ls⟩
  · rw [Rd.bind_ok hp, Rd.bind_ok (Rd.map_ok_iff.mpr ⟨p, hp, rfl⟩)]
    rcases hes : (parseEntries parseMs).run ls with ⟨es | o, m⟩
    · rw [Rd.bind_ok hes, Rd.map_ok_iff.mpr ⟨es, hes, rfl⟩]
      rfl
    · rw [Rd.bind_stop hes, Rd.map_stop_iff.mpr hes]
  · rw [Rd.bind_stop hp, Rd.bind_stop (Rd.map_stop_iff.mpr hp)]

theorem outcome_quiet {text text' : Str} (h : Hushed (lines text) (lines text')) :
    outcome parseMs text = outcome parseMs text' := by
  obtain ⟨hvalue, hleft⟩ := parsePreamble_hushed _ _ h
  rw [outcome_eq, outcome_eq]
  rcases hp : (Preamble.redact <$> parsePreamble).run (lines text) with ⟨p | o, ls⟩
  · rcases hp' : (Preamble.redact <$> parsePreamble).run (lines text') with ⟨p' | o', ls'⟩
    · rw [hp, hp'] at hvalue hleft
      cases hvalue
      rw [Rd.bind_ok hp, Rd.bind_ok hp']
      exact Rd.map_value _ (parseEntries_hushed parseMs hleft [])
    · rw [hp, hp'] at hvalue
      cases hvalue
  · rcases hp' : (Preamble.redact <$> parsePreamble).run (lines text') with ⟨p' | o', ls'⟩
    · rw [hp, hp'] at hvalue
      cases hvalue
    · rw [hp, hp'] at hvalue
      cases hvalue
      rw [Rd.bind_stop hp, Rd.bind_stop hp']

end

end NixWire
