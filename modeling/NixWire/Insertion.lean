/-
  NixWire.Insertion — a comment line put between two lines of a script.

  The parser of the entries stands in one of a few modes (`Mode`) that the lines before
  determine: between two entries, in the block of a call, or at its expects. The lines that
  are left are read by a reader that fits the mode (`Awaits`), and a line leads from one
  such reader to the next (`Awaits.past_line`).

  - A comment is passed over between entries; an indented one also at the expects. In a
    block it ends the block, and one that is not indented ends the expects as well. It is
    without effect when nothing of the block or the expects comes after it (`Harmless`).
  - Otherwise the script that is read is another, or none (`comment_inert`), but for a block
    that one line completes: it passes over other lines, and where one of them calls an
    operation it may be read as a call that is there twice (`CallAhead`).
-/

import NixWire.Base.Residual
import NixWire.Comments

namespace NixWire

open Base

/-! ## Modes -/

/-- How an operation's block ends. -/
inductive BlockKind where
  /-- With the block. -/
  | fields
  /-- At its `data` line. -/
  | data
  /-- At its `raw` line. -/
  | raw
  deriving DecidableEq, Repr

/-- Whether a line of the block completes it. -/
def BlockKind.completes (k : BlockKind) (trimmed : Str) : Bool :=
  match k with
  | .fields => false
  | .data => ((splitOnce [':'] trimmed).map fun kv => trim kv.1) = some "data".toList
  | .raw => startsWith "raw x\"".toList trimmed

inductive Mode where
  /-- Between two entries. -/
  | between
  /-- In the block of a call. -/
  | block (k : BlockKind)
  /-- At the expects of a call. -/
  | expects
  deriving DecidableEq, Repr

/-- The mode after a call's line. -/
def Op.mode (op : Op) : Mode :=
  match op with
  | .setOptions | .collectGarbage | .verifyStore | .addTextToStore | .addToStore | .addMultipleToStore => .block .fields
  | .addBuildLog => .block .data
  | .buildDerivation | .addToStoreNar => .block .raw
  | _ => .expects

section

variable {τ : Type} (parseMs : Str → Option τ)

/-- The operation that a line calls. -/
def calledOp (line : Str) : Option Op :=
  let line := trim line
  let rest := if startsWith ['@'] line then (parseTimestamp parseMs line).toOption.map Prod.snd else some line
  rest.bind fun rest => Op.fromName (splitSpace rest).1

/-- The mode after a line between two entries. -/
def Mode.enter (line : Str) : Mode :=
  if skippedLine line then .between else ((calledOp parseMs line).map Op.mode).getD .between

/-- The mode after a line. -/
def Mode.next (m : Mode) (line : Str) : Mode :=
  match m with
  | .between => .enter parseMs line
  | .expects => if indented line && (blockLine line).isNone then .expects else .enter parseMs line
  | .block k => match blockLine line with
    | some trimmed => if k.completes trimmed then .expects else .block k
    | none => if indented line then .expects else .enter parseMs line

/-- The mode after some lines of the entries. -/
def modeAfter (ls : List Str) : Mode := ls.foldl (Mode.next parseMs) .between

/-! ## The readers -/

def entriesFrom (acc : List (Entry τ)) : ParseM (List (Entry τ)) := Rd.iterate List.length (entriesPass parseMs) acc

/-- The expects of an entry, and the entries after it. -/
def expectsFrom (acc : List (Entry τ)) (entry : List Expect → Entry τ) (es : List Expect) : ParseM (List (Entry τ)) :=
  readLines expectStep id es >>= fun es => entriesFrom parseMs (acc ++ [entry es])

/-- What a block of a kind does with its lines. -/
def BlockKind.Serves {σ α : Type} (k : BlockKind) (onLine : σ → Str → Except ParseError (LineStep σ α)) : Prop :=
  ∀ s t, (∃ s', onLine s t = .ok (.next s') ∧ k.completes t = false) ∨
    (∃ a, onLine s t = .ok (.done a) ∧ k.completes t = true) ∨ ∃ e, onLine s t = .error e

/-- The readers of a mode, when the entries `acc` are complete. -/
inductive Awaits (acc : List (Entry τ)) : Mode → ParseM (List (Entry τ)) → Prop where
  | between : Awaits acc .between (entriesFrom parseMs acc)
  | block {σ α : Type} {k : BlockKind} {onLine : σ → Str → Except ParseError (LineStep σ α)} (finish : σ → α) (s : σ)
      (entry : α → List Expect → Entry τ) : k.Serves onLine →
      Awaits acc (.block k) (parseBlock onLine finish s >>= fun a => expectsFrom parseMs acc (entry a) [])
  | expects (entry : List Expect → Entry τ) (es : List Expect) : Awaits acc .expects (expectsFrom parseMs acc entry es)

end

/-! ## Blocks -/

theorem serves_fields {σ α : Type} (onField : σ → Str → Str → Except ParseError σ) :
    BlockKind.fields.Serves (keyedLine onField : σ → Str → Except ParseError (LineStep σ α)) := by
  intro s t
  unfold keyedLine
  cases splitOnce [':'] t with
  | none => exact Or.inl ⟨s, rfl, rfl⟩
  | some kv =>
    dsimp only
    cases onField s (trim kv.1) (trim kv.2) with
    | ok s' => exact Or.inl ⟨s', rfl, rfl⟩
    | error e => exact Or.inr (Or.inr ⟨e, rfl⟩)

theorem serves_setOptions : BlockKind.fields.Serves setOptionsLine := by
  intro s t
  unfold setOptionsLine
  split
  · exact Or.inl ⟨_, rfl, rfl⟩
  · exact serves_fields _ _ t

section

variable {τ : Type} (parseMs : Str → Option τ) (acc : List (Entry τ))

theorem awaits_framedData (entry : FramedData → List Expect → Entry τ) :
    Awaits parseMs acc (.block .data) (parseInlineFramedData >>= fun d => expectsFrom parseMs acc (entry d) []) := by
  refine .block _ () entry fun s t => ?_
  rw [BlockKind.completes]
  cases splitOnce [':'] t with
  | none => exact Or.inl ⟨(), rfl, by simp⟩
  | some kv =>
    dsimp only
    by_cases hkey : trim kv.1 = "data".toList
    · rw [if_pos hkey]
      refine Or.inr ?_
      cases parseDataValue (trim kv.2) with
      | ok d => exact Or.inl ⟨d, rfl, by simp [hkey]⟩
      | error e => exact Or.inr ⟨e, rfl⟩
    · rw [if_neg hkey]
      exact Or.inl ⟨(), rfl, by simpa using hkey⟩

theorem awaits_rawHex (entry : List UInt8 → List Expect → Entry τ) :
    Awaits parseMs acc (.block .raw) (parseRawHex >>= fun d => expectsFrom parseMs acc (entry d) []) := by
  refine .block _ () entry fun s t => ?_
  rw [BlockKind.completes]
  by_cases hraw : startsWith "raw x\"".toList t = true
  · refine Or.inr (Or.inl ?_)
    have hstrip : stripPrefix "raw x\"".toList t = some (t.drop "raw x\"".toList.length) := if_pos hraw
    rw [hstrip]
    exact ⟨_, rfl, hraw⟩
  · rw [stripPrefix_not hraw]
    exact Or.inl ⟨(), rfl, by simpa using hraw⟩

end

/-! ## Lines -/

section

variable {τ : Type} (parseMs : Str → Option τ) {acc : List (Entry τ)} {x : Str}

/-- The expects take an indented line that is not one of a block. -/
theorem expectStep_taken (hindented : indented x = true) (hblock : blockLine x = none) (es : List Expect) :
    (∃ es', expectStep es x = .ok (.next es')) ∨ ∃ e, expectStep es x = .error e := by
  unfold blockLine at hblock
  unfold expectStep
  rw [if_pos hindented] at hblock ⊢
  dsimp only at hblock ⊢
  by_cases hskip : ((trim x).isEmpty || startsWith ['#'] (trim x)) = true
  · rw [if_pos hskip]
    exact Or.inl ⟨es, rfl⟩
  · rw [if_neg hskip]
    by_cases hexpect : startsWith "expect".toList (trim x) = true
    · rw [if_pos hexpect]
      cases parseExpect (trim x) with
      | ok e => exact Or.inl ⟨_, rfl⟩
      | error e => exact Or.inr ⟨e, rfl⟩
    · rw [if_neg (by rw [Bool.or_eq_true]; exact fun h => h.elim hskip hexpect)] at hblock
      cases hblock

/-- Any other is left to the entries. -/
theorem expectStep_left (h : indented x = false ∨ ∃ t, blockLine x = some t) (es : List Expect) :
    expectStep es x = .ok (.leave es) := by
  unfold expectStep
  rcases h with hflush | ⟨t, hblock⟩
  · rw [if_neg (by simp [hflush])]
  · unfold blockLine at hblock
    by_cases hindented : indented x = true
    · rw [if_pos hindented] at hblock ⊢
      dsimp only at hblock ⊢
      split at hblock
      · cases hblock
      · rename_i hplain
        simp only [Bool.or_eq_true, not_or] at hplain
        rw [if_neg (by simpa using hplain.1), if_neg hplain.2]
    · rw [if_neg hindented]

/-- The entries, at a line that is skipped. -/
theorem entriesFrom_skip (hx : skippedLine x = true) (ls : List Str) :
    (entriesFrom parseMs acc).run (x :: ls) = (entriesFrom parseMs acc).run ls :=
  iterate_inl (entriesPass_shrinks parseMs) Nat.one_pos (entriesPass_skip parseMs hx acc ls)

/-- At any other they go on with the entry it starts. -/
theorem entriesFrom_line (hx : skippedLine x = false) (ls : List Str) :
    (entriesFrom parseMs acc).run (x :: ls) =
      (parseEntry parseMs x >>= fun entry => entriesFrom parseMs (acc ++ [entry])).run ls := by
  have hpass := entriesPass_line parseMs hx acc ls
  rcases hrun : (parseEntry parseMs x).run ls with ⟨entry | o, m⟩
  · rw [Rd.bind_ok hrun]
    exact iterate_inl (entriesPass_shrinks parseMs) Nat.one_pos (hpass.trans (Rd.map_ok_iff.mpr ⟨entry, hrun, rfl⟩))
  · rw [Rd.bind_stop hrun]
    exact iterate_stop (entriesPass_shrinks parseMs) Nat.one_pos (hpass.trans (Rd.map_stop_iff.mpr hrun))

theorem lift_past {α : Type} {Q : ParseM (List (Entry τ)) → Prop} (v : Except ParseError α) (f : α → ParseM (List (Entry τ)))
    (h : ∀ a, v = .ok a → Past [] Q (f a)) : Past [] Q (lift v >>= f) := by
  cases v with
  | ok a => exact h a rfl
  | error e => exact Or.inr fun ls => ⟨.err e, rfl⟩

/-- After the operation's name and inline arguments. -/
theorem parseOpArgs_past (acc : List (Entry τ)) (op : Op) (args : Str) (entry : OpCall → List Expect → Entry τ) :
    Past [] (Awaits parseMs acc op.mode) (parseOpArgs op args >>= fun call => expectsFrom parseMs acc (entry call) []) := by
  have hinline (call : OpCall) : Past [] (Awaits parseMs acc .expects)
      ((pure call : ParseM OpCall) >>= fun call => expectsFrom parseMs acc (entry call) []) :=
    .here (.expects (entry call) [])
  cases op
  case setOptions => exact .here (.block _ _ entry serves_setOptions)
  case collectGarbage | verifyStore | addTextToStore | addToStore | addMultipleToStore =>
    exact .here (.block _ _ entry (serves_fields _))
  case addBuildLog =>
    simp only [parseOpArgs, bind_map_left]
    exact .here (awaits_framedData parseMs acc _)
  case buildDerivation | addToStoreNar =>
    simp only [parseOpArgs, bind_map_left]
    exact .here (awaits_rawHex parseMs acc _)
  case queryValidPaths | buildPaths | buildPathsWithResults | querySubstitutablePaths | queryMissing | addSignatures |
      querySubstitutablePathInfos =>
    simp only [parseOpArgs, bind_assoc]
    exact lift_past _ _ fun paths _ => hinline _
  all_goals exact hinline _

/-- An entry and those after it, past the line that starts it. -/
theorem parseEntry_past (line : Str) :
    Past [] (fun q => ∃ op, calledOp parseMs line = some op ∧ Awaits parseMs acc op.mode q)
      (parseEntry parseMs line >>= fun entry => entriesFrom parseMs (acc ++ [entry])) := by
  unfold parseEntry
  dsimp only
  simp only [bind_assoc, pure_bind]
  refine lift_past _ _ fun stamped hstamped => ?_
  obtain ⟨timestampMs, rest⟩ := stamped
  have hcalled : calledOp parseMs line = Op.fromName (splitSpace rest).1 := by
    unfold calledOp
    dsimp only
    by_cases hat : startsWith ['@'] (trim line) = true
    · rw [if_pos hat] at hstamped ⊢
      rw [hstamped]
      rfl
    · rw [if_neg hat] at hstamped ⊢
      cases hstamped
      rfl
  rw [hcalled, parseOpLine]
  cases hop : Op.fromName (splitSpace rest).1 with
  | none => exact Or.inr fun ls => ⟨_, rfl⟩
  | some op =>
    have hpast := parseOpArgs_past parseMs acc op (trim (splitSpace rest).2) fun call es =>
      { timestampMs := timestampMs, opCall := call, response := none, expects := es }
    exact hpast.mono fun q hq => ⟨op, rfl, hq⟩

variable {parseMs}

theorem entriesFrom_past_line (hx : skippedLine x = false) :
    Past [x] (fun q => ∃ op, calledOp parseMs x = some op ∧ Awaits parseMs acc op.mode q) (entriesFrom parseMs acc) :=
  .step (entriesFrom_line parseMs hx) (parseEntry_past parseMs x)

theorem entriesFrom_past : Past [x] (Awaits parseMs acc (.enter parseMs x)) (entriesFrom parseMs acc) := by
  unfold Mode.enter
  by_cases hx : skippedLine x = true
  · rw [if_pos hx]
    exact .step (entriesFrom_skip parseMs hx) (.here .between)
  · rw [if_neg hx]
    refine (entriesFrom_past_line (Bool.not_eq_true _ ▸ hx)).mono fun q hq => ?_
    obtain ⟨op, hop, hawaits⟩ := hq
    rw [hop]
    exact hawaits

variable {entry : List Expect → Entry τ} {es : List Expect}

theorem expectsFrom_taken (hindented : indented x = true) (hblock : blockLine x = none) :
    Past [x] (Awaits parseMs acc .expects) (expectsFrom parseMs acc entry es) := by
  rcases expectStep_taken hindented hblock es with ⟨es', hstep⟩ | ⟨e, hstep⟩
  · exact .step (readLines_bind_next hstep) (.here (.expects entry es'))
  · exact Or.inr (readLines_bind_error hstep)

theorem expectsFrom_left (h : indented x = false ∨ ∃ t, blockLine x = some t) (ls : List Str) :
    (expectsFrom parseMs acc entry es).run (x :: ls) = (entriesFrom parseMs (acc ++ [entry es])).run (x :: ls) :=
  readLines_bind_leave (expectStep_left h es) ls

section

variable {σ α : Type} {k : BlockKind} {onLine : σ → Str → Except ParseError (LineStep σ α)} {finish : σ → α} {s : σ}
  {entry : α → List Expect → Entry τ} {t : Str}

/-- A block takes its lines. -/
theorem block_taken (hserves : k.Serves onLine) (hx : blockLine x = some t) :
    Past [x] (Awaits parseMs acc (if k.completes t then .expects else .block k))
      (parseBlock onLine finish s >>= fun a => expectsFrom parseMs acc (entry a) []) := by
  have honLine : (match blockLine x with
      | some trimmed => onLine s trimmed
      | none => .ok (.leave (finish s))) = onLine s t := by rw [hx]
  rcases hserves s t with ⟨s', hstep, hk⟩ | ⟨a, hstep, hk⟩ | ⟨e, hstep⟩
  · rw [hk]
    exact .step (readLines_bind_next (honLine.trans hstep)) (.here (.block finish s' entry hserves))
  · rw [hk]
    exact .step (readLines_bind_done (honLine.trans hstep)) (.here (.expects (entry a) []))
  · exact Or.inr (readLines_bind_error (honLine.trans hstep))

/-- Any other line it leaves to the expects. -/
theorem block_left (hx : blockLine x = none) (ls : List Str) :
    (parseBlock onLine finish s >>= fun a => expectsFrom parseMs acc (entry a) []).run (x :: ls) =
      (expectsFrom parseMs acc (entry (finish s)) []).run (x :: ls) :=
  readLines_bind_leave (by simp only [hx]) ls

end

theorem flush_or_block (h : ¬(indented x && (blockLine x).isNone) = true) :
    indented x = false ∨ ∃ t, blockLine x = some t := by
  cases hblock : blockLine x with
  | some t => exact Or.inr ⟨t, rfl⟩
  | none => exact Or.inl (by simpa [hblock] using h)

/-- A reader of a mode becomes, past a line, one of the next mode; no entry is lost. -/
theorem Awaits.past_line {m : Mode} {q : ParseM (List (Entry τ))} (h : Awaits parseMs acc m q) (x : Str) :
    Past [x] (fun q' => ∃ acc', acc.length ≤ acc'.length ∧ Awaits parseMs acc' (m.next parseMs x) q') q := by
  have hexpects (entry : List Expect → Entry τ) (es : List Expect) :
      Past [x] (fun q' => ∃ acc', acc.length ≤ acc'.length ∧ Awaits parseMs acc' (Mode.expects.next parseMs x) q')
        (expectsFrom parseMs acc entry es) := by
    by_cases htaken : (indented x && (blockLine x).isNone) = true
    · have hboth := htaken
      rw [Bool.and_eq_true, Option.isNone_iff_eq_none] at hboth
      simp only [Mode.next, if_pos htaken]
      exact (expectsFrom_taken hboth.1 hboth.2).mono fun q' hq' => ⟨acc, Nat.le_refl _, hq'⟩
    · simp only [Mode.next, if_neg htaken]
      refine .congr (expectsFrom_left (flush_or_block htaken)) (entriesFrom_past.mono fun q' hq' => ⟨_, ?_, hq'⟩)
      simp
  cases h with
  | between => exact entriesFrom_past.mono fun q' hq' => ⟨acc, Nat.le_refl _, hq'⟩
  | expects entry es => exact hexpects entry es
  | @block σ α k onLine finish s entry hserves =>
    cases hx : blockLine x with
    | some t =>
      simp only [Mode.next, hx]
      exact (block_taken hserves hx).mono fun q' hq' => ⟨acc, Nat.le_refl _, hq'⟩
    | none =>
      have hnext : (Mode.block k).next parseMs x = Mode.expects.next parseMs x := by
        simp [Mode.next, hx]
      rw [hnext]
      exact .congr (block_left hx) (hexpects _ _)

/-! ## A line put in -/

theorem Skipped.expectStep {c : Str} (hc : Skipped c) (hindented : indented c = true) (es : List Expect) :
    expectStep es c = .ok (.next es) := by
  unfold NixWire.expectStep
  rw [if_pos hindented]
  rcases hc.trim_cases with hblank | ⟨hhash, -⟩
  · simp [hblank]
  · simp [hhash]

/-- At the expects a skipped line is passed over, or ends them. -/
theorem expectsFrom_skip {c : Str} (hc : Skipped c) (ls : List Str) :
    (expectsFrom parseMs acc entry es).run (c :: ls) =
      if indented c then (expectsFrom parseMs acc entry es).run ls else (entriesFrom parseMs (acc ++ [entry es])).run ls := by
  by_cases hindented : indented c = true
  · rw [if_pos hindented]
    exact readLines_bind_next (hc.expectStep hindented es) ls
  · rw [if_neg hindented, expectsFrom_left (Or.inl (by simpa using hindented)), entriesFrom_skip parseMs hc]

/-- The lines that the expects take are all skipped. -/
def nothingExpected : List Str → Bool
  | [] => true
  | x :: ls => if indented x && (blockLine x).isNone then skippedLine x && nothingExpected ls else true

/-- The expects then end without effect. -/
theorem expectsFrom_nothing {ls : List Str} (h : nothingExpected ls = true) :
    (expectsFrom parseMs acc entry es).run ls = (entriesFrom parseMs (acc ++ [entry es])).run ls := by
  induction ls with
  | nil => rfl
  | cons x ls ih =>
    rw [nothingExpected] at h
    by_cases htaken : (indented x && (blockLine x).isNone) = true
    · rw [if_pos htaken, Bool.and_eq_true] at h
      rw [Bool.and_eq_true] at htaken
      rw [expectsFrom_skip h.1, if_pos htaken.1, ih h.2, entriesFrom_skip parseMs h.1]
    · exact expectsFrom_left (flush_or_block htaken) ls

/-- No operation starts with a small letter or a hash. -/
theorem fromName_upper {c : Char} {s : Str} {op : Op} (h : Op.fromName (c :: s) = some op) : c.isUpper = true := by
  have hnames : ∀ e ∈ Op.names, e.1.head?.all Char.isUpper = true := by decide
  obtain ⟨e, hfind, -⟩ := Option.map_eq_some_iff.mp h
  have hname : e.1 = c :: s := by simpa using List.find?_some hfind
  have hupper := hnames e (List.mem_of_find?_eq_some hfind)
  rw [hname] at hupper
  exact hupper

theorem calledOp_none {c : Char} (hx : startsWith [c] (trim x) = true) (hat : c ≠ '@') (hspace : c ≠ ' ')
    (hlower : c.isUpper = false) : calledOp parseMs x = none := by
  cases htrim : trim x with
  | nil =>
    rw [htrim] at hx
    cases hx
  | cons d u =>
    rw [htrim] at hx
    obtain rfl : c = d := by simpa using hx
    have hstart : startsWith ['@'] (c :: u) = false := by simp [Ne.symm hat]
    have hname : ∃ v, (splitSpace (c :: u)).1 = c :: v := by
      have hprefix : [' '].isPrefixOf (c :: u) = false := by simp [List.isPrefixOf, Ne.symm hspace]
      rw [splitSpace, splitOnce, hprefix, if_neg (by simp)]
      cases splitOnce [' '] u with
      | none => exact ⟨u, rfl⟩
      | some ab => exact ⟨ab.1, rfl⟩
    obtain ⟨v, hv⟩ := hname
    unfold calledOp
    dsimp only
    rw [htrim, if_neg (by simp [hstart]), Option.bind_some, hv]
    cases hop : Op.fromName (c :: v) with
    | none => rfl
    | some op =>
      rw [fromName_upper hop] at hlower
      cases hlower

/-- What the expects take and the entries do not skip, the entries do not read either. -/
theorem calledOp_expected (hindented : indented x = true) (hblock : blockLine x = none) (hx : skippedLine x = false) :
    calledOp parseMs x = none := by
  unfold blockLine at hblock
  rw [if_pos hindented] at hblock
  dsimp only at hblock
  unfold skippedLine at hx
  dsimp only at hx
  rw [Bool.or_eq_false_iff] at hx
  split at hblock
  · rename_i hkind
    rw [hx.1, Bool.false_or, Bool.or_eq_true] at hkind
    rcases hkind with hhash | hexpect
    · exact calledOp_none hhash (by decide) (by decide) (by decide)
    · refine calledOp_none (c := 'e') ?_ (by decide) (by decide) (by decide)
      cases htrim : trim x with
      | nil =>
        rw [htrim] at hexpect
        cases hexpect
      | cons d u =>
        rw [htrim] at hexpect
        have hhead : ('e' == d) = true := by
          rw [show startsWith "expect".toList (d :: u) = ('e' == d && startsWith "xpect".toList u) from rfl,
            Bool.and_eq_true] at hexpect
          exact hexpect.1
        rw [startsWith_cons, hhead]
        rfl
  · cases hblock

theorem entriesFrom_fails (hx : skippedLine x = false) (hcalled : calledOp parseMs x = none) :
    FailsPast [x] (entriesFrom parseMs acc) := by
  have hpast : Past [x] (fun q => ∃ op, calledOp parseMs x = some op ∧ Awaits parseMs acc op.mode q) (entriesFrom parseMs acc) :=
    entriesFrom_past_line hx
  rcases hpast with ⟨q, ⟨op, hop, -⟩, -⟩ | hfail
  · rw [hcalled] at hop
    cases hop
  · exact hfail

/-- Where an expect is to come, the entries fail. -/
theorem entriesFrom_expected (acc : List (Entry τ)) {ls : List Str} (h : ¬nothingExpected ls = true) :
    ∃ o, ((entriesFrom parseMs acc).run ls).1 = .stop o := by
  induction ls with
  | nil => exact absurd rfl h
  | cons x ls ih =>
    rw [nothingExpected] at h
    by_cases htaken : (indented x && (blockLine x).isNone) = true
    · rw [if_pos htaken] at h
      rw [Bool.and_eq_true, Option.isNone_iff_eq_none] at htaken
      by_cases hx : skippedLine x = true
      · rw [entriesFrom_skip parseMs hx]
        exact ih fun hls => h (by rw [hx, hls]; rfl)
      · rw [Bool.not_eq_true] at hx
        exact entriesFrom_fails hx (calledOp_expected htaken.1 htaken.2 hx) ls
    · exact absurd (if_neg htaken) h

/-! ## Entries counted -/

/-- The entries that are complete stay as they are. -/
theorem entriesFrom_append (acc : List (Entry τ)) (ls : List Str) :
    (entriesFrom parseMs acc).run ls = ((acc ++ ·) <$> entriesFrom parseMs []).run ls := by
  have hpass (more : List (Entry τ)) : entriesPass parseMs (acc ++ more) =
      Sum.map (acc ++ ·) (acc ++ ·) <$> entriesPass parseMs more := by
    refine Rd.ext fun ls => ?_
    cases ls with
    | nil => rfl
    | cons x ls =>
      by_cases hx : skippedLine x = true
      · rw [entriesPass_skip parseMs hx, Rd.map_ok_iff.mpr ⟨_, entriesPass_skip parseMs hx more ls, rfl⟩]
        rfl
      · rw [Bool.not_eq_true] at hx
        rw [entriesPass_line parseMs hx, Rd.map_congr _ (entriesPass_line parseMs hx more ls), Functor.map_map]
        simp only [Sum.map_inl, List.append_assoc]
  have hloop := loop_map hpass (ls.length + 1) []
  rw [List.append_nil] at hloop
  show (Rd.loop (entriesPass parseMs) (ls.length + 1) acc).run ls = _
  rw [hloop]
  exact Rd.map_congr _ rfl

theorem expectStep_cases (x : Str) : (∃ xs, ∀ es, expectStep es x = .ok (.next (es ++ xs))) ∨
    (∀ es, expectStep es x = .ok (.leave es)) ∨ ∃ e, ∀ es, expectStep es x = .error e := by
  unfold expectStep
  by_cases hindented : indented x = true
  · simp only [if_pos hindented]
    by_cases hskip : ((trim x).isEmpty || startsWith ['#'] (trim x)) = true
    · simp only [if_pos hskip]
      exact Or.inl ⟨[], fun es => by rw [List.append_nil]⟩
    · simp only [if_neg hskip]
      by_cases hexpect : startsWith "expect".toList (trim x) = true
      · simp only [if_pos hexpect]
        cases parseExpect (trim x) with
        | ok e => exact Or.inl ⟨[e], fun es => rfl⟩
        | error e => exact Or.inr (Or.inr ⟨e, fun es => rfl⟩)
      · simp only [if_neg hexpect]
        exact Or.inr (Or.inl fun es => trivial)
  · simp only [if_neg hindented]
    exact Or.inr (Or.inl fun es => trivial)

/-- Which expects came before does not matter to the lines that are taken. -/
theorem parseExpects_append (es : List Expect) (ls : List Str) :
    (readLines expectStep id es).run ls = ((es ++ ·) <$> readLines expectStep id []).run ls := by
  induction ls generalizing es with
  | nil => exact congrArg (fun es : List Expect => (Res.ok es, ([] : List Str))) (List.append_nil es).symm
  | cons x ls ih =>
    rcases expectStep_cases x with ⟨xs, hstep⟩ | hstep | ⟨e, hstep⟩
    · rw [readLines_next (hstep es), Rd.map_congr _ (readLines_next (hstep [])), List.nil_append, ih (es ++ xs),
        Rd.map_congr _ (ih xs), Functor.map_map]
      simp only [List.append_assoc]
    · rw [readLines_leave (hstep es), Rd.map_ok_iff.mpr ⟨[], readLines_leave (hstep []), List.append_nil es⟩]
    · rw [readLines_error (hstep es), Rd.map_stop_iff.mpr (readLines_error (hstep []))]

/-- From `ls` on, past the expects, there are `n` entries. -/
def Remaining (parseMs : Str → Option τ) (ls : List Str) (n : Nat) : Prop :=
  ∃ xs m more, (readLines expectStep id []).run ls = (.ok xs, m) ∧ ((entriesFrom parseMs []).run m).1 = .ok more ∧
    more.length = n

theorem Remaining.unique {ls : List Str} {n n' : Nat} (h : Remaining parseMs ls n) (h' : Remaining parseMs ls n') : n = n' := by
  obtain ⟨xs, m, more, hxs, hmore, rfl⟩ := h
  obtain ⟨xs', m', more', hxs', hmore', rfl⟩ := h'
  cases hxs.symm.trans hxs'
  cases hmore.symm.trans hmore'
  rfl

theorem expectsFrom_length {ls : List Str} {entries : List (Entry τ)}
    (h : ((expectsFrom parseMs acc entry es).run ls).1 = .ok entries) :
    ∃ n, Remaining parseMs ls n ∧ entries.length = acc.length + 1 + n := by
  obtain ⟨xs, m, hxs, hentries⟩ := Rd.bind_ok_iff.mp (Prod.ext h rfl)
  rw [parseExpects_append] at hxs
  obtain ⟨xs', hxs', rfl⟩ := Rd.map_ok_iff.mp hxs
  rw [entriesFrom_append] at hentries
  obtain ⟨more, hmore, rfl⟩ := Rd.map_ok_iff.mp hentries
  refine ⟨more.length, ⟨xs', m, more, hxs', congrArg Prod.fst hmore, rfl⟩, ?_⟩
  simp only [List.length_append, List.length_singleton]

/-- No line of the block comes next. -/
def BlockOver (ls : List Str) : Prop := ∀ x ∈ ls.head?, blockLine x = none

theorem block_over {σ α : Type} {onLine : σ → Str → Except ParseError (LineStep σ α)} {finish : σ → α} {s : σ}
    {entry : α → List Expect → Entry τ} {ls : List Str} (h : BlockOver ls) :
    (parseBlock onLine finish s >>= fun a => expectsFrom parseMs acc (entry a) []).run ls =
      (expectsFrom parseMs acc (entry (finish s)) []).run ls := by
  cases ls with
  | nil => rfl
  | cons x ls => exact block_left (h x rfl) ls

/-- Where no line of a block comes next, the entry that is being read and those that remain
    are added. -/
theorem Awaits.length {m : Mode} {q : ParseM (List (Entry τ))} (h : Awaits parseMs acc m q) (hm : m ≠ .between)
    {ls : List Str} (hover : BlockOver ls) {entries : List (Entry τ)} (hok : (q.run ls).1 = .ok entries) :
    ∃ n, Remaining parseMs ls n ∧ entries.length = acc.length + 1 + n := by
  cases h with
  | between => exact absurd rfl hm
  | expects entry es => exact expectsFrom_length hok
  | block finish s entry hserves =>
    rw [block_over hover] at hok
    exact expectsFrom_length hok

/-- A reader that is in an entry, after at least `n` complete ones. -/
def InEntry (parseMs : Str → Option τ) (n : Nat) (q : ParseM (List (Entry τ))) : Prop :=
  ∃ acc m, n ≤ acc.length ∧ m ≠ .between ∧ Awaits parseMs acc m q

theorem Op.mode_ne (op : Op) : op.mode ≠ .between := by
  cases op <;> exact nofun

theorem blockLine_some {t : Str} (h : blockLine x = some t) : skippedLine x = false := by
  cases hx : skippedLine x with
  | false => rfl
  | true =>
    rw [Skipped.blockLine hx] at h
    cases h

theorem entriesFrom_inEntry {t : Str} (hx : blockLine x = some t) :
    Past [x] (InEntry parseMs acc.length) (entriesFrom parseMs acc) :=
  (entriesFrom_past_line (blockLine_some hx)).mono fun q hq => by
    obtain ⟨op, -, hawaits⟩ := hq
    exact ⟨acc, op.mode, Nat.le_refl _, op.mode_ne, hawaits⟩

/-- A line of a block stays in an entry. -/
theorem InEntry.past {n : Nat} {q : ParseM (List (Entry τ))} (h : InEntry parseMs n q) {t : Str} (hx : blockLine x = some t) :
    Past [x] (InEntry parseMs n) q := by
  obtain ⟨acc, m, hn, hm, hawaits⟩ := h
  cases hawaits with
  | between => exact absurd rfl hm
  | expects entry es =>
    refine .congr (expectsFrom_left (Or.inr ⟨t, hx⟩)) ((entriesFrom_inEntry hx).mono fun q' hq' => ?_)
    obtain ⟨acc', m', hn', hm', hawaits'⟩ := hq'
    rw [List.length_append] at hn'
    exact ⟨acc', m', by omega, hm', hawaits'⟩
  | @block σ α k onLine finish s entry hserves =>
    refine (block_taken hserves hx).mono fun q' hq' => ⟨acc, _, hn, ?_, hq'⟩
    split <;> exact nofun

def isBlockLine (x : Str) : Bool := (blockLine x).isSome

theorem InEntry.past_lines {n : Nat} {ls : List Str} (hls : ∀ x ∈ ls, isBlockLine x = true) {q : ParseM (List (Entry τ))}
    (h : InEntry parseMs n q) : Past ls (InEntry parseMs n) q := by
  induction ls generalizing q with
  | nil => exact .here h
  | cons x ls ih =>
    rw [List.forall_mem_cons] at hls
    obtain ⟨t, hx⟩ := Option.isSome_iff_exists.mp hls.1
    exact (h.past hx).trans fun q' hq' => ih hls.2 hq'

/-- Lines of a block that do not complete it leave it as it is. -/
theorem block_past_lines {k : BlockKind} {ls : List Str}
    (hls : ∀ x ∈ ls, ∃ t, blockLine x = some t ∧ k.completes t = false) {q : ParseM (List (Entry τ))}
    (h : Awaits parseMs acc (.block k) q) : Past ls (Awaits parseMs acc (.block k)) q := by
  induction ls generalizing q with
  | nil => exact .here h
  | cons x ls ih =>
    rw [List.forall_mem_cons] at hls
    obtain ⟨⟨t, hx, hk⟩, hrest⟩ := hls
    cases h with
    | @block σ α _ onLine finish s entry hserves =>
      have htaken : Past [x] (Awaits parseMs acc (.block k))
          (parseBlock onLine finish s >>= fun a => expectsFrom parseMs acc (entry a) []) := by
        simpa only [hk, Bool.false_eq_true, if_false] using block_taken hserves hx
      exact htaken.trans fun q' hq' => ih hrest hq'

/-- What a block takes whole is, read as entries, one entry more at least. -/
theorem block_counts {k : BlockKind} {q : ParseM (List (Entry τ))} (h : Awaits parseMs acc (.block k) q) {x : Str}
    {ls : List Str} (hx : isBlockLine x = true)
    (hk : ∀ y ∈ (x :: ls).takeWhile isBlockLine, ∀ t, blockLine y = some t → k.completes t = false) {acc' : List (Entry τ)}
    (hacc : acc.length < acc'.length) {entries entries' : List (Entry τ)} (hok : (q.run (x :: ls)).1 = .ok entries)
    (hok' : ((entriesFrom parseMs acc').run (x :: ls)).1 = .ok entries') : entries.length < entries'.length := by
  have hsplit := List.takeWhile_append_dropWhile (p := isBlockLine) (l := x :: ls)
  have hover : BlockOver ((x :: ls).dropWhile isBlockLine) := by
    intro y hy
    have hnot := List.head?_dropWhile_not isBlockLine (x :: ls)
    rw [hy] at hnot
    simpa [isBlockLine] using hnot
  have hlines : ∀ y ∈ (x :: ls).takeWhile isBlockLine, ∃ t, blockLine y = some t ∧ k.completes t = false := by
    intro y hy
    have hline : isBlockLine y = true := List.mem_takeWhile_imp hy
    obtain ⟨t, ht⟩ := Option.isSome_iff_exists.mp hline
    exact ⟨t, ht, hk y hy t ht⟩
  -- the block takes the lines, and then the expects and the other entries come
  have hblock := block_past_lines hlines h
  rw [← hsplit] at hok
  obtain ⟨q₁, hq₁, hrun⟩ := hblock.of_ok hok
  rw [hrun] at hok
  obtain ⟨n, hn, hlength⟩ := hq₁.length nofun hover hok
  -- as entries the lines start one at least, and then the same comes
  have hinEntry : Past ((x :: ls).takeWhile isBlockLine) (InEntry parseMs acc'.length) (entriesFrom parseMs acc') := by
    obtain ⟨t, ht⟩ := Option.isSome_iff_exists.mp hx
    rw [List.takeWhile_cons_of_pos hx]
    exact (entriesFrom_inEntry ht).trans fun q' hq' => hq'.past_lines fun y hy => List.mem_takeWhile_imp hy
  rw [← hsplit] at hok'
  obtain ⟨q₂, ⟨acc₂, m, hn₂, hm, hq₂⟩, hrun'⟩ := hinEntry.of_ok hok'
  rw [hrun'] at hok'
  obtain ⟨n', hn', hlength'⟩ := hq₂.length hm hover hok'
  have hsame := hn.unique hn'
  omega

/-! ## Where a comment is without effect -/

/-- A comment `c` that comes before the lines `ls`. -/
def Harmless (m : Mode) (c : Str) (ls : List Str) : Prop :=
  match m with
  | .between => True
  | .block _ => BlockOver ls ∧ (indented c = true ∨ nothingExpected ls = true)
  | .expects => indented c = true ∨ nothingExpected ls = true

/-- In a block that a line still to come completes, an indented line that calls an operation
    comes next. -/
def CallAhead (parseMs : Str → Option τ) (m : Mode) (ls : List Str) : Prop :=
  ∃ k, m = .block k ∧ (∃ x ∈ ls.head?, isBlockLine x = true ∧ (calledOp parseMs x).isSome = true) ∧
    ∃ x ∈ ls.takeWhile isBlockLine, ∃ t, blockLine x = some t ∧ k.completes t = true

theorem expectsFrom_comment {c : Str} (hc : Skipped c) {ls : List Str} {entries : List (Entry τ)}
    (hok : ((expectsFrom parseMs acc entry es).run ls).1 = .ok entries) :
    ((expectsFrom parseMs acc entry es).run (c :: ls)).1 = .ok entries ↔ indented c = true ∨ nothingExpected ls = true := by
  rw [expectsFrom_skip hc]
  by_cases hindented : indented c = true
  · rw [if_pos hindented]
    exact iff_of_true hok (Or.inl hindented)
  · rw [if_neg hindented]
    by_cases hnothing : nothingExpected ls = true
    · rw [← expectsFrom_nothing hnothing]
      exact iff_of_true hok (Or.inr hnothing)
    · refine iff_of_false (fun hentries => ?_) (fun h => h.elim hindented hnothing)
      obtain ⟨o, hstop⟩ := entriesFrom_expected (acc ++ [entry es]) hnothing
      rw [hstop] at hentries
      cases hentries

/-- Before a line of the block, it is as if the block ended with the comment, and an entry began
    with the line. -/
theorem block_comment {σ α : Type} {onLine : σ → Str → Except ParseError (LineStep σ α)} {finish : σ → α} {s : σ}
    {entry : α → List Expect → Entry τ} {c : Str} (hc : Skipped c) {ls : List Str} (hx : isBlockLine x = true) :
    (parseBlock onLine finish s >>= fun a => expectsFrom parseMs acc (entry a) []).run (c :: x :: ls) =
      (entriesFrom parseMs (acc ++ [entry (finish s) []])).run (x :: ls) := by
  rw [block_left hc.blockLine, expectsFrom_skip hc]
  split
  · exact expectsFrom_left (Or.inr (Option.isSome_iff_exists.mp hx)) ls
  · rfl

/-- If the script is then the same, a call is ahead. -/
theorem block_comment_ahead {σ α : Type} {k : BlockKind} {onLine : σ → Str → Except ParseError (LineStep σ α)} {finish : σ → α}
    {s : σ} {entry : α → List Expect → Entry τ} (hserves : k.Serves onLine) {c : Str} (hc : Skipped c) {ls : List Str}
    (hx : isBlockLine x = true) {entries : List (Entry τ)}
    (hok : ((parseBlock onLine finish s >>= fun a => expectsFrom parseMs acc (entry a) []).run (x :: ls)).1 = .ok entries)
    (hsame : ((parseBlock onLine finish s >>= fun a => expectsFrom parseMs acc (entry a) []).run (c :: x :: ls)).1 =
      .ok entries) :
    CallAhead parseMs (.block k) (x :: ls) := by
  rw [block_comment hc hx] at hsame
  obtain ⟨t, ht⟩ := Option.isSome_iff_exists.mp hx
  refine ⟨k, rfl, ⟨x, rfl, hx, ?_⟩, ?_⟩
  · cases hcalled : calledOp parseMs x with
    | some op => rfl
    | none =>
      have hfail : FailsPast [x] (entriesFrom parseMs (acc ++ [entry (finish s) []])) :=
        entriesFrom_fails (blockLine_some ht) hcalled
      obtain ⟨o, hstop⟩ := hfail ls
      rw [List.singleton_append, hsame] at hstop
      cases hstop
  · -- if no line to come completes the block, there is an entry too many
    by_contra hnone
    have hk : ∀ y ∈ (x :: ls).takeWhile isBlockLine, ∀ t, blockLine y = some t → k.completes t = false := by
      intro y hy t hyt
      cases hcompletes : k.completes t with
      | false => rfl
      | true => exact absurd ⟨y, hy, t, hyt, hcompletes⟩ hnone
    have hmore : acc.length < (acc ++ [entry (finish s) []]).length := by simp
    exact Nat.lt_irrefl _ (block_counts (.block finish s entry hserves) hx hk hmore hok hsame)

/-- A comment is without effect where it is harmless, and nowhere else unless a call is ahead. -/
theorem Awaits.comment {m : Mode} {q : ParseM (List (Entry τ))} (h : Awaits parseMs acc m q) {c : Str} (hc : Skipped c)
    {ls : List Str} {entries : List (Entry τ)} (hok : (q.run ls).1 = .ok entries) :
    (Harmless m c ls → (q.run (c :: ls)).1 = .ok entries) ∧
      ((q.run (c :: ls)).1 = .ok entries → Harmless m c ls ∨ CallAhead parseMs m ls) := by
  cases h with
  | between =>
    rw [entriesFrom_skip parseMs hc]
    exact ⟨fun _ => hok, fun _ => Or.inl trivial⟩
  | expects entry es =>
    have hiff := expectsFrom_comment hc hok
    exact ⟨hiff.mpr, fun h => Or.inl (hiff.mp h)⟩
  | @block σ α k onLine finish s entry hserves =>
    by_cases hover : BlockOver ls
    · rw [block_over hover] at hok
      rw [block_left hc.blockLine]
      have hiff := expectsFrom_comment hc hok
      exact ⟨fun h => hiff.mpr h.2, fun h => Or.inl ⟨hover, hiff.mp h⟩⟩
    · refine ⟨fun h => absurd h.1 hover, fun hsame => Or.inr ?_⟩
      obtain ⟨x, hhead, hx⟩ : ∃ x ∈ ls.head?, blockLine x ≠ none := by
        simpa only [BlockOver, not_forall, exists_prop] using hover
      cases ls with
      | nil => cases hhead
      | cons y ls =>
        cases hhead
        exact block_comment_ahead hserves hc (Option.isSome_iff_ne_none.mpr hx) hok hsame

/-- Past some lines the entries are read by a reader of the mode after them. -/
theorem entriesFrom_scan (ls : List Str) :
    Past ls (fun q => ∃ acc : List (Entry τ), Awaits parseMs acc (modeAfter parseMs ls) q) (entriesFrom parseMs []) := by
  have hstep : ∀ m q x, (∃ acc : List (Entry τ), Awaits parseMs acc m q) →
      Past [x] (fun q => ∃ acc, Awaits parseMs acc (m.next parseMs x) q) q := by
    intro m q x hq
    obtain ⟨acc, hawaits⟩ := hq
    exact (hawaits.past_line x).mono fun q' hq' => hq'.imp fun acc' h => h.2
  exact Past.scan hstep ls ⟨[], .between⟩

end

/-! ## Texts -/

/-- Leading whitespace, a hash, and a text that does not make the line a script's header. -/
structure Remark (c : Str) : Prop where
  oneLine : '\n' ∉ c
  shape : ∃ blank text, c = blank ++ '#' :: text ∧ (∀ d ∈ blank, isWhitespace d = true) ∧ ¬" nwscript".toList <+: text

theorem Remark.skipped {c : Str} (h : Remark c) : Skipped c := by
  obtain ⟨blank, text, rfl, hblank, htext⟩ := h.shape
  have hstart : trimStart (blank ++ '#' :: text) = '#' :: text := by
    rw [trimStart, List.dropWhile_append_of_pos hblank, List.dropWhile_cons_of_neg (by decide)]
  obtain ⟨u, hu⟩ := trimEnd_cons (c := '#') (by decide) text
  have hprefix : '#' :: u <+: '#' :: text := by
    rw [← hu]
    exact List.rdropWhile_prefix _ _
  rw [Skipped, skippedLine, trim, hstart, hu]
  have hheader : startsWith "# nwscript".toList ('#' :: u) = false := by
    rw [Bool.eq_false_iff]
    intro h
    have hall := (List.isPrefixOf_iff_prefix.mp h).trans hprefix
    exact htext (List.cons_prefix_cons.mp hall).2
  rw [hheader]
  rfl

theorem Remark.indented_stripCr {c : Str} (h : Remark c) : indented (stripCr c) = indented c := by
  obtain ⟨blank, text, rfl, -, -⟩ := h.shape
  unfold stripCr
  split
  · rename_i hlast
    have htext : text ≠ [] := by
      intro hnil
      rw [hnil, List.getLast?_concat] at hlast
      exact absurd hlast (by decide)
    obtain ⟨text', d, rfl⟩ : ∃ text' d, text = text' ++ [d] := ⟨_, _, (List.dropLast_append_getLast htext).symm⟩
    have hdrop : (blank ++ '#' :: (text' ++ [d])).dropLast = blank ++ '#' :: text' := by
      rw [← List.cons_append, ← List.append_assoc, List.dropLast_concat]
    rw [hdrop]
    rcases blank with _ | ⟨a, _ | ⟨b, blank⟩⟩ <;> simp [indented]
  · rfl

/-- The lines after the delimiter. -/
def body (ls : List Str) : List Str := (ls.dropWhile fun x => trim x ≠ "---".toList).drop 1

theorem preambleStep_cases {x : Str} (hx : trim x ≠ "---".toList) (p : Preamble) :
    (∃ p', preambleStep p x = .ok (.next p')) ∨ ∃ e, preambleStep p x = .error e := by
  unfold preambleStep
  by_cases hblank : (trim x).isEmpty = true
  · simp only [hblank, if_true]
    exact Or.inl ⟨p, rfl⟩
  by_cases hcomment : startsWith ['#'] (trim x) = true
  · simp only [hblank, hx, hcomment, if_true, if_false, Bool.false_eq_true]
    exact Or.inl ⟨_, rfl⟩
  simp only [hblank, hx, hcomment, if_false, Bool.false_eq_true]
  cases stripPrefix "protocol:".toList (trim x) with
  | some rest => exact Or.inl ⟨_, rfl⟩
  | none =>
    cases stripPrefix "features:".toList (trim x) with
    | some rest => exact Or.inl ⟨_, rfl⟩
    | none =>
      simp only
      split
      · cases parseExpect (trim x) with
        | ok e => exact Or.inl ⟨_, rfl⟩
        | error e => exact Or.inr ⟨e, rfl⟩
      · exact Or.inr ⟨_, rfl⟩

/-- The preamble ends with the delimiter. -/
theorem preamble_past {ls : List Str} (h : ∃ x ∈ ls, trim x = "---".toList) (p : Preamble) :
    (∃ p', ∀ rest, (readLines preambleStep id p).run (ls ++ rest) = (.ok p', body ls ++ rest)) ∨
      FailsPast ls (readLines preambleStep id p) := by
  induction ls generalizing p with
  | nil => simp at h
  | cons x ls ih =>
    by_cases hx : trim x = "---".toList
    · have hdone : preambleStep p x = .ok (.done p) := by
        unfold preambleStep
        rw [hx]
        rfl
      have hbody : body (x :: ls) = ls := by
        rw [body, List.dropWhile_cons_of_neg (by simp [hx]), List.drop_one, List.tail_cons]
      rw [hbody]
      exact Or.inl ⟨p, fun rest => readLines_done hdone⟩
    · have hbody : body (x :: ls) = body ls := by
        rw [body, List.dropWhile_cons_of_pos (by simpa using hx), body]
      rw [List.exists_mem_cons_iff] at h
      rcases preambleStep_cases hx p with ⟨p', hnext⟩ | ⟨e, herror⟩
      · rcases ih (h.resolve_left hx) p' with ⟨p'', hrun⟩ | hfail
        · refine Or.inl ⟨p'', fun rest => ?_⟩
          rw [List.cons_append, readLines_next hnext, hrun, hbody]
        · refine Or.inr fun rest => ?_
          rw [List.cons_append, readLines_next hnext]
          exact hfail rest
      · refine Or.inr fun rest => ⟨.err e, ?_⟩
        rw [List.cons_append, readLines_error herror]

section

variable {τ : Type} {parseMs : Str → Option τ}

/-- A script whose delimiter is among `ls` is the preamble of `ls` and the entries after it. -/
theorem parseScript_body {ls : List Str} (h : ∃ x ∈ ls, trim x = "---".toList) :
    (∃ p, ∀ (text : Str) (more : List Str) (script : Script τ), lines text = ls ++ more →
        (parseScript parseMs text = .ok script ↔
          script.preamble = p ∧ ((entriesFrom parseMs []).run (body ls ++ more)).1 = .ok script.entries)) ∨
      ∀ (text : Str) (more : List Str) (script : Script τ), lines text = ls ++ more → parseScript parseMs text ≠ .ok script := by
  rcases preamble_past h .default with ⟨p, hrun⟩ | hfail
  · refine Or.inl ⟨p, fun text more script hlines => ?_⟩
    unfold parseScript parsePreamble
    rw [hlines, Rd.bind_ok (hrun more)]
    rcases hentries : (parseEntries parseMs).run (body ls ++ more) with ⟨entries | o, m⟩
    · rw [Rd.bind_ok hentries, show (entriesFrom parseMs []).run (body ls ++ more) = _ from hentries]
      obtain ⟨preamble, entries'⟩ := script
      constructor
      · intro h
        cases h
        exact ⟨rfl, rfl⟩
      · intro h
        obtain ⟨rfl, hsame⟩ := h
        cases hsame
        rfl
    · rw [Rd.bind_stop hentries, show (entriesFrom parseMs []).run (body ls ++ more) = _ from hentries]
      exact iff_of_false nofun fun h => nomatch h.2
  · refine Or.inr fun text more script hlines hok => ?_
    obtain ⟨o, hstop⟩ := hfail more
    unfold parseScript parsePreamble at hok
    rw [hlines, Rd.bind_stop (Prod.ext hstop rfl)] at hok
    cases hok

/-- A script that holds a delimiter, and a comment after a line that comes later: it is read as
    without the comment where that is harmless, and nowhere else unless a call is ahead. -/
theorem comment_inert (parseMs : Str → Option τ) (head tail comment : Str) (script : Script τ)
    (hdelimiter : ∃ x ∈ lines (writeln head), trim x = "---".toList) (hcomment : Remark comment)
    (hok : parseScript parseMs (writeln head ++ tail) = .ok script) :
    (Harmless (modeAfter parseMs (body (lines (writeln head)))) comment (lines tail) →
        parseScript parseMs (writeln head ++ (writeln comment ++ tail)) = .ok script) ∧
      (parseScript parseMs (writeln head ++ (writeln comment ++ tail)) = .ok script →
        Harmless (modeAfter parseMs (body (lines (writeln head)))) comment (lines tail) ∨
          CallAhead parseMs (modeAfter parseMs (body (lines (writeln head)))) (lines tail)) := by
  have hhead : lines (writeln head) = pieces head := by
    have hlines := lines_writeln head []
    rwa [List.append_nil, show lines [] = [] from rfl, List.append_nil] at hlines
  rw [hhead] at hdelimiter ⊢
  generalize hls : pieces head = ls at hdelimiter ⊢
  have hwithout : lines (writeln head ++ tail) = ls ++ lines tail := by rw [lines_writeln, ← hls, pieces]
  have hwith : lines (writeln head ++ (writeln comment ++ tail)) = ls ++ (stripCr comment :: lines tail) := by
    rw [lines_writeln, lines_writeln, List.splitOn_eq_singleton hcomment.oneLine, ← hls, pieces]
    rfl
  rcases parseScript_body hdelimiter with ⟨p, hbody⟩ | hnone
  · rw [hbody _ _ _ hwithout] at hok
    obtain ⟨hpreamble, hentries⟩ := hok
    obtain ⟨q, ⟨acc, hawaits⟩, hrun⟩ := (entriesFrom_scan (body ls)).of_ok hentries
    rw [hrun] at hentries
    have hskipped : Skipped (stripCr comment) := by
      rw [Skipped, skippedLine, trim_stripCr]
      exact hcomment.skipped
    obtain ⟨hsame, hharmless⟩ := hawaits.comment hskipped hentries
    have hwhere : Harmless (modeAfter parseMs (body ls)) (stripCr comment) (lines tail) ↔
        Harmless (modeAfter parseMs (body ls)) comment (lines tail) := by
      unfold Harmless
      rw [hcomment.indented_stripCr]
    rw [hbody _ _ _ hwith, hrun, ← hwhere]
    exact ⟨fun h => ⟨hpreamble, hsame h⟩, fun h => hharmless h.2⟩
  · exact absurd hok (hnone _ _ _ hwithout)

end

/-- Why a call ahead is excepted: with the comment the first call to CollectGarbage is read, and
    the second is passed over. -/
example : parseScript (fun _ => (none : Option Unit))
      "---\nAddBuildLog a\n  # b\n  CollectGarbage\n  data: x\"\"\n  CollectGarbage\n".toList =
    parseScript (fun _ => none) "---\nAddBuildLog a\n  CollectGarbage\n  data: x\"\"\n  CollectGarbage\n".toList := by
  decide

def repairCall : Entry Unit := ⟨none, .verifyStore false true, none, []⟩

def syncCall : Entry Unit := ⟨none, .noArgs .syncWithGC, none, []⟩

/-- A comment after the block of a call. -/
theorem comment_inert_after : parseScript (fun _ => none) "---\nVerifyStore\n  repair: 1\n# collect\nSyncWithGC\n".toList =
    .ok ⟨.default, [repairCall, syncCall]⟩ :=
  (comment_inert (fun _ => none) "---\nVerifyStore\n  repair: 1".toList "SyncWithGC\n".toList "# collect".toList
    ⟨.default, [repairCall, syncCall]⟩ (by decide) ⟨by decide, [], " collect".toList, rfl, nofun, by decide⟩ (by decide)).1
    ⟨fun x hx => by cases hx; decide, Or.inr (by decide)⟩

/-- An option of a block, commented out. -/
theorem commented_option_fails :
    Remark "  # check_contents: 1".toList ∧
    parseScript (fun _ => none) "---\nVerifyStore\n  repair: 1\nSyncWithGC\n".toList =
      .ok ⟨.default, [repairCall, syncCall]⟩ ∧
    (parseScript (fun _ => none) "---\nVerifyStore\n  # check_contents: 1\n  repair: 1\nSyncWithGC\n".toList :
      Res ParseError (Script Unit)) = .stop (.err (.unknownOp "repair:".toList)) :=
  have hblank : "  ".toList.all isWhitespace = true := by decide
  ⟨⟨by decide, "  ".toList, " check_contents: 1".toList, rfl, List.all_eq_true.mp hblank, by decide⟩, by decide, by decide⟩

end NixWire
