/-
  NixWire.Quoted — text between double quotes.

  `escape_string` writes a backslash for each of five characters and `unquote` takes them
  out again, one letter after the other over the whole text. The passes for `n`, `r` and
  `t` come before the one for the backslash, so they see the second backslash of a pair as
  the start of an escape.

  - `unescape_escape`: what comes back of any text (`mangled`).
  - `unescape_self`: the texts that `unquote` leaves alone when they were not escaped.
-/

import NixWire.Format
import NixWire.Parse

namespace NixWire

open Base

/-- What `unquote` does between the quotes. -/
def unescape (s : Str) : Str :=
  replacePair '\\' '\\' ['\\'] <| replacePair '\\' '"' ['"'] <| replacePair '\\' 't' ['\t'] <|
    replacePair '\\' 'r' ['\r'] <| replacePair '\\' 'n' ['\n'] s

theorem quoted_tight (s : Str) : Tight ('"' :: s ++ ['"']) :=
  tight_append (by simp [isWhitespace]) (List.cons_ne_nil _ _) (by simp [isWhitespace]) (List.cons_ne_nil _ _)

theorem unquote_quoted (s : Str) : unquote ('"' :: s ++ ['"']) = unescape s := by
  have hinner : inner ('"' :: s ++ ['"']) = s := by simp [inner]
  have hlast : ('"' :: s ++ ['"']).getLast? = some '"' := by
    rw [List.getLast?_append_of_ne_nil _ (List.cons_ne_nil _ _)]
    rfl
  rw [unquote, trim_tight (quoted_tight s), if_pos ⟨rfl, hlast, by simp⟩, hinner, unescape]

/-- A backslash stands directly before one of `letters`. -/
def BackslashBefore (letters : List Char) (s : Str) : Prop := ∃ c ∈ letters, ['\\', c] <:+: s

theorem not_backslashBefore {s : Str} (h : '\\' ∉ s) (letters : List Char) : ¬BackslashBefore letters s := by
  intro hpair
  obtain ⟨c, -, hc⟩ := hpair
  exact h (hc.subset List.mem_cons_self)

theorem backslashBefore_nil (letters : List Char) : ¬BackslashBefore letters [] := not_backslashBefore List.not_mem_nil _

theorem backslashBefore_cons {letters : List Char} {c : Char} {s : Str} : BackslashBefore letters (c :: s) ↔
    (c = '\\' ∧ ∃ d ∈ letters, s.head? = some d) ∨ BackslashBefore letters s := by
  have hpair (d : Char) : ['\\', d] <:+: c :: s ↔ (c = '\\' ∧ s.head? = some d) ∨ ['\\', d] <:+: s := by
    rw [List.infix_cons_iff, List.cons_prefix_cons, List.singleton_prefix_iff_head?_eq_some, eq_comm]
  simp only [BackslashBefore, hpair]
  grind

instance decidableBackslashBefore (letters : List Char) : (s : Str) → Decidable (BackslashBefore letters s)
  | [] => isFalse (backslashBefore_nil letters)
  | _ :: s =>
    have := decidableBackslashBefore letters s
    have : Decidable (∃ d ∈ letters, s.head? = some d) := List.decidableBEx _ _
    decidable_of_iff _ backslashBefore_cons.symm

/-- The letters that `unquote` takes for an escape after a backslash. -/
def escapeLetters : List Char := ['n', 'r', 't', '"', '\\']

/-! ## Escaping -/

/-- The letter that stands for a character after a backslash. -/
def letterOf (c : Char) : Option Char :=
  if c = '\\' then some '\\' else if c = '"' then some '"' else if c = '\n' then some 'n'
  else if c = '\r' then some 'r' else if c = '\t' then some 't' else none

/-- A character after the escapes of the letters in `done` have been replaced. -/
def escapedBut (done : List Char) (c : Char) : Str :=
  match letterOf c with
  | some letter => if letter ∈ done then [c] else ['\\', letter]
  | none => [c]

theorem letterOf_inj {c d letter : Char} (hc : letterOf c = some letter) (hd : letterOf d = some letter) : c = d := by
  simp only [letterOf] at hc hd
  split at hc <;> grind

theorem letterOf_backslash {c : Char} : letterOf c = some '\\' ↔ c = '\\' := by
  constructor
  · exact fun h => letterOf_inj h rfl
  · intro h
    rw [h]
    rfl

theorem escapeString_eq (s : Str) : escapeString s = s.flatMap (escapedBut []) := by
  simp only [escapeString, replaceChar, List.flatMap_assoc]
  refine List.flatMap_congr fun c _ => ?_
  by_cases hslash : c = '\\'
  · subst hslash
    rfl
  by_cases hquote : c = '"'
  · subst hquote
    rfl
  by_cases hlf : c = '\n'
  · subst hlf
    rfl
  by_cases hcr : c = '\r'
  · subst hcr
    rfl
  by_cases htab : c = '\t'
  · subst htab
    rfl
  simp [escapedBut, letterOf, hslash, hquote, hlf, hcr, htab]

theorem escapeString_oneLine (s : Str) : '\n' ∉ escapeString s := by
  rw [escapeString_eq, List.mem_flatMap]
  intro h
  obtain ⟨c, _, hc⟩ := h
  simp only [escapedBut, letterOf] at hc
  grind

/-! ## Unescaping -/

/-- The control character that a letter stands for after a backslash. -/
def control (c : Char) : Option Char :=
  if c = 'n' then some '\n' else if c = 'r' then some '\r' else if c = 't' then some '\t' else none

/-- `s` after its escaping and the passes for the letters in `done`. -/
def partway (done : List Char) : Str → Str
  | [] => []
  | [c] => escapedBut done c
  | c :: d :: s =>
    if c = '\\' ∧ d ∈ done ∧ (control d).isSome then c :: (control d).getD d :: partway done s
    else escapedBut done c ++ partway done (d :: s)

theorem partway_nil (s : Str) : partway [] s = escapeString s := by
  rw [escapeString_eq]
  induction s using partway.induct [] with
  | case1 => rfl
  | case2 c => simp [partway]
  | case3 c d s h ih => simp at h
  | case4 c d s h ih => rw [partway, if_neg h, ih, ← List.flatMap_cons]

theorem escapedBut_plain {done : List Char} {c : Char} (h : letterOf c = none) : escapedBut done c = [c] := by
  rw [escapedBut, h]

theorem escapedBut_letter {done : List Char} {c letter : Char} (h : letterOf c = some letter) :
    escapedBut done c = if letter ∈ done then [c] else ['\\', letter] := by
  rw [escapedBut, h]

theorem control_plain {d x : Char} (h : control d = some x) :
    letterOf d = none ∧ letterOf x = some d ∧ x ≠ '\\' ∧ x ∉ ['n', 'r', 't', '"', '\\'] := by
  unfold control at h
  split at h
  · cases h
    subst d
    decide
  · split at h
    · cases h
      subst d
      decide
    · split at h
      · cases h
        subst d
        decide
      · cases h

/-- What `partway` starts with: a backslash, or its first character where that needs no escape any more. -/
theorem partway_head {done : List Char} (d : Char) (s : Str) : ∃ t, partway done (d :: s) = '\\' :: t ∨
    partway done (d :: s) = d :: t ∧ ∀ letter, letterOf d = some letter → letter ∈ done := by
  have hstep : ∃ t, escapedBut done d = '\\' :: t ∨
      escapedBut done d = d :: t ∧ ∀ letter, letterOf d = some letter → letter ∈ done := by
    cases hletter : letterOf d with
    | none => exact ⟨[], Or.inr ⟨escapedBut_plain hletter, nofun⟩⟩
    | some letter =>
      rw [escapedBut_letter hletter]
      by_cases hdone : letter ∈ done
      · refine ⟨[], Or.inr ⟨if_pos hdone, ?_⟩⟩
        intro l hl
        cases hl
        exact hdone
      · exact ⟨[letter], Or.inl (if_neg hdone)⟩
  cases s with
  | nil => exact hstep
  | cons e s =>
    rw [partway]
    split
    · rename_i h
      rw [h.1]
      exact ⟨_, Or.inl rfl⟩
    · obtain ⟨t, ht | ⟨ht, hl⟩⟩ := hstep
      · rw [ht]
        exact ⟨_, Or.inl rfl⟩
      · rw [ht]
        exact ⟨_, Or.inr ⟨rfl, hl⟩⟩

theorem partway_plain {done : List Char} {d : Char} (h : letterOf d = none) (s : Str) :
    partway done (d :: s) = d :: partway done s := by
  cases s with
  | nil => exact escapedBut_plain h
  | cons e s =>
    rw [partway, if_neg, escapedBut_plain h]
    · rfl
    · intro hd
      rw [hd.1] at h
      cases h

/-- A replacement passes over a character that does not start the pair. -/
theorem replacePair_pass {a b c : Char} {new t : Str} (h : ¬(c = a ∧ ∃ u, t = b :: u)) :
    replacePair a b new (c :: t) = c :: replacePair a b new t := by
  cases t with
  | nil => rfl
  | cons d t =>
    rw [replacePair, if_neg]
    intro hcd
    exact h ⟨hcd.1, t, by rw [hcd.2]⟩

section

variable {done : List Char} {x letter : Char} (hx : letterOf x = some letter)

include hx

theorem letter_cases : letter ∈ ['n', 'r', 't', '"', '\\'] ∧ (letter ≠ '\\' → letter ≠ '"' → (control letter).isSome = true) := by
  unfold letterOf at hx
  grind [control]

variable (hletter : letter ∉ done) (hslash : '\\' ∉ done)

include hletter hslash

/-- One pass of `unquote` over one character. -/
theorem replacePair_escapedBut {c : Char} {t : Str} (hnext : c = '\\' → letter ≠ '\\' → ¬∃ u, t = letter :: u) :
    replacePair '\\' letter [x] (escapedBut done c ++ t) =
      escapedBut (letter :: done) c ++ replacePair '\\' letter [x] t := by
  cases hc : letterOf c with
  | none =>
    rw [escapedBut_plain hc, escapedBut_plain hc]
    refine replacePair_pass fun h => ?_
    rw [h.1] at hc
    cases hc
  | some m =>
    rw [escapedBut_letter hc, escapedBut_letter hc]
    by_cases hdone : m ∈ done
    · rw [if_pos hdone, if_pos (List.mem_cons_of_mem _ hdone)]
      refine replacePair_pass fun h => ?_
      rw [h.1] at hc
      cases hc
      exact hslash hdone
    rw [if_neg hdone]
    by_cases hm : m = letter
    · subst hm
      rw [if_pos List.mem_cons_self, letterOf_inj hc hx]
      exact replacePair_pair _ _ _ _
    · -- the escape of another character
      rw [if_neg (by simp [hm, hdone])]
      have hfirst : ¬('\\' = '\\' ∧ ∃ u, m :: t = letter :: u) := by
        intro h
        obtain ⟨-, u, hu⟩ := h
        exact hm (List.cons.inj hu).1
      have hsecond : ¬(m = '\\' ∧ ∃ u, t = letter :: u) := by
        intro h
        obtain ⟨rfl, hu⟩ := h
        exact hnext (letterOf_backslash.mp hc) (fun h => hm h.symm) hu
      exact (replacePair_pass hfirst).trans (congrArg ('\\' :: ·) (replacePair_pass hsecond))

/-- One pass of `unquote`. -/
theorem replacePair_partway (s : Str) :
    replacePair '\\' letter [x] (partway done s) = partway (letter :: done) s := by
  obtain ⟨hmem, hcontrols⟩ := letter_cases hx
  induction s using partway.induct (letter :: done) with
  | case1 => rfl
  | case2 c =>
    have h := replacePair_escapedBut hx hletter hslash (c := c) (t := []) (by simp)
    simpa [partway, replacePair] using h
  | case3 c d s h ih =>
    obtain ⟨rfl, hd, hcontrol⟩ := h
    obtain ⟨y, hy⟩ := Option.isSome_iff_exists.mp hcontrol
    obtain ⟨hplain, hyd, hyslash, hynot⟩ := control_plain hy
    have hnext : partway (letter :: done) ('\\' :: d :: s) = '\\' :: y :: partway (letter :: done) s := by
      rw [partway, if_pos ⟨rfl, hd, hcontrol⟩, hy]
      rfl
    rw [hnext, ← ih]
    by_cases hdl : d = letter
    · -- the second backslash of a pair is taken for the start of this escape
      subst hdl
      have hne : d ≠ '\\' := by
        intro h
        rw [h] at hplain
        cases hplain
      have hbut : escapedBut done '\\' = ['\\', '\\'] := if_neg hslash
      have hthis : partway done ('\\' :: d :: s) = '\\' :: '\\' :: d :: partway done s := by
        rw [partway, if_neg fun h => hletter h.2.1, hbut, partway_plain hplain]
        rfl
      have hpass : ¬('\\' = '\\' ∧ ∃ u, '\\' :: d :: partway done s = d :: u) := by
        intro h
        obtain ⟨-, u, hu⟩ := h
        exact hne (List.cons.inj hu).1.symm
      rw [hthis, replacePair_pass hpass, replacePair_pair, letterOf_inj hx hyd]
      rfl
    · have hdone : d ∈ done := by simpa [hdl] using hd
      have hthis : partway done ('\\' :: d :: s) = '\\' :: y :: partway done s := by
        rw [partway, if_pos ⟨rfl, hdone, hcontrol⟩, hy]
        rfl
      have hpass : ¬('\\' = '\\' ∧ ∃ u, y :: partway done s = letter :: u) := by
        intro h
        obtain ⟨-, u, hu⟩ := h
        rw [(List.cons.inj hu).1] at hynot
        exact hynot hmem
      rw [hthis, replacePair_pass hpass, replacePair_cons hyslash]
  | case4 c d s h ih =>
    have hthis : ¬(c = '\\' ∧ d ∈ done ∧ (control d).isSome) := fun hd => h ⟨hd.1, List.mem_cons_of_mem _ hd.2.1, hd.2.2⟩
    rw [partway, partway, if_neg h, if_neg hthis, ← ih]
    refine replacePair_escapedBut hx hletter hslash fun hc hne hu => ?_
    obtain ⟨u, hu⟩ := hu
    obtain ⟨t, ht | ⟨ht, hneeds⟩⟩ := @partway_head done d s
    · rw [ht] at hu
      exact hne (List.cons.inj hu).1.symm
    · rw [ht] at hu
      obtain rfl := (List.cons.inj hu).1
      by_cases hquote : d = '"'
      · subst hquote
        exact hletter (hneeds '"' rfl)
      · exact h ⟨hc, List.mem_cons_self, hcontrols hne hquote⟩

end

/-- What is read back of escaped text: an `n`, `r` or `t` directly after a backslash as a control character. -/
def mangled : Str → Str
  | [] => []
  | [c] => [c]
  | c :: d :: s =>
    if c = '\\' ∧ (control d).isSome then c :: (control d).getD d :: mangled s else c :: mangled (d :: s)

theorem control_isSome {d : Char} : (control d).isSome = true ↔ d ∈ ['n', 'r', 't'] := by
  unfold control
  constructor
  · intro h
    repeat' split at h
    all_goals simp_all
  · intro h
    simp only [List.mem_cons, List.not_mem_nil, or_false] at h
    rcases h with rfl | rfl | rfl <;> rfl

theorem partway_all (s : Str) : partway ['\\', '"', 't', 'r', 'n'] s = mangled s := by
  have hplain (c : Char) : escapedBut ['\\', '"', 't', 'r', 'n'] c = [c] := by
    unfold escapedBut letterOf
    grind
  have hdone {d : Char} (h : (control d).isSome = true) : d ∈ ['\\', '"', 't', 'r', 'n'] := by
    have hd := control_isSome.mp h
    simp only [List.mem_cons, List.not_mem_nil, or_false] at hd
    rcases hd with rfl | rfl | rfl
    all_goals decide
  induction s using mangled.induct with
  | case1 => rfl
  | case2 c => exact hplain c
  | case3 c d s h ih => rw [partway, mangled, if_pos h, if_pos ⟨h.1, hdone h.2, h.2⟩, ih]
  | case4 c d s h ih =>
    rw [partway, mangled, if_neg h, if_neg fun hd => h ⟨hd.1, hd.2.2⟩, hplain, ih]
    rfl

theorem unescape_escape (s : Str) : unescape (escapeString s) = mangled s := by
  have hn : letterOf '\n' = some 'n' := rfl
  have hr : letterOf '\r' = some 'r' := rfl
  have ht : letterOf '\t' = some 't' := rfl
  have hquote : letterOf '"' = some '"' := rfl
  have hslash : letterOf '\\' = some '\\' := rfl
  rw [unescape, ← partway_nil, replacePair_partway hn (by decide) (by decide), replacePair_partway hr (by decide) (by decide),
    replacePair_partway ht (by decide) (by decide), replacePair_partway hquote (by decide) (by decide),
    replacePair_partway hslash (by decide) (by decide), partway_all]

/-- Escaped text comes back as it was unless an `n`, `r` or `t` stands directly after a backslash. -/
theorem mangled_self {s : Str} : mangled s = s ↔ ¬BackslashBefore ['n', 'r', 't'] s := by
  induction s using mangled.induct with
  | case1 => simp [mangled, backslashBefore_nil]
  | case2 c => simp [mangled, backslashBefore_cons, backslashBefore_nil]
  | case3 c d s h ih =>
    obtain ⟨y, hy⟩ := Option.isSome_iff_exists.mp h.2
    have hd := control_isSome.mp h.2
    have hne : y ≠ d := by
      intro hyd
      subst hyd
      have hletter : y ∈ ['n', 'r', 't', '"', '\\'] := List.mem_append_left ['"', '\\'] hd
      exact (control_plain hy).2.2.2 hletter
    rw [mangled, if_pos h, hy, Option.getD_some, backslashBefore_cons]
    refine iff_of_false (fun heq => hne (by simpa using (List.cons.inj (List.cons.inj heq).2).1)) ?_
    exact fun hno => hno (Or.inl ⟨h.1, d, hd, rfl⟩)
  | case4 c d s h ih =>
    have hfirst : ¬(c = '\\' ∧ ∃ e ∈ ['n', 'r', 't'], (d :: s).head? = some e) := by
      intro hpair
      obtain ⟨hc, e, he, hhead⟩ := hpair
      cases hhead
      exact h ⟨hc, control_isSome.mpr he⟩
    rw [mangled, if_neg h, List.cons_inj_right, ih, backslashBefore_cons (c := c), or_iff_right hfirst]

/-- A pass before others that never lengthen the text. -/
theorem pass_self {f : Str → Str} (hf : ∀ t, (f t).length ≤ t.length) {b c : Char} {s : Str} :
    f (replacePair '\\' b [c] s) = s ↔ ¬['\\', b] <:+: s ∧ f s = s := by
  constructor
  · intro h
    have hle := hf (replacePair '\\' b [c] s)
    rw [h] at hle
    have hno : ¬['\\', b] <:+: s := replacePair_no_pair (le_antisymm (replacePair_length_le _ _ c s) hle)
    rw [replacePair_self hno] at h
    exact ⟨hno, h⟩
  · intro h
    rw [replacePair_self h.1, h.2]

/-- Text that was not escaped is left alone when it holds no escape. -/
theorem unescape_self {s : Str} : unescape s = s ↔ ¬BackslashBefore escapeLetters s := by
  have hslash (t : Str) := replacePair_length_le '\\' '\\' '\\' t
  have hquote (t : Str) := (hslash _).trans (replacePair_length_le '\\' '"' '"' t)
  have htab (t : Str) := (hquote _).trans (replacePair_length_le '\\' 't' '\t' t)
  have hcr (t : Str) := (htab _).trans (replacePair_length_le '\\' 'r' '\r' t)
  have hlast : replacePair '\\' '\\' ['\\'] s = s ↔ ¬['\\', '\\'] <:+: s := by
    simpa using pass_self (f := id) (fun t => le_refl _) (b := '\\') (c := '\\') (s := s)
  rw [unescape, pass_self hcr, pass_self htab, pass_self hquote, pass_self hslash, hlast]
  simp [BackslashBefore, escapeLetters]

end NixWire
