/-
  NixWire.Base.Text — the string functions of line-oriented formats.

  Whitespace and trimming, prefixes, splitting at the first occurrence, replacement, and
  the lines of a text: the pieces between line feeds, a carriage return before one dropped.
  `lines_flatMap` gives the lines of a text that was written line by line; `trim_tight` and
  `splitOnce_char` invert what a printer puts around a value.
-/

import Mathlib.Data.List.DropRight
import NixWire.Base.Utf8

namespace NixWire.Base

/-! ## Whitespace -/

/-- The characters of the Unicode property `White_Space`. -/
def isWhitespace (c : Char) : Bool :=
  let n := c.toNat
  (9 ≤ n && n ≤ 13) || n == 0x20 || n == 0x85 || n == 0xa0 || n == 0x1680 || (0x2000 ≤ n && n ≤ 0x200a) || n == 0x2028
    || n == 0x2029 || n == 0x202f || n == 0x205f || n == 0x3000

def trimStart (s : Str) : Str := s.dropWhile isWhitespace

def trimEnd (s : Str) : Str := s.rdropWhile isWhitespace

def trim (s : Str) : Str := trimEnd (trimStart s)

/-- No whitespace at either end. -/
def Tight (s : Str) : Prop :=
  (∀ c ∈ s.head?, isWhitespace c = false) ∧ ∀ c ∈ s.getLast?, isWhitespace c = false

instance (s : Str) : Decidable (Tight s) :=
  @instDecidableAnd _ _ (Option.decidableForallMem _) (Option.decidableForallMem _)

theorem trimStart_eq_self {s : Str} (h : ∀ c ∈ s.head?, isWhitespace c = false) : trimStart s = s := by
  cases s with
  | nil => rfl
  | cons c s => rw [trimStart, List.dropWhile_cons_of_neg (by simp [h c rfl])]

theorem trimEnd_eq_self {s : Str} (h : ∀ c ∈ s.getLast?, isWhitespace c = false) : trimEnd s = s := by
  rw [trimEnd, List.rdropWhile_eq_self_iff]
  intro hs
  simp [h _ (List.getLast?_eq_getLast_of_ne_nil hs)]

theorem trim_tight {s : Str} (h : Tight s) : trim s = s := by rw [trim, trimStart_eq_self h.1, trimEnd_eq_self h.2]

theorem trimStart_cons {c : Char} (hc : isWhitespace c = true) (s : Str) : trimStart (c :: s) = trimStart s :=
  List.dropWhile_cons_of_pos hc

theorem trim_cons {c : Char} (hc : isWhitespace c = true) (s : Str) : trim (c :: s) = trim s := by
  rw [trim, trimStart_cons hc, trim]

theorem trimEnd_snoc {c : Char} (hc : isWhitespace c = true) (s : Str) : trimEnd (s ++ [c]) = trimEnd s :=
  List.rdropWhile_concat_pos _ _ _ hc

theorem trim_snoc {c : Char} (hc : isWhitespace c = true) (s : Str) : trim (s ++ [c]) = trim s := by
  induction s with
  | nil => exact trim_cons hc []
  | cons d s ih =>
    by_cases hd : isWhitespace d = true
    · rw [List.cons_append, trim_cons hd, trim_cons hd, ih]
    · have hhead : ∀ {t : Str}, ∀ e ∈ (d :: t).head?, isWhitespace e = false := by
        intro t e he
        cases he
        simpa using hd
      rw [List.cons_append, trim, trimStart_eq_self hhead, ← List.cons_append, trimEnd_snoc hc, trim, trimStart_eq_self hhead]

theorem trim_trimEnd (s : Str) : trim (trimEnd s) = trim s := by
  induction s using List.reverseRecOn with
  | nil => rfl
  | append_singleton s c ih =>
    by_cases hc : isWhitespace c = true
    · rw [trimEnd_snoc hc, trim_snoc hc, ih]
    · have hlast : ∀ d ∈ (s ++ [c]).getLast?, isWhitespace d = false := by
        intro d hd
        rw [List.getLast?_concat] at hd
        cases hd
        simpa using hc
      rw [trimEnd_eq_self hlast]

theorem head_trimStart (s : Str) : ∀ c ∈ (trimStart s).head?, isWhitespace c = false := by
  intro c hc
  have h := List.head?_dropWhile_not isWhitespace s
  rw [show (s.dropWhile isWhitespace).head? = some c from hc] at h
  exact h

theorem tight_trim (s : Str) : Tight (trim s) := by
  constructor
  · intro c hc
    -- what the end loses does not touch the head
    obtain ⟨t, ht⟩ := List.rdropWhile_prefix isWhitespace (l := trimStart s)
    refine head_trimStart s c ?_
    cases htrim : trim s with
    | nil =>
      rw [htrim] at hc
      cases hc
    | cons d u =>
      rw [htrim] at hc
      rw [← ht, show (trimStart s).rdropWhile isWhitespace = d :: u from htrim]
      exact hc
  · intro c hc
    have hne : trim s ≠ [] := by
      intro h
      rw [h] at hc
      cases hc
    have hlast := List.rdropWhile_last_not isWhitespace (trimStart s) hne
    rw [List.getLast?_eq_some_getLast hne] at hc
    cases hc
    simpa [trim, trimEnd] using hlast

theorem mem_of_mem_trim {s : Str} {c : Char} (h : c ∈ trim s) : c ∈ s :=
  (List.dropWhile_suffix _).subset ((List.rdropWhile_prefix _ _).subset h)

theorem tight_nil : Tight [] := ⟨fun _ h => (nomatch h), fun _ h => (nomatch h)⟩

theorem tight_append {a b : Str} (ha : ∀ c ∈ a.head?, isWhitespace c = false) (hane : a ≠ [])
    (hb : ∀ c ∈ b.getLast?, isWhitespace c = false) (hbne : b ≠ []) : Tight (a ++ b) := by
  constructor
  · intro c hc
    rw [List.head?_append_of_ne_nil _ hane] at hc
    exact ha c hc
  · intro c hc
    rw [List.getLast?_append_of_ne_nil _ hbne] at hc
    exact hb c hc

/-- What ends in no whitespace is not touched at the end. -/
theorem trimEnd_append {a : Str} (ha : ∀ c ∈ a.getLast?, isWhitespace c = false) (b : Str) :
    trimEnd (a ++ b) = a ++ trimEnd b := by
  induction b using List.reverseRecOn with
  | nil => rw [List.append_nil, trimEnd_eq_self ha, trimEnd, List.rdropWhile_nil, List.append_nil]
  | append_singleton b c ih =>
    by_cases hc : isWhitespace c = true
    · rw [← List.append_assoc, trimEnd_snoc hc, trimEnd_snoc hc, ih]
    · have hlast : ∀ {t : Str}, ∀ d ∈ (t ++ [c]).getLast?, isWhitespace d = false := by
        intro t d hd
        rw [List.getLast?_concat] at hd
        cases hd
        simpa using hc
      rw [← List.append_assoc, trimEnd_eq_self hlast, trimEnd_eq_self hlast, List.append_assoc]

/-- What trimming leaves of a blank and a value. -/
def spaced (value : Str) : Str := if value = [] then [] else ' ' :: value

section

variable {label value : Str}

theorem trim_append (hlabel : Tight label) (hne : label ≠ []) (s : Str) : trim (label ++ s) = label ++ trimEnd s := by
  have hhead : ∀ c ∈ (label ++ s).head?, isWhitespace c = false := by
    rw [List.head?_append_of_ne_nil _ hne]
    exact hlabel.1
  rw [trim, trimStart_eq_self hhead, trimEnd_append hlabel.2]

theorem trimEnd_spaced (hvalue : Tight value) : trimEnd (spaced value) = spaced value := by
  by_cases hv : value = []
  · subst hv
    rfl
  · rw [spaced, if_neg hv, trimEnd_eq_self]
    rw [List.getLast?_cons_of_ne_nil hv]
    exact hvalue.2

/-- A label, a blank and a value, trimmed. -/
theorem trim_label (hlabel : Tight label) (hne : label ≠ []) (hvalue : Tight value) :
    trim (label ++ ' ' :: value) = label ++ spaced value := by
  rw [trim_append hlabel hne]
  by_cases hv : value = []
  · subst hv
    rfl
  · have hspaced := trimEnd_spaced hvalue
    rw [spaced, if_neg hv] at hspaced
    rw [hspaced, spaced, if_neg hv]

theorem trim_label_spaced (hlabel : Tight label) (hne : label ≠ []) (hvalue : Tight value) :
    trim (label ++ spaced value) = label ++ spaced value := by
  rw [trim_append hlabel hne, trimEnd_spaced hvalue]

theorem trim_spaced (hvalue : Tight value) : trim (spaced value) = value := by
  by_cases hv : value = []
  · subst hv
    rfl
  · rw [spaced, if_neg hv, trim_cons rfl, trim_tight hvalue]

end

/-! ## Prefixes and splitting -/

def startsWith (p s : Str) : Bool := p.isPrefixOf s

def stripPrefix (p s : Str) : Option Str := if p.isPrefixOf s then some (s.drop p.length) else none

def stripSuffix (p s : Str) : Option Str := if p.isSuffixOf s then some (s.take (s.length - p.length)) else none

/-- What stands before and after the first occurrence of `p`. -/
def splitOnce (p : Str) : Str → Option (Str × Str)
  | [] => if p.isEmpty then some ([], []) else none
  | c :: s => if p.isPrefixOf (c :: s) then some ([], (c :: s).drop p.length)
    else (splitOnce p s).map fun ab => (c :: ab.1, ab.2)

def splitWhitespace (s : Str) : List Str := (s.splitOnP isWhitespace).filter fun w => !w.isEmpty

def trimStartMatches (c : Char) (s : Str) : Str := s.dropWhile (· == c)

def trimEndMatches (c : Char) (s : Str) : Str := s.rdropWhile (· == c)

@[simp] theorem startsWith_nil (s : Str) : startsWith [] s = true := rfl

@[simp] theorem startsWith_cons (a b : Char) (p s : Str) : startsWith (a :: p) (b :: s) = (a == b && startsWith p s) := rfl

@[simp] theorem startsWith_append (p s : Str) : startsWith p (p ++ s) = true := by
  rw [startsWith, List.isPrefixOf_iff_prefix]
  exact List.prefix_append p s

@[simp] theorem stripPrefix_append (p s : Str) : stripPrefix p (p ++ s) = some s := by
  rw [stripPrefix, if_pos (List.isPrefixOf_iff_prefix.mpr (List.prefix_append p s)), List.drop_left]

@[simp] theorem stripSuffix_append (s p : Str) : stripSuffix p (s ++ p) = some s := by
  rw [stripSuffix, if_pos (List.isSuffixOf_iff_suffix.mpr (List.suffix_append s p)), List.length_append, Nat.add_sub_cancel,
    List.take_left]

theorem stripPrefix_not {p s : Str} (h : ¬startsWith p s = true) : stripPrefix p s = none := if_neg h

theorem stripPrefix_some {p s t : Str} (h : stripPrefix p s = some t) : s = p ++ t := by
  rw [stripPrefix] at h
  split at h
  · rename_i hp
    cases h
    obtain ⟨t, rfl⟩ := List.isPrefixOf_iff_prefix.mp hp
    rw [List.drop_left]
  · cases h

/-- A prefix that differs from `k` does not start what begins with `k`. -/
theorem stripPrefix_none {p k : Str} (hp : ¬p <+: k) (hk : ¬k <+: p) (s : Str) : stripPrefix p (k ++ s) = none := by
  rw [stripPrefix, if_neg]
  intro h
  rcases List.prefix_or_prefix_of_prefix (List.isPrefixOf_iff_prefix.mp h) (List.prefix_append k s) with h | h
  · exact hp h
  · exact hk h

theorem splitOnce_char {c : Char} {a b : Str} (h : c ∉ a) : splitOnce [c] (a ++ c :: b) = some (a, b) := by
  induction a with
  | nil => simp [splitOnce]
  | cons d a ih =>
    have hne : c ≠ d := fun hcd => h (hcd ▸ List.mem_cons_self)
    have hd : [c].isPrefixOf (d :: (a ++ c :: b)) = false := by simp [List.isPrefixOf, hne]
    rw [List.cons_append, splitOnce, hd, if_neg (by simp), ih fun hc => h (List.mem_cons_of_mem d hc)]
    rfl

/-- A separator of two characters, the first of which does not stand before it. -/
theorem splitOnce_two {c d : Char} {a b : Str} (h : c ∉ a) : splitOnce [c, d] (a ++ c :: d :: b) = some (a, b) := by
  induction a with
  | nil => simp [splitOnce]
  | cons e a ih =>
    have hne : c ≠ e := fun hce => h (hce ▸ List.mem_cons_self)
    have he : [c, d].isPrefixOf (e :: (a ++ c :: d :: b)) = false := by simp [List.isPrefixOf, hne]
    rw [List.cons_append, splitOnce, he, if_neg (by simp), ih fun hc => h (List.mem_cons_of_mem e hc)]
    rfl

theorem splitOnce_none {c : Char} {s : Str} (h : c ∉ s) : splitOnce [c] s = none := by
  induction s with
  | nil => rfl
  | cons d s ih =>
    have hne : c ≠ d := fun hcd => h (hcd ▸ List.mem_cons_self)
    have hd : [c].isPrefixOf (d :: s) = false := by simp [List.isPrefixOf, hne]
    rw [splitOnce, hd, if_neg (by simp), ih fun hc => h (List.mem_cons_of_mem d hc)]
    rfl

theorem splitOnce_some {c : Char} {s a b : Str} (h : splitOnce [c] s = some (a, b)) : s = a ++ c :: b ∧ c ∉ a := by
  induction s generalizing a with
  | nil => cases h
  | cons d s ih =>
    rw [splitOnce] at h
    split at h
    · rename_i hd
      cases h
      obtain rfl : c = d := by simpa using hd
      exact ⟨rfl, List.not_mem_nil⟩
    · rename_i hd
      obtain ⟨⟨a', b'⟩, hrest, hab⟩ := Option.map_eq_some_iff.mp h
      cases hab
      obtain ⟨rfl, hc⟩ := ih hrest
      refine ⟨rfl, ?_⟩
      simp at hd
      simp [hc, hd]

/-! ## Replacement -/

def replaceChar (c : Char) (new s : Str) : Str := s.flatMap fun d => if d = c then new else [d]

/-- Replace the two characters `a`, `b` in a row. -/
def replacePair (a b : Char) (new : Str) : Str → Str
  | [] => []
  | [c] => [c]
  | c :: d :: s => if c = a ∧ d = b then new ++ replacePair a b new s else c :: replacePair a b new (d :: s)

theorem replacePair_pair (a b : Char) (new s : Str) : replacePair a b new (a :: b :: s) = new ++ replacePair a b new s := by
  rw [replacePair, if_pos ⟨rfl, rfl⟩]

theorem replacePair_cons {a b c : Char} (h : c ≠ a) (new s : Str) :
    replacePair a b new (c :: s) = c :: replacePair a b new s := by
  cases s with
  | nil => rfl
  | cons d s => rw [replacePair, if_neg fun hc => h hc.1]

theorem replacePair_length_le (a b c : Char) (s : Str) : (replacePair a b [c] s).length ≤ s.length := by
  induction s using replacePair.induct (a := a) (b := b) with
  | case1 => exact Nat.le_refl _
  | case2 d => exact Nat.le_refl _
  | case3 d e s h ih =>
    rw [replacePair, if_pos h]
    simp only [List.length_append, List.length_cons, List.length_nil]
    omega
  | case4 d e s h ih =>
    rw [replacePair, if_neg h]
    simpa using ih

/-- Only a text without the pair keeps its length. -/
theorem replacePair_no_pair {a b c : Char} {s : Str} (h : (replacePair a b [c] s).length = s.length) : ¬[a, b] <:+: s := by
  induction s using replacePair.induct (a := a) (b := b) with
  | case1 => simp
  | case2 d =>
    intro hpair
    simpa using hpair.length_le
  | case3 d e s hde ih =>
    rw [replacePair, if_pos hde] at h
    have hle := replacePair_length_le a b c s
    simp only [List.length_append, List.length_cons, List.length_nil] at h
    omega
  | case4 d e s hde ih =>
    rw [replacePair, if_neg hde] at h
    rw [List.infix_cons_iff]
    intro hpair
    rcases hpair with hpair | hpair
    · simp only [List.cons_prefix_cons, List.nil_prefix, and_true] at hpair
      exact hde ⟨hpair.1.symm, hpair.2.symm⟩
    · exact ih (by simpa using h) hpair

theorem replacePair_self {a b : Char} {s : Str} (h : ¬[a, b] <:+: s) (new : Str) : replacePair a b new s = s := by
  induction s using replacePair.induct (a := a) (b := b) with
  | case1 => rfl
  | case2 d => rfl
  | case3 d e s hde ih =>
    obtain ⟨rfl, rfl⟩ := hde
    exact (h (List.infix_cons_iff.mpr (Or.inl (by simp)))).elim
  | case4 d e s hde ih =>
    rw [replacePair, if_neg hde, ih fun hpair => h (List.infix_cons_iff.mpr (Or.inr hpair))]

/-! ## Lines -/

def stripCr (s : Str) : Str := if s.getLast? = some '\r' then s.dropLast else s

/-- The lines of a text. What follows the last line feed is a line unless it is empty. -/
def lines (s : Str) : List Str :=
  (s.splitOn '\n').dropLast.map stripCr ++ ((s.splitOn '\n').getLast?.filter fun l => !l.isEmpty).toList

/-- A line as it is written. -/
def writeln (s : Str) : Str := s ++ ['\n']

/-- `s` can stand on a line of its own. -/
def OneLine (s : Str) : Prop := '\n' ∉ s ∧ s.getLast? ≠ some '\r'

theorem Tight.oneLine {s : Str} (h : Tight s) (hs : '\n' ∉ s) : OneLine s := by
  refine ⟨hs, fun hlast => ?_⟩
  have hwhite := h.2 _ hlast
  simp [isWhitespace] at hwhite

theorem OneLine.append {a b : Str} (ha : '\n' ∉ a) (hb : OneLine b) (hne : b ≠ []) : OneLine (a ++ b) := by
  refine ⟨by simp [ha, hb.1], ?_⟩
  rw [List.getLast?_append_of_ne_nil _ hne]
  exact hb.2

theorem OneLine.concat {a b : Str} (ha : OneLine a) (hb : OneLine b) : OneLine (a ++ b) := by
  by_cases hne : b = []
  · subst hne
    rwa [List.append_nil]
  · exact .append ha.1 hb hne

theorem OneLine.blank {s : Str} (h : OneLine s) : OneLine (' ' :: s) := by
  by_cases hs : s = []
  · subst hs
    exact ⟨by decide, by decide⟩
  · exact .append (a := [' ']) (by decide) h hs

/-- A written text is read off its front. -/
theorem lines_writeln (s rest : Str) : lines (writeln s ++ rest) = (s.splitOn '\n').map stripCr ++ lines rest := by
  have hne : rest.splitOn '\n' ≠ [] := List.splitOn_ne_nil _ _
  rw [writeln, List.append_assoc, lines, List.singleton_append, List.splitOn_append_cons_self,
    List.dropLast_append_of_ne_nil hne, List.getLast?_append_of_ne_nil _ hne, List.map_append, List.append_assoc]
  rfl

/-- What a written line is read as: several lines where it holds line feeds. -/
def pieces (s : Str) : List Str := (s.splitOn '\n').map stripCr

theorem lines_flatMap (ls : List Str) : lines (ls.flatMap writeln) = ls.flatMap pieces := by
  induction ls with
  | nil => rfl
  | cons l ls ih => rw [List.flatMap_cons, lines_writeln, ih, List.flatMap_cons, pieces]

theorem pieces_oneLine {s : Str} (h : OneLine s) : pieces s = [s] := by
  rw [pieces, List.splitOn_eq_singleton h.1, List.map_singleton, stripCr, if_neg h.2]

/-- Lines that can stand on a line of their own are read as they were written. -/
theorem lines_written {ls : List Str} (h : ∀ l ∈ ls, OneLine l) : lines (ls.flatMap writeln) = ls := by
  have hpieces : ls.flatMap pieces = ls.flatMap fun l => [l] := List.flatMap_congr fun l hl => pieces_oneLine (h l hl)
  rw [lines_flatMap, hpieces, List.flatMap_singleton']

/-- A text is some written lines, then the rest of a line. -/
theorem exists_written (t : Str) :
    ∃ (ls : List Str) (b : Str), t = ls.flatMap writeln ++ b ∧ (∀ l ∈ ls, '\n' ∉ l) ∧ '\n' ∉ b := by
  induction t with
  | nil => exact ⟨[], [], rfl, by simp, by simp⟩
  | cons c t ih =>
    obtain ⟨ls, b, rfl, hls, hb⟩ := ih
    by_cases hc : c = '\n'
    · subst hc
      exact ⟨[] :: ls, b, rfl, by simpa using hls, hb⟩
    · cases ls with
      | nil => exact ⟨[], c :: b, rfl, by simp, by simpa [Ne.symm hc] using hb⟩
      | cons l ls =>
        rw [List.forall_mem_cons] at hls
        refine ⟨(c :: l) :: ls, b, rfl, ?_, hb⟩
        rw [List.forall_mem_cons]
        exact ⟨by simpa [Ne.symm hc] using hls.1, hls.2⟩

theorem splitOn_written {ls : List Str} {b : Str} (hls : ∀ l ∈ ls, '\n' ∉ l) (hb : '\n' ∉ b) :
    (ls.flatMap writeln ++ b).splitOn '\n' = ls ++ [b] := by
  induction ls with
  | nil => exact List.splitOn_eq_singleton hb
  | cons l ls ih =>
    rw [List.forall_mem_cons] at hls
    rw [List.flatMap_cons, writeln, List.append_assoc, List.append_assoc, List.singleton_append,
      List.splitOn_append_cons_self_of_not_mem hls.1, ih hls.2, List.cons_append]

theorem pieces_written {ls : List Str} {b : Str} (hls : ∀ l ∈ ls, '\n' ∉ l) (hb : '\n' ∉ b) :
    pieces (ls.flatMap writeln ++ b) = ls.map stripCr ++ [stripCr b] := by
  rw [pieces, splitOn_written hls hb, List.map_append, List.map_singleton]

/-- Trimming the end leaves a text that does not start with whitespace its head. -/
theorem trimEnd_cons {c : Char} (hc : isWhitespace c = false) (s : Str) : ∃ t, trimEnd (c :: s) = c :: t := by
  obtain ⟨u, hu⟩ := List.rdropWhile_prefix isWhitespace (l := c :: s)
  cases h : trimEnd (c :: s) with
  | nil =>
    have hall := List.rdropWhile_eq_nil_iff.mp h c List.mem_cons_self
    rw [hc] at hall
    cases hall
  | cons d t =>
    rw [show (c :: s).rdropWhile isWhitespace = d :: t from h] at hu
    cases hu
    exact ⟨t, rfl⟩

/-- Nor does it take away from a prefix that ends in no whitespace. -/
theorem prefix_trimEnd {p s : Str} (hp : ∀ c ∈ p.getLast?, isWhitespace c = false) (h : p <+: s) : p <+: trimEnd s := by
  obtain ⟨t, rfl⟩ := h
  rw [trimEnd_append hp]
  exact List.prefix_append p _

theorem trim_stripCr (s : Str) : trim (stripCr s) = trim s := by
  unfold stripCr
  split
  · rename_i hlast
    obtain ⟨t, rfl⟩ : ∃ t, s = t ++ ['\r'] := ⟨s.dropLast, (List.dropLast_append_getLast? _ hlast).symm⟩
    rw [List.dropLast_concat, trim_snoc rfl]
  · rfl

end NixWire.Base
