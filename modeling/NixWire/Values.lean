/-
  NixWire.Values — what the formatter prints for a value, the parser reads back.

  Sets, bytes in hex, versions, matchers and expects. A set gives its elements cut at their
  commas (`parseInlinePathSet_set`). The line of an expect is `label value`; once trimmed
  the value follows the label directly when it is empty, else after a blank (`spaced`).
-/

import NixWire.Quoted

namespace NixWire

open Base

/-! ## Clean strings -/

/-- Non-empty, without whitespace, commas, braces, double quotes and backslashes. -/
def CleanStr (s : Str) : Prop := s ≠ [] ∧ ∀ c ∈ s, isWhitespace c = false ∧ c ∉ [',', '{', '}', '"', '\\']

instance (s : Str) : Decidable (CleanStr s) := @instDecidableAnd _ _ inferInstance (List.decidableBAll _ _)

/-- Text that can be written inside a line. -/
structure Printable (s : Str) : Prop where
  tight : Tight s
  oneLine : '\n' ∉ s

instance (s : Str) : Decidable (Printable s) :=
  decidable_of_iff (Tight s ∧ '\n' ∉ s) ⟨fun h => ⟨h.1, h.2⟩, fun h => ⟨h.tight, h.oneLine⟩⟩

/-- Non-empty, without whitespace and braces. -/
def SetElement (s : Str) : Prop := s ≠ [] ∧ ∀ c ∈ s, isWhitespace c = false ∧ c ∉ ['{', '}']

instance (s : Str) : Decidable (SetElement s) := @instDecidableAnd _ _ inferInstance (List.decidableBAll _ _)

section

variable {s : Str} (h : SetElement s)

include h

theorem SetElement.not_white {c : Char} (hc : isWhitespace c = true) : c ∉ s := by
  intro hmem
  have := (h.2 c hmem).1
  simp [hc] at this

theorem SetElement.printable : Printable s where
  tight := ⟨fun c hc => (h.2 c (List.mem_of_mem_head? hc)).1, fun c hc => (h.2 c (List.mem_of_mem_getLast? hc)).1⟩
  oneLine := h.not_white rfl

end

section

variable {s : Str} (h : CleanStr s)

include h

theorem CleanStr.not_mem {c : Char} (hc : c ∈ [',', '{', '}', '"', '\\']) : c ∉ s := fun hmem => (h.2 c hmem).2 hc

theorem CleanStr.element : SetElement s := by
  refine ⟨h.1, fun c hc => ⟨(h.2 c hc).1, fun hbrace => h.not_mem ?_ hc⟩⟩
  simp only [List.mem_cons, List.not_mem_nil, or_false] at hbrace
  rcases hbrace with rfl | rfl
  all_goals decide

theorem CleanStr.not_white {c : Char} (hc : isWhitespace c = true) : c ∉ s := h.element.not_white hc

theorem CleanStr.printable : Printable s := h.element.printable

end

theorem cleanElements {paths : List Str} (h : ∀ p ∈ paths, CleanStr p) : ∀ p ∈ paths, SetElement p := fun p hp =>
  (h p hp).element

/-! ## Sets -/

/-- The elements of a printed set. -/
def setElements (paths : List Str) : Str := List.intercalate ", ".toList paths

theorem setElements_cons (p q : Str) (paths : List Str) :
    setElements (p :: q :: paths) = p ++ ',' :: ' ' :: setElements (q :: paths) := by
  rw [setElements, List.intercalate_cons_cons, List.append_assoc]
  rfl

theorem setElements_ne_nil {p : Str} (hp : p ≠ []) (paths : List Str) : setElements (p :: paths) ≠ [] := by
  cases paths with
  | nil => simpa [setElements] using hp
  | cons q paths => simp [setElements_cons]

/-- The elements of a set as they are read back, cut at their commas. -/
def cutCommas (paths : List Str) : List Str := paths.flatMap (·.splitOn ',')

theorem splitOn_length {c : Char} {s : Str} : (s.splitOn c).length = 1 ↔ c ∉ s := by
  constructor
  · intro h hc
    obtain ⟨a, b, rfl, -⟩ := List.eq_append_cons_of_mem hc
    have ha := List.length_pos_iff.mpr (List.splitOn_ne_nil c a)
    have hb := List.length_pos_iff.mpr (List.splitOn_ne_nil c b)
    rw [List.splitOn_append_cons_self, List.length_append] at h
    omega
  · intro h
    rw [List.splitOn_eq_singleton h]
    rfl

theorem cutCommas_length (paths : List Str) : paths.length ≤ (cutCommas paths).length := by
  induction paths with
  | nil => exact Nat.zero_le _
  | cons p paths ih =>
    have hp := List.length_pos_iff.mpr (List.splitOn_ne_nil ',' p)
    simp only [cutCommas, List.flatMap_cons, List.length_append, List.length_cons] at ih ⊢
    omega

theorem cutCommas_self {paths : List Str} : cutCommas paths = paths ↔ ∀ p ∈ paths, ',' ∉ p := by
  constructor
  · intro h
    -- each element gives at least one
    induction paths with
    | nil => exact nofun
    | cons p paths ih =>
      have hp := List.length_pos_iff.mpr (List.splitOn_ne_nil ',' p)
      have hle := cutCommas_length paths
      have hsplit : cutCommas (p :: paths) = p.splitOn ',' ++ cutCommas paths := List.flatMap_cons
      have hlen := congrArg List.length h
      rw [hsplit, List.length_append, List.length_cons] at hlen
      have hcomma : ',' ∉ p := splitOn_length.mp (by omega)
      rw [hsplit, List.splitOn_eq_singleton hcomma, List.singleton_append, List.cons_inj_right] at h
      exact List.forall_mem_cons.mpr ⟨hcomma, ih h⟩
  · intro h
    rw [cutCommas, List.flatMap_congr fun p hp => List.splitOn_eq_singleton (h p hp), List.flatMap_singleton']

theorem cutCommas_clean {paths : List Str} (h : ∀ p ∈ paths, CleanStr p) : cutCommas paths = paths :=
  cutCommas_self.mpr fun p hp => (h p hp).not_mem (by simp)

/-- What a text is cut into holds only its characters. -/
theorem mem_of_mem_splitOn {c d : Char} {s piece : Str} (hpiece : piece ∈ s.splitOn c) (hd : d ∈ piece) : d ∈ s := by
  induction s generalizing piece with
  | nil =>
    rw [List.splitOn_nil, List.mem_singleton] at hpiece
    rwa [hpiece] at hd
  | cons e s ih =>
    rw [List.splitOn_cons_eq_if_modifyHead] at hpiece
    split at hpiece
    · rcases List.mem_cons.mp hpiece with rfl | hpiece
      · cases hd
      · exact List.mem_cons_of_mem e (ih hpiece hd)
    · cases hs : s.splitOn c with
      | nil => exact (List.splitOn_ne_nil c s hs).elim
      | cons first rest =>
        rw [hs, List.modifyHead_cons] at hpiece
        rcases List.mem_cons.mp hpiece with rfl | hpiece
        · rcases List.mem_cons.mp hd with rfl | hd
          · exact List.mem_cons_self
          · exact List.mem_cons_of_mem e (ih (hs ▸ List.mem_cons_self) hd)
        · exact List.mem_cons_of_mem e (ih (hs ▸ List.mem_cons_of_mem first hpiece) hd)

theorem splitOn_blank (s : Str) : ((' ' :: s).splitOn ',').map trim = (s.splitOn ',').map trim := by
  have hne : s.splitOn ',' ≠ [] := List.splitOn_ne_nil _ _
  rw [List.splitOn_cons_eq_if_modifyHead, if_neg (by decide)]
  cases hs : s.splitOn ',' with
  | nil => exact (hne hs).elim
  | cons a b => rw [List.modifyHead_cons, List.map_cons, List.map_cons, trim_cons rfl]

/-- What stands between the braces of a printed set. -/
def setBody (paths : List Str) : Str := if paths.isEmpty then [' '] else ' ' :: setElements paths ++ [' ']

theorem formatPathSet_eq (paths : List Str) : formatPathSet paths = '{' :: setBody paths ++ ['}'] := by
  cases paths with
  | nil => rfl
  | cons p paths => simp [formatPathSet, setBody, setElements]

theorem trim_pieces {p : Str} (hp : SetElement p) : (p.splitOn ',').map trim = p.splitOn ',' := by
  refine (List.map_congr_left fun piece hpiece => ?_).trans (List.map_id _)
  have hwhite (c : Char) (hc : c ∈ piece) : isWhitespace c = false := (hp.2 c (mem_of_mem_splitOn hpiece hc)).1
  exact trim_tight ⟨fun c hc => hwhite c (List.mem_of_mem_head? hc), fun c hc => hwhite c (List.mem_of_mem_getLast? hc)⟩

theorem splitOn_setElements {p : Str} {paths : List Str} (h : ∀ q ∈ p :: paths, SetElement q) :
    ((setElements (p :: paths)).splitOn ',').map trim = cutCommas (p :: paths) := by
  induction paths generalizing p with
  | nil => rw [setElements, List.intercalate_singleton, trim_pieces (h p List.mem_cons_self), cutCommas, List.flatMap_singleton]
  | cons q paths ih =>
    rw [setElements_cons, List.splitOn_append_cons_self, List.map_append, splitOn_blank,
      ih fun r hr => h r (List.mem_cons_of_mem p hr), trim_pieces (h p List.mem_cons_self)]
    rfl

section

variable {paths : List Str} (h : ∀ p ∈ paths, SetElement p)

include h

theorem setElements_printable : Printable (setElements paths) := by
  induction paths with
  | nil => exact ⟨tight_nil, List.not_mem_nil⟩
  | cons p paths ih =>
    have hp := h p List.mem_cons_self
    cases paths with
    | nil => simpa [setElements] using hp.printable
    | cons q paths =>
      have ih := ih fun r hr => h r (List.mem_cons_of_mem p hr)
      have hne : setElements (q :: paths) ≠ [] := setElements_ne_nil (h q (by simp)).1 paths
      rw [setElements_cons]
      constructor
      · refine tight_append hp.printable.tight.1 hp.1 ?_ (List.cons_ne_nil _ _)
        rw [List.getLast?_cons_of_ne_nil (List.cons_ne_nil _ _), List.getLast?_cons_of_ne_nil hne]
        exact ih.tight.2
      · simp [hp.printable.oneLine, ih.oneLine]

theorem trim_setBody : trim (setBody paths) = setElements paths := by
  cases paths with
  | nil => rfl
  | cons p paths =>
    have hin := setElements_printable h
    show trim (' ' :: (setElements (p :: paths) ++ [' '])) = _
    rw [trim_cons rfl, trim_snoc rfl, trim_tight hin.tight]

theorem setBody_not_mem : '}' ∉ setBody paths := by
  have helements : '}' ∉ setElements paths := by
    induction paths with
    | nil => exact List.not_mem_nil
    | cons p paths ih =>
      have hp : '}' ∉ p := fun hmem => ((h p List.mem_cons_self).2 '}' hmem).2 (by simp)
      have ih := ih fun r hr => h r (List.mem_cons_of_mem p hr)
      cases paths with
      | nil => simpa [setElements] using hp
      | cons q paths => simp [setElements_cons, hp, ih]
  unfold setBody
  split <;> simp [helements]

/-- The elements read off a printed set. -/
theorem elements_setBody :
    (if (trim (setBody paths)).isEmpty then [] else ((trim (setBody paths)).splitOn ',').map trim) = cutCommas paths := by
  rw [trim_setBody h]
  cases paths with
  | nil => rfl
  | cons p paths =>
    have hne : (setElements (p :: paths)).isEmpty = false := by
      simpa using setElements_ne_nil (h p List.mem_cons_self).1 paths
    rw [hne, if_neg (by simp), splitOn_setElements h]

theorem formatPathSet_printable : Printable (formatPathSet paths) := by
  rw [formatPathSet_eq]
  constructor
  · exact tight_append (by simp [isWhitespace]) (List.cons_ne_nil _ _) (by simp [isWhitespace]) (by simp)
  · have hin := (setElements_printable h).oneLine
    unfold setBody
    split <;> simp [hin]

/-- A printed set, with nothing after it or a word after a blank. -/
theorem parseInlinePathSet_format {rest : Str} (hrest : Tight rest) :
    parseInlinePathSet (formatPathSet paths ++ ' ' :: rest) = .ok (cutCommas paths, spaced rest) := by
  have hin := formatPathSet_printable h
  have hne : formatPathSet paths ≠ [] := by simp [formatPathSet_eq]
  have hset : formatPathSet paths ++ spaced rest = '{' :: (setBody paths ++ '}' :: spaced rest) := by
    simp [formatPathSet_eq]
  have hsplit : splitOnce ['}'] ('{' :: (setBody paths ++ '}' :: spaced rest)) = some ('{' :: setBody paths, spaced rest) :=
    splitOnce_char (a := '{' :: setBody paths) (by simp [setBody_not_mem h])
  rw [parseInlinePathSet, trim_label hin.tight hne hrest, hset]
  simp only [List.head?_cons, if_true, hsplit, List.drop_succ_cons, List.drop_zero, elements_setBody h]

theorem parseInlinePathSet_set : parseInlinePathSet (formatPathSet paths) = .ok (cutCommas paths, []) := by
  have hin := formatPathSet_printable h
  have hpass : parseInlinePathSet (formatPathSet paths ++ [' ']) = parseInlinePathSet (formatPathSet paths) := by
    rw [parseInlinePathSet, parseInlinePathSet, trim_snoc rfl]
  rw [← hpass]
  exact parseInlinePathSet_format h tight_nil

end

theorem parseFeatureSet_format {feats : List Str} (h : ∀ f ∈ feats, CleanStr f) :
    parseFeatureSet (formatPathSet feats) = feats := by
  have hhead : (formatPathSet feats).head? = some '{' := by simp [formatPathSet_eq]
  have hlast : (formatPathSet feats).getLast? = some '}' := by
    rw [formatPathSet_eq, List.getLast?_append_of_ne_nil _ (List.cons_ne_nil _ _)]
    rfl
  have hinner : inner (formatPathSet feats) = setBody feats := by simp [inner, formatPathSet_eq]
  have hfilter : feats.filter (fun f => !f.isEmpty) = feats :=
    List.filter_eq_self.mpr fun f hf => by simpa using (h f hf).1
  rw [parseFeatureSet, trim_tight (formatPathSet_printable (cleanElements h)).tight]
  simp only [hhead, hlast, and_self, if_true, hinner]
  have helements := elements_setBody (cleanElements h)
  rw [cutCommas_clean h] at helements
  split
  · rename_i hempty
    rw [if_pos hempty] at helements
    exact helements
  · rename_i hempty
    rw [if_neg hempty] at helements
    rw [helements, hfilter]

/-! ## Bytes -/

theorem hexDigit_digitChar : ∀ d < 16, hexDigit d.digitChar = some d ∧ d.digitChar ∉ ['+', ' ', '"', '\n'] := by decide

theorem lowerHex_byte {n : Nat} (h : n < 256) : zeroPad 2 (lowerHex n) = [(n / 16).digitChar, (n % 16).digitChar] := by
  have hdiv : n / 16 < 16 := by omega
  rw [lowerHex, Nat.toDigits_eq_if (by decide)]
  split
  · rename_i hlt
    rw [Nat.div_eq_of_lt hlt, Nat.mod_eq_of_lt hlt]
    rfl
  · rw [Nat.toDigits_of_lt_base hdiv]
    rfl

theorem hexByte_digits (b : UInt8) : hexByte (b.toNat / 16).digitChar (b.toNat % 16).digitChar = some b := by
  have hlt := b.toNat_lt
  obtain ⟨hhi, hplus⟩ := hexDigit_digitChar (b.toNat / 16) (by omega)
  obtain ⟨hlo, -⟩ := hexDigit_digitChar (b.toNat % 16) (by omega)
  have hne : (b.toNat / 16).digitChar ≠ '+' := fun h => hplus (by simp [h])
  rw [hexByte, if_neg hne, hhi, hlo]
  show some (UInt8.ofNat (16 * (b.toNat / 16) + b.toNat % 16)) = some b
  rw [Nat.div_add_mod, UInt8.ofNat_toNat]

theorem hexEncode_cons (b : UInt8) (data : List UInt8) :
    hexEncode (b :: data) = (b.toNat / 16).digitChar :: (b.toNat % 16).digitChar :: hexEncode data := by
  rw [hexEncode, List.flatMap_cons, lowerHex_byte b.toNat_lt]
  rfl

theorem hexEncode_not_mem (data : List UInt8) : ∀ c ∈ hexEncode data, c ∉ ['+', ' ', '"', '\n'] := by
  induction data with
  | nil => simp [hexEncode]
  | cons b data ih =>
    have hlt := b.toNat_lt
    rw [hexEncode_cons]
    intro c hc
    rcases List.mem_cons.mp hc with rfl | hc
    · exact (hexDigit_digitChar _ (by omega)).2
    · rcases List.mem_cons.mp hc with rfl | hc
      · exact (hexDigit_digitChar _ (by omega)).2
      · exact ih c hc

theorem hexDecode_hexEncode (data : List UInt8) : hexDecode (hexEncode data) = data := by
  have hfilter : (hexEncode data).filter (· ≠ ' ') = hexEncode data :=
    List.filter_eq_self.mpr fun c hc => by
      have := hexEncode_not_mem data c hc
      simp at this
      simp [this]
  rw [hexDecode, hfilter]
  induction data with
  | nil => rfl
  | cons b data ih =>
    have hrest : (hexEncode data).filter (· ≠ ' ') = hexEncode data := by
      rw [hexEncode_cons] at hfilter
      have := List.filter_eq_self.mp hfilter
      exact List.filter_eq_self.mpr fun c hc => this c (by simp [hc])
    rw [hexEncode_cons, hexPairs, hexByte_digits, ih hrest]
    rfl

/-- Bytes as they are printed after the opening quote. -/
theorem hexDecode_quoted (data : List UInt8) : hexDecode (trimEndMatches '"' (hexEncode data ++ ['"'])) = data := by
  have hlast : trimEndMatches '"' (hexEncode data ++ ['"']) = hexEncode data := by
    rw [trimEndMatches, List.rdropWhile_concat_pos _ _ _ (by simp), List.rdropWhile_eq_self_iff]
    intro hne
    have := hexEncode_not_mem data _ (List.getLast_mem hne)
    simp at this
    simp [this]
  rw [hlast, hexDecode_hexEncode]

/-! ## Numbers -/

theorem digit_plain {c : Char} (h : c.isDigit = true) : isWhitespace c = false ∧ c ≠ '.' ∧ c ≠ '\n' := by
  have hrange : 48 ≤ c.toNat ∧ c.toNat ≤ 57 := by
    simp [Char.isDigit, UInt32.le_iff_toNat_le] at h
    exact h
  refine ⟨by simp [isWhitespace]; omega, ?_, ?_⟩
  · intro h
    obtain rfl := h
    simp at hrange
  · intro h
    obtain rfl := h
    simp at hrange

theorem decimal_printable (n : Nat) : Printable (decimal n) where
  tight := ⟨fun _ hc => (digit_plain (isDigit_decimal (List.mem_of_mem_head? hc))).1,
    fun _ hc => (digit_plain (isDigit_decimal (List.mem_of_mem_getLast? hc))).1⟩
  oneLine h := (digit_plain (isDigit_decimal h)).2.2 rfl

theorem parseVersionStr_display (v : ProtocolVersion) : parseVersionStr v.display = some v := by
  have hdot (n : Nat) : '.' ∉ decimal n := fun h => (digit_plain (isDigit_decimal h)).2.1 rfl
  have hsplit : v.display.splitOn '.' = [decimal v.major.toNat, decimal v.minor.toNat] := by
    rw [ProtocolVersion.display, List.append_assoc, List.singleton_append,
      List.splitOn_append_cons_self_of_not_mem (hdot _), List.splitOn_eq_singleton (hdot _)]
  rw [parseVersionStr, hsplit]
  simp only [parseU16_decimal, parseU8_decimal]
  rfl

theorem display_printable (v : ProtocolVersion) : Printable v.display := by
  have hmajor := decimal_printable v.major.toNat
  have hminor := decimal_printable v.minor.toNat
  rw [ProtocolVersion.display, List.append_assoc]
  constructor
  · refine tight_append hmajor.tight.1 (decimal_ne_nil _) ?_ (by simp)
    rw [List.singleton_append, List.getLast?_cons_of_ne_nil (decimal_ne_nil _)]
    exact hminor.tight.2
  · simp [hmajor.oneLine, hminor.oneLine]

/-! ## Matchers -/

theorem parseI64_range {s : Str} {n : Int} (h : parseI64 s = some n) : -2 ^ 63 ≤ n ∧ n < 2 ^ 63 := by
  unfold parseI64 at h
  split at h
  · simp only [Option.map_eq_some_iff, Option.filter_eq_some_iff, decide_eq_true_eq] at h
    obtain ⟨m, ⟨-, hm⟩, rfl⟩ := h
    omega
  · simp only [Option.map_eq_some_iff, Option.filter_eq_some_iff, decide_eq_true_eq] at h
    obtain ⟨m, ⟨-, hm⟩, rfl⟩ := h
    rw [Int.ofNat_eq_natCast]
    omega

theorem intDecimal_printable (n : Int) : Printable (intDecimal n) ∧ intDecimal n ≠ [] := by
  cases n with
  | ofNat n => exact ⟨decimal_printable n, decimal_ne_nil n⟩
  | negSucc n =>
    have hin := decimal_printable (n + 1)
    have hne := decimal_ne_nil (n + 1)
    refine ⟨⟨tight_append (a := ['-']) (by simp [isWhitespace]) (by simp) hin.tight.2 hne, ?_⟩, List.cons_ne_nil _ _⟩
    simp [intDecimal, hin.oneLine]

/-- A matcher as a line can give it. -/
structure Matcher.Written (m : Matcher) : Prop where
  printable : Printable m.display
  parse : parseMatcher m.display = .ok m

theorem parseBound_ok {comparison : String} {rest : Str} {n : Int} (h : parseBound comparison rest = .ok n) :
    parseI64 (trim rest) = some n := by
  unfold parseBound at h
  split at h
  · cases h
    assumption
  · cases h

theorem parseBound_decimal {comparison : String} {n : Int} (h : -2 ^ 63 ≤ n ∧ n < 2 ^ 63) :
    parseBound comparison (' ' :: intDecimal n) = .ok n := by
  rw [parseBound, trim_cons rfl, trim_tight (intDecimal_printable n).1.tight, parseI64_intDecimal h.1 h.2]

/-- A comparison is printed as its operator, a blank and the bound. -/
theorem written_comparison {compare : Int → Matcher} {comparison : String} {rest : Str} {m : Matcher}
    (h : compare <$> parseBound comparison rest = .ok m) (hop : Printable comparison.toList) (hne : comparison.toList ≠ [])
    (hdisplay : ∀ n, (compare n).display = comparison.toList ++ ' ' :: intDecimal n)
    (hparse : ∀ s, parseMatcher (comparison.toList ++ ' ' :: s) = compare <$> parseBound comparison (' ' :: s)) :
    m.Written := by
  cases hbound : parseBound comparison rest with
  | error e =>
    rw [hbound] at h
    cases h
  | ok n =>
    rw [hbound] at h
    cases h
    obtain ⟨hin, hnne⟩ := intDecimal_printable n
    refine ⟨hdisplay n ▸ ⟨tight_append hop.tight.1 hne ?_ (List.cons_ne_nil _ _), by simp [hop.oneLine, hin.oneLine]⟩, ?_⟩
    · rw [List.getLast?_cons_of_ne_nil hnne]
      exact hin.tight.2
    · rw [hdisplay, hparse, parseBound_decimal (parseI64_range (parseBound_ok hbound))]
      rfl

theorem inner_eq {s : Str} {a b : Char} (hhead : s.head? = some a) (hlast : s.getLast? = some b) (hlen : s.length > 1) :
    a :: inner s ++ [b] = s := by
  cases s with
  | nil => cases hhead
  | cons c s =>
    cases hhead
    have hne : s ≠ [] := by
      intro h
      obtain rfl := h
      simp at hlen
    rw [List.getLast?_cons_of_ne_nil hne] at hlast
    rw [inner, List.drop_succ_cons, List.drop_zero, List.cons_append, List.dropLast_append_getLast? b hlast]

theorem parseMatcher_written {v : Str} {m : Matcher} (h : parseMatcher v = .ok m) (hv : Printable v) : m.Written := by
  have hop (comparison : String) (hc : comparison ∈ [">=", "<=", ">", "<"]) :
      Printable comparison.toList ∧ comparison.toList ≠ [] := by
    simp only [List.mem_cons, List.not_mem_nil, or_false] at hc
    rcases hc with rfl | rfl | rfl | rfl <;> decide
  have h' := h
  unfold parseMatcher at h
  split at h
  · rename_i hregex
    cases h
    have hdisplay : (Matcher.regex (inner v)).display = v := inner_eq hregex.1 hregex.2.1 hregex.2.2
    exact ⟨hdisplay.symm ▸ hv, hdisplay.symm ▸ h'⟩
  · split at h
    · exact written_comparison h (hop ">=" (by simp)).1 (hop ">=" (by simp)).2 (fun _ => rfl) fun _ => rfl
    · split at h
      · exact written_comparison h (hop "<=" (by simp)).1 (hop "<=" (by simp)).2 (fun _ => rfl) fun _ => rfl
      · split at h
        · exact written_comparison h (hop ">" (by simp)).1 (hop ">" (by simp)).2 (fun _ => rfl) fun _ => rfl
        · split at h
          · exact written_comparison h (hop "<" (by simp)).1 (hop "<" (by simp)).2 (fun _ => rfl) fun _ => rfl
          · cases h
            exact ⟨hv, h'⟩

/-! ## Expects -/

/-- An expect as a line can give it. -/
def Expect.Written : Expect → Prop
  | terminal t => Printable t
  | result field m => m.Written ∧ ∀ f ∈ field, Printable f ∧ ':' ∉ f
  | error m | stderrCount m | daemon m | trust m | serverFeatures m => m.Written

def Expect.label : Expect → Str
  | terminal _ => "expect:".toList
  | result none _ => "expect result:".toList
  | result (some field) _ => "expect result.".toList ++ field ++ [':']
  | error _ => "expect error:".toList
  | stderrCount _ => "expect stderr.count:".toList
  | daemon _ => "expect daemon:".toList
  | trust _ => "expect trust:".toList
  | serverFeatures _ => "expect server_features:".toList

def Expect.value : Expect → Str
  | terminal t => t
  | result _ m | error m | stderrCount m | daemon m | trust m | serverFeatures m => m.display

theorem printable_trim {s : Str} (h : '\n' ∉ s) : Printable (trim s) := ⟨tight_trim s, fun hc => h (mem_of_mem_trim hc)⟩

theorem map_written {mk : Matcher → Expect} {v : Str} {e : Expect} (h : mk <$> parseMatcher (trim v) = .ok e)
    (hv : '\n' ∉ v) : ∃ m, mk m = e ∧ m.Written := by
  cases hm : parseMatcher (trim v) with
  | error _ =>
    rw [hm] at h
    cases h
  | ok m =>
    rw [hm] at h
    cases h
    exact ⟨m, rfl, parseMatcher_written hm (printable_trim hv)⟩

theorem not_mem_stripPrefix {p s t : Str} {c : Char} (h : stripPrefix p s = some t) (hc : c ∉ s) : c ∉ t := fun hmem =>
  hc (by
    rw [stripPrefix_some h]
    exact List.mem_append_right p hmem)

theorem parseHandshakeExpect_written {line rest : Str} {e : Expect} (h : parseHandshakeExpect line rest = .ok e)
    (hrest : '\n' ∉ rest) : e.Written := by
  unfold parseHandshakeExpect at h
  split at h
  · rename_i hstrip
    obtain ⟨m, rfl, hm⟩ := map_written h (not_mem_stripPrefix hstrip hrest)
    exact hm
  split at h
  · rename_i hstrip
    obtain ⟨m, rfl, hm⟩ := map_written h (not_mem_stripPrefix hstrip hrest)
    exact hm
  split at h
  · rename_i hstrip
    obtain ⟨m, rfl, hm⟩ := map_written h (not_mem_stripPrefix hstrip hrest)
    exact hm
  · cases h

theorem parseResultExpect_some {rest value : Str} {field : Option Str} (h : parseResultExpect rest = some (field, value))
    (hrest : '\n' ∉ rest) : '\n' ∉ value ∧ ∀ f ∈ field, Printable f ∧ ':' ∉ f := by
  unfold parseResultExpect at h
  split at h
  · rename_i hstrip
    cases h
    exact ⟨not_mem_stripPrefix hstrip hrest, fun _ hf => nomatch hf⟩
  · simp only [Option.bind_eq_bind, Option.bind_eq_some_iff] at h
    obtain ⟨t, ht, ⟨f, v⟩, hsplit, heq⟩ := h
    cases heq
    obtain ⟨rfl, hcolon⟩ := splitOnce_some hsplit
    have ht := not_mem_stripPrefix ht hrest
    simp only [List.mem_append, List.mem_cons, not_or] at ht
    refine ⟨ht.2.2, fun f' hf => ?_⟩
    cases hf
    exact ⟨printable_trim ht.1, fun hc => hcolon (mem_of_mem_trim hc)⟩

/-- What is parsed off a line can be written on one. -/
theorem parseExpect_written {line : Str} {e : Expect} (h : parseExpect line = .ok e) (hline : '\n' ∉ line) : e.Written := by
  unfold parseExpect at h
  split at h
  · cases h
  rename_i rest hrest
  obtain ⟨t, ht, rfl⟩ := Option.map_eq_some_iff.mp hrest
  have hrest : '\n' ∉ trim t := (printable_trim (not_mem_stripPrefix ht hline)).oneLine
  split at h
  · rename_i hstrip
    cases h
    exact printable_trim (not_mem_stripPrefix hstrip hrest)
  split at h
  · rename_i hstrip
    obtain ⟨m, rfl, hm⟩ := map_written h (not_mem_stripPrefix hstrip hrest)
    exact hm
  split at h
  · rename_i hstrip
    obtain ⟨m, rfl, hm⟩ := map_written h (not_mem_stripPrefix hstrip hrest)
    exact hm
  split at h
  · rename_i hresult
    obtain ⟨u, hu, hresult⟩ := Option.bind_eq_some_iff.mp hresult
    obtain ⟨hvalue, hfield⟩ := parseResultExpect_some hresult (printable_trim (not_mem_stripPrefix hu hrest)).oneLine
    obtain ⟨m, rfl, hm⟩ := map_written h hvalue
    exact ⟨hm, hfield⟩
  · exact parseHandshakeExpect_written h hrest

theorem formatExpect_eq (e : Expect) : formatExpect e = "  ".toList ++ (e.label ++ ' ' :: e.value) := by
  unfold formatExpect Expect.label Expect.value
  cases e with
  | result field m => cases field <;> simp
  | _ => simp

theorem Expect.Written.value {e : Expect} (h : e.Written) : Printable e.value := by
  cases e with
  | terminal t => exact h
  | result field m => exact h.1.printable
  | _ => exact h.printable

theorem Expect.Written.label {e : Expect} (h : e.Written) : Printable e.label := by
  cases e with
  | result field m =>
    cases field with
    | none => exact (by decide : Printable "expect result:".toList)
    | some f =>
      have hhead : ∀ c ∈ ("expect result.".toList ++ f).head?, isWhitespace c = false := by
        intro c hc
        cases hc
        rfl
      have hf := (h.2 f rfl).1.oneLine
      have hprefix : '\n' ∉ "expect result.".toList := by decide
      refine ⟨tight_append hhead (List.cons_ne_nil _ _) (by simp [isWhitespace]) (List.cons_ne_nil _ _), ?_⟩
      show '\n' ∉ "expect result.".toList ++ f ++ [':']
      simp only [List.mem_append, hprefix, hf, false_or]
      decide
  | terminal t => exact (by decide : Printable "expect:".toList)
  | error m => exact (by decide : Printable "expect error:".toList)
  | stderrCount m => exact (by decide : Printable "expect stderr.count:".toList)
  | daemon m => exact (by decide : Printable "expect daemon:".toList)
  | trust m => exact (by decide : Printable "expect trust:".toList)
  | serverFeatures m => exact (by decide : Printable "expect server_features:".toList)

section

-- what stands after the colon, trimmed at the end
variable {u : Str} (hu : trimEnd u = u)

include hu

theorem trim_expect {l k : Str} (hlabel : l = "expect ".toList ++ k) (hk : Tight k) (hne : k ≠ []) :
    (stripPrefix "expect".toList (l ++ u)).map trim = some (k ++ u) := by
  have hsplit : l ++ u = "expect".toList ++ ' ' :: (k ++ u) := by simp [hlabel]
  rw [hsplit, stripPrefix_append, Option.map_some, trim_cons rfl, trim_append hk hne, hu]

theorem parseExpect_terminal : parseExpect ("expect:".toList ++ u) = .ok (.terminal (trim u)) := by
  have htrim : (stripPrefix "expect".toList ("expect:".toList ++ u)).map trim = some ([':'] ++ u) := by
    have hsplit : "expect:".toList ++ u = "expect".toList ++ ([':'] ++ u) := by simp
    rw [hsplit, stripPrefix_append, Option.map_some, trim_append (by decide) (by decide), hu]
  unfold parseExpect
  simp only [htrim, stripPrefix_append]

theorem parseExpect_count : parseExpect ("expect stderr.count:".toList ++ u) = .stderrCount <$> parseMatcher (trim u) := by
  have htrim := trim_expect hu (l := "expect stderr.count:".toList) (k := "stderr.count:".toList) (by decide)
    (by decide) (by decide)
  have hcolon := stripPrefix_none (p := [':']) (k := "stderr.count:".toList) (by decide) (by decide) u
  unfold parseExpect
  simp only [htrim, hcolon, stripPrefix_append]

theorem parseExpect_error : parseExpect ("expect error:".toList ++ u) = .error <$> parseMatcher (trim u) := by
  have htrim := trim_expect hu (l := "expect error:".toList) (k := "error:".toList) (by decide) (by decide) (by decide)
  have hcolon := stripPrefix_none (p := [':']) (k := "error:".toList) (by decide) (by decide) u
  have hcount := stripPrefix_none (p := "stderr.count:".toList) (k := "error:".toList) (by decide) (by decide) u
  unfold parseExpect
  simp only [htrim, hcolon, hcount, stripPrefix_append]

/-- `k` is all that stands before the colon. -/
theorem parseExpect_result {k : Str} {field : Option Str} (hk : Tight k) (hne : k ≠ [])
    (h : parseResultExpect (k ++ u) = some (field, u)) :
    parseExpect ("expect result".toList ++ k ++ u) = .result field <$> parseMatcher (trim u) := by
  have hlabel : Tight ("result".toList ++ k) := tight_append (by simp [isWhitespace]) (by decide) hk.2 hne
  have htrim := trim_expect hu (l := "expect result".toList ++ k) (k := "result".toList ++ k) (by simp) hlabel
    (by simp)
  have hrest : "result".toList ++ k ++ u = "result".toList ++ (k ++ u) := List.append_assoc _ _ _
  have hcolon := stripPrefix_none (p := [':']) (k := "result".toList) (by decide) (by decide) (k ++ u)
  have hcount := stripPrefix_none (p := "stderr.count:".toList) (k := "result".toList) (by decide) (by decide) (k ++ u)
  have herror := stripPrefix_none (p := "error:".toList) (k := "result".toList) (by decide) (by decide) (k ++ u)
  have htrimmed : trim (k ++ u) = k ++ u := by rw [trim_append hk hne, hu]
  unfold parseExpect
  simp only [htrim, hrest, hcolon, hcount, herror, stripPrefix_append, Option.bind_some, htrimmed, h]

theorem parseExpect_whole : parseExpect ("expect result:".toList ++ u) = .result none <$> parseMatcher (trim u) := by
  have hfield : parseResultExpect ([':'] ++ u) = some (none, u) := by simp only [parseResultExpect, stripPrefix_append]
  have hparse := parseExpect_result hu (by decide) (by decide) hfield
  rwa [show "expect result".toList ++ [':'] = "expect result:".toList by decide] at hparse

theorem parseExpect_field {f : Str} (htight : Tight f) (hcolon : ':' ∉ f) :
    parseExpect ("expect result.".toList ++ f ++ [':'] ++ u) = .result (some f) <$> parseMatcher (trim u) := by
  have hdot : '.' :: f ++ [':'] ++ u = ['.'] ++ (f ++ ':' :: u) := by simp
  have hfield : parseResultExpect ('.' :: f ++ [':'] ++ u) = some (some f, u) := by
    have hnot := stripPrefix_none (p := [':']) (k := ['.']) (by decide) (by decide) (f ++ ':' :: u)
    unfold parseResultExpect
    rw [hdot, hnot, stripPrefix_append]
    simp [splitOnce_char hcolon, trim_tight htight]
  have hk : Tight ('.' :: f ++ [':']) :=
    tight_append (by simp [isWhitespace]) (List.cons_ne_nil _ _) (by simp [isWhitespace]) (List.cons_ne_nil _ _)
  have hparse := parseExpect_result hu hk (List.cons_ne_nil _ _) hfield
  have hlabel : "expect result".toList ++ ('.' :: f ++ [':']) = "expect result.".toList ++ f ++ [':'] := by simp
  rwa [hlabel] at hparse

theorem parseExpect_handshake {l k : Str} {mk : Matcher → Expect} (hlabel : l = "expect ".toList ++ k)
    (hk : Tight k) (hkind : k ∈ ["daemon:".toList, "trust:".toList, "server_features:".toList])
    (h : ∀ line, parseHandshakeExpect line (k ++ u) = mk <$> parseMatcher (trim u)) :
    parseExpect (l ++ u) = mk <$> parseMatcher (trim u) := by
  have hne : k ≠ [] := by
    intro h
    obtain rfl := h
    simp at hkind
  have hnone (p : Str) (hp : p ∈ [[':'], "stderr.count:".toList, "error:".toList, "result".toList]) :
      stripPrefix p (k ++ u) = none := by
    have hall : ∀ k ∈ ["daemon:".toList, "trust:".toList, "server_features:".toList],
        ∀ p ∈ [[':'], "stderr.count:".toList, "error:".toList, "result".toList], ¬p <+: k ∧ ¬k <+: p := by decide
    exact stripPrefix_none (hall k hkind p hp).1 (hall k hkind p hp).2 _
  have htrim := trim_expect hu hlabel hk hne
  unfold parseExpect
  simp only [htrim, hnone [':'] (by decide), hnone "stderr.count:".toList (by decide), hnone "error:".toList (by decide),
    hnone "result".toList (by decide), Option.bind_none, h]

theorem parseExpect_daemon : parseExpect ("expect daemon:".toList ++ u) = .daemon <$> parseMatcher (trim u) := by
  refine parseExpect_handshake hu (k := "daemon:".toList) (by decide) (by decide) (by decide) fun line => ?_
  simp only [parseHandshakeExpect, stripPrefix_append]

theorem parseExpect_trust : parseExpect ("expect trust:".toList ++ u) = .trust <$> parseMatcher (trim u) := by
  refine parseExpect_handshake hu (k := "trust:".toList) (by decide) (by decide) (by decide) fun line => ?_
  have hdaemon := stripPrefix_none (p := "daemon:".toList) (k := "trust:".toList) (by decide) (by decide) u
  simp only [parseHandshakeExpect, hdaemon, stripPrefix_append]

theorem parseExpect_serverFeatures :
    parseExpect ("expect server_features:".toList ++ u) = .serverFeatures <$> parseMatcher (trim u) := by
  refine parseExpect_handshake hu (k := "server_features:".toList) (by decide) (by decide) (by decide) fun line => ?_
  have hdaemon := stripPrefix_none (p := "daemon:".toList) (k := "server_features:".toList) (by decide) (by decide) u
  have htrust := stripPrefix_none (p := "trust:".toList) (k := "server_features:".toList) (by decide) (by decide) u
  simp only [parseHandshakeExpect, hdaemon, htrust, stripPrefix_append]

end

/-- An expect line, trimmed, gives the expect back. -/
theorem parseExpect_label {e : Expect} (h : e.Written) : parseExpect (e.label ++ spaced e.value) = .ok e := by
  have hu := trimEnd_spaced h.value.tight
  have hmatcher {m : Matcher} {mk : Matcher → Expect} (hm : m.Written) :
      mk <$> parseMatcher (trim (spaced m.display)) = .ok (mk m) := by
    rw [trim_spaced hm.printable.tight, hm.parse]
    rfl
  cases e with
  | terminal t => exact (parseExpect_terminal hu).trans (by rw [trim_spaced h.value.tight, Expect.value])
  | result field m =>
    obtain ⟨hm, hf⟩ := h
    cases field with
    | none => exact (parseExpect_whole hu).trans (hmatcher hm)
    | some f => exact (parseExpect_field hu (hf f rfl).1.tight (hf f rfl).2).trans (hmatcher hm)
  | error m => exact (parseExpect_error hu).trans (hmatcher h)
  | stderrCount m => exact (parseExpect_count hu).trans (hmatcher h)
  | daemon m => exact (parseExpect_daemon hu).trans (hmatcher h)
  | trust m => exact (parseExpect_trust hu).trans (hmatcher h)
  | serverFeatures m => exact (parseExpect_serverFeatures hu).trans (hmatcher h)

theorem trim_formatExpect {e : Expect} (h : e.Written) : trim (formatExpect e) = e.label ++ spaced e.value := by
  have hne : e.label ≠ [] := by
    cases e with
    | result field m => cases field <;> exact List.cons_ne_nil _ _
    | _ => exact List.cons_ne_nil _ _
  rw [formatExpect_eq]
  show trim (' ' :: ' ' :: (e.label ++ ' ' :: e.value)) = _
  rw [trim_cons rfl, trim_cons rfl, trim_label h.label.tight hne h.value.tight]

end NixWire
