/-
  NixWire.DaemonText — what the daemon said, as comments of a script.

  A formatted script carries the daemon's responses and its side of the handshake as
  comments. A text of several lines is written as several lines, and only the first is sure
  to be a comment. It is `Inert` when the parser skips the others and the last of them is a
  comment, which what is printed after the text goes on.

  - `comment_pieces`: between the printer's words, inert texts are written as skipped lines.
  - `outcome_redact`: a script with inert texts is read as the script without them.
  - `daemon_text_inert_iff`: the texts of a kind never change what is read exactly when all
    of the kind are inert.
-/

import NixWire.Comments

namespace NixWire

open Base

/-! ## Inert texts -/

/-- A line that is skipped and not blank. -/
def IsComment (line : Str) : Prop := Skipped line ∧ trim line ≠ []

/-- The lines after the first are skipped, and the last of them is a comment. -/
structure Inert (t : Str) : Prop where
  skipped : ∀ l ∈ (t.splitOn '\n').tail, Skipped l
  comment : ∀ l ∈ (t.splitOn '\n').tail.getLast?, trim l ≠ []

/-- Only a line that starts so is no comment, though it starts with a `#`. -/
def header : Str := "# nwscript".toList

/-- A line that stays a comment, whatever is printed after it. -/
def Settled (line : Str) : Prop :=
  (trimStart line).head? = some '#' ∧ ¬trimStart line <+: header ∧ ¬header <+: trimStart line

instance (line : Str) : Decidable (Settled line) := inferInstanceAs (Decidable (_ ∧ _ ∧ _))

theorem header_last : ∀ c ∈ header.getLast?, isWhitespace c = false := by
  intro c hc
  have hlast : header.getLast? = some 't' := by decide
  rw [hlast] at hc
  cases hc
  rfl

/-- A line that starts with a `#` starts with it once trimmed, and with the header only if
    it did. -/
theorem trim_hash {line : Str} (h : (trimStart line).head? = some '#') :
    startsWith ['#'] (trim line) = true ∧ (header <+: trim line ↔ header <+: trimStart line) := by
  cases hstart : trimStart line with
  | nil =>
    rw [hstart] at h
    cases h
  | cons c v =>
    rw [hstart] at h
    cases h
    obtain ⟨t, ht⟩ := trimEnd_cons (c := '#') rfl v
    rw [trim, hstart]
    refine ⟨by simp [ht], fun hstarts => ?_, fun hstarts => prefix_trimEnd header_last hstarts⟩
    exact hstarts.trans (List.rdropWhile_prefix _ _)

theorem isComment_iff {line : Str} : IsComment line ↔ (trimStart line).head? = some '#' ∧ ¬header <+: trimStart line := by
  constructor
  · intro h
    rcases h.1.trim_cases with hblank | ⟨hhash, hheader⟩
    · exact absurd (by simpa using hblank) h.2
    · have hhead : (trimStart line).head? = some '#' := by
        cases hstart : trimStart line with
        | nil =>
          rw [trim, hstart] at hhash
          cases hhash
        | cons c v =>
          have hwhite := head_trimStart line c (by rw [hstart]; rfl)
          obtain ⟨t, ht⟩ := trimEnd_cons hwhite v
          rw [trim, hstart, ht] at hhash
          have hc : '#' = c := by simpa using hhash
          rw [hc]
          rfl
      refine ⟨hhead, fun hstarts => ?_⟩
      have htrim := List.isPrefixOf_iff_prefix.mpr ((trim_hash hhead).2.mpr hstarts)
      rw [show startsWith "# nwscript".toList (trim line) = true from htrim] at hheader
      cases hheader
  · intro h
    obtain ⟨hhash, hstarts⟩ := trim_hash h.1
    have hheader : startsWith "# nwscript".toList (trim line) = false := by
      rw [← Bool.not_eq_true]
      intro htrim
      exact h.2 (hstarts.mp (List.isPrefixOf_iff_prefix.mp htrim))
    constructor
    · simp only [Skipped, skippedLine, hhash, hheader, Bool.not_false, Bool.and_self, Bool.or_true]
    · intro hblank
      rw [hblank] at hhash
      cases hhash

theorem Settled.isComment {line : Str} (h : Settled line) : IsComment line := isComment_iff.mpr ⟨h.1, h.2.2⟩

theorem trimStart_append {line : Str} (h : trimStart line ≠ []) (s : Str) : trimStart (line ++ s) = trimStart line ++ s := by
  rw [trimStart, List.dropWhile_append, if_neg]
  · rfl
  · intro hempty
    exact h (List.isEmpty_iff.mp hempty)

theorem trimStart_ne_nil {line : Str} (h : (trimStart line).head? = some '#') : trimStart line ≠ [] := by
  intro hnil
  rw [hnil] at h
  cases h

theorem Settled.append {line : Str} (h : Settled line) (s : Str) : Settled (line ++ s) := by
  obtain ⟨hhash, hshort, hlong⟩ := h
  unfold Settled
  rw [trimStart_append (trimStart_ne_nil hhash)]
  refine ⟨?_, fun hstarts => hshort ((List.prefix_append _ s).trans hstarts), fun hstarts => ?_⟩
  · rw [List.head?_append, hhash]
    rfl
  · rcases List.prefix_or_prefix_of_prefix hstarts (List.prefix_append _ s) with h | h
    · exact hlong h
    · exact hshort h

/-- What the printer writes after a text: a character the header does not have, at most a
    blank before it. -/
def Fence (s : Str) : Prop := ∃ c t, c ∉ header ∧ (s = c :: t ∨ s = ' ' :: c :: t)

theorem IsComment.fence {line s : Str} (h : IsComment line) (hs : Fence s) : Settled (line ++ s) := by
  obtain ⟨hhash, hheader⟩ := isComment_iff.mp h
  obtain ⟨c, t, hc, hs⟩ := hs
  unfold Settled
  rw [trimStart_append (trimStart_ne_nil hhash)]
  refine ⟨?_, fun hstarts => ?_, fun hstarts => ?_⟩
  · rw [List.head?_append, hhash]
    rfl
  · apply hc
    apply hstarts.subset
    rcases hs with rfl | rfl
    · simp
    · simp
  · -- the header goes past the line, into what is printed after it
    rcases List.prefix_or_prefix_of_prefix hstarts (List.prefix_append _ s) with h | ⟨r, hr⟩
    · exact hheader h
    · rw [← hr] at hstarts
      have hrs : r <+: s := (List.prefix_append_right_inj _).mp hstarts
      have hne : r ≠ [] := by
        intro hnil
        rw [hnil, List.append_nil] at hr
        exact hheader (hr ▸ List.prefix_rfl)
      have hlast : ∀ d ∈ r.getLast?, d = 't' := by
        intro d hd
        have hd' : header.getLast? = some d := by rw [← hr, List.getLast?_append, hd]; rfl
        exact (Option.some.inj hd').symm
      have hcr : c ∉ r := fun hmem => hc (hr ▸ List.mem_append_right _ hmem)
      obtain ⟨u, hu⟩ := hrs
      cases r with
      | nil => exact hne rfl
      | cons d r =>
        rcases hs with rfl | rfl
        · cases hu
          exact hcr List.mem_cons_self
        · cases r with
          | nil =>
            -- the header does not end in a blank
            cases hu
            exact absurd (hlast ' ' rfl) (by decide)
          | cons e r =>
            cases hu
            exact hcr (List.mem_cons_of_mem _ List.mem_cons_self)

/-! ## Texts between the printer's words -/

/-- Skipped lines, then a line that `last` holds of. -/
def Commented (last : Str → Prop) (w : Str) : Prop :=
  ∃ (ls : List Str) (b : Str), w = ls.flatMap writeln ++ b ∧ (∀ l ∈ ls, '\n' ∉ l ∧ Skipped l) ∧ '\n' ∉ b ∧ last b

theorem Commented.mono {last last' : Str → Prop} (h : ∀ b, last b → last' b) {w : Str} (hw : Commented last w) :
    Commented last' w := by
  obtain ⟨ls, b, hw, hls, hb, hlast⟩ := hw
  exact ⟨ls, b, hw, hls, hb, h b hlast⟩

/-- The printer's words, or a number. -/
theorem Commented.word {w s : Str} (hw : Commented Settled w) (hs : '\n' ∉ s) : Commented Settled (w ++ s) := by
  obtain ⟨ls, b, rfl, hls, hb, hlast⟩ := hw
  exact ⟨ls, b ++ s, List.append_assoc _ _ _, hls, by simp [hb, hs], hlast.append s⟩

theorem Commented.fence {w s : Str} (hw : Commented IsComment w) (hs : '\n' ∉ s) (hf : Fence s) :
    Commented Settled (w ++ s) := by
  obtain ⟨ls, b, rfl, hls, hb, hlast⟩ := hw
  exact ⟨ls, b ++ s, List.append_assoc _ _ _, hls, by simp [hb, hs], hlast.fence hf⟩

/-- The lines of an inert text. -/
theorem Inert.lines {t : Str} (h : Inert t) : '\n' ∉ t ∨ ∃ (t₀ : Str) (ls : List Str) (b : Str),
    t = writeln t₀ ++ (ls.flatMap writeln ++ b) ∧ '\n' ∉ t₀ ∧ (∀ l ∈ ls, '\n' ∉ l ∧ Skipped l) ∧ '\n' ∉ b ∧ IsComment b := by
  obtain ⟨ls, b, rfl, hls, hb⟩ := exists_written t
  cases ls with
  | nil => exact Or.inl hb
  | cons t₀ ls =>
    obtain ⟨hskipped, hcomment⟩ := h
    rw [splitOn_written hls hb, List.cons_append, List.tail_cons] at hskipped hcomment
    rw [List.forall_mem_cons] at hls
    have hlast : b ∈ (ls ++ [b]).getLast? := by simp
    refine Or.inr ⟨t₀, ls, b, ?_, hls.1, fun l hl => ⟨hls.2 l hl, hskipped l (by simp [hl])⟩, hb, hskipped b (by simp),
      hcomment b hlast⟩
    rw [List.flatMap_cons, List.append_assoc]

theorem Commented.text {w t : Str} (hw : Commented Settled w) (ht : Inert t) : Commented IsComment (w ++ t) := by
  rcases ht.lines with hone | ⟨t₀, ls', b', rfl, ht₀, hls', hb', hlast'⟩
  · exact (hw.word hone).mono fun _ => Settled.isComment
  · obtain ⟨ls, b, rfl, hls, hb, hlast⟩ := hw
    refine ⟨ls ++ (b ++ t₀) :: ls', b', by simp [writeln], ?_, hb', hlast'⟩
    intro l hl
    rcases List.mem_append.mp hl with hl | hl
    · exact hls l hl
    · rcases List.mem_cons.mp hl with rfl | hl
      · exact ⟨by simp [hb, ht₀], (hlast.append t₀).isComment.1⟩
      · exact hls' l hl

/-- A label that a text is printed after. -/
theorem Commented.label {w : Str} (hw : '\n' ∉ w) (hsettled : Settled w) : Commented Settled w :=
  ⟨[], w, rfl, by simp, hw, hsettled⟩

theorem Commented.elements {w : Str} {set : List Str} (hw : Commented Settled w) (hset : ∀ t ∈ set, Inert t) :
    Commented IsComment (w ++ setElements set) := by
  induction set generalizing w with
  | nil =>
    rw [setElements, List.intercalate_nil, List.append_nil]
    exact hw.mono fun _ => Settled.isComment
  | cons t set ih =>
    have ht := hw.text (hset t List.mem_cons_self)
    cases set with
    | nil => simpa [setElements] using ht
    | cons u set =>
      have hcomma : Fence [',', ' '] := ⟨',', [' '], by decide, Or.inl rfl⟩
      have hrest := ih (ht.fence (by simp) hcomma) fun v hv => hset v (List.mem_cons_of_mem t hv)
      simpa [setElements_cons] using hrest

theorem Commented.set {w : Str} {set : List Str} (hw : Commented Settled w) (hset : ∀ t ∈ set, Inert t) :
    Commented Settled (w ++ formatPathSet set) := by
  have hclose : Fence [' ', '}'] := ⟨'}', [], by decide, Or.inr rfl⟩
  unfold formatPathSet
  split
  · exact hw.word (by simp)
  · have hin := (((hw.word (s := ['{', ' ']) (by simp)).elements hset).fence (by simp) hclose)
    simpa [setElements] using hin

/-- What a comment of inert texts is read as. -/
theorem comment_pieces {w : Str} (hw : Commented IsComment w) : ∀ l ∈ pieces w, Skipped l := by
  obtain ⟨ls, b, rfl, hls, hb, hlast⟩ := hw
  have hcr : ∀ l, Skipped l → Skipped (stripCr l) := by
    intro l hl
    unfold Skipped skippedLine
    rw [trim_stripCr]
    exact hl
  rw [pieces_written (fun l hl => (hls l hl).1) hb]
  intro l hl
  rcases List.mem_append.mp hl with hl | hl
  · obtain ⟨k, hk, rfl⟩ := List.mem_map.mp hl
    exact hcr k (hls k hk).2
  · rw [List.mem_singleton.mp hl]
    exact hcr b hlast.1

/-! ## The daemon's texts -/

/-- The texts of a result that are printed. -/
def ResultData.texts : ResultData → List Str
  | .str s => [s]
  | .pathInfo info => info.deriver.toList ++ info.narHash.toList ++ info.references.getD []
  | .stringSet set => set
  | .stringMap pairs => (pairs.take 5).flatMap fun kv => [kv.1, kv.2]
  | .substitutablePathInfo _ deriver _ _ _ => deriver.toList
  | .missing willBuild willSubstitute unknown _ _ => willBuild ++ willSubstitute ++ unknown
  | .u64 _ | .none | .collectGarbage _ | .framed _ | .raw _ => []

def DaemonResponse.texts (resp : DaemonResponse) : List Str :=
  [resp.terminal] ++ (resp.error.map fun err => err.message).toList ++ (resp.result.map ResultData.texts).getD []

def Preamble.daemonTexts (p : Preamble) : List Str := p.daemonVersion.toList ++ p.trust.toList ++ p.serverFeatures.getD []

def Script.daemonTexts {τ : Type} (s : Script τ) : List Str :=
  s.preamble.daemonTexts ++ s.entries.flatMap fun e => (e.response.map DaemonResponse.texts).getD []

/-- A line of a comment, the texts in it inert. -/
abbrev CommentLine : Str → Prop := Commented IsComment

theorem commentLine_number {key : String} (hkey : '\n' ∉ key.toList) (hsettled : Settled key.toList) (n : Nat) :
    CommentLine (key.toList ++ decimal n) :=
  ((Commented.label hkey hsettled).word (decimal_printable n).oneLine).mono fun _ => Settled.isComment

theorem commentLine_text {key : String} (hkey : '\n' ∉ key.toList) (hsettled : Settled key.toList) {t : Str} (ht : Inert t) :
    CommentLine (key.toList ++ t) := (Commented.label hkey hsettled).text ht

theorem commentLine_set {key : String} (hkey : '\n' ∉ key.toList) (hsettled : Settled key.toList) {set : List Str}
    (hset : ∀ t ∈ set, Inert t) : CommentLine (key.toList ++ formatPathSet set) :=
  ((Commented.label hkey hsettled).set hset).mono fun _ => Settled.isComment

theorem commentLine_flag {key : String} (hkey : '\n' ∉ key.toList) (hsettled : Settled key.toList) (b : Bool) :
    CommentLine (key.toList ++ formatFlag b) :=
  ((Commented.label hkey hsettled).word (formatFlag_printable b).oneLine).mono fun _ => Settled.isComment

theorem formatPathInfoComment_lines {info : PathInfoResult} (h : ∀ t ∈ (ResultData.pathInfo info).texts, Inert t) :
    ∀ l ∈ formatPathInfoComment info, CommentLine l := by
  simp only [ResultData.texts, List.mem_append, Option.mem_toList] at h
  intro l hl
  simp only [formatPathInfoComment, List.mem_append, List.mem_singleton, Option.mem_toList, Option.map_eq_some_iff] at hl
  rcases hl with (((rfl | hl) | ⟨t, ht, rfl⟩) | ⟨set, hset, rfl⟩) | ⟨n, -, rfl⟩
  · exact commentLine_flag (by decide) (by decide) _
  · cases hd : info.deriver with
    | none =>
      rw [hd] at hl
      cases hl
    | some d =>
      rw [hd] at hl
      dsimp only at hl
      split at hl
      · cases hl
      · rw [List.mem_singleton.mp hl]
        exact commentLine_text (by decide) (by decide) (h d (Or.inl (Or.inl hd)))
  · exact commentLine_text (by decide) (by decide) (h t (Or.inl (Or.inr ht)))
  · exact commentLine_set (by decide) (by decide) fun t ht => h t (Or.inr (by simpa [hset] using ht))
  · exact commentLine_number (by decide) (by decide) _

/-- A pair of the daemon's map. -/
theorem commentLine_pair {k v : Str} (hk : Inert k) (hv : Inert v) :
    CommentLine ("  # result: \"".toList ++ k ++ "\" = \"".toList ++ v ++ "\"".toList) := by
  have hmiddle : Fence "\" = \"".toList := ⟨'"', " = \"".toList, by decide, Or.inl (by decide)⟩
  have hend : Fence "\"".toList := ⟨'"', [], by decide, Or.inl (by decide)⟩
  have hkey := (Commented.label (w := "  # result: \"".toList) (by decide) (by decide)).text hk
  have hvalue := (hkey.fence (by decide) hmiddle).text hv
  exact (hvalue.fence (by decide) hend).mono fun _ => Settled.isComment

theorem formatResultComment_lines {result : ResultData} (h : ∀ t ∈ result.texts, Inert t) :
    ∀ l ∈ formatResultComment result, CommentLine l := by
  cases result with
  | u64 v => exact List.forall_mem_singleton.mpr (commentLine_number (by decide) (by decide) _)
  | str s => exact List.forall_mem_singleton.mpr (commentLine_text (by decide) (by decide) (h s (by simp [ResultData.texts])))
  | pathInfo info => exact formatPathInfoComment_lines h
  | stringSet set => exact List.forall_mem_singleton.mpr (commentLine_set (by decide) (by decide) h)
  | stringMap pairs =>
    intro l hl
    simp only [formatResultComment, List.mem_append, List.mem_singleton, List.mem_map] at hl
    rcases hl with (rfl | ⟨kv, hkv, rfl⟩) | hl
    · exact commentLine_number (by decide) (by decide) _
    · have hpair : ∀ t ∈ [kv.1, kv.2], Inert t := fun t ht => h t (List.mem_flatMap.mpr ⟨kv, hkv, ht⟩)
      exact commentLine_pair (hpair kv.1 (by simp)) (hpair kv.2 (by simp))
    · split at hl
      · rw [List.mem_singleton.mp hl]
        have hcount := (Commented.label (w := "  # ... and ".toList) (by decide) (by decide)).word
          (decimal_printable (pairs.length - 5)).oneLine
        exact (hcount.word (by decide)).mono fun _ => Settled.isComment
      · cases hl
  | none => exact List.forall_mem_nil _
  | collectGarbage bytesFreed => exact List.forall_mem_singleton.mpr (commentLine_number (by decide) (by decide) _)
  | substitutablePathInfo valid deriver refs downloadSize narSize =>
    simp only [ResultData.texts, Option.mem_toList] at h
    intro l hl
    simp only [formatResultComment, List.mem_append, List.mem_singleton, Option.mem_toList, Option.map_eq_some_iff] at hl
    rcases hl with ((rfl | ⟨t, ht, rfl⟩) | ⟨n, -, rfl⟩) | ⟨n, -, rfl⟩
    · exact commentLine_flag (by decide) (by decide) _
    · exact commentLine_text (by decide) (by decide) (h t ht)
    · exact commentLine_number (by decide) (by decide) _
    · exact commentLine_number (by decide) (by decide) _
  | missing willBuild willSubstitute unknown downloadSize narSize =>
    simp only [ResultData.texts, List.mem_append] at h
    simp only [formatResultComment, List.forall_mem_cons]
    exact ⟨commentLine_set (by decide) (by decide) fun t ht => h t (Or.inl (Or.inl ht)),
      commentLine_set (by decide) (by decide) fun t ht => h t (Or.inl (Or.inr ht)),
      commentLine_set (by decide) (by decide) fun t ht => h t (Or.inr ht),
      commentLine_number (by decide) (by decide) _, commentLine_number (by decide) (by decide) _, List.forall_mem_nil _⟩
  | framed data =>
    have hcount := (Commented.label (w := "  # result: framed ".toList) (by decide) (by decide)).word
      (decimal_printable data.length).oneLine
    exact List.forall_mem_singleton.mpr ((hcount.word (by decide)).mono fun _ => Settled.isComment)
  | raw data =>
    have hcount := (Commented.label (w := "  # result: raw ".toList) (by decide) (by decide)).word
      (decimal_printable data.length).oneLine
    exact List.forall_mem_singleton.mpr ((hcount.word (by decide)).mono fun _ => Settled.isComment)

theorem formatResponseComment_lines {resp : DaemonResponse} (h : ∀ t ∈ resp.texts, Inert t) :
    ∀ l ∈ formatResponseComment resp, CommentLine l := by
  simp only [DaemonResponse.texts, List.mem_append, List.mem_singleton, Option.mem_toList, Option.map_eq_some_iff] at h
  intro l hl
  simp only [formatResponseComment, List.mem_append, List.mem_singleton, Option.mem_toList, Option.map_eq_some_iff] at hl
  rcases hl with ((rfl | hl) | ⟨err, herr, rfl⟩) | hl
  · exact commentLine_text (by decide) (by decide) (h _ (Or.inl (Or.inl rfl)))
  · split at hl
    · rw [List.mem_singleton.mp hl]
      exact commentLine_number (by decide) (by decide) _
    · cases hl
  · exact commentLine_text (by decide) (by decide) (h _ (Or.inl (Or.inr ⟨err, herr, rfl⟩)))
  · cases hresult : resp.result with
    | none =>
      rw [hresult] at hl
      cases hl
    | some result =>
      rw [hresult] at hl
      exact formatResultComment_lines (fun t ht => h t (Or.inr (by rw [hresult]; exact ht))) l hl

/-! ## Scripts with and without the daemon's texts -/

theorem comments_hushed {comments : List Str} (h : ∀ l ∈ comments, CommentLine l) {rest rest' : List Str}
    (hflush : ∀ y ∈ rest'.head?, Flush y) (hrest : Hushed rest rest') : Hushed (comments.flatMap pieces ++ rest) rest' := by
  refine Quiet.skips (fun l hl => ?_) hflush hrest
  obtain ⟨c, hc, hl⟩ := List.mem_flatMap.mp hl
  exact comment_pieces (h c hc) l hl

/-- A line that starts with a printed character is not indented, even if it is broken up. -/
theorem flush_pieces {c : Char} (hc : c ∉ [' ', '\t', '\n', '\r']) (s : Str) (rest : List Str) :
    ∀ y ∈ (pieces (c :: s) ++ rest).head?, Flush y := by
  simp only [List.mem_cons, List.not_mem_nil, or_false, not_or] at hc
  obtain ⟨hblank, htab, hfeed, hcr⟩ := hc
  have hsplit : ∃ x xs, (c :: s).splitOn '\n' = (c :: x) :: xs := by
    rw [List.splitOn_cons_eq_if_modifyHead, if_neg (by simpa using hfeed)]
    cases h : s.splitOn '\n' with
    | nil => exact absurd h (List.splitOn_ne_nil _ _)
    | cons x xs => exact ⟨x, xs, rfl⟩
  obtain ⟨x, xs, hsplit⟩ := hsplit
  have hstrip : ∃ x', stripCr (c :: x) = c :: x' := by
    unfold stripCr
    split
    · rename_i hlast
      cases x with
      | nil => exact absurd (Option.some.inj hlast) hcr
      | cons d x => exact ⟨(d :: x).dropLast, rfl⟩
    · exact ⟨x, rfl⟩
  obtain ⟨x', hx'⟩ := hstrip
  intro y hy
  rw [pieces, hsplit, List.map_cons, hx'] at hy
  cases hy
  simp [Flush, indented, Ne.symm hblank, Ne.symm htab]

/-- So are the lines the preamble goes on with after its comments. -/
theorem flush_preamble (expects : List Expect) (rest : List Str) :
    ∀ y ∈ ((expects.map formatPreambleExpect ++ ["---".toList]).flatMap pieces ++ rest).head?, Flush y := by
  cases expects with
  | nil => exact flush_pieces (c := '-') (by decide) "--".toList rest
  | cons e expects =>
    obtain ⟨t, ht⟩ := e.label_eq
    have hline : formatPreambleExpect e = 'e' :: ("xpect".toList ++ t ++ ' ' :: e.value) := by
      rw [formatPreambleExpect_eq, ht]
      rfl
    rw [List.map_cons, hline, List.cons_append, List.flatMap_cons, List.append_assoc]
    exact flush_pieces (by decide) _ _

theorem preamble_hushed {p : Preamble} (h : ∀ t ∈ p.daemonTexts, Inert t) {rest rest' : List Str} (hrest : Hushed rest rest') :
    Hushed ((formatPreamble p).flatMap pieces ++ rest) ((formatPreamble p.redact).flatMap pieces ++ rest') := by
  simp only [Preamble.daemonTexts, List.mem_append, Option.mem_toList] at h
  have hcomments : ∀ l ∈ (p.daemonVersion.map fun ver => "# daemon: ".toList ++ ver).toList
      ++ (p.trust.map fun trust => "# trust: ".toList ++ trust).toList
      ++ (p.serverFeatures.map fun feats => "# server_features: ".toList ++ formatPathSet feats).toList, CommentLine l := by
    intro l hl
    simp only [List.mem_append, Option.mem_toList, Option.map_eq_some_iff] at hl
    rcases hl with (⟨t, ht, rfl⟩ | ⟨t, ht, rfl⟩) | ⟨feats, hfeats, rfl⟩
    · exact commentLine_text (by decide) (by decide) (h t (Or.inl (Or.inl ht)))
    · exact commentLine_text (by decide) (by decide) (h t (Or.inl (Or.inr ht)))
    · exact commentLine_set (by decide) (by decide) fun t ht => h t (Or.inr (by simpa [hfeats] using ht))
  have hown := comments_hushed hcomments (flush_preamble p.expects rest')
    (Quiet.prepend ((p.expects.map formatPreambleExpect ++ ["---".toList]).flatMap pieces) hrest)
  have hwhole := Quiet.prepend (["# nwscript v1".toList, "protocol: ".toList ++ p.protocolVersion.display,
    "features: ".toList ++ formatPathSet p.clientFeatures].flatMap pieces) hown
  simpa [formatPreamble, Preamble.redact] using hwhole

section

variable {τ : Type} (writeFile : Str → List UInt8 → Bool) (formatMs : τ → Str) (opts : FormatOptions)

theorem flush_entries (entries : List (Entry τ)) (fileCounter : Nat) :
    ∀ y ∈ ((formatEntries writeFile formatMs opts entries fileCounter).flatMap pieces).head?, Flush y := by
  intro y hy
  cases entries with
  | nil => cases hy
  | cons e entries =>
    cases hy
    rfl

theorem entries_hushed {entries : List (Entry τ)}
    (h : ∀ e ∈ entries, ∀ t ∈ (e.response.map DaemonResponse.texts).getD [], Inert t) (fileCounter : Nat) :
    Hushed ((formatEntries writeFile formatMs opts entries fileCounter).flatMap pieces)
      ((formatEntries writeFile formatMs opts (entries.map Entry.redact) fileCounter).flatMap pieces) := by
  induction entries generalizing fileCounter with
  | nil => exact .nil
  | cons e entries ih =>
    rw [List.forall_mem_cons] at h
    have hcomments : ∀ l ∈ (e.response.map formatResponseComment).getD [], CommentLine l := by
      cases hresp : e.response with
      | none => exact fun l hl => nomatch hl
      | some resp => exact formatResponseComment_lines fun t ht => h.1 t (by rw [hresp]; exact ht)
    -- the call and its expects, then the comments, then the entries after it
    have hown := comments_hushed hcomments (flush_entries writeFile formatMs opts (entries.map Entry.redact)
      (formatEntry writeFile formatMs e opts fileCounter).2) (ih h.2 (formatEntry writeFile formatMs e opts fileCounter).2)
    have hwhole := Quiet.prepend (([] :: ((formatOpCall writeFile (formatTimestamp formatMs e.timestampMs) e.opCall opts
      fileCounter).1 ++ e.expects.map formatExpect)).flatMap pieces) hown
    simpa [formatEntries_cons, formatEntry_eq, Entry.redact] using hwhole

variable (parseMs : Str → Option τ)

/-- With inert texts, a script is read as the script without them. -/
theorem outcome_redact {s : Script τ} (h : ∀ t ∈ s.daemonTexts, Inert t) :
    outcome parseMs (formatScript writeFile formatMs s opts) =
      outcome parseMs (formatScript writeFile formatMs s.redact opts) := by
  simp only [Script.daemonTexts, List.mem_append, List.mem_flatMap] at h
  have hentries := entries_hushed writeFile formatMs opts (fun e he t ht => h t (Or.inr ⟨e, he, ht⟩)) 0
  have hscript := preamble_hushed (fun t ht => h t (Or.inl ht)) hentries
  apply outcome_quiet
  rw [formatScript_eq, formatScript_eq, lines_flatMap, lines_flatMap, List.flatMap_append, List.flatMap_append]
  exact hscript

/-! ## Texts that are not inert -/

/-- What is printed before a text changes its first line only. -/
theorem splitOn_label {label : Str} (h : '\n' ∉ label) (t : Str) :
    ∃ x, (label ++ t).splitOn '\n' = x :: (t.splitOn '\n').tail := by
  obtain ⟨ls, b, rfl, hls, hb⟩ := exists_written t
  cases ls with
  | nil =>
    refine ⟨label ++ b, ?_⟩
    have hone : '\n' ∉ label ++ b := by simp [h, hb]
    rw [List.flatMap_nil, List.nil_append, List.splitOn_eq_singleton hone, List.splitOn_eq_singleton hb]
    rfl
  | cons l ls =>
    rw [List.forall_mem_cons] at hls
    have hfirst : ∀ k ∈ (label ++ l) :: ls, '\n' ∉ k := by
      rw [List.forall_mem_cons]
      exact ⟨by simp [h, hls.1], hls.2⟩
    have hwritten : label ++ ((l :: ls).flatMap writeln ++ b) = ((label ++ l) :: ls).flatMap writeln ++ b := by simp [writeln]
    refine ⟨label ++ l, ?_⟩
    rw [hwritten, splitOn_written hfirst hb, splitOn_written (by simpa using hls) hb]
    rfl

theorem skipped_stripCr {line : Str} : Skipped (stripCr line) ↔ Skipped line := by
  unfold Skipped skippedLine
  rw [trim_stripCr]

/-- The entries so far are kept. -/
theorem entriesPass_keeps {acc acc' : List (Entry τ)} {ls ls' : List Str}
    (h : (entriesPass parseMs acc).run ls = (.ok (.inl acc'), ls')) : acc.length ≤ acc'.length := by
  cases ls with
  | nil => cases h
  | cons l ls =>
    by_cases hl : skippedLine l = true
    · rw [entriesPass_skip parseMs hl] at h
      cases h
      exact Nat.le_refl _
    · rw [Bool.not_eq_true] at hl
      obtain ⟨e, -, he⟩ := Rd.map_ok_iff.mp ((entriesPass_line parseMs hl acc ls).symm.trans h)
      cases he
      simp

theorem parseEntries_keeps {acc es : List (Entry τ)} {ls ls' : List Str}
    (h : (Rd.iterate List.length (entriesPass parseMs) acc).run ls = (.ok es, ls')) : acc.length ≤ es.length := by
  obtain ⟨n, acc', m, hreaches, hlast⟩ := (iterate_ok_iff (entriesPass_shrinks parseMs) Nat.one_pos).mp h
  have hkeeps : acc.length ≤ acc'.length := hreaches.induct (I := fun x => acc.length ≤ x.1.length)
    (fun hI hpass => hI.trans (entriesPass_keeps parseMs hpass)) (Nat.le_refl _)
  have hes : acc' = es := by
    cases m with
    | nil =>
      cases hlast
      rfl
    | cons l m =>
      by_cases hl : skippedLine l = true
      · rw [entriesPass_skip parseMs hl] at hlast
        cases hlast
      · rw [Bool.not_eq_true] at hl
        obtain ⟨e, -, he⟩ := Rd.map_ok_iff.mp ((entriesPass_line parseMs hl acc' m).symm.trans hlast)
        cases he
  rw [← hes]
  exact hkeeps

/-- A line that is not skipped is an entry, or an error. -/
theorem parseEntries_more {acc es : List (Entry τ)} {ls ls' : List Str} (hline : ∃ l ∈ ls, ¬Skipped l)
    (h : (Rd.iterate List.length (entriesPass parseMs) acc).run ls = (.ok es, ls')) : acc.length < es.length := by
  have hshrinks := entriesPass_shrinks parseMs
  induction ls with
  | nil => simp at hline
  | cons l ls ih =>
    by_cases hl : skippedLine l = true
    · rw [iterate_inl hshrinks Nat.one_pos (entriesPass_skip parseMs hl acc ls)] at h
      rw [List.exists_mem_cons_iff] at hline
      exact ih (hline.resolve_left fun hnot => hnot hl) h
    · rw [Bool.not_eq_true] at hl
      rcases hrun : (parseEntry parseMs l).run ls with ⟨e | o, m⟩
      · have hpass := (entriesPass_line parseMs hl acc ls).trans (Rd.map_ok_iff.mpr ⟨e, hrun, rfl⟩)
        rw [iterate_inl hshrinks Nat.one_pos hpass] at h
        have hkeeps := parseEntries_keeps parseMs h
        rw [List.length_append, List.length_singleton] at hkeeps
        omega
      · have hpass := (entriesPass_line parseMs hl acc ls).trans (Rd.map_stop_iff.mpr hrun)
        rw [iterate_stop hshrinks Nat.one_pos hpass] at h
        cases h

/-- A script whose preamble is the default one, as it is read. -/
theorem outcome_plain (entries : List (Entry τ)) : outcome parseMs (formatScript writeFile formatMs ⟨.default, entries⟩ opts) =
    (((fun es => Script.mk .default (es.map Entry.redact)) <$> parseEntries parseMs).run
      ((formatEntries writeFile formatMs opts entries 0).flatMap pieces)).1 := by
  have hpieces : (formatPreamble .default).flatMap pieces = formatPreamble .default := by
    rw [← lines_flatMap, lines_written (formatPreamble_oneLine default_clean)]
  rw [outcome_eq, formatScript_eq, lines_flatMap, List.flatMap_append, hpieces,
    Rd.bind_ok (Rd.map_ok_iff.mpr ⟨_, parsePreamble_format default_clean _, rfl⟩)]
  rfl

/-- A response after a call that ends with a comment of its own. -/
def responseProbe (t : Str) : Entry τ where
  timestampMs := none
  opCall := .singlePath .isValidPath "p\n#".toList
  response := some ⟨t, 0, none, none⟩
  expects := []

/-- The probe's call as it is read. -/
def probeCall : Entry τ := ⟨none, .singlePath .isValidPath "p".toList, none, []⟩

theorem parseEntries_probe (comment : List Str) : (parseEntries parseMs).run
    ([] :: "IsValidPath p".toList :: "#".toList :: comment) =
      (Rd.iterate List.length (entriesPass parseMs) [probeCall]).run ("#".toList :: comment) := by
  have hshrinks := entriesPass_shrinks parseMs
  have hline : CallLine "IsValidPath p".toList := @callLine_args .isValidPath "p".toList (by decide) (by decide)
  have hcall : BlockReads (parseOpLine "IsValidPath p".toList) [] (.singlePath .isValidPath "p".toList) := .pure _
  have hend : EntryEnd ("#".toList :: comment) := by
    intro l hl
    cases hl
    rfl
  have hstart : EntryStart parseMs "IsValidPath p".toList "IsValidPath p".toList none := .plain hline
  have hparse := parseEntry_format parseMs hstart hcall (List.forall_mem_nil _) (List.forall_mem_nil _) hend
  have hpass := (entriesPass_line parseMs (hstart.not_skipped parseMs) [] _).trans
    (Rd.map_ok_iff.mpr ⟨probeCall, hparse, rfl⟩)
  unfold parseEntries
  rw [iterate_inl hshrinks Nat.one_pos (entriesPass_skip parseMs rfl [] _)]
  exact iterate_inl hshrinks Nat.one_pos hpass

/-- A terminal with a line that is not skipped shows. -/
theorem responseProbe_shows {t : Str} (hline : ∃ l ∈ (t.splitOn '\n').tail, ¬Skipped l) :
    reading parseMs (formatScript writeFile formatMs ⟨.default, [responseProbe t]⟩ opts) ≠
      reading parseMs (formatScript writeFile formatMs ⟨.default, [(responseProbe t).redact]⟩ opts) := by
  have hshrinks := entriesPass_shrinks parseMs
  have hpieces : (formatEntries writeFile formatMs opts [responseProbe t] 0).flatMap pieces =
      [] :: "IsValidPath p".toList :: "#".toList :: pieces ("  # response: ".toList ++ t) := by
    show pieces [] ++ (pieces "IsValidPath p\n#".toList ++ (pieces ("  # response: ".toList ++ t) ++ [])) = _
    rw [List.append_nil]
    rfl
  have hredacted : (formatEntries writeFile formatMs opts [(responseProbe t).redact] 0).flatMap pieces =
      ["".toList, "IsValidPath p".toList, "#".toList] := rfl
  obtain ⟨x, hsplit⟩ := @splitOn_label "  # response: ".toList (by decide) t
  have hshows : ∃ l ∈ "#".toList :: pieces ("  # response: ".toList ++ t), ¬Skipped l := by
    obtain ⟨l, hl, hnot⟩ := hline
    refine ⟨stripCr l, ?_, fun h => hnot (skipped_stripCr.mp h)⟩
    rw [pieces, hsplit, List.map_cons]
    exact List.mem_cons_of_mem _ (List.mem_cons_of_mem _ (List.mem_map_of_mem hl))
  intro heq
  rw [reading_eq, reading_eq, outcome_plain, outcome_plain, hpieces, hredacted] at heq
  have hquiet : (Rd.iterate List.length (entriesPass parseMs) [probeCall]).run ["#".toList] = (.ok [probeCall], []) := by
    rw [iterate_inl hshrinks Nat.one_pos (entriesPass_skip parseMs rfl [probeCall] [])]
    exact iterate_inr hshrinks Nat.one_pos rfl
  have hplain : ((fun es => Script.mk .default (es.map Entry.redact)) <$> parseEntries parseMs).run
      ["".toList, "IsValidPath p".toList, "#".toList] = (.ok ⟨.default, [probeCall]⟩, []) :=
    Rd.map_ok_iff.mpr ⟨[probeCall], (parseEntries_probe parseMs []).trans hquiet, rfl⟩
  rw [hplain] at heq
  rcases hleft : ((fun es => Script.mk .default (es.map Entry.redact)) <$> parseEntries parseMs).run
    ([] :: "IsValidPath p".toList :: "#".toList :: pieces ("  # response: ".toList ++ t)) with ⟨s | o, ls⟩
  · rw [hleft] at heq
    obtain ⟨es, hes, rfl⟩ := Rd.map_ok_iff.mp hleft
    have hmore := parseEntries_more parseMs hshows ((parseEntries_probe parseMs _).symm.trans hes)
    have hplans := congrArg (fun plan => plan.calls.length) (Option.some.inj heq)
    simp [Script.plan] at hplans hmore
    omega
  · rw [hleft] at heq
    cases heq

omit writeFile formatMs opts parseMs in
theorem preamble_skips {skips : List Str} (h : ∀ l ∈ skips, Skipped l) (p : Preamble) (rest : List Str) :
    ∃ q, (readLines preambleStep id p).run (skips ++ rest) = (readLines preambleStep id q).run rest := by
  induction skips generalizing p with
  | nil => exact ⟨p, rfl⟩
  | cons l skips ih =>
    rw [List.forall_mem_cons] at h
    obtain ⟨q, hstep, -⟩ := preambleStep_skipped h.1 p
    rw [List.cons_append, readLines_next hstep]
    exact ih h.2 q

omit writeFile formatMs opts parseMs in
theorem trim_blank {b : Str} (h : trim b = []) (s : Str) : trim (b ++ s) = trim s := by
  have hblank : trimStart b = [] := by
    cases hstart : trimStart b with
    | nil => rfl
    | cons c v =>
      obtain ⟨t, ht⟩ := trimEnd_cons (head_trimStart b c (by rw [hstart]; rfl)) v
      rw [trim, hstart, ht] at h
      cases h
  have hall : (b.dropWhile isWhitespace).isEmpty = true := by simpa [trimStart] using hblank
  rw [trim, trim, trimStart, List.dropWhile_append, if_pos hall]
  rfl

/-- The first lines of the default preamble. -/
def defaultLines : List Str := ["# nwscript v1".toList, "protocol: ".toList ++ Preamble.default.protocolVersion.display,
  "features: ".toList ++ formatPathSet Preamble.default.clientFeatures]

omit writeFile formatMs opts parseMs in
theorem defaultLines_pieces : defaultLines.flatMap pieces = defaultLines := by
  have hsub : ∀ l ∈ defaultLines, OneLine l := by
    intro l hl
    apply formatPreamble_oneLine default_clean
    unfold formatPreamble
    simp only [List.append_assoc]
    exact List.mem_append_left _ hl
  rw [← lines_flatMap, lines_written hsub]

omit writeFile formatMs opts parseMs in
theorem defaultLines_run (rest : List Str) :
    ∃ p, parsePreamble.run (defaultLines ++ rest) = (readLines preambleStep id p).run rest := by
  have hheader : preambleStep .default "# nwscript v1".toList = .ok (.next .default) := rfl
  have hversion := (display_printable Preamble.default.protocolVersion).tight
  have hfeatures := (formatPathSet_printable (cleanElements default_clean.clientFeatures)).tight
  unfold parsePreamble defaultLines
  simp only [List.cons_append, List.nil_append]
  rw [readLines_next hheader, readLines_next (preambleStep_protocol hversion _),
    readLines_next (preambleStep_features hfeatures _)]
  exact ⟨_, rfl⟩

/-- What is printed before the first feature. -/
def featuresOpened : Str := "# server_features: ".toList ++ ['{', ' ']

/-- A feature of the daemon's. -/
def featureProbe (t : Str) : Script τ := ⟨{ Preamble.default with serverFeatures := some [t] }, []⟩

/-- A feature whose last line is blank leaves the closing brace on a line of its own. -/
theorem featureProbe_fails {t : Str} (hskipped : ∀ l ∈ (t.splitOn '\n').tail, Skipped l)
    (hblank : ∃ l ∈ (t.splitOn '\n').tail.getLast?, trim l = []) : ∃ o,
    outcome parseMs (formatScript writeFile formatMs (featureProbe t) opts) = .stop o := by
  obtain ⟨ls, b, rfl, hls, hb⟩ := exists_written t
  rw [splitOn_written hls hb] at hskipped hblank
  cases ls with
  | nil =>
    obtain ⟨l, hl, -⟩ := hblank
    cases hl
  | cons t₀ ls =>
    rw [List.cons_append, List.tail_cons] at hskipped hblank
    rw [List.forall_mem_cons] at hls
    have hbrace : trim b = [] := by
      obtain ⟨l, hl, htrim⟩ := hblank
      rw [List.getLast?_concat] at hl
      cases hl
      exact htrim
    -- the comment's first line, the lines after it, and the brace
    have hfirst : ∀ k ∈ (featuresOpened ++ t₀) :: ls, '\n' ∉ k := by
      rw [List.forall_mem_cons]
      have hopened : '\n' ∉ featuresOpened := by decide
      exact ⟨by simp [hopened, hls.1], hls.2⟩
    have hlast : '\n' ∉ b ++ [' ', '}'] := by simp [hb]
    have hwritten : "# server_features: ".toList ++ formatPathSet [(t₀ :: ls).flatMap writeln ++ b] =
        ((featuresOpened ++ t₀) :: ls).flatMap writeln ++ (b ++ [' ', '}']) := by
      have hopened : featuresOpened = "# server_features: ".toList ++ ['{', ' '] := rfl
      rw [hopened]
      simp [formatPathSet, writeln]
    have hskips : ∀ l ∈ ((featuresOpened ++ t₀) :: ls).map stripCr, Skipped l := by
      intro l hl
      obtain ⟨k, hk, rfl⟩ := List.mem_map.mp hl
      rw [skipped_stripCr]
      rcases List.mem_cons.mp hk with rfl | hk
      · have hlabel : Settled featuresOpened := by decide
        exact (hlabel.append t₀).isComment.1
      · exact hskipped k (List.mem_append_left _ hk)
    have hstep (q : Preamble) : preambleStep q (stripCr (b ++ [' ', '}'])) = .error (.unexpectedPreambleLine ['}']) := by
      unfold preambleStep
      rw [trim_stripCr, trim_blank hbrace]
      rfl
    have hpieces : (formatPreamble (featureProbe ((t₀ :: ls).flatMap writeln ++ b) : Script τ).preamble).flatMap pieces =
        defaultLines ++ (((featuresOpened ++ t₀) :: ls).map stripCr ++
          (stripCr (b ++ [' ', '}']) :: ["---".toList])) := by
      have hprinted : formatPreamble (featureProbe ((t₀ :: ls).flatMap writeln ++ b) : Script τ).preamble = defaultLines ++
          ["# server_features: ".toList ++ formatPathSet [(t₀ :: ls).flatMap writeln ++ b], "---".toList] := rfl
      rw [hprinted, hwritten, List.flatMap_append, defaultLines_pieces, List.flatMap_cons, pieces_written hfirst hlast,
        List.append_assoc]
      rfl
    obtain ⟨p, hdefault⟩ := defaultLines_run (((featuresOpened ++ t₀) :: ls).map stripCr ++
      (stripCr (b ++ [' ', '}']) :: ["---".toList]))
    obtain ⟨q, hq⟩ := preamble_skips hskips p (stripCr (b ++ [' ', '}']) :: ["---".toList])
    refine ⟨.err (.unexpectedPreambleLine ['}']), ?_⟩
    have hlines : lines (formatScript writeFile formatMs (featureProbe ((t₀ :: ls).flatMap writeln ++ b)) opts) =
        defaultLines ++ (((featuresOpened ++ t₀) :: ls).map stripCr ++
          (stripCr (b ++ [' ', '}']) :: ["---".toList])) := by
      rw [formatScript_eq, lines_flatMap, List.flatMap_append, hpieces]
      exact List.append_nil _
    have hrun := hdefault.trans (hq.trans (readLines_error (hstep q)))
    rw [outcome_eq, hlines, Rd.bind_stop (Rd.map_stop_iff.mpr hrun)]

/-! ## The condition -/

/-- Texts of a kind never change what is read exactly when all of the kind are inert. -/
theorem daemon_text_inert_iff (P : Str → Prop) : (∀ s s' : Script τ, s.redact = s'.redact →
    (∀ t ∈ s.daemonTexts ++ s'.daemonTexts, P t) →
      reading parseMs (formatScript writeFile formatMs s opts) = reading parseMs (formatScript writeFile formatMs s' opts)) ↔
    ∀ t, P t → Inert t := by
  constructor
  · intro h t ht
    have hskipped : ∀ l ∈ (t.splitOn '\n').tail, Skipped l := by
      by_contra hline
      push Not at hline
      refine responseProbe_shows writeFile formatMs opts parseMs hline (h _ _ rfl ?_)
      intro u hu
      obtain rfl : u = t := by simpa [Script.daemonTexts, Preamble.daemonTexts, Preamble.default, responseProbe, Entry.redact,
        DaemonResponse.texts] using hu
      exact ht
    refine ⟨hskipped, ?_⟩
    by_contra hblank
    push Not at hblank
    obtain ⟨o, hfails⟩ := featureProbe_fails writeFile formatMs opts parseMs hskipped hblank
    have hsame := h (featureProbe t) ⟨.default, []⟩ rfl (by
      intro u hu
      obtain rfl : u = t := by simpa [Script.daemonTexts, Preamble.daemonTexts, Preamble.default, featureProbe] using hu
      exact ht)
    have hplain : outcome parseMs (formatScript writeFile formatMs ⟨.default, []⟩ opts) = .ok ⟨.default, []⟩ := by
      have hnone : (parseEntries parseMs).run [] = (.ok [], []) := iterate_inr (entriesPass_shrinks parseMs) Nat.one_pos rfl
      have hread : ((fun es => Script.mk .default (es.map Entry.redact)) <$> parseEntries parseMs).run [] =
          (.ok ⟨.default, []⟩, []) := Rd.map_ok_iff.mpr ⟨[], hnone, rfl⟩
      rw [outcome_plain]
      exact congrArg Prod.fst hread
    rw [reading_eq, reading_eq, hfails, hplain] at hsame
    cases hsame
  · intro h s s' hredact htexts
    have hleft := outcome_redact writeFile formatMs opts parseMs fun t ht => h t (htexts t (List.mem_append_left _ ht))
    have hright := outcome_redact writeFile formatMs opts parseMs fun t ht => h t (htexts t (List.mem_append_right _ ht))
    rw [reading_eq, reading_eq, hleft, hright, hredact]

end

/-- A call that failed with a message. -/
def failedCall (message : String) : Script Unit where
  preamble := .default
  entries := [{
    timestampMs := none, opCall := .singlePath .ensurePath "/nix/store/p".toList, expects := [],
    response := some ⟨"Error".toList, 0, none, some ⟨"Error".toList, 0, "Error".toList, message.toList⟩⟩ }]

/-- A message of two lines adds a call. -/
theorem message_adds_call : ¬∀ s s' : Script Unit, s.redact = s'.redact →
    reading (fun _ => (none : Option Unit)) (formatScript (fun _ _ => false) (fun _ => []) s .default) =
      reading (fun _ => (none : Option Unit)) (formatScript (fun _ _ => false) (fun _ => []) s' .default) := by
  intro h
  have hsame := h (failedCall "build failed") (failedCall "build failed\nSyncWithGC") rfl
  exact absurd hsame (by decide)

end NixWire
