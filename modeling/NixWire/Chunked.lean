/-
  NixWire.Chunked — reading a live daemon, whose bytes arrive in chunks.

  Exact reads go on over chunks, so a `BufReader` delivers what the byte list does
  (`BufReader.delivers`). Peeking does not: `peek_u64` looks at one buffer only, and takes
  a code that straddles two chunks for the end of the stream. The stderr loops read the
  chunks as they read one piece exactly when no code they come to is cut
  (`fragmentation_iff`).
-/

import NixWire.Messages

namespace NixWire

open Base

namespace BufReader

variable {chunks : List (List UInt8)} {r : BufReader} {s : List UInt8}

/-! ## Where a reader stands -/

/-- The buffer is what is left of one of the chunks, and those after it are to come. -/
def Inside (chunks : List (List UInt8)) (r : BufReader) : Prop :=
  r.buf = [] ∧ r.chunks <:+ chunks ∨ ∃ before used, chunks = before ++ (used ++ r.buf) :: r.chunks

/-- A reader of the chunks that has `s` left. -/
def Follows (chunks : List (List UInt8)) (r : BufReader) (s : List UInt8) : Prop := r.unread = s ∧ Inside chunks r

theorem follows_new (h : ∀ c ∈ chunks, c ≠ []) : Follows chunks (new chunks h) chunks.flatten :=
  ⟨rfl, Or.inl ⟨rfl, List.suffix_rfl⟩⟩

theorem fill_unread (r : BufReader) : r.fill.unread = r.unread := by
  rcases r with ⟨_ | ⟨b, buf⟩, _ | ⟨c, cs⟩, h⟩ <;> simp [fill, unread]

/-- The buffer is filled unless nothing is left. -/
theorem fill_nonempty (h : r.unread ≠ []) : r.fill.buf ≠ [] := by
  rcases r with ⟨_ | ⟨b, buf⟩, _ | ⟨c, cs⟩, hne⟩
  · exact absurd rfl h
  · exact hne c List.mem_cons_self
  · exact List.cons_ne_nil b buf
  · exact List.cons_ne_nil b buf

theorem Follows.fill (h : Follows chunks r s) : Follows chunks r.fill s := by
  refine ⟨(fill_unread r).trans h.1, ?_⟩
  obtain ⟨_, hin⟩ := h
  rcases r with ⟨_ | ⟨b, buf⟩, _ | ⟨c, cs⟩, hne⟩
  · exact hin
  · rcases hin with ⟨_, before, rfl⟩ | ⟨before, used, rfl⟩
    · exact Or.inr ⟨before, [], rfl⟩
    · exact Or.inr ⟨before ++ [used ++ []], [], by simp [BufReader.fill]⟩
  · exact hin
  · exact hin

theorem Follows.drop (h : Follows chunks r s) (n : Nat) :
    Follows chunks { r with buf := r.buf.drop n } (s.drop (min n r.buf.length)) := by
  obtain ⟨rfl, hin⟩ := h
  constructor
  · show r.buf.drop n ++ r.chunks.flatten = (r.buf ++ r.chunks.flatten).drop _
    rw [List.drop_append_of_le_length (Nat.min_le_right _ _)]
    rcases Nat.le_total n r.buf.length with hn | hn
    · rw [Nat.min_eq_left hn]
    · rw [Nat.min_eq_right hn, List.drop_eq_nil_of_le hn, List.drop_length]
  · rcases hin with ⟨hbuf, hsuffix⟩ | ⟨before, used, hchunks⟩
    · exact Or.inl ⟨by simp [hbuf], hsuffix⟩
    · exact Or.inr ⟨before, used ++ r.buf.take n, by rw [List.append_assoc, List.take_append_drop]; exact hchunks⟩

/-- What is buffered is the front of what is left. -/
theorem Follows.buffered (h : Follows chunks r s) : r.buf <+: s := ⟨r.chunks.flatten, h.1⟩

/-! ## Exact reads -/

/-- Enough reads deliver `n` bytes, or all there are. -/
theorem readExactLoop_follows {ε : Type} (e : ε) (fuel : Nat) : ∀ {n : Nat} {r : BufReader} {s : List UInt8}, n ≤ fuel →
    Follows chunks r s → ∃ r', (readExactLoop e fuel n).run r = (if n ≤ s.length then .ok (s.take n) else .stop (.err e), r') ∧
      Follows chunks r' (if n ≤ s.length then s.drop n else []) := by
  induction fuel with
  | zero =>
    intro n r s hn h
    obtain rfl : n = 0 := by omega
    exact ⟨r, by simp [readExactLoop], by simpa using h⟩
  | succ fuel ih =>
    intro n r s hn h
    cases n with
    | zero => exact ⟨r, by simp [readExactLoop], by simpa using h⟩
    | succ n =>
      have hfill := h.fill
      have hpoll : (BufRead.pollRead (n + 1) : Rd ε BufReader _).run r =
          (.ok (r.fill.buf.take (n + 1)), { r.fill with buf := r.fill.buf.drop (n + 1) }) := rfl
      rw [readExactLoop, Rd.bind_ok hpoll]
      by_cases hs : s = []
      · -- nothing comes any more
        subst hs
        have hbuf : r.fill.buf = [] := List.prefix_nil.mp hfill.buffered
        have hend := hfill.drop (n + 1)
        rw [hbuf] at hend ⊢
        exact ⟨_, rfl, by simpa using hend⟩
      · have hbuf : r.fill.buf ≠ [] := fill_nonempty (by rw [h.1]; exact hs)
        have hpos : 0 < r.fill.buf.length := List.length_pos_iff.mpr hbuf
        have hle : r.fill.buf.length ≤ s.length := hfill.buffered.length_le
        generalize hk : min (n + 1) r.fill.buf.length = k
        have hgot : r.fill.buf.take (n + 1) = s.take k := by
          conv_lhs => rw [List.prefix_iff_eq_take.mp hfill.buffered]
          rw [List.take_take, hk]
        have hrest := hfill.drop (n + 1)
        rw [hk] at hrest
        have hlen : (s.take k).length = k := by rw [List.length_take]; omega
        obtain ⟨r', hrun, h'⟩ := ih (show n + 1 - (s.take k).length ≤ fuel by omega) hrest
        have hiff : n + 1 - (s.take k).length ≤ (s.drop k).length ↔ n + 1 ≤ s.length := by
          rw [hlen, List.length_drop]
          omega
        simp only [hiff] at hrun h'
        have hempty : (s.take k).isEmpty = false := by
          rw [List.isEmpty_eq_false_iff, ← List.length_pos_iff, hlen]
          omega
        rw [hgot, hempty, if_neg (by simp)]
        refine ⟨r', ?_, ?_⟩
        · by_cases hall : n + 1 ≤ s.length
          · rw [if_pos hall] at hrun ⊢
            rw [Rd.bind_ok hrun, Rd.run_pure, hlen, ← List.take_add, show k + (n + 1 - k) = n + 1 by omega]
          · rw [if_neg hall] at hrun ⊢
            exact Rd.bind_stop hrun
        · rwa [hlen, List.drop_drop, show k + (n + 1 - k) = n + 1 by omega] at h'

theorem delivers (chunks : List (List UInt8)) : Delivers (Follows chunks) where
  exact e n r s h := by
    obtain ⟨r', hrun, h'⟩ := readExactLoop_follows e n (Nat.le_refl n) h
    have hexact : (readExact e n).run r = (if n ≤ s.length then .ok (s.take n) else .stop (.err e), r') := hrun
    rw [hexact, readExact_bytes]
    split
    · rename_i hn
      rw [if_pos hn] at h'
      exact ⟨rfl, h'⟩
    · rename_i hn
      rw [if_neg hn] at h'
      exact ⟨rfl, h'⟩
  size r s h := by
    rw [← h.1]
    rfl

/-! ## Peeking -/

/-- One buffer is all that is looked at. -/
theorem peekU64_run (r : BufReader) :
    peekU64.run r = (.ok (if 8 ≤ r.fill.buf.length then some (wordOf (r.fill.buf.take 8)) else none), r.fill) := by
  have hpass : ∀ r : BufReader, (peekPass ()).run r =
      (.ok (.inr (if 8 ≤ r.fill.buf.length then some (wordOf (r.fill.buf.take 8)) else none)), r.fill) := by
    intro r
    have hfill : (BufRead.fillBuf : Rd WireError BufReader _).run r = (.ok r.fill.buf, r.fill) := rfl
    rw [peekPass, Rd.bind_ok hfill]
    by_cases h : 8 ≤ r.fill.buf.length
    · rw [if_pos h, if_pos h, Rd.run_pure]
    · rw [if_neg h, if_neg h, if_pos (show r.fill.buf.length < 8 by omega), ite_self, Rd.run_pure]
  have hshrinks : Rd.Shrinks BufRead.size 1 (peekPass (R := BufReader)) := by
    intro b b' r r' h
    rw [hpass] at h
    cases h
  exact iterate_inr hshrinks (by omega) (hpass r)

/-- A boundary between chunks cuts the word at position `p`. -/
def Cut (chunks : List (List UInt8)) (p : Nat) : Prop :=
  ∃ n, p < (chunks.take n).flatten.length ∧ (chunks.take n).flatten.length < p + 8

/-- A word is cut when the buffer ends inside it. -/
theorem Follows.cut_iff (h : Follows chunks r s) (hs : 8 ≤ s.length) :
    Cut chunks (chunks.flatten.length - s.length) ↔ r.fill.buf.length < 8 := by
  have hne : s ≠ [] := by
    intro h
    obtain rfl := h
    cases hs
  have hbuf : 0 < r.fill.buf.length := List.length_pos_iff.mpr (fill_nonempty (by rw [h.1]; exact hne))
  obtain ⟨hunread, ⟨hnil, _⟩ | ⟨before, used, hchunks⟩⟩ := h.fill
  · rw [hnil] at hbuf
    cases hbuf
  -- the word starts after `before` and `used`
  have hpos : chunks.flatten.length - s.length = before.flatten.length + used.length := by
    rw [hchunks, ← hunread]
    simp only [unread, List.flatten_append, List.flatten_cons, List.length_append]
    omega
  have hbefore : ∀ n ≤ before.length, (chunks.take n).flatten.length ≤ before.flatten.length := by
    intro n hn
    rw [hchunks, List.take_append_of_le_length hn]
    conv_rhs => rw [← List.take_append_drop n before, List.flatten_append, List.length_append]
    omega
  have hafter : ∀ k, (chunks.take (before.length + 1 + k)).flatten.length =
      before.flatten.length + used.length + r.fill.buf.length + (r.fill.chunks.take k).flatten.length := by
    intro k
    rw [hchunks, Nat.add_assoc, List.take_length_add_append, Nat.add_comm 1, List.take_succ_cons]
    simp only [List.flatten_append, List.flatten_cons, List.length_append]
    omega
  rw [hpos]
  constructor
  · intro h
    obtain ⟨n, hlt, hlt'⟩ := h
    rcases Nat.lt_or_ge before.length n with hn | hn
    · obtain ⟨k, rfl⟩ : ∃ k, n = before.length + 1 + k := ⟨n - before.length - 1, by omega⟩
      rw [hafter] at hlt'
      omega
    · have := hbefore n hn
      omega
  · intro hlt
    refine ⟨before.length + 1 + 0, ?_⟩
    rw [hafter]
    simp only [List.take_zero, List.flatten_nil, List.length_nil]
    omega

end BufReader

open BufReader

/-! ## One pass of the stderr loop -/

section

variable {chunks : List (List UInt8)} {r : BufReader} {s : List UInt8}

/-- A pass that sees eight bytes does what it does on the byte list. -/
theorem readStderrPass_seen (h : Follows chunks r s) (hseen : 8 ≤ r.fill.buf.length) (count : UInt64) :
    ∃ o r' s', (readStderrPass count).run r = (o, r') ∧ (readStderrPass count).run s = (o, s') ∧ Follows chunks r' s' := by
  have hle := h.fill.buffered.length_le
  have hword : r.fill.buf.take 8 = s.take 8 := by
    conv_lhs => rw [List.prefix_iff_eq_take.mp h.fill.buffered]
    rw [List.take_take, Nat.min_eq_left hseen]
  have hpeek := peekU64_run r
  rw [if_pos hseen, hword] at hpeek
  have hlist := peekU64_bytes s
  rw [if_pos (by omega)] at hlist
  have htake := h.fill.drop 8
  rw [Nat.min_eq_left hseen] at htake
  have hskip : ∀ code, Rel (Follows chunks) (skipStderrPayload code) (skipStderrPayload code) := by
    intro code
    rw [skipStderrPayload_eq, skipStderrPayload_eq]
    exact (parse_rel (wirePrims_agree (delivers chunks)) _).map _
  rw [readStderrPass, readStderrPass, Rd.bind_ok hpeek, Rd.bind_ok hlist]
  cases hcode : StderrCode.fromU64 (wordOf (s.take 8)) with
  | none =>
    simp only [hcode]
    exact ⟨_, _, _, rfl, rfl, h.fill⟩
  | some code =>
    simp only [hcode]
    have hr : (consume 8 : Rd WireError BufReader Unit).run r.fill = (.ok (), { r.fill with buf := r.fill.buf.drop 8 }) := rfl
    have hs : (consume 8 : Rd WireError (List UInt8) Unit).run s = (.ok (), s.drop 8) := rfl
    rw [Rd.bind_ok hr, Rd.bind_ok hs]
    have hrel : Rel (Follows chunks)
        (if code.isTerminal then pure (.inr ⟨count + 1, some code⟩)
          else skipStderrPayload code >>= fun _ => pure (.inl (count + 1)) : Rd WireError BufReader (UInt64 ⊕ StderrResult))
        (if code.isTerminal then pure (.inr ⟨count + 1, some code⟩)
          else skipStderrPayload code >>= fun _ => pure (.inl (count + 1))) :=
      Rel.ite (Rel.pure _) ((hskip code).bind fun _ => Rel.pure _)
    obtain ⟨r', hrun, h'⟩ := hrel.run htake rfl
    exact ⟨_, r', _, hrun, rfl, h'⟩

/-- A pass that sees fewer ends the loop. -/
theorem readStderrPass_unseen (h : r.fill.buf.length < 8) (count : UInt64) :
    (readStderrPass count).run r = (.ok (.inr ⟨count, none⟩), r.fill) := by
  have hpeek := peekU64_run r
  rw [if_neg (by omega)] at hpeek
  rw [readStderrPass, Rd.bind_ok hpeek]
  rfl

theorem readStderrPass_chunked_shrinks : Rd.Shrinks BufRead.size 8 (readStderrPass (R := BufReader)) := by
  intro count n r r' hrun
  have h : Follows (r.buf :: r.chunks) r r.unread := ⟨rfl, Or.inr ⟨[], [], rfl⟩⟩
  by_cases hseen : 8 ≤ r.fill.buf.length
  · obtain ⟨o, r₁, s₁, hr, hs, h₁⟩ := readStderrPass_seen h hseen count
    cases hr.symm.trans hrun
    have := readStderrPass_shrinks _ _ _ _ hs
    rw [← h₁.1] at this
    exact this
  · rw [readStderrPass_unseen (by omega)] at hrun
    cases hrun

/-! ## The loop -/

/-- No code that the loop comes to while it reads `s`, the end of the chunks, is cut. -/
def CodesWhole (chunks : List (List UInt8)) (s : List UInt8) : Prop :=
  ∀ (ms : List Message) (parts : List (List UInt8)) (rest : List UInt8), List.Forall₂ Message.Enc ms parts →
    s = parts.flatten ++ rest → StartsWithCode rest → ¬Cut chunks (chunks.flatten.length - rest.length)

theorem codesWhole_other (h : ¬StartsWithCode s) : CodesWhole chunks s := by
  rintro ms parts rest hms rfl hrest
  cases hms with
  | nil => exact absurd hrest h
  | cons hm _ =>
    obtain ⟨_, bs, _, rfl⟩ := hm
    exact absurd ⟨_, bs ++ (_ ++ rest), by simp only [List.flatten_cons, List.append_assoc]; rfl⟩ h

/-- After the first code there are others only if a pass goes on. -/
theorem codesWhole_last (count : UInt64) (hcut : ¬Cut chunks (chunks.flatten.length - s.length))
    (h : ∀ n s', (readStderrPass count).run s ≠ (.ok (.inl n), s')) : CodesWhole chunks s := by
  rintro ms parts rest hms rfl hrest
  cases hms with
  | nil => exact hcut
  | @cons m bs ms parts hm _ =>
    exact absurd (readStderrPass_inl_iff.mpr ⟨m, bs, hm, List.append_assoc .., rfl⟩) (h (count + 1) (parts.flatten ++ rest))

theorem codesWhole_step {s' : List UInt8} {count n : UInt64} (hcut : ¬Cut chunks (chunks.flatten.length - s.length))
    (h : (readStderrPass count).run s = (.ok (.inl n), s')) : CodesWhole chunks s ↔ CodesWhole chunks s' := by
  obtain ⟨m, bs, hm, hs, rfl⟩ := readStderrPass_inl_iff.mp h
  constructor
  · rintro hall ms parts rest hms rfl hrest
    exact hall (m :: ms) (bs :: parts) rest (.cons hm hms) (by rw [hs, List.flatten_cons, List.append_assoc]) hrest
  · intro hall ms parts rest hms hparts hrest
    cases hms with
    | nil =>
      obtain rfl : s = rest := hparts
      exact hcut
    | @cons m' bs' ms parts hm' hms =>
      -- the pass takes the first message
      rw [List.flatten_cons, List.append_assoc] at hparts
      have hpass : (readStderrPass count).run s = (.ok (.inl (count + 1)), parts.flatten ++ rest) :=
        readStderrPass_inl_iff.mpr ⟨m', bs', hm', hparts, rfl⟩
      rw [h] at hpass
      cases hpass
      exact hall ms parts rest hms rfl hrest

/-- The loop over chunks, next to the loop over their bytes: both end alike, or the first
    one ends before a cut code. -/
theorem chunked_loop (count : UInt64) (h : Follows chunks r s) :
    (CodesWhole chunks s ∧ ∃ o r' s', (readLoop readStderrPass count).run r = (o, r') ∧
      (readLoop readStderrPass count).run s = (o, s') ∧ Follows chunks r' s') ∨
    (¬CodesWhole chunks s ∧ ∃ n n' r' s', (readLoop readStderrPass count).run r = (.ok ⟨n, none⟩, r') ∧
      r'.unread = s' ∧ StartsWithCode s' ∧ (readLoop readStderrPass count).run s = (readLoop readStderrPass n').run s') := by
  induction hn : s.length using Nat.strongRecOn generalizing r s count with
  | ind len ih =>
    by_cases hcode : StartsWithCode s
    · have hlen : 8 ≤ s.length := by
        obtain ⟨code, rest, rfl⟩ := hcode
        simp
      have hcut := h.cut_iff hlen
      by_cases hseen : 8 ≤ r.fill.buf.length
      · have hwhole : ¬Cut chunks (chunks.flatten.length - s.length) := fun hc => by have := hcut.mp hc; omega
        obtain ⟨(⟨n⟩ | ⟨res⟩) | o, r', s', hr, hs, h'⟩ := readStderrPass_seen h hseen count
        · have hlt : s'.length + 8 ≤ s.length := readStderrPass_shrinks _ _ _ _ hs
          have hrloop := iterate_inl readStderrPass_chunked_shrinks (by omega) hr
          have hsloop := iterate_inl readStderrPass_shrinks (by omega) hs
          have hstep := codesWhole_step hwhole hs
          rcases ih s'.length (by rw [← hn]; omega) n h' rfl with
            ⟨hall, o, r₁, s₁, hr₁, hs₁, h₁⟩ | ⟨hall, m, m', r₁, s₁, hr₁, hleft, hcode₁, hs₁⟩
          · exact Or.inl ⟨hstep.mpr hall, o, r₁, s₁, hrloop.trans hr₁, hsloop.trans hs₁, h₁⟩
          · exact Or.inr ⟨mt hstep.mp hall, m, m', r₁, s₁, hrloop.trans hr₁, hleft, hcode₁, hsloop.trans hs₁⟩
        · refine Or.inl ⟨codesWhole_last count hwhole (by rw [hs]; simp), .ok res, r', s', ?_, ?_, h'⟩
          · exact iterate_inr readStderrPass_chunked_shrinks (by omega) hr
          · exact iterate_inr readStderrPass_shrinks (by omega) hs
        · refine Or.inl ⟨codesWhole_last count hwhole (by rw [hs]; simp), .stop o, r', s', ?_, ?_, h'⟩
          · exact iterate_stop readStderrPass_chunked_shrinks (by omega) hr
          · exact iterate_stop readStderrPass_shrinks (by omega) hs
      · refine Or.inr ⟨fun hall => hall [] [] s .nil rfl hcode (hcut.mpr (by omega)), count, count, r.fill, s, ?_,
          h.fill.1, hcode, rfl⟩
        exact iterate_inr readStderrPass_chunked_shrinks (by omega) (readStderrPass_unseen (by omega) count)
    · refine Or.inl ⟨codesWhole_other hcode, ?_⟩
      have hs := readStderrPass_other count hcode
      have hloop : (readLoop readStderrPass count).run s = _ := iterate_inr readStderrPass_shrinks (by omega) hs
      by_cases hseen : 8 ≤ r.fill.buf.length
      · obtain ⟨o, r', s', hr, hs', h'⟩ := readStderrPass_seen h hseen count
        cases hs.symm.trans hs'
        exact ⟨_, r', s, iterate_inr readStderrPass_chunked_shrinks (by omega) hr, hloop, h'⟩
      · exact ⟨_, r.fill, s, iterate_inr readStderrPass_chunked_shrinks (by omega) (readStderrPass_unseen (by omega) count), hloop,
          h.fill⟩

/-! ## Against one piece -/

theorem skipStderrPayload_forward (code : StderrCode) : Forward (skipStderrPayload code : Rd _ (List UInt8) _) := by
  rw [skipStderrPayload_eq]
  exact (parse_forward wirePrims_forward _).map _

/-- What a pass leaves of a stream that starts with a code. -/
theorem readStderrPass_eats (count : UInt64) (code : StderrCode) (rest : List UInt8) :
    ((readStderrPass count).run (wordBytes code.code ++ rest)).2 <:+ rest := by
  rw [readStderrPass_code]
  exact Forward.ite (Forward.pure _) ((skipStderrPayload_forward code).bind fun _ => Forward.pure _) rest

theorem readStderrPass_forward (count : UInt64) : Forward (readStderrPass count : Rd _ (List UInt8) _) := by
  intro s
  by_cases hs : StartsWithCode s
  · obtain ⟨code, rest, rfl⟩ := hs
    exact (readStderrPass_eats count code rest).trans (List.suffix_append _ rest)
  · simp only [readStderrPass_other count hs, List.suffix_rfl]

/-- On a stream that starts with a code, the loop takes the code at least. -/
theorem readStderrLoop_eats (count : UInt64) (h : StartsWithCode s) :
    ((readLoop readStderrPass count).run s).2.length < s.length := by
  obtain ⟨code, rest, rfl⟩ := h
  have heats := readStderrPass_eats count code rest
  have hle : ((readLoop readStderrPass count).run (wordBytes code.code ++ rest)).2 <:+ rest := by
    rcases hpass : (readStderrPass count).run (wordBytes code.code ++ rest) with ⟨(n | res) | o, s'⟩ <;> rw [hpass] at heats
    · have hloop : (readLoop readStderrPass count).run _ = (readLoop readStderrPass n).run s' :=
        iterate_inl readStderrPass_shrinks (by omega) hpass
      rw [hloop]
      exact (Forward.readLoop readStderrPass_forward n s').trans heats
    · have hloop : (readLoop readStderrPass count).run _ = (.ok res, s') :=
        iterate_inr readStderrPass_shrinks (by omega) hpass
      rwa [hloop]
    · have hloop : (readLoop readStderrPass count).run _ = (.stop o, s') :=
        iterate_stop readStderrPass_shrinks (by omega) hpass
      rwa [hloop]
  have := hle.length_le
  simp only [List.length_append, wordBytes_length]
  omega

/-- All the bytes in one chunk. -/
def onePiece (bytes : List UInt8) : List (List UInt8) := if bytes = [] then [] else [bytes]

theorem onePiece_nonempty (bytes : List UInt8) : ∀ c ∈ onePiece bytes, c ≠ [] := by
  intro c hc
  unfold onePiece at hc
  split at hc
  · cases hc
  · rename_i hne
    rwa [List.mem_singleton.mp hc]

theorem onePiece_flatten (bytes : List UInt8) : (onePiece bytes).flatten = bytes := by
  unfold onePiece
  split
  · rename_i h
    rw [h, List.flatten_nil]
  · simp

/-- One chunk has no boundary inside. -/
theorem codesWhole_onePiece (bytes : List UInt8) : CodesWhole (onePiece bytes) bytes := by
  rintro ms parts rest _ hbytes ⟨code, rest', hrest⟩ ⟨n, hlt, hlt'⟩
  have hlen : ((onePiece bytes).take n).flatten.length = 0 ∨ ((onePiece bytes).take n).flatten.length = bytes.length := by
    unfold onePiece
    split
    · simp
    · cases n <;> simp
  have hle : 8 ≤ rest.length := by simp [hrest]
  have htotal : bytes.length = parts.flatten.length + rest.length := by rw [hbytes, List.length_append]
  rw [onePiece_flatten] at hlt hlt'
  omega

/-- Reading the chunks gives what reading their bytes in one piece gives, and leaves the same bytes unread. -/
def SameReading {α : Type} (x : Rd WireError BufReader α) (chunks : List (List UInt8)) (h : ∀ c ∈ chunks, c ≠ []) : Prop :=
  (x.run (.new chunks h)).1 = (x.run (.new (onePiece chunks.flatten) (onePiece_nonempty _))).1 ∧
    (x.run (.new chunks h)).2.unread = (x.run (.new (onePiece chunks.flatten) (onePiece_nonempty _))).2.unread

/-- When no code is cut, the stderr loop and anything after it read as on the byte list. -/
theorem loop_follows {α : Type} {k : StderrResult → Rd WireError BufReader α} {k' : StderrResult → Rd WireError (List UInt8) α}
    (hk : ∀ res, Rel (Follows chunks) (k res) (k' res)) (h : Follows chunks r s) (hwhole : CodesWhole chunks s) :
    ∃ o r' s', (readStderrLoop >>= k).run r = (o, r') ∧ (readStderrLoop >>= k').run s = (o, s') ∧ Follows chunks r' s' := by
  rcases chunked_loop 0 h with ⟨_, o, r', s', hr, hs, h'⟩ | ⟨hnot, _⟩
  · have hr' : readStderrLoop.run r = (o, r') := hr
    have hs' : readStderrLoop.run s = (o, s') := hs
    cases o with
    | ok res =>
      rw [Rd.bind_ok hr', Rd.bind_ok hs']
      obtain ⟨r₁, hrun, h₁⟩ := (hk res).run h' rfl
      exact ⟨_, r₁, _, hrun, rfl, h₁⟩
    | stop o => exact ⟨.stop o, r', s', Rd.bind_stop hr', Rd.bind_stop hs', h'⟩
  · exact absurd hwhole hnot

/-- The stderr loop, with anything after it that does nothing where no code ended it. -/
theorem sameReading_iff {α : Type} {k : StderrResult → Rd WireError BufReader α}
    {k' : StderrResult → Rd WireError (List UInt8) α}
    (hk : ∀ chunks res, Rel (Follows chunks) (k res) (k' res)) (hfwd : ∀ res, Forward (k' res))
    (hnone : ∀ n, ∃ a, k ⟨n, none⟩ = pure a) (h : ∀ c ∈ chunks, c ≠ []) :
    SameReading (readStderrLoop >>= k) chunks h ↔ CodesWhole chunks chunks.flatten := by
  have hflat : ∀ {cs : List (List UInt8)} (hcs : ∀ c ∈ cs, c ≠ []), CodesWhole cs cs.flatten → ∃ o r s,
      (readStderrLoop >>= k).run (.new cs hcs) = (o, r) ∧ (readStderrLoop >>= k').run cs.flatten = (o, s) ∧ r.unread = s := by
    intro cs hcs hwhole
    obtain ⟨o, r, s, hr, hs, hfollows⟩ := loop_follows (hk cs) (follows_new hcs) hwhole
    exact ⟨o, r, s, hr, hs, hfollows.1⟩
  have hone := codesWhole_onePiece chunks.flatten
  obtain ⟨o, r₁, s₁, hr₁, hs₁, hleft₁⟩ := hflat (onePiece_nonempty chunks.flatten) (by rwa [onePiece_flatten])
  rw [onePiece_flatten] at hs₁
  rw [SameReading, hr₁]
  constructor
  · intro hsame
    rcases chunked_loop 0 (follows_new h) with ⟨hwhole, _⟩ | ⟨_, n, n', r', s', hr, hleft, hcode, hs⟩
    · exact hwhole
    · -- the loop over the chunks leaves the code it does not see
      obtain ⟨a, ha⟩ := hnone n
      have hrun : (readStderrLoop >>= k).run (.new chunks h) = (.ok a, r') := by
        have hloop : readStderrLoop.run (BufReader.new chunks h) = (.ok ⟨n, none⟩, r') := hr
        rw [Rd.bind_ok hloop, ha, Rd.run_pure]
      rw [hrun] at hsame
      have hlt := readStderrLoop_eats n' hcode
      rw [← hs] at hlt
      have hle : s₁.length ≤ ((readLoop readStderrPass 0).run chunks.flatten).2.length := by
        rcases hloop : (readLoop readStderrPass 0).run chunks.flatten with ⟨res | o, s⟩
        · rw [Rd.bind_ok (show readStderrLoop.run chunks.flatten = _ from hloop)] at hs₁
          exact ((hfwd res).of_run hs₁).length_le
        · rw [Rd.bind_stop (show readStderrLoop.run chunks.flatten = _ from hloop)] at hs₁
          cases hs₁
          exact Nat.le_refl _
      have hunread : s' = s₁ := by rw [← hleft, ← hleft₁]; exact hsame.2
      rw [hunread] at hlt
      omega
  · intro hwhole
    obtain ⟨o', r₂, s₂, hr₂, hs₂, hleft₂⟩ := hflat h hwhole
    cases hs₁.symm.trans hs₂
    rw [hr₂]
    exact ⟨rfl, hleft₂.trans hleft₁.symm⟩

/-- Both stderr readers read the chunks as they read one piece exactly when no code they
    come to is cut. -/
theorem fragmentation_iff (h : ∀ c ∈ chunks, c ≠ []) :
    SameReading readStderrLoop chunks h ∧ SameReading readStderrWithError chunks h ↔ CodesWhole chunks chunks.flatten := by
  have hloop : SameReading readStderrLoop chunks h ↔ CodesWhole chunks chunks.flatten := by
    rw [← sameReading_iff (fun _ res => Rel.pure res) (fun res => Forward.pure res) (fun n => ⟨⟨n, none⟩, rfl⟩) h, bind_pure]
  have herror : SameReading readStderrWithError chunks h ↔ CodesWhole chunks chunks.flatten := by
    have hinfo : ∀ cs, Rel (Follows cs) readErrorInfo readErrorInfo := by
      intro cs
      rw [readErrorInfo_eq, readErrorInfo_eq]
      exact (parse_rel (wirePrims_agree (delivers cs)) _).map _
    have hfwd : Forward (readErrorInfo : Rd _ (List UInt8) _) := by
      rw [readErrorInfo_eq]
      exact (parse_forward wirePrims_forward _).map _
    exact sameReading_iff (fun cs _ => Rel.ite ((hinfo cs).bind fun _ => Rel.pure _) (Rel.pure _))
      (fun _ => Forward.ite (hfwd.bind fun _ => Forward.pure _) (Forward.pure _)) (fun n => ⟨(⟨n, none⟩, none), rfl⟩) h
  rw [hloop, herror, and_self]

end

/-- The end of the messages and a result, in two chunks. -/
theorem fragmentation_words : SameReading readStderrLoop [wordBytes StderrCode.last.code, wordBytes 1] (by decide) ∧
    SameReading readStderrWithError [wordBytes StderrCode.last.code, wordBytes 1] (by decide) := by
  refine (fragmentation_iff (by decide)).mpr ?_
  rintro ms parts rest hms hs _ ⟨n, hlt, hlt'⟩
  cases hms with
  | nil =>
    obtain rfl : _ = rest := hs
    rcases n with _ | _ | n <;> simp at hlt hlt'
  | @cons m _ _ _ hm _ =>
    -- nothing comes before STDERR_LAST
    obtain ⟨hterm, bs, _, rfl⟩ := hm
    simp only [List.flatten_cons, List.append_assoc] at hs
    obtain ⟨hcode, _⟩ := code_word_inj hs
    rw [← hcode] at hterm
    cases hterm

/-- The code that ends the messages, cut in two. -/
theorem fragmentation_cut :
    ¬SameReading readStderrLoop [(wordBytes StderrCode.last.code).take 4, (wordBytes StderrCode.last.code).drop 4]
      (by decide) := by
  intro h
  have hne := h.1
  revert hne
  decide

end NixWire
