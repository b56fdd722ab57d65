/-
  NixWire.Served — reading off a live daemon what has come whole.

  A `LiveReader` serves the bytes that reached it (`LiveReader.serving`): it waits only where
  they end. So what can be parsed of them is parsed, by each of the parsers. The stderr loop
  also has to see its codes, in one buffer each (`stderr_served`).
-/

import NixWire.Base.Serve
import NixWire.Live

namespace NixWire

open Base

/-! ## The parsers -/

section

variable {R : Type} [BufRead R] {ρ : R → List UInt8 → Prop} (h : Serving ρ)

include h

theorem readU64_serves : Serves ρ readU64 readU64 := (h.exact _ 8).bind fun _ => Serves.pure _

theorem readBytes_serves : Serves ρ readBytes readBytes :=
  (readU64_serves h).bind fun _ => Serves.ite (Serves.fail _ _) <|
    (h.exact _ _).bind fun _ => Serves.ite ((h.exact _ _).bind fun _ => Serves.pure _) (Serves.pure _)

theorem readFramed_serves : Serves ρ readFramed readFramed :=
  h.readLoop (fun _ => (readU64_serves h).bind fun _ => Serves.ite (Serves.pure _) <| Serves.ite (Serves.fail _ _) <|
    (h.exact _ _).bind fun _ => Serves.pure _) []

theorem discard_serves (n : Nat) : Serves ρ (discard n) (discard n) :=
  h.readLoop (fun _ => Serves.ite ((h.exact _ _).bind fun _ => Serves.pure _) (Serves.pure _)) n

theorem skipFramed_serves : Serves ρ skipFramed skipFramed :=
  h.readLoop (fun _ => (readU64_serves h).bind fun _ => Serves.ite (Serves.pure _) <| Serves.ite (Serves.fail _ _) <|
    (discard_serves h _).bind fun _ => Serves.pure _) 0

theorem wirePrims_serve : (wirePrims : Prims WireError R).Related (fun {α} => @Serves WireError R (List UInt8) α ρ) wirePrims where
  word := readU64_serves h
  bytes := readBytes_serves h
  framed := readFramed_serves h
  blob := skipFramed_serves h
  reserve _ := Serves.ite (Serves.abort _ _) (Serves.pure _)
  badText := rfl

theorem skipStderrPayload_serves (code : StderrCode) : Serves ρ (skipStderrPayload code) (skipStderrPayload code) := by
  rw [skipStderrPayload_eq, skipStderrPayload_eq]
  exact (parse_serves (wirePrims_serve h) _).map _

theorem readErrorInfo_serves : Serves ρ readErrorInfo readErrorInfo := by
  rw [readErrorInfo_eq, readErrorInfo_eq]
  exact (parse_serves (wirePrims_serve h) _).map _

theorem readDaemonResult_serves (op : Op) (v : ProtocolVersion) :
    Serves ρ (readDaemonResult op v) (readDaemonResult op v) := by
  rw [readDaemonResult_eq, readDaemonResult_eq]
  exact (parse_serves (wirePrims_serve h) _).map _

theorem skipDaemonResult_serves (op : Op) (v : ProtocolVersion) :
    Serves ρ (skipDaemonResult op v) (skipDaemonResult op v) := by
  rw [skipDaemonResult_eq, skipDaemonResult_eq]
  exact (parse_serves (wirePrims_serve h) _).map _

theorem parseDaemonHandshake_serves (cv : ProtocolVersion) :
    Serves ρ (parseDaemonHandshake cv) (parseDaemonHandshake cv) := by
  rw [parseDaemonHandshake_eq, parseDaemonHandshake_eq]
  have hparse (f : Fmt) : Serves ρ (f.parse wirePrims) (f.parse wirePrims) := parse_serves (wirePrims_serve h) f
  refine (hparse .word).bind fun _ => (hparse .word).bind fun _ => Serves.ite (Serves.fail _ _) ?_
  exact (hparse _).bind fun _ => Serves.ite (Serves.fail _ _) (Serves.pure _)

end

/-- The stderr loop, where it comes to a terminal code on the bytes, does so over the reader
    if `whole` holds of them. -/
def ServesStderr {R : Type} [BufRead R] (ρ : R → List UInt8 → Prop) (whole : List UInt8 → Prop) : Prop :=
  ∀ {r : R} {s s' : List UInt8} {count : UInt64} {code : StderrCode}, ρ r s → whole s →
    readStderrLoop.run s = (.ok ⟨count, some code⟩, s') → ∃ r', readStderrLoop.run r = (.ok ⟨count, some code⟩, r') ∧ ρ r' s'

theorem BufReader.stderr_served (chunks : List (List UInt8)) : ServesStderr (Follows chunks) (CodesWhole chunks) := by
  intro r s s' count code h hwhole hs
  obtain ⟨o, r', s₁, hr, hs₁, h'⟩ := loop_follows (fun res => Rel.pure res) h hwhole
  rw [bind_pure] at hr hs₁
  cases hs.symm.trans hs₁
  exact ⟨r', hr, h'⟩

/-! ## The live reader -/

namespace LiveReader

variable {chunks : List (List UInt8)} {l : LiveReader} {s s' : List UInt8}

/-- A live reader of the chunks that has `s` of them left. -/
def Feeds (chunks : List (List UInt8)) (l : LiveReader) (s : List UInt8) : Prop := BufReader.Follows chunks l.reader s

theorem feeds_new (h : ∀ c ∈ chunks, c ≠ []) : Feeds chunks (new chunks h) chunks.flatten := BufReader.follows_new h

theorem wait_run {ε α : Type} {x : Rd ε BufReader α} (h : l.reader.unread ≠ []) :
    (wait x).run l = ((x.run l.reader).1, ⟨(x.run l.reader).2⟩) := by
  have hne : l.reader.unread.isEmpty = false := List.isEmpty_eq_false_iff.mpr h
  simp only [wait, hne, Bool.false_eq_true, if_false]

/-- Where enough has come, an exact read waits for nothing. -/
theorem readExactLoop_enough {ε : Type} (e : ε) (fuel : Nat) : ∀ {n : Nat} {l : LiveReader}, n ≤ l.reader.unread.length →
    (readExactLoop e fuel n).run l =
      (((readExactLoop e fuel n).run l.reader).1, ⟨((readExactLoop e fuel n).run l.reader).2⟩) := by
  induction fuel with
  | zero =>
    intro n l _
    cases n <;> rfl
  | succ fuel ih =>
    intro n l hn
    cases n with
    | zero => rfl
    | succ n =>
      have hne : l.reader.unread ≠ [] := by
        intro h
        rw [h] at hn
        cases hn
      let r' : BufReader := { l.reader.fill with buf := l.reader.fill.buf.drop (n + 1) }
      have hpoll : (BufRead.pollRead (n + 1) : Rd ε BufReader _).run l.reader = (.ok (l.reader.fill.buf.take (n + 1)), r') := rfl
      have hlive : (BufRead.pollRead (n + 1) : Rd ε LiveReader _).run l = (.ok (l.reader.fill.buf.take (n + 1)), ⟨r'⟩) :=
        wait_run hne
      have hleft : n + 1 - (l.reader.fill.buf.take (n + 1)).length ≤ r'.unread.length := by
        have hfill := congrArg List.length (BufReader.fill_unread l.reader)
        simp only [BufReader.unread, List.length_append, List.length_drop, List.length_take, r'] at hfill hn ⊢
        omega
      rw [readExactLoop, readExactLoop, Rd.bind_ok hpoll, Rd.bind_ok hlive]
      by_cases hgot : (l.reader.fill.buf.take (n + 1)).isEmpty = true
      · rw [if_pos hgot, if_pos hgot]
        rfl
      · rw [if_neg hgot, if_neg hgot]
        simp only [Rd.run_bind, @ih _ ⟨r'⟩ hleft]
        rcases (readExactLoop e fuel _).run r' with ⟨o, r''⟩
        cases o <;> rfl

theorem serving (chunks : List (List UInt8)) : Serving (Feeds chunks) where
  exact e n := by
    intro l s s' a h hs
    have hlen : n ≤ s.length := by
      rw [readExact_bytes] at hs
      by_contra hshort
      rw [if_neg hshort] at hs
      cases hs
    have hrun := @readExactLoop_enough _ e n n l (by rw [h.1]; exact hlen)
    obtain ⟨r', hr, h'⟩ := ((BufReader.delivers chunks).exact e n).run h hs
    have hr' : (readExactLoop e n n).run l.reader = (.ok a, r') := hr
    rw [hr'] at hrun
    exact ⟨⟨r'⟩, hrun, h'⟩
  size l s h := by
    rw [← h.1]
    exact Nat.le_refl _

theorem peekU64_run (h : l.reader.unread ≠ []) : peekU64.run l =
    (.ok (if 8 ≤ l.reader.fill.buf.length then some (wordOf (l.reader.fill.buf.take 8)) else none), ⟨l.reader.fill⟩) := by
  have hfill : (BufRead.fillBuf : Rd WireError LiveReader _).run l = (.ok l.reader.fill.buf, ⟨l.reader.fill⟩) := wait_run h
  have hpass : (peekPass ()).run l =
      (.ok (.inr (if 8 ≤ l.reader.fill.buf.length then some (wordOf (l.reader.fill.buf.take 8)) else none)),
        ⟨l.reader.fill⟩) := by
    rw [peekPass, Rd.bind_ok hfill]
    by_cases h : 8 ≤ l.reader.fill.buf.length
    · rw [if_pos h, if_pos h, Rd.run_pure]
    · rw [if_neg h, if_neg h, if_pos (show l.reader.fill.buf.length < 8 by omega), ite_self, Rd.run_pure]
  show (Rd.loop peekPass (BufRead.size l + 1) ()).run l = _
  rw [Rd.loop_succ, Rd.bind_ok hpass]
  rfl

/-- A pass that sees its code does what it does on the bytes. -/
theorem readStderrPass_seen {o : UInt64 ⊕ StderrResult} {count : UInt64} (h : Feeds chunks l s)
    (hseen : 8 ≤ l.reader.fill.buf.length) (hs : (readStderrPass count).run s = (.ok o, s')) :
    ∃ l', (readStderrPass count).run l = (.ok o, l') ∧ Feeds chunks l' s' := by
  have hle := h.fill.buffered.length_le
  have hne : l.reader.unread ≠ [] := by
    intro hnil
    rw [h.1] at hnil
    rw [hnil, List.length_nil] at hle
    omega
  have hword : l.reader.fill.buf.take 8 = s.take 8 := by
    conv_lhs => rw [List.prefix_iff_eq_take.mp h.fill.buffered]
    rw [List.take_take, Nat.min_eq_left hseen]
  have hpeek := peekU64_run hne
  rw [if_pos hseen, hword] at hpeek
  have hlist := peekU64_bytes s
  rw [if_pos (by omega)] at hlist
  have htake := h.fill.drop 8
  rw [Nat.min_eq_left hseen] at htake
  rw [readStderrPass, Rd.bind_ok hlist] at hs
  rw [readStderrPass, Rd.bind_ok hpeek]
  cases hcode : StderrCode.fromU64 (wordOf (s.take 8)) with
  | none =>
    simp only [hcode] at hs ⊢
    cases hs
    exact ⟨_, rfl, h.fill⟩
  | some code =>
    simp only [hcode] at hs ⊢
    have hconsume : (consume 8 : Rd WireError (List UInt8) Unit).run s = (.ok (), s.drop 8) := rfl
    have hlive : (consume 8 : Rd WireError LiveReader Unit).run ⟨l.reader.fill⟩ =
        (.ok (), ⟨{ l.reader.fill with buf := l.reader.fill.buf.drop 8 }⟩) := rfl
    rw [Rd.bind_ok hconsume] at hs
    rw [Rd.bind_ok hlive]
    exact (Serves.ite (Serves.pure _) ((skipStderrPayload_serves (serving chunks) code).bind fun _ => Serves.pure _)).run
      htake hs

theorem readStderrPass_shrinks : Rd.Shrinks BufRead.size 8 (readStderrPass (R := LiveReader)) := by
  intro count n l l' hrun
  have hlags := readStderrPass_lags (behind []) count l l.reader ⟨rfl, (List.append_nil _).symm⟩
  rw [hrun] at hlags
  rcases hlags with hwait | ⟨hsame, hbuf, hchunks⟩
  · cases hwait
  · have hsize := readStderrPass_chunked_shrinks count n l.reader _ (Prod.ext hsame.symm rfl)
    have hleft : ((readStderrPass count).run l.reader).2.unread = l'.reader.unread := by
      show _ ++ _ = _ ++ _
      rw [hbuf, hchunks, onePiece, if_pos rfl, List.append_nil]
    have hreader : BufRead.size ((readStderrPass count).run l.reader).2 = BufRead.size l' := congrArg List.length hleft
    rw [← hreader]
    exact hsize

/-- A code that is not cut is seen. -/
theorem seen_of_whole (h : Feeds chunks l s) (hwhole : CodesWhole chunks s) (hcode : StartsWithCode s) :
    8 ≤ l.reader.fill.buf.length := by
  have hlen : 8 ≤ s.length := by
    obtain ⟨code, rest, rfl⟩ := hcode
    simp
  by_contra hshort
  exact hwhole [] [] s .nil rfl hcode ((BufReader.Follows.cut_iff h hlen).mpr (by omega))

theorem stderrLoop_served {n : UInt64} {code : StderrCode} (count : UInt64) (h : Feeds chunks l s)
    (hwhole : CodesWhole chunks s) (hs : (readLoop readStderrPass count).run s = (.ok ⟨n, some code⟩, s')) :
    ∃ l', (readLoop readStderrPass count).run l = (.ok ⟨n, some code⟩, l') ∧ Feeds chunks l' s' := by
  induction hn : s.length using Nat.strongRecOn generalizing l s count with
  | ind len ih =>
    by_cases hcode : StartsWithCode s
    · have hseen := seen_of_whole h hwhole hcode
      have hlen := h.fill.buffered.length_le
      have hcut : ¬BufReader.Cut chunks (chunks.flatten.length - s.length) := fun hc => by
        have := (BufReader.Follows.cut_iff h (by omega)).mp hc
        omega
      rcases hpass : (readStderrPass count).run s with ⟨(m | res) | o, s₁⟩
      · obtain ⟨l₁, hl₁, h₁⟩ := readStderrPass_seen h hseen hpass
        have hlt : s₁.length + 8 ≤ s.length := NixWire.readStderrPass_shrinks _ _ _ _ hpass
        rw [show (readLoop readStderrPass count).run s = _ from
          iterate_inl NixWire.readStderrPass_shrinks (by omega) hpass] at hs
        obtain ⟨l', hl', h'⟩ := ih s₁.length (by omega) m h₁ ((codesWhole_step hcut hpass).mp hwhole) hs rfl
        exact ⟨l', (iterate_inl readStderrPass_shrinks (by omega) hl₁).trans hl', h'⟩
      · obtain ⟨l₁, hl₁, h₁⟩ := readStderrPass_seen h hseen hpass
        rw [show (readLoop readStderrPass count).run s = _ from
          iterate_inr NixWire.readStderrPass_shrinks (by omega) hpass] at hs
        cases hs
        exact ⟨l₁, iterate_inr readStderrPass_shrinks (by omega) hl₁, h₁⟩
      · rw [show (readLoop readStderrPass count).run s = _ from
          iterate_stop NixWire.readStderrPass_shrinks (by omega) hpass] at hs
        cases hs
    · -- no code: nothing terminal comes
      rw [show (readLoop readStderrPass count).run s = _ from
        iterate_inr NixWire.readStderrPass_shrinks (by omega) (readStderrPass_other count hcode)] at hs
      cases hs

theorem stderr_served (chunks : List (List UInt8)) : ServesStderr (Feeds chunks) (CodesWhole chunks) :=
  fun h hwhole hs => stderrLoop_served 0 h hwhole hs

end LiveReader

end NixWire
