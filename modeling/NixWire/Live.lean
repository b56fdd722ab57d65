/-
  NixWire.Live — reading what a live daemon has sent so far.

  A `LiveReader` is a `BufReader` that waits where its chunks end. On the chunks that have
  come, a computation waits or ends as it does when the rest follows in one piece
  (`LiveReader.behind`); and where no stderr code is cut, it then ends as on the plain bytes.
-/

import NixWire.Base.Lag
import NixWire.Chunked
import NixWire.Negotiation
import NixWire.Responses

namespace NixWire

open Base

/-- A buffer over a socket that stays open. -/
structure LiveReader where
  reader : BufReader

namespace LiveReader

def new (chunks : List (List UInt8)) (nonempty : ∀ c ∈ chunks, c ≠ []) : LiveReader := ⟨.new chunks nonempty⟩

/-- Read, or wait when nothing has come. -/
def wait {ε α : Type} (x : Rd ε BufReader α) : Rd ε LiveReader α := ⟨fun l =>
  if l.reader.unread.isEmpty then (.stop .hang, l)
  else ((x.run l.reader).1, ⟨(x.run l.reader).2⟩)⟩

instance : BufRead LiveReader where
  pollRead n := wait (BufRead.pollRead n)
  fillBuf := wait BufRead.fillBuf
  consume n l := ⟨BufRead.consume n l.reader⟩
  size l := BufRead.size l.reader

/-- A reader to which `more` is still to come, in one piece. -/
def Reaches (more : List UInt8) (l : LiveReader) (r : BufReader) : Prop :=
  r.buf = l.reader.buf ∧ r.chunks = l.reader.chunks ++ onePiece more

variable {more : List UInt8}

theorem Reaches.fill {l : LiveReader} {r : BufReader} (h : Reaches more l r) (hne : l.reader.unread ≠ []) :
    Reaches more ⟨l.reader.fill⟩ r.fill := by
  obtain ⟨⟨buf, chunks, hchunks⟩⟩ := l
  obtain ⟨buf', chunks', hchunks'⟩ := r
  obtain ⟨hbuf, hmore⟩ := h
  dsimp only at hbuf hmore
  subst hbuf hmore
  cases buf' with
  | cons b buf => exact ⟨rfl, rfl⟩
  | nil =>
    cases chunks with
    | nil => exact absurd rfl hne
    | cons c chunks => exact ⟨rfl, rfl⟩

theorem wait_lags {ε α : Type} {x : Rd ε BufReader α} (hx : ∀ l r, Reaches more l r → l.reader.unread ≠ [] →
      (x.run l.reader).1 = (x.run r).1 ∧ Reaches more ⟨(x.run l.reader).2⟩ (x.run r).2) : Lags (Reaches more) (wait x) x := by
  intro l r h
  by_cases hempty : l.reader.unread = []
  · left
    simp only [wait, hempty, List.isEmpty_nil, if_true]
  · right
    have hne : l.reader.unread.isEmpty = false := List.isEmpty_eq_false_iff.mpr hempty
    simp only [wait, hne, Bool.false_eq_true, if_false]
    exact hx l r h hempty

theorem behind (more : List UInt8) : Behind (Reaches more) where
  poll n := wait_lags fun l r h hne => by
    obtain ⟨hbuf, hchunks⟩ := h.fill hne
    exact ⟨congrArg (fun buf : List UInt8 => Res.ok (buf.take n)) hbuf.symm, congrArg (List.drop n) hbuf, hchunks⟩
  fill := wait_lags fun l r h hne => ⟨congrArg Res.ok (h.fill hne).1.symm, h.fill hne⟩
  consume n h := ⟨congrArg (List.drop n) h.1, h.2⟩
  size l r h := by
    show (l.reader.buf ++ l.reader.chunks.flatten).length ≤ (r.buf ++ r.chunks.flatten).length
    rw [h.1, h.2]
    simp only [List.length_append, List.flatten_append]
    omega

end LiveReader

/-! ## The parsers -/

section

variable {R S : Type} [BufRead R] [BufRead S] {ρ : R → S → Prop} (h : Behind ρ)

include h

theorem readU64_lags : Lags ρ readU64 readU64 := (h.exact _ 8).bind fun _ => Lags.pure _

theorem readBytes_lags : Lags ρ readBytes readBytes :=
  (readU64_lags h).bind fun _ => Lags.ite (Lags.fail _) <|
    (h.exact _ _).bind fun _ => Lags.ite ((h.exact _ _).bind fun _ => Lags.pure _) (Lags.pure _)

theorem readFramed_lags : Lags ρ readFramed readFramed :=
  h.readLoop (fun _ => (readU64_lags h).bind fun _ => Lags.ite (Lags.pure _) <| Lags.ite (Lags.fail _) <|
    (h.exact _ _).bind fun _ => Lags.pure _) []

theorem discard_lags (n : Nat) : Lags ρ (discard n) (discard n) :=
  h.readLoop (fun _ => Lags.ite ((h.exact _ _).bind fun _ => Lags.pure _) (Lags.pure _)) n

theorem skipFramed_lags : Lags ρ skipFramed skipFramed :=
  h.readLoop (fun _ => (readU64_lags h).bind fun _ => Lags.ite (Lags.pure _) <| Lags.ite (Lags.fail _) <|
    (discard_lags h _).bind fun _ => Lags.pure _) 0

theorem wirePrims_lag : (wirePrims : Prims WireError R).Related (fun {α} => @Lags WireError R S α ρ) wirePrims where
  word := readU64_lags h
  bytes := readBytes_lags h
  framed := readFramed_lags h
  blob := skipFramed_lags h
  reserve _ := Lags.ite (Lags.abort _) (Lags.pure _)
  badText := rfl

theorem peekU64_lags : Lags ρ peekU64 peekU64 :=
  h.readLoop (fun _ => h.fill.bind fun _ => Lags.ite (Lags.pure _) (Lags.ite (Lags.pure _) (Lags.ite (Lags.pure _)
    (Lags.pure _)))) ()

theorem consume_lags (n : Nat) : Lags ρ (consume n) (consume n) := fun _ _ hrs => Or.inr ⟨rfl, h.consume n hrs⟩

theorem skipStderrPayload_lags (code : StderrCode) : Lags ρ (skipStderrPayload code) (skipStderrPayload code) := by
  rw [skipStderrPayload_eq, skipStderrPayload_eq]
  exact (parse_lags (wirePrims_lag h) _).map _

theorem readErrorInfo_lags : Lags ρ readErrorInfo readErrorInfo := by
  rw [readErrorInfo_eq, readErrorInfo_eq]
  exact (parse_lags (wirePrims_lag h) _).map _

theorem readDaemonResult_lags (op : Op) (v : ProtocolVersion) : Lags ρ (readDaemonResult op v) (readDaemonResult op v) := by
  rw [readDaemonResult_eq, readDaemonResult_eq]
  exact (parse_lags (wirePrims_lag h) _).map _

theorem readStderrPass_lags (count : UInt64) : Lags ρ (readStderrPass count) (readStderrPass count) := by
  refine (peekU64_lags h).bind fun peeked => ?_
  cases peeked with
  | none => exact Lags.pure _
  | some w =>
    dsimp only
    cases StderrCode.fromU64 w with
    | none => exact Lags.pure _
    | some code =>
      exact (consume_lags h 8).bind fun _ => Lags.ite (Lags.pure _) ((skipStderrPayload_lags h code).bind fun _ => Lags.pure _)

theorem readStderrWithError_lags : Lags ρ readStderrWithError readStderrWithError :=
  (h.readLoop (readStderrPass_lags h) 0).bind fun _ =>
    Lags.ite ((readErrorInfo_lags h).bind fun _ => Lags.pure _) (Lags.pure _)

theorem parseDaemonHandshake_lags (cv : ProtocolVersion) : Lags ρ (parseDaemonHandshake cv) (parseDaemonHandshake cv) := by
  rw [parseDaemonHandshake_eq, parseDaemonHandshake_eq]
  have hparse (f : Fmt) : Lags ρ (f.parse wirePrims) (f.parse wirePrims) := parse_lags (wirePrims_lag h) f
  refine (hparse .word).bind fun _ => (hparse .word).bind fun _ => Lags.ite (Lags.fail _) ?_
  exact (hparse _).bind fun _ => Lags.ite (Lags.fail _) (Lags.pure _)

end

end NixWire
