/-
  NixWire.Base.Buffered — a buffered writer (`std::io::BufWriter`) over a file that fills up.

  The file takes `room` more bytes and then no others; a write of more takes what fits and
  fails. The writer keeps what the file did not take of its buffer, but not of data that
  goes past the buffer. All the same, what is in the file is the front of what was to be
  written, whichever writes failed, and as much of it as there was room for
  (`Holds.flush_disk`): the writer loses bytes only when the file takes no more.
-/

import Mathlib.Data.List.Basic

namespace NixWire.Base

structure BufFile where
  disk : List UInt8
  /-- How much more the file takes. -/
  room : Nat
  buf : List UInt8
  deriving DecidableEq, Repr

namespace BufFile

def create (room : Nat) : BufFile := ⟨[], room, []⟩

/-- `write_all` on the file, past the buffer. -/
def put (w : BufFile) (bs : List UInt8) : BufFile × Bool :=
  ({ w with disk := w.disk ++ bs.take w.room, room := w.room - bs.length }, decide (bs.length ≤ w.room))

/-- `flush_buf`: what the file does not take stays in the buffer. -/
def flush (w : BufFile) : BufFile × Bool :=
  ({ disk := w.disk ++ w.buf.take w.room, room := w.room - w.buf.length, buf := w.buf.drop w.room },
    decide (w.buf.length ≤ w.room))

/-- `write_all_cold`, the buffer flushed if it had to be. -/
def writePast (cap : Nat) (w : BufFile) (bs : List UInt8) : BufFile × Bool :=
  if cap ≤ bs.length then w.put bs else ({ w with buf := w.buf ++ bs }, true)

/-- `write_all`, with a buffer of `cap` bytes. -/
def writeAll (cap : Nat) (w : BufFile) (bs : List UInt8) : BufFile × Bool :=
  if bs.length < cap - w.buf.length then ({ w with buf := w.buf ++ bs }, true)
  else if cap - w.buf.length < bs.length then
    match w.flush with
    | (w', true) => w'.writePast cap bs
    | (w', false) => (w', false)
  else w.writePast cap bs

/-- One after the other, until one fails. -/
def writePieces (cap : Nat) : BufFile → List (List UInt8) → BufFile × Bool
  | w, [] => (w, true)
  | w, p :: ps => match w.writeAll cap p with
    | (w', true) => writePieces cap w' ps
    | (w', false) => (w', false)

/-! ## What is written -/

/-- Of a stream to be written, all is in the file and the buffer; or the file, with room for
    `n` bytes, is full and has the front of it. -/
structure Holds (n : Nat) (stream : List UInt8) (w : BufFile) : Prop where
  used : w.disk.length + w.room = n
  held : w.disk ++ w.buf = stream ∨ w.room = 0 ∧ w.disk <+: stream

variable {n cap : Nat} {stream bs : List UInt8} {w : BufFile}

/-- At any time the file has the front of the stream. -/
theorem Holds.disk_front (h : Holds n stream w) : w.disk <+: stream := by
  rcases h.held with hall | ⟨-, hfront⟩
  · rw [← hall]
    exact List.prefix_append _ _
  · exact hfront

/-- Of a full file, whatever else was to be written. -/
theorem Holds.full (h : Holds n stream w) (hroom : w.room = 0) (bs : List UInt8) : Holds n (stream ++ bs) w :=
  ⟨h.used, Or.inr ⟨hroom, h.disk_front.trans (List.prefix_append _ _)⟩⟩

theorem Holds.take (h : Holds n stream w) (hroom : w.room = 0) : w.disk = stream.take n := by
  have hlen := h.used
  rw [hroom, Nat.add_zero] at hlen
  rw [← hlen]
  exact List.prefix_iff_eq_take.mp h.disk_front

theorem Holds.flush (h : Holds n stream w) : Holds n stream w.flush.1 := by
  have hused := h.used
  refine ⟨?_, ?_⟩
  · simp only [BufFile.flush, List.length_append, List.length_take]
    omega
  · rcases h.held with hall | ⟨hroom, hfront⟩
    · left
      simp only [BufFile.flush, List.append_assoc, List.take_append_drop]
      exact hall
    · right
      simp only [BufFile.flush, hroom, Nat.zero_sub, List.take_zero, List.append_nil]
      exact ⟨trivial, hfront⟩

/-- A flush that fails leaves no room. -/
theorem flush_fails (h : w.flush.2 = false) : w.flush.1.room = 0 := by
  have hlong : ¬w.buf.length ≤ w.room := of_decide_eq_false h
  show w.room - w.buf.length = 0
  omega

theorem flush_empties (h : w.flush.2 = true) : w.flush.1.buf = [] := by
  have hfits : w.buf.length ≤ w.room := of_decide_eq_true h
  exact List.drop_eq_nil_of_le hfits

/-- After a flush the file has as much of the stream as there was room for. -/
theorem Holds.flush_disk (h : Holds n stream w) : w.flush.1.disk = stream.take n := by
  have hflush := h.flush
  cases hok : w.flush.2 with
  | false => exact hflush.take (flush_fails hok)
  | true =>
    rcases hflush.held with hall | ⟨hroom, -⟩
    · rw [flush_empties hok, List.append_nil] at hall
      have hused := hflush.used
      rw [hall] at hused ⊢
      rw [List.take_of_length_le (by omega)]
    · exact hflush.take hroom

/-- Writing past an empty buffer, or into one with space. -/
theorem Holds.writePast (h : Holds n stream w) (hspace : w.buf = [] ∨ bs.length < cap) :
    Holds n (stream ++ bs) (w.writePast cap bs).1 ∧ ((w.writePast cap bs).2 = false → (w.writePast cap bs).1.room = 0) := by
  have hused := h.used
  unfold BufFile.writePast
  by_cases hcap : cap ≤ bs.length
  · rw [if_pos hcap]
    have hbuf : w.buf = [] := hspace.resolve_right (by omega)
    refine ⟨⟨?_, ?_⟩, fun hfails => ?_⟩
    · simp only [put, List.length_append, List.length_take]
      omega
    · rcases h.held with hall | ⟨hroom, hfront⟩
      · rw [hbuf, List.append_nil] at hall
        by_cases hfits : bs.length ≤ w.room
        · left
          simp only [put, hbuf, hall, List.append_nil, List.take_of_length_le hfits]
        · right
          simp only [put, hall]
          exact ⟨by omega, (List.prefix_append_right_inj _).mpr (List.take_prefix _ _)⟩
      · right
        simp only [put, hroom, Nat.zero_sub, List.take_zero, List.append_nil]
        exact ⟨trivial, hfront.trans (List.prefix_append _ _)⟩
    · have hlong : ¬bs.length ≤ w.room := of_decide_eq_false hfails
      show w.room - bs.length = 0
      omega
  · rw [if_neg hcap]
    refine ⟨⟨hused, ?_⟩, fun hfails => by cases hfails⟩
    rcases h.held with hall | ⟨hroom, hfront⟩
    · left
      rw [← hall, List.append_assoc]
    · exact Or.inr ⟨hroom, hfront.trans (List.prefix_append _ _)⟩

/-- Whether a write fails or not, the writer holds the stream with what was to be written. -/
theorem Holds.writeAll (h : Holds n stream w) (hcap : 0 < cap) (bs : List UInt8) :
    Holds n (stream ++ bs) (w.writeAll cap bs).1 ∧ ((w.writeAll cap bs).2 = false → (w.writeAll cap bs).1.room = 0) := by
  unfold BufFile.writeAll
  by_cases hshort : bs.length < cap - w.buf.length
  · rw [if_pos hshort]
    have hspace : w.buf = [] ∨ bs.length < cap := Or.inr (by omega)
    have hfits := h.writePast hspace
    unfold BufFile.writePast at hfits
    rw [if_neg (by omega)] at hfits
    exact hfits
  rw [if_neg hshort]
  by_cases hlong : cap - w.buf.length < bs.length
  · rw [if_pos hlong]
    have hflush := h.flush
    rcases hrun : w.flush with ⟨w', _ | _⟩
    · -- the buffer's bytes fill the file
      have hroom : w'.room = 0 := by
        have hfails := @flush_fails w (by rw [hrun])
        rwa [hrun] at hfails
      rw [hrun] at hflush
      exact ⟨hflush.full hroom bs, fun _ => hroom⟩
    · have hempty := @flush_empties w (by rw [hrun])
      rw [hrun] at hflush hempty
      exact hflush.writePast (Or.inl hempty)
  · rw [if_neg hlong]
    refine h.writePast ?_
    by_cases hbuf : w.buf = []
    · exact Or.inl hbuf
    · have hpos : 0 < w.buf.length := List.length_pos_iff.mpr hbuf
      by_cases hbs : bs.length < cap
      · exact Or.inr hbs
      · omega

/-- Pieces whose writing stops at the first that fails. -/
theorem Holds.writePieces (h : Holds n stream w) (hcap : 0 < cap) (ps : List (List UInt8)) :
    Holds n (stream ++ ps.flatten) (w.writePieces cap ps).1 := by
  induction ps generalizing w stream with
  | nil => simpa [BufFile.writePieces] using h
  | cons p ps ih =>
    obtain ⟨hnext, hfull⟩ := h.writeAll hcap p
    rw [List.flatten_cons, ← List.append_assoc, BufFile.writePieces]
    rcases hrun : w.writeAll cap p with ⟨w', _ | _⟩
    · rw [hrun] at hnext hfull
      exact hnext.full (hfull rfl) _
    · rw [hrun] at hnext
      exact ih hnext

end BufFile

end NixWire.Base
