/-
  NixWire.Mirror — every parser runs on a `MemReader` as it does on the bytes it has left.

  For a reader that mirrors a byte list, each function of `Protocol` and `Decompile` is
  related to itself over the list (`Rel`): same outcome, and related streams afterwards.
  `decompile_rel` with `mem_runs` reads a run of `decompileStreams` off the run on the
  plain bytes.
-/

import NixWire.Layouts
import NixWire.Decompile

namespace NixWire

open Base

/-! ## Peeking on a byte list -/

theorem peekPass_bytes (s : List UInt8) : (peekPass ()).run s =
    if 8 ≤ s.length then (.ok (.inr (some (wordOf (s.take 8)))), s) else (.ok (.inr none), s) := by
  have hfill : (BufRead.fillBuf : Rd WireError (List UInt8) _).run s = (.ok s, s) := rfl
  rw [peekPass, Rd.bind_ok hfill]
  by_cases h : 8 ≤ s.length
  · rw [if_pos h, if_pos h, Rd.run_pure]
  · rw [if_neg h, if_neg h, if_pos (show s.length < 8 by omega), ite_self, Rd.run_pure]

theorem peekPass_shrinks : Rd.Shrinks BufRead.size 1 (peekPass (R := List UInt8)) := by
  intro b b' s s' h
  rw [peekPass_bytes] at h
  split at h <;> cases h

theorem peekU64_bytes (s : List UInt8) : peekU64.run s =
    if 8 ≤ s.length then (.ok (some (wordOf (s.take 8))), s) else (.ok none, s) := by
  have hpass := peekPass_bytes s
  split at hpass
  · rename_i h
    rw [if_pos h]
    exact iterate_inr peekPass_shrinks (by omega) hpass
  · rename_i h
    rw [if_neg h]
    exact iterate_inr peekPass_shrinks (by omega) hpass

theorem peekU64_word (w : UInt64) (rest : List UInt8) :
    peekU64.run (wordBytes w ++ rest) = (.ok (some w), wordBytes w ++ rest) := by
  have htake : (wordBytes w ++ rest).take 8 = wordBytes w := List.take_left' (wordBytes_length w)
  rw [peekU64_bytes, if_pos (by simp), htake, word_bytes]

theorem peekU64_some {s s' : List UInt8} {w : UInt64} (h : peekU64.run s = (.ok (some w), s')) :
    s' = s ∧ ∃ rest, s = wordBytes w ++ rest := by
  rw [peekU64_bytes] at h
  split at h
  · rename_i hlen
    cases h
    refine ⟨rfl, s.drop 8, ?_⟩
    rw [bytes_word (by simp; omega), List.take_append_drop]
  · cases h

theorem peekU64_none {s s' : List UInt8} (h : peekU64.run s = (.ok none, s')) : s' = s ∧ s.length < 8 := by
  rw [peekU64_bytes] at h
  split at h
  · cases h
  · rename_i hlen
    cases h
    exact ⟨rfl, Nat.not_le.mp hlen⟩

theorem peekU64_not_stop {s s' : List UInt8} {o : Stop WireError} : peekU64.run s ≠ (.stop o, s') := by
  rw [peekU64_bytes]
  split <;> simp

theorem consume_word (w : UInt64) (rest : List UInt8) : (consume 8).run (wordBytes w ++ rest) = (.ok (), rest) := by
  show ((.ok () : Res WireError Unit), (wordBytes w ++ rest).drop 8) = _
  rw [List.drop_left' (wordBytes_length w)]

/-! ## The parsers over a mirroring reader -/

section

variable {R : Type} [BufRead R] {ρ : R → List UInt8 → Prop} (m : Mirrors ρ)

include m

theorem fmt_rel (f : Fmt) : Rel ρ (f.parse wirePrims) (f.parse wirePrims) := parse_rel (wirePrims_agree m.toDelivers) f

theorem layout_rel {α : Type} (l : Layout α) : Rel ρ (l.parse wirePrims) (l.parse wirePrims) := (fmt_rel m l.fmt).map l.of

theorem peekU64_rel : Rel ρ peekU64 peekU64 :=
  m.readLoop (fun _ => m.fillBuf.bind fun _ => Rel.ite (Rel.pure _) (Rel.ite (Rel.pure _) (Rel.ite (Rel.pure _) (Rel.pure _)))) ()

theorem readOpArgs_rel (op : Op) (v : ProtocolVersion) : Rel ρ (readOpArgs op v) (readOpArgs op v) := by
  rw [readOpArgs_eq, readOpArgs_eq]
  exact layout_rel m _

theorem skipOpArgs_rel (op : Op) (v : ProtocolVersion) : Rel ρ (skipOpArgs op v) (skipOpArgs op v) := by
  rw [skipOpArgs_eq, skipOpArgs_eq]
  exact layout_rel m _

theorem readDaemonResult_rel (op : Op) (v : ProtocolVersion) : Rel ρ (readDaemonResult op v) (readDaemonResult op v) := by
  rw [readDaemonResult_eq, readDaemonResult_eq]
  exact layout_rel m _

theorem skipDaemonResult_rel (op : Op) (v : ProtocolVersion) : Rel ρ (skipDaemonResult op v) (skipDaemonResult op v) := by
  rw [skipDaemonResult_eq, skipDaemonResult_eq]
  exact (fmt_rel m _).map _

theorem skipStderrPayload_rel (code : StderrCode) : Rel ρ (skipStderrPayload code) (skipStderrPayload code) := by
  rw [skipStderrPayload_eq, skipStderrPayload_eq]
  exact (fmt_rel m _).map _

theorem readErrorInfo_rel : Rel ρ readErrorInfo readErrorInfo := by
  rw [readErrorInfo_eq, readErrorInfo_eq]
  exact layout_rel m _

/-- A pass takes a code off the stream only after it has seen all its bytes. -/
theorem readStderrPass_rel (count : UInt64) : Rel ρ (readStderrPass count) (readStderrPass count) := by
  intro r s h
  refine (peekU64_rel m).bind_at h fun o r' s' _ hs h' => ?_
  cases o with
  | none => exact ⟨rfl, h'⟩
  | some peeked =>
    simp only
    cases hcode : StderrCode.fromU64 peeked with
    | none => exact ⟨rfl, h'⟩
    | some code =>
      obtain ⟨rfl, rest, hword⟩ := peekU64_some hs
      have hlen : 8 ≤ s'.length := by rw [hword]; simp
      have hrest : Rel ρ (if code.isTerminal then pure (Sum.inr ⟨count + 1, some code⟩) else do
          let _ ← skipStderrPayload code
          return Sum.inl (count + 1) : Rd WireError R (UInt64 ⊕ StderrResult)) _ :=
        Rel.ite (Rel.pure _) ((skipStderrPayload_rel m code).bind fun _ => Rel.pure _)
      exact hrest _ _ (m.consume h' hlen)

theorem readStderrLoop_rel : Rel ρ readStderrLoop readStderrLoop := m.readLoop (readStderrPass_rel m) 0

theorem readStderrWithError_rel : Rel ρ readStderrWithError readStderrWithError :=
  (readStderrLoop_rel m).bind fun _ =>
    Rel.ite ((readErrorInfo_rel m).bind fun _ => Rel.pure _) (Rel.pure _)

theorem readOpCall_rel (op : Option Op) (v : ProtocolVersion) : Rel ρ (readOpCall op v) (readOpCall op v) := by
  cases op with
  | none => exact Rel.pure _
  | some o =>
    refine (readOpArgs_rel m o v).bind fun call => ?_
    cases call with
    | some call => exact Rel.pure _
    | none =>
      refine (skipOpArgs_rel m o v).attempt.bind fun _ => ?_
      exact (Rel.ite ((fmt_rel m .blob).map some) (Rel.pure none)).bind fun _ => Rel.pure _

theorem readResult_rel (op : Option Op) (v : ProtocolVersion) (terminal : Option StderrCode) :
    Rel ρ (readResult op v terminal) (readResult op v terminal) := by
  refine Rel.ite ?_ (Rel.pure _)
  cases op with
  | none => exact Rel.pure _
  | some o => exact (readDaemonResult_rel m o v).attempt.bind fun _ => Rel.pure _

end

/-! ## The two streams -/

section

variable {C D : Type} [BufRead C] [BufRead D] {ρ : C → List UInt8 → Prop} {σ : D → List UInt8 → Prop}
variable (m : Mirrors ρ) (n : Mirrors σ)

include m n

theorem parseHandshake_rel : Rel (Both ρ σ) parseHandshake parseHandshake := by
  have hc : Rel (Both ρ σ) (client readU64) (client readU64) := (readU64_rel m.toDelivers).onFst
  have hd : Rel (Both ρ σ) (daemon readU64) (daemon readU64) := (readU64_rel n.toDelivers).onSnd
  have haff : Rel ρ readCpuAffinity readCpuAffinity :=
    (readU64_rel m.toDelivers).bind fun _ => Rel.ite ((readU64_rel m.toDelivers).bind fun _ => Rel.pure _) (Rel.pure _)
  refine hc.bind fun _ => hc.bind fun _ => hd.bind fun _ => hd.bind fun _ => ?_
  refine Rel.ite (Rel.fail _) (Rel.ite (Rel.fail _) ?_)
  refine (Rel.ite (fmt_rel m setFmt).onFst (Rel.pure _)).bind fun _ => ?_
  refine (Rel.ite (fmt_rel n setFmt).onSnd (Rel.pure _)).bind fun _ => ?_
  refine (Rel.ite haff.onFst (Rel.pure _)).bind fun _ => ?_
  refine (Rel.ite (hc.map some) (Rel.pure _)).bind fun _ => ?_
  refine (Rel.ite ((fmt_rel n .str).onSnd.map some) (Rel.pure _)).bind fun _ => ?_
  refine (Rel.ite (hd.map some) (Rel.pure _)).bind fun _ => ?_
  exact hd.bind fun _ => Rel.ite (Rel.fail _) (Rel.pure _)

theorem decompileOp_rel {τ : Type} (v : ProtocolVersion) (opCode : UInt64) (t : Option τ) :
    Rel (Both ρ σ) (decompileOp v opCode t) (decompileOp v opCode t) :=
  (readOpCall_rel m _ v).onFst.bind fun _ => (readStderrWithError_rel n).onSnd.bind fun _ =>
    (readResult_rel n _ v _).onSnd.bind fun _ => Rel.pure _

theorem decompilePass_rel {τ : Type} {now : Rd WireError C (Option τ)} {now' : Rd WireError (List UInt8) (Option τ)}
    (hnow : Rel ρ now now') (hstay : ∀ s, (now'.run s).2 = s) (v : ProtocolVersion) (entries : List (Entry τ)) :
    Rel (Both ρ σ) (decompilePass (D := D) now v entries) (decompilePass now' v entries) := by
  intro r s h
  have hpeek : Rel (Both ρ σ) (client (D := D) peekU64) (client peekU64) := (peekU64_rel m).onFst
  refine hpeek.bind_at h fun o r₁ s₁ _ hs h₁ => ?_
  cases o with
  | none => exact ⟨rfl, h₁⟩
  | some opCode =>
    obtain ⟨hc, _⟩ := Rd.onFst_iff.mp hs
    obtain ⟨hc₁, rest, hword⟩ := peekU64_some hc
    have hlen : 8 ≤ s₁.1.length := by rw [hc₁, hword]; simp
    refine (Rel.onFst hnow : Rel (Both ρ σ) (client now) (client now')).bind_at h₁ fun t r₂ s₂ _ hs₂ h₂ => ?_
    obtain ⟨hc₂, _⟩ := Rd.onFst_iff.mp hs₂
    have hsame : s₂.1 = s₁.1 := by rw [← hstay s₁.1, hc₂]
    have hconsumed : Both ρ σ (BufRead.consume 8 r₂.1, r₂.2) (BufRead.consume 8 s₂.1, s₂.2) :=
      ⟨m.consume h₂.1 (hsame ▸ hlen), h₂.2⟩
    have hrest : Rel (Both ρ σ) (decompileOp v opCode t >>= fun entry => pure (Sum.inl (entries ++ [entry])) :
        Rd WireError (C × D) (List (Entry τ) ⊕ List (Entry τ))) _ :=
      (decompileOp_rel m n v opCode t).bind fun _ => Rel.pure _
    exact hrest _ _ hconsumed

theorem decompileWith_rel {τ : Type} {now : Rd WireError C (Option τ)} {now' : Rd WireError (List UInt8) (Option τ)}
    (hnow : Rel ρ now now') (hstay : ∀ s, (now'.run s).2 = s) :
    Rel (Both ρ σ) (decompileWith (D := D) now) (decompileWith now') := by
  refine (parseHandshake_rel m n).bind fun info => Rel.bind ?_ fun entries => Rel.pure _
  intro r s h
  have hsize : clientSize r = clientSize s := m.size r.1 s.1 h.1
  simp only [Rd.iterate, hsize]
  exact Rel.loop (decompilePass_rel m n hnow hstay info.negotiatedVersion) _ [] r s h

end

/-! ## Unpacking from memory -/

/-- A run from the start of `data`, read off the run on the bytes. -/
theorem mem_run_iff {ε α : Type} {data : List UInt8} {x : Rd ε MemReader α} {y : Rd ε (List UInt8) α}
    (h : Rel (MemReader.Left data) x y) {o : Res ε α} {m : MemReader} :
    x.run (.new data) = (o, m) ↔ ∃ s, y.run data = (o, s) ∧ MemReader.Left data m s := by
  constructor
  · exact h.followed (MemReader.left_new data)
  · intro hy
    obtain ⟨s, hy, hm⟩ := hy
    obtain ⟨m', hx, hm'⟩ := h.run (MemReader.left_new data) hy
    rw [hx, hm.eq hm']

/-- A run from the starts of two byte strings, read off the run on the bytes. -/
theorem mem_runs {ε α : Type} {clientBytes daemonBytes : List UInt8} {x : Rd ε (MemReader × MemReader) α}
    {y : Rd ε (List UInt8 × List UInt8) α} (h : Rel (Both (MemReader.Left clientBytes) (MemReader.Left daemonBytes)) x y)
    {o : Res ε α} {m : MemReader × MemReader} (hx : x.run (.new clientBytes, .new daemonBytes) = (o, m)) :
    ∃ q, y.run (clientBytes, daemonBytes) = (o, q) ∧
      Both (MemReader.Left clientBytes) (MemReader.Left daemonBytes) m q :=
  h.followed ⟨MemReader.left_new clientBytes, MemReader.left_new daemonBytes⟩ hx

/-- The timestamp at the position where `s` is what is left of the client's `total` bytes. -/
def timestampLeft {τ : Type} (timestamps : List (Nat × τ)) (total : Nat) : Rd WireError (List UInt8) (Option τ) :=
  ⟨fun s => (lookupTimestampMs timestamps (total - s.length)).run s⟩

/-- The lookup always finds an index inside the slice. -/
theorem lookupTimestampMs_pure {τ : Type} (timestamps : List (Nat × τ)) (byteOffset : Nat) :
    ∃ t, ∀ {R : Type}, (lookupTimestampMs timestamps byteOffset : Rd WireError R _) = pure t := by
  have hat : ∀ i < timestamps.length, ∃ t, ∀ {R : Type}, (timestampAt timestamps i : Rd WireError R _) = pure t := by
    intro i hi
    refine ⟨some timestamps[i].2, ?_⟩
    intro R
    simp only [timestampAt, List.getElem?_eq_getElem hi]
  by_cases he : timestamps = []
  · subst he
    exact ⟨none, rfl⟩
  have hpos : 0 < timestamps.length := List.length_pos_iff.mpr he
  have hne : timestamps.isEmpty = false := by simpa using he
  have hcount : timestamps.countP (fun t => t.1 < byteOffset) ≤ timestamps.length := List.countP_le_length
  simp only [lookupTimestampMs, hne, Bool.false_eq_true, if_false, binarySearch]
  cases hi : timestamps.findIdx? (fun t => t.1 == byteOffset) with
  | some i => exact hat i (List.findIdx?_eq_some_iff_findIdx_eq.mp hi).1
  | none =>
    simp only
    cases hc : timestamps.countP (fun t => t.1 < byteOffset) with
    | zero => exact hat 0 hpos
    | succ i => exact hat i (by omega)

theorem timestampNow_rel {τ : Type} (timestamps : List (Nat × τ)) (data : List UInt8) :
    Rel (MemReader.Left data) (timestampNow timestamps) (timestampLeft timestamps data.length) := by
  intro m s h
  have hpos : m.position = data.length - s.length := by
    have := h.2.1
    show m.pos = _
    omega
  obtain ⟨t, ht⟩ := lookupTimestampMs_pure timestamps (data.length - s.length)
  have hm : (timestampNow timestamps).run m = (.ok t, m) := by
    show (lookupTimestampMs timestamps m.position).run m = _
    rw [hpos, ht, Rd.run_pure]
  have hs : (timestampLeft timestamps data.length).run s = (.ok t, s) := by
    show (lookupTimestampMs timestamps (data.length - s.length)).run s = _
    rw [ht, Rd.run_pure]
  rw [hm, hs]
  exact ⟨rfl, h⟩

theorem timestampLeft_stay {τ : Type} (timestamps : List (Nat × τ)) (total : Nat) (s : List UInt8) :
    ((timestampLeft timestamps total).run s).2 = s := by
  obtain ⟨t, ht⟩ := lookupTimestampMs_pure timestamps (total - s.length)
  show ((lookupTimestampMs timestamps (total - s.length)).run s).2 = s
  rw [ht, Rd.run_pure]

/-- Unpacking from two `MemReader`s is unpacking the byte lists they are over. -/
theorem decompile_rel {τ : Type} (timestamps : List (Nat × τ)) (clientBytes daemonBytes : List UInt8) :
    Rel (Both (MemReader.Left clientBytes) (MemReader.Left daemonBytes)) (decompileStreams timestamps)
      (decompileWith (timestampLeft timestamps clientBytes.length)) :=
  decompileWith_rel MemReader.mirrors MemReader.mirrors (timestampNow_rel timestamps clientBytes)
    (timestampLeft_stay timestamps clientBytes.length)

end NixWire
