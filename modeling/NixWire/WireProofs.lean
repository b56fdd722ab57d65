/-
  NixWire.WireProofs — the wire primitives read and write the layouts of `Base.Layout`.

  `wirePrims` are the source's readers as primitives of a format. On a byte list they are
  lawful for the source's limits (`wirePrims_lawful`), and the writers write those
  layouts (`writeBytes_eq`, `writeStringSet_eq`). Over any reader that delivers a byte
  list's bytes they agree with the list's own (`wirePrims_agree`); a `MemReader` inside
  its data is such a reader (`MemReader.delivers`).
-/

import NixWire.Base.Loop
import NixWire.Base.Padded
import NixWire.Wire

namespace NixWire

open Base

def wireLimits : Limits where
  text := 256 * 1024 * 1024
  room := isizeMax
  chunk := 64 * 1024
  text_lt := by decide
  chunk_pos := by decide
  chunk_le := by decide

section

variable {R : Type} [BufRead R]

def wirePrims : Prims WireError R where
  word := readU64
  bytes := readBytes
  framed := readFramed
  blob := skipFramed
  reserve := reserve
  badText := .notUtf8

end

/-! ## Words and strings on a byte list -/

theorem readU64_ok_iff {s rest : List UInt8} {w : UInt64} :
    readU64.run s = (.ok w, rest) ↔ s = wordBytes w ++ rest := readWord_ok_iff

theorem readU64_stop {s rest : List UInt8} {o : Stop WireError} (h : readU64.run s = (.stop o, rest)) :
    o = .err .readU64 := readWord_stop h

theorem maxWireStringLen_toNat : maxWireStringLen.toNat = wireLimits.text := by decide

theorem readBytes_ok_iff {s rest b : List UInt8} :
    readBytes.run s = (.ok b, rest) ↔ ∃ bs, EncBytes wireLimits b bs ∧ s = bs ++ rest :=
  readPadded_ok_iff maxWireStringLen_toNat

theorem readBytes_stop {s rest : List UInt8} {o : Stop WireError} (h : readBytes.run s = (.stop o, rest)) :
    ∃ e, o = .err e := readPadded_stop h

/-! ## Blobs on a byte list -/

theorem readFramedPass_inr {acc b s rest : List UInt8} :
    (readFramedPass acc).run s = (.ok (.inr b), rest) ↔ b = acc ∧ s = wordBytes 0 ++ rest := by
  simp only [readFramedPass, Rd.bind_ok_iff, readU64_ok_iff]
  constructor
  · intro h
    obtain ⟨len, r, rfl, h⟩ := h
    split at h
    · rename_i h0
      cases h
      rw [beq_iff_eq.mp h0]
      exact ⟨rfl, rfl⟩
    split at h
    · cases h
    · obtain ⟨_, _, _, h⟩ := Rd.bind_ok_iff.mp h
      cases h
  · intro h
    obtain ⟨rfl, rfl⟩ := h
    exact ⟨0, rest, rfl, rfl⟩

theorem readFramedPass_inl {acc acc' s rest : List UInt8} :
    (readFramedPass acc).run s = (.ok (.inl acc'), rest) ↔
      ∃ c : List UInt8, (c ≠ [] ∧ c.length ≤ wireLimits.text) ∧ acc' = acc ++ c ∧ s = chunkBytes c ++ rest := by
  simp only [readFramedPass, Rd.bind_ok_iff, readU64_ok_iff]
  constructor
  · intro h
    obtain ⟨len, r, rfl, h⟩ := h
    split at h
    · cases h
    rename_i h0
    split at h
    · cases h
    rename_i hle
    obtain ⟨c, r', hc, hout⟩ := Rd.bind_ok_iff.mp h
    obtain ⟨rfl, hlen⟩ := readExact_ok_iff.mp hc
    cases hout
    have hne : c ≠ [] := by
      intro h
      obtain rfl := h
      apply h0
      rw [beq_iff_eq, ← UInt64.toNat_inj, ← hlen]
      rfl
    have htext : c.length ≤ wireLimits.text := by
      rw [hlen, ← maxWireStringLen_toNat, ← UInt64.le_iff_toNat_le]
      simpa using hle
    have hword : wordBytes len = lenWord c := by
      rw [lenWord, hlen]
      simp
    exact ⟨c, ⟨hne, htext⟩, rfl, by rw [chunkBytes, hword]; simp⟩
  · intro h
    obtain ⟨c, ⟨hne, htext⟩, rfl, rfl⟩ := h
    have hnat : (UInt64.ofNat c.length).toNat = c.length :=
      UInt64.toNat_ofNat_of_lt (htext.trans_lt wireLimits.text_lt)
    refine ⟨UInt64.ofNat c.length, c ++ rest, by simp [chunkBytes, lenWord], ?_⟩
    have h0 : ¬(UInt64.ofNat c.length == 0) = true := by
      rw [beq_iff_eq, ← UInt64.toNat_inj, hnat]
      simpa using hne
    have hle : ¬UInt64.ofNat c.length > maxWireStringLen := by
      rw [gt_iff_lt, UInt64.lt_iff_toNat_lt, hnat, maxWireStringLen_toNat]
      omega
    rw [if_neg h0, if_neg hle, Rd.bind_ok_iff]
    exact ⟨c, rest, readExact_ok_iff.mpr ⟨rfl, hnat.symm⟩, rfl⟩

theorem readFramedPass_stop {acc s rest : List UInt8} {o : Stop WireError}
    (h : (readFramedPass acc).run s = (.stop o, rest)) : ∃ e, o = .err e := by
  rcases Rd.bind_stop_iff.mp h with h | ⟨len, r, _, h⟩
  · exact ⟨_, readU64_stop h⟩
  split at h
  · cases h
  split at h
  · cases h; exact ⟨_, rfl⟩
  rcases Rd.bind_stop_iff.mp h with h | ⟨_, _, _, h⟩
  · exact ⟨_, (readExact_stop h).1⟩
  · cases h

/-- A continuing pass consumes a chunk and its length. -/
theorem readFramedPass_shrinks : Rd.Shrinks BufRead.size 8 (readFramedPass (R := List UInt8)) := by
  intro acc acc' s rest h
  obtain ⟨c, _, _, rfl⟩ := readFramedPass_inl.mp h
  show rest.length + 8 ≤ (chunkBytes c ++ rest).length
  simp only [chunkBytes, List.length_append, lenWord_length]
  omega

theorem readFramed_chunks (cs : List (List UInt8)) (hcs : ∀ c ∈ cs, c ≠ [] ∧ c.length ≤ wireLimits.text)
    (acc rest : List UInt8) :
    (readLoop readFramedPass acc).run (cs.flatMap chunkBytes ++ wordBytes 0 ++ rest) = (.ok (acc ++ cs.flatten), rest) := by
  induction cs generalizing acc with
  | nil =>
    have h : (readFramedPass acc).run (wordBytes 0 ++ rest) = (.ok (.inr acc), rest) := readFramedPass_inr.mpr ⟨rfl, rfl⟩
    rw [List.flatMap_nil, List.nil_append, List.flatten_nil, List.append_nil]
    exact iterate_inr readFramedPass_shrinks (by omega) h
  | cons c cs ih =>
    obtain ⟨hc, hcs⟩ := List.forall_mem_cons.mp hcs
    have h : (readFramedPass acc).run (chunkBytes c ++ (cs.flatMap chunkBytes ++ wordBytes 0 ++ rest))
        = (.ok (.inl (acc ++ c)), cs.flatMap chunkBytes ++ wordBytes 0 ++ rest) :=
      readFramedPass_inl.mpr ⟨c, hc, rfl, rfl⟩
    have hrun := iterate_inl readFramedPass_shrinks (by omega) h
    rw [List.flatMap_cons, List.flatten_cons, List.append_assoc, List.append_assoc, ← List.append_assoc _ (wordBytes 0)]
    exact hrun.trans ((ih hcs (acc ++ c)).trans (by simp))

theorem readFramed_ok_iff {s rest b : List UInt8} :
    readFramed.run s = (.ok b, rest) ↔ ∃ bs, EncFramed wireLimits b bs ∧ s = bs ++ rest := by
  constructor
  · intro h
    -- the chunks are what the continuing passes read
    obtain ⟨n, acc, s', hr, hend⟩ := iterate_ends readFramedPass_shrinks (by omega) [] s
    have hchunks : ∃ cs : List (List UInt8), (∀ c ∈ cs, c ≠ [] ∧ c.length ≤ wireLimits.text) ∧ acc = cs.flatten ∧
        s = cs.flatMap chunkBytes ++ s' := by
      refine Rd.Reaches.induct (I := fun x => ∃ cs : List (List UInt8),
        (∀ c ∈ cs, c ≠ [] ∧ c.length ≤ wireLimits.text) ∧ x.1 = cs.flatten ∧ s = cs.flatMap chunkBytes ++ x.2) ?_ hr ?_
      · rintro acc acc' r r' ⟨cs, hcs, hacc, hs⟩ hb
        obtain ⟨c, hc, rfl, rfl⟩ := readFramedPass_inl.mp hb
        refine ⟨cs ++ [c], ?_, by simp_all, by simp [hs]⟩
        intro d hd
        rcases List.mem_append.mp hd with hd | hd
        · exact hcs d hd
        · obtain rfl := List.mem_singleton.mp hd
          exact hc
      · exact ⟨[], by simp, rfl, by simp⟩
    obtain ⟨cs, hcs, rfl, rfl⟩ := hchunks
    rcases hend with ⟨b', r, hb, hloop⟩ | ⟨o, r, _, hloop⟩
    · cases h.symm.trans hloop
      obtain ⟨rfl, rfl⟩ := readFramedPass_inr.mp hb
      exact ⟨_, ⟨cs, hcs, rfl, rfl⟩, by simp⟩
    · cases h.symm.trans hloop
  · intro h
    obtain ⟨_, ⟨cs, hcs, rfl, rfl⟩, rfl⟩ := h
    exact readFramed_chunks cs hcs [] rest

theorem readFramed_stop {s rest : List UInt8} {o : Stop WireError} (h : readFramed.run s = (.stop o, rest)) :
    ∃ e, o = .err e := by
  obtain ⟨n, acc, s', _, hend⟩ := iterate_ends readFramedPass_shrinks (by omega) [] s
  rcases hend with ⟨_, _, _, hloop⟩ | ⟨o', _, hb, hloop⟩
  · cases h.symm.trans hloop
  · cases h.symm.trans hloop
    exact readFramedPass_stop hb

/-! ## Skipping blobs on a byte list -/

theorem discardPass_shrinks : Rd.Shrinks BufRead.size 1 (discardPass (R := List UInt8)) := by
  intro n m s rest h
  rw [discardPass] at h
  split at h
  · obtain ⟨_, r, hread, hout⟩ := Rd.bind_ok_iff.mp h
    obtain ⟨rfl, hlen⟩ := readExact_ok_iff.mp hread
    cases hout
    show rest.length + 1 ≤ (_ ++ rest).length
    rw [List.length_append, hlen]
    omega
  · cases h

/-- Dropping bytes 8 KiB at a time is reading them all and dropping them. -/
theorem discard_eq (n : Nat) :
    (discard n : Rd WireError (List UInt8) _) = (fun _ => ()) <$> readExact WireError.chunkData n := by
  ext1 s
  have hread : ∀ (k : Nat) (r : List UInt8), ((fun _ => ()) <$> readExact WireError.chunkData k).run r
      = if k ≤ r.length then (.ok (), r.drop k) else (.stop (.err .chunkData), []) := by
    intro k r
    rw [map_eq_pure_bind, Rd.run_bind, readExact_bytes]
    by_cases hk : k ≤ r.length
    · rw [if_pos hk, if_pos hk]
      rfl
    · rw [if_neg hk, if_neg hk]
  rw [hread]
  induction n using Nat.strongRecOn generalizing s with
  | ind n ih =>
    rcases Nat.eq_zero_or_pos n with rfl | hn
    · rw [if_pos (Nat.zero_le _)]
      exact iterate_inr discardPass_shrinks (by omega) rfl
    by_cases hm : min n 8192 ≤ s.length
    · have hpass : (discardPass n).run s = (.ok (.inl (n - min n 8192)), s.drop (min n 8192)) := by
        rw [discardPass, if_pos hn, Rd.bind_ok (by rw [readExact_bytes, if_pos hm])]
        rfl
      refine (iterate_inl discardPass_shrinks (by omega) hpass).trans ?_
      refine (ih (n - min n 8192) (by omega) (s.drop (min n 8192))).trans ?_
      rw [List.drop_drop, List.length_drop]
      by_cases hle : n ≤ s.length
      · rw [if_pos (by omega), if_pos hle, Nat.add_sub_cancel' (Nat.min_le_left _ _)]
      · rw [if_neg (by omega), if_neg hle]
    · have hpass : (discardPass n).run s = (.stop (.err .chunkData), []) := by
        rw [discardPass, if_pos hn, Rd.bind_stop (by rw [readExact_bytes, if_neg hm])]
      rw [if_neg (by omega)]
      exact iterate_stop discardPass_shrinks (by omega) hpass

theorem skipFramedPass_eq (acc : List UInt8) :
    (skipFramedPass (UInt64.ofNat acc.length) : Rd WireError (List UInt8) _) =
      Sum.map (fun b => UInt64.ofNat b.length) (fun b => UInt64.ofNat b.length) <$> readFramedPass acc := by
  rw [skipFramedPass, readFramedPass, map_bind]
  congr 1
  funext len
  split
  · rw [map_pure]
    rfl
  split
  · rfl
  rw [discard_eq]
  ext1 s
  rw [map_eq_pure_bind, map_bind, bind_assoc, Rd.run_bind, Rd.run_bind]
  rcases h : (readExact WireError.chunkData len.toNat).run s with ⟨buf | o, r⟩
  · obtain ⟨_, hlen⟩ := readExact_ok_iff.mp h
    have htotal : UInt64.ofNat acc.length + len = UInt64.ofNat (acc ++ buf).length := by
      rw [List.length_append, hlen, UInt64.ofNat_add, UInt64.ofNat_toNat]
    show (Res.ok (Sum.inl (UInt64.ofNat acc.length + len)), r) = _
    rw [htotal]
    rfl
  · rfl

/-- Skipping a blob is reading it and keeping its length. -/
theorem skipFramed_eq :
    (skipFramed : Rd WireError (List UInt8) _) = (fun b => UInt64.ofNat b.length) <$> readFramed := by
  ext1 s
  have hloop := loop_map skipFramedPass_eq (BufRead.size s + 1) []
  have hrun : skipFramed.run s = (Rd.loop skipFramedPass (BufRead.size s + 1) 0).run s := rfl
  rw [hrun]
  refine (congrArg (fun x => x.run s) hloop).trans ?_
  rw [map_eq_pure_bind, map_eq_pure_bind, Rd.run_bind, Rd.run_bind]
  rfl

theorem wirePrims_lawful : (wirePrims : Prims WireError (List UInt8)).Lawful wireLimits where
  word_ok := readU64_ok_iff
  bytes_ok := readBytes_ok_iff
  framed_ok := readFramed_ok_iff
  blob_eq := skipFramed_eq
  reserve_eq _ := rfl
  word_stop h := ⟨_, readU64_stop h⟩
  bytes_stop := readBytes_stop
  framed_stop := readFramed_stop

theorem readU64_forward : Forward (readU64 : Rd _ (List UInt8) _) := (readExact_forward _ _).bind fun _ => Forward.pure _

theorem readBytes_forward : Forward (readBytes : Rd _ (List UInt8) _) :=
  readU64_forward.bind fun _ => Forward.ite (Forward.fail _) <| (readExact_forward _ _).bind fun _ =>
    Forward.ite ((readExact_forward _ _).bind fun _ => Forward.pure _) (Forward.pure _)

theorem readFramed_forward : Forward (readFramed : Rd _ (List UInt8) _) :=
  Forward.readLoop (fun _ => readU64_forward.bind fun _ => Forward.ite (Forward.pure _) <| Forward.ite (Forward.fail _) <|
    (readExact_forward _ _).bind fun _ => Forward.pure _) []

theorem wirePrims_forward : (wirePrims : Prims WireError (List UInt8)).Forward where
  word := readU64_forward
  bytes := readBytes_forward
  framed := readFramed_forward
  blob := by
    show Forward (skipFramed : Rd _ (List UInt8) _)
    rw [skipFramed_eq]
    exact readFramed_forward.map _
  reserve _ := Forward.ite (Forward.abort _) (Forward.pure _)
  badText := rfl

/-! ## The writers -/

theorem writeBytes_eq (data : List UInt8) : writeBytes data = writePadded data := by
  have hpad := padding_toNat data.length
  have hpos := padding_pos_iff data.length
  have htail : (if (8 - UInt64.ofNat data.length % 8) % 8 > (0 : UInt64)
      then List.replicate ((8 - UInt64.ofNat data.length % 8) % 8 : UInt64).toNat (0 : UInt8) else []) =
      List.replicate (padLen data.length) 0 := by
    by_cases h : 0 < padLen data.length
    · rw [if_pos (hpos.mpr h), hpad]
    · rw [if_neg (fun hc => h (hpos.mp hc)), show padLen data.length = 0 by omega]
      rfl
  show writeU64 _ ++ data ++ _ = lenWord data ++ data ++ _
  rw [htail]
  rfl

theorem writeStringSet_eq (strings : List Str) :
    writeStringSet strings = (Fmt.many stringSize .str).write wireLimits strings := by
  have h : writeString = Fmt.write wireLimits .str := funext fun s => writeBytes_eq (utf8 s)
  rw [writeStringSet, h]
  rfl

/-! ## Other readers -/

section

variable {R : Type} [BufRead R] {ρ : R → List UInt8 → Prop} (d : Delivers ρ)

include d

theorem readU64_rel : Rel ρ readU64 readU64 := (d.exact _ 8).bind fun _ => Rel.pure _

theorem readBytes_rel : Rel ρ readBytes readBytes :=
  (readU64_rel d).bind fun _ => Rel.ite (Rel.fail _) <|
    (d.exact _ _).bind fun _ => Rel.ite ((d.exact _ _).bind fun _ => Rel.pure _) (Rel.pure _)

theorem readFramed_rel : Rel ρ readFramed readFramed :=
  d.readLoop (fun _ => (readU64_rel d).bind fun _ => Rel.ite (Rel.pure _) <| Rel.ite (Rel.fail _) <|
    (d.exact _ _).bind fun _ => Rel.pure _) []

theorem discard_rel (n : Nat) : Rel ρ (discard n) (discard n) :=
  d.readLoop (fun _ => Rel.ite ((d.exact _ _).bind fun _ => Rel.pure _) (Rel.pure _)) n

theorem skipFramed_rel : Rel ρ skipFramed skipFramed :=
  d.readLoop (fun _ => (readU64_rel d).bind fun _ => Rel.ite (Rel.pure _) <| Rel.ite (Rel.fail _) <|
    (discard_rel d _).bind fun _ => Rel.pure _) 0

theorem wirePrims_agree : (wirePrims : Prims WireError R).Related (fun {α} => @Rel WireError R (List UInt8) α ρ) wirePrims where
  word := readU64_rel d
  bytes := readBytes_rel d
  framed := readFramed_rel d
  blob := skipFramed_rel d
  reserve _ := Rel.ite (Rel.abort _) (Rel.pure _)
  badText := rfl

end

/-- A reader over `data`, inside it, that has `s` left. -/
def MemReader.Left (data : List UInt8) (m : MemReader) (s : List UInt8) : Prop :=
  m.data = data ∧ m.pos + s.length = data.length ∧ data.drop m.pos = s

namespace MemReader

variable {data : List UInt8} {m : MemReader} {s : List UInt8}

theorem left_new (data : List UInt8) : Left data (new data) data := ⟨rfl, by simp [new], rfl⟩

theorem Left.pos_le (h : Left data m s) : m.pos ≤ m.data.length := by
  rw [h.1, ← h.2.1]
  omega

theorem Left.rest (h : Left data m s) : m.data.drop m.pos = s := by rw [h.1, h.2.2]

theorem Left.eq {m' : MemReader} (h : Left data m s) (h' : Left data m' s) : m = m' := by
  obtain ⟨d, p⟩ := m
  obtain ⟨d', p'⟩ := m'
  obtain ⟨rfl, hp, _⟩ := h
  obtain ⟨rfl, hp', _⟩ := h'
  simp only at hp hp'
  rw [show p = p' by omega]

theorem Left.consume (h : Left data m s) {n : Nat} (hn : n ≤ s.length) :
    Left data (BufRead.consume n m) (BufRead.consume n s) := by
  refine ⟨h.1, ?_, ?_⟩
  · have := h.2.1
    show m.pos + n + (s.drop n).length = data.length
    rw [List.length_drop]
    omega
  · show data.drop (m.pos + n) = s.drop n
    rw [← h.2.2, List.drop_drop]

theorem remaining_left {ε : Type} (h : Left data m s) : (remaining : Rd ε MemReader _).run m = (.ok s, m) := by
  show (if m.pos ≤ m.data.length then _ else _) = _
  rw [if_pos h.pos_le, h.rest]

theorem fillBuf_rel {ε : Type} : Rel (Left data) (BufRead.fillBuf : Rd ε MemReader _) BufRead.fillBuf := by
  intro m s h
  have hrun : (BufRead.fillBuf : Rd ε MemReader _).run m = (.ok s, m) := remaining_left h
  rw [hrun]
  exact ⟨rfl, h⟩

theorem pollRead_rel {ε : Type} (n : Nat) :
    Rel (Left data) (BufRead.pollRead n : Rd ε MemReader _) (BufRead.pollRead n) := by
  intro m s h
  have hrun : (BufRead.pollRead n : Rd ε MemReader _).run m
      = (.ok (s.take (min s.length n)), BufRead.consume (min s.length n) m) := by
    show (pollRead n).run m = _
    rw [pollRead, Rd.bind_ok (remaining_left h)]
    rfl
  have hlist : (BufRead.pollRead n : Rd ε (List UInt8) _).run s = (.ok (s.take n), s.drop n) := rfl
  rw [hrun, hlist]
  rcases Nat.le_total n s.length with hn | hn
  · rw [Nat.min_eq_right hn]
    exact ⟨rfl, h.consume hn⟩
  · rw [Nat.min_eq_left hn, List.take_length, List.take_of_length_le hn, List.drop_of_length_le hn]
    exact ⟨rfl, by simpa [BufRead.consume] using h.consume (Nat.le_refl s.length)⟩

theorem readExact_rel {ε : Type} (e : ε) (n : Nat) :
    Rel (Left data) (readExact e n : Rd ε MemReader _) (readExact e n) := by
  suffices h : ∀ fuel n, Rel (Left data) (readExactLoop e fuel n : Rd ε MemReader _) (readExactLoop e fuel n) from h n n
  intro fuel
  induction fuel with
  | zero =>
    intro n
    cases n with
    | zero => exact Rel.pure _
    | succ n => exact fun _ _ h => ⟨rfl, h⟩
  | succ fuel ih =>
    intro n
    cases n with
    | zero => exact Rel.pure _
    | succ n =>
      refine (pollRead_rel (n + 1)).bind fun got => Rel.ite (Rel.fail e) ?_
      exact (ih _).bind fun more => Rel.pure _

theorem delivers : Delivers (Left data) where
  exact := readExact_rel
  size m s h := by
    show m.data.length - m.pos = s.length
    rw [h.1, ← h.2.1]
    omega

theorem mirrors : Mirrors (Left data) where
  toDelivers := delivers
  fillBuf := fillBuf_rel
  consume h hn := h.consume hn

end MemReader

end NixWire
