/-
  NixWire.Results — reading and skipping a daemon result.

  `read_skip_agree`: on every byte string, what can be read can be skipped and what can be
  skipped can be read up to an undecodable string, and both leave the same bytes. A vector
  read up front takes at most three times the bytes its elements take on the wire
  (`dense_result`), so on a byte string a process can hold it never asks for too much.
-/

import NixWire.Mirror

namespace NixWire

open Base

theorem dense_result (op : Op) (v : ProtocolVersion) : (resultLayout op v).fmt.Dense 3 := by
  have hset : setFmt.Dense 3 := ⟨by decide, trivial⟩
  have hskip : skipSetFmt.Dense 3 := ⟨by decide, trivial⟩
  have hpairs : pairsFmt.Dense 3 := ⟨by decide, trivial, trivial⟩
  have hskipPairs : skipPairsFmt.Dense 3 := ⟨by decide, trivial, trivial⟩
  have hinfo : (pathInfoFmt v).Dense 3 := ⟨trivial, trivial, hset, trivial, trivial, trivial, hset, trivial⟩
  have hbuild : (buildResultFmt v).Dense 3 := by simp [Fmt.Dense]
  cases op
  case addToStore =>
    simp only [resultLayout]
    split
    · exact ⟨trivial, hinfo⟩
    · trivial
  case narFromPath =>
    simp only [resultLayout]
    split <;> trivial
  case queryPathInfo => exact ⟨trivial, hinfo⟩
  case querySubstitutablePathInfo => exact ⟨trivial, trivial, hset, trivial, trivial⟩
  case querySubstitutablePathInfos => exact ⟨by decide, trivial, trivial, hskip, trivial, trivial⟩
  case queryMissing => exact ⟨hset, hset, hset, trivial, trivial⟩
  case collectGarbage => exact ⟨trivial, trivial, trivial⟩
  case buildDerivation => exact hbuild
  case buildPathsWithResults => exact ⟨by omega, trivial, hbuild⟩
  case queryDerivationOutputMap => exact hpairs
  case findRoots => exact hpairs
  all_goals trivial

/-! ## On a byte list -/

theorem skip_of_read {op : Op} {v : ProtocolVersion} {s rest : List UInt8} {r : ResultData}
    (h : (readDaemonResult op v).run s = (.ok r, rest)) : (skipDaemonResult op v).run s = (.ok (), rest) := by
  rw [readDaemonResult_eq] at h
  obtain ⟨a, ha, _⟩ := Rd.map_ok_iff.mp h
  obtain ⟨b, hb⟩ := parse_skips wirePrims_lawful (skips_result op v) ha
  rw [skipDaemonResult_eq]
  exact Rd.map_ok_iff.mpr ⟨b, hb, rfl⟩

theorem read_of_skip {op : Op} {v : ProtocolVersion} {s rest : List UInt8} (hs : s.length ≤ 2 ^ 61)
    (h : (skipDaemonResult op v).run s = (.ok (), rest)) :
    ReadsOr .notUtf8 (readDaemonResult op v) s rest := by
  have hroom : 3 * s.length ≤ wireLimits.room := by
    show 3 * s.length ≤ 2 ^ 63 - 1
    omega
  rw [skipDaemonResult_eq] at h
  obtain ⟨a, ha, _⟩ := Rd.map_ok_iff.mp h
  rw [readDaemonResult_eq]
  exact (skips_parse wirePrims_lawful (skips_result op v) (dense_result op v) hroom ha).map _

/-! ## From memory -/

/-- Reading and skipping a result agree, on every byte string of at most 2^61 bytes (the
    largest address space has 2^57). -/
theorem read_skip_agree (op : Op) (v : ProtocolVersion) (daemonBytes : List UInt8)
    (hmem : daemonBytes.length ≤ 2 ^ 61) :
    (∀ r m, (readDaemonResult op v).run (MemReader.new daemonBytes) = (.ok r, m) →
      (skipDaemonResult op v).run (MemReader.new daemonBytes) = (.ok (), m)) ∧
    (∀ m, (skipDaemonResult op v).run (MemReader.new daemonBytes) = (.ok (), m) →
      (∃ r, (readDaemonResult op v).run (MemReader.new daemonBytes) = (.ok r, m)) ∨
      ∃ m', (readDaemonResult op v).run (MemReader.new daemonBytes) = (.stop (.err .notUtf8), m')) := by
  have hmirrors : Mirrors (MemReader.Left daemonBytes) := MemReader.mirrors
  have hread := readDaemonResult_rel hmirrors op v
  have hskip := skipDaemonResult_rel hmirrors op v
  constructor
  · intro r m h
    obtain ⟨s, hs, hm⟩ := (mem_run_iff hread).mp h
    exact (mem_run_iff hskip).mpr ⟨s, skip_of_read hs, hm⟩
  · intro m h
    obtain ⟨s, hs, hm⟩ := (mem_run_iff hskip).mp h
    rcases read_of_skip hmem hs with ⟨r, hr⟩ | ⟨s', hr⟩
    · exact Or.inl ⟨r, (mem_run_iff hread).mpr ⟨s, hr, hm⟩⟩
    · obtain ⟨m', hm', _⟩ := hread.run (MemReader.left_new daemonBytes) hr
      exact Or.inr ⟨m', hm'⟩

/-- The two sides on the result of a garbage collection. -/
theorem read_skip_agree_gc :
    (skipDaemonResult .collectGarbage (.new 1 37)).run (MemReader.new (wordBytes 4096 ++ wordBytes 0 ++ wordBytes 7)) =
      (.ok (), ⟨wordBytes 4096 ++ wordBytes 0 ++ wordBytes 7, 24⟩) :=
  (read_skip_agree .collectGarbage (.new 1 37) (wordBytes 4096 ++ wordBytes 0 ++ wordBytes 7) (by decide)).1
    (.collectGarbage 4096) _ (by decide)

end NixWire
