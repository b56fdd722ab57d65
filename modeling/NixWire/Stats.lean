/-
  NixWire.Stats — the statistics over a recording's operations (stats.rs, `aggregate`).

  Sums are in `u64` and wrap. A percentile's rank is computed exactly; for the 50th the
  source's floating-point rank is that number. The rows come in an order of their total
  durations as floating-point numbers (none is NaN, so every two compare), of which
  nothing is proved.
-/

import Mathlib.Algebra.Order.BigOperators.Group.List
import NixWire.Base.Tally
import NixWire.Tools

namespace NixWire

open Base

/-! ## aggregate -/

structure OpStats where
  opName : Str
  count : Nat
  errorCount : Nat
  totalDurationMs : Float
  minDurationMs : Float
  maxDurationMs : Float
  avgDurationMs : Float
  p50DurationMs : Float
  totalRequestBytes : UInt64
  totalFramedBytes : UInt64
  deriving Repr

structure SlowestOp where
  durationMs : Float
  opName : Str
  argInfo : Option Str
  deriving Repr

structure PathCount where
  path : Str
  count : Nat
  deriving DecidableEq, Repr

def nsToMs (ns : UInt64) : Float := ns.toFloat / 1000000.0

/-- Nearest rank in a sorted list; none where the index is out of bounds. -/
def percentile (sorted : List UInt64) (pct : Nat) : Option Float :=
  if sorted.isEmpty then some 0.0
  else
    let rank := (pct * sorted.length + 99) / 100
    let idx := min (rank - 1) (sorted.length - 1)
    nsToMs <$> sorted[idx]?

section

variable (opRecords : List OpRecord)

/-- Indices of the records, by name. -/
def groups : AList fun _ : Str => List (Fin opRecords.length) :=
  tally (fun i => some (opRecords.get i).opName) [] (fun indices i => indices ++ [i]) (List.finRange opRecords.length)

/-- The row of a group; none where an index is out of bounds. -/
def opStats (name : Str) (indices : List (Fin opRecords.length)) : Option OpStats := do
  let durations := (indices.map fun i => (opRecords.get i).durationNs).mergeSort fun a b => decide (a ≤ b)
  let count := indices.length
  let totalNs := durations.sum
  let minNs ← durations[0]?
  let maxNs ← durations[durations.length - 1]?
  let p50 ← percentile durations 50
  return {
    opName := name
    count
    errorCount := (indices.filter fun i => !(opRecords.get i).success).length
    totalDurationMs := nsToMs totalNs
    minDurationMs := nsToMs minNs
    maxDurationMs := nsToMs maxNs
    avgDurationMs := nsToMs totalNs / Float.ofNat count
    p50DurationMs := p50
    totalRequestBytes := (indices.map fun i => UInt64.ofNat (opRecords.get i).requestBytes).sum
    totalFramedBytes := (indices.map fun i => (opRecords.get i).framedBytes.getD 0).sum }

def slowestOp (rec : OpRecord) : SlowestOp :=
  { durationMs := nsToMs rec.durationNs, opName := rec.opName, argInfo := rec.argInfo.filter fun s => !s.isEmpty }

/-- The records by duration, the slowest first; equal ones in their order. -/
def byDuration : List (Fin opRecords.length × UInt64) :=
  ((List.finRange opRecords.length).map fun i => (i, (opRecords.get i).durationNs)).mergeSort fun a b => decide (b.2 ≤ a.2)

def slowestOps : List SlowestOp := ((byDuration opRecords).take 5).map fun p => slowestOp (opRecords.get p.1)

/-- The path an operation is about. -/
def pathOf (rec : OpRecord) : Option Str :=
  match rec.argInfo with
  | some info => if !info.isEmpty && ['/'].isPrefixOf info then some info else none
  | none => none

def pathCounts : AList fun _ : Str => Nat := tally pathOf 0 (fun n _ => n + 1) opRecords

/-- The paths and their counts, as the map lists them. -/
def countedPaths (order : HashOrder) : List PathCount :=
  (order.iter (pathCounts opRecords)).map fun e => { path := e.1, count := e.2 }

/-- The most frequent first. -/
def byCount (order : HashOrder) : List PathCount :=
  (countedPaths opRecords order).mergeSort fun a b => decide (b.count ≤ a.count)

def topPaths (order : HashOrder) : List PathCount := (byCount opRecords order).take 10

/-- `order` is the order in which the hash maps list their entries. -/
def aggregate (order : HashOrder) : Option (List OpStats × List SlowestOp × List PathCount) := do
  let stats ← (order.iter (groups opRecords)).mapM fun e => opStats opRecords e.1 e.2
  let stats := stats.mergeSort fun a b => decide (b.totalDurationMs ≤ a.totalDurationMs)
  return (stats, slowestOps opRecords, topPaths opRecords order)

end

/-! ## One row -/

def OpRecord.framedSize (rec : OpRecord) : Nat := (rec.framedBytes.getD 0).toNat

/-- `row` is what the records `recs` come to. -/
structure OpStats.Of (recs : List OpRecord) (row : OpStats) : Prop where
  count : row.count = recs.length
  errorCount : row.errorCount = (recs.filter fun rec => !rec.success).length
  requestBytes : row.totalRequestBytes = UInt64.ofNat (recs.map OpRecord.requestBytes).sum
  framedBytes : row.totalFramedBytes = UInt64.ofNat (recs.map OpRecord.framedSize).sum
  total : row.totalDurationMs = nsToMs (recs.map OpRecord.durationNs).sum
  avg : row.avgDurationMs = row.totalDurationMs / Float.ofNat recs.length
  durations : ∃ (sorted : List UInt64) (first middle last : UInt64),
    sorted.Perm (recs.map OpRecord.durationNs) ∧ sorted.Pairwise (· ≤ ·) ∧
    sorted[0]? = some first ∧ sorted[(recs.length + 1) / 2 - 1]? = some middle ∧ sorted[recs.length - 1]? = some last ∧
    row.minDurationMs = nsToMs first ∧ row.p50DurationMs = nsToMs middle ∧ row.maxDurationMs = nsToMs last

theorem percentile_fifty {sorted : List UInt64} (h : 0 < sorted.length) :
    ∃ ns, sorted[(sorted.length + 1) / 2 - 1]? = some ns ∧ percentile sorted 50 = some (nsToMs ns) := by
  have hlt : (sorted.length + 1) / 2 - 1 < sorted.length := by omega
  have hne : sorted.isEmpty = false := by
    cases sorted with
    | nil => cases h
    | cons => rfl
  have hidx : min ((50 * sorted.length + 99) / 100 - 1) (sorted.length - 1) = (sorted.length + 1) / 2 - 1 := by omega
  refine ⟨sorted[(sorted.length + 1) / 2 - 1], List.getElem?_eq_getElem hlt, ?_⟩
  unfold percentile
  simp only
  rw [hne, if_neg Bool.false_ne_true, hidx, List.getElem?_eq_getElem hlt]
  rfl

theorem opStats_of {opRecords : List OpRecord} (name : Str) {indices : List (Fin opRecords.length)} (h : indices ≠ []) :
    ∃ row, opStats opRecords name indices = some row ∧ row.opName = name ∧ row.Of (indices.map opRecords.get) := by
  have hpos : 0 < indices.length := List.length_pos_iff.mpr h
  obtain ⟨durations, hd⟩ : ∃ durations, durations =
    (indices.map fun i => (opRecords.get i).durationNs).mergeSort fun a b => decide (a ≤ b) := ⟨_, rfl⟩
  have hlen : durations.length = indices.length := by
    rw [hd, List.length_mergeSort, List.length_map]
  have hperm : durations.Perm ((indices.map opRecords.get).map OpRecord.durationNs) := by
    rw [hd, List.map_map]
    exact List.mergeSort_perm _ _
  have hfirst : 0 < durations.length := by omega
  have hlast : durations.length - 1 < durations.length := by omega
  have hsorted : durations.Pairwise (· ≤ ·) := by
    rw [hd]
    exact pairwise_sort (r := fun a b : UInt64 => a ≤ b) UInt64.le_trans (UInt64.le_total _ _) _
  have hmin : durations[0]? = some durations[0] := List.getElem?_eq_getElem hfirst
  have hmax : durations[durations.length - 1]? = some durations[durations.length - 1] := List.getElem?_eq_getElem hlast
  obtain ⟨middle, hmiddle, hp50⟩ := percentile_fifty (hlen.symm ▸ hpos)
  unfold opStats
  simp only
  rw [← hd, hmin, hmax, hp50]
  refine ⟨_, rfl, rfl, ?_, ?_, ?_, ?_, ?_, ?_, ?_⟩
  · exact (List.length_map _).symm
  · simp [List.filter_map, Function.comp_def]
  · simp [← sum_ofNat, Function.comp_def]
  · simp [← sum_ofNat, Function.comp_def, OpRecord.framedSize]
  · exact congrArg nsToMs hperm.sum_eq
  · rw [List.length_map]
  · rw [List.length_map, ← hlen]
    exact ⟨durations, _, middle, _, hperm, hsorted, hmin, hmiddle, hmax, rfl, rfl, rfl⟩

/-! ## The rows -/

/-- The rows account for every record once. -/
structure RowsOf (opRecords : List OpRecord) (stats : List OpStats) : Prop where
  nodup : (stats.map OpStats.opName).Nodup
  names : ∀ name, name ∈ stats.map OpStats.opName ↔ ∃ rec ∈ opRecords, rec.opName = name
  row : ∀ row ∈ stats, row.Of (opRecords.filter fun rec => rec.opName = row.opName)

theorem having_groups (opRecords : List OpRecord) (name : Str) :
    (having (fun i => some (opRecords.get i).opName) name (List.finRange opRecords.length)).map opRecords.get =
      opRecords.filter fun rec => rec.opName = name := by
  unfold having
  conv_rhs => rw [← List.map_get_finRange opRecords, List.filter_map]
  simp [Function.comp_def]

/-- The groups of the records, as the map lists them. -/
theorem mem_groups {opRecords : List OpRecord} {order : HashOrder} {name : Str} {indices : List (Fin opRecords.length)}
    (h : (name, indices) ∈ order.iter (groups opRecords)) :
    indices ≠ [] ∧ indices.map opRecords.get = opRecords.filter fun rec => rec.opName = name := by
  obtain ⟨hne, hindices⟩ := (mem_iter_tally order).mp h
  rw [List.foldl_append_eq_append, List.nil_append, ← List.flatMap_def, List.flatMap_singleton'] at hindices
  rw [hindices]
  exact ⟨hne, having_groups opRecords name⟩

theorem mapM_forall₂ {α β : Type} {f : α → Option β} {p : α → β → Prop} {l : List α}
    (h : ∀ a ∈ l, ∃ b, f a = some b ∧ p a b) : ∃ bs, l.mapM f = some bs ∧ List.Forall₂ p l bs := by
  induction l with
  | nil => exact ⟨[], rfl, .nil⟩
  | cons a l ih =>
    obtain ⟨ha, hl⟩ := List.forall_mem_cons.mp h
    obtain ⟨b, hb, hp⟩ := ha
    obtain ⟨bs, hbs, hps⟩ := ih hl
    refine ⟨b :: bs, ?_, .cons hp hps⟩
    rw [List.mapM_cons, hb, hbs]
    rfl

theorem aggregate_rows (opRecords : List OpRecord) (order : HashOrder) : ∃ stats,
    aggregate opRecords order = some (stats, slowestOps opRecords, topPaths opRecords order) ∧ RowsOf opRecords stats := by
  have hrows : ∀ e ∈ order.iter (groups opRecords), ∃ row, opStats opRecords e.1 e.2 = some row ∧
      (row.opName = e.1 ∧ row.Of (opRecords.filter fun rec => rec.opName = row.opName)) := by
    intro e he
    obtain ⟨hne, hget⟩ := mem_groups he
    obtain ⟨row, hrow, hname, hof⟩ := opStats_of e.1 hne
    rw [hget, ← hname] at hof
    exact ⟨row, hrow, hname, hof⟩
  obtain ⟨rows, hrun, hrows⟩ := mapM_forall₂ hrows
  have hnames : rows.map OpStats.opName = (order.iter (groups opRecords)).map Prod.fst := by
    have h := List.forall₂_map_left_iff.mpr (List.forall₂_map_right_iff.mpr (hrows.imp fun _ _ h => h.1.symm))
    exact (List.forall₂_eq_eq_eq ▸ h).symm
  obtain ⟨stats, hstats⟩ : ∃ stats, stats =
    rows.mergeSort fun a b => decide (b.totalDurationMs ≤ a.totalDurationMs) := ⟨_, rfl⟩
  have hperm : stats.Perm rows := hstats ▸ List.mergeSort_perm _ _
  refine ⟨stats, ?_, ?_, ?_, ?_⟩
  · unfold aggregate
    rw [hrun, hstats]
    rfl
  · rw [(hperm.map _).nodup_iff, hnames]
    exact iter_keys_nodup order _
  · intro name
    rw [(hperm.map _).mem_iff, hnames]
    unfold groups
    rw [mem_iter_keys]
    constructor
    · intro h
      obtain ⟨i, _, hi⟩ := h
      exact ⟨opRecords.get i, List.get_mem _ i, Option.some.inj hi⟩
    · intro h
      obtain ⟨rec, hrec, hname⟩ := h
      obtain ⟨i, rfl⟩ := List.mem_iff_get.mp hrec
      exact ⟨i, List.mem_finRange i, congrArg some hname⟩
  · intro row hrow
    exact forall₂_mem_left (q := fun row => row.Of (opRecords.filter fun rec => rec.opName = row.opName))
      (fun _ _ h => h.2) hrows.flip row (hperm.mem_iff.mp hrow)

/-- What totals of the rows sum to. -/
theorem RowsOf.sum {M : Type} [AddCommMonoid M] {opRecords : List OpRecord} {stats : List OpStats} (h : RowsOf opRecords stats)
    {total : OpStats → M} {weight : OpRecord → M}
    (hrow : ∀ row ∈ stats, total row = ((opRecords.filter fun rec => rec.opName = row.opName).map weight).sum) :
    (stats.map total).sum = (opRecords.map weight).sum := by
  have hrows : stats.map total =
      (stats.map OpStats.opName).map fun name => ((opRecords.filter fun rec => rec.opName = name).map weight).sum := by
    rw [List.map_map]
    exact List.map_congr_left hrow
  rw [hrows]
  exact sum_fibers OpRecord.opName weight h.nodup fun rec hrec => (h.names _).mpr ⟨rec, hrec, rfl⟩

theorem filter_length {α : Type} (p : α → Bool) (l : List α) :
    (l.filter p).length = (l.map fun a => if p a then 1 else 0).sum := by
  induction l with
  | nil => rfl
  | cons a l ih =>
    by_cases h : p a = true
    · rw [List.filter_cons_of_pos h, List.length_cons, ih, List.map_cons, List.sum_cons, if_pos h, Nat.add_comm]
    · rw [List.filter_cons_of_neg h, ih, List.map_cons, List.sum_cons, if_neg h, Nat.zero_add]

section

variable {opRecords : List OpRecord} {stats : List OpStats}

theorem RowsOf.count_sum (h : RowsOf opRecords stats) : (stats.map OpStats.count).sum = opRecords.length := by
  have hones : ∀ recs : List OpRecord, (recs.map fun _ => 1).sum = recs.length := fun recs => by simp
  rw [← hones opRecords]
  exact h.sum fun row hrow => by rw [(h.row row hrow).count, hones]

theorem RowsOf.error_sum (h : RowsOf opRecords stats) :
    (stats.map OpStats.errorCount).sum = (opRecords.filter fun rec => !rec.success).length := by
  rw [filter_length]
  exact h.sum fun row hrow => by rw [(h.row row hrow).errorCount, filter_length]

/-- The totals of the rows, summed in 64 bits. -/
theorem RowsOf.wrapped (h : RowsOf opRecords stats) {total : OpStats → UInt64} {weight : OpRecord → Nat}
    (hrow : ∀ row ∈ stats, total row =
      UInt64.ofNat ((opRecords.filter fun rec => rec.opName = row.opName).map weight).sum) :
    (stats.map total).sum = UInt64.ofNat (opRecords.map weight).sum := by
  rw [← sum_ofNat, List.map_map]
  exact h.sum fun row hmem => by rw [hrow row hmem, ← sum_ofNat, List.map_map]

/-- A total that fits in 64 bits is the sum of the rows' as numbers. -/
theorem RowsOf.exact (h : RowsOf opRecords stats) {total : OpStats → UInt64} {weight : OpRecord → Nat}
    (hrow : ∀ row ∈ stats, total row =
      UInt64.ofNat ((opRecords.filter fun rec => rec.opName = row.opName).map weight).sum)
    (hlt : (opRecords.map weight).sum < 2 ^ 64) :
    (stats.map fun row => (total row).toNat).sum = (opRecords.map weight).sum := by
  apply h.sum
  intro row hmem
  rw [hrow row hmem]
  apply UInt64.toNat_ofNat_of_lt
  exact lt_of_le_of_lt ((List.filter_sublist.map weight).sum_le_sum fun _ _ => Nat.zero_le _) hlt

end

/-! ## The slowest operations -/

/-- Five records, or all of them, and none outside slower than one of them. -/
structure SlowestOf (opRecords : List OpRecord) (slowest : List SlowestOp) (picked : List (Fin opRecords.length)) : Prop where
  shown : slowest = picked.map fun i => slowestOp (opRecords.get i)
  nodup : picked.Nodup
  length : picked.length = min 5 opRecords.length
  omitted : ∀ i ∈ picked, ∀ j ∉ picked, (opRecords.get j).durationNs ≤ (opRecords.get i).durationNs

theorem slowestOps_of (opRecords : List OpRecord) : ∃ picked, SlowestOf opRecords (slowestOps opRecords) picked := by
  let entry : Fin opRecords.length → Fin opRecords.length × UInt64 := fun i => (i, (opRecords.get i).durationNs)
  have hperm : (byDuration opRecords).Perm ((List.finRange opRecords.length).map entry) := List.mergeSort_perm _ _
  have hentry : ∀ p ∈ byDuration opRecords, p = entry p.1 := by
    intro p hp
    obtain ⟨i, _, rfl⟩ := List.mem_map.mp (hperm.mem_iff.mp hp)
    rfl
  have htake : ∀ p ∈ (byDuration opRecords).take 5, p = entry p.1 := fun p hp => hentry p (List.mem_of_mem_take hp)
  refine ⟨((byDuration opRecords).take 5).map Prod.fst, ?_, ?_, ?_, ?_⟩
  · unfold slowestOps
    rw [List.map_map]
    rfl
  · have hfst : ((byDuration opRecords).map Prod.fst).Perm (List.finRange opRecords.length) := by
      have h := hperm.map Prod.fst
      rw [List.map_map] at h
      exact h.trans (by simp [entry, Function.comp_def])
    rw [List.map_take]
    exact (hfst.nodup_iff.mpr (List.nodup_finRange _)).sublist (List.take_sublist _ _)
  · rw [List.length_map, List.length_take, hperm.length_eq]
    simp
  · intro i hi j hj
    obtain ⟨p, hp, rfl⟩ := List.mem_map.mp hi
    have hin : entry j ∈ (List.finRange opRecords.length).map entry := List.mem_map_of_mem (List.mem_finRange j)
    have hout : entry j ∉ (byDuration opRecords).take 5 := fun h => hj (List.mem_map_of_mem h)
    have hle : (entry j).2 ≤ p.2 := le_of_omitted Prod.snd hp hin hout
    rw [htake p hp] at hle
    exact hle

/-! ## The most frequent paths -/

/-- Ten paths, or all there are, each with its count, and none left out more frequent than one of them. -/
structure TopPathsOf (opRecords : List OpRecord) (topPaths : List PathCount) : Prop where
  nodup : (topPaths.map PathCount.path).Nodup
  length : topPaths.length = min 10 (opRecords.filterMap pathOf).dedup.length
  count : ∀ p ∈ topPaths, p.count = (opRecords.filter fun rec => rec.argInfo = some p.path).length
  shown : ∀ p ∈ topPaths, ∃ rec ∈ opRecords, pathOf rec = some p.path
  omitted : ∀ p ∈ topPaths, ∀ rec ∈ opRecords, ∀ path, pathOf rec = some path → path ∉ topPaths.map PathCount.path →
    (opRecords.filter fun rec => rec.argInfo = some path).length ≤ p.count

theorem pathOf_iff {rec : OpRecord} {path : Str} :
    pathOf rec = some path ↔ rec.argInfo = some path ∧ (!path.isEmpty && ['/'].isPrefixOf path) = true := by
  unfold pathOf
  cases rec.argInfo with
  | none => simp
  | some info =>
    simp only [Option.some.injEq]
    split
    · rename_i h
      constructor
      · intro heq
        cases heq
        exact ⟨rfl, h⟩
      · intro heq
        exact congrArg some heq.1
    · rename_i h
      simp only [reduceCtorEq, false_iff]
      intro heq
      obtain ⟨rfl, hpath⟩ := heq
      exact h hpath

/-- The records with a path are those with it as their argument. -/
theorem having_path {opRecords : List OpRecord} {rec : OpRecord} {path : Str} (h : pathOf rec = some path) :
    having pathOf path opRecords = opRecords.filter fun rec => rec.argInfo = some path := by
  unfold having
  apply List.filter_congr
  intro r _
  have hpath := (pathOf_iff.mp h).2
  rw [decide_eq_decide, pathOf_iff]
  exact and_iff_left hpath

section

variable (opRecords : List OpRecord) (order : HashOrder)

theorem mem_countedPaths {p : PathCount} : p ∈ countedPaths opRecords order ↔ (∃ rec ∈ opRecords, pathOf rec = some p.path) ∧
    p.count = (opRecords.filter fun rec => rec.argInfo = some p.path).length := by
  have hiter : p ∈ countedPaths opRecords order ↔ (p.path, p.count) ∈ order.iter (pathCounts opRecords) := by
    unfold countedPaths
    rw [List.mem_map]
    constructor
    · intro h
      obtain ⟨e, he, rfl⟩ := h
      exact he
    · intro h
      exact ⟨_, h, rfl⟩
  rw [hiter]
  unfold pathCounts
  rw [mem_iter_tally, having_ne_nil, List.foldl_add_const, Nat.one_mul, Nat.zero_add]
  refine and_congr_right fun h => ?_
  obtain ⟨rec, _, hpath⟩ := h
  rw [having_path hpath]

theorem byCount_perm : (byCount opRecords order).Perm (countedPaths opRecords order) := List.mergeSort_perm _ _

theorem countedPaths_map : (countedPaths opRecords order).map PathCount.path = (order.iter (pathCounts opRecords)).map Prod.fst := by
  unfold countedPaths
  rw [List.map_map]
  rfl

theorem byCount_nodup : ((byCount opRecords order).map PathCount.path).Nodup := by
  rw [((byCount_perm opRecords order).map _).nodup_iff, countedPaths_map]
  exact iter_keys_nodup order _

theorem byCount_length : (byCount opRecords order).length = (opRecords.filterMap pathOf).dedup.length := by
  have hperm : ((byCount opRecords order).map PathCount.path).Perm (opRecords.filterMap pathOf).dedup := by
    rw [List.perm_ext_iff_of_nodup (byCount_nodup opRecords order) (List.nodup_dedup _)]
    intro path
    rw [((byCount_perm opRecords order).map _).mem_iff, countedPaths_map]
    unfold pathCounts
    rw [mem_iter_keys, List.mem_dedup, List.mem_filterMap]
  rw [← hperm.length_eq, List.length_map]

theorem topPaths_of : TopPathsOf opRecords (topPaths opRecords order) := by
  have hmem : ∀ p ∈ topPaths opRecords order, p ∈ countedPaths opRecords order := fun p hp =>
    (byCount_perm opRecords order).mem_iff.mp (List.mem_of_mem_take hp)
  refine ⟨?_, ?_, ?_, ?_, ?_⟩
  · unfold topPaths
    rw [List.map_take]
    exact (byCount_nodup opRecords order).sublist (List.take_sublist _ _)
  · unfold topPaths
    rw [List.length_take, byCount_length]
  · exact fun p hp => ((mem_countedPaths opRecords order).mp (hmem p hp)).2
  · exact fun p hp => ((mem_countedPaths opRecords order).mp (hmem p hp)).1
  · intro p hp rec hrec path hpath hout
    let other : PathCount := { path, count := (opRecords.filter fun rec => rec.argInfo = some path).length }
    have hother : other ∈ countedPaths opRecords order := (mem_countedPaths opRecords order).mpr ⟨⟨rec, hrec, hpath⟩, rfl⟩
    have hleft : other ∉ topPaths opRecords order := fun h => hout (List.mem_map_of_mem h)
    exact le_of_omitted PathCount.count hp hother hleft

end

end NixWire
