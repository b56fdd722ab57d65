/-
  NixWire.Recorder — the recording proxy (record.rs, `copy_and_record`).

  Two tasks share one file, each copying one direction. A task reads a chunk of at most
  64 KiB, takes the time, writes a record under the lock, forwards the chunk (the peer
  may take it piece by piece) and starts over; it stops at the end of its stream, at a
  read error, or when the peer takes no more. The steps of the two interleave freely, and
  the clock moves between them. Record writes succeed: where one fails the source logs it
  and forwards the chunk all the same.

  Over every reachable state, for each direction:
  - `forwarded_recorded` / `recorded_read`: what was forwarded is a prefix of what was
    recorded, which is a prefix of what was read, each at most one chunk behind.
  - `split_recorded`: the file's records, split by direction, are what was recorded.
  - `recorded_before_reaction`: what was forwarded before a chunk was read stands before
    that chunk in the file.
  The time is taken before the lock: `offsets_ordered` needs each write to be of the
  earliest record waiting, and `overtaken` is what happens otherwise.
-/

import NixWire.Base.Steps
import NixWire.Tools

namespace NixWire.Recorder

open Base

/-- Where a task is in its loop. -/
inductive Stage where
  | reading
  /-- A chunk is in the buffer. -/
  | read (data : List UInt8)
  /-- Its record waits for the lock. -/
  | stamped (record : Record)
  /-- The record is in the file; this much of the chunk is left to forward. -/
  | forwarding (left : List UInt8)
  /-- The loop is over, with this much of the last chunk not forwarded. -/
  | stopped (left : List UInt8)
  deriving DecidableEq, Repr

/-- A task, and what it has done: the chunks read, those recorded, the bytes forwarded. -/
structure Task where
  stage : Stage
  chunks : List (List UInt8)
  recorded : List (List UInt8)
  forwarded : List UInt8

structure Proxy where
  epochNs : UInt64
  /-- The clock, in nanoseconds since 1970. -/
  now : UInt64
  /-- The records in the file. -/
  records : List Record
  task : Direction → Task

def Task.init : Task := ⟨.reading, [], [], []⟩

def init (epochNs : UInt64) : Proxy := ⟨epochNs, epochNs, [], fun _ => .init⟩

def Proxy.set (s : Proxy) (d : Direction) (t : Task) : Proxy := { s with task := Function.update s.task d t }

def bufSize : Nat := 64 * 1024

/-- A chunk has been read. -/
def Proxy.afterRead (s : Proxy) (d : Direction) (chunk : List UInt8) : Proxy :=
  s.set d { s.task d with stage := .read chunk, chunks := (s.task d).chunks ++ [chunk] }

/-- Its time has been taken. -/
def Proxy.afterStamp (s : Proxy) (d : Direction) (data : List UInt8) : Proxy :=
  s.set d { s.task d with stage := .stamped ⟨s.now - s.epochNs, d, data⟩ }

/-- A record has been written and flushed. -/
def Proxy.afterWrite (s : Proxy) (d : Direction) (record : Record) : Proxy :=
  { s with records := s.records ++ [record] }.set d
    { s.task d with stage := .forwarding record.data, recorded := (s.task d).recorded ++ [record.data] }

/-- A task's next step, or the clock's. -/
inductive Step : Proxy → Proxy → Prop
  | tick (s : Proxy) (now : UInt64) : s.now ≤ now → Step s { s with now := now }
  | read (s : Proxy) (d : Direction) (chunk : List UInt8) : (s.task d).stage = .reading → chunk ≠ [] →
      chunk.length ≤ bufSize → Step s (s.afterRead d chunk)
  /-- The end of the stream, or a read error. -/
  | readEnds (s : Proxy) (d : Direction) : (s.task d).stage = .reading →
      Step s (s.set d { s.task d with stage := .stopped [] })
  | takeTime (s : Proxy) (d : Direction) (data : List UInt8) : (s.task d).stage = .read data →
      Step s (s.afterStamp d data)
  | writeRecord (s : Proxy) (d : Direction) (record : Record) : (s.task d).stage = .stamped record →
      Step s (s.afterWrite d record)
  | forward (s : Proxy) (d : Direction) (n : Nat) (left : List UInt8) : (s.task d).stage = .forwarding left →
      Step s (s.set d
        { s.task d with stage := .forwarding (left.drop n), forwarded := (s.task d).forwarded ++ left.take n })
  | next (s : Proxy) (d : Direction) : (s.task d).stage = .forwarding [] →
      Step s (s.set d { s.task d with stage := .reading })
  /-- A write or flush error. -/
  | forwardFails (s : Proxy) (d : Direction) (left : List UInt8) : (s.task d).stage = .forwarding left →
      Step s (s.set d { s.task d with stage := .stopped left })

@[simp] theorem set_records (s : Proxy) (d : Direction) (t : Task) : (s.set d t).records = s.records := rfl
@[simp] theorem set_task_same (s : Proxy) (d : Direction) (t : Task) : (s.set d t).task d = t := Function.update_self ..
@[simp] theorem set_task_ne (s : Proxy) {d d' : Direction} (t : Task) (h : d' ≠ d) : (s.set d t).task d' = s.task d' :=
  Function.update_of_ne h ..

/-! ## The file, by direction -/

/-- The chunks of one direction. -/
def chunksOf (d : Direction) (records : List Record) : List (List UInt8) :=
  (records.filter (fun r => r.direction = d)).map Record.data

@[simp] theorem chunksOf_append (d : Direction) (l l' : List Record) :
    chunksOf d (l ++ l') = chunksOf d l ++ chunksOf d l' := by
  simp [chunksOf]

theorem chunksOf_same {d : Direction} {r : Record} (h : r.direction = d) : chunksOf d [r] = [r.data] := by simp [chunksOf, h]

theorem chunksOf_other {d : Direction} {r : Record} (h : r.direction ≠ d) : chunksOf d [r] = [] := by simp [chunksOf, h]

/-- One direction of a split recording. -/
def bytesOf (d : Direction) (split : SplitRecords) : List UInt8 :=
  match d with
  | .clientToDaemon => split.clientBytes
  | .daemonToClient => split.daemonBytes

theorem splitRecord_bytes (split : SplitRecords) (r : Record) (d : Direction) :
    bytesOf d (splitRecord split r) = bytesOf d split ++ (chunksOf d [r]).flatten := by
  obtain ⟨offsetNs, direction, data⟩ := r
  cases direction <;> cases d <;> simp [splitRecord, bytesOf, chunksOf]

theorem splitRecords_bytes (records : List Record) (d : Direction) :
    bytesOf d (splitRecords records) = (chunksOf d records).flatten := by
  have hfold : ∀ split, bytesOf d (records.foldl splitRecord split) = bytesOf d split ++ (chunksOf d records).flatten := by
    induction records with
    | nil => intro split; simp [chunksOf]
    | cons r records ih =>
      intro split
      have hcons : chunksOf d (r :: records) = chunksOf d [r] ++ chunksOf d records := chunksOf_append d [r] records
      rw [List.foldl_cons, ih, splitRecord_bytes, hcons, List.flatten_append, List.append_assoc]
  rw [splitRecords, hfold]
  cases d <;> rfl

/-! ## What a task has done -/

/-- The chunk read and not yet recorded. -/
def Stage.held : Stage → List (List UInt8)
  | .read data => [data]
  | .stamped record => [record.data]
  | _ => []

/-- What is recorded and not yet forwarded. -/
def Stage.unsent : Stage → List UInt8
  | .forwarding left => left
  | .stopped left => left
  | _ => []

structure TaskInv (records : List Record) (d : Direction) (t : Task) : Prop where
  inFile : t.recorded = chunksOf d records
  chunks : t.chunks = t.recorded ++ t.stage.held
  forwarded : t.recorded.flatten = t.forwarded ++ t.stage.unsent
  /-- What is unsent is the end of the last chunk. -/
  unsent : t.stage.unsent = [] ∨ ∃ c, t.chunks.getLast? = some c ∧ t.stage.unsent <:+ c
  small : ∀ c ∈ t.chunks, c ≠ [] ∧ c.length ≤ bufSize
  direction : ∀ r, t.stage = .stamped r → r.direction = d

def Inv (s : Proxy) : Prop := ∀ d, TaskInv s.records d (s.task d)

theorem init_inv (epochNs : UInt64) : Inv (init epochNs) := fun d =>
  { inFile := rfl, chunks := rfl, forwarded := rfl, unsent := Or.inl rfl, small := by simp [init, Task.init],
    direction := by simp [init, Task.init] }

/-- A step of one task leaves the other as it was. -/
theorem set_inv {s : Proxy} {d : Direction} {t : Task} (hs : Inv s) (ht : TaskInv s.records d t) : Inv (s.set d t) := by
  intro d'
  by_cases h : d' = d
  · subst h
    simpa using ht
  · simpa [h] using hs d'

theorem step_inv (s t : Proxy) (h : Step s t) (hs : Inv s) : Inv t := by
  cases h with
  | tick now _ => exact hs
  | read d chunk hstage hne hlen =>
    obtain ⟨hfile, hchunks, hfwd, -, hsmall, -⟩ := hs d
    rw [hstage] at hchunks hfwd
    refine set_inv hs ⟨hfile, ?_, hfwd, Or.inl rfl, ?_, fun r hr => by cases hr⟩
    · show (s.task d).chunks ++ [chunk] = (s.task d).recorded ++ [chunk]
      rw [hchunks]
      simp [Stage.held]
    · intro c hc
      rcases List.mem_append.mp hc with hc | hc
      · exact hsmall c hc
      · obtain rfl := List.mem_singleton.mp hc
        exact ⟨hne, hlen⟩
  | readEnds d hstage =>
    obtain ⟨hfile, hchunks, hfwd, -, hsmall, -⟩ := hs d
    rw [hstage] at hchunks hfwd
    exact set_inv hs ⟨hfile, hchunks, hfwd, Or.inl rfl, hsmall, fun r hr => by cases hr⟩
  | takeTime d data hstage =>
    obtain ⟨hfile, hchunks, hfwd, -, hsmall, -⟩ := hs d
    rw [hstage] at hchunks hfwd
    exact set_inv hs ⟨hfile, hchunks, hfwd, Or.inl rfl, hsmall, fun r hr => by cases hr; rfl⟩
  | writeRecord d record hstage =>
    have hd := hs d
    have hdir := hd.direction record hstage
    obtain ⟨hfile, hchunks, hfwd, -, hsmall, -⟩ := hd
    rw [hstage] at hchunks hfwd
    have hlast : (s.task d).chunks.getLast? = some record.data := by
      rw [hchunks]
      simp [Stage.held]
    intro d'
    by_cases hd' : d' = d
    · subst hd'
      simp only [Proxy.afterWrite, set_task_same, set_records]
      refine ⟨?_, ?_, ?_, Or.inr ⟨record.data, hlast, List.suffix_refl _⟩, hsmall, fun r hr => by cases hr⟩
      · show (s.task d').recorded ++ [record.data] = chunksOf d' (s.records ++ [record])
        rw [chunksOf_append, chunksOf_same hdir, hfile]
      · show (s.task d').chunks = (s.task d').recorded ++ [record.data] ++ []
        rw [hchunks, List.append_nil]
        rfl
      · show ((s.task d').recorded ++ [record.data]).flatten = (s.task d').forwarded ++ record.data
        rw [List.flatten_append, hfwd]
        simp [Stage.unsent]
    · -- the other direction's chunks are where they were
      obtain ⟨hfile', hchunks', hfwd', hunsent', hsmall', hdir'⟩ := hs d'
      simp only [Proxy.afterWrite, set_task_ne _ _ hd', set_records]
      refine ⟨?_, hchunks', hfwd', hunsent', hsmall', hdir'⟩
      rw [chunksOf_append, chunksOf_other (by rw [hdir]; exact Ne.symm hd'), List.append_nil]
      exact hfile'
  | forward d n left hstage =>
    obtain ⟨hfile, hchunks, hfwd, hunsent, hsmall, -⟩ := hs d
    rw [hstage] at hchunks hfwd hunsent
    refine set_inv hs ⟨hfile, hchunks, ?_, ?_, hsmall, fun r hr => by cases hr⟩
    · show (s.task d).recorded.flatten = (s.task d).forwarded ++ left.take n ++ left.drop n
      rw [hfwd, List.append_assoc, List.take_append_drop]
      rfl
    · rcases hunsent with h | ⟨c, hc, hsuffix⟩
      · refine Or.inl ?_
        show left.drop n = []
        rw [show left = [] from h, List.drop_nil]
      · exact Or.inr ⟨c, hc, (List.drop_suffix n left).trans hsuffix⟩
  | next d hstage =>
    obtain ⟨hfile, hchunks, hfwd, -, hsmall, -⟩ := hs d
    rw [hstage] at hchunks hfwd
    exact set_inv hs ⟨hfile, hchunks, hfwd, Or.inl rfl, hsmall, fun r hr => by cases hr⟩
  | forwardFails d left hstage =>
    obtain ⟨hfile, hchunks, hfwd, hunsent, hsmall, -⟩ := hs d
    rw [hstage] at hchunks hfwd hunsent
    exact set_inv hs ⟨hfile, hchunks, hfwd, hunsent, hsmall, fun r hr => by cases hr⟩

theorem run_inv {epochNs : UInt64} {s : Proxy} (h : Run Step (init epochNs) s) : Inv s :=
  run_invariant step_inv h (init_inv epochNs)

/-! ## The copy -/

/-- `a` is a prefix of `b`, at most the last chunk behind. -/
def Behind (chunks : List (List UInt8)) (a b : List UInt8) : Prop :=
  ∃ rest, b = a ++ rest ∧ (rest = [] ∨ ∃ c, chunks.getLast? = some c ∧ rest <:+ c)

theorem forwarded_recorded {records : List Record} {d : Direction} {t : Task} (h : TaskInv records d t) :
    Behind t.chunks t.forwarded t.recorded.flatten :=
  ⟨t.stage.unsent, h.forwarded, h.unsent⟩

theorem recorded_read {records : List Record} {d : Direction} {t : Task} (h : TaskInv records d t) :
    Behind t.chunks t.recorded.flatten t.chunks.flatten := by
  refine ⟨t.stage.held.flatten, by rw [h.chunks, List.flatten_append], ?_⟩
  have hchunks := h.chunks
  cases hstage : t.stage with
  | read data =>
    rw [hstage] at hchunks
    exact Or.inr ⟨data, by rw [hchunks]; simp [Stage.held], by simp [Stage.held]⟩
  | stamped record =>
    rw [hstage] at hchunks
    exact Or.inr ⟨record.data, by rw [hchunks]; simp [Stage.held], by simp [Stage.held]⟩
  | reading => exact Or.inl rfl
  | forwarding left => exact Or.inl rfl
  | stopped left => exact Or.inl rfl

theorem split_recorded {records : List Record} {d : Direction} {t : Task} (h : TaskInv records d t) :
    bytesOf d (splitRecords records) = t.recorded.flatten := by
  rw [splitRecords_bytes, h.inFile]

/-- Every record holds a chunk. -/
theorem records_small {s : Proxy} (hs : Inv s) : ∀ r ∈ s.records, r.data.length < 2 ^ 32 := by
  intro r hr
  have hmem : r.data ∈ chunksOf r.direction s.records :=
    List.mem_map_of_mem (List.mem_filter.mpr ⟨hr, by simp⟩)
  have hd := hs r.direction
  rw [← hd.inFile] at hmem
  have hchunk : r.data ∈ (s.task r.direction).chunks := by
    rw [hd.chunks]
    exact List.mem_append_left _ hmem
  have hlen := (hd.small r.data hchunk).2
  have hbuf : bufSize < 2 ^ 32 := by decide
  omega

/-! ## Order -/

/-- The histories only grow. -/
theorem step_grows {s t : Proxy} (h : Step s t) :
    s.records <+: t.records ∧ ∀ d, (s.task d).chunks <+: (t.task d).chunks := by
  have hset : ∀ {s : Proxy} {d : Direction} {u : Task}, (s.task d).chunks <+: u.chunks →
      ∀ d', (s.task d').chunks <+: ((s.set d u).task d').chunks := by
    intro s d u hu d'
    by_cases h : d' = d
    · subst h
      simpa using hu
    · simp [h]
  cases h with
  | tick now _ => exact ⟨List.prefix_rfl, fun d => List.prefix_rfl⟩
  | read d chunk _ _ _ => exact ⟨List.prefix_rfl, hset (List.prefix_append _ _)⟩
  | readEnds d _ => exact ⟨List.prefix_rfl, hset List.prefix_rfl⟩
  | takeTime d data _ => exact ⟨List.prefix_rfl, hset List.prefix_rfl⟩
  | writeRecord d record _ =>
    exact ⟨List.prefix_append _ _, @hset { s with records := s.records ++ [record] } d _ List.prefix_rfl⟩
  | forward d n left _ => exact ⟨List.prefix_rfl, hset List.prefix_rfl⟩
  | next d _ => exact ⟨List.prefix_rfl, hset List.prefix_rfl⟩
  | forwardFails d left _ => exact ⟨List.prefix_rfl, hset List.prefix_rfl⟩

theorem run_grows {s t : Proxy} (h : Run Step s t) :
    s.records <+: t.records ∧ ∀ d, (s.task d).chunks <+: (t.task d).chunks := by
  induction h with
  | refl => exact ⟨List.prefix_rfl, fun d => List.prefix_rfl⟩
  | tail _ hstep ih =>
    obtain ⟨hr, hc⟩ := step_grows hstep
    exact ⟨ih.1.trans hr, fun d => (ih.2 d).trans (hc d)⟩

/-- A chunk read now has its record, once written, after everything that is in the file. -/
theorem recorded_before_reaction {s t : Proxy} (hs : Inv s) {d : Direction} {chunk : List UInt8}
    (hstage : (s.task d).stage = .reading) (hrun : Run Step (s.afterRead d chunk) t) (ht : Inv t) :
    ∃ later, t.records = s.records ++ later ∧ chunksOf d s.records = (s.task d).chunks ∧
      (chunksOf d later = [] ∨ ∃ more, chunksOf d later = chunk :: more) := by
  obtain ⟨⟨later, hlater⟩, hchunks⟩ := run_grows hrun
  have hread : chunksOf d s.records = (s.task d).chunks := by
    rw [← (hs d).inFile, (hs d).chunks, hstage]
    exact (List.append_nil _).symm
  refine ⟨later, hlater.symm, hread, ?_⟩
  have hprefix : (s.task d).chunks ++ [chunk] <+: (s.task d).chunks ++ (chunksOf d later ++ (t.task d).stage.held) := by
    have h := hchunks d
    rw [(ht d).chunks, (ht d).inFile, ← hlater] at h
    rw [chunksOf_append, List.append_assoc] at h
    simpa [Proxy.afterRead, hread] using h
  obtain ⟨rest, hrest⟩ := (List.prefix_append_right_inj _).mp hprefix
  cases hl : chunksOf d later with
  | nil => exact Or.inl rfl
  | cons c more =>
    rw [hl] at hrest
    obtain ⟨rfl, -⟩ := List.cons.inj hrest
    exact Or.inr ⟨more, rfl⟩

/-- Over every reachable state: the copy is faithful in each direction, the file reads back
    as the records written, and what is read now comes after them. -/
theorem recorder_faithful {epochNs : UInt64} {s : Proxy} (hs : Run Step (init epochNs) s) :
    (∀ d, Behind (s.task d).chunks (s.task d).forwarded (s.task d).recorded.flatten ∧
      Behind (s.task d).chunks (s.task d).recorded.flatten (s.task d).chunks.flatten ∧
      (∀ c ∈ (s.task d).chunks, c.length ≤ bufSize) ∧
      bytesOf d (splitRecords s.records) = (s.task d).recorded.flatten) ∧
    (∃ rest q, readHeader.run (recordingFile epochNs s.records) = (.ok (.new epochNs), rest) ∧
      readAll.run rest = (.ok s.records, q)) ∧
    (∀ d chunk t, (s.task d).stage = .reading → chunk ≠ [] → chunk.length ≤ bufSize → Run Step (s.afterRead d chunk) t →
      ∃ later, t.records = s.records ++ later ∧
        (∀ d', (s.task d').forwarded <+: bytesOf d' (splitRecords s.records)) ∧
        chunksOf d s.records = (s.task d).chunks ∧
        (chunksOf d later = [] ∨ ∃ more, chunksOf d later = chunk :: more)) := by
  have hinv := run_inv hs
  refine ⟨fun d => ?_, readAll_recordingFile epochNs (records_small hinv), fun d chunk t hstage hne hlen hrun => ?_⟩
  · have hd := hinv d
    exact ⟨forwarded_recorded hd, recorded_read hd, fun c hc => (hd.small c hc).2, split_recorded hd⟩
  · have ht : Inv t := run_invariant step_inv hrun (step_inv s _ (.read s d chunk hstage hne hlen) hinv)
    obtain ⟨later, hlater, hread, hchunk⟩ := recorded_before_reaction hinv hstage hrun ht
    refine ⟨later, hlater, fun d' => ?_, hread, hchunk⟩
    obtain ⟨rest, hrest, -⟩ := forwarded_recorded (hinv d')
    rw [split_recorded (hinv d'), hrest]
    exact List.prefix_append _ _

/-- Two bytes are recorded, and the daemon has taken one. -/
theorem recorder_faithful_part : ∃ s, Run Step (init 7) s ∧ (s.task .clientToDaemon).forwarded = [1] ∧
    bytesOf .clientToDaemon (splitRecords s.records) = [1, 2] := by
  let s₁ := (init 7).afterRead .clientToDaemon [1, 2]
  let s₂ := s₁.afterStamp .clientToDaemon [1, 2]
  let s₃ := s₂.afterWrite .clientToDaemon ⟨7 - 7, .clientToDaemon, [1, 2]⟩
  have h₁ : Step (init 7) s₁ := .read (init 7) .clientToDaemon [1, 2] rfl (by decide) (by decide)
  have h₂ : Step s₁ s₂ := .takeTime s₁ .clientToDaemon [1, 2] rfl
  have h₃ : Step s₂ s₃ := .writeRecord s₂ .clientToDaemon ⟨7 - 7, .clientToDaemon, [1, 2]⟩ rfl
  have h₄ := Step.forward s₃ .clientToDaemon 1 [1, 2] rfl
  have hrun := (((Relation.ReflTransGen.single h₁).tail h₂).tail h₃).tail h₄
  obtain ⟨hcopy, -, -⟩ := recorder_faithful hrun
  refine ⟨_, hrun, rfl, ?_⟩
  rw [(hcopy .clientToDaemon).2.2.2]
  rfl

/-! ## Times -/

def Ordered (records : List Record) : Prop := records.Pairwise fun a b => a.offsetNs ≤ b.offsetNs

/-- If the step writes a record, no record waiting for the lock is earlier. -/
def InTurn (s t : Proxy) : Prop :=
  ∀ r, t.records = s.records ++ [r] → ∀ d r', (s.task d).stage = .stamped r' → r.offsetNs ≤ r'.offsetNs

/-- The time since the session began. -/
def Proxy.elapsed (s : Proxy) : UInt64 := s.now - s.epochNs

structure TimeInv (s : Proxy) : Prop where
  epoch_le : s.epochNs ≤ s.now
  file_le : ∀ r ∈ s.records, r.offsetNs ≤ s.elapsed
  waiting_le : ∀ d r, (s.task d).stage = .stamped r → r.offsetNs ≤ s.elapsed
  file_waiting : ∀ r ∈ s.records, ∀ d r', (s.task d).stage = .stamped r' → r.offsetNs ≤ r'.offsetNs
  ordered : Ordered s.records

theorem sub_le_sub {a b c : UInt64} (hab : a ≤ b) (hbc : b ≤ c) : b - a ≤ c - a := by
  have hac := UInt64.le_trans hab hbc
  rw [UInt64.le_iff_toNat_le, UInt64.toNat_sub_of_le _ _ hab, UInt64.toNat_sub_of_le _ _ hac]
  rw [UInt64.le_iff_toNat_le] at hab hbc
  omega

theorem init_times (epochNs : UInt64) : TimeInv (init epochNs) where
  epoch_le := UInt64.le_refl epochNs
  file_le := by simp [init]
  waiting_le := by simp [init, Task.init]
  file_waiting := by simp [init]
  ordered := List.Pairwise.nil

/-- A step of a task that stamps and writes nothing. -/
theorem set_times {s : Proxy} {d : Direction} {u : Task} (hs : TimeInv s)
    (hu : ∀ r, u.stage = .stamped r → (s.task d).stage = .stamped r ∨ r.offsetNs = s.elapsed) : TimeInv (s.set d u) := by
  have hstamped : ∀ d' r, ((s.set d u).task d').stage = .stamped r →
      (s.task d').stage = .stamped r ∨ r.offsetNs = s.elapsed := by
    intro d' r h
    by_cases hd : d' = d
    · subst hd
      rw [set_task_same] at h
      exact hu r h
    · rw [set_task_ne _ _ hd] at h
      exact Or.inl h
  refine ⟨hs.epoch_le, hs.file_le, fun d' r h => ?_, fun r hr d' r' h => ?_, hs.ordered⟩
  · rcases hstamped d' r h with h | h
    · exact hs.waiting_le d' r h
    · rw [h]
      exact UInt64.le_refl _
  · rcases hstamped d' r' h with h | h
    · exact hs.file_waiting r hr d' r' h
    · rw [h]
      exact hs.file_le r hr

theorem step_times (s t : Proxy) (h : Step s t) (hturn : InTurn s t) (hs : TimeInv s) : TimeInv t := by
  cases h with
  | tick now hnow =>
    have hle : s.elapsed ≤ now - s.epochNs := sub_le_sub hs.epoch_le hnow
    exact ⟨UInt64.le_trans hs.epoch_le hnow, fun r hr => UInt64.le_trans (hs.file_le r hr) hle,
      fun d r hr => UInt64.le_trans (hs.waiting_le d r hr) hle, hs.file_waiting, hs.ordered⟩
  | read d chunk hstage _ _ => exact set_times hs fun r hr => by cases hr
  | readEnds d hstage => exact set_times hs fun r hr => by cases hr
  | takeTime d data hstage => exact set_times hs fun r hr => by cases hr; exact Or.inr rfl
  | writeRecord d record hstage =>
    have hfile : ∀ r ∈ s.records, r.offsetNs ≤ record.offsetNs := fun r hr => hs.file_waiting r hr d record hstage
    have hnew : ∀ d' r', (s.task d').stage = .stamped r' → record.offsetNs ≤ r'.offsetNs := hturn record rfl
    have hstamped : ∀ d' r, ((s.afterWrite d record).task d').stage = .stamped r → (s.task d').stage = .stamped r := by
      intro d' r h
      by_cases hd : d' = d
      · subst hd
        rw [Proxy.afterWrite, set_task_same] at h
        cases h
      · rwa [Proxy.afterWrite, set_task_ne _ _ hd] at h
    refine ⟨hs.epoch_le, ?_, fun d' r h => hs.waiting_le d' r (hstamped d' r h), ?_, ?_⟩
    · intro r hr
      rcases List.mem_append.mp hr with hr | hr
      · exact hs.file_le r hr
      · obtain rfl := List.mem_singleton.mp hr
        exact hs.waiting_le d r hstage
    · intro r hr d' r' h
      rcases List.mem_append.mp hr with hr | hr
      · exact hs.file_waiting r hr d' r' (hstamped d' r' h)
      · obtain rfl := List.mem_singleton.mp hr
        exact hnew d' r' (hstamped d' r' h)
    · refine List.pairwise_append.mpr ⟨hs.ordered, List.pairwise_singleton _ _, fun a ha b hb => ?_⟩
      obtain rfl := List.mem_singleton.mp hb
      exact hfile a ha
  | forward d n left hstage => exact set_times hs fun r hr => by cases hr
  | next d hstage => exact set_times hs fun r hr => by cases hr
  | forwardFails d left hstage => exact set_times hs fun r hr => by cases hr

/-- Where every record is written in its turn, the times in the file never go back. -/
theorem offsets_ordered {epochNs : UInt64} {s : Proxy} (h : Run (Guarded Step InTurn) (init epochNs) s) :
    Ordered s.records :=
  (run_invariant (fun a b hab => step_times a b hab.1 hab.2) h (init_times epochNs)).ordered

/-- A record written out of its turn: the times go back as soon as the earlier one follows. -/
theorem overtaken {s : Proxy} {d d' : Direction} {r r' : Record} (hne : d' ≠ d) (h : (s.task d).stage = .stamped r)
    (h' : (s.task d').stage = .stamped r') (hlt : r'.offsetNs < r.offsetNs) :
    ∃ t u, Step s t ∧ Step t u ∧ u.records = s.records ++ [r] ++ [r'] ∧ ¬Ordered u.records := by
  have hstage : ((s.afterWrite d r).task d').stage = .stamped r' := by
    rw [Proxy.afterWrite, set_task_ne _ _ hne]
    exact h'
  refine ⟨_, _, .writeRecord s d r h, .writeRecord _ d' r' hstage, rfl, fun hord => ?_⟩
  have hle : r.offsetNs ≤ r'.offsetNs := (List.pairwise_append.mp hord).2.2 r (by simp [Proxy.afterWrite]) r' (by simp)
  exact absurd hlt (UInt64.not_lt.mpr hle)

/-- A step that writes nothing is in turn. -/
theorem InTurn.of_records_eq {s t : Proxy} (h : t.records = s.records) : InTurn s t := by
  intro r hr
  rw [h] at hr
  exact absurd (congrArg List.length hr) (by simp)

/-- The client's chunk is read, and its time is 5. -/
def clientStamped : Proxy :=
  ({ (init 0).afterRead .clientToDaemon [1] with now := 5 } : Proxy).afterStamp .clientToDaemon [1]

/-- Both tasks have a record waiting, the client's one nanosecond older. -/
def bothStamped : Proxy :=
  ({ clientStamped.afterRead .daemonToClient [2] with now := 6 } : Proxy).afterStamp .daemonToClient [2]

theorem bothStamped_reached : Run (Guarded Step InTurn) (init 0) bothStamped := by
  have hguard : ∀ {s t : Proxy}, Step s t → t.records = s.records → Guarded Step InTurn s t :=
    fun h hr => ⟨h, InTurn.of_records_eq hr⟩
  have hclient : Run (Guarded Step InTurn) (init 0) clientStamped := by
    refine Relation.ReflTransGen.tail ?_ (hguard (.takeTime _ .clientToDaemon [1] rfl) rfl)
    refine Relation.ReflTransGen.tail ?_ (hguard (.tick _ 5 (by decide)) rfl)
    exact Relation.ReflTransGen.single (hguard (.read _ .clientToDaemon [1] rfl (by decide) (by decide)) rfl)
  refine Relation.ReflTransGen.tail ?_ (hguard (.takeTime _ .daemonToClient [2] rfl) rfl)
  refine Relation.ReflTransGen.tail ?_ (hguard (.tick _ 6 (by decide)) rfl)
  exact hclient.tail (hguard (.read _ .daemonToClient [2] rfl (by decide) (by decide)) rfl)

/-- The client's record is written first: the times stay in order. -/
theorem offsets_ordered_client : Ordered (bothStamped.afterWrite .clientToDaemon ⟨5, .clientToDaemon, [1]⟩).records := by
  have hstep := Step.writeRecord bothStamped .clientToDaemon ⟨5, .clientToDaemon, [1]⟩ rfl
  refine offsets_ordered (bothStamped_reached.tail ⟨hstep, ?_⟩)
  intro r hr d r' hr'
  obtain rfl : ⟨5, .clientToDaemon, [1]⟩ = r := by simpa [bothStamped, Proxy.afterWrite] using hr
  cases d with
  | clientToDaemon => cases hr'; decide
  | daemonToClient => cases hr'; decide

/-- The daemon's is written first: the times go back. -/
theorem offsets_backwards : ¬∀ s, Run Step (init 0) s → Ordered s.records := by
  intro hall
  obtain ⟨t, u, ht, hu, -, hnot⟩ := overtaken (by decide) (rfl : (bothStamped.task .daemonToClient).stage = .stamped _)
    (rfl : (bothStamped.task .clientToDaemon).stage = .stamped _) (by decide)
  exact hnot (hall u ((bothStamped_reached.of_guarded.tail ht).tail hu))

end NixWire.Recorder
