/-
  NixWire.Paths — the names of recordings (record.rs, `next_recording_path`).

  A caller scans the output directory for the highest `NNNN.nixwire`, adds one to its
  process's counter, takes the greater of the two for its id, and creates the file. The
  steps of any number of callers, in any processes, interleave freely.

  - `paths_fresh`: no two callers get one path, and none gets the path of a file that
    exists, in a run where whoever adds to the counter is ahead: its scan or its counter is
    past every id in use.
  - `scanned_ahead` / `one_process_fresh`: a caller nobody comes between is ahead, and so is
    every caller of one process that starts on a directory without recordings.
  - `taken_twice`: an id in use is taken again.
-/

import NixWire.Base.Steps
import NixWire.Base.Text
import NixWire.Base.Number
import Mathlib.Logic.Function.Basic

namespace NixWire.Paths

open Base

def suffix : Str := ".nixwire".toList

/-- The id in a file's name. -/
def recordingId (name : Str) : Option UInt64 := (stripSuffix suffix name).bind parseU64

/-- `{id:04}.nixwire`. -/
def recordingName (id : UInt64) : Str := zeroPad 4 (decimal id.toNat) ++ suffix

/-- What the scan of one more name makes of the next id; the addition wraps. -/
def scanName (nextId : UInt64) (name : Str) : UInt64 :=
  match recordingId name with
  | some id => max nextId (id + 1)
  | none => nextId

/-- One past the highest id among the names. -/
def scanNextId (names : List Str) : UInt64 := names.foldl scanName 0

/-! ## Names -/

@[simp] theorem recordingId_name (id : UInt64) : recordingId (recordingName id) = some id := by
  rw [recordingId, recordingName, stripSuffix_append, Option.bind_some, parseU64_zeroPad]

theorem recordingName_inj {a b : UInt64} (h : recordingName a = recordingName b) : a = b := by
  have hid := congrArg recordingId h
  rw [recordingId_name, recordingId_name] at hid
  exact Option.some.inj hid

/-- The last id, past which there is none. -/
def lastId : UInt64 := 0xffffffffffffffff

theorem le_max (a b : UInt64) : a ≤ max a b ∧ b ≤ max a b := by
  show a ≤ (if a ≤ b then b else a) ∧ b ≤ (if a ≤ b then b else a)
  split
  · exact ⟨‹a ≤ b›, UInt64.le_refl b⟩
  · exact ⟨UInt64.le_refl a, UInt64.le_of_lt (UInt64.not_le.mp ‹¬a ≤ b›)⟩

theorem lt_succ {id : UInt64} (h : id ≠ lastId) : id < id + 1 := by
  have hlt := id.toNat_lt
  have hne : id.toNat ≠ 2 ^ 64 - 1 := fun he => h (UInt64.toNat_inj.mp he)
  rw [UInt64.lt_iff_toNat_lt, UInt64.toNat_add]
  show id.toNat < (id.toNat + 1) % 2 ^ 64
  rw [Nat.mod_eq_of_lt (by omega)]
  omega

theorem max_le {a b c : UInt64} (ha : a ≤ c) (hb : b ≤ c) : max a b ≤ c := by
  show (if a ≤ b then b else a) ≤ c
  split
  · exact hb
  · exact ha

theorem succ_le {id bound : UInt64} (h : id < bound) : id + 1 ≤ bound := by
  have hlt := UInt64.lt_iff_toNat_lt.mp h
  have hbound := bound.toNat_lt
  rw [UInt64.le_iff_toNat_le, UInt64.toNat_add]
  show (id.toNat + 1) % 2 ^ 64 ≤ bound.toNat
  rw [Nat.mod_eq_of_lt (by omega)]
  omega

theorem le_scanName (nextId : UInt64) (name : Str) : nextId ≤ scanName nextId name := by
  unfold scanName
  split
  · exact (le_max nextId _).1
  · exact UInt64.le_refl nextId

theorem le_foldl_scanName (names : List Str) (nextId : UInt64) : nextId ≤ names.foldl scanName nextId := by
  induction names generalizing nextId with
  | nil => exact UInt64.le_refl nextId
  | cons name names ih => exact UInt64.le_trans (le_scanName nextId name) (ih _)

/-- The scan's id is above every id in the directory but the last. -/
theorem scan_fresh {names : List Str} {name : Str} {id : UInt64} (hname : name ∈ names) (hid : recordingId name = some id)
    (hlast : id ≠ lastId) : id < scanNextId names := by
  obtain ⟨before, after, rfl⟩ := List.append_of_mem hname
  rw [scanNextId, List.foldl_append, List.foldl_cons]
  refine UInt64.lt_of_lt_of_le (lt_succ hlast) (UInt64.le_trans ?_ (le_foldl_scanName after _))
  rw [scanName, hid]
  exact (le_max _ _).2

/-- Past the ids in the directory the scan does not go further. -/
theorem scan_le {names : List Str} {bound : UInt64}
    (hnames : ∀ name ∈ names, ∀ id, recordingId name = some id → id < bound) : scanNextId names ≤ bound := by
  refine List.foldlRecOn names scanName (motive := (· ≤ bound)) UInt64.zero_le fun nextId hnext name hname => ?_
  unfold scanName
  split
  · exact max_le hnext (succ_le (hnames name hname _ ‹_›))
  · exact hnext

/-! ## Callers -/

/-- How far a caller has come. -/
inductive Stage where
  | idle
  | scanned (nextId : UInt64)
  /-- It has its path, and has not created the file. -/
  | chosen (id : UInt64)
  | created (id : UInt64)
  | createFailed (id : UInt64)
  | scanFailed
  deriving DecidableEq, Repr

/-- The id of the path a caller got. -/
def Stage.id : Stage → Option UInt64
  | .chosen id | .created id | .createFailed id => some id
  | _ => none

section

variable {π ι : Type} [DecidableEq π] [DecidableEq ι]

structure World (π ι : Type) where
  /-- The names in the output directory. -/
  files : List Str
  /-- Each process's `SESSION_COUNTER`. -/
  counter : π → UInt64
  stage : ι → Stage

def World.init (files : List Str) : World π ι := ⟨files, fun _ => 0, fun _ => .idle⟩

def World.set (s : World π ι) (c : ι) (stage : Stage) : World π ι := { s with stage := Function.update s.stage c stage }

/-- A caller's next step; `process c` is the process it runs in. -/
inductive Step (process : ι → π) : World π ι → World π ι → Prop
  | scan (s : World π ι) (c : ι) : s.stage c = .idle → Step process s (s.set c (.scanned (scanNextId s.files)))
  | scanFails (s : World π ι) (c : ι) : s.stage c = .idle → Step process s (s.set c .scanFailed)
  | fetchAdd (s : World π ι) (c : ι) (nextId : UInt64) : s.stage c = .scanned nextId →
      Step process s ({ s with counter := Function.update s.counter (process c) (s.counter (process c) + 1) }.set c
        (.chosen (max nextId (s.counter (process c)))))
  /-- `File::create` truncates a file that exists. -/
  | create (s : World π ι) (c : ι) (id : UInt64) : s.stage c = .chosen id →
      Step process s ({ s with files := s.files.insert (recordingName id) }.set c (.created id))
  | createFails (s : World π ι) (c : ι) (id : UInt64) : s.stage c = .chosen id →
      Step process s (s.set c (.createFailed id))

omit [DecidableEq π] in
@[simp] theorem set_counter (s : World π ι) (c : ι) (stage : Stage) : (s.set c stage).counter = s.counter := rfl

omit [DecidableEq π] in
@[simp] theorem set_stage_same (s : World π ι) (c : ι) (stage : Stage) : (s.set c stage).stage c = stage :=
  Function.update_self ..

omit [DecidableEq π] in
@[simp] theorem set_stage_ne (s : World π ι) {c c' : ι} (stage : Stage) (h : c' ≠ c) :
    (s.set c stage).stage c' = s.stage c' := Function.update_of_ne h ..

/-- No two callers got the same path, and no caller about to create its file would
    truncate another. -/
structure NoCollision (s : World π ι) : Prop where
  distinct : ∀ c c', c ≠ c' → ∀ id, (s.stage c).id = some id → (s.stage c').id ≠ some id
  fresh : ∀ c id, s.stage c = .chosen id → recordingName id ∉ s.files

/-- The id of a path handed out, or of a file. -/
def World.InUse (s : World π ι) (id : UInt64) : Prop := (∃ c, (s.stage c).id = some id) ∨ recordingName id ∈ s.files

/-- What a caller has scanned, or its process's counter, is past every id in use. -/
def World.Ahead (s : World π ι) (nextId counter : UInt64) : Prop :=
  (∀ id, s.InUse id → id < nextId) ∨ ∀ id, s.InUse id → id < counter

/-- If the step adds to a counter, the caller is ahead. -/
def TakesAhead (process : ι → π) (s t : World π ι) : Prop :=
  ∀ c nextId id, s.stage c = .scanned nextId → t.stage c = .chosen id → s.Ahead nextId (s.counter (process c))

/-! ## Paths do not collide -/

omit [DecidableEq ι] [DecidableEq π] in
theorem init_fresh (files : List Str) : NoCollision (World.init files : World π ι) where
  distinct := by simp [World.init, Stage.id]
  fresh := by simp [World.init]

omit [DecidableEq ι] [DecidableEq π] in
theorem World.Ahead.unused {s : World π ι} {nextId counter : UInt64} (h : s.Ahead nextId counter) :
    ¬s.InUse (max nextId counter) := by
  intro hused
  obtain ⟨hnext, hcounter⟩ := le_max nextId counter
  rcases h with h | h
  · exact UInt64.not_lt.mpr hnext (h _ hused)
  · exact UInt64.not_lt.mpr hcounter (h _ hused)

omit [DecidableEq π] in
/-- A step that gives the caller no new id leaves every id as it was. -/
theorem set_id (s : World π ι) (c : ι) (stage : Stage) (h : stage.id = (s.stage c).id) (c' : ι) :
    ((s.set c stage).stage c').id = (s.stage c').id := by
  by_cases hc : c' = c
  · subst hc
    rw [set_stage_same, h]
  · rw [set_stage_ne s stage hc]

omit [DecidableEq π] in
/-- A stage the step does not lead to is another caller's, from before. -/
theorem stage_of_set {s : World π ι} {c c' : ι} {stage stage' : Stage} (hne : stage ≠ stage')
    (h : (s.set c stage).stage c' = stage') : c' ≠ c ∧ s.stage c' = stage' := by
  by_cases hc : c' = c
  · subst hc
    rw [set_stage_same] at h
    exact absurd h hne
  · rw [set_stage_ne s stage hc] at h
    exact ⟨hc, h⟩

omit [DecidableEq π] in
/-- A step that hands out nothing. -/
theorem set_fresh {s : World π ι} (hs : NoCollision s) {c : ι} {stage : Stage} (hid : stage.id = (s.stage c).id)
    (hchosen : ∀ id, stage ≠ .chosen id) : NoCollision (s.set c stage) := by
  refine ⟨fun a b hab id ha => ?_, fun a id ha => ?_⟩
  · rw [set_id s c stage hid] at ha ⊢
    exact hs.distinct a b hab id ha
  · exact hs.fresh a id (stage_of_set (hchosen id) ha).2

omit [DecidableEq π] in
/-- A caller takes an id that is not in use. -/
theorem take_fresh {s : World π ι} (hs : NoCollision s) {c : ι} {id : UInt64} (hunused : ¬s.InUse id) (counter : π → UInt64) :
    NoCollision ({ s with counter := counter }.set c (.chosen id)) := by
  have hother : ∀ a, (s.stage a).id ≠ some id := fun a ha => hunused (Or.inl ⟨a, ha⟩)
  refine ⟨fun a b hab used ha hb => ?_, fun a used ha => ?_⟩
  · by_cases hac : a = c
    · subst hac
      rw [set_stage_same] at ha
      rw [set_stage_ne _ _ (Ne.symm hab)] at hb
      cases ha
      exact hother b hb
    · rw [set_stage_ne _ _ hac] at ha
      by_cases hbc : b = c
      · subst hbc
        rw [set_stage_same] at hb
        cases hb
        exact hother a ha
      · rw [set_stage_ne _ _ hbc] at hb
        exact hs.distinct a b hab used ha hb
  · by_cases hac : a = c
    · subst hac
      rw [set_stage_same] at ha
      cases ha
      exact fun hfile => hunused (Or.inr hfile)
    · rw [set_stage_ne _ _ hac] at ha
      exact hs.fresh a used ha

omit [DecidableEq π] in
/-- A caller creates its file, which no other caller has the path of. -/
theorem create_fresh {s : World π ι} (hs : NoCollision s) {c : ι} {id : UInt64} (hc : s.stage c = .chosen id) :
    NoCollision ({ s with files := s.files.insert (recordingName id) }.set c (.created id)) := by
  have hid : (s.stage c).id = some id := by rw [hc]; rfl
  have hids := set_id { s with files := s.files.insert (recordingName id) } c (.created id) hid.symm
  refine ⟨fun a b hab other ha => ?_, fun a other ha hfile => ?_⟩
  · rw [hids] at ha ⊢
    exact hs.distinct a b hab other ha
  · obtain ⟨hac, ha⟩ := stage_of_set (by simp) ha
    rcases List.mem_insert_iff.mp hfile with heq | hfile
    · obtain rfl := recordingName_inj heq
      exact hs.distinct c a (Ne.symm hac) other hid (by show (s.stage a).id = _; rw [ha]; rfl)
    · exact hs.fresh a other ha hfile

theorem step_fresh {process : ι → π} (s t : World π ι) (h : Step process s t) (hahead : TakesAhead process s t)
    (hs : NoCollision s) : NoCollision t := by
  cases h with
  | scan c hc => exact set_fresh hs (by rw [hc]; rfl) (by simp)
  | scanFails c hc => exact set_fresh hs (by rw [hc]; rfl) (by simp)
  | fetchAdd c nextId hc => exact take_fresh hs (hahead c nextId _ hc (set_stage_same ..)).unused _
  | create c id hc => exact create_fresh hs hc
  | createFails c id hc => exact set_fresh hs (by rw [hc]; rfl) (by simp)

/-- Where whoever adds to the counter is ahead, paths never collide. -/
theorem paths_fresh (process : ι → π) (files : List Str) {s : World π ι}
    (h : Run (Guarded (Step process) (TakesAhead process)) (World.init files) s) : NoCollision s :=
  run_invariant (fun a b hab => step_fresh a b hab.1 hab.2) h (init_fresh files)

/-- A caller that takes an id in use. -/
theorem taken_twice {process : ι → π} {s : World π ι} {c : ι} {nextId : UInt64} (hc : s.stage c = .scanned nextId)
    (hused : s.InUse (max nextId (s.counter (process c)))) : ∃ t, Step process s t ∧ ¬NoCollision t := by
  refine ⟨_, .fetchAdd s c nextId hc, fun hs => ?_⟩
  rcases hused with ⟨c', hc'⟩ | hfile
  · have hne : c' ≠ c := by
      intro h
      obtain rfl := h
      rw [hc] at hc'
      cases hc'
    refine hs.distinct c c' (Ne.symm hne) (max nextId (s.counter (process c))) ?_ ?_
    · rw [set_stage_same]
      rfl
    · rwa [set_stage_ne _ _ hne]
  · exact hs.fresh c _ (set_stage_same ..) hfile

/-! ## Who is ahead -/

omit [DecidableEq ι] [DecidableEq π] in
/-- A caller whose scan is up to date, once every path handed out is a file. -/
theorem scanned_ahead {s : World π ι} (hdisk : ∀ c id, (s.stage c).id = some id → recordingName id ∈ s.files)
    (hlast : recordingName lastId ∉ s.files) (counter : UInt64) : s.Ahead (scanNextId s.files) counter := by
  refine Or.inl fun id hused => ?_
  have hfile : recordingName id ∈ s.files := by
    rcases hused with ⟨c, hc⟩ | hfile
    · exact hdisk c id hc
    · exact hfile
  refine scan_fresh hfile (recordingId_name id) ?_
  intro h
  obtain rfl := h
  exact hlast hfile

/-- The counter of a process leads everything its callers know of. -/
structure Leads (s : World π ι) (counter : UInt64) : Prop where
  handedOut : ∀ c id, (s.stage c).id = some id → id < counter
  files : ∀ name ∈ s.files, ∀ id, recordingId name = some id → id < counter
  scanned : ∀ c nextId, s.stage c = .scanned nextId → nextId ≤ counter

omit [DecidableEq ι] [DecidableEq π] in
theorem Leads.ahead {s : World π ι} {counter : UInt64} (h : Leads s counter) (nextId : UInt64) : s.Ahead nextId counter := by
  refine Or.inr fun id hused => ?_
  rcases hused with ⟨c, hc⟩ | hfile
  · exact h.handedOut c id hc
  · exact h.files _ hfile id (recordingId_name id)

omit [DecidableEq π] in
/-- A step that hands out nothing and scans no further than the counter. -/
theorem set_leads {s : World π ι} {counter : UInt64} (h : Leads s counter) {c : ι} {stage : Stage}
    (hid : stage.id = (s.stage c).id) (hscan : ∀ nextId, stage = .scanned nextId → nextId ≤ counter) :
    Leads (s.set c stage) counter := by
  refine ⟨fun a id ha => ?_, h.files, fun a nextId ha => ?_⟩
  · rw [set_id s c stage hid] at ha
    exact h.handedOut a id ha
  · by_cases hac : a = c
    · subst hac
      rw [set_stage_same] at ha
      exact hscan nextId ha
    · rw [set_stage_ne _ _ hac] at ha
      exact h.scanned a nextId ha

/-- A step of the one process's callers, whose counter does not wrap. -/
theorem step_leads {p : π} {s t : World π ι} (h : Step (fun _ => p) s t) (hlast : s.counter p ≠ lastId)
    (hs : Leads s (s.counter p)) : Leads t (t.counter p) := by
  cases h with
  | scan c hc =>
    refine set_leads hs (by rw [hc]; rfl) fun nextId hnext => ?_
    cases hnext
    exact scan_le hs.files
  | scanFails c hc => exact set_leads hs (by rw [hc]; rfl) (by simp)
  | fetchAdd c nextId hc =>
    have hlt := lt_succ hlast
    have hmore : ∀ {id : UInt64}, id < s.counter p → id < s.counter p + 1 := fun h => UInt64.lt_trans h hlt
    simp only [set_counter, Function.update_self]
    refine ⟨fun a id ha => ?_, fun name hname id hid => hmore (hs.files name hname id hid), fun a m ha => ?_⟩
    · by_cases hac : a = c
      · subst hac
        rw [set_stage_same] at ha
        cases ha
        exact UInt64.lt_of_le_of_lt (max_le (hs.scanned a nextId hc) (UInt64.le_refl _)) hlt
      · rw [set_stage_ne _ _ hac] at ha
        exact hmore (hs.handedOut a id ha)
    · obtain ⟨-, ha⟩ := stage_of_set (by simp) ha
      exact UInt64.le_trans (hs.scanned a m ha) (UInt64.le_of_lt hlt)
  | create c id hc =>
    have hid : (s.stage c).id = some id := by rw [hc]; rfl
    refine ⟨fun a other ha => ?_, fun name hname other hother => ?_, fun a m ha => ?_⟩
    · rw [set_id { s with files := s.files.insert (recordingName id) } c (.created id) hid.symm] at ha
      exact hs.handedOut a other ha
    · rcases List.mem_insert_iff.mp hname with rfl | hname
      · rw [recordingId_name] at hother
        cases hother
        exact hs.handedOut c id hid
      · exact hs.files name hname other hother
    · exact hs.scanned a m (stage_of_set (by simp) ha).2
  | createFails c id hc => exact set_leads hs (by rw [hc]; rfl) (by simp)

/-- One process that starts on a directory without recordings: paths never collide, however
    its callers interleave, as long as the counter does not reach its end. -/
theorem one_process_fresh {p : π} {files : List Str} (hfiles : ∀ name ∈ files, recordingId name = none) {s : World π ι}
    (h : Run (Guarded (Step fun _ => p) fun s _ => s.counter p ≠ lastId) (World.init files) s) : NoCollision s := by
  have hinit : Leads (World.init files : World π ι) 0 := by
    refine ⟨by simp [World.init, Stage.id], fun name hname id hid => ?_, by simp [World.init]⟩
    rw [hfiles name hname] at hid
    cases hid
  have hstep : ∀ a b : World π ι, Guarded (Step fun _ => p) (fun s _ => s.counter p ≠ lastId) a b →
      Leads a (a.counter p) ∧ NoCollision a → Leads b (b.counter p) ∧ NoCollision b := by
    rintro a b ⟨hab, hlast⟩ ⟨hleads, hfresh⟩
    exact ⟨step_leads hab hlast hleads, step_fresh a b hab (fun _ nextId _ _ _ => hleads.ahead nextId) hfresh⟩
  exact (run_invariant hstep h ⟨hinit, init_fresh files⟩).2

end

/-! ## Two callers -/

section

variable {π : Type} [DecidableEq π] (process : Bool → π) (files : List Str) (nextId : UInt64)

/-- Both have scanned before either adds to its counter. -/
def bothScanned : World π Bool := ((World.init files).set true (.scanned nextId)).set false (.scanned nextId)

omit [DecidableEq π] in
theorem bothScanned_first : (bothScanned files nextId : World π Bool).stage true = .scanned nextId := by
  rw [bothScanned, set_stage_ne _ _ (by decide)]
  exact set_stage_same ..

omit [DecidableEq π] in
theorem bothScanned_id (c : Bool) : ((bothScanned files nextId : World π Bool).stage c).id = none := by
  cases c with
  | false => rfl
  | true => rw [bothScanned_first]; rfl

theorem bothScanned_reached {files : List Str} {nextId : UInt64} (h : scanNextId files = nextId) :
    Run (Guarded (Step process) (TakesAhead process)) (World.init files) (bothScanned files nextId) := by
  subst h
  have hfirst : Step process (World.init files) _ := .scan _ true rfl
  have hsecond : Step process _ (bothScanned files (scanNextId files)) :=
    .scan ((World.init files).set true (.scanned (scanNextId files))) false (set_stage_ne _ _ (by decide))
  refine Relation.ReflTransGen.tail (Relation.ReflTransGen.single ⟨hfirst, ?_⟩) ⟨hsecond, ?_⟩
  · intro c nextId id hc
    cases hc
  · intro c nextId id hc hchosen
    cases hc.symm.trans (stage_of_set (by simp) hchosen).2

/-- The first adds to its counter. -/
def firstChosen : World π Bool :=
  World.set { (bothScanned files nextId : World π Bool) with counter := Function.update (fun _ => 0) (process true) (0 + 1) } true
    (.chosen (max nextId 0))

theorem firstChosen_step : Step process (bothScanned files nextId) (firstChosen process files nextId) :=
  .fetchAdd _ true nextId (bothScanned_first files nextId)

theorem firstChosen_second : (firstChosen process files nextId).stage false = .scanned nextId := by
  rw [firstChosen, set_stage_ne _ _ (by decide)]
  rfl

/-- If the second's counter is no greater than what both scanned, it takes the first's id. -/
theorem second_collides (hcounter : max nextId ((firstChosen process files nextId).counter (process false)) = max nextId 0)
    (hscan : scanNextId files = nextId) : ¬∀ s, Run (Step process) (World.init files) s → NoCollision s := by
  intro hall
  have hreach := (bothScanned_reached process hscan).of_guarded.tail (firstChosen_step process files nextId)
  obtain ⟨t, hstep, hnot⟩ := taken_twice (firstChosen_second process files nextId) <| Or.inl ⟨true, by
    rw [hcounter, firstChosen, set_stage_same]
    rfl⟩
  exact hnot (hall t (hreach.tail hstep))

end

/-- On an empty directory the first takes 0 and the second, whom the counter has passed, 1. -/
theorem paths_fresh_first : ∃ s : World Unit Bool, s.stage true = .chosen 0 ∧ s.stage false = .chosen 1 ∧ NoCollision s := by
  let process : Bool → Unit := fun _ => ()
  have hsecond : Step process (firstChosen process [] 0) _ := .fetchAdd _ false 0 (firstChosen_second process [] 0)
  refine ⟨_, ?_, ?_, paths_fresh process []
    (((bothScanned_reached process rfl).tail ⟨firstChosen_step process [] 0, ?_⟩).tail ⟨hsecond, ?_⟩)⟩
  · rw [set_stage_ne _ _ (by decide)]
    rfl
  · rw [set_stage_same]
    decide
  · -- nothing is in use
    refine fun c nextId id _ _ => Or.inl fun used hused => ?_
    rcases hused with ⟨a, ha⟩ | hfile
    · rw [bothScanned_id] at ha
      cases ha
    · cases hfile
  · -- only 0 is, and the counter is 1
    refine fun c nextId id _ _ => Or.inr fun used hused => ?_
    rcases hused with ⟨a, ha⟩ | hfile
    · cases a with
      | false => rw [firstChosen_second] at ha; cases ha
      | true =>
        cases ha
        show (0 : UInt64) < 1
        decide
    · cases hfile

/-- With the recording 4 in the directory both take 5: two callers of one process, and two
    processes with a caller each. -/
theorem paths_collide : (¬∀ s, Run (Step fun _ : Bool => ()) (World.init ["0004.nixwire".toList]) s → NoCollision s) ∧
    ¬∀ s, Run (Step fun c : Bool => c) (World.init ["0004.nixwire".toList]) s → NoCollision s :=
  ⟨second_collides (fun _ => ()) ["0004.nixwire".toList] 5 (by decide) (by decide),
    second_collides (fun c => c) ["0004.nixwire".toList] 5 (by decide) (by decide)⟩

end NixWire.Paths
