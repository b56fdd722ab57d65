/-
  NixWire.Sessions — the recordings of socket mode (record.rs, `run_socket_mode`).

  At start-up the counter is set past the highest `NNNN.nixwire` of the output directory.
  Every accepted connection takes the counter's value for its session and adds one; the
  session's task then creates its file, in any order with the others.

  - `sessions_fresh`: as long as the counter does not wrap, no session gets the name of a
    file of the start, or another session's, and none truncates a file.

  The addition in the scan wraps, so a file `18446744073709551615.nixwire` does not raise
  the counter; its name is the one no session gets before the counter wraps.
-/

import NixWire.Paths

namespace NixWire.Sessions

open Base Paths

variable {ι : Type} [DecidableEq ι]

/-- Listening: `scan_next_id` has run, and its result is in the counter. -/
def listening (files : List Str) : World Unit ι := ⟨files, fun _ => scanNextId files, fun _ => .idle⟩

/-- The accept loop takes the session's id from the counter: `fetch_add(1)`. -/
def accepted (s : World Unit ι) (c : ι) : World Unit ι :=
  { s with counter := Function.update s.counter () (s.counter () + 1) }.set c (.chosen (s.counter ()))

inductive Step : World Unit ι → World Unit ι → Prop
  | accept (s : World Unit ι) (c : ι) : s.stage c = .idle → Step s (accepted s c)
  /-- `handle_connection` creates the file. -/
  | create (s : World Unit ι) (c : ι) (id : UInt64) : s.stage c = .chosen id →
      Step s ({ s with files := s.files.insert (recordingName id) }.set c (.created id))
  | createFails (s : World Unit ι) (c : ι) (id : UInt64) : s.stage c = .chosen id → Step s (s.set c (.createFailed id))

omit [DecidableEq ι] in
/-- The step does not take the counter past its end. -/
def NoWrap (s t : World Unit ι) : Prop := s.counter () ≤ t.counter ()

@[simp] theorem accepted_counter (s : World Unit ι) (c : ι) : (accepted s c).counter () = s.counter () + 1 := by
  simp only [accepted, set_counter, Function.update_self]

/-- What the counter has handed out since the start. -/
structure Issued (files : List Str) (s : World Unit ι) : Prop where
  base : scanNextId files ≤ s.counter ()
  handedOut : ∀ c id, (s.stage c).id = some id → scanNextId files ≤ id ∧ id < s.counter ()
  present : ∀ name ∈ s.files, name ∈ files ∨ ∃ c id, (s.stage c).id = some id ∧ name = recordingName id

omit [DecidableEq ι] in
theorem listening_issued (files : List Str) : Issued files (listening files : World Unit ι) where
  base := UInt64.le_refl _
  handedOut := by simp [listening, Stage.id]
  present := fun _ h => Or.inl h

omit [DecidableEq ι] in
theorem ne_lastId {id bound : UInt64} (h : id < bound) : id ≠ lastId := by
  rintro rfl
  have hlt := UInt64.lt_iff_toNat_lt.mp h
  have hbound := bound.toNat_lt
  have hlast : lastId.toNat = 2 ^ 64 - 1 := rfl
  omega

omit [DecidableEq ι] in
/-- An id from the scan on, but the last, is not in the directory. -/
theorem not_scanned {files : List Str} {id : UInt64} (h : scanNextId files ≤ id) (hlast : id ≠ lastId) :
    recordingName id ∉ files := by
  intro hfile
  exact UInt64.not_lt.mpr h (scan_fresh hfile (recordingId_name id) hlast)

omit [DecidableEq ι] in
theorem Issued.unused {files : List Str} {s : World Unit ι} (h : Issued files s) (hlast : s.counter () ≠ lastId) :
    ¬s.InUse (s.counter ()) := by
  have hhanded : ∀ c, (s.stage c).id ≠ some (s.counter ()) := fun c hc => UInt64.lt_irrefl _ (h.handedOut c _ hc).2
  rintro (⟨c, hc⟩ | hfile)
  · exact hhanded c hc
  · rcases h.present _ hfile with hfile | ⟨c, id, hc, hname⟩
    · exact not_scanned h.base hlast hfile
    · rw [← recordingName_inj hname] at hc
      exact hhanded c hc

/-- A step that hands out nothing. -/
theorem set_issued {files : List Str} {s : World Unit ι} (h : Issued files s) {c : ι} {stage : Stage}
    (hid : stage.id = (s.stage c).id) : Issued files (s.set c stage) := by
  refine ⟨h.base, fun a id ha => ?_, fun name hname => ?_⟩
  · rw [set_id s c stage hid] at ha
    exact h.handedOut a id ha
  · refine (h.present name hname).imp_right ?_
    rintro ⟨a, id, ha, rfl⟩
    exact ⟨a, id, by rwa [set_id s c stage hid], rfl⟩

theorem accept_lastId {s : World Unit ι} {c : ι} (h : NoWrap s (accepted s c)) : s.counter () ≠ lastId := by
  intro hlast
  unfold NoWrap at h
  rw [accepted_counter, hlast] at h
  revert h
  decide

theorem step_issued {files : List Str} {s t : World Unit ι} (h : Step s t) (hwrap : NoWrap s t) (hs : Issued files s) :
    Issued files t := by
  cases h with
  | accept c hc =>
    have hlt := lt_succ (accept_lastId hwrap)
    have hold : ∀ a id, (s.stage a).id = some id → a ≠ c := by
      rintro a id ha rfl
      rw [hc] at ha
      cases ha
    refine ⟨UInt64.le_trans hs.base hwrap, fun a id ha => ?_, fun name hname => ?_⟩
    · rw [accepted_counter]
      by_cases hac : a = c
      · subst hac
        rw [accepted, set_stage_same] at ha
        cases ha
        exact ⟨hs.base, hlt⟩
      · rw [accepted, set_stage_ne _ _ hac] at ha
        obtain ⟨hbase, hbound⟩ := hs.handedOut a id ha
        exact ⟨hbase, UInt64.lt_trans hbound hlt⟩
    · refine (hs.present name hname).imp_right ?_
      rintro ⟨a, id, ha, rfl⟩
      exact ⟨a, id, by rwa [accepted, set_stage_ne _ _ (hold a id ha)], rfl⟩
  | create c id hc =>
    have hid : (s.stage c).id = some id := by rw [hc]; rfl
    have hfiles : Issued files { s with files := s.files.insert (recordingName id) } := by
      refine ⟨hs.base, hs.handedOut, fun name hname => ?_⟩
      rcases List.mem_insert_iff.mp hname with rfl | hname
      · exact Or.inr ⟨c, id, hid, rfl⟩
      · exact hs.present name hname
    exact set_issued hfiles hid.symm
  | createFails c id hc => exact set_issued hs (by rw [hc]; rfl)

theorem step_fresh {files : List Str} {s t : World Unit ι} (h : Step s t) (hwrap : NoWrap s t) (hs : Issued files s)
    (hfresh : NoCollision s) : NoCollision t := by
  cases h with
  | accept c hc => exact take_fresh hfresh (hs.unused (accept_lastId hwrap)) _
  | create c id hc => exact create_fresh hfresh hc
  | createFails c id hc => exact set_fresh hfresh (by rw [hc]; rfl) (by simp)

/-- No session's file has the name of a file that was there at the start, or of another
    session's file; and a session about to create its file overwrites none. -/
theorem sessions_fresh (files : List Str) {s : World Unit ι} (h : Run (Guarded Step NoWrap) (listening files) s) :
    (∀ c id, (s.stage c).id = some id → recordingName id ∉ files ∧
      ∀ c' ≠ c, ∀ id', (s.stage c').id = some id' → recordingName id' ≠ recordingName id) ∧
    ∀ c id, s.stage c = .chosen id → recordingName id ∉ s.files := by
  have hstart : NoCollision (listening files : World Unit ι) := ⟨by simp [listening, Stage.id], by simp [listening]⟩
  have hstep : ∀ a b : World Unit ι, Guarded Step NoWrap a b → Issued files a ∧ NoCollision a → Issued files b ∧ NoCollision b :=
    fun a b hab hinv => ⟨step_issued hab.1 hab.2 hinv.1, step_fresh hab.1 hab.2 hinv.1 hinv.2⟩
  obtain ⟨hissued, hfresh⟩ := run_invariant hstep h ⟨listening_issued files, hstart⟩
  refine ⟨fun c id hc => ⟨?_, fun c' hne id' hc' hname => ?_⟩, hfresh.fresh⟩
  · obtain ⟨hbase, hbound⟩ := hissued.handedOut c id hc
    exact not_scanned hbase (ne_lastId hbound)
  · rw [recordingName_inj hname] at hc'
    exact hfresh.distinct c c' hne.symm id hc hc'

/-- Over the recording 4, the second of two sessions creates its file 6 before the first
    creates 5. -/
theorem sessions_fresh_two : ∃ s : World Unit Bool, s.stage true = .created 5 ∧ s.stage false = .created 6 ∧
    recordingName 5 ∉ ["0004.nixwire".toList, "notes".toList] ∧ recordingName 6 ≠ recordingName 5 := by
  let files : List Str := ["0004.nixwire".toList, "notes".toList]
  let both : World Unit Bool := accepted (accepted (listening files) true) false
  let first : World Unit Bool := { both with files := both.files.insert (recordingName 6) }.set false (.created 6)
  let last : World Unit Bool := { first with files := first.files.insert (recordingName 5) }.set true (.created 5)
  have hfirst : Guarded Step NoWrap (listening files) (accepted (listening files) true) := by
    refine ⟨.accept (listening files) true rfl, ?_⟩
    show (5 : UInt64) ≤ 5 + 1
    decide
  have hsecond : Guarded Step NoWrap (accepted (listening files) true) both := by
    refine ⟨.accept (accepted (listening files) true) false rfl, ?_⟩
    show (6 : UInt64) ≤ 6 + 1
    decide
  have hcreate : Guarded Step NoWrap both first := ⟨.create both false 6 rfl, UInt64.le_refl _⟩
  have hlast : Guarded Step NoWrap first last := ⟨.create first true 5 rfl, UInt64.le_refl _⟩
  have hrun : Run (Guarded Step NoWrap) (listening files) last :=
    (((Relation.ReflTransGen.single hfirst).tail hsecond).tail hcreate).tail hlast
  obtain ⟨hnew, -⟩ := sessions_fresh files hrun
  obtain ⟨hstart, hother⟩ := hnew true 5 rfl
  exact ⟨last, rfl, rfl, hstart, hother false (by decide) 6 rfl⟩

end NixWire.Sessions
