/-
  NixWire.Takeover — the recorder's use of the daemon's socket (record.rs,
  `run_socket_mode`).

  The recorder moves the daemon's socket to socket.orig, binds its own in its place, and on
  a signal removes its own and moves the daemon's back. Any step may fail, and a crash may
  come between any two; runs follow one another. Renaming replaces its target, binding
  needs a free path, and a socket file outlives its process.

  Over every sequence of runs:
  - `daemon_kept`: the daemon's socket is at one of the two paths.
  - `returned_iff`: a run returns with it at its own path exactly when the step it returns
    by is not a failure with the daemon's socket at socket.orig; so in a sequence of runs
    without such a failure it always does (`socket_given_back`).
  - `crash_is_final`: after a crash while listening, no run gives it back.
-/

import NixWire.Base.Steps

namespace NixWire.Takeover

open Base

/-- What is at a path. -/
inductive File where
  | absent
  | daemon
  | proxy
  deriving DecidableEq, Repr

/-- The next step of a run, or how it ended. -/
inductive Pc where
  | idle
  /-- `create_dir_all` on the output directory. -/
  | createDir
  /-- `scan_next_id`. -/
  | scan
  /-- `orig_path.exists()`. -/
  | checkOrig
  /-- socket to socket.orig. -/
  | takeOver
  | bind
  | listening
  /-- The proxy's socket, after the signal. -/
  | remove
  /-- socket.orig to socket. -/
  | restore
  | returned (ok : Bool)
  | crashed
  deriving DecidableEq, Repr

structure Machine where
  socket : File
  orig : File
  pc : Pc
  deriving DecidableEq, Repr

def init : Machine := ⟨.daemon, .absent, .idle⟩

inductive Event where
  /-- A run begins. -/
  | start
  | done
  | fails
  | crash
  deriving DecidableEq, Repr

def Pc.running : Pc → Bool
  | .idle | .returned _ | .crashed => false
  | _ => true

def step (s : Machine) (e : Event) : Option Machine :=
  match s.pc, e with
  | .idle, .start | .returned _, .start | .crashed, .start => some { s with pc := .createDir }
  | .createDir, .done => some { s with pc := .scan }
  | .createDir, .fails => some { s with pc := .returned false }
  | .scan, .done => some { s with pc := .checkOrig }
  | .scan, .fails => some { s with pc := .returned false }
  -- a socket.orig left by a crash is used again
  | .checkOrig, .done => some { s with pc := if s.orig = .absent then .takeOver else .bind }
  | .takeOver, .done =>
    if s.socket = .absent then none else some { socket := .absent, orig := s.socket, pc := .bind }
  | .takeOver, .fails => some { s with pc := .returned false }
  | .bind, .done => if s.socket = .absent then some { s with socket := .proxy, pc := .listening } else none
  | .bind, .fails => some { s with pc := .returned false }
  | .listening, .done => some { s with pc := .remove }
  | .remove, .done => if s.socket = .absent then none else some { s with socket := .absent, pc := .restore }
  -- only a warning
  | .remove, .fails => some { s with pc := .restore }
  | .restore, .done =>
    if s.orig = .absent then none else some { socket := s.orig, orig := .absent, pc := .returned true }
  -- logged, and the run returns all the same
  | .restore, .fails => some { s with pc := .returned true }
  | pc, .crash => if pc.running then some { s with pc := .crashed } else none
  | _, _ => none

def Step (s t : Machine) : Prop := ∃ e, step s e = some t

/-- A step that is no failure with socket.orig in use, but for the removal of the proxy's
    socket. -/
def Calm (s t : Machine) : Prop := ∃ e, step s e = some t ∧ (e = .fails → s.pc = .remove ∨ s.orig = .absent)

/-! ## The invariant -/

structure Inv (s : Machine) : Prop where
  /-- The daemon's socket is at one path, and nothing else is at socket.orig. -/
  placed : (s.socket = .daemon ∧ s.orig = .absent) ∨ (s.socket ≠ .daemon ∧ s.orig = .daemon)
  moved : s.pc = .bind ∨ s.pc = .listening ∨ s.pc = .remove ∨ s.pc = .restore → s.orig = .daemon
  unmoved : s.pc = .takeOver → s.orig = .absent

theorem init_inv : Inv init := ⟨Or.inl ⟨rfl, rfl⟩, by simp [init], by simp [init]⟩

/-- A step that leaves the directory alone and leads to no step that relies on it. -/
theorem Inv.elsewhere {s : Machine} (hs : Inv s) {pc : Pc} (h : pc = .idle ∨ pc = .createDir ∨ pc = .scan ∨ pc = .checkOrig ∨
    pc = .crashed ∨ ∃ ok, pc = .returned ok) : Inv { s with pc := pc } := by
  refine ⟨hs.placed, ?_, ?_⟩
  · rintro (rfl | rfl | rfl | rfl) <;> simp at h
  · intro h
    obtain rfl := h
    simp at h

theorem step_inv (s t : Machine) (h : Step s t) (hs : Inv s) : Inv t := by
  obtain ⟨e, h⟩ := h
  obtain ⟨socket, orig, pc⟩ := s
  obtain ⟨hplaced, hmoved, hunmoved⟩ := id hs
  cases e with
  | crash =>
    cases pc <;> simp [step, Pc.running] at h <;> subst h <;> exact hs.elsewhere (by simp)
  | start =>
    cases pc <;> simp [step] at h <;> subst h <;> exact hs.elsewhere (by simp)
  | done =>
    cases pc with
    | createDir => cases h; exact hs.elsewhere (by simp)
    | scan => cases h; exact hs.elsewhere (by simp)
    | checkOrig =>
      cases h
      by_cases ho : orig = .absent
      · subst ho
        exact ⟨hplaced, by simp, fun _ => rfl⟩
      · have hd : orig = .daemon := by
          rcases hplaced with h | h
          · exact absurd h.2 ho
          · exact h.2
        subst hd
        exact ⟨hplaced, fun _ => rfl, by simp⟩
    | takeOver =>
      have ho : orig = .absent := hunmoved rfl
      have hsocket : socket = .daemon := by simpa [ho] using hplaced
      subst ho hsocket
      cases h
      exact ⟨Or.inr ⟨by simp, rfl⟩, fun _ => rfl, by simp⟩
    | bind =>
      have ho : orig = .daemon := hmoved (by simp)
      subst ho
      simp only [step] at h
      split at h
      · cases h
        exact ⟨Or.inr ⟨by simp, rfl⟩, fun _ => rfl, by simp⟩
      · cases h
    | listening =>
      have ho : orig = .daemon := hmoved (by simp)
      cases h
      exact ⟨hplaced, fun _ => ho, by simp⟩
    | remove =>
      have ho : orig = .daemon := hmoved (by simp)
      simp only [step] at h
      split at h
      · cases h
      · cases h
        exact ⟨Or.inr ⟨by simp, ho⟩, fun _ => ho, by simp⟩
    | restore =>
      have ho : orig = .daemon := hmoved (by simp)
      subst ho
      cases h
      exact ⟨Or.inl ⟨rfl, rfl⟩, by simp, by simp⟩
    | idle => cases h
    | returned ok => cases h
    | crashed => cases h
  | fails =>
    cases pc with
    | remove =>
      have ho : orig = .daemon := hmoved (by simp)
      cases h
      exact ⟨hplaced, fun _ => ho, by simp⟩
    | createDir => cases h; exact hs.elsewhere (by simp)
    | scan => cases h; exact hs.elsewhere (by simp)
    | takeOver => cases h; exact hs.elsewhere (by simp)
    | bind => cases h; exact hs.elsewhere (by simp)
    | restore => cases h; exact hs.elsewhere (by simp)
    | checkOrig => cases h
    | listening => cases h
    | idle => cases h
    | returned ok => cases h
    | crashed => cases h

theorem run_inv {s : Machine} (h : Run Step init s) : Inv s := run_invariant step_inv h init_inv

/-! ## The socket is given back -/

/-- The daemon's socket is never lost. -/
theorem daemon_kept {s : Machine} (h : Run Step init s) : s.socket = .daemon ∨ s.orig = .daemon := by
  rcases (run_inv h).placed with h | h
  · exact Or.inl h.1
  · exact Or.inr h.2

/-- A run returns with the daemon's socket in its place exactly when it does not return by a
    failure with socket.orig in use. -/
theorem returned_iff {s t : Machine} {e : Event} {ok : Bool} (hs : Inv s) (h : step s e = some t) (ht : t.pc = .returned ok) :
    t.socket = .daemon ↔ (e = .fails → s.orig = .absent) := by
  have hplaced := hs.placed
  -- a failure leaves the directory as it was
  have hfails : ∀ ok', t = { s with pc := .returned ok' } → e = .fails →
      (t.socket = .daemon ↔ (e = .fails → s.orig = .absent)) := by
    rintro ok' rfl rfl
    rcases hplaced with ⟨h₁, h₂⟩ | ⟨h₁, h₂⟩
    · simp [h₁, h₂]
    · simp [h₁, h₂]
  obtain ⟨socket, orig, pc⟩ := s
  cases e with
  | crash => cases pc <;> simp [step, Pc.running] at h <;> subst h <;> cases ht
  | start => cases pc <;> simp [step] at h <;> subst h <;> cases ht
  | fails =>
    cases pc <;> simp only [step, Option.some.injEq, reduceCtorEq] at h
    case remove => subst h; cases ht
    all_goals exact hfails _ h.symm rfl
  | done =>
    cases pc with
    | restore =>
      have ho : orig = .daemon := hs.moved (by simp)
      subst ho
      cases h
      simp
    | checkOrig =>
      cases h
      simp only at ht
      split at ht <;> cases ht
    | createDir => cases h; cases ht
    | scan => cases h; cases ht
    | takeOver => simp only [step] at h; split at h <;> cases h; cases ht
    | bind => simp only [step] at h; split at h <;> cases h; cases ht
    | listening => cases h; cases ht
    | remove => simp only [step] at h; split at h <;> cases h; cases ht
    | idle => cases h
    | returned ok => cases h
    | crashed => cases h

theorem Calm.step {s t : Machine} (h : Calm s t) : Step s t := h.imp fun _ he => he.1

/-- What a calm run returns leaves the daemon's socket in its place. -/
theorem calm_returned {s t : Machine} (h : Calm s t) (hs : Inv s) : ∀ ok, t.pc = .returned ok → t.socket = .daemon := by
  intro ok ht
  obtain ⟨e, he, hcalm⟩ := h
  refine (returned_iff hs he ht).mpr fun hfails => ?_
  rcases hcalm hfails with hremove | hfree
  · -- a failed removal does not return
    subst hfails
    obtain ⟨socket, orig, pc⟩ := s
    subst hremove
    cases he
    cases ht
  · exact hfree

/-- The daemon's socket is never lost; where no step fails with socket.orig in use, every
    run that returns has put it back; a run that returns otherwise has not. -/
theorem socket_given_back {s : Machine} (hs : Run Step init s) : (s.socket = .daemon ∨ s.orig = .daemon) ∧
    (Run Calm init s → ∀ ok, s.pc = .returned ok → s.socket = .daemon) ∧
    (∀ t e ok, step s e = some t → t.pc = .returned ok → (t.socket = .daemon ↔ (e = .fails → s.orig = .absent))) := by
  refine ⟨daemon_kept hs, fun hcalm => ?_, fun t e ok h ht => returned_iff (run_inv hs) h ht⟩
  have hstep : ∀ a b, Calm a b → (Inv a ∧ ∀ ok, a.pc = .returned ok → a.socket = .daemon) →
      Inv b ∧ ∀ ok, b.pc = .returned ok → b.socket = .daemon :=
    fun a b hab hi => ⟨step_inv a b hab.step hi.1, calm_returned hab hi.1⟩
  have hinit : Inv init ∧ ∀ ok, init.pc = .returned ok → init.socket = .daemon := ⟨init_inv, fun ok hok => by cases hok⟩
  exact (run_invariant hstep hcalm hinit).2

/-! ## Runs of events -/

def steps (s : Machine) : List Event → Option Machine
  | [] => some s
  | e :: es => (step s e).bind fun t => steps t es

theorem run_steps {s t : Machine} {es : List Event} (h : steps s es = some t) : Run Step s t := by
  induction es generalizing s with
  | nil =>
    cases h
    exact Relation.ReflTransGen.refl
  | cons e es ih =>
    obtain ⟨u, hu, hrest⟩ := Option.bind_eq_some_iff.mp h
    exact Relation.ReflTransGen.head ⟨e, hu⟩ (ih hrest)

/-- A whole run without a failure. -/
theorem socket_given_back_session :
    ∃ s, steps init [.start, .done, .done, .done, .done, .done, .done, .done, .done] = some s ∧ s.pc = .returned true ∧
      s.socket = .daemon := by
  have hlast : step ⟨.absent, .daemon, .restore⟩ .done = some ⟨.daemon, .absent, .returned true⟩ := rfl
  have hrun : Run Step init ⟨.absent, .daemon, .restore⟩ :=
    @run_steps _ _ [.start, .done, .done, .done, .done, .done, .done, .done] rfl
  exact ⟨_, rfl, rfl, ((socket_given_back hrun).2.2 _ _ true hlast rfl).mpr (by simp)⟩

/-- The socket has been moved and binding fails: the run returns with nothing at its path. -/
theorem bind_fails_strands : ¬∀ s, Run Step init s → ∀ ok, s.pc = .returned ok → s.socket = .daemon := by
  intro hall
  have hrun : Run Step init ⟨.absent, .daemon, .returned false⟩ :=
    @run_steps _ _ [.start, .done, .done, .done, .done, .fails] rfl
  exact absurd (hall _ hrun false rfl) (by decide)

/-! ## After a crash -/

/-- The proxy's socket is left over, and no run owns it. -/
structure Stuck (s : Machine) : Prop where
  socket : s.socket = .proxy
  orig : s.orig = .daemon
  pc : s.pc ∉ [.takeOver, .listening, .remove, .restore]

theorem step_stuck (s t : Machine) (h : Step s t) (hs : Stuck s) : Stuck t := by
  obtain ⟨e, h⟩ := h
  obtain ⟨socket, orig, pc⟩ := s
  obtain ⟨rfl, rfl, hpc⟩ := hs
  cases e <;> cases pc <;> simp [step, Pc.running] at h hpc <;> subst h <;> exact ⟨rfl, rfl, by simp⟩

/-- After a crash while listening no later run binds, and none gives the socket back. -/
theorem crash_is_final {s t : Machine} (hs : Inv s) (hlisten : s.pc = .listening) (hsocket : s.socket = .proxy)
    (hrun : Run Step { s with pc := .crashed } t) : t.socket = .proxy ∧ t.orig = .daemon := by
  have hstuck : Stuck { s with pc := .crashed } := ⟨hsocket, hs.moved (Or.inr (Or.inl hlisten)), by simp⟩
  obtain ⟨hs, ho, -⟩ := run_invariant step_stuck hrun hstuck
  exact ⟨hs, ho⟩

end NixWire.Takeover
