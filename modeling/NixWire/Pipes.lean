/-
  NixWire.Pipes — a program and a daemon over a connection of bounded capacity (script.rs, replay.rs).

  A program runs a future that writes all its bytes and one that reads the responses; the
  daemon reads one request after another and answers each. The reading future is run on what
  has reached it: it waits for more as long as its computation does. When it ends it drops
  its read end. Dropping a child's pipe closes it: the daemon's next write fails, the daemon
  ends, and then so does the program's write. Dropping one half of a socket closes nothing.

  - What is written, in the pipes and read adds up to the requests and to the responses
    (`Kept`), so a party that waits has another one to wait for (`progress`). Where the read
    end closes, a writer that is left over always has (`progress_closed`).
  - There is no endless run (`steps_end`): each step moves a byte on, or the daemon, or ends a
    party.
-/

import NixWire.Base.Steps
import NixWire.Outcome

namespace NixWire.Pipes

open Base

/-! ## The parties -/

/-- What the daemon has left to do for one request. -/
structure Exchange where
  /-- The bytes of the request that are still to be read. -/
  request : Nat
  /-- The bytes of the response that are still to be written. -/
  response : List UInt8
  deriving DecidableEq, Repr

/-- The connection to the daemon. -/
structure Link where
  requestRoom : Nat
  responseRoom : Nat
  request_pos : 0 < requestRoom
  response_pos : 0 < responseRoom
  /-- Dropping the read end closes it: so for a child's pipes, not for the halves of a socket. -/
  closes : Bool

structure Net where
  /-- What the writing future has left. -/
  toWrite : List UInt8
  requestPipe : List UInt8
  /-- The daemon's exchanges, the current one first. -/
  exchanges : List Exchange
  responsePipe : List UInt8
  /-- What each read of the reading future brought. -/
  chunks : List (List UInt8)
  nonempty : ∀ c ∈ chunks, c ≠ []
  /-- The daemon has ended on a write that failed. -/
  hungUp : Bool
  /-- So has the writing future. -/
  broken : Bool

def start (requests responses : List (List UInt8)) : Net where
  toWrite := requests.flatten
  requestPipe := []
  exchanges := List.zipWith (fun request response => ⟨request.length, response⟩) requests responses
  responsePipe := []
  chunks := []
  nonempty := List.forall_mem_nil _
  hungUp := false
  broken := false

/-- A read of `k` bytes at most. -/
def Net.take (s : Net) (k : Nat) (h : s.responsePipe.take k ≠ []) : Net :=
  { s with
    responsePipe := s.responsePipe.drop k
    chunks := s.chunks ++ [s.responsePipe.take k]
    nonempty := by
      intro c hc
      rcases List.mem_append.mp hc with hc | hc
      · exact s.nonempty c hc
      · rw [List.mem_singleton.mp hc]
        exact h }

section

variable (link : Link) (fut : Rd WireError LiveReader ReadEnd)

/-- What the reading future has come to on what it was given. -/
def Net.outcome (s : Net) : Res WireError ReadEnd := (fut.run (.new s.chunks s.nonempty)).1

/-- The program goes on: its reading future waits or has returned, and has not failed or exited. -/
def Net.Running (s : Net) : Prop := s.outcome fut = .stop .hang ∨ s.outcome fut = .ok .returned

/-- Nothing holds the read end: the future has dropped it, or the program is over. -/
def Net.ReadClosed (s : Net) : Prop := (link.closes = true ∧ s.outcome fut ≠ .stop .hang) ∨ ¬s.Running fut

/-- The steps of the parties, a byte at a time; a read may take more. -/
inductive Step : Net → Net → Prop
  | write (s : Net) {b : UInt8} {rest : List UInt8} (hrunning : s.Running fut) (hup : s.hungUp = false)
      (hwrite : s.toWrite = b :: rest) (hroom : s.requestPipe.length < link.requestRoom) :
      Step s { s with toWrite := rest, requestPipe := s.requestPipe ++ [b] }
  | writeFails (s : Net) (hrunning : s.Running fut) (hup : s.hungUp = true) (hwrite : s.toWrite ≠ [])
      (hbroken : s.broken = false) : Step s { s with broken := true }
  | daemonRead (s : Net) {n : Nat} {response : List UInt8} {exchanges : List Exchange} {b : UInt8} {rest : List UInt8}
      (hup : s.hungUp = false) (hexchange : s.exchanges = ⟨n + 1, response⟩ :: exchanges) (hpipe : s.requestPipe = b :: rest) :
      Step s { s with requestPipe := rest, exchanges := ⟨n, response⟩ :: exchanges }
  | daemonWrite (s : Net) {b : UInt8} {response : List UInt8} {exchanges : List Exchange} (hup : s.hungUp = false)
      (hopen : ¬s.ReadClosed link fut) (hexchange : s.exchanges = ⟨0, b :: response⟩ :: exchanges)
      (hroom : s.responsePipe.length < link.responseRoom) :
      Step s { s with exchanges := ⟨0, response⟩ :: exchanges, responsePipe := s.responsePipe ++ [b] }
  /-- A write to a closed pipe fails, and the daemon drops its ends. -/
  | brokenPipe (s : Net) {b : UInt8} {response : List UInt8} {exchanges : List Exchange} (hup : s.hungUp = false)
      (hclosed : s.ReadClosed link fut) (hexchange : s.exchanges = ⟨0, b :: response⟩ :: exchanges) :
      Step s { s with hungUp := true }
  | daemonNext (s : Net) {exchanges : List Exchange} (hup : s.hungUp = false)
      (hexchange : s.exchanges = ⟨0, []⟩ :: exchanges) : Step s { s with exchanges := exchanges }
  | read (s : Net) (k : Nat) (hpipe : s.responsePipe.take k ≠ []) (hwaits : s.outcome fut = .stop .hang) :
      Step s (s.take k hpipe)

/-- Nobody can take a step. -/
def Stuck (s : Net) : Prop := ∀ t, ¬Step link fut s t

/-- The program is over: its reading future has failed or exited, or it has returned and the
    writing future has ended too. -/
def Net.Finished (s : Net) : Prop :=
  ¬s.Running fut ∨ (s.outcome fut = .ok .returned ∧ (s.toWrite = [] ∨ s.broken = true))

end

/-- What of the responses has not been read. -/
def Net.unread (s : Net) : List UInt8 := s.responsePipe ++ s.exchanges.flatMap (·.response)

/-- Part of a response is unread, the program is not over, and nobody can take a step. -/
def Deadlocked (link : Link) (fut : Rd WireError LiveReader ReadEnd) (s : Net) : Prop :=
  s.unread ≠ [] ∧ ¬s.Finished fut ∧ Stuck link fut s

/-- After `n` bytes of a hello and responses, a stderr code that is come to is cut: from the
    start of a response on, some messages and then the code. -/
def CutCode (hello : List UInt8) (responses : List (List UInt8)) (n : Nat) : Prop :=
  ∃ (before after : List (List UInt8)) (ms : List Message) (parts : List (List UInt8)) (rest : List UInt8),
    responses = before ++ after ∧ List.Forall₂ Message.Enc ms parts ∧ after.flatten = parts.flatten ++ rest ∧
      StartsWithCode rest ∧ hello.length + before.flatten.length + parts.flatten.length < n ∧
      n < hello.length + before.flatten.length + parts.flatten.length + 8

/-- No read ends inside a stderr code. -/
def CodesKept (hello : List UInt8) (responses : List (List UInt8)) (_ t : Net) : Prop :=
  ¬CutCode hello responses t.chunks.flatten.length

/-! ## What the steps keep -/

/-- The bytes of each direction, wherever they are. -/
structure Kept (responses : List UInt8) (s : Net) : Prop where
  requests : s.toWrite.length + s.requestPipe.length = (s.exchanges.map (·.request)).sum
  responses : s.chunks.flatten ++ s.unread = responses

/-- A daemon that has ended had more to write, and the future it wrote to had ended. -/
structure HungUp (fut : Rd WireError LiveReader ReadEnd) (s : Net) : Prop where
  ended : s.hungUp = true → s.outcome fut ≠ .stop .hang
  unread : s.hungUp = true → s.unread ≠ []

/-- No read so far ended inside a code. -/
def Uncut (hello : List UInt8) (responses : List (List UInt8)) (s : Net) : Prop :=
  ∀ n, ¬CutCode hello responses (s.chunks.take n).flatten.length

section

variable {link : Link} {fut : Rd WireError LiveReader ReadEnd}

theorem kept_start {requests responses : List (List UInt8)} (h : requests.length = responses.length) :
    Kept responses.flatten (start requests responses) := by
  induction requests generalizing responses with
  | nil =>
    obtain rfl : responses = [] := List.length_eq_zero_iff.mp h.symm
    exact ⟨rfl, rfl⟩
  | cons request requests ih =>
    cases responses with
    | nil => cases h
    | cons response responses =>
      obtain ⟨hrequests, hresponses⟩ := ih (Nat.succ.inj h)
      refine ⟨?_, ?_⟩
      · simp only [start, List.length_nil, Nat.add_zero] at hrequests
        simp only [start, List.flatten_cons, List.length_append, List.length_nil, Nat.add_zero, List.zipWith_cons_cons,
          List.map_cons, List.sum_cons, hrequests]
      · exact congrArg (response ++ ·) hresponses

theorem Kept.step {responses : List UInt8} {s t : Net} (hstep : Step link fut s t) (h : Kept responses s) : Kept responses t := by
  obtain ⟨hrequests, hresponses⟩ := h
  cases hstep with
  | write hrunning hup hwrite hroom =>
    refine ⟨?_, hresponses⟩
    rw [hwrite, List.length_cons] at hrequests
    simp only [List.length_append, List.length_singleton]
    omega
  | writeFails => exact ⟨hrequests, hresponses⟩
  | daemonRead hup hexchange hpipe =>
    rw [Net.unread, hexchange] at hresponses
    refine ⟨?_, hresponses⟩
    simp only [hexchange, hpipe, List.length_cons, List.map_cons, List.sum_cons] at hrequests ⊢
    omega
  | daemonWrite hup hopen hexchange hroom =>
    refine ⟨?_, ?_⟩
    · rw [hexchange] at hrequests
      exact hrequests
    · rw [Net.unread, hexchange] at hresponses
      rw [← hresponses]
      simp [Net.unread]
  | brokenPipe => exact ⟨hrequests, hresponses⟩
  | daemonNext hup hexchange =>
    refine ⟨?_, ?_⟩
    · rw [hexchange, List.map_cons, List.sum_cons, Nat.zero_add] at hrequests
      exact hrequests
    · rw [Net.unread, hexchange] at hresponses
      exact hresponses
  | read k hpipe hwaits =>
    refine ⟨hrequests, ?_⟩
    rw [← hresponses]
    simp only [Net.take, Net.unread, List.flatten_append, List.flatten_singleton, List.append_assoc]
    rw [← List.append_assoc (s.responsePipe.take k), List.take_append_drop]

theorem Net.ReadClosed.ended {s : Net} (h : s.ReadClosed link fut) : s.outcome fut ≠ .stop .hang := by
  rcases h with ⟨-, hended⟩ | hover
  · exact hended
  · exact fun hwaits => hover (Or.inl hwaits)

/-- A socket stays open while its program goes on. -/
theorem Net.Running.socket_open {s : Net} (h : s.Running fut) (hcloses : link.closes = false) : ¬s.ReadClosed link fut := by
  rintro (⟨hclosed, -⟩ | hover)
  · cases hcloses.symm.trans hclosed
  · exact hover h

theorem HungUp.step {s t : Net} (hstep : Step link fut s t) (h : HungUp fut s) : HungUp fut t := by
  -- a daemon that is still there has not ended
  have hlive {u : Net} (hup : u.hungUp = false) : HungUp fut u := by
    refine ⟨fun hdown => ?_, fun hdown => ?_⟩ <;> cases hup.symm.trans hdown
  cases hstep with
  | write hrunning hup => exact hlive hup
  | writeFails => exact ⟨h.ended, h.unread⟩
  | daemonRead hup => exact hlive hup
  | daemonWrite hup => exact hlive hup
  | brokenPipe hup hclosed hexchange =>
    refine ⟨fun _ => hclosed.ended, fun _ hnil => ?_⟩
    have hresponses := (List.append_eq_nil_iff.mp hnil).2
    simp only [hexchange, List.flatMap_cons, List.cons_append] at hresponses
    cases hresponses
  | daemonNext hup => exact hlive hup
  | read k hpipe hwaits => exact hlive (Bool.eq_false_iff.mpr fun hdown => h.ended hdown hwaits)

theorem Uncut.step {hello : List UInt8} {responses : List (List UInt8)} {s t : Net} (hstep : Step link fut s t)
    (hkept : CodesKept hello responses s t) (h : Uncut hello responses s) : Uncut hello responses t := by
  cases hstep with
  | read k hpipe hwaits =>
    intro n
    rcases Nat.lt_or_ge s.chunks.length n with hn | hn
    · rw [List.take_of_length_le (by simp only [Net.take, List.length_append, List.length_singleton]; omega)]
      exact hkept
    · have htake : (s.take k hpipe).chunks.take n = s.chunks.take n := List.take_append_of_le_length hn
      rw [htake]
      exact h n
  | _ => exact h

/-- What every run keeps. -/
theorem kept_run {requests responses : List (List UInt8)} {s : Net} (hlength : requests.length = responses.length)
    (hrun : Run (Step link fut) (start requests responses) s) : Kept responses.flatten s ∧ HungUp fut s := by
  refine run_invariant (I := fun s => Kept responses.flatten s ∧ HungUp fut s)
    (fun _ _ hstep hinv => ⟨hinv.1.step hstep, hinv.2.step hstep⟩) hrun ⟨kept_start hlength, ?_⟩
  refine ⟨fun hdown => ?_, fun hdown => ?_⟩ <;> cases hdown

theorem uncut_start (hello : List UInt8) (requests responses : List (List UInt8)) :
    Uncut hello responses (start requests (hello :: responses)) := by
  intro n hcut
  obtain ⟨_, _, _, _, _, _, _, _, _, hlt, _⟩ := hcut
  simp [start] at hlt

theorem uncut_run {requests responses : List (List UInt8)} {hello : List UInt8} {s : Net}
    (hrun : Run (Guarded (Step link fut) (CodesKept hello responses)) (start requests (hello :: responses)) s) :
    Uncut hello responses s :=
  run_invariant (I := Uncut hello responses) (fun _ _ hstep hinv => hinv.step hstep.1 hstep.2) hrun (uncut_start hello requests responses)

end

/-! ## Progress -/

section

variable {link : Link} {fut : Rd WireError LiveReader ReadEnd} {responses : List UInt8} {s : Net}

/-- A daemon that reads a request gets its next byte. -/
theorem request_moves (hkept : Kept responses s) (hrunning : s.Running fut) (hup : s.hungUp = false) {n : Nat}
    {response : List UInt8} {exchanges : List Exchange} (hexchange : s.exchanges = ⟨n + 1, response⟩ :: exchanges) :
    ∃ t, Step link fut s t := by
  cases hrequests : s.requestPipe with
  | cons b rest => exact ⟨_, .daemonRead s hup hexchange hrequests⟩
  | nil =>
    -- the byte is still with the writer
    cases hwrite : s.toWrite with
    | cons b rest => exact ⟨_, .write s hrunning hup hwrite (by rw [hrequests]; exact link.request_pos)⟩
    | nil =>
      have hsum := hkept.requests
      rw [hwrite, hrequests, hexchange, List.map_cons, List.sum_cons] at hsum
      simp only [List.length_nil] at hsum
      omega

/-- While the reading future waits for bytes of a response, some party has a step. -/
theorem progress (hkept : Kept responses s) (hhung : HungUp fut s) (hunread : s.unread ≠ [])
    (hwaits : s.outcome fut = .stop .hang) : ∃ t, Step link fut s t := by
  have hup : s.hungUp = false := Bool.eq_false_iff.mpr fun hdown => hhung.ended hdown hwaits
  by_cases hpipe : s.responsePipe = []
  · -- the response is still with the daemon
    cases hexchanges : s.exchanges with
    | nil => exact absurd (by rw [Net.unread, hpipe, hexchanges]; rfl) hunread
    | cons exchange exchanges =>
      obtain ⟨request, response⟩ := exchange
      cases request with
      | zero =>
        cases response with
        | nil => exact ⟨_, .daemonNext s hup hexchanges⟩
        | cons b response =>
          have hopen : ¬s.ReadClosed link fut := fun hclosed => hclosed.ended hwaits
          exact ⟨_, .daemonWrite s hup hopen hexchanges (by rw [hpipe]; exact link.response_pos)⟩
      | succ n => exact request_moves hkept (Or.inl hwaits) hup hexchanges
  · have htake : s.responsePipe.take 1 ≠ [] := by
      cases h : s.responsePipe with
      | nil => exact absurd h hpipe
      | cons b rest => simp
    exact ⟨_, .read s 1 htake hwaits⟩

/-- Where the read end is closed, a writer with bytes left makes progress, or fails. -/
theorem progress_closed (hkept : Kept responses s) (hclosed : s.ReadClosed link fut) (hrunning : s.Running fut)
    (hwrite : s.toWrite ≠ []) (hbroken : s.broken = false) : ∃ t, Step link fut s t := by
  cases hup : s.hungUp with
  | true => exact ⟨_, .writeFails s hrunning hup hwrite hbroken⟩
  | false =>
    cases hexchanges : s.exchanges with
    | nil =>
      have hsum := hkept.requests
      rw [hexchanges, List.map_nil, List.sum_nil] at hsum
      exact absurd (List.length_eq_zero_iff.mp (by omega)) hwrite
    | cons exchange exchanges =>
      obtain ⟨request, response⟩ := exchange
      cases request with
      | zero =>
        cases response with
        | nil => exact ⟨_, .daemonNext s hup hexchanges⟩
        | cons b response => exact ⟨_, .brokenPipe s hup hclosed hexchanges⟩
      | succ n => exact request_moves hkept hrunning hup hexchanges

/-- With both directions full, and a future that has returned and closed nothing, nobody goes on. -/
theorem deadlocked_full (hcloses : link.closes = false) (hreturned : s.outcome fut = .ok .returned) (hup : s.hungUp = false)
    (hbroken : s.broken = false) (hwrite : s.toWrite ≠ []) (hrequest : link.requestRoom ≤ s.requestPipe.length) {b : UInt8}
    {response : List UInt8} {exchanges : List Exchange} (hexchange : s.exchanges = ⟨0, b :: response⟩ :: exchanges)
    (hresponse : link.responseRoom ≤ s.responsePipe.length) : Deadlocked link fut s := by
  have hopen : ¬s.ReadClosed link fut := Net.Running.socket_open (Or.inr hreturned) hcloses
  refine ⟨fun hnil => ?_, ?_, fun t hstep => ?_⟩
  · have hanswers := (List.append_eq_nil_iff.mp hnil).2
    rw [hexchange, List.flatMap_cons] at hanswers
    cases (List.append_eq_nil_iff.mp hanswers).1
  · rintro (hover | ⟨-, hwritten | hfailed⟩)
    · exact hover (Or.inr hreturned)
    · exact hwrite hwritten
    · cases hbroken.symm.trans hfailed
  · cases hstep with
    | write hrunning hup hwrite hroom => exact Nat.lt_irrefl _ (Nat.lt_of_lt_of_le hroom hrequest)
    | writeFails hrunning hdown => cases hup.symm.trans hdown
    | daemonRead hup hexchange' hpipe => cases hexchange.symm.trans hexchange'
    | daemonWrite hup hopen hexchange' hroom => exact Nat.lt_irrefl _ (Nat.lt_of_lt_of_le hroom hresponse)
    | brokenPipe hup hclosed => exact hopen hclosed
    | daemonNext hup hexchange' => cases hexchange.symm.trans hexchange'
    | read k hpipe hwaits => cases hreturned.symm.trans hwaits

/-- All was written, answered and read. -/
structure Net.Done (s : Net) : Prop where
  toWrite : s.toWrite = []
  requestPipe : s.requestPipe = []
  exchanges : s.exchanges = []
  responsePipe : s.responsePipe = []

/-- Where nothing is unread and nobody can take a step, nothing is left. -/
theorem Kept.done (hkept : Kept responses s) (hhung : HungUp fut s) (hrunning : s.Running fut) (hstuck : Stuck link fut s)
    (hunread : s.unread = []) : s.Done := by
  have hup : s.hungUp = false := Bool.eq_false_iff.mpr fun hdown => hhung.unread hdown hunread
  obtain ⟨hpipe, hanswers⟩ := List.append_eq_nil_iff.mp hunread
  cases hexchanges : s.exchanges with
  | nil =>
    have hsum := hkept.requests
    rw [hexchanges, List.map_nil, List.sum_nil] at hsum
    exact ⟨List.length_eq_zero_iff.mp (by omega), List.length_eq_zero_iff.mp (by omega), hexchanges, hpipe⟩
  | cons exchange exchanges =>
    obtain ⟨request, response⟩ := exchange
    rw [hexchanges, List.flatMap_cons] at hanswers
    obtain rfl : response = [] := (List.append_eq_nil_iff.mp hanswers).1
    cases request with
    | zero => exact absurd (.daemonNext s hup hexchanges) (hstuck _)
    | succ n =>
      obtain ⟨t, hstep⟩ := request_moves hkept hrunning hup hexchanges
      exact absurd hstep (hstuck t)

/-! ## Runs end -/

/-- The moves that are left: a byte of a request or of a response is moved twice. -/
def Net.work (s : Net) : Nat :=
  2 * s.toWrite.length + s.requestPipe.length + 2 * (s.exchanges.flatMap (·.response)).length + s.responsePipe.length +
    s.exchanges.length + (!s.hungUp).toNat + (!s.broken).toNat

theorem Step.work {t : Net} (h : Step link fut s t) : t.work < s.work := by
  cases h with
  | write hrunning hup hwrite hroom =>
    simp only [Net.work, hwrite, List.length_cons, List.length_append, List.length_nil]
    omega
  | writeFails hrunning hup hwrite hbroken =>
    simp only [Net.work, hbroken, Bool.not_true, Bool.not_false, Bool.toNat_true, Bool.toNat_false]
    omega
  | daemonRead hup hexchange hpipe =>
    simp only [Net.work, hexchange, hpipe, List.length_cons, List.flatMap_cons]
    omega
  | daemonWrite hup hopen hexchange hroom =>
    simp only [Net.work, hexchange, List.length_cons, List.flatMap_cons, List.length_append, List.length_nil]
    omega
  | brokenPipe hup hclosed hexchange =>
    simp only [Net.work, hup, Bool.not_true, Bool.not_false, Bool.toNat_true, Bool.toNat_false]
    omega
  | daemonNext hup hexchange =>
    simp only [Net.work, hexchange, List.length_cons, List.flatMap_cons, List.nil_append]
    omega
  | read k hpipe hwaits =>
    have htaken : 0 < (s.responsePipe.take k).length := List.length_pos_iff.mpr hpipe
    rw [List.length_take] at htaken
    simp only [Net.work, Net.take, List.length_drop]
    omega

end

/-- No run goes on for ever. -/
theorem steps_end (link : Link) (fut : Rd WireError LiveReader ReadEnd) : WellFounded fun t s => Step link fut s t :=
  Subrelation.wf Step.work (InvImage.wf Net.work Nat.lt_wfRel.wf)

/-! ## Reads of whole words -/

theorem Message.Enc.aligned {m : Message} {bs : List UInt8} (h : m.Enc bs) : 8 ∣ bs.length := by
  obtain ⟨-, payload, hpayload, rfl⟩ := h
  have hunframed : (payloadFmt m.1).Unframed := by
    cases m.1 <;> simp [payloadFmt, fieldsFmt, Fmt.Unframed]
  rw [List.length_append, wordBytes_length]
  exact Nat.dvd_add (Nat.dvd_refl 8) (hpayload.aligned hunframed)

/-- Where the responses are whole words, a read that ends at a word ends in no code. -/
theorem CutCode.unaligned {hello : List UInt8} {responses : List (List UInt8)} {n : Nat} (h : CutCode hello responses n)
    (hhello : 8 ∣ hello.length) (hresponses : ∀ bs ∈ responses, 8 ∣ bs.length) : ¬8 ∣ n := by
  obtain ⟨before, after, ms, parts, rest, rfl, hms, -, -, hlt, hlt'⟩ := h
  have hbefore : 8 ∣ before.flatten.length := flatten_aligned fun p hp => hresponses p (List.mem_append_left _ hp)
  have hparts : 8 ∣ parts.flatten.length := flatten_aligned (forall₂_mem_left (fun _ _ h => Message.Enc.aligned h) hms.flip)
  omega

theorem CodesKept.of_words {hello : List UInt8} {responses : List (List UInt8)} (hhello : 8 ∣ hello.length)
    (hresponses : ∀ bs ∈ responses, 8 ∣ bs.length) {s t : Net} {words : List UInt64} (h : t.chunks = words.map wordBytes) :
    CodesKept hello responses s t := by
  have hwords : ∀ p ∈ words.map wordBytes, 8 ∣ p.length := by
    intro p hp
    obtain ⟨w, -, rfl⟩ := List.mem_map.mp hp
    exact dvd_of_eq (wordBytes_length w).symm
  intro hcut
  rw [h] at hcut
  exact hcut.unaligned hhello hresponses (flatten_aligned hwords)

/-! ## Runs in which nothing piles up -/

section

variable {α : Type} {f : α → List UInt8} (hf : ∀ a, f a ≠ [])

/-- A state whose reads have brought an item each. -/
def laid (toWrite requestPipe : List UInt8) (exchanges : List Exchange) (responsePipe : List UInt8) (items : List α) : Net where
  toWrite
  requestPipe
  exchanges
  responsePipe
  chunks := items.map f
  nonempty c hc := by
    obtain ⟨a, -, rfl⟩ := List.mem_map.mp hc
    exact hf a
  hungUp := false
  broken := false

/-- What the future comes to depends on these only. -/
theorem laid_outcome (fut : Rd WireError LiveReader ReadEnd) (toWrite requestPipe : List UInt8) (exchanges : List Exchange)
    (responsePipe : List UInt8) (items : List α) :
    (laid hf toWrite requestPipe exchanges responsePipe items).outcome fut = (laid hf [] [] [] [] items).outcome fut := rfl

variable (link : Link) {fut : Rd WireError LiveReader ReadEnd} {ok : Net → Net → Prop}
  (hok : ∀ s t (items : List α), t.chunks = items.map f → ok s t) (exchanges : List Exchange)

include hok

/-- A request crosses its pipe byte by byte. -/
theorem request_crosses (request rest response pipe : List UInt8) (items : List α)
    (hrunning : (laid hf [] [] [] [] items).Running fut) :
    Run (Guarded (Step link fut) ok) (laid hf (request ++ rest) [] (⟨request.length, response⟩ :: exchanges) pipe items)
      (laid hf rest [] (⟨0, response⟩ :: exchanges) pipe items) := by
  induction request with
  | nil => exact .refl
  | cons b request ih =>
    exact .head ⟨.write _ hrunning rfl rfl link.request_pos, hok _ _ items rfl⟩
      (.head ⟨.daemonRead _ rfl rfl rfl, hok _ _ items rfl⟩ ih)

/-- Requests fill their pipe. -/
theorem request_fills (request rest pipe responsePipe : List UInt8) (items : List α)
    (hroom : pipe.length + request.length ≤ link.requestRoom) (hrunning : (laid hf [] [] [] [] items).Running fut) :
    Run (Guarded (Step link fut) ok) (laid hf (request ++ rest) pipe exchanges responsePipe items)
      (laid hf rest (pipe ++ request) exchanges responsePipe items) := by
  induction request generalizing pipe with
  | nil => rw [List.append_nil]; exact .refl
  | cons b request ih =>
    rw [List.length_cons] at hroom
    have hmore := ih (pipe ++ [b]) (by rw [List.length_append, List.length_singleton]; omega)
    rw [List.append_assoc] at hmore
    have hfree : pipe.length < link.requestRoom := by omega
    exact .head ⟨.write _ hrunning rfl rfl hfree, hok _ _ items rfl⟩ hmore

/-- A response fills its pipe while the read end is open. -/
theorem response_fills (toWrite requestPipe response rest pipe : List UInt8) (items : List α)
    (hroom : pipe.length + response.length ≤ link.responseRoom) (hopen : ¬(laid hf [] [] [] [] items).ReadClosed link fut) :
    Run (Guarded (Step link fut) ok) (laid hf toWrite requestPipe (⟨0, response ++ rest⟩ :: exchanges) pipe items)
      (laid hf toWrite requestPipe (⟨0, rest⟩ :: exchanges) (pipe ++ response) items) := by
  induction response generalizing pipe with
  | nil => rw [List.append_nil]; exact .refl
  | cons b response ih =>
    rw [List.length_cons] at hroom
    have hmore := ih (pipe ++ [b]) (by rw [List.length_append, List.length_singleton]; omega)
    rw [List.append_assoc] at hmore
    have hfree : pipe.length < link.responseRoom := by omega
    exact .head ⟨.daemonWrite _ rfl hopen rfl hfree, hok _ _ items rfl⟩ hmore

/-- It crosses it item by item, to a reader that waits for each. -/
theorem response_crosses (hroom : ∀ a, (f a).length ≤ link.responseRoom) (toWrite requestPipe rest : List UInt8)
    (items done : List α) (hwaits : ∀ n < items.length, (laid hf [] [] [] [] (done ++ items.take n)).outcome fut = .stop .hang) :
    Run (Guarded (Step link fut) ok) (laid hf toWrite requestPipe (⟨0, items.flatMap f ++ rest⟩ :: exchanges) [] done)
      (laid hf toWrite requestPipe (⟨0, rest⟩ :: exchanges) [] (done ++ items)) := by
  induction items generalizing done with
  | nil => rw [List.append_nil]; exact .refl
  | cons a items ih =>
    have hsplit (more : List α) : done ++ [a] ++ more = done ++ a :: more := List.append_assoc ..
    have hnow := hwaits 0 (Nat.zero_lt_succ _)
    rw [List.take_zero, List.append_nil] at hnow
    have hmore := ih (done ++ [a]) fun n hn => by
      rw [hsplit]
      exact hwaits (n + 1) (Nat.succ_lt_succ hn)
    rw [hsplit] at hmore
    have hfills := response_fills hf link hok exchanges toWrite requestPipe (f a) (items.flatMap f ++ rest) [] done
      (by rw [List.length_nil, Nat.zero_add]; exact hroom a) fun hclosed => hclosed.ended hnow
    rw [List.nil_append, ← List.append_assoc, ← List.flatMap_cons] at hfills
    have hread : Guarded (Step link fut) ok (laid hf toWrite requestPipe (⟨0, items.flatMap f ++ rest⟩ :: exchanges) (f a) done)
        (laid hf toWrite requestPipe (⟨0, items.flatMap f ++ rest⟩ :: exchanges) [] (done ++ [a])) := by
      refine ⟨?_, hok _ _ (done ++ [a]) rfl⟩
      have hall : (f a).take (f a).length ≠ [] := by
        rw [List.take_length]
        exact hf a
      have hstep : Step link fut _ _ :=
        .read (laid hf toWrite requestPipe (⟨0, items.flatMap f ++ rest⟩ :: exchanges) (f a) done) (f a).length hall hnow
      convert hstep using 1
      simp only [laid, Net.take, List.take_length, List.drop_length, List.map_append, List.map_cons, List.map_nil]
    exact hfills.trans (.head hread hmore)

/-- Exchanges are gone through one after another. -/
theorem session_crosses (hroom : ∀ a, (f a).length ≤ link.responseRoom) (session : List (List UInt8 × List α))
    (rest : List UInt8) (done : List α)
    (hwaits : ∀ n < (session.flatMap (·.2)).length,
      (laid hf [] [] [] [] (done ++ (session.flatMap (·.2)).take n)).outcome fut = .stop .hang)
    (hanswered : ∀ exchange ∈ session, exchange.2 ≠ []) :
    Run (Guarded (Step link fut) ok)
      (laid hf (session.flatMap (·.1) ++ rest) []
        (session.map (fun exchange => ⟨exchange.1.length, exchange.2.flatMap f⟩) ++ exchanges) [] done)
      (laid hf rest [] exchanges [] (done ++ session.flatMap (·.2))) := by
  induction session generalizing done with
  | nil =>
    rw [List.flatMap_nil, List.flatMap_nil, List.append_nil]
    exact .refl
  | cons exchange session ih =>
    obtain ⟨request, items⟩ := exchange
    obtain ⟨hitems, hsession⟩ := List.forall_mem_cons.mp hanswered
    simp only [List.flatMap_cons, List.map_cons, List.cons_append, List.length_append] at hwaits ⊢
    have hpos : 0 < items.length := List.length_pos_iff.mpr hitems
    have hstart := hwaits 0 (by omega)
    rw [List.take_zero, List.append_nil] at hstart
    have hrequest := request_crosses hf link hok (session.map (fun exchange => ⟨exchange.1.length, exchange.2.flatMap f⟩) ++ exchanges)
      request (session.flatMap (·.1) ++ rest) (items.flatMap f) [] done (Or.inl hstart)
    have hresponse := response_crosses hf link hok (session.map (fun exchange => ⟨exchange.1.length, exchange.2.flatMap f⟩) ++ exchanges)
      hroom (session.flatMap (·.1) ++ rest) [] [] items done fun n hn => by
        have hearly := hwaits n (by omega)
        rwa [List.take_append_of_le_length (Nat.le_of_lt hn)] at hearly
    have hmore := ih (done ++ items) (fun n hn => by
      have hlate := hwaits (items.length + n) (by omega)
      rwa [List.take_length_add_append, ← List.append_assoc] at hlate) hsession
    rw [List.append_nil] at hresponse
    rw [List.append_assoc] at hmore ⊢
    exact hrequest.trans (hresponse.trans (.head ⟨.daemonNext _ rfl rfl, hok _ _ (done ++ items) rfl⟩ hmore))

end

end NixWire.Pipes
