/-
  NixWire.Stall — a replay after an error (replay.rs).

  The receiver takes STDERR_ERROR for the end of a response, but the daemon sends the error
  after it. No stderr code starts there, so every stderr loop from then on ends at once and
  leaves the stream as it is.

  - Nothing after the first error is read: the replay counts one issue, whatever the daemon
    answers to the operations after it (`replay_blind`).
  - Over a socket the receiver that ends closes nothing. If the daemon has more to send than
    was read and fits, and the requests behind it do not fit either, the sender is never done:
    every run of the parties ends in a deadlock (`replay_stalls`).
-/

import NixWire.Verdict

namespace NixWire.Pipes

open Base

/-! ## Reading where no code starts -/

section

variable {compare : Bool} {v : ProtocolVersion}

/-- The stderr loop that finds no code. -/
def Silent {R : Type} [BufRead R] (r r' : R) : Prop := readStderrLoop.run r = (.ok ⟨0, none⟩, r')

/-- An operation whose stderr loop is silent is passed over. -/
theorem receiveOps_silent {R : Type} [BufRead R] {r r' : R} (h : Silent r r') (op : Option Op) (ops : List (Option Op))
    (n : Nat) : (receiveOps compare v (op :: ops) n).run r = (receiveOps compare v ops n).run r' := by
  rw [receiveOps, Rd.bind_ok (Rd.attempt_ok h)]
  rfl

/-- The operations left are, where nothing changes that. -/
theorem receiveOps_blind {R : Type} [BufRead R] {Mute : R → Prop} (hmute : ∀ r, Mute r → ∃ r', Silent r r' ∧ Mute r')
    (ops : List (Option Op)) (n : Nat) {r : R} (hr : Mute r) : ∃ r', (receiveOps compare v ops n).run r = (.ok n, r') ∧ Mute r' := by
  induction ops generalizing r with
  | nil => exact ⟨r, rfl, hr⟩
  | cons op ops ih =>
    obtain ⟨r₁, hsilent, h₁⟩ := hmute r hr
    obtain ⟨r', hrun, h'⟩ := ih h₁
    exact ⟨r', (receiveOps_silent hsilent op ops n).trans hrun, h'⟩

/-- A live reader does not wait to find no code, if it has anything. -/
theorem silent_live {chunks : List (List UInt8)} {l : LiveReader} {s : List UInt8} (h : LiveReader.Feeds chunks l s)
    (hne : s ≠ []) (hcode : ¬StartsWithCode s) : ∃ l', Silent l l' ∧ LiveReader.Feeds chunks l' s := by
  have hshrinks := LiveReader.readStderrPass_shrinks
  by_cases hseen : 8 ≤ l.reader.fill.buf.length
  · obtain ⟨l', hpass, h'⟩ := LiveReader.readStderrPass_seen h hseen (readStderrPass_other 0 hcode)
    exact ⟨l', iterate_inr hshrinks (by omega) hpass, h'⟩
  · have hunread : l.reader.unread ≠ [] := by
      rw [h.1]
      exact hne
    have hpeek := LiveReader.peekU64_run hunread
    rw [if_neg hseen] at hpeek
    have hpass : (readStderrPass 0).run l = (.ok (.inr ⟨0, none⟩), ⟨l.reader.fill⟩) := by
      rw [readStderrPass, Rd.bind_ok hpeek]
      rfl
    exact ⟨_, iterate_inr hshrinks (by omega) hpass, h.fill⟩

end

/-! ## Past an error -/

section

variable {compare : Bool} {v : ProtocolVersion} {before after : List (Option Op)} {op : Option Op}
  {answers parts : List (List UInt8)} {messages : List Message} {R : Type} [BufRead R] {ρ : R → List UInt8 → Prop}
  {whole : List UInt8 → Prop}

/-- Up to the first error nothing is counted; it is. -/
theorem receiveOps_error (hanswers : List.Forall₂ (Answered v) before answers)
    (hmessages : List.Forall₂ Message.Enc messages parts) (hserving : Serving ρ) (hstderr : ServesStderr ρ whole)
    {rest : List UInt8} (hwhole : ∀ before after, answers = before ++ after →
      whole (after.flatten ++ (parts.flatten ++ (wordBytes StderrCode.error.code ++ rest)))) {r : R}
    (hr : ρ r (answers.flatten ++ (parts.flatten ++ (wordBytes StderrCode.error.code ++ rest)))) (n : Nat) :
    ∃ r', (receiveOps compare v (before ++ op :: after) n).run r =
      (receiveOps compare v after (counted compare n)).run r' ∧ ρ r' rest := by
  obtain ⟨r₁, hpast, h₁⟩ := receiveOps_past compare hanswers (op :: after) n hserving hstderr hwhole hr
  have hfailed := hwhole answers [] (List.append_nil _).symm
  obtain ⟨r', hloop, h'⟩ := hstderr h₁ hfailed (readStderrLoop_terminal hmessages rfl rest)
  refine ⟨r', ?_, h'⟩
  rw [hpast, receiveOps, Rd.bind_ok (Rd.attempt_ok hloop)]
  rfl

end

/-- What was read cuts no code, if it does not with the rest in one piece. -/
theorem codesWhole_part {chunks : List (List UInt8)} {s more : List UInt8}
    (h : CodesWhole (chunks ++ onePiece more) (s ++ more)) : CodesWhole chunks s := by
  intro ms parts rest hms hs hstart hcut
  obtain ⟨n, hlt, hlt'⟩ := hcut
  refine h ms parts (rest ++ more) hms (by rw [hs, List.append_assoc]) ?_ ⟨min n chunks.length, ?_⟩
  · obtain ⟨code, rest', rfl⟩ := hstart
    exact ⟨code, rest' ++ more, List.append_assoc ..⟩
  · have hpos : (chunks ++ onePiece more).flatten.length - (rest ++ more).length = chunks.flatten.length - rest.length := by
      simp only [List.flatten_append, onePiece_flatten, List.length_append]
      omega
    have htake : (chunks ++ onePiece more).take (min n chunks.length) = chunks.take n := by
      rw [List.take_append_of_le_length (Nat.min_le_right _ _)]
      rcases Nat.le_total n chunks.length with hn | hn
      · rw [Nat.min_eq_left hn]
      · rw [Nat.min_eq_right hn, List.take_of_length_le hn, List.take_length]
    rw [hpos, htake]
    exact ⟨hlt, hlt'⟩

/-- The beginning of bytes that start with no code starts with none. -/
theorem no_code_of_prefix {s t : List UInt8} (h : s <+: t) (ht : ¬StartsWithCode t) : ¬StartsWithCode s := by
  intro hs
  obtain ⟨code, rest, rfl⟩ := hs
  obtain ⟨more, rfl⟩ := h
  exact ht ⟨code, rest ++ more, by rw [List.append_assoc]⟩

/-- A session that a daemon answers up to an operation, where it sends an error. -/
structure Failing (preParse : PreParseResult) (info : HandshakeInfo) (hello : List UInt8) (answers : List (List UInt8))
    (messages payload : List UInt8) (later : List (List UInt8)) : Prop where
  hello : ∀ rest, (parseDaemonHandshake preParse.clientVersion).run (hello ++ rest) = (.ok info, rest)
  ops : ∃ before op after, preParse.ops = before ++ op :: after ∧ after.length = later.length ∧
    List.Forall₂ (Answered (min preParse.clientVersion info.serverVersion)) before answers
  messages : ∃ (ms : List Message) (parts : List (List UInt8)), List.Forall₂ Message.Enc ms parts ∧ messages = parts.flatten
  -- the error is a text first, whose length is no code
  payload : ¬StartsWithCode (payload ++ later.flatten)

section

variable {compare : Bool} {preParse : PreParseResult} {info : HandshakeInfo} {hello : List UInt8}
  {answers later : List (List UInt8)} {messages payload : List UInt8}

/-- What the receiver reads of the session. -/
def front (hello : List UInt8) (answers : List (List UInt8)) (messages : List UInt8) : List UInt8 :=
  hello ++ (answers.flatten ++ (messages ++ wordBytes StderrCode.error.code))

/-- The daemon's responses. -/
def failing (answers : List (List UInt8)) (messages payload : List UInt8) (later : List (List UInt8)) : List (List UInt8) :=
  answers ++ (messages ++ (wordBytes StderrCode.error.code ++ payload)) :: later

theorem flatten_cut (parts : List (List UInt8)) (k : Nat) :
    parts.flatten.length = (parts.take k).flatten.length + (parts.drop k).flatten.length := by
  rw [← List.length_append, ← List.flatten_append, List.take_append_drop]

theorem failing_flatten : hello ++ (failing answers messages payload later).flatten =
    front hello answers messages ++ (payload ++ later.flatten) := by
  simp only [failing, front, List.flatten_append, List.flatten_cons, List.append_assoc]

/-- Past the error the receiver waits for nothing: with any byte of what follows, it ends. -/
theorem Failing.ends (h : Failing preParse info hello answers messages payload later) {chunks : List (List UInt8)}
    (hne : ∀ c ∈ chunks, c ≠ []) {seen : List UInt8} (hseen : chunks.flatten = front hello answers messages ++ seen)
    (hbytes : seen ≠ []) (hbegins : seen <+: payload ++ later.flatten)
    (hwhole : ∀ before after, answers = before ++ after →
      CodesWhole chunks (after.flatten ++ (messages ++ (wordBytes StderrCode.error.code ++ seen)))) :
    ((receiveDaemonResponses compare preParse).run (LiveReader.new chunks hne)).1 = .ok (counted compare 0) := by
  obtain ⟨before, op, after, hops, -, hanswers⟩ := h.ops
  obtain ⟨ms, parts, hms, rfl⟩ := h.messages
  have hcode : ¬StartsWithCode seen := no_code_of_prefix hbegins h.payload
  have hfeeds := LiveReader.feeds_new hne
  rw [hseen, front, List.append_assoc, List.append_assoc, List.append_assoc] at hfeeds
  obtain ⟨l₁, hhello, h₁⟩ := (parseDaemonHandshake_serves (LiveReader.serving chunks) _).run hfeeds (h.hello _)
  obtain ⟨l₂, herror, h₂⟩ := @receiveOps_error compare _ before after op answers parts ms _ _ _ _ hanswers hms
    (LiveReader.serving chunks) (LiveReader.stderr_served chunks) seen hwhole l₁ h₁ 0
  obtain ⟨l₃, hblind, -⟩ := @receiveOps_blind compare (min preParse.clientVersion info.serverVersion) _ _
    (fun l => LiveReader.Feeds chunks l seen) (fun l hl => silent_live hl hbytes hcode) after (counted compare 0) l₂ h₂
  have hrun : (receiveDaemonResponses compare preParse).run (LiveReader.new chunks hne) = (.ok (counted compare 0), l₃) := by
    rw [receiveDaemonResponses, Rd.bind_ok hhello, hops]
    exact herror.trans hblind
  exact congrArg Prod.fst hrun

variable {s : Net}

/-- The chunks that came, and the rest in one piece, cut no code up to the error. -/
theorem Failing.whole (hkept : s.chunks.flatten ++ s.unread = hello ++ (failing answers messages payload later).flatten)
    (huncut : Uncut hello (failing answers messages payload later) s) {before after : List (List UInt8)}
    (hsplit : answers = before ++ after) :
    CodesWhole (s.chunks ++ onePiece s.unread)
      (after.flatten ++ (messages ++ (wordBytes StderrCode.error.code ++ (payload ++ later.flatten)))) := by
  have hrest := @codesWhole_rest hello (failing answers messages payload later) s hkept huncut before
    (after ++ (messages ++ (wordBytes StderrCode.error.code ++ payload)) :: later) (by rw [failing, hsplit, List.append_assoc])
  rwa [List.flatten_append, List.flatten_cons, List.append_assoc, List.append_assoc] at hrest

/-- Up to there it waits. Whatever came, it waits or has counted the error. -/
theorem Failing.reads (h : Failing preParse info hello answers messages payload later) (hmore : payload ++ later.flatten ≠ [])
    (hkept : s.chunks.flatten ++ s.unread = hello ++ (failing answers messages payload later).flatten)
    (huncut : Uncut hello (failing answers messages payload later) s) :
    s.reads (receiveDaemonResponses compare preParse) = .stop .hang ∨
      s.reads (receiveDaemonResponses compare preParse) = .ok (counted compare 0) := by
  have hne : ∀ c ∈ s.chunks ++ onePiece s.unread, c ≠ [] := by
    intro c hc
    rcases List.mem_append.mp hc with hc | hc
    · exact s.nonempty c hc
    · exact onePiece_nonempty _ c hc
  have hall : (s.chunks ++ onePiece s.unread).flatten = front hello answers messages ++ (payload ++ later.flatten) := by
    rw [List.flatten_append, onePiece_flatten, hkept, failing_flatten]
  have hend := @Failing.ends compare _ _ _ _ _ _ _ h _ hne _ hall hmore (List.prefix_refl _)
    fun before after => Failing.whole hkept huncut
  -- both the reader of what came and the one of everything are behind a reader that ends
  have hlags := receive_lags compare preParse LiveReader BufReader
  rcases hlags _ (LiveReader.behind []) (.new _ hne) (.new _ hne) ⟨rfl, (List.append_nil _).symm⟩ with hwaits | ⟨hsame, -⟩
  · cases hend.symm.trans hwaits
  · rcases hlags _ (LiveReader.behind s.unread) (.new s.chunks s.nonempty) (.new _ hne) ⟨rfl, rfl⟩ with hwaits | ⟨hsame', -⟩
    · exact Or.inl hwaits
    · exact Or.inr ((hsame'.trans hsame.symm).trans hend)

/-- Past its front it does not wait. -/
theorem Failing.front_of_waits (h : Failing preParse info hello answers messages payload later)
    (hkept : s.chunks.flatten ++ s.unread = hello ++ (failing answers messages payload later).flatten)
    (huncut : Uncut hello (failing answers messages payload later) s)
    (hwaits : s.reads (receiveDaemonResponses compare preParse) = .stop .hang) :
    s.chunks.flatten.length ≤ (front hello answers messages).length := by
  by_contra hlong
  have hprefix : front hello answers messages <+: s.chunks.flatten := by
    refine List.prefix_of_prefix_length_le ⟨payload ++ later.flatten, ?_⟩ ⟨s.unread, hkept⟩ (by omega)
    exact failing_flatten.symm
  obtain ⟨seen, hseen⟩ := hprefix
  have hbytes : seen ≠ [] := by
    intro hnil
    rw [← hseen, hnil, List.append_nil] at hlong
    exact hlong (Nat.le_refl _)
  have hmore : seen ++ s.unread = payload ++ later.flatten := by
    rw [failing_flatten, ← hseen, List.append_assoc] at hkept
    exact List.append_cancel_left hkept
  have hend := @Failing.ends compare _ _ _ _ _ _ _ h _ s.nonempty seen hseen.symm hbytes ⟨s.unread, hmore⟩
    fun before after hsplit => by
      have hrest := Failing.whole hkept huncut hsplit
      have hsplit' : after.flatten ++ (messages ++ (wordBytes StderrCode.error.code ++ (payload ++ later.flatten))) =
          after.flatten ++ (messages ++ (wordBytes StderrCode.error.code ++ seen)) ++ s.unread := by
        simp only [← hmore, List.append_assoc]
      rw [hsplit'] at hrest
      exact codesWhole_part hrest
  cases hend.symm.trans hwaits

/-- The future waits or has returned. -/
theorem Failing.running (h : Failing preParse info hello answers messages payload later) (hmore : payload ++ later.flatten ≠ [])
    (hkept : s.chunks.flatten ++ s.unread = hello ++ (failing answers messages payload later).flatten)
    (huncut : Uncut hello (failing answers messages payload later) s) :
    (s.outcome (replayFut compare preParse) = .stop .hang ∧ s.chunks.flatten.length ≤ (front hello answers messages).length) ∨
      s.outcome (replayFut compare preParse) = .ok .returned := by
  rcases hpair : (receiveDaemonResponses compare preParse).run (LiveReader.new s.chunks s.nonempty) with ⟨o, l⟩
  have hread : s.reads (receiveDaemonResponses compare preParse) = o := congrArg Prod.fst hpair
  rcases Failing.reads h hmore hkept huncut with hwaits | hcounted
  · obtain rfl := hread.symm.trans hwaits
    have hattempt : (receiveDaemonResponses compare preParse).attempt.run (.new s.chunks s.nonempty) = (.stop .hang, l) := by
      simp only [Rd.attempt, hpair]
    exact Or.inl ⟨congrArg Prod.fst (Rd.map_stop_iff.mpr hattempt), h.front_of_waits hkept huncut hwaits⟩
  · obtain rfl := hread.symm.trans hcounted
    exact Or.inr (congrArg Prod.fst (Rd.map_ok_iff.mpr ⟨_, Rd.attempt_ok hpair, rfl⟩))

end

/-! ## The parties after an error -/

/-- What each direction holds, and what was read past the front, is no more than fits. -/
structure Held (front : List UInt8) (link : Link) (s : Net) : Prop where
  requestPipe : s.requestPipe.length ≤ link.requestRoom
  responsePipe : s.responsePipe.length ≤ link.responseRoom
  read : s.chunks.flatten.length ≤ front.length + link.responseRoom

/-- Both ends of the connection are there. -/
def Net.Connected (s : Net) : Prop := s.hungUp = false ∧ s.broken = false

/-- The daemon goes through the exchanges in order. -/
def Remains (all : List Exchange) (s : Net) : Prop :=
  s.exchanges = [] ∨ ∃ (before later : List Exchange) (first current : Exchange), all = before ++ first :: later ∧
    s.exchanges = current :: later ∧ current.response.length ≤ first.response.length

section

variable {link : Link} {fut : Rd WireError LiveReader ReadEnd} {s t : Net}

/-- A future that waits for nothing past the front is given at most a pipe more. -/
theorem Held.step {front : List UInt8} (hstep : Step link fut s t)
    (hends : s.outcome fut = .stop .hang → s.chunks.flatten.length ≤ front.length) (h : Held front link s) :
    Held front link t := by
  obtain ⟨hrequest, hresponse, hread⟩ := h
  cases hstep with
  | write hrunning hup hwrite hroom =>
    refine ⟨?_, hresponse, hread⟩
    simp only [List.length_append, List.length_singleton]
    omega
  | daemonRead hup hexchange hpipe =>
    refine ⟨?_, hresponse, hread⟩
    rw [hpipe, List.length_cons] at hrequest
    exact Nat.le_of_succ_le hrequest
  | daemonWrite hup hopen hexchange hroom =>
    refine ⟨hrequest, ?_, hread⟩
    simp only [List.length_append, List.length_singleton]
    omega
  | read k hne hwaits =>
    have hfront := hends hwaits
    have htaken : (s.responsePipe.take k).length ≤ s.responsePipe.length := List.length_take_le' ..
    refine ⟨hrequest, ?_, ?_⟩
    · simp only [Net.take, List.length_drop]
      omega
    · simp only [Net.take, List.flatten_append, List.flatten_singleton, List.length_append]
      omega
  | _ => exact ⟨hrequest, hresponse, hread⟩

/-- Over a socket no write fails while the program goes on. -/
theorem Net.Connected.step (hcloses : link.closes = false) (hrunning : s.Running fut) (hstep : Step link fut s t)
    (h : s.Connected) : t.Connected := by
  cases hstep with
  | writeFails _ hdown => cases h.1.symm.trans hdown
  | brokenPipe hup hclosed => exact absurd hclosed (hrunning.socket_open hcloses)
  | _ => exact h

theorem Remains.start (s : Net) : Remains s.exchanges s := by
  cases h : s.exchanges with
  | nil => exact Or.inl h
  | cons current later => exact Or.inr ⟨[], later, current, current, rfl, h, Nat.le_refl _⟩

theorem Remains.step {all : List Exchange} (hstep : Step link fut s t) (h : Remains all s) : Remains all t := by
  cases hstep with
  | daemonRead hup hexchange hpipe =>
    rcases h with hnil | ⟨before, later, first, current, hall, hs, hle⟩
    · cases hexchange.symm.trans hnil
    · obtain ⟨rfl, rfl⟩ := List.cons.inj (hexchange.symm.trans hs)
      exact Or.inr ⟨before, _, first, _, hall, rfl, hle⟩
  | daemonWrite hup hopen hexchange hroom =>
    rcases h with hnil | ⟨before, later, first, current, hall, hs, hle⟩
    · cases hexchange.symm.trans hnil
    · obtain ⟨rfl, rfl⟩ := List.cons.inj (hexchange.symm.trans hs)
      exact Or.inr ⟨before, _, first, _, hall, rfl, Nat.le_of_succ_le hle⟩
  | daemonNext hup hexchange =>
    rcases h with hnil | ⟨before, later, first, current, hall, hs, hle⟩
    · cases hexchange.symm.trans hnil
    · obtain ⟨rfl, rfl⟩ := List.cons.inj (hexchange.symm.trans hs)
      rename_i exchanges
      cases exchanges with
      | nil => exact Or.inl rfl
      | cons next later => exact Or.inr ⟨before ++ [first], later, next, next, by rw [hall, List.append_assoc]; rfl, rfl, Nat.le_refl _⟩
  | _ => exact h

/-- With more to write than the exchanges from the `n`-th on have, their requests are unread. -/
theorem Remains.behind {all : List Exchange} (h : Remains all s) {n : Nat}
    (hlong : ((all.drop n).flatMap (·.response)).length < (s.exchanges.flatMap (·.response)).length) :
    ((all.drop n).map (·.request)).sum ≤ (s.exchanges.map (·.request)).sum := by
  rcases h with hnil | ⟨before, later, first, current, rfl, hs, hle⟩
  · rw [hnil] at hlong
    exact absurd hlong (Nat.not_lt_zero _)
  · rw [hs] at hlong ⊢
    rw [List.drop_append] at hlong ⊢
    rcases Nat.lt_or_ge before.length n with hn | hn
    · obtain ⟨m, rfl⟩ : ∃ m, n = before.length + (m + 1) := ⟨n - before.length - 1, by omega⟩
      rw [Nat.add_sub_cancel_left, List.drop_succ_cons, List.drop_of_length_le (by omega), List.nil_append, List.map_cons,
        List.sum_cons]
      have hlater : (later.map (·.request)).sum = ((later.take m).map (·.request)).sum + ((later.drop m).map (·.request)).sum := by
        rw [← List.sum_append, ← List.map_append, List.take_append_drop]
      omega
    · rw [Nat.sub_eq_zero_of_le hn, List.drop_zero] at hlong
      simp only [List.flatMap_append, List.flatMap_cons, List.length_append] at hlong
      omega

end

section

variable {compare : Bool} {preParse : PreParseResult} {info : HandshakeInfo} {hello : List UInt8}
  {answers later requests : List (List UInt8)} {messages payload : List UInt8} {link : Link} {s : Net}

/-- What a run over a socket keeps. -/
theorem Failing.run (h : Failing preParse info hello answers messages payload later) (hsocket : link.closes = false)
    (hmore : payload ++ later.flatten ≠ []) (hlength : requests.length = (failing answers messages payload later).length + 1)
    (hrun : Run (Guarded (Step link (replayFut compare preParse)) (CodesKept hello (failing answers messages payload later)))
      (start requests (hello :: failing answers messages payload later)) s) :
    Held (front hello answers messages) link s ∧
      Remains (start requests (hello :: failing answers messages payload later)).exchanges s ∧ s.Connected := by
  let responses := hello :: failing answers messages payload later
  have hall : (Kept responses.flatten s ∧ Uncut hello (failing answers messages payload later) s) ∧
      Held (front hello answers messages) link s ∧ Remains (start requests responses).exchanges s ∧ s.Connected := by
    refine run_invariant (I := fun s => (Kept responses.flatten s ∧ Uncut hello (failing answers messages payload later) s) ∧
      Held (front hello answers messages) link s ∧ Remains (start requests responses).exchanges s ∧ s.Connected)
      (fun s t hstep hinv => ?_) hrun ⟨⟨kept_start hlength, uncut_start hello requests _⟩, ⟨Nat.zero_le _, Nat.zero_le _, Nat.zero_le _⟩,
        .start _, rfl, rfl⟩
    obtain ⟨⟨hkept, huncut⟩, hheld, hremains, hconnected⟩ := hinv
    have hnow := @Failing.running compare _ _ _ _ _ _ _ s h hmore hkept.responses huncut
    have hfront (hwaits : s.outcome (replayFut compare preParse) = .stop .hang) :
        s.chunks.flatten.length ≤ (front hello answers messages).length := by
      rcases hnow with ⟨-, hfront⟩ | hreturned
      · exact hfront
      · cases hreturned.symm.trans hwaits
    exact ⟨⟨hkept.step hstep.1, huncut.step hstep.1 hstep.2⟩, hheld.step hstep.1 hfront, hremains.step hstep.1,
      hconnected.step hsocket (hnow.imp_left And.left) hstep.1⟩
  exact hall.2

/-- The requests behind the `k` responses after the error are still unread, if there is more to
    send than both the daemon's direction holds and a read brings. -/
theorem Failing.behind (hlength : requests.length = (failing answers messages payload later).length + 1) {k : Nat}
    (hkept : Kept (hello :: failing answers messages payload later).flatten s)
    (hheld : Held (front hello answers messages) link s)
    (hremains : Remains (start requests (hello :: failing answers messages payload later)).exchanges s)
    (hlong : 2 * link.responseRoom < (payload ++ (later.take k).flatten).length) :
    (requests.drop (answers.length + 2 + k)).flatten.length ≤ (s.exchanges.map (·.request)).sum := by
  have hdrop : (hello :: failing answers messages payload later).drop (answers.length + 2 + k) = later.drop k := by
    rw [show answers.length + 2 + k = answers.length + (k + 1) + 1 by omega, List.drop_succ_cons, failing,
      List.drop_append, List.drop_of_length_le (by omega), Nat.add_sub_cancel_left, List.nil_append, List.drop_succ_cons]
  have hrest : (start requests (hello :: failing answers messages payload later)).exchanges.drop (answers.length + 2 + k) =
      (start (requests.drop (answers.length + 2 + k)) (later.drop k)).exchanges := by
    rw [← hdrop]
    exact List.drop_zipWith
  have hstart : Kept (later.drop k).flatten (start (requests.drop (answers.length + 2 + k)) (later.drop k)) := by
    refine kept_start ?_
    rw [← hdrop, List.length_drop, List.length_drop, List.length_cons, hlength]
  have hsum := hstart.requests
  have hresponses : (start (requests.drop (answers.length + 2 + k)) (later.drop k)).exchanges.flatMap (·.response) =
      (later.drop k).flatten := hstart.responses
  have hbehind := hremains.behind (n := answers.length + 2 + k)
  rw [hrest, hresponses] at hbehind
  refine Nat.le_trans (Nat.le_of_eq hsum) (hbehind ?_)
  -- what was read or is on its way is no more than the front and twice what fits
  have htotal := congrArg List.length hkept.responses
  have hcut := flatten_cut later k
  rw [List.flatten_cons, failing_flatten] at htotal
  simp only [Net.unread, List.length_append] at htotal hlong
  have hread := hheld.read
  have hpipe := hheld.responsePipe
  omega

end

/-- Over a socket, where the daemon sends more past an error than both its direction holds and
    a read brings, and the requests behind what it has answered by then do not fit theirs, the
    sender is never done; every run ends, and where it ends nobody can go on. -/
theorem replay_stalls (compare : Bool) (preParse : PreParseResult) (info : HandshakeInfo) (hello : List UInt8)
    (answers : List (List UInt8)) (messages payload : List UInt8) (later requests : List (List UInt8)) (link : Link) (k : Nat)
    (hsocket : link.closes = false) (hfailing : Failing preParse info hello answers messages payload later)
    (hrequests : requests.length = preParse.ops.length + 1)
    (hlong : 2 * link.responseRoom < (payload ++ (later.take k).flatten).length)
    (hbehind : link.requestRoom < (requests.drop (answers.length + 2 + k)).flatten.length) (s : Net)
    (hrun : Run (Guarded (Step link (replayFut compare preParse)) (CodesKept hello (failing answers messages payload later)))
      (start requests (hello :: failing answers messages payload later)) s) :
    s.unread ≠ [] ∧ s.toWrite ≠ [] ∧
    (Stuck link (replayFut compare preParse) s → Deadlocked link (replayFut compare preParse) s) ∧
    Acc (fun u t => Step link (replayFut compare preParse) t u) s := by
  have hlength : requests.length = (failing answers messages payload later).length + 1 := by
    obtain ⟨before, op, after, hops, hafter, hanswers⟩ := hfailing.ops
    rw [hrequests, hops, failing]
    simp only [List.length_append, List.length_cons, hanswers.length_eq, hafter]
  have hsent : (payload ++ (later.take k).flatten).length ≤ (payload ++ later.flatten).length := by
    simp only [List.length_append, flatten_cut later k]
    omega
  have hmore : payload ++ later.flatten ≠ [] := List.ne_nil_of_length_pos (by omega)
  obtain ⟨hkept, -⟩ := kept_run hlength hrun.of_guarded
  obtain ⟨hheld, hremains, hconnected⟩ := hfailing.run hsocket hmore hlength hrun
  have hunread : s.unread ≠ [] := by
    intro hall
    have htotal := hkept.responses
    rw [hall, List.append_nil, List.flatten_cons, failing_flatten] at htotal
    have hread := hheld.read
    rw [htotal, List.length_append] at hread
    omega
  have hwrite : s.toWrite ≠ [] := by
    intro hwritten
    have hsum := hkept.requests
    rw [hwritten, List.length_nil, Nat.zero_add] at hsum
    have hleft := Failing.behind hlength hkept hheld hremains hlong
    have hpipe := hheld.requestPipe
    omega
  refine ⟨hunread, hwrite, fun hstuck => ⟨hunread, ?_, hstuck⟩, (steps_end _ _).apply s⟩
  rintro (hover | ⟨-, hwritten | hbroken⟩)
  · exact hover ((hfailing.running hmore hkept.responses (uncut_run hrun)).imp_left And.left)
  · exact hwrite hwritten
  · cases hconnected.2.symm.trans hbroken

/-! ## Calls, the first refused -/

/-- An error of a daemon at 1.10: a message, and an exit status. -/
def refusal : List UInt8 := wordBytes 2 ++ (("no".toList.map fun c => UInt8.ofNat c.toNat) ++ List.replicate 6 0 ++ wordBytes 1)

theorem refusal_no_code (rest : List UInt8) : ¬StartsWithCode (refusal ++ rest) := by
  intro h
  obtain ⟨code, rest', hcode⟩ := h
  rw [refusal, List.append_assoc] at hcode
  obtain ⟨hword, -⟩ := word_append_inj hcode
  have hnone : StderrCode.fromU64 2 = none := by decide
  rw [hword, StderrCode.fromU64_code] at hnone
  cases hnone

/-- Three calls as they were recorded. -/
def refusedPreParse : PreParseResult := ⟨.new 1 10, .new 1 10, List.replicate 3 (some .syncWithGC)⟩

theorem refused : Failing refusedPreParse syncInfo syncHello [] [] refusal [syncAnswer, syncAnswer] where
  hello := by
    have hclient : refusedPreParse.clientVersion = .new 1 10 := rfl
    rw [hclient]
    exact syncHello_parses
  ops := ⟨[], some .syncWithGC, [some .syncWithGC, some .syncWithGC], rfl, rfl, .nil⟩
  messages := ⟨[], [], .nil, rfl⟩
  payload := refusal_no_code _

def refusedRequests : List (List UInt8) := syncRequests ++ [wordBytes Op.syncWithGC.code]

/-- What is read: the hello, the code of the error, and a word of it. -/
def refusedReads : List UInt64 := (syncSession.take 1).flatMap (·.2) ++ [StderrCode.error.code, 2]

/-- The other words of the error are in the pipe and still with the daemon. -/
def refusedEnd : Net :=
  laid wordBytes_ne_nil (wordBytes Op.syncWithGC.code) (wordBytes Op.syncWithGC.code)
    [⟨0, refusal.drop 16⟩, ⟨8, syncAnswer⟩, ⟨8, syncAnswer⟩] ((refusal.drop 8).take 8) refusedReads

theorem refused_returned (toWrite requestPipe : List UInt8) (exchanges : List Exchange) (responsePipe : List UInt8) :
    (laid wordBytes_ne_nil toWrite requestPipe exchanges responsePipe refusedReads).outcome (replayFut true refusedPreParse) =
      .ok .returned := by
  rw [laid_outcome]
  decide

theorem refused_run : Run (Guarded (Step (wordLink false) (replayFut true refusedPreParse))
      (CodesKept syncHello (failing [] [] refusal [syncAnswer, syncAnswer])))
    (start refusedRequests (syncHello :: failing [] [] refusal [syncAnswer, syncAnswer])) refusedEnd := by
  let code := wordBytes Op.syncWithGC.code
  let later : List Exchange := [⟨8, syncAnswer⟩, ⟨8, syncAnswer⟩]
  let hello := (syncSession.take 1).flatMap (·.2)
  let error := wordBytes StderrCode.error.code ++ refusal
  let step := Guarded (Step (wordLink false) (replayFut true refusedPreParse))
    (CodesKept syncHello (failing [] [] refusal [syncAnswer, syncAnswer]))
  have hwords (s t : Net) (words : List UInt64) (h : t.chunks = words.map wordBytes) :
      CodesKept syncHello (failing [] [] refusal [syncAnswer, syncAnswer]) s t := .of_words (by decide) (by decide) h
  have hroom (w : UInt64) : (wordBytes w).length ≤ (wordLink false).responseRoom := Nat.le_of_eq (wordBytes_length w)
  have hgreeted : Run step (start refusedRequests (syncHello :: failing [] [] refusal [syncAnswer, syncAnswer]))
      (laid wordBytes_ne_nil (code ++ (code ++ code)) [] (⟨8, error⟩ :: later) [] hello) :=
    session_crosses wordBytes_ne_nil (wordLink false) hwords (⟨8, error⟩ :: later) hroom (syncSession.take 1)
      (code ++ (code ++ code)) [] (by decide) (by decide)
  have hasked : Run step (laid wordBytes_ne_nil (code ++ (code ++ code)) [] (⟨8, error⟩ :: later) [] hello)
      (laid wordBytes_ne_nil (code ++ code) [] (⟨0, error⟩ :: later) [] hello) :=
    request_crosses wordBytes_ne_nil (wordLink false) hwords later code (code ++ code) error [] hello (Or.inl (by decide))
  have hrefused : Run step (laid wordBytes_ne_nil (code ++ code) [] (⟨0, error⟩ :: later) [] hello)
      (laid wordBytes_ne_nil (code ++ code) [] (⟨0, refusal.drop 8⟩ :: later) [] refusedReads) :=
    response_crosses wordBytes_ne_nil (wordLink false) hwords later hroom (code ++ code) [] (refusal.drop 8)
      [StderrCode.error.code, 2] hello (by decide)
  -- the receiver has ended; both directions fill
  have hrunning : (laid wordBytes_ne_nil [] [] [] [] refusedReads).Running (replayFut true refusedPreParse) :=
    Or.inr (refused_returned _ _ _ _)
  have hanswered : Run step (laid wordBytes_ne_nil (code ++ code) [] (⟨0, refusal.drop 8⟩ :: later) [] refusedReads)
      (laid wordBytes_ne_nil (code ++ code) [] (⟨0, refusal.drop 16⟩ :: later) ((refusal.drop 8).take 8) refusedReads) :=
    response_fills wordBytes_ne_nil (wordLink false) hwords later (code ++ code) [] ((refusal.drop 8).take 8)
      (refusal.drop 16) [] refusedReads (Nat.le_refl 8) (hrunning.socket_open rfl)
  have hsent : Run step
      (laid wordBytes_ne_nil (code ++ code) [] (⟨0, refusal.drop 16⟩ :: later) ((refusal.drop 8).take 8) refusedReads) refusedEnd :=
    request_fills wordBytes_ne_nil (wordLink false) hwords (⟨0, refusal.drop 16⟩ :: later) code code []
      ((refusal.drop 8).take 8) refusedReads (Nat.le_refl 8) hrunning
  exact (((hgreeted.trans hasked).trans hrefused).trans hanswered).trans hsent

/-- The run of the three calls to where nobody can go on. -/
theorem replay_stalls_refused : Run (Guarded (Step (wordLink false) (replayFut true refusedPreParse))
      (CodesKept syncHello (failing [] [] refusal [syncAnswer, syncAnswer])))
      (start refusedRequests (syncHello :: failing [] [] refusal [syncAnswer, syncAnswer])) refusedEnd ∧
    Stuck (wordLink false) (replayFut true refusedPreParse) refusedEnd ∧
    refusedEnd.unread ≠ [] ∧ refusedEnd.toWrite ≠ [] ∧
    (Stuck (wordLink false) (replayFut true refusedPreParse) refusedEnd → Deadlocked (wordLink false) (replayFut true refusedPreParse) refusedEnd) ∧
    Acc (fun u t => Step (wordLink false) (replayFut true refusedPreParse) t u) refusedEnd := by
  have hfull : Deadlocked (wordLink false) (replayFut true refusedPreParse) refusedEnd :=
    deadlocked_full rfl (refused_returned _ _ _ _) rfl rfl (List.cons_ne_nil _ _) (Nat.le_refl 8) rfl (Nat.le_refl 8)
  refine ⟨refused_run, hfull.2.2, ?_⟩
  exact replay_stalls true refusedPreParse syncInfo syncHello [] [] refusal [syncAnswer, syncAnswer] refusedRequests (wordLink false) 0 rfl
    refused rfl (by decide) (by decide) refusedEnd refused_run

end NixWire.Pipes
