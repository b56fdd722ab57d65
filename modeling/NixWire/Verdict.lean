/-
  NixWire.Verdict — how a run and a replay end over the connection (script.rs, replay.rs).

  The parties of `Pipes` take their steps in any order and the reads bring any amounts.

  - Over a child's pipes no state is a deadlock, and over a socket none is while no read ends
    inside a stderr code (`no_deadlock`); a socket whose first read of a response brings a
    byte of its code is one (`cut_code_deadlocks`).
  - While no read ends inside a code, the future that reads the responses comes to one outcome,
    the one it has on the whole stream at once, and waits until then (`run_verdict`,
    `replay_verdict`). Where nobody can take a step it has come to it, and unless the process
    has exited everything was written, answered and read.
-/

import NixWire.Pipes

namespace NixWire.Pipes

open Base

/-! ## What was read -/

section

variable {α : Type}

/-- What the future has come to on what was read. -/
def Net.reads (s : Net) (x : Rd WireError LiveReader α) : Res WireError α := (x.run (.new s.chunks s.nonempty)).1

variable {hello : List UInt8} {responses : List (List UInt8)} {x : (R : Type) → [BufRead R] → Rd WireError R α} {a : α}
  {left : List UInt8 → Prop} {s : Net}

/-- The chunks that came, and the rest in one piece, cut no code. -/
theorem codesWhole_rest (hkept : s.chunks.flatten ++ s.unread = hello ++ responses.flatten)
    (huncut : Uncut hello responses s) {before after : List (List UInt8)} (hsplit : responses = before ++ after) :
    CodesWhole (s.chunks ++ onePiece s.unread) after.flatten := by
  intro ms parts rest hms hafter hstart hcut
  have htotal : (s.chunks ++ onePiece s.unread).flatten = hello ++ (before.flatten ++ (parts.flatten ++ rest)) := by
    rw [List.flatten_append, onePiece_flatten, hkept, hsplit, List.flatten_append, hafter]
  have hpos : (s.chunks ++ onePiece s.unread).flatten.length - rest.length =
      hello.length + before.flatten.length + parts.flatten.length := by
    rw [htotal]
    simp only [List.length_append]
    omega
  obtain ⟨n, hlt, hlt'⟩ := hcut
  rw [hpos] at hlt hlt'
  rcases Nat.lt_or_ge s.chunks.length n with hn | hn
  · -- all the bytes: the code is among them
    obtain ⟨code, rest', rfl⟩ := hstart
    have hone : (onePiece s.unread).length ≤ 1 := by
      unfold onePiece
      split <;> simp
    rw [List.take_of_length_le (by rw [List.length_append]; omega), htotal] at hlt'
    simp only [List.length_append, wordBytes_length] at hlt'
    omega
  · rw [List.take_append_of_le_length hn] at hlt hlt'
    exact huncut n ⟨before, after, ms, parts, rest, hsplit, hms, hafter, hstart, hlt, hlt'⟩

/-- Whatever was read, it waits or has come to `a`, leaving what is unread and maybe more. -/
theorem ComesTo.reads (h : ComesTo hello responses x a left) (hlags : LagsAlways x)
    (hkept : s.chunks.flatten ++ s.unread = hello ++ responses.flatten) (huncut : Uncut hello responses s) :
    s.reads (x LiveReader) = .stop .hang ∨ s.reads (x LiveReader) = .ok a ∧ ∃ rest, left (rest ++ s.unread) := by
  have hne : ∀ c ∈ s.chunks ++ onePiece s.unread, c ≠ [] := by
    intro c hc
    rcases List.mem_append.mp hc with hc | hc
    · exact s.nonempty c hc
    · exact onePiece_nonempty _ c hc
  have hfollows := BufReader.follows_new hne
  rw [List.flatten_append, onePiece_flatten, hkept] at hfollows
  obtain ⟨r', s', hrun, hrest, hleft⟩ := h BufReader _ _ (BufReader.delivers _).serving (BufReader.stderr_served _)
    (fun before after => codesWhole_rest hkept huncut) _ hfollows
  have hbehind := hlags LiveReader BufReader _ (LiveReader.behind s.unread) (.new s.chunks s.nonempty) (.new _ hne) ⟨rfl, rfl⟩
  rw [hrun] at hbehind
  rcases hbehind with hwaits | ⟨hsame, hbuf, hchunks⟩
  · exact Or.inl hwaits
  · let live := ((x LiveReader).run (.new s.chunks s.nonempty)).2.reader
    have hbuf' : r'.buf = live.buf := hbuf
    have hchunks' : r'.chunks = live.chunks ++ onePiece s.unread := hchunks
    have hunread : s' = live.unread ++ s.unread := by
      rw [← hrest.1]
      simp only [BufReader.unread, hbuf', hchunks', List.flatten_append, onePiece_flatten, List.append_assoc]
    refine Or.inr ⟨hsame, live.unread, ?_⟩
    rwa [← hunread]

/-- Once all was read, it has. -/
theorem ComesTo.reads_all (h : ComesTo hello responses x a left)
    (hkept : s.chunks.flatten ++ s.unread = hello ++ responses.flatten) (huncut : Uncut hello responses s)
    (hunread : s.unread = []) : s.reads (x LiveReader) = .ok a := by
  have hwhole : AllWhole responses (CodesWhole s.chunks) := by
    intro before after hsplit
    have hrest := codesWhole_rest hkept huncut hsplit
    rwa [hunread, onePiece, if_pos rfl, List.append_nil] at hrest
  have hfeeds := LiveReader.feeds_new s.nonempty
  rw [hunread, List.append_nil] at hkept
  rw [hkept] at hfeeds
  obtain ⟨l', s', hrun, -, -⟩ := h LiveReader _ _ (LiveReader.serving _) (LiveReader.stderr_served _) hwhole _ hfeeds
  exact congrArg Prod.fst hrun

end

/-! ## How the parties end -/

section

variable {hello : List UInt8} {responses requests : List (List UInt8)} {x : (R : Type) → [BufRead R] → Rd WireError R ReadEnd}
  {e : ReadEnd} {link : Link} {s : Net}

/-- A future that comes to `e`, and unless it exits then has read the responses. -/
abbrev Concludes (hello : List UInt8) (responses : List (List UInt8)) (x : (R : Type) → [BufRead R] → Rd WireError R ReadEnd)
    (e : ReadEnd) : Prop :=
  ComesTo hello responses x e fun rest => e = .exited ∨ rest = []

/-- Where nobody can take a step it has come to `e`, and all is done unless it has exited. -/
theorem Concludes.stuck (h : Concludes hello responses x e) (hlags : LagsAlways x)
    (hlength : requests.length = responses.length + 1)
    (hrun : Run (Guarded (Step link (x LiveReader)) (CodesKept hello responses)) (start requests (hello :: responses)) s)
    (hstuck : Stuck link (x LiveReader) s) : s.outcome (x LiveReader) = .ok e ∧ (e = .exited ∨ s.Done) := by
  obtain ⟨hkept, hhung⟩ := kept_run hlength hrun.of_guarded
  have huncut := uncut_run hrun
  by_cases hunread : s.unread = []
  · have hcome : s.outcome (x LiveReader) = .ok e := h.reads_all hkept.responses huncut hunread
    refine ⟨hcome, ?_⟩
    cases e with
    | exited => exact Or.inl rfl
    | returned => exact Or.inr (hkept.done hhung (Or.inr hcome) hstuck hunread)
  · rcases h.reads hlags hkept.responses huncut with hwaits | ⟨hcome, left, hexited | hall⟩
    · obtain ⟨t, hstep⟩ := progress hkept hhung hunread hwaits
      exact absurd hstep (hstuck t)
    · exact ⟨hcome, Or.inl hexited⟩
    · exact absurd (List.append_eq_nil_iff.mp hall).2 hunread

/-- No state is a deadlock, if the read end closes or no read ends inside a code. -/
theorem Concludes.not_deadlocked (h : Concludes hello responses x e) (hlags : LagsAlways x)
    (hlength : requests.length = responses.length + 1)
    (hrun : Run (Guarded (Step link (x LiveReader)) fun s t => link.closes = true ∨ CodesKept hello responses s t)
      (start requests (hello :: responses)) s) : ¬Deadlocked link (x LiveReader) s := by
  intro hdead
  obtain ⟨hunread, hgoes, hstuck⟩ := hdead
  obtain ⟨hkept, hhung⟩ := kept_run hlength hrun.of_guarded
  obtain ⟨hrunning, hwriting⟩ := not_or.mp hgoes
  rcases not_not.mp hrunning with hwaits | hreturned
  · obtain ⟨t, hstep⟩ := progress hkept hhung hunread hwaits
    exact hstuck t hstep
  · have hended : s.outcome (x LiveReader) ≠ .stop .hang := by
      rw [hreturned]
      exact nofun
    cases hcloses : link.closes with
    | true =>
      -- the writer that is left over goes on, or fails
      obtain ⟨hwrite, hbroken⟩ := not_or.mp fun hover => hwriting ⟨hreturned, hover⟩
      obtain ⟨t, hstep⟩ := progress_closed hkept (Or.inl ⟨hcloses, hended⟩) (not_not.mp hrunning) hwrite
        (Bool.eq_false_iff.mpr hbroken)
      exact hstuck t hstep
    | false =>
      have hwhole : Run (Guarded (Step link (x LiveReader)) (CodesKept hello responses)) (start requests (hello :: responses)) s := by
        refine Relation.ReflTransGen.mono (fun _ _ hstep => ⟨hstep.1, hstep.2.resolve_left ?_⟩) _ _ hrun
        rw [hcloses]
        exact Bool.false_ne_true
      rcases h.reads hlags hkept.responses (uncut_run hwhole) with hwaits | ⟨hcome, left, hexited | hall⟩
      · exact hended hwaits
      · rw [hexited] at hcome
        cases hreturned.symm.trans hcome
      · exact hunread (List.append_eq_nil_iff.mp hall).2

end

/-- The daemon's side of a script of two calls to SyncWithGC. -/
def syncHello : List UInt8 := [workerMagic2, (ProtocolVersion.new 1 10).toWire, StderrCode.last.code].flatMap wordBytes

def syncAnswer : List UInt8 := [StderrCode.last.code, 1].flatMap wordBytes

def syncScript : Script Unit where
  preamble := ⟨.new 1 10, [], [], none, none, none⟩
  entries := List.replicate 2 ⟨none, .noArgs .syncWithGC, none, []⟩

def syncInfo : HandshakeInfo := ⟨.new 1 10, .new 1 10, .new 1 10, [], [], none, none⟩

def syncRequests : List (List UInt8) :=
  [[workerMagic1, (ProtocolVersion.new 1 10).toWire].flatMap wordBytes, wordBytes Op.syncWithGC.code,
    wordBytes Op.syncWithGC.code]

abbrev syncReader : Rd WireError LiveReader ReadEnd :=
  readFut (fun _ _ => false) (fun _ => []) false syncScript.entries [] (.new 1 10)

theorem syncHello_parses (rest : List UInt8) :
    (parseDaemonHandshake (.new 1 10)).run (syncHello ++ rest) = (.ok syncInfo, rest) := by
  have henc : (daemonHelloFmt (.new 1 10)).Enc wireLimits (none, none, none, StderrCode.last.code)
      (wordBytes StderrCode.last.code) :=
    ⟨[], _, ⟨by decide, rfl⟩, ⟨[], _, ⟨by decide, rfl⟩, ⟨[], _, ⟨by decide, rfl⟩, rfl, rfl⟩, rfl⟩, rfl⟩
  have hserver : ProtocolVersion.fromWire (ProtocolVersion.new 1 10).toWire = .new 1 10 := by decide
  have hmin : ProtocolVersion.new 1 10 = min (.new 1 10) (.fromWire (ProtocolVersion.new 1 10).toWire) := by decide
  have hrun := parseDaemonHandshake_ok hmin henc (by decide) rest
  rw [hserver] at hrun
  simp only [syncHello, List.flatMap_cons, List.flatMap_nil, List.append_assoc, List.nil_append]
  exact hrun

theorem syncAnswers_complete (v : ProtocolVersion) :
    List.Forall₂ (fun entry bs => Complete entry.opCall.op v bs) syncScript.entries [syncAnswer, syncAnswer] :=
  have hanswer : Complete .syncWithGC v syncAnswer := ⟨⟨[], .last (.u64 1)⟩, [], _, .nil, ⟨wordBytes 1, rfl, rfl⟩, rfl⟩
  .cons hanswer (.cons hanswer .nil)

/-! ## A run -/

/-- In every run in which no read ends inside a stderr code, no state is a deadlock; and none is
    in any run over a connection whose read end closes. -/
theorem no_deadlock {τ : Type} (isMatch : Str → Str → Bool) (debug : Expect → Str) (failFast : Bool) (entries : List (Entry τ))
    (preambleExpects : List Expect) (version : ProtocolVersion) (info : HandshakeInfo) (hello : List UInt8)
    (responses requests : List (List UInt8)) (link : Link)
    (hhello : ∀ rest, (parseDaemonHandshake version).run (hello ++ rest) = (.ok info, rest))
    (hresponses : List.Forall₂ (fun entry bs => Complete entry.opCall.op (min version info.serverVersion) bs) entries responses)
    (hrequests : requests.length = entries.length + 1) (s : Net)
    (hrun : Run (Guarded (Step link (readFut isMatch debug failFast entries preambleExpects version))
      fun s t => link.closes = true ∨ CodesKept hello responses s t) (start requests (hello :: responses)) s) :
    ¬Deadlocked link (readFut isMatch debug failFast entries preambleExpects version) s := by
  obtain ⟨e, hcomes⟩ := readFut_comesTo isMatch debug failFast preambleExpects hhello hresponses
  have hlags : LagsAlways (fun _ _ => readFut isMatch debug failFast entries preambleExpects version) :=
    fun R S _ _ ρ h => readFut_lags isMatch debug failFast h entries preambleExpects version
  have hlength : requests.length = responses.length + 1 := by rw [hrequests, hresponses.length_eq]
  exact Concludes.not_deadlocked hcomes hlags hlength hrun

/-- The words of the daemon's side, exchange by exchange. -/
def syncSession : List (List UInt8 × List UInt64) :=
  syncRequests.zip [[workerMagic2, (ProtocolVersion.new 1 10).toWire, StderrCode.last.code], [StderrCode.last.code, 1],
    [StderrCode.last.code, 1]]

/-- A connection that holds a word each way. -/
def wordLink (closes : Bool) : Link := ⟨8, 8, by decide, by decide, closes⟩

theorem sync_words (s t : Net) (words : List UInt64) (h : t.chunks = words.map wordBytes) :
    CodesKept syncHello [syncAnswer, syncAnswer] s t :=
  .of_words (by decide) (by decide) h

/-- The second answer is still to come. -/
def syncHalfway : Net :=
  laid wordBytes_ne_nil (wordBytes Op.syncWithGC.code) [] [⟨8, syncAnswer⟩] [] ((syncSession.take 2).flatMap (·.2))

/-- Half-way through, over a socket. -/
theorem no_deadlock_sync : Run (Guarded (Step (wordLink false) syncReader)
      fun s t => (wordLink false).closes = true ∨ CodesKept syncHello [syncAnswer, syncAnswer] s t)
      (start syncRequests [syncHello, syncAnswer, syncAnswer]) syncHalfway ∧
    syncHalfway.unread ≠ [] ∧ ¬Deadlocked (wordLink false) syncReader syncHalfway := by
  have hrun : Run (Guarded (Step (wordLink false) syncReader)
      fun s t => (wordLink false).closes = true ∨ CodesKept syncHello [syncAnswer, syncAnswer] s t)
      (start syncRequests [syncHello, syncAnswer, syncAnswer]) syncHalfway :=
    session_crosses wordBytes_ne_nil (wordLink false) (fun s t words h => Or.inr (sync_words s t words h)) [⟨8, syncAnswer⟩]
      (fun w => Nat.le_of_eq (wordBytes_length w)) (syncSession.take 2) (wordBytes Op.syncWithGC.code) [] (by decide) (by decide)
  refine ⟨hrun, List.cons_ne_nil _ _, ?_⟩
  exact no_deadlock (fun _ _ => false) (fun _ => []) false syncScript.entries [] (.new 1 10) syncInfo syncHello
    [syncAnswer, syncAnswer] syncRequests (wordLink false) syncHello_parses (syncAnswers_complete _) rfl syncHalfway hrun

/-- A socket that holds a byte each way. -/
def byteSocket : Link := ⟨1, 1, by decide, by decide, false⟩

def byteReads (toWrite requestPipe : List UInt8) (exchanges : List Exchange) (responsePipe received : List UInt8) : Net :=
  laid (fun b => List.cons_ne_nil b []) toWrite requestPipe exchanges responsePipe received

section

variable (toWrite requestPipe : List UInt8) (exchanges : List Exchange) (responsePipe : List UInt8)

/-- With one byte of the code the future has returned. -/
theorem cut_returned : (byteReads toWrite requestPipe exchanges responsePipe (syncHello ++ syncAnswer.take 1)).outcome syncReader =
    .ok .returned := by
  rw [byteReads, laid_outcome]
  decide

end

/-- Both directions are full, after a read that brought one byte of the first code. -/
def syncBlocked : Net :=
  byteReads ((wordBytes Op.syncWithGC.code).drop 1) ((wordBytes Op.syncWithGC.code).take 1)
    [⟨0, syncAnswer.drop 2⟩, ⟨8, syncAnswer⟩] ((syncAnswer.drop 1).take 1) (syncHello ++ syncAnswer.take 1)

theorem cut_run : Run (Step byteSocket syncReader) (start syncRequests [syncHello, syncAnswer, syncAnswer]) syncBlocked := by
  let code := wordBytes Op.syncWithGC.code
  let last : Exchange := ⟨8, syncAnswer⟩
  let hbyte : ∀ b : UInt8, [b] ≠ [] := fun b => List.cons_ne_nil b []
  have hany (s t : Net) (items : List UInt8) (_ : t.chunks = items.map ([·])) : (fun _ _ => True : Net → Net → Prop) s t := trivial
  have hroom (b : UInt8) : [b].length ≤ byteSocket.responseRoom := Nat.le_refl 1
  have hgreeted : Run (Guarded (Step byteSocket syncReader) fun _ _ => True)
      (start syncRequests [syncHello, syncAnswer, syncAnswer]) (byteReads (code ++ code) [] [last, last] [] syncHello) :=
    session_crosses hbyte byteSocket hany [last, last] hroom [(syncRequests.headD [], syncHello)] (code ++ code) [] (by decide)
      (by decide)
  have hasked : Run (Guarded (Step byteSocket syncReader) fun _ _ => True)
      (byteReads (code ++ code) [] [last, last] [] syncHello) (byteReads code [] [⟨0, syncAnswer⟩, last] [] syncHello) :=
    request_crosses hbyte byteSocket hany [last] code code syncAnswer [] syncHello (Or.inl (by decide))
  -- the read that ends inside the code
  have hcut : Run (Guarded (Step byteSocket syncReader) fun _ _ => True) (byteReads code [] [⟨0, syncAnswer⟩, last] [] syncHello)
      (byteReads code [] [⟨0, syncAnswer.drop 1⟩, last] [] (syncHello ++ syncAnswer.take 1)) :=
    response_crosses hbyte byteSocket hany [last] hroom code [] (syncAnswer.drop 1) (syncAnswer.take 1) syncHello (by decide)
  -- the daemon and the writer go on until both directions are full
  have hrunning : (byteReads [] [] [] [] (syncHello ++ syncAnswer.take 1)).Running syncReader := Or.inr (cut_returned _ _ _ _)
  have hanswered : Run (Guarded (Step byteSocket syncReader) fun _ _ => True)
      (byteReads code [] [⟨0, syncAnswer.drop 1⟩, last] [] (syncHello ++ syncAnswer.take 1))
      (byteReads code [] [⟨0, syncAnswer.drop 2⟩, last] ((syncAnswer.drop 1).take 1) (syncHello ++ syncAnswer.take 1)) :=
    response_fills hbyte byteSocket hany [last] code [] ((syncAnswer.drop 1).take 1) (syncAnswer.drop 2) []
      (syncHello ++ syncAnswer.take 1) (Nat.le_refl 1) (hrunning.socket_open rfl)
  have hfull : Run (Guarded (Step byteSocket syncReader) fun _ _ => True)
      (byteReads code [] [⟨0, syncAnswer.drop 2⟩, last] ((syncAnswer.drop 1).take 1) (syncHello ++ syncAnswer.take 1)) syncBlocked :=
    request_fills hbyte byteSocket hany [⟨0, syncAnswer.drop 2⟩, last] (code.take 1) (code.drop 1) []
      ((syncAnswer.drop 1).take 1) (syncHello ++ syncAnswer.take 1) (Nat.le_refl 1) hrunning
  exact Run.of_guarded ((((hgreeted.trans hasked).trans hcut).trans hanswered).trans hfull)

/-- Over a socket that holds a byte each way, the read that brings one byte of the first
    response ends inside its code. -/
theorem cut_code_deadlocks : serializeScript (fun _ => .error []) syncScript none = .ok syncRequests.flatten ∧
    (∀ rest, (parseDaemonHandshake (.new 1 10)).run (syncHello ++ rest) = (.ok syncInfo, rest)) ∧
    List.Forall₂ (fun entry bs => Complete entry.opCall.op (min (.new 1 10) syncInfo.serverVersion) bs) syncScript.entries
      [syncAnswer, syncAnswer] ∧
    ∃ s, Run (Step byteSocket syncReader) (start syncRequests [syncHello, syncAnswer, syncAnswer]) s ∧
      Deadlocked byteSocket syncReader s := by
  refine ⟨rfl, syncHello_parses, syncAnswers_complete _, syncBlocked, cut_run, ?_⟩
  exact deadlocked_full rfl (cut_returned _ _ _ _) rfl rfl (List.cons_ne_nil _ _) (Nat.le_refl 1) rfl (Nat.le_refl 1)

/-- Whatever the order of the steps and the size of the reads, while none ends inside a
    stderr code the run has one verdict, that of the whole stream, and comes to it. -/
theorem run_verdict {τ : Type} (isMatch : Str → Str → Bool) (debug : Expect → Str) (failFast : Bool) (entries : List (Entry τ))
    (preambleExpects : List Expect) (version : ProtocolVersion) (info : HandshakeInfo) (hello : List UInt8)
    (responses requests : List (List UInt8)) (link : Link)
    (hhello : ∀ rest, (parseDaemonHandshake version).run (hello ++ rest) = (.ok info, rest))
    (hresponses : List.Forall₂ (fun entry bs => Complete entry.opCall.op (min version info.serverVersion) bs) entries responses)
    (hrequests : requests.length = entries.length + 1) (s : Net)
    (hrun : Run (Guarded (Step link (readFut isMatch debug failFast entries preambleExpects version))
      (CodesKept hello responses)) (start requests (hello :: responses)) s) :
    ∃ e rest, (readFut isMatch debug failFast entries preambleExpects version).run (hello ++ responses.flatten) = (.ok e, rest) ∧
      (s.outcome (readFut isMatch debug failFast entries preambleExpects version) = .stop .hang ∨
        s.outcome (readFut isMatch debug failFast entries preambleExpects version) = .ok e) ∧
      (Stuck link (readFut isMatch debug failFast entries preambleExpects version) s →
        s.outcome (readFut isMatch debug failFast entries preambleExpects version) = .ok e ∧ (e = .exited ∨ s.Done)) ∧
      Acc (fun u t => Step link (readFut isMatch debug failFast entries preambleExpects version) t u) s := by
  obtain ⟨e, hcomes⟩ := readFut_comesTo isMatch debug failFast preambleExpects hhello hresponses
  obtain ⟨rest, hplain, -⟩ := hcomes.plain
  have hlags : LagsAlways (fun _ _ => readFut isMatch debug failFast entries preambleExpects version) :=
    fun R S _ _ ρ h => readFut_lags isMatch debug failFast h entries preambleExpects version
  have hlength : requests.length = responses.length + 1 := by rw [hrequests, hresponses.length_eq]
  have hreads := hcomes.reads hlags (kept_run hlength hrun.of_guarded).1.responses (uncut_run hrun)
  exact ⟨e, rest, hplain, hreads.imp_right And.left, Concludes.stuck hcomes hlags hlength hrun, (steps_end _ _).apply s⟩

/-- All of a session of two calls was read. -/
def syncEnd : Net := laid wordBytes_ne_nil [] [] [] [] (syncSession.flatMap (·.2))

/-- The run of the two calls to its end, over pipes. -/
theorem run_verdict_sync : Run (Guarded (Step (wordLink true) syncReader) (CodesKept syncHello [syncAnswer, syncAnswer]))
      (start syncRequests [syncHello, syncAnswer, syncAnswer]) syncEnd ∧ syncEnd.Done ∧
    ∃ e rest, (readFut (fun _ _ => false) (fun _ => []) false syncScript.entries [] (.new 1 10)).run
        (syncHello ++ [syncAnswer, syncAnswer].flatten) = (.ok e, rest) ∧
      (syncEnd.outcome syncReader = .stop .hang ∨ syncEnd.outcome syncReader = .ok e) ∧
      (Stuck (wordLink true) syncReader syncEnd → syncEnd.outcome syncReader = .ok e ∧ (e = .exited ∨ syncEnd.Done)) ∧
      Acc (fun u t => Step (wordLink true) syncReader t u) syncEnd := by
  have hrun : Run (Guarded (Step (wordLink true) syncReader) (CodesKept syncHello [syncAnswer, syncAnswer]))
      (start syncRequests [syncHello, syncAnswer, syncAnswer]) syncEnd :=
    session_crosses wordBytes_ne_nil (wordLink true) sync_words [] (fun w => Nat.le_of_eq (wordBytes_length w)) syncSession [] []
      (by decide) (by decide)
  refine ⟨hrun, ⟨rfl, rfl, rfl, rfl⟩, ?_⟩
  exact run_verdict (fun _ _ => false) (fun _ => []) false syncScript.entries [] (.new 1 10) syncInfo syncHello
    [syncAnswer, syncAnswer] syncRequests (wordLink true) syncHello_parses (syncAnswers_complete _) rfl syncEnd hrun

/-! ## A replay -/

section

variable {compare : Bool} {preParse : PreParseResult}

theorem replayFut_concludes {hello : List UInt8} {responses : List (List UInt8)}
    (h : ComesTo hello responses (fun _ _ => receiveDaemonResponses compare preParse) 0 (· = [])) :
    Concludes hello responses (fun _ _ => replayFut compare preParse) .returned := by
  intro R _ ρ whole hserving hstderr hwhole r hr
  obtain ⟨r', s', hrun, h', hleft⟩ := h R ρ whole hserving hstderr hwhole r hr
  exact ⟨r', s', Rd.map_ok_iff.mpr ⟨.ok 0, Rd.attempt_ok hrun, rfl⟩, h', Or.inr hleft⟩

theorem replayFut_lags : LagsAlways (fun _ _ => replayFut compare preParse) :=
  fun R S _ _ _ h => (receive_lags compare preParse R S _ h).attempt.map _

end

/-- Replaying to a daemon that answers every operation comes to no mismatch, whatever the
    order of the steps and the size of the reads, while none ends inside a stderr code. -/
theorem replay_verdict (compare : Bool) (preParse : PreParseResult) (info : HandshakeInfo) (hello : List UInt8)
    (responses requests : List (List UInt8)) (link : Link)
    (hhello : ∀ rest, (parseDaemonHandshake preParse.clientVersion).run (hello ++ rest) = (.ok info, rest))
    (hresponses : List.Forall₂ (Answered (min preParse.clientVersion info.serverVersion)) preParse.ops responses)
    (hrequests : requests.length = preParse.ops.length + 1) (s : Net)
    (hrun : Run (Guarded (Step link (replayFut compare preParse)) (CodesKept hello responses))
      (start requests (hello :: responses)) s) :
    (s.reads (receiveDaemonResponses compare preParse) = .stop .hang ∨
      s.reads (receiveDaemonResponses compare preParse) = .ok 0) ∧
    (Stuck link (replayFut compare preParse) s → s.reads (receiveDaemonResponses compare preParse) = .ok 0 ∧ s.Done) ∧
    Acc (fun u t => Step link (replayFut compare preParse) t u) s := by
  have hcomes := receive_comesTo compare hhello hresponses
  have hlength : requests.length = responses.length + 1 := by rw [hrequests, hresponses.length_eq]
  have hkept := (kept_run hlength hrun.of_guarded).1
  have hreads := hcomes.reads (receive_lags compare preParse) hkept.responses (uncut_run hrun)
  refine ⟨hreads.imp_right And.left, fun hstuck => ?_, (steps_end _ _).apply s⟩
  obtain ⟨hreturned, hexited | hdone⟩ := Concludes.stuck (replayFut_concludes hcomes) replayFut_lags hlength hrun hstuck
  · cases hexited
  · have hunread : s.unread = [] := by
      rw [Net.unread, hdone.responsePipe, hdone.exchanges]
      rfl
    exact ⟨hcomes.reads_all hkept.responses (uncut_run hrun) hunread, hdone⟩

theorem syncAnswer_answered (v : ProtocolVersion) : Answered v (some .syncWithGC) syncAnswer := by
  refine ⟨[], [], wordBytes 1, .nil, rfl, fun rest => ?_⟩
  rw [skipDaemonResult_eq]
  exact Rd.map_ok_iff.mpr ⟨(), (parse_ok_iff wirePrims_lawful).mpr ⟨wordBytes 1, ⟨1, rfl⟩, rfl⟩, rfl⟩

/-- The two calls as they were recorded. -/
def syncPreParse : PreParseResult := ⟨.new 1 10, .new 1 10, [some .syncWithGC, some .syncWithGC]⟩

theorem replay_verdict_sync : Run (Guarded (Step (wordLink false) (replayFut true syncPreParse))
      (CodesKept syncHello [syncAnswer, syncAnswer])) (start syncRequests [syncHello, syncAnswer, syncAnswer]) syncEnd ∧
    syncEnd.Done ∧
    (syncEnd.reads (receiveDaemonResponses true syncPreParse) = .stop .hang ∨
      syncEnd.reads (receiveDaemonResponses true syncPreParse) = .ok 0) ∧
    (Stuck (wordLink false) (replayFut true syncPreParse) syncEnd →
      syncEnd.reads (receiveDaemonResponses true syncPreParse) = .ok 0 ∧ syncEnd.Done) ∧
    Acc (fun u t => Step (wordLink false) (replayFut true syncPreParse) t u) syncEnd := by
  have hclient : syncPreParse.clientVersion = .new 1 10 := rfl
  have hhello : ∀ rest, (parseDaemonHandshake syncPreParse.clientVersion).run (syncHello ++ rest) = (.ok syncInfo, rest) := by
    rw [hclient]
    exact syncHello_parses
  have hresponses : List.Forall₂ (Answered (min syncPreParse.clientVersion syncInfo.serverVersion)) syncPreParse.ops
      [syncAnswer, syncAnswer] :=
    .cons (syncAnswer_answered _) (.cons (syncAnswer_answered _) .nil)
  have hrequests : syncRequests.length = syncPreParse.ops.length + 1 := rfl
  have hrun : Run (Guarded (Step (wordLink false) (replayFut true syncPreParse)) (CodesKept syncHello [syncAnswer, syncAnswer]))
      (start syncRequests [syncHello, syncAnswer, syncAnswer]) syncEnd :=
    session_crosses wordBytes_ne_nil (wordLink false) sync_words [] (fun w => Nat.le_of_eq (wordBytes_length w)) syncSession [] []
      (by decide) (by decide)
  refine ⟨hrun, ⟨rfl, rfl, rfl, rfl⟩, ?_⟩
  exact replay_verdict true syncPreParse syncInfo syncHello [syncAnswer, syncAnswer] syncRequests (wordLink false) hhello
    hresponses hrequests syncEnd hrun

end NixWire.Pipes
