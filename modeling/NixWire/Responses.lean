/-
  NixWire.Responses — the daemon's responses, one after another.

  A response is any number of messages, then STDERR_LAST and a result the reader accepts,
  or STDERR_ERROR and its payload. Reading one takes exactly its bytes
  (`readResponse_enc`), so reading the responses to a list of operations reports each of
  them and ends where they end (`responses_aligned`).
-/

import NixWire.Messages

namespace NixWire

open Base

/-! ## Responses -/

inductive Ending where
  | last (result : ResultData)
  | error (payload : errorLayout.fmt.Val)

structure Response where
  messages : List Message
  ending : Ending

/-- `bs` is the end of a response to `op`: the terminal code, and what follows it. -/
def Ending.Enc (op : Op) (v : ProtocolVersion) : Ending → List UInt8 → Prop
  | .last result, bs => ∃ resultBytes : List UInt8,
      (readDaemonResult op v).run (MemReader.new resultBytes) = (.ok result, ⟨resultBytes, resultBytes.length⟩) ∧
      bs = wordBytes StderrCode.last.code ++ resultBytes
  | .error payload, bs => ∃ payloadBytes : List UInt8, errorLayout.fmt.Enc wireLimits payload payloadBytes ∧
      bs = wordBytes StderrCode.error.code ++ payloadBytes

/-- `bs` is a response to `op` at version `v`. -/
def Response.Enc (op : Op) (v : ProtocolVersion) (response : Response) (bs : List UInt8) : Prop :=
  ∃ (parts : List (List UInt8)) (tail : List UInt8), List.Forall₂ Message.Enc response.messages parts ∧
    response.ending.Enc op v tail ∧ bs = parts.flatten ++ tail

/-! ## Reading them -/

section

variable {R : Type} [BufRead R]

/-- What is known of a response: the loop's result, the error and the result data. -/
abbrev Report := StderrResult × Option ErrorInfo × Option ResultData

/-- The stderr messages, and the result when they end in STDERR_LAST. -/
def readResponse (op : Op) (v : ProtocolVersion) : Rd WireError R Report := do
  let (stderrResult, errorInfo) ← readStderrWithError
  if stderrResult.terminal = some .last then
    let result ← readDaemonResult op v
    return (stderrResult, errorInfo, some result)
  else return (stderrResult, errorInfo, none)

/-- The responses to the operations in order. -/
def readResponses (v : ProtocolVersion) : List Op → Rd WireError R (List Report)
  | [] => return []
  | op :: ops => do
    let report ← readResponse op v
    let reports ← readResponses v ops
    return report :: reports

end

/-- What reading the response should report. -/
def Response.report (response : Response) : Report :=
  let count := UInt64.ofNat (response.messages.length + 1)
  match response.ending with
  | .last result => (⟨count, some .last⟩, none, some result)
  | .error payload => (⟨count, some .error⟩, some (errorLayout.of payload), none)

/-! ## Alignment -/

/-- A result accepted on its own is read off the front of a longer stream. -/
theorem readDaemonResult_front {op : Op} {v : ProtocolVersion} {resultBytes : List UInt8} {result : ResultData}
    (h : (readDaemonResult op v).run (MemReader.new resultBytes) = (.ok result, ⟨resultBytes, resultBytes.length⟩))
    (rest : List UInt8) : (readDaemonResult op v).run (resultBytes ++ rest) = (.ok result, rest) := by
  obtain ⟨s, hs, hleft⟩ := (mem_run_iff (readDaemonResult_rel MemReader.mirrors op v)).mp h
  obtain rfl : s = [] := List.length_eq_zero_iff.mp (Nat.add_left_cancel hleft.2.1)
  rw [readDaemonResult_eq] at hs ⊢
  obtain ⟨a, bs, hbs, ha, rfl⟩ := (Layout.parse_ok_iff wirePrims_lawful).mp hs
  exact (Layout.parse_ok_iff wirePrims_lawful).mpr ⟨a, bs, hbs, ha, by simp⟩

theorem readStderrLoop_terminal {messages : List Message} {parts : List (List UInt8)}
    (h : List.Forall₂ Message.Enc messages parts) {code : StderrCode} (hterm : code.isTerminal) (rest : List UInt8) :
    readStderrLoop.run (parts.flatten ++ (wordBytes code.code ++ rest)) =
      (.ok ⟨UInt64.ofNat (messages.length + 1), some code⟩, rest) :=
  readStderrLoop_ok_iff.mpr ⟨messages, parts, h, Or.inl ⟨code, hterm, rfl, by rw [UInt64.ofNat_add]; rfl⟩⟩

theorem readResponse_enc {op : Op} {v : ProtocolVersion} {response : Response} {bs : List UInt8}
    (h : response.Enc op v bs) (rest : List UInt8) :
    (readResponse op v).run (bs ++ rest) = (.ok response.report, rest) := by
  obtain ⟨messages, ending⟩ := response
  obtain ⟨parts, _, hparts, hend, rfl⟩ := h
  cases ending with
  | last result =>
    obtain ⟨resultBytes, hresult, rfl⟩ := hend
    have hstderr : readStderrWithError.run (parts.flatten ++ (wordBytes StderrCode.last.code ++ resultBytes) ++ rest) =
        (.ok (⟨UInt64.ofNat (messages.length + 1), some .last⟩, none), resultBytes ++ rest) := by
      refine readStderrWithError_ok_iff.mpr ⟨_, ?_, by rw [if_neg (by simp)]; exact ⟨rfl, rfl⟩⟩
      rw [List.append_assoc, List.append_assoc]
      exact readStderrLoop_terminal hparts rfl (resultBytes ++ rest)
    rw [readResponse, Rd.bind_ok hstderr]
    simp only [if_true]
    rw [Rd.bind_ok (readDaemonResult_front hresult rest)]
    rfl
  | error payload =>
    obtain ⟨payloadBytes, hpayload, rfl⟩ := hend
    have hinfo : readErrorInfo.run (payloadBytes ++ rest) = (.ok (errorLayout.of payload), rest) :=
      readErrorInfo_ok_iff.mpr ⟨payload, payloadBytes, hpayload, rfl, rfl⟩
    have hstderr : readStderrWithError.run (parts.flatten ++ (wordBytes StderrCode.error.code ++ payloadBytes) ++ rest) =
        (.ok (⟨UInt64.ofNat (messages.length + 1), some .error⟩, some (errorLayout.of payload)), rest) := by
      refine readStderrWithError_ok_iff.mpr ⟨payloadBytes ++ rest, ?_, by rw [if_pos rfl]; exact ⟨_, rfl, hinfo⟩⟩
      rw [List.append_assoc, List.append_assoc]
      exact readStderrLoop_terminal hparts rfl (payloadBytes ++ rest)
    rw [readResponse, Rd.bind_ok hstderr]
    rfl

theorem readResponses_enc {v : ProtocolVersion} {session : List (Op × Response)} {parts : List (List UInt8)}
    (h : List.Forall₂ (fun x bs => Response.Enc x.1 v x.2 bs) session parts) (rest : List UInt8) :
    (readResponses v (session.map (·.1))).run (parts.flatten ++ rest) = (.ok (session.map (·.2.report)), rest) := by
  induction h with
  | nil => rfl
  | @cons x bs session parts hbs _ ih =>
    rw [List.flatten_cons, List.append_assoc, List.map_cons, readResponses,
      Rd.bind_ok (readResponse_enc hbs (parts.flatten ++ rest)), Rd.bind_ok ih]
    rfl

section

variable {R : Type} [BufRead R] {ρ : R → List UInt8 → Prop} (m : Mirrors ρ)

include m

theorem readResponse_rel (op : Op) (v : ProtocolVersion) : Rel ρ (readResponse op v) (readResponse op v) :=
  (readStderrWithError_rel m).bind fun _ =>
    Rel.ite ((readDaemonResult_rel m op v).bind fun _ => Rel.pure _) (Rel.pure _)

theorem readResponses_rel (v : ProtocolVersion) (ops : List Op) : Rel ρ (readResponses v ops) (readResponses v ops) := by
  induction ops with
  | nil => exact Rel.pure []
  | cons op ops ih => exact (readResponse_rel m op v).bind fun _ => ih.bind fun _ => Rel.pure _

end

/-- Reading the responses to a list of operations off their concatenation reports every
    one of them and ends at the end. -/
theorem responses_aligned {v : ProtocolVersion} {session : List (Op × Response)} {parts : List (List UInt8)}
    (h : List.Forall₂ (fun x bs => Response.Enc x.1 v x.2 bs) session parts) :
    (readResponses v (session.map (·.1))).run (MemReader.new parts.flatten) =
      (.ok (session.map (·.2.report)), ⟨parts.flatten, parts.flatten.length⟩) := by
  refine (mem_run_iff (readResponses_rel MemReader.mirrors v _)).mpr ⟨[], ?_, rfl, by simp, by simp⟩
  simpa using readResponses_enc h []

/-- A log line and a failure, then a success. -/
theorem responses_aligned_two : (readResponses (.new 1 37) [.isValidPath, .syncWithGC]).run (MemReader.new
      ([StderrCode.next.code, 0, StderrCode.error.code, 0, 1, 0, 0, 0, StderrCode.last.code, 1].flatMap wordBytes)) =
    (.ok [(⟨2, some .error⟩, some ⟨[], 1, [], []⟩, none), (⟨1, some .last⟩, none, some (.u64 1))],
      ⟨[StderrCode.next.code, 0, StderrCode.error.code, 0, 1, 0, 0, 0, StderrCode.last.code, 1].flatMap wordBytes, 80⟩) := by
  let failure : Response := ⟨[⟨.next, ([] : List UInt8)⟩], .error (([] : Str), 1, ([] : Str), ([] : Str), .inl ())⟩
  let success : Response := ⟨[], .last (.u64 1)⟩
  have hfailure : failure.Enc .isValidPath (.new 1 37)
      ([StderrCode.next.code, 0, StderrCode.error.code, 0, 1, 0, 0, 0].flatMap wordBytes) := by
    refine ⟨[wordBytes StderrCode.next.code ++ wordBytes 0], _, .cons ⟨rfl, _, ?_, rfl⟩ .nil, ⟨_, ?_, rfl⟩, rfl⟩
    · exact enc_write wireLimits .bytes [] (Nat.zero_le _)
    · exact enc_write wireLimits errorLayout.fmt _ ⟨Nat.zero_le _, trivial, Nat.zero_le _, Nat.zero_le _, trivial⟩
  have hsuccess : success.Enc .syncWithGC (.new 1 37) ([StderrCode.last.code, 1].flatMap wordBytes) :=
    ⟨[], _, .nil, ⟨wordBytes 1, by decide, rfl⟩, rfl⟩
  have hsession : List.Forall₂ (fun (x : Op × Response) bs => Response.Enc x.1 (.new 1 37) x.2 bs)
      [(.isValidPath, failure), (.syncWithGC, success)] [_, _] := .cons hfailure (.cons hsuccess .nil)
  exact responses_aligned hsession

end NixWire
