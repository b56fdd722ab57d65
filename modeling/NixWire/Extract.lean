/-
  NixWire.Extract — framed data moved to files while a script is formatted.

  Large data goes to the file of the counter's number; the counter advances only when the
  write succeeds, and a failed write falls back to the data in hex. The formatter is run over
  a disk whose writes succeed or fail in any pattern, a failed one leaving anything in its
  file, with a log of the writes it asks for.

  - Each entry's data is sent from its line, over the disk as it stands at the end, as the
    data itself is, and no file that was written is written again (`extracted_same_bytes`).
-/

import NixWire.Roundtrip

namespace NixWire

open Base

/-! ## A disk that may fail -/

inductive WriteOutcome where
  | written
  /-- What the file holds then. -/
  | failed (left : Option (List UInt8))
  deriving DecidableEq, Repr

def WriteOutcome.ok : WriteOutcome → Bool
  | written => true
  | failed _ => false

/-- What each file holds. -/
abbrev Disk := Str → Option (List UInt8)

def Disk.write (disk : Disk) (path : Str) (bytes : List UInt8) : WriteOutcome → Disk
  | .written => Function.update disk path (some bytes)
  | .failed left => Function.update disk path left

/-- `std::fs::read`. -/
def Disk.read (disk : Disk) (path : Str) : Except Str (List UInt8) :=
  match disk path with
  | some bytes => .ok bytes
  | none => .error "No such file or directory (os error 2)".toList

/-- A write that was asked for, and what came of it. -/
structure FileWrite where
  path : Str
  bytes : List UInt8
  outcome : WriteOutcome
  deriving DecidableEq, Repr

structure Files where
  disk : Disk
  /-- The writes so far. -/
  log : List FileWrite

/-- `std::fs::write`; what comes of the `n`th is `outcomes n`. -/
def Files.write (outcomes : Nat → WriteOutcome) (path : Str) (bytes : List UInt8) : StateM Files Bool := fun files =>
  let outcome := outcomes files.log.length
  (outcome.ok, ⟨files.disk.write path bytes outcome, files.log ++ [⟨path, bytes, outcome⟩]⟩)

/-- A file that was written is not written again. -/
def NotOverwritten (a b : FileWrite) : Prop := a.outcome.ok = true → a.path ≠ b.path

/-! ## The files' names -/

def fileName (fileCounter : Nat) : Str := zeroPad 4 (decimal fileCounter) ++ ".bin".toList

theorem fileName_inj {m n : Nat} (h : fileName m = fileName n) : m = n := by
  have hnum := congrArg parseUnsigned (List.append_cancel_right h)
  rw [parseUnsigned_zeroPad, parseUnsigned_zeroPad] at hnum
  exact Option.some.inj hnum

theorem joinPath_inj {dir a b : Str} (h : joinPath dir a = joinPath dir b) : a = b := by
  unfold joinPath at h
  split at h
  · exact List.append_cancel_left h
  · exact List.append_cancel_left h
  · exact (List.cons.inj (List.append_cancel_left h)).2

theorem fileName_relative (n : Nat) : isRelative (fileName n) = true := by
  have hne : zeroPad 4 (decimal n) ≠ [] := by simp [zeroPad, decimal_ne_nil]
  have hdigit : ∀ c ∈ zeroPad 4 (decimal n), c.isDigit = true := by
    intro c hc
    rcases List.mem_append.mp hc with hc | hc
    · rw [List.eq_of_mem_replicate hc]
      rfl
    · exact isDigit_decimal hc
  rw [isRelative, fileName, List.head?_append_of_ne_nil _ hne, bne_iff_ne]
  intro hhead
  exact absurd (hdigit '/' (List.mem_of_mem_head? hhead)) (by decide)

/-- Writes to the files from number `m` on, of which the written ones bring it to `n`. -/
inductive Numbered (opts : FormatOptions) : Nat → List FileWrite → Nat → Prop
  | nil (n : Nat) : Numbered opts n [] n
  | cons {m n : Nat} {w : FileWrite} {more : List FileWrite} (hpath : ∃ dir, opts.dataDir = some dir ∧ w.path = joinPath dir (fileName m))
      (hmore : Numbered opts (m + if w.outcome.ok then 1 else 0) more n) : Numbered opts m (w :: more) n

section

variable {opts : FormatOptions} {l m n : Nat} {log more : List FileWrite}

theorem Numbered.append (h : Numbered opts l log m) (hmore : Numbered opts m more n) : Numbered opts l (log ++ more) n := by
  induction h with
  | nil => exact hmore
  | cons hpath _ ih => exact .cons hpath (ih hmore)

/-- The counter counts the files that were written. -/
theorem Numbered.count (h : Numbered opts m log n) : n = m + log.countP (·.outcome.ok) := by
  induction h with
  | nil => rfl
  | cons _ _ ih =>
    rw [ih, List.countP_cons]
    omega

theorem Numbered.path (h : Numbered opts m log n) :
    ∀ w ∈ log, ∃ k ≥ m, ∃ dir, opts.dataDir = some dir ∧ w.path = joinPath dir (fileName k) := by
  induction h with
  | nil => exact List.forall_mem_nil _
  | cons hpath _ ih =>
    refine List.forall_mem_cons.mpr ⟨⟨_, le_rfl, hpath⟩, fun w hw => ?_⟩
    obtain ⟨k, hk, hfile⟩ := ih w hw
    exact ⟨k, (Nat.le_add_right _ _).trans hk, hfile⟩

theorem Numbered.notOverwritten (h : Numbered opts m log n) : log.Pairwise NotOverwritten := by
  induction h with
  | nil => exact List.Pairwise.nil
  | cons hpath hmore ih =>
    refine List.Pairwise.cons (fun later hlater hwritten hagain => ?_) ih
    obtain ⟨dir, hdir, heq⟩ := hpath
    obtain ⟨k, hk, dir', hdir', heq'⟩ := hmore.path later hlater
    cases hdir.symm.trans hdir'
    -- its number is past the one before
    have hsame := fileName_inj (joinPath_inj (heq.symm.trans (hagain.trans heq')))
    rw [if_pos hwritten] at hk
    omega

end

/-! ## What a writer leaves -/

section

variable {opts : FormatOptions}

/-- The files numbered below `n` hold the same on both disks. -/
def AgreeBelow (opts : FormatOptions) (n : Nat) (disk disk' : Disk) : Prop :=
  ∀ dir ∈ opts.dataDir, ∀ m < n, disk' (joinPath dir (fileName m)) = disk (joinPath dir (fileName m))

theorem AgreeBelow.trans {m n : Nat} {disk disk' disk'' : Disk} (h : AgreeBelow opts m disk disk')
    (h' : AgreeBelow opts n disk' disk'') (hle : m ≤ n) : AgreeBelow opts m disk disk'' :=
  fun dir hdir k hk => (h' dir hdir k (hk.trans_le hle)).trans (h dir hdir k hk)

/-- A write to the file of the counter's number changes no earlier file. -/
theorem agreeBelow_write {dir : Str} (hdir : opts.dataDir = some dir) (n : Nat) (disk : Disk) (bytes : List UInt8)
    (outcome : WriteOutcome) : AgreeBelow opts n disk (disk.write (joinPath dir (fileName n)) bytes outcome) := by
  intro dir' hdir' m hm
  cases hdir.symm.trans hdir'
  have hne : joinPath dir (fileName m) ≠ joinPath dir (fileName n) :=
    fun heq => hm.ne (fileName_inj (joinPath_inj heq))
  cases outcome <;> exact Function.update_of_ne hne _ _

/-- The earlier files stay, and files are written from the counter on. -/
structure Grown (opts : FormatOptions) (m : Nat) (files : Files) (n : Nat) (files' : Files) : Prop where
  agree : AgreeBelow opts m files.disk files'.disk
  log : ∃ more, files'.log = files.log ++ more ∧ Numbered opts m more n

variable {l m n : Nat} {files files' files'' : Files}

theorem Grown.refl (n : Nat) (files : Files) : Grown opts n files n files :=
  ⟨fun _ _ _ _ => rfl, [], (List.append_nil _).symm, .nil n⟩

theorem Grown.le (h : Grown opts m files n files') : m ≤ n := by
  obtain ⟨more, -, hmore⟩ := h.log
  rw [hmore.count]
  exact Nat.le_add_right _ _

theorem Grown.trans (h : Grown opts l files m files') (h' : Grown opts m files' n files'') : Grown opts l files n files'' := by
  obtain ⟨more, hlog, hmore⟩ := h.log
  obtain ⟨more', hlog', hmore'⟩ := h'.log
  exact ⟨h.agree.trans h'.agree h.le, more ++ more', by rw [hlog', hlog, List.append_assoc], hmore.append hmore'⟩

/-- The data's line is read as data that is sent, over the disk, as the data is. -/
def LineReads (opts : FormatOptions) (disk : Disk) (data : FramedData) (line : Str) : Prop :=
  ∃ value parsed, line = fieldLine "data" value ∧ parseDataValue value = .ok parsed ∧
    writeFramedData disk.read parsed opts.dataDir = writeFramedData disk.read data opts.dataDir

theorem lineReads_text (disk : Disk) (data : FramedData) : LineReads opts disk data (fieldLine "data" (dataText data)) :=
  ⟨_, data, rfl, parseDataValue_text data, rfl⟩

theorem lineReads_file {dir : Str} {bytes : List UInt8} {disk : Disk} (hdir : opts.dataDir = some dir)
    (hdisk : disk (joinPath dir (fileName n)) = some bytes) :
    LineReads opts disk (.inline bytes) (fieldLine "data" ("@file:".toList ++ fileName n)) := by
  refine ⟨_, .fileRef (fileName n), rfl, parseDataValue_text (.fileRef (fileName n)), ?_⟩
  simp only [writeFramedData, hdir, resolvePath, fileName_relative, if_true, Disk.read, hdisk]

/-- While the files below the counter stay, it is. -/
def LineHolds (opts : FormatOptions) (n : Nat) (files : Files) (data : FramedData) (line : Str) : Prop :=
  ∀ disk, AgreeBelow opts n files.disk disk → LineReads opts disk data line

end

/-- Whether the data is bytes. -/
def FramedData.isInline : FramedData → Bool
  | inline _ => true
  | fileRef _ => false

/-! ## The writers -/

theorem run_bind {σ α β : Type} {x : StateM σ α} {f : α → StateM σ β} {s s' : σ} {a : α} (h : x.run s = (a, s')) :
    (x >>= f).run s = (f a).run s' := by
  rw [StateT.run_bind, h]
  rfl

section

variable (outcomes : Nat → WriteOutcome) {opts : FormatOptions}

theorem formatFramedDataM_run (data : FramedData) (m : Nat) (files : Files) :
    ∃ line n files', (formatFramedDataM (Files.write outcomes) data opts m).run files = ((line, n), files') ∧
      Grown opts m files n files' ∧ n ≤ m + (if data.isInline then 1 else 0) ∧ LineHolds opts n files' data line := by
  by_cases hkept : data.Kept opts
  · refine ⟨_, m, files, ?_, .refl m files, Nat.le_add_right _ _, fun disk _ => lineReads_text disk data⟩
    rw [formatFramedDataM_kept _ hkept]
    rfl
  · cases data with
    | fileRef path => exact absurd trivial hkept
    | inline bytes =>
      obtain ⟨hdir, hlong⟩ := not_or.mp hkept
      obtain ⟨dir, hdir⟩ := Option.ne_none_iff_exists'.mp hdir
      let w : FileWrite := ⟨joinPath dir (fileName m), bytes, outcomes files.log.length⟩
      let after : Files := ⟨files.disk.write w.path bytes w.outcome, files.log ++ [w]⟩
      have hrun : (formatFramedDataM (Files.write outcomes) (.inline bytes) opts m).run files =
          (if w.outcome.ok then (fieldLine "data" ("@file:".toList ++ fileName m), m + 1)
            else (fieldLine "data" (dataText (.inline bytes)), m), after) := by
        simp only [formatFramedDataM, if_pos (Nat.not_le.mp hlong), hdir]
        refine (run_bind (show (Files.write outcomes w.path bytes).run files = (w.outcome.ok, after) from rfl)).trans ?_
        cases w.outcome.ok <;> rfl
      have hgrown : Grown opts m files (m + if w.outcome.ok then 1 else 0) after :=
        ⟨agreeBelow_write hdir m files.disk bytes w.outcome, [w], rfl, .cons ⟨dir, hdir, rfl⟩ (.nil _)⟩
      cases houtcome : w.outcome with
      | written =>
        rw [houtcome] at hrun hgrown
        refine ⟨_, m + 1, after, hrun, hgrown, le_rfl, fun disk hdisk => lineReads_file hdir ?_⟩
        rw [hdisk dir hdir m (Nat.lt_succ_self m)]
        simp only [after, houtcome]
        exact Function.update_self _ _ _
      | failed left =>
        rw [houtcome] at hrun hgrown
        exact ⟨_, m, after, hrun, hgrown, Nat.le_add_right _ _, fun disk _ => lineReads_text disk _⟩

end

/-- The `data` line of an entry. -/
def isDataLine (line : Str) : Bool := startsWith "  data: ".toList line

theorem isDataLine_expect (e : Expect) : isDataLine (formatExpect e) = false := by
  cases e <;> rfl

theorem HashLine.not_dataLine {line : Str} (h : HashLine line) : isDataLine line = false := by
  obtain ⟨t, rfl⟩ := h
  rfl

theorem LineReads.isDataLine {opts : FormatOptions} {disk : Disk} {data : FramedData} {line : Str}
    (h : LineReads opts disk data line) : isDataLine line = true := by
  obtain ⟨value, _, rfl, _⟩ := h
  rfl

section

variable {m : Type → Type} [Monad m] (writeFile : Str → List UInt8 → m Bool) (opts : FormatOptions) (fileCounter : Nat)

/-- The block of a call with framed data ends in its data's line, and has no other. -/
theorem formatOpCallM_framed {τ : Type} (formatMs : τ → Str) (ms : Option τ) {call : OpCall} {data : FramedData}
    (h : call.framed = some data) : ∃ before : List Str, (∀ l ∈ before, isDataLine l = false) ∧
      formatOpCallM writeFile (formatTimestamp formatMs ms) call opts fileCounter = (do
        let (line, fileCounter) ← formatFramedDataM writeFile data opts fileCounter
        return (before ++ [line], fileCounter)) := by
  cases call with
  | addToStore name camStr refs repair =>
    cases h
    have hfirst : isDataLine (formatTimestamp formatMs ms ++ "AddToStore".toList) = false := by cases ms <;> rfl
    refine ⟨[_, _, _, _, _], ?_, rfl⟩
    simp only [List.forall_mem_cons]
    exact ⟨hfirst, rfl, rfl, rfl, rfl, List.forall_mem_nil _⟩
  | addMultipleToStore repair dontCheckSigs =>
    cases h
    have hfirst : isDataLine (formatTimestamp formatMs ms ++ "AddMultipleToStore".toList) = false := by cases ms <;> rfl
    refine ⟨[_, _, _], ?_, rfl⟩
    simp only [List.forall_mem_cons]
    exact ⟨hfirst, rfl, rfl, List.forall_mem_nil _⟩
  | addBuildLog path =>
    cases h
    have hfirst : isDataLine (formatTimestamp formatMs ms ++ "AddBuildLog ".toList ++ path) = false := by cases ms <;> rfl
    exact ⟨[_], List.forall_mem_singleton.mpr hfirst, rfl⟩
  | _ => cases h

/-- A call without framed data asks for no write. -/
theorem formatOpCallM_unframed (ts : Str) {call : OpCall} (h : call.framed = none) :
    ∃ lines, formatOpCallM writeFile ts call opts fileCounter = pure (lines, fileCounter) := by
  cases call with
  | addToStore | addMultipleToStore | addBuildLog => cases h
  | pathSetFlag op paths substitute => cases substitute <;> exact ⟨_, rfl⟩
  | _ => exact ⟨_, rfl⟩

end

/-- What comes after a call has no `data` line. -/
theorem afterCall_data {τ : Type} (entry : Entry τ) :
    (entry.expects.map formatExpect ++ (entry.response.map formatResponseComment).getD []).filter isDataLine = [] := by
  refine List.filter_eq_nil_iff.mpr fun l hl => ?_
  rcases List.mem_append.mp hl with hl | hl
  · obtain ⟨e, -, rfl⟩ := List.mem_map.mp hl
    simp [isDataLine_expect]
  · simp [(responseLines_hash entry.response l hl).not_dataLine]

/-- The bytes of an entry's data. -/
def Entry.payload {τ : Type} (entry : Entry τ) : Option (List UInt8) :=
  match entry.opCall.framed with
  | some (.inline bytes) => some bytes
  | _ => none

/-- An entry's data has one line in its block, and it is read as the data. -/
def ReadsBack {τ : Type} (opts : FormatOptions) (disk : Disk) (entry : Entry τ) (block : List Str) : Prop :=
  ∀ data ∈ entry.opCall.framed, ∃ line, block.filter isDataLine = [line] ∧ LineReads opts disk data line

section

variable {τ : Type} (formatMs : τ → Str) (outcomes : Nat → WriteOutcome) {opts : FormatOptions}

theorem formatEntryM_run (entry : Entry τ) (m : Nat) (files : Files) :
    ∃ lines n files', (formatEntryM (Files.write outcomes) formatMs entry opts m).run files = ((lines, n), files') ∧
      Grown opts m files n files' ∧ n ≤ m + (if entry.payload.isSome then 1 else 0) ∧
      ∀ disk, AgreeBelow opts n files'.disk disk → ReadsBack opts disk entry lines := by
  have hafter := afterCall_data entry
  cases hframed : entry.opCall.framed with
  | none =>
    obtain ⟨lines, hcall⟩ :=
      formatOpCallM_unframed (Files.write outcomes) opts m (formatTimestamp formatMs entry.timestampMs) hframed
    have hrun : (formatEntryM (Files.write outcomes) formatMs entry opts m).run files =
        ((lines ++ entry.expects.map formatExpect ++ (entry.response.map formatResponseComment).getD [], m), files) := by
      rw [formatEntryM, hcall]
      rfl
    refine ⟨_, m, files, hrun, .refl m files, Nat.le_add_right _ _, fun disk _ data hdata => ?_⟩
    · rw [hframed] at hdata
      cases hdata
  | some data =>
    obtain ⟨before, hbefore, hcall⟩ := formatOpCallM_framed (Files.write outcomes) opts m formatMs entry.timestampMs hframed
    obtain ⟨line, n, files', hrun, hgrown, hcount, hholds⟩ := @formatFramedDataM_run outcomes opts data m files
    have hpayload : entry.payload.isSome = data.isInline := by
      rw [Entry.payload, hframed]
      cases data <;> rfl
    refine ⟨before ++ [line] ++ entry.expects.map formatExpect ++ (entry.response.map formatResponseComment).getD [], n, files',
      ?_, hgrown, hpayload ▸ hcount, fun disk hdisk data' hdata => ⟨line, ?_, ?_⟩⟩
    · have hblock : (formatOpCallM (Files.write outcomes) (formatTimestamp formatMs entry.timestampMs) entry.opCall opts m).run
          files = ((before ++ [line], n), files') := by
        rw [hcall]
        exact (run_bind hrun).trans rfl
      exact (run_bind hblock).trans rfl
    · have hline := (hholds disk hdisk).isDataLine
      rw [List.append_assoc, List.filter_append, hafter, List.append_nil, List.filter_append,
        List.filter_eq_nil_iff.mpr fun l hl => by simp [hbefore l hl], List.filter_singleton, hline]
      rfl
    · cases hframed.symm.trans hdata
      exact hholds disk hdisk

/-- The entries' data is read back over the disk as it is at the end. -/
theorem formatEntriesM_run (entries : List (Entry τ)) (m : Nat) (files : Files) :
    ∃ blocks n files', (formatEntriesM (Files.write outcomes) formatMs opts entries m).run files = (blocks, files') ∧
      Grown opts m files n files' ∧ n ≤ m + entries.countP (·.payload.isSome) ∧
      ∀ disk, AgreeBelow opts n files'.disk disk → List.Forall₂ (ReadsBack opts disk) entries blocks := by
  induction entries generalizing m files with
  | nil => exact ⟨[], m, files, rfl, .refl m files, Nat.le_refl _, fun _ _ => .nil⟩
  | cons entry entries ih =>
    obtain ⟨lines, k, files₁, hrun, hgrown, hcount, hreads⟩ := @formatEntryM_run _ formatMs outcomes opts entry m files
    obtain ⟨blocks, n, files₂, hrest, hmore, hcounts, hall⟩ := ih k files₁
    refine ⟨([[]] ++ lines) :: blocks, n, files₂, ?_, hgrown.trans hmore, ?_, fun disk hdisk => .cons ?_ (hall disk hdisk)⟩
    · rw [formatEntriesM]
      exact (run_bind hrun).trans ((run_bind hrest).trans rfl)
    · rw [List.countP_cons]
      omega
    · -- later entries leave this entry's file
      have hlines := hreads disk (hmore.agree.trans hdisk hmore.le)
      exact fun data hdata => hlines data hdata

end

/-- In whatever pattern the writes fail, each entry's data is sent from its line as it was, and
    keeps its file; the counter does not overflow. -/
theorem extracted_same_bytes {τ : Type} (formatMs : τ → Str) (opts : FormatOptions) (script : Script τ)
    (outcomes : Nat → WriteOutcome) (disk : Disk) (hcount : script.entries.countP (·.payload.isSome) < 2 ^ 32) :
    let run := (formatEntriesM (Files.write outcomes) formatMs opts script.entries 0).run ⟨disk, []⟩
    (formatScriptM (Files.write outcomes) formatMs script opts).run ⟨disk, []⟩ =
        ((formatPreamble script.preamble ++ run.1.flatten).flatMap writeln, run.2) ∧
      List.Forall₂ (ReadsBack opts run.2.disk) script.entries run.1 ∧
      run.2.log.countP (·.outcome.ok) < 2 ^ 32 ∧ run.2.log.Pairwise NotOverwritten := by
  obtain ⟨blocks, n, files, hrun, hgrown, hfew, hreads⟩ :=
    @formatEntriesM_run τ formatMs outcomes opts script.entries 0 ⟨disk, []⟩
  obtain ⟨log, hlog, hnumbered⟩ := hgrown.log
  rw [List.nil_append] at hlog
  simp only [hrun]
  refine ⟨(run_bind hrun).trans rfl, hreads _ fun _ _ _ _ => rfl, ?_, ?_⟩
  · have hn := hnumbered.count
    rw [hlog]
    omega
  · rw [hlog]
    exact hnumbered.notOverwritten

def logScript : Script Unit where
  preamble := ⟨.new 1 37, [], [], none, none, none⟩
  entries := [[1], [2, 3], [4]].map fun bytes => ⟨none, .addBuildLog "/nix/store/a.drv".toList (.inline bytes), none, []⟩

/-- The second write fails and leaves half of its bytes; the third log gets the file. -/
def secondFails (n : Nat) : WriteOutcome := if n = 1 then .failed (some [2]) else .written

theorem extracted_same_bytes_retry :
    let run := (formatEntriesM (Files.write secondFails) (fun _ => []) ⟨some "data".toList, 0⟩ logScript.entries 0).run
      ⟨fun _ => none, []⟩
    run.2.log.map (·.path) = ["data/0000.bin".toList, "data/0001.bin".toList, "data/0001.bin".toList] ∧
      List.Forall₂ (ReadsBack ⟨some "data".toList, 0⟩ run.2.disk) logScript.entries run.1 ∧
      run.2.log.Pairwise NotOverwritten := by
  obtain ⟨-, hreads, -, hkept⟩ := extracted_same_bytes (fun _ => []) ⟨some "data".toList, 0⟩ logScript secondFails (fun _ => none)
    (by decide)
  exact ⟨by decide, hreads, hkept⟩

end NixWire
