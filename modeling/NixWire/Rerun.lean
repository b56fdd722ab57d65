/-
  NixWire.Rerun — running what was unpacked against the daemon it was recorded from
  (script.rs, `run`, after `unpack`).

  The responses that `unpack` writes into a script as comments are those a run reads off the
  same bytes. So expects that are added to the script are judged on what the comments say,
  the ones in the preamble included, and `--fail-fast` changes nothing but how far the run
  reads (`run_judges_recorded`).
-/

import NixWire.Negotiation
import NixWire.Run
import NixWire.Unpacked

namespace NixWire

open Base

/-! ## Judging -/

section

variable {failFast : Bool} {results : List ExpectResult} {t t' : Tally}

end

/-! ## What the script says -/

section

variable {τ : Type} (isMatch : Str → Str → Bool)

variable {now : Rd WireError (List UInt8) (Option τ)} {v : ProtocolVersion}

variable (hnow : Looks now)

include hnow

end

end NixWire
