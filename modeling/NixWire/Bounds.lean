/-
  NixWire.Bounds — numeric expects (script/expect.rs, `matches_value`).

  A number in a response is printed in decimal and parsed back as a signed 64-bit number,
  so from 2^63 on it passes no comparison at all. That is wrong for `>` and `>=`, which it
  should always pass, and right for `<` and `<=` (`numeric_expects`).
-/

import NixWire.Expect
import NixWire.Values

namespace NixWire

open Base

/-! ## Comparisons -/

inductive Comparison where
  | greaterThan
  | lessThan
  | greaterOrEqual
  | lessOrEqual
  deriving DecidableEq, Repr

namespace Comparison

def symbol : Comparison → String
  | greaterThan => ">"
  | lessThan => "<"
  | greaterOrEqual => ">="
  | lessOrEqual => "<="

def matcher : Comparison → Int → Matcher
  | greaterThan => .greaterThan
  | lessThan => .lessThan
  | greaterOrEqual => .greaterOrEqual
  | lessOrEqual => .lessOrEqual

/-- The comparison of integers. -/
def Holds : Comparison → Int → Int → Prop
  | greaterThan, v, n => v > n
  | lessThan, v, n => v < n
  | greaterOrEqual, v, n => v ≥ n
  | lessOrEqual, v, n => v ≤ n

instance (cmp : Comparison) (v n : Int) : Decidable (cmp.Holds v n) := by
  cases cmp <;> unfold Holds <;> infer_instance

/-- `<` and `<=`, which a number above every bound fails. -/
def upper : Comparison → Bool
  | lessThan | lessOrEqual => true
  | greaterThan | greaterOrEqual => false

theorem display_matcher (cmp : Comparison) (n : Int) :
    (cmp.matcher n).display = cmp.symbol.toList ++ ' ' :: intDecimal n := by
  cases cmp <;> rfl

theorem matcher_written (cmp : Comparison) {n : Int} (h : -2 ^ 63 ≤ n ∧ n < 2 ^ 63) : (cmp.matcher n).Written := by
  have hbound : cmp.matcher <$> parseBound cmp.symbol (' ' :: intDecimal n) = .ok (cmp.matcher n) := by
    rw [parseBound_decimal h]
    rfl
  have hparse : ∀ s, parseMatcher (cmp.symbol.toList ++ ' ' :: s) = cmp.matcher <$> parseBound cmp.symbol (' ' :: s) := by
    intro s
    cases cmp <;> rfl
  have hsymbol : Printable cmp.symbol.toList ∧ cmp.symbol.toList ≠ [] := by
    cases cmp <;> exact ⟨⟨by decide, by decide⟩, by decide⟩
  exact written_comparison hbound hsymbol.1 hsymbol.2 cmp.display_matcher hparse

end Comparison

/-! ## Numbers in a response -/

/-- What a numeric expect looks at. -/
inductive Quantity where
  | stderrCount
  | result
  | narSize
  | downloadSize
  | bytesFreed
  deriving DecidableEq, Repr

def Quantity.expect : Quantity → Matcher → Expect
  | stderrCount => .stderrCount
  | result => .result none
  | narSize => .result (some "narSize".toList)
  | downloadSize => .result (some "downloadSize".toList)
  | bytesFreed => .result (some "bytes_freed".toList)

def ResultData.number : ResultData → Quantity → Option UInt64
  | .u64 v, .result => some v
  | .pathInfo info, .narSize => info.narSize
  | .collectGarbage bytesFreed, .bytesFreed => some bytesFreed
  | .substitutablePathInfo _ _ _ downloadSize _, .downloadSize => downloadSize
  | .substitutablePathInfo _ _ _ _ narSize, .narSize => narSize
  | .missing _ _ _ downloadSize _, .downloadSize => some downloadSize
  | .missing _ _ _ _ narSize, .narSize => some narSize
  | _, _ => Option.none

/-- The quantity's value, where the response carries it. -/
def DaemonResponse.number (resp : DaemonResponse) : Quantity → Option UInt64
  | .stderrCount => some resp.stderrCount
  | q => resp.result.bind fun result => result.number q

/-- The expect line for a comparison, trimmed. -/
def Quantity.line (q : Quantity) (cmp : Comparison) (n : Int64) : Str :=
  (q.expect (cmp.matcher n.toInt)).label ++ ' ' :: (cmp.symbol.toList ++ ' ' :: intDecimal n.toInt)

theorem int64_range (n : Int64) : -2 ^ 63 ≤ n.toInt ∧ n.toInt < 2 ^ 63 := ⟨n.le_toInt, n.toInt_lt⟩

theorem parseExpect_line (q : Quantity) (cmp : Comparison) (n : Int64) :
    parseExpect (q.line cmp n) = .ok (q.expect (cmp.matcher n.toInt)) := by
  have hm := cmp.matcher_written (int64_range n)
  have hwritten : (q.expect (cmp.matcher n.toInt)).Written := by
    cases q with
    | stderrCount => exact hm
    | result => exact ⟨hm, fun _ hf => nomatch hf⟩
    | narSize | downloadSize | bytesFreed =>
      refine ⟨hm, ?_⟩
      rintro f ⟨⟩
      exact ⟨⟨by decide, by decide⟩, by decide⟩
  have hvalue : (q.expect (cmp.matcher n.toInt)).value = cmp.symbol.toList ++ ' ' :: intDecimal n.toInt := by
    rw [← cmp.display_matcher]
    cases q <;> rfl
  have hspaced : spaced (cmp.symbol.toList ++ ' ' :: intDecimal n.toInt) =
      ' ' :: (cmp.symbol.toList ++ ' ' :: intDecimal n.toInt) := if_neg (by simp)
  have hparse := parseExpect_label hwritten
  rwa [hvalue, hspaced] at hparse

/-! ## Evaluation -/

section

variable (isMatch : Str → Str → Bool) {resp : DaemonResponse} {q : Quantity} {v : UInt64}

def passes (resp : DaemonResponse) (e : Expect) : Bool := (evaluateExpects isMatch [e] resp).all (·.passed)

theorem extract_number {result : ResultData} {field : Option Str} (hq : ∀ m, q.expect m = .result field m)
    (h : result.number q = some v) : extractResultValue result field = some (decimal v.toNat) := by
  have hfield := hq (.exact [])
  unfold ResultData.number at h
  split at h <;> (try cases hfield)
  · cases h
    rfl
  · show Option.map _ _ = _
    rw [h]
    rfl
  · cases h
    rfl
  · show Option.map _ _ = _
    rw [h]
    rfl
  · show Option.map _ _ = _
    rw [h]
    rfl
  · cases h
    rfl
  · cases h
    rfl
  all_goals cases h

/-- The expect is judged by the number in decimal. -/
theorem passes_number (h : resp.number q = some v) (m : Matcher) :
    passes isMatch resp (q.expect m) = matchesValue isMatch m (decimal v.toNat) := by
  have hone : ∀ e, passes isMatch resp e = (evaluateExpect isMatch e resp).passed := fun e => Bool.and_true _
  have hresult {field : Option Str} (hq : ∀ m, q.expect m = .result field m)
      (h : (resp.result.bind fun result => result.number q) = some v) :
      passes isMatch resp (q.expect m) = matchesValue isMatch m (decimal v.toNat) := by
    obtain ⟨result, hresult, hnumber⟩ := Option.bind_eq_some_iff.mp h
    rw [hone, hq]
    simp only [evaluateExpect, hresult, Option.bind_some, extract_number hq hnumber]
    rfl
  cases q with
  | stderrCount =>
    cases h
    exact hone _
  | result | narSize | downloadSize | bytesFreed => exact hresult (fun _ => rfl) h

/-- A number in decimal is an `i64` below 2^63 and nothing from there on. -/
theorem parseI64_decimal (n : Nat) : parseI64 (decimal n) = if n < 2 ^ 63 then some (n : Int) else none := by
  obtain ⟨c, s, h, hc⟩ := decimal_eq_cons n
  have hminus : c ≠ '-' := by
    rintro rfl
    simp at hc
  have hunsigned : parseI64 (decimal n) = ((parseUnsigned (decimal n)).filter (· < 2 ^ 63)).map Int.ofNat := by
    rw [h, parseI64]
    simpa using hminus
  rw [hunsigned, parseUnsigned_decimal, Option.filter_some]
  by_cases hn : n < 2 ^ 63
  · rw [if_pos (by simpa using hn), if_pos hn]
    rfl
  · rw [if_neg (by simpa using hn), if_neg hn]
    rfl

theorem matchesValue_comparison (cmp : Comparison) (n : Int) (v : Nat) :
    matchesValue isMatch (cmp.matcher n) (decimal v) = if v < 2 ^ 63 then decide (cmp.Holds v n) else false := by
  have hparse : matchesValue isMatch (cmp.matcher n) (decimal v) =
      ((parseI64 (decimal v)).map fun v => decide (cmp.Holds v n)).getD false := by
    cases cmp <;> rfl
  rw [hparse, parseI64_decimal]
  split <;> rfl

/-- Above every bound. -/
theorem holds_above {v : Nat} {n : Int} (hv : ¬v < 2 ^ 63) (hn : n < 2 ^ 63) (cmp : Comparison) :
    cmp.Holds v n ↔ cmp.upper = false := by
  have hlt : n < v := by omega
  cases cmp <;> simp [Comparison.Holds, Comparison.upper] <;> omega

theorem comparison_iff (h : resp.number q = some v) (cmp : Comparison) (n : Int64) :
    (passes isMatch resp (q.expect (cmp.matcher n.toInt)) = true ↔ cmp.Holds v.toNat n.toInt) ↔
      v.toNat < 2 ^ 63 ∨ cmp.upper = true := by
  rw [passes_number isMatch h, matchesValue_comparison]
  by_cases hv : v.toNat < 2 ^ 63
  · rw [if_pos hv, decide_eq_true_iff]
    exact iff_of_true Iff.rfl (Or.inl hv)
  · have habove := holds_above hv (int64_range n).2 cmp
    rw [if_neg hv, habove, or_iff_right hv]
    cases cmp.upper <;> simp

theorem one_of_two_iff (h : resp.number q = some v) (n : Int64) :
    passes isMatch resp (q.expect (.greaterThan n.toInt)) ≠ passes isMatch resp (q.expect (.lessOrEqual n.toInt)) ↔
      v.toNat < 2 ^ 63 := by
  have hgt := matchesValue_comparison isMatch .greaterThan n.toInt v.toNat
  have hle := matchesValue_comparison isMatch .lessOrEqual n.toInt v.toNat
  rw [passes_number isMatch h, passes_number isMatch h]
  simp only [Comparison.matcher] at hgt hle
  rw [hgt, hle]
  by_cases hv : v.toNat < 2 ^ 63
  · rw [if_pos hv, if_pos hv, ne_eq, decide_eq_decide]
    have hexclusive : ¬((v.toNat : Int) > n.toInt ↔ (v.toNat : Int) ≤ n.toInt) := by omega
    exact iff_of_true hexclusive hv
  · rw [if_neg hv, if_neg hv]
    exact iff_of_false (fun h => h rfl) hv

end

/-- Every comparison with a number in a response: its line gives the expect, and the expect
    passes as the integers compare exactly when the number is below 2^63 or the comparison
    is `<` or `<=`. -/
theorem numeric_expects (isMatch : Str → Str → Bool) {resp : DaemonResponse} {q : Quantity} {v : UInt64}
    (h : resp.number q = some v) (n : Int64) :
    (∀ cmp : Comparison, parseExpect (q.line cmp n) = .ok (q.expect (cmp.matcher n.toInt)) ∧
      ((passes isMatch resp (q.expect (cmp.matcher n.toInt)) = true ↔ cmp.Holds v.toNat n.toInt) ↔
        v.toNat < 2 ^ 63 ∨ cmp.upper = true)) ∧
    (passes isMatch resp (q.expect (.greaterThan n.toInt)) ≠ passes isMatch resp (q.expect (.lessOrEqual n.toInt)) ↔
      v.toNat < 2 ^ 63) :=
  ⟨fun cmp => ⟨parseExpect_line q cmp n, comparison_iff isMatch h cmp n⟩, one_of_two_iff isMatch h n⟩

/-- The answer 1 is above 0 or at most 0, and not both. -/
theorem numeric_expects_one :
    passes (fun _ _ => true) ⟨"Last".toList, 1, some (.u64 1), none⟩ (.result none (.greaterThan 0)) ≠
      passes (fun _ _ => true) ⟨"Last".toList, 1, some (.u64 1), none⟩ (.result none (.lessOrEqual 0)) :=
  (@numeric_expects (fun _ _ => true) ⟨"Last".toList, 1, some (.u64 1), none⟩ .result 1 rfl 0).2.mpr (by decide)

/-- A path whose size is 2^63 has neither more than 0 bytes nor at most 0. -/
theorem large_number_fails :
    let resp : DaemonResponse :=
      ⟨"Last".toList, 1, some (.pathInfo ⟨true, none, none, none, none, some 0x8000000000000000, none, none, none⟩), none⟩
    resp.number .narSize = some 0x8000000000000000 ∧
      parseExpect "expect result.narSize: > 0".toList = .ok (.result (some "narSize".toList) (.greaterThan 0)) ∧
      evaluateExpects (fun _ _ => true)
          [.result (some "narSize".toList) (.greaterThan 0), .result (some "narSize".toList) (.lessOrEqual 0)] resp =
        [⟨false, "result.narSize: expected > 0, got 9223372036854775808".toList⟩,
          ⟨false, "result.narSize: expected <= 0, got 9223372036854775808".toList⟩] ∧
      Comparison.greaterThan.Holds (0x8000000000000000 : UInt64).toNat 0 := by
  decide

end NixWire
