/-
  NixWire.Base.Number — numbers as text.

  Decimal and hexadecimal digits, and the integer parsers: an optional sign, at least one
  digit, nothing else, and a value in range. A printed number parses back to itself
  (`parseU64_decimal`, `parseU16_decimal`, `parseU8_decimal`, `parseI64_intDecimal`).
-/

import Mathlib.Algebra.Group.Int.Defs
import Mathlib.Algebra.Group.Nat.Defs
import NixWire.Base.Utf8

namespace NixWire.Base

def decimal (n : Nat) : Str := Nat.toDigits 10 n

def lowerHex (n : Nat) : Str := Nat.toDigits 16 n

/-- Zeros on the left up to `width` characters. -/
def zeroPad (width : Nat) (s : Str) : Str := List.replicate (width - s.length) '0' ++ s

def intDecimal : Int → Str
  | .ofNat n => decimal n
  | .negSucc n => '-' :: decimal (n + 1)

def parseDigits (s : Str) : Option Nat :=
  if s.isEmpty || !s.all Char.isDigit then none else some (Nat.ofDigitChars 10 s 0)

/-- An unsigned number: an optional plus, then digits. -/
def parseUnsigned : Str → Option Nat
  | '+' :: s => parseDigits s
  | s => parseDigits s

def parseBelow (bound : Nat) (s : Str) : Option Nat := (parseUnsigned s).filter (· < bound)

def parseU64 (s : Str) : Option UInt64 := (parseBelow (2 ^ 64) s).map UInt64.ofNat

def parseU16 (s : Str) : Option UInt16 := (parseBelow (2 ^ 16) s).map UInt16.ofNat

def parseU8 (s : Str) : Option UInt8 := (parseBelow (2 ^ 8) s).map UInt8.ofNat

/-- A signed 64-bit number: an optional sign, then digits. -/
def parseI64 : Str → Option Int
  | '-' :: s => ((parseDigits s).filter (· ≤ 2 ^ 63)).map fun n : Nat => -(n : Int)
  | s => ((parseUnsigned s).filter (· < 2 ^ 63)).map Int.ofNat

/-! ## Printed numbers -/

theorem isDigit_decimal {n : Nat} {c : Char} (h : c ∈ decimal n) : c.isDigit = true :=
  Nat.isDigit_of_mem_toDigits (by omega) (by omega) h

theorem decimal_ne_nil (n : Nat) : decimal n ≠ [] := Nat.toDigits_ne_nil

@[simp] theorem parseDigits_decimal (n : Nat) : parseDigits (decimal n) = some n := by
  have hall : (decimal n).all Char.isDigit = true := List.all_eq_true.mpr fun c h => isDigit_decimal h
  have hne : (decimal n).isEmpty = false := by simpa using decimal_ne_nil n
  simp only [parseDigits, hall, hne, Bool.not_true, Bool.or_self, Bool.false_eq_true, if_false]
  exact congrArg some Nat.ofDigitChars_ten_toDigits

/-- The first character of a number is a digit. -/
theorem decimal_eq_cons (n : Nat) : ∃ c s, decimal n = c :: s ∧ c.isDigit = true := by
  cases h : decimal n with
  | nil => exact (decimal_ne_nil n h).elim
  | cons c s => exact ⟨c, s, rfl, isDigit_decimal (n := n) (by rw [h]; exact List.mem_cons_self)⟩

theorem parseUnsigned_digits {s : Str} (h : s.all Char.isDigit = true) : parseUnsigned s = parseDigits s := by
  cases s with
  | nil => rfl
  | cons c s =>
    have hplus : c ≠ '+' := by rintro rfl; simp at h
    rw [parseUnsigned]
    simpa using hplus

@[simp] theorem parseUnsigned_decimal (n : Nat) : parseUnsigned (decimal n) = some n := by
  rw [parseUnsigned_digits (List.all_eq_true.mpr fun c h => isDigit_decimal h), parseDigits_decimal]

/-- Leading zeros do not count. -/
theorem parseUnsigned_zeroPad (width n : Nat) : parseUnsigned (zeroPad width (decimal n)) = some n := by
  have hall : (zeroPad width (decimal n)).all Char.isDigit = true := by
    refine List.all_eq_true.mpr fun c hc => ?_
    rcases List.mem_append.mp hc with hc | hc
    · rw [List.eq_of_mem_replicate hc]
      rfl
    · exact isDigit_decimal hc
  have hne : (zeroPad width (decimal n)).isEmpty = false := by simp [zeroPad, decimal_ne_nil]
  have hvalue : Nat.ofDigitChars 10 (zeroPad width (decimal n)) 0 = n := by
    rw [zeroPad, Nat.ofDigitChars_append, Nat.ofDigitChars_replicate_zero, Nat.mul_zero]
    exact Nat.ofDigitChars_ten_toDigits
  rw [parseUnsigned_digits hall]
  simp only [parseDigits, hall, hne, Bool.not_true, Bool.or_self, Bool.false_eq_true, if_false, hvalue]

theorem parseU64_zeroPad (width : Nat) (w : UInt64) : parseU64 (zeroPad width (decimal w.toNat)) = some w := by
  simp [parseU64, parseBelow, parseUnsigned_zeroPad, w.toNat_lt]

theorem parseBelow_decimal {bound n : Nat} (h : n < bound) : parseBelow bound (decimal n) = some n := by
  simp [parseBelow, h]

@[simp] theorem parseU64_decimal (w : UInt64) : parseU64 (decimal w.toNat) = some w := by
  simp [parseU64, parseBelow_decimal w.toNat_lt]

@[simp] theorem parseU16_decimal (w : UInt16) : parseU16 (decimal w.toNat) = some w := by
  simp [parseU16, parseBelow_decimal w.toNat_lt]

@[simp] theorem parseU8_decimal (w : UInt8) : parseU8 (decimal w.toNat) = some w := by
  simp [parseU8, parseBelow_decimal w.toNat_lt]

theorem parseI64_intDecimal {i : Int} (hlo : -2 ^ 63 ≤ i) (hhi : i < 2 ^ 63) : parseI64 (intDecimal i) = some i := by
  cases i with
  | ofNat n =>
    obtain ⟨c, s, h, hc⟩ := decimal_eq_cons n
    have hminus : c ≠ '-' := by rintro rfl; simp at hc
    have hn : n < 2 ^ 63 := by rw [Int.ofNat_eq_natCast] at hhi; omega
    have : parseI64 (decimal n) = ((parseUnsigned (decimal n)).filter (· < 2 ^ 63)).map Int.ofNat := by
      rw [h, parseI64]
      simpa using hminus
    rw [intDecimal, this, parseUnsigned_decimal, Option.filter_some, if_pos (by simpa using hn), Option.map_some]
  | negSucc n =>
    have hn : n + 1 ≤ 2 ^ 63 := by omega
    rw [intDecimal, parseI64, parseDigits_decimal, Option.filter_some, if_pos (by simpa using hn), Option.map_some]
    rfl

end NixWire.Base
