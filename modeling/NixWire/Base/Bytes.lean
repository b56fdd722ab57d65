/-
  NixWire.Base.Bytes — fixed-width little-endian numbers as byte lists.

  `leBytes k n` is the `k` low bytes of `n`, least significant first; `leNat` reads a
  byte list back. Both directions of the round trip hold with no side condition on the
  bytes (`leBytes_leNat`) and modulo the width on the number (`leNat_leBytes`), so a
  64-bit word and its eight bytes determine each other (`word_bytes`, `bytes_word`).
-/

import Mathlib.Data.List.Basic
import Mathlib.Tactic.Ring

namespace NixWire.Base

/-! ## Any width -/

def leBytes : Nat → Nat → List UInt8
  | 0, _ => []
  | k + 1, n => UInt8.ofNat n :: leBytes k (n / 256)

def leNat : List UInt8 → Nat
  | [] => 0
  | b :: bs => b.toNat + 256 * leNat bs

@[simp] theorem leBytes_length (k n : Nat) : (leBytes k n).length = k := by
  induction k generalizing n with
  | zero => rfl
  | succ k ih => simp [leBytes, ih]

theorem leNat_lt (bs : List UInt8) : leNat bs < 256 ^ bs.length := by
  induction bs with
  | nil => simp [leNat]
  | cons b bs ih =>
    have hb : b.toNat < 256 := b.toNat_lt
    simp only [leNat, List.length_cons, pow_succ]
    omega

theorem leNat_leBytes (k n : Nat) : leNat (leBytes k n) = n % 256 ^ k := by
  induction k generalizing n with
  | zero => simp [leBytes, leNat, Nat.mod_one]
  | succ k ih =>
    have hb : (UInt8.ofNat n).toNat = n % 256 := by simp
    rw [leBytes, leNat, ih, hb, pow_succ', Nat.mod_mul]

theorem leBytes_leNat (bs : List UInt8) : leBytes bs.length (leNat bs) = bs := by
  induction bs with
  | nil => rfl
  | cons b bs ih =>
    have hb : b.toNat < 256 := b.toNat_lt
    have hdiv : (b.toNat + 256 * leNat bs) / 256 = leNat bs := by omega
    have hlow : UInt8.ofNat (b.toNat + 256 * leNat bs) = b := by
      apply UInt8.toNat_inj.mp
      simp only [UInt8.toNat_ofNat']
      omega
    simp only [leNat, List.length_cons, leBytes, hdiv, ih, hlow]

/-- A byte list begins with a number of `k` bytes or is too short for one. -/
theorem leBytes_or_short (k : Nat) (s : List UInt8) :
    (∃ n < 256 ^ k, ∃ rest, s = leBytes k n ++ rest) ∨ s.length < k := by
  by_cases h : s.length < k
  · exact Or.inr h
  have hlen : (s.take k).length = k := by rw [List.length_take]; omega
  have hlt := leNat_lt (s.take k)
  have hbytes := leBytes_leNat (s.take k)
  rw [hlen] at hlt hbytes
  refine Or.inl ⟨leNat (s.take k), hlt, s.drop k, ?_⟩
  rw [hbytes, List.take_append_drop]

/-! ## 64-bit words -/

/-- A word as its eight bytes. -/
def wordBytes (w : UInt64) : List UInt8 := leBytes 8 w.toNat

/-- Eight bytes as a word. -/
def wordOf (bs : List UInt8) : UInt64 := UInt64.ofNat (leNat bs)

@[simp] theorem wordBytes_length (w : UInt64) : (wordBytes w).length = 8 := leBytes_length 8 _

theorem wordBytes_ne_nil (w : UInt64) : wordBytes w ≠ [] := List.ne_nil_of_length_eq_add_one (wordBytes_length w)

@[simp] theorem word_bytes (w : UInt64) : wordOf (wordBytes w) = w := by
  apply UInt64.toNat_inj.mp
  have hw : w.toNat < 256 ^ 8 := w.toNat_lt
  rw [wordOf, wordBytes, leNat_leBytes, Nat.mod_eq_of_lt hw, UInt64.toNat_ofNat', Nat.mod_eq_of_lt w.toNat_lt]

theorem bytes_word {bs : List UInt8} (h : bs.length = 8) : wordBytes (wordOf bs) = bs := by
  have hlt : leNat bs < 2 ^ 64 := by
    have := leNat_lt bs
    rw [h] at this
    omega
  rw [wordBytes, wordOf, UInt64.toNat_ofNat', Nat.mod_eq_of_lt hlt, ← h]
  exact leBytes_leNat bs

theorem wordBytes_inj {v w : UInt64} (h : wordBytes v = wordBytes w) : v = w := by
  rw [← word_bytes v, h, word_bytes]

theorem word_append_inj {v w : UInt64} {s s' : List UInt8} (h : wordBytes v ++ s = wordBytes w ++ s') : v = w ∧ s = s' := by
  obtain ⟨hw, hs⟩ := List.append_inj h (by simp)
  exact ⟨wordBytes_inj hw, hs⟩

/-- A byte list begins with a word or is too short for one. -/
theorem word_or_short (s : List UInt8) : (∃ (w : UInt64) (rest : List UInt8), s = wordBytes w ++ rest) ∨ s.length < 8 := by
  rcases leBytes_or_short 8 s with ⟨n, hn, rest, rfl⟩ | h
  · refine Or.inl ⟨UInt64.ofNat n, rest, ?_⟩
    rw [wordBytes, UInt64.toNat_ofNat', Nat.mod_eq_of_lt (by omega)]
  · exact Or.inr h

end NixWire.Base
