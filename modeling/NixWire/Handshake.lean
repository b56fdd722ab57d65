/-
  NixWire.Handshake — protocol versions and the magic numbers (handshake.rs).

  Versions are ordered by major, then minor, as their wire words are
  (`ProtocolVersion.le_iff`). A version whose major fits a byte survives the wire
  (`from_wire_to_wire`).
-/

import NixWire.Base.Number

namespace NixWire

open Base

/-- Client magic number: "nixc". -/
def workerMagic1 : UInt64 := 0x6e697863

/-- Server magic number: "dxio". -/
def workerMagic2 : UInt64 := 0x6478696f

structure ProtocolVersion where
  major : UInt16
  minor : UInt8
  deriving DecidableEq, Repr

namespace ProtocolVersion

def new (major : UInt16) (minor : UInt8) : ProtocolVersion := ⟨major, minor⟩

instance : LE ProtocolVersion := ⟨fun a b => a.major < b.major ∨ a.major = b.major ∧ a.minor ≤ b.minor⟩

instance (a b : ProtocolVersion) : Decidable (a ≤ b) :=
  inferInstanceAs (Decidable (a.major < b.major ∨ a.major = b.major ∧ a.minor ≤ b.minor))

instance : Min ProtocolVersion := ⟨fun a b => if a ≤ b then a else b⟩

def fromWire (wire : UInt64) : ProtocolVersion := ⟨((wire &&& 0xff00) >>> 8).toUInt16, (wire &&& 0x00ff).toUInt8⟩

def toWire (v : ProtocolVersion) : UInt64 := (v.major.toUInt64 <<< 8) ||| v.minor.toUInt64

def hasFeatures (v : ProtocolVersion) : Bool := v ≥ new 1 38

def hasCpuAffinity (v : ProtocolVersion) : Bool := v ≥ new 1 14

def hasReserveSpace (v : ProtocolVersion) : Bool := v ≥ new 1 11

/-- The version as text, `major.minor`. -/
def display (v : ProtocolVersion) : Str := decimal v.major.toNat ++ ['.'] ++ decimal v.minor.toNat

/-! ## The order -/

/-- The version as one number. -/
def rank (v : ProtocolVersion) : Nat := v.major.toNat * 256 + v.minor.toNat

theorem le_iff (a b : ProtocolVersion) : a ≤ b ↔ a.rank ≤ b.rank := by
  have ha := a.minor.toNat_lt
  have hb := b.minor.toNat_lt
  show a.major < b.major ∨ a.major = b.major ∧ a.minor ≤ b.minor ↔ _
  rw [UInt16.lt_iff_toNat_lt, UInt8.le_iff_toNat_le, ← UInt16.toNat_inj]
  simp only [rank]
  omega

theorem le_trans {a b c : ProtocolVersion} (h : a ≤ b) (h' : b ≤ c) : a ≤ c := by
  rw [le_iff] at *
  omega

theorem min_eq_left {a b : ProtocolVersion} (h : a ≤ b) : min a b = a := if_pos h

/-! ## The wire word -/

theorem from_wire_major (w : UInt64) : (fromWire w).major.toNat = w.toNat / 256 % 256 := by
  have hmask : (w.toNat &&& 0xff00) >>> 8 = w.toNat / 256 % 256 := by
    rw [Nat.shiftRight_and_distrib]
    show w.toNat >>> 8 &&& 2 ^ 8 - 1 = _
    rw [Nat.and_two_pow_sub_one_eq_mod, Nat.shiftRight_eq_div_pow]
  have hlt : w.toNat / 256 % 256 < 2 ^ 16 := by omega
  simp only [fromWire, UInt64.toNat_toUInt16, UInt64.toNat_shiftRight, UInt64.toNat_and]
  show (w.toNat &&& 0xff00) >>> 8 % 2 ^ 16 = _
  rw [hmask, Nat.mod_eq_of_lt hlt]

theorem from_wire_minor (w : UInt64) : (fromWire w).minor.toNat = w.toNat % 256 := by
  simp only [fromWire, UInt64.toNat_toUInt8, UInt64.toNat_and]
  show (w.toNat &&& 2 ^ 8 - 1) % 2 ^ 8 = _
  rw [Nat.and_two_pow_sub_one_eq_mod, Nat.mod_mod]

theorem to_wire_toNat (v : ProtocolVersion) : v.toWire.toNat = v.rank := by
  have hmaj := v.major.toNat_lt
  have hmin : v.minor.toNat < 2 ^ 8 := v.minor.toNat_lt
  simp only [toWire, rank, UInt64.toNat_or, UInt64.toNat_shiftLeft, UInt16.toNat_toUInt64, UInt8.toNat_toUInt64]
  show v.major.toNat <<< 8 % 2 ^ 64 ||| v.minor.toNat = _
  rw [Nat.mod_eq_of_lt (by rw [Nat.shiftLeft_eq]; omega), ← Nat.shiftLeft_add_eq_or_of_lt hmin, Nat.shiftLeft_eq]

/-- A version whose major fits a byte survives the wire. -/
theorem from_wire_to_wire {v : ProtocolVersion} (h : v.major < 256) : fromWire v.toWire = v := by
  have hmaj : v.major.toNat < 256 := UInt16.lt_iff_toNat_lt.mp h
  have hmin := v.minor.toNat_lt
  have h₁ : (fromWire v.toWire).major = v.major := by
    apply UInt16.toNat_inj.mp
    rw [from_wire_major, to_wire_toNat, rank]
    omega
  have h₂ : (fromWire v.toWire).minor = v.minor := by
    apply UInt8.toNat_inj.mp
    rw [from_wire_minor, to_wire_toNat, rank]
    omega
  calc fromWire v.toWire = ⟨(fromWire v.toWire).major, (fromWire v.toWire).minor⟩ := rfl
    _ = v := by rw [h₁, h₂]

end ProtocolVersion

end NixWire
