/-
  NixWire.Base.Utf8 — strings as their Unicode scalar values, and their UTF-8 bytes.

  A string is the list of its characters. Its bytes are the UTF-8 encoding, and a byte
  list is accepted back exactly when it is one (`fromUtf8_utf8`, `utf8_of_fromUtf8`).
-/

import Mathlib.Data.List.Basic

namespace NixWire.Base

/-- A string: its characters in order. -/
abbrev Str := List Char

def utf8 (s : Str) : List UInt8 := s.flatMap String.utf8EncodeChar

def fromUtf8 (bs : List UInt8) : Option Str := bs.toByteArray.utf8Decode?.map Array.toList

theorem toByteArray_inj {a b : List UInt8} (h : a.toByteArray = b.toByteArray) : a = b := by
  have := congrArg (fun x : ByteArray => x.data.toList) h
  simpa using this

theorem utf8_toByteArray (s : Str) : (utf8 s).toByteArray = s.utf8Encode := rfl

@[simp] theorem fromUtf8_utf8 (s : Str) : fromUtf8 (utf8 s) = some s := by
  simp [fromUtf8, utf8_toByteArray]

theorem utf8_of_fromUtf8 {bs : List UInt8} {s : Str} (h : fromUtf8 bs = some s) : utf8 s = bs := by
  simp only [fromUtf8, Option.map_eq_some_iff] at h
  obtain ⟨cs, hcs, rfl⟩ := h
  apply toByteArray_inj
  have hsome : bs.toByteArray.utf8Decode?.isSome = true := by rw [hcs]; rfl
  have hget : bs.toByteArray.utf8Decode?.get hsome = cs := by simp [hcs]
  rw [utf8_toByteArray, ← hget, ByteArray.utf8Encode_get_utf8Decode?]

end NixWire.Base
