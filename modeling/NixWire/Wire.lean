/-
  NixWire.Wire — the wire primitives (wire.rs, wire_async.rs) and the readers under them.

  The reading functions are those of `AsyncWireReader`, over any buffered reader. A
  failed read leaves the stream where the failure left it. `Vec::with_capacity` panics
  when it is asked for more than `isize::MAX` bytes; the vectors whose length the wire
  string limit bounds cannot get there. The writing functions of wire.rs append to a
  vector and cannot fail, so they are the bytes they append.

  `MemReader` slices its data at its position, so it panics if the position is past the
  end; `consume` adds to the position unchecked. `BufReader` is tokio's over a socket
  that hands out one chunk per read.
-/

import NixWire.Base.Layout
import NixWire.Base.Reader
import NixWire.Handshake

namespace NixWire

open Base

/-! ## Errors -/

inductive WireError where
  | readU64
  | stringTooLong (len : UInt64)
  | bytesData
  | bytesPadding
  | notUtf8
  | chunkTooLong (chunkLen : UInt64)
  | chunkData
  | clientMagic (magic1 : UInt64)
  | serverMagic (magic2 : UInt64)
  | expectedLast (codeVal : UInt64)
  deriving DecidableEq, Repr

/-- Maximum wire string or chunk length before the stream counts as desynchronized: 256 MiB. -/
def maxWireStringLen : UInt64 := 256 * 1024 * 1024

/-- `{:#x}`. -/
def hexShort (n : UInt64) : Str := "0x".toList ++ lowerHex n.toNat

/-- `{:#018x}`. -/
def hexLong (n : UInt64) : Str := "0x".toList ++ zeroPad 16 (lowerHex n.toNat)

def tooLongText (what : Str) (len : UInt64) : Str :=
  what ++ " too long: ".toList ++ decimal len.toNat ++ " bytes (".toList ++ hexShort len ++ "), max ".toList
    ++ decimal (maxWireStringLen / (1024 * 1024)).toNat ++ " MiB".toList

def badMagicText (whose : Str) (got expected : UInt64) : Str :=
  "unexpected ".toList ++ whose ++ " magic: got ".toList ++ hexLong got ++ ", expected ".toList ++ hexLong expected

/-- The error's outermost text. -/
def WireError.message : WireError → Str
  | readU64 => "failed to read u64 from wire".toList
  | stringTooLong len => tooLongText "wire string".toList len
  | bytesData => "failed to read wire bytes data".toList
  | bytesPadding => "failed to read wire bytes padding".toList
  | notUtf8 => "wire string is not valid UTF-8".toList
  | chunkTooLong len => tooLongText "framed chunk".toList len
  | chunkData => "failed to read framed chunk data".toList
  | clientMagic got => badMagicText "client".toList got workerMagic1
  | serverMagic got => badMagicText "server".toList got workerMagic2
  | expectedLast got => "expected STDERR_LAST after handshake, got ".toList ++ hexShort got

/-! ## Reading -/

/-- `isize::MAX`. -/
def isizeMax : Nat := 2 ^ 63 - 1

/-- `Vec::with_capacity` for `bytes` bytes. -/
def reserve {R : Type} (bytes : Nat) : Rd WireError R Unit :=
  if isizeMax < bytes then Rd.abort .capacityOverflow else pure ()

/-- `size_of::<String>()`, and of a pair of strings. -/
def stringSize : Nat := 24
def pairSize : Nat := 48

section

variable {R : Type} [BufRead R]

def readU64 : Rd WireError R UInt64 := do
  let buf ← readExact .readU64 8
  return wordOf buf

def peekPass (_ : Unit) : Rd WireError R (Unit ⊕ Option UInt64) := do
  let buf ← BufRead.fillBuf
  if 8 ≤ buf.length then return .inr (some (wordOf (buf.take 8)))
  else if buf.isEmpty then return .inr none
  -- fewer than eight bytes in the buffer count as the end of the stream
  else if buf.length < 8 then return .inr none
  else return .inl ()

def peekU64 : Rd WireError R (Option UInt64) := readLoop peekPass ()

def consume (n : Nat) : Rd WireError R Unit := ⟨fun r => (.ok (), BufRead.consume n r)⟩

def readBytes : Rd WireError R (List UInt8) := do
  let len ← readU64
  if len > maxWireStringLen then Rd.fail (.stringTooLong len)
  else
    let buf ← readExact .bytesData len.toNat
    let padding := (8 - len % 8) % 8
    if padding > 0 then
      let _ ← readExact .bytesPadding padding.toNat
      return buf
    else return buf

def readString : Rd WireError R Str := do
  let bytes ← readBytes
  match fromUtf8 bytes with
  | some s => return s
  | none => Rd.fail .notUtf8

def skipString : Rd WireError R Unit := do
  let _ ← readBytes
  return ()

def readStringSet : Rd WireError R (List Str) := do
  let count ← readU64
  reserve (count.toNat * stringSize)
  Rd.times count.toNat readString

def skipStringSet : Rd WireError R UInt64 := do
  let count ← readU64
  let _ ← Rd.times count.toNat skipString
  return count

def readFramedPass (result : List UInt8) : Rd WireError R (List UInt8 ⊕ List UInt8) := do
  let chunkLen ← readU64
  if chunkLen == 0 then return .inr result
  else if chunkLen > maxWireStringLen then Rd.fail (.chunkTooLong chunkLen)
  else
    let buf ← readExact .chunkData chunkLen.toNat
    return .inl (result ++ buf)

def readFramed : Rd WireError R (List UInt8) := readLoop readFramedPass []

/-- Read at most 8 KiB of the bytes to drop. -/
def discardPass (remaining : Nat) : Rd WireError R (Nat ⊕ Unit) :=
  if 0 < remaining then do
    let toRead := min remaining 8192
    let _ ← readExact .chunkData toRead
    return .inl (remaining - toRead)
  else return .inr ()

def discard (remaining : Nat) : Rd WireError R Unit := readLoop discardPass remaining

def skipFramedPass (total : UInt64) : Rd WireError R (UInt64 ⊕ UInt64) := do
  let chunkLen ← readU64
  if chunkLen == 0 then return .inr total
  else if chunkLen > maxWireStringLen then Rd.fail (.chunkTooLong chunkLen)
  else
    discard chunkLen.toNat
    return .inl (total + chunkLen)

def skipFramed : Rd WireError R UInt64 := readLoop skipFramedPass 0

end

/-! ## Writing -/

def writeU64 (val : UInt64) : List UInt8 := wordBytes val

def writeBytes (data : List UInt8) : List UInt8 :=
  let len := UInt64.ofNat data.length
  let padding := (8 - len % 8) % 8
  writeU64 len ++ data ++ (if padding > 0 then List.replicate padding.toNat 0 else [])

def writeString (s : Str) : List UInt8 := writeBytes (utf8 s)

def writeStringSet (strings : List Str) : List UInt8 :=
  writeU64 (UInt64.ofNat strings.length) ++ strings.flatMap writeString

/-- Chunks of 64 KiB, then a zero-length terminator. -/
def writeFramed (data : List UInt8) : List UInt8 :=
  (chunks (64 * 1024) data).flatMap (fun chunk => writeU64 (UInt64.ofNat chunk.length) ++ chunk) ++ writeU64 0

/-! ## Readers -/

structure MemReader where
  data : List UInt8
  pos : Nat
  deriving DecidableEq, Repr

namespace MemReader

def new (data : List UInt8) : MemReader := ⟨data, 0⟩

def position (m : MemReader) : Nat := m.pos

/-- The bytes from the position on: `&data[pos..]`. -/
def remaining {ε : Type} : Rd ε MemReader (List UInt8) :=
  ⟨fun m => if m.pos ≤ m.data.length then (.ok (m.data.drop m.pos), m) else (.stop (.panic .sliceOutOfRange), m)⟩

def pollRead {ε : Type} (n : Nat) : Rd ε MemReader (List UInt8) := do
  let remaining ← remaining
  let n := min remaining.length n
  Rd.mk fun m => (.ok (remaining.take n), { m with pos := m.pos + n })

instance : BufRead MemReader where
  pollRead := pollRead
  fillBuf := remaining
  consume amt m := { m with pos := m.pos + amt }
  size m := m.data.length - m.pos

end MemReader

/-- A buffer over a socket that hands out its chunks one per read. -/
structure BufReader where
  buf : List UInt8
  chunks : List (List UInt8)
  nonempty : ∀ c ∈ chunks, c ≠ []

namespace BufReader

def new (chunks : List (List UInt8)) (nonempty : ∀ c ∈ chunks, c ≠ []) : BufReader := ⟨[], chunks, nonempty⟩

/-- What is still to come, buffered or not. -/
def unread (r : BufReader) : List UInt8 := r.buf ++ r.chunks.flatten

/-- One read of the socket if the buffer is empty. -/
def fill (r : BufReader) : BufReader :=
  match r with
  | ⟨[], c :: cs, h⟩ => ⟨c, cs, fun d hd => h d (List.mem_cons_of_mem c hd)⟩
  | r => r

instance : BufRead BufReader where
  pollRead n := ⟨fun r => (.ok (r.fill.buf.take n), { r.fill with buf := r.fill.buf.drop n })⟩
  fillBuf := ⟨fun r => (.ok r.fill.buf, r.fill)⟩
  consume n r := { r with buf := r.buf.drop n }
  size r := r.unread.length

end BufReader

end NixWire
