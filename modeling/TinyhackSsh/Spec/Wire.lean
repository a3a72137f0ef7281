import Mathlib.Tactic

/-! Byte-level helpers of `SshAgentServer`: `DataOutputStream` and
`DataInputStream` integers, `BigInteger`'s two's-complement bytes, UTF-8
strings, and the readers `WireReader` and `DerReader`. A thrown exception is
`none`; the readers return the value and the bytes left. -/

namespace Tinyhack

abbrev Bytes := List UInt8

/-- A Java string without unpaired surrogates. -/
abbrev JString := List Char

/-- The Java `int` with the low 32 bits of `n`. -/
def wrap32 (n : ℤ) : ℤ := (n + 2 ^ 31) % 2 ^ 32 - 2 ^ 31

namespace Wire

/-- Unsigned big-endian value. -/
def beNat (bs : Bytes) : ℕ := bs.foldl (fun acc b => acc * 256 + b.toNat) 0

/-- The low `k` bytes of `n`, big-endian. -/
def beBytes : ℕ → ℤ → Bytes
  | 0, _ => []
  | k + 1, n => beBytes k (n / 256) ++ [UInt8.ofNat (n % 256).toNat]

/-- `DataOutputStream.writeInt`. -/
def writeInt (n : ℤ) : Bytes := beBytes 4 n

def writeString (value : Bytes) : Bytes := writeInt value.length ++ value

/-- The signed value of a two's-complement byte array, `new BigInteger(bytes)`. -/
def ofByteArray (bs : Bytes) : ℤ :=
  if 128 ≤ (bs.headD 0).toNat then (beNat bs : ℤ) - 256 ^ bs.length else beNat bs

/-- `BigInteger.bitLength`. -/
def bitLength (n : ℤ) : ℕ := if 0 ≤ n then n.toNat.size else (-n - 1).toNat.size

/-- `BigInteger.toByteArray`: the shortest two's-complement form. -/
def toByteArray (n : ℤ) : Bytes := beBytes (bitLength n / 8 + 1) n

/-- `DataInputStream.readInt`. -/
def readInt : Bytes → Option (ℤ × Bytes)
  | a :: b :: c :: d :: rest => some (ofByteArray [a, b, c, d], rest)
  | _ => none

def MAX_MESSAGE_SIZE : ℕ := 256 * 1024

/-- `WireReader.readString`. -/
def readString (bs : Bytes) : Option (Bytes × Bytes) := do
  let (length, rest) ← readInt bs
  if length < 0 ∨ length > MAX_MESSAGE_SIZE ∨ length > rest.length then none
  else some (rest.take length.toNat, rest.drop length.toNat)

/-- `WireReader.readMpInt`. -/
def readMpInt (bs : Bytes) : Option (ℤ × Bytes) := do
  let (value, rest) ← readString bs
  some (if value.length = 0 then 0 else ofByteArray value, rest)

/-- `String.getBytes(UTF_8)`. -/
def encodeUtf8 (s : JString) : Bytes := s.flatMap String.utf8EncodeChar

def isContinuation (b : UInt8) : Bool := 0x80 ≤ b && b ≤ 0xBF

/-- The code point made of the payload bits of a lead byte and its continuation bytes. -/
def codePoint (lead : ℕ) (tail : Bytes) : Char :=
  Char.ofNat (tail.foldl (fun acc b => acc * 64 + b.toNat % 64) lead)

/-- One character of well-formed UTF-8, or the replacement character for the
longest malformed prefix; with the number of bytes read. -/
def decodeChar : Bytes → Char × ℕ
  | [] => ('�', 1)
  | a :: rest =>
    let second (lo hi : UInt8) : Bool := match rest with
      | b :: _ => lo ≤ b && b ≤ hi
      | [] => false
    let continues (k : ℕ) : Bool := match rest[k]? with
      | some b => isContinuation b
      | none => false
    if a < 0x80 then (Char.ofNat a.toNat, 1)
    else if 0xC2 ≤ a ∧ a ≤ 0xDF then
      if continues 0 then (codePoint (a.toNat % 32) (rest.take 1), 2) else ('�', 1)
    else if 0xE0 ≤ a ∧ a ≤ 0xEF then
      if !second (if a = 0xE0 then 0xA0 else 0x80) (if a = 0xED then 0x9F else 0xBF) then ('�', 1)
      else if !continues 1 then ('�', 2)
      else (codePoint (a.toNat % 16) (rest.take 2), 3)
    else if 0xF0 ≤ a ∧ a ≤ 0xF4 then
      if !second (if a = 0xF0 then 0x90 else 0x80) (if a = 0xF4 then 0x8F else 0xBF) then ('�', 1)
      else if !continues 1 then ('�', 2)
      else if !continues 2 then ('�', 3)
      else (codePoint (a.toNat % 8) (rest.take 3), 4)
    else ('�', 1)

/-- `new String(bytes, UTF_8)`; every character reads at least one byte, so the
length is enough fuel. -/
def decodeUtf8 (bs : Bytes) : JString := go bs.length bs
where
  go : ℕ → Bytes → JString
    | 0, _ => []
    | _ + 1, [] => []
    | fuel + 1, b :: bs => (decodeChar (b :: bs)).1 :: go fuel ((b :: bs).drop (decodeChar (b :: bs)).2)

/-- `WireReader.readStringUtf8`. -/
def readStringUtf8 (bs : Bytes) : Option (JString × Bytes) := do
  let (value, rest) ← readString bs
  some (decodeUtf8 value, rest)

/-! `DerReader` and the conversion of a DER signature. -/

def derByte : Bytes → Option (UInt8 × Bytes)
  | [] => none
  | b :: rest => some (b, rest)

def derLength (bs : Bytes) : Option (ℕ × Bytes) := do
  let (first, rest) ← derByte bs
  if first < 0x80 then some (first.toNat, rest)
  else
    let count := first.toNat % 128
    if count < 1 ∨ count > 2 ∨ rest.length < count then none
    else some (beNat (rest.take count), rest.drop count)

def derInteger (bs : Bytes) : Option (ℤ × Bytes) := do
  let (tag, rest) ← derByte bs
  if tag ≠ 0x02 then none
  else
    let (length, rest) ← derLength rest
    if length < 1 ∨ length > rest.length then none
    else some (ofByteArray (rest.take length), rest.drop length)

def ecdsaDerToSsh (der : Bytes) : Option Bytes := do
  let (tag, rest) ← derByte der
  if tag ≠ 0x30 then none
  else
    let (sequenceLength, rest) ← derLength rest
    if sequenceLength ≠ rest.length then none
    else
      let (r, rest) ← derInteger rest
      let (s, _) ← derInteger rest
      some (writeString (toByteArray r) ++ writeString (toByteArray s))

/-- `wireBlob`. -/
def wireBlob (first : JString) (second : Bytes) : Bytes :=
  writeString (encodeUtf8 first) ++ writeString second

/-- `publicBlob`. -/
def publicBlob (type : JString) (e n : ℤ) : Bytes :=
  writeString (encodeUtf8 type) ++ writeString (toByteArray e) ++ writeString (toByteArray n)

end Wire
end Tinyhack
