import TinyhackSsh.Spec.AgentRequests

/-! `signSecurityKeyOnce`, with the digest and the signer as parameters, and the two ends of
it that are not in the app: DER as the signer writes it, and a verifier that reads the answer
as SSH wire data. -/

namespace Tinyhack.SecurityKey

open Wire Agent

/-- What the signer was given, and what was sent; `none` if an exception was thrown. -/
structure Signing where
  signed : Bytes
  sent : Option Bytes

/-- `sign` is `none` when the Keystore throws. -/
def signSecurityKeyOnce (sha256 : Bytes → Bytes) (sign : Bytes → Option Bytes) (application : JString) (counter : ℤ)
    (message : Bytes) : Signing :=
  let flags := SK_USER_PRESENT
  let signed := sha256 (encodeUtf8 application) ++ [flags] ++ writeInt counter ++ sha256 message
  ⟨signed, ((sign signed).bind (skSignResponse counter)).map sendPayload⟩

/-! The signer. -/

/-- A DER length below 65536. -/
def derLengthBytes (n : ℕ) : Bytes :=
  if n < 0x80 then beBytes 1 n else if n < 0x100 then 0x81 :: beBytes 1 n else 0x82 :: beBytes 2 n

def derIntegerBytes (n : ℤ) : Bytes := 0x02 :: (derLengthBytes (toByteArray n).length ++ toByteArray n)

/-- The content of the sequence. -/
def derBody (r s : ℤ) : Bytes := derIntegerBytes r ++ derIntegerBytes s

def derSignature (r s : ℤ) : Bytes := 0x30 :: (derLengthBytes (derBody r s).length ++ derBody r s)

/-! The verifier. Lengths are unsigned; nothing may be left over. -/

def getByte : Bytes → Option (UInt8 × Bytes)
  | [] => none
  | b :: rest => some (b, rest)

def getUint32 (bs : Bytes) : Option (ℕ × Bytes) :=
  if bs.length < 4 then none else some (beNat (bs.take 4), bs.drop 4)

def getString (bs : Bytes) : Option (Bytes × Bytes) := do
  let (length, rest) ← getUint32 bs
  if rest.length < length then none else some (rest.take length, rest.drop length)

/-- No unnecessary leading byte 0 or 255, and zero is the empty string. -/
def canonical : Bytes → Bool
  | [] => true
  | [b] => b ≠ 0
  | a :: b :: _ => !(a = 0 && b < 128) && !(a = 255 && 128 ≤ b)

def getMpint (bs : Bytes) : Option (ℤ × Bytes) := do
  let (value, rest) ← getString bs
  if canonical value then some (ofByteArray value, rest) else none

structure Parsed where
  keyType : Bytes
  r : ℤ
  s : ℤ
  flags : UInt8
  counter : ℕ
  deriving DecidableEq

def parseSignature (bs : Bytes) : Option Parsed := do
  let (keyType, bs) ← getString bs
  let (ecdsa, bs) ← getString bs
  let (r, ecdsa) ← getMpint ecdsa
  let (s, ecdsa) ← getMpint ecdsa
  let (flags, bs) ← getByte bs
  let (counter, bs) ← getUint32 bs
  if ecdsa = [] ∧ bs = [] then some ⟨keyType, r, s, flags, counter⟩ else none

/-- A whole message of the agent. -/
def parseResponse (bs : Bytes) : Option Parsed := do
  let (message, bs) ← getString bs
  let (type, message) ← getByte message
  let (signature, message) ← getString message
  if type = SSH_AGENT_SIGN_RESPONSE ∧ message = [] ∧ bs = [] then parseSignature signature else none

/-- The signed data, from the recovered fields. -/
def Parsed.signed (p : Parsed) (sha256 : Bytes → Bytes) (application : JString) (message : Bytes) : Bytes :=
  sha256 (encodeUtf8 application) ++ [p.flags] ++ beBytes 4 p.counter ++ sha256 message

end Tinyhack.SecurityKey
