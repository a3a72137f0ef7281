import TinyhackSsh.Spec.MoshTransport

/-! `Connection` and `Packet` of mosh's network layer over `Session` of its crypto layer: the
datagrams of a transport are numbered, encrypted and sent, and taken from a network that
anybody may write to. An exception that the main loop catches is told from one that ends
the process, which is `none` like a failed assertion. -/

namespace Tinyhack.Network

open Wire

/-- `ae_encrypt` and `ae_decrypt` under the key that both sides have. -/
structure Cipher where
  encrypt : (nonce : ℕ) → (text : Bytes) → Bytes
  decrypt : (nonce : ℕ) → (text : Bytes) → Option Bytes
  decrypt_encrypt : ∀ nonce text, decrypt nonce (encrypt nonce text) = some text
  length_encrypt : ∀ nonce text, (encrypt nonce text).length = text.length + 16

structure Message where
  nonce : ℕ
  text : Bytes

inductive Direction
  | toServer
  | toClient
  deriving DecidableEq

structure Packet where
  seq : ℕ
  direction : Direction
  timestamp : ℕ
  timestampReply : ℕ
  payload : Bytes

def DIRECTION_MASK : ℕ := 1 <<< 63
def SEQUENCE_MASK : ℕ := MAX64 ^^^ DIRECTION_MASK

namespace Packet

def toMessage (p : Packet) : Message where
  nonce := (p.direction = .toClient : Bool).toNat <<< 63 ||| p.seq &&& SEQUENCE_MASK
  text := beBytes 2 p.timestamp ++ beBytes 2 p.timestampReply ++ p.payload

/-- `Packet(const Message&)`, `none` if it throws. -/
def ofMessage (m : Message) : Option Packet :=
  if m.text.length < 4 then none
  else some {
    seq := m.nonce &&& SEQUENCE_MASK
    direction := if m.nonce &&& DIRECTION_MASK ≠ 0 then .toClient else .toServer
    timestamp := beNat (m.text.take 2)
    timestampReply := beNat ((m.text.drop 2).take 2)
    payload := m.text.drop 4 }

end Packet

def RECEIVE_MTU : ℕ := 2048

variable (cipher : Cipher)

/-- `Session::encrypt`, with the blocks encrypted so far. -/
def encrypt (blocksEncrypted : ℕ) (m : Message) : Option (ℕ × Bytes) :=
  if RECEIVE_MTU < m.text.length + 16 then none
  else
    let blocksEncrypted := blocksEncrypted + m.text.length >>> 4 + if m.text.length &&& 0xF ≠ 0 then 1 else 0
    if blocksEncrypted >>> 47 ≠ 0 then none
    else some (blocksEncrypted, beBytes 8 m.nonce ++ cipher.encrypt m.nonce m.text)

/-- `Session::decrypt`, `none` if it throws. -/
def decrypt (str : Bytes) : Option Message :=
  if str.length < 24 then none
  else (cipher.decrypt (beNat (str.take 8)) (str.drop 8)).map fun text => ⟨beNat (str.take 8), text⟩

def timestamp16 (now : ℕ) : ℕ := if now % 65536 = 65535 then 0 else now % 65536

def SERVER_ASSOCIATION_TIMEOUT : ℕ := 40000
def CONGESTION_TIMESTAMP_PENALTY : ℕ := 500

/-- What `sendto` did. -/
inductive SendResult
  | sent
  | failed (emsgsize : Bool)

/-- The address of a datagram's source. -/
abbrev Addr := Bytes

/-- One side; `counter` is the one of `Crypto::unique`. -/
structure Connection where
  server : Bool
  hasRemoteAddr : Bool
  remoteAddr : Option Addr
  mtu : Mtu
  blocksEncrypted : ℕ
  counter : ℕ
  savedTimestamp : ℕ
  savedTimestampReceivedAt : ℕ
  expectedReceiverSeq : ℕ
  lastHeard : ℕ

namespace Connection

def newServer (mtu : Mtu) : Connection := ⟨true, false, none, mtu, 0, 0, 65535, 0, 0, MAX64⟩

def newClient (remoteAddr : Addr) (mtu : Mtu) : Connection :=
  ⟨false, true, some remoteAddr, mtu, 0, 0, 65535, 0, 0, MAX64⟩

/-- The member `direction`. -/
def direction (c : Connection) : Direction := if c.server then .toClient else .toServer

def newPacket (c : Connection) (now : ℕ) (payload : Bytes) : Option (Connection × Packet) :=
  if (c.counter + 1) % 2 ^ 64 = 0 then none
  else
    let recent := c.savedTimestampReceivedAt ≤ now ∧ now - c.savedTimestampReceivedAt < 1000
    let reply := if recent then (c.savedTimestamp + (now - c.savedTimestampReceivedAt)) % 65536 else 65535
    some ({ c with
        counter := c.counter + 1
        savedTimestamp := if recent then 65535 else c.savedTimestamp
        savedTimestampReceivedAt := if recent then 0 else c.savedTimestampReceivedAt },
      ⟨c.counter, c.direction, timestamp16 now, reply, payload⟩)

/-- After `sendto`; the client may hop to another port. -/
def afterSend (c : Connection) (now : ℕ) (result : SendResult) : Connection :=
  { c with
    mtu := match result with
      | .failed true => .lastResort
      | _ => c.mtu
    hasRemoteAddr := if c.server ∧ SERVER_ASSOCIATION_TIMEOUT < (now + 2 ^ 64 - c.lastHeard) % 2 ^ 64 then false
      else c.hasRemoteAddr }

/-- With what goes to the network. -/
def send (c : Connection) (now : ℕ) (result : SendResult) (s : Bytes) : Option (Connection × Option Bytes) :=
  if c.hasRemoteAddr then
    (c.newPacket now s).bind fun made => (encrypt cipher made.1.blocksEncrypted made.2.toMessage).map fun out =>
      ({ made.1 with blocksEncrypted := out.1 }.afterSend now result, match result with
        | .sent => some out.2
        | .failed _ => none)
  else some (c, none)

/-- The datagrams of an instruction. -/
def sendAll (now : ℕ) : Connection → List Bytes → List SendResult → Option (Connection × List Bytes)
  | c, [], _ => some (c, [])
  | c, s :: rest, results => (c.send cipher now (results.headD .sent) s).bind fun sent =>
    (sendAll now sent.1 rest results.tail).map fun out => (out.1, sent.2.toList ++ out.2)

/-- The time of a packet that is newer than all before. -/
def saveTimestamp (c : Connection) (now : ℕ) (congestionExperienced : Bool) (p : Packet) : Connection :=
  if p.timestamp ≠ 65535 then { c with
    savedTimestamp :=
      if congestionExperienced then (p.timestamp + 65536 - CONGESTION_TIMESTAMP_PENALTY) % 65536 else p.timestamp
    savedTimestampReceivedAt := now }
  else c

/-- A packet that is newer than all before: only now the server follows the client to its address.
`named` tells whether `getnameinfo` succeeds. -/
def accept (c : Connection) (now : ℕ) (source : Addr) (congestionExperienced named : Bool) (p : Packet) :
    Connection × Option Bytes :=
  let c := { { c with expectedReceiverSeq := p.seq + 1 }.saveTimestamp now congestionExperienced p with
    hasRemoteAddr := true
    lastHeard := now }
  if c.server ∧ c.remoteAddr ≠ some source then
    ({ c with remoteAddr := some source }, if named then some p.payload else none)
  else (c, some p.payload)

/-- A datagram from `source`; the payload is `none` if the call throws. The round trip times that it
measures are part of `Link`. -/
def recvOne (c : Connection) (now : ℕ) (source : Addr) (congestionExperienced named : Bool) (datagram : Bytes) :
    Connection × Option Bytes :=
  if RECEIVE_MTU < datagram.length then (c, none)
  else match (decrypt cipher datagram).bind Packet.ofMessage with
    | none => (c, none)
    | some p =>
      if p.direction ≠ (if c.server then .toServer else .toClient) then (c, none)
      else if p.seq < c.expectedReceiverSeq then (c, some p.payload)
      else c.accept now source congestionExperienced named p

end Connection

end Tinyhack.Network
