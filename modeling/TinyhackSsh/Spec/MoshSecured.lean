import TinyhackSsh.Spec.MoshConnection
import TinyhackSsh.Spec.MoshSession

/-! A mosh session over its connections. Anybody may send any datagram to either side from any
address: what was sent before, to the other side too, or something made up. -/

namespace Tinyhack.Mosh

open Network

/-- `toServer` and `toClient` of the session are what the transports handed to their connections;
`wire` is what went to the network from either side. -/
structure Secured (format : UserFormat) (τ : Type) where
  session : Session format τ
  client : Connection
  server : Connection
  wire : List Bytes

/-- The network is not involved. -/
def Action.onHost {τ : Type} : Action τ → Bool
  | .push _ | .clientShutdown | .setTerminal _ | .serverShutdown | .wait _ _ => true
  | .clientTick _ _ | .clientRecv _ | .serverTick _ _ | .serverRecv _ => false

/-- A datagram that somebody sends, and what the system calls of `recv_one` tell. -/
structure Delivery where
  datagram : Bytes
  source : Addr
  congestionExperienced : Bool
  named : Bool

inductive SecuredAction (τ : Type)
  | onHost (action : Action τ)
  | clientTick (link : Link) (chaff : Bytes) (results : List SendResult)
  | clientDeliver (delivery : Delivery)
  | serverTick (link : Link) (chaff : Bytes) (results : List SendResult)
  | serverDeliver (delivery : Delivery)

namespace Secured

variable {format : UserFormat} {τ : Type}

def new (clientNow serverNow : ℕ) (localTerminal terminal : τ) (remoteAddr : Addr) (clientMtu serverMtu : Mtu) :
    Secured format τ where
  session := .new clientNow serverNow localTerminal terminal
  client := .newClient remoteAddr clientMtu
  server := .newServer serverMtu
  wire := []

/-- What the sender asks of the connection is told by it. -/
def linked (link : Link) (c : Connection) : Link := { link with mtu := c.mtu, hasRemoteAddr := c.hasRemoteAddr }

variable (cipher : Cipher)

/-- What the client hears in a datagram. -/
def atClient (s : Secured format τ) (d : Delivery) : Connection × Option Bytes :=
  s.client.recvOne cipher s.session.clientNow d.source d.congestionExperienced d.named d.datagram

/-- What the server hears in a datagram. -/
def atServer (s : Secured format τ) (d : Delivery) : Connection × Option Bytes :=
  s.server.recvOne cipher s.session.serverNow d.source d.congestionExperienced d.named d.datagram

/-- Nobody else can make a datagram that passes the integrity check. -/
def Unforged (s : Secured format τ) : SecuredAction τ → Prop
  | .clientDeliver d | .serverDeliver d => (decrypt cipher d.datagram).isSome → d.datagram ∈ s.wire
  | .onHost _ | .clientTick _ _ _ | .serverTick _ _ _ => True

instance (s : Secured format τ) : (action : SecuredAction τ) → Decidable (s.Unforged cipher action)
  | .clientDeliver d | .serverDeliver d =>
    inferInstanceAs (Decidable ((decrypt cipher d.datagram).isSome → d.datagram ∈ s.wire))
  | .onHost _ | .clientTick _ _ _ | .serverTick _ _ _ => isTrue trivial

variable [SyncState τ] (codec : Codec)

/-- `none` if a side aborts or the action is not possible. -/
def step (s : Secured format τ) : SecuredAction τ → Option (Secured format τ)
  | .onHost action =>
    if action.onHost then (s.session.step codec action).map fun session => { s with session := session } else none
  | .clientTick link chaff results =>
    (s.session.client.sender.tick codec s.session.clientNow (linked link s.client) chaff).bind fun sent =>
      (s.client.sendAll cipher s.session.clientNow sent.datagrams results).map fun out =>
        { s with
          session := { s.session with
            client := { s.session.client with sender := sent.sender }
            toServer := s.session.toServer ++ sent.datagrams }
          client := out.1
          wire := s.wire ++ out.2 }
  | .clientDeliver d =>
    let s' := { s with client := (s.atClient cipher d).1 }
    (s.atClient cipher d).2.elim (some s') fun payload =>
      (s.session.client.recv codec s.session.clientNow payload).map fun client =>
        { s' with session := { s.session with client := client } }
  | .serverTick link chaff results =>
    (s.session.server.sender.tick codec s.session.serverNow (linked link s.server) chaff).bind fun sent =>
      (s.server.sendAll cipher s.session.serverNow sent.datagrams results).map fun out =>
        { s with
          session := { s.session with
            server := { s.session.server with sender := sent.sender }
            toClient := s.session.toClient ++ sent.datagrams }
          server := out.1
          wire := s.wire ++ out.2 }
  | .serverDeliver d =>
    let s' := { s with server := (s.atServer cipher d).1 }
    (s.atServer cipher d).2.elim (some s') fun payload =>
      (s.session.server.recv codec s.session.serverNow payload).bind fun server =>
        { s.session with server := server }.readInput.map fun session => { s' with session := session }

end Secured

end Tinyhack.Mosh
