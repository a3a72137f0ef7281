import TinyhackSsh.Spec.UserStream

/-! A mosh session: the main loops of `mosh-client` and `mosh-server` over a network that
loses, repeats and reorders datagrams. Every datagram that was ever sent may arrive at any
time, any number of times. -/

namespace Tinyhack.Mosh

open Network

/-- The two sides; `typed` is what the client pushed and `applied` what the server acted on. -/
structure Session (format : UserFormat) (τ : Type) where
  client : Transport (UserStream format) τ
  server : Transport τ (UserStream format)
  /-- `last_remote_num` of `serve`. -/
  lastRemoteNum : ℕ
  toServer : List Bytes
  toClient : List Bytes
  clientNow : ℕ
  serverNow : ℕ
  typed : List UserEvent
  applied : List UserEvent

inductive Action (τ : Type)
  /-- A keystroke or a resize reaches `get_current_state().push_back`. -/
  | push (event : UserEvent)
  | clientShutdown
  | clientTick (link : Link) (chaff : Bytes)
  | clientRecv (datagram : Bytes)
  /-- The terminal changes, `set_current_state`. -/
  | setTerminal (terminal : τ)
  | serverShutdown
  | serverTick (link : Link) (chaff : Bytes)
  | serverRecv (datagram : Bytes)
  | wait (client server : ℕ)

namespace Session

variable {format : UserFormat} {τ : Type}

/-- The user stream of both sides at the start. -/
def blank (format : UserFormat) : UserStream format := ⟨[]⟩

/-- The client sets a shorter delay. -/
def new (clientNow serverNow : ℕ) (localTerminal terminal : τ) : Session format τ where
  client := { Transport.new clientNow (blank format) localTerminal with
    sender := { TransportSender.new clientNow (blank format) with SEND_MINDELAY := 1 } }
  server := .new serverNow terminal (blank format)
  lastRemoteNum := 0
  toServer := []
  toClient := []
  clientNow := clientNow
  serverNow := serverNow
  typed := []
  applied := []

variable [SyncState τ] (codec : Codec)

/-- After `recv`, the server acts on new input. -/
def readInput (s : Session format τ) : Option (Session format τ) :=
  if s.server.remoteStateNum ≠ s.lastRemoteNum then
    s.server.getRemoteDiff.bind fun got =>
      (SyncState.applyString (blank format) got.1).map fun us =>
        { s with server := got.2, lastRemoteNum := s.server.remoteStateNum, applied := s.applied ++ us.actions }
  else some s

/-- `none` if a side aborts or the action is not possible. -/
def step (s : Session format τ) : Action τ → Option (Session format τ)
  | .push event =>
    if s.client.sender.shutdownInProgress then none
    else some { s with
      client := { s.client with sender := { s.client.sender with
        currentState := s.client.sender.currentState.pushBack event } }
      typed := s.typed ++ [event] }
  | .clientShutdown => some { s with
      client := { s.client with sender := s.client.sender.startShutdown s.clientNow } }
  | .clientTick link chaff => (s.client.sender.tick codec s.clientNow link chaff).map fun sent =>
      { s with client := { s.client with sender := sent.sender }, toServer := s.toServer ++ sent.datagrams }
  | .clientRecv datagram =>
    if datagram ∈ s.toClient then
      (s.client.recv codec s.clientNow datagram).map fun client => { s with client := client }
    else none
  | .setTerminal terminal =>
    if s.server.sender.shutdownInProgress then none
    else some { s with server := { s.server with sender := { s.server.sender with currentState := terminal } } }
  | .serverShutdown => some { s with
      server := { s.server with sender := s.server.sender.startShutdown s.serverNow } }
  | .serverTick link chaff => (s.server.sender.tick codec s.serverNow link chaff).map fun sent =>
      { s with server := { s.server with sender := sent.sender }, toClient := s.toClient ++ sent.datagrams }
  | .serverRecv datagram =>
    if datagram ∈ s.toServer then
      (s.server.recv codec s.serverNow datagram).bind fun server => { s with server := server }.readInput
    else none
  | .wait client server => some { s with clientNow := s.clientNow + client, serverNow := s.serverNow + server }

end Session

end Tinyhack.Mosh
