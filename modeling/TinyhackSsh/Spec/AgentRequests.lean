import TinyhackSsh.Spec.AgentServer

/-! `handleClient` for one client of a running, unlocked server, request after
request: framing, the handlers with what each of them reads and throws, and the
replies. An exception in a handler is `none`, and the `catch` answers FAILURE.
What a security key needs from outside is given for each request. -/

namespace Tinyhack.Agent

open Wire

/-- What prompt and Keystore answer while one request is handled. -/
structure Outside where
  authenticated : Bool
  /-- by attempt -/
  keystore : ℕ → KeystoreResult

/-- What requests read and change. -/
structure Store where
  keys : List StoredKey
  /-- the `ssh_sk_counters` preferences -/
  counters : JString → ℤ

def sendPayload (payload : Bytes) : Bytes := writeInt payload.length ++ payload

/-- `readInt`, the test of the length and `readFully`: the message and the bytes
after it, unless the connection ends here. -/
def readFrame (bs : Bytes) : Option (Bytes × Bytes) := do
  let (length, rest) ← readInt bs
  if length < 1 ∨ length > MAX_MESSAGE_SIZE then none
  else if length > rest.length then none
  else some (rest.take length.toNat, rest.drop length.toNat)

/-- The loop of `signSecurityKey`: `attempts` are left, `attempt` comes next. -/
def signAttempts (outside : Outside) (key : StoredKey) :
    ℕ → ℕ → (JString → ℤ) → Option Bytes × (JString → ℤ)
  | 0, _, counters => (none, counters)
  | attempts + 1, attempt, counters =>
    let keyAlias := key.keyStoreAlias.getD []
    let counter := nextSecurityKeyCounter counters keyAlias
    let counters := Function.update counters keyAlias counter
    match outside.keystore attempt with
    | .signature der => (skSignResponse counter der, counters)
    | .userNotAuthenticated => signAttempts outside key attempts (attempt + 1) counters
    | .failed => (none, counters)

def signSecurityKey (outside : Outside) (key : StoredKey) (counters : JString → ℤ) : Option Bytes × (JString → ℤ) :=
  if outside.authenticated then signAttempts outside key 5 0 counters else (none, counters)

/-- The answer of the key that was found. -/
def signWith (prov : Provider) (outside : Outside) (key : StoredKey) (data : Bytes) (flags : ℤ)
    (counters : JString → ℤ) : Option Bytes × (JString → ℤ) :=
  if key.keyType = .skEcdsa then signSecurityKey outside key counters
  else (signWithPrivateKey prov key data flags, counters)

def sign (prov : Provider) (outside : Outside) (store : Store) (message : Bytes) : Option Bytes × (JString → ℤ) :=
  match parseSign message with
  | none => (none, store.counters)
  | some (requestedBlob, data, flags) =>
    match store.keys.find? fun key => key.blob = requestedBlob with
    | none => (none, store.counters)
    | some key => signWith prov outside key data flags store.counters

/-- One turn of the loop in `handleClient`: the reply and what is stored then. -/
def handleRequest (prov : Provider) (outside : Outside) (store : Store) (message : Bytes) : Bytes × Store :=
  let type := message.headD 0
  if type = SSH_AGENTC_REQUEST_IDENTITIES then (identitiesAnswer store.keys.length store.keys, store)
  else if type = SSH_AGENTC_ADD_IDENTITY ∨ type = SSH_AGENTC_ADD_ID_CONSTRAINED then
    match addIdentity prov message (type = SSH_AGENTC_ADD_ID_CONSTRAINED) with
    | some key => ([SSH_AGENT_SUCCESS], { store with keys := removeBlob store.keys key.blob ++ [key] })
    | none => ([SSH_AGENT_FAILURE], store)
  else if type = SSH_AGENTC_REMOVE_IDENTITY then
    match parseRemove message with
    | some blob => ([SSH_AGENT_SUCCESS], { store with keys := removeBlob store.keys blob })
    | none => ([SSH_AGENT_FAILURE], store)
  else if type = SSH_AGENTC_REMOVE_ALL_IDENTITIES then ([SSH_AGENT_SUCCESS], { store with keys := [] })
  else if type = SSH_AGENTC_SIGN_REQUEST then
    let (payload, counters) := sign prov outside store message
    (payload.getD [SSH_AGENT_FAILURE], { store with counters := counters })
  -- LOCK, UNLOCK and unknown types
  else ([SSH_AGENT_FAILURE], store)

/-- A request that was answered. -/
structure Exchange where
  request : Bytes
  before : Store
  reply : Bytes
  after : Store

/-- `handleClient` on all the client sends: the bytes written and the requests
answered. `fuel` bounds the number of turns, `k` counts the requests. -/
def handleClient (prov : Provider) (outside : ℕ → Outside) : ℕ → ℕ → Store → Bytes → Bytes × List Exchange
  | 0, _, _, _ => ([], [])
  | fuel + 1, k, store, bs =>
    match readFrame bs with
    | none => ([], [])
    | some (message, rest) =>
      let (reply, after) := handleRequest prov (outside k) store message
      let (written, exchanges) := handleClient prov outside fuel (k + 1) after rest
      (sendPayload reply ++ written, ⟨message, store, reply, after⟩ :: exchanges)

/-- Requests of any clients, handled one at a time: the replies and what is stored then. -/
def handleRequests (prov : Provider) (outside : ℕ → Outside) : ℕ → Store → List Bytes → List Bytes × Store
  | _, store, [] => ([], store)
  | k, store, message :: messages =>
    let (reply, store) := handleRequest prov (outside k) store message
    let (replies, store) := handleRequests prov outside (k + 1) store messages
    (reply :: replies, store)

end Tinyhack.Agent
