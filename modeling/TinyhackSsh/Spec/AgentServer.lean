import TinyhackSsh.Spec.Wire

/-! `SshAgentServer` as a step function over its threads: the accept threads,
one worker for each client connection (`handleClient`), the callers of
`addAndroidSecurityKey`, and the callers of `start`, `stop` and `setLocked`.
Each read or write of a shared field (`running`, `locked`, one operation on the
`CopyOnWriteArrayList` `keys`) and each blocking call is a step of its own.
What the outside decides (frames, the biometric answer, the Keystore, failing
sockets) is part of the action. -/

namespace Tinyhack.Agent

open Wire

inductive KeyType
  | ed25519
  | rsa
  | skEcdsa
  deriving DecidableEq

/-- What the private key was generated from. -/
inductive PrivateKey
  | ed25519 (pkcs8 : Bytes)
  | rsa (n e d p q dP dQ qInv : ℤ)
  deriving DecidableEq

structure StoredKey where
  blob : Bytes
  comment : JString
  keyType : KeyType
  privateKey : Option PrivateKey
  keyStoreAlias : Option JString
  application : Option JString
  deriving DecidableEq

/-- `SshKeyManager.AndroidSecurityKey`. -/
structure AndroidSecurityKey where
  keyAlias : JString
  application : JString
  comment : JString
  publicBlob : Bytes
  deriving DecidableEq

inductive JavaAlgorithm
  | Ed25519
  | SHA512withRSA
  | SHA256withRSA
  deriving DecidableEq

/-- The Java crypto provider: which key specs it accepts, and its signatures. -/
structure Provider where
  accepts : PrivateKey → Bool
  sign : JavaAlgorithm → PrivateKey → Bytes → Option Bytes

def SSH_AGENT_FAILURE : UInt8 := 5
def SSH_AGENT_SUCCESS : UInt8 := 6
def SSH_AGENT_IDENTITIES_ANSWER : UInt8 := 12
def SSH_AGENT_SIGN_RESPONSE : UInt8 := 14
def SSH_AGENTC_REQUEST_IDENTITIES : UInt8 := 11
def SSH_AGENTC_SIGN_REQUEST : UInt8 := 13
def SSH_AGENTC_ADD_IDENTITY : UInt8 := 17
def SSH_AGENTC_REMOVE_IDENTITY : UInt8 := 18
def SSH_AGENTC_REMOVE_ALL_IDENTITIES : UInt8 := 19
def SSH_AGENTC_ADD_ID_CONSTRAINED : UInt8 := 25
def MAX_CONCURRENT_CLIENTS : ℤ := 16
def SK_USER_PRESENT : UInt8 := 1

def SK_ECDSA_TYPE : JString := "sk-ecdsa-sha2-nistp256@openssh.com".toList

def ed25519Pkcs8 (seed : Bytes) : Bytes :=
  [0x30, 0x2e, 0x02, 0x01, 0x00, 0x30, 0x05, 0x06,
   0x03, 0x2b, 0x65, 0x70, 0x04, 0x22, 0x04, 0x20] ++ seed

/-- The `StoredKey` an ADD request describes, with the bytes left in the message. -/
def parseIdentity (prov : Provider) (message : Bytes) : Option (StoredKey × Bytes) := do
  let (keyType, rest) ← readStringUtf8 (message.drop 1)
  if keyType = "ssh-ed25519".toList then
    let (publicKey, rest) ← readString rest
    let (privateAndPublic, rest) ← readString rest
    if publicKey.length ≠ 32 ∨ privateAndPublic.length < 32 then none
    else
      let privateKey := PrivateKey.ed25519 (ed25519Pkcs8 (privateAndPublic.take 32))
      if !prov.accepts privateKey then none
      else
        let (comment, rest) ← readStringUtf8 rest
        some (⟨wireBlob keyType publicKey, comment, .ed25519, some privateKey, none, none⟩, rest)
  else if keyType = "ssh-rsa".toList then
    let (n, rest) ← readMpInt rest
    let (e, rest) ← readMpInt rest
    let (d, rest) ← readMpInt rest
    let (iqmp, rest) ← readMpInt rest
    let (p, rest) ← readMpInt rest
    let (q, rest) ← readMpInt rest
    let (comment, rest) ← readStringUtf8 rest
    -- `BigInteger.mod` throws unless the modulus is positive
    if p - 1 ≤ 0 ∨ q - 1 ≤ 0 then none
    else
      let privateKey := PrivateKey.rsa n e d p q (d % (p - 1)) (d % (q - 1)) iqmp
      if !prov.accepts privateKey then none
      else some (⟨publicBlob keyType e n, comment, .rsa, some privateKey, none, none⟩, rest)
  else none

/-- `addIdentity` up to the change of the key list. -/
def addIdentity (prov : Provider) (message : Bytes) (constrained : Bool) : Option StoredKey := do
  let (key, rest) ← parseIdentity prov message
  if constrained && !rest.isEmpty then none else some key

/-- The arguments of a SIGN request: key blob, data, flags. -/
def parseSign (message : Bytes) : Option (Bytes × Bytes × ℤ) := do
  let (requestedBlob, rest) ← readString (message.drop 1)
  let (data, rest) ← readString rest
  let (flags, _) ← readInt rest
  some (requestedBlob, data, flags)

def parseRemove (message : Bytes) : Option Bytes := (readString (message.drop 1)).map Prod.fst

/-- Bit `k` of a Java `int`. -/
def testFlag (flags : ℤ) (k : ℕ) : Bool := flags / 2 ^ k % 2 = 1

/-- The SSH and Java algorithm names; plain `ssh-rsa` (SHA-1) is refused. -/
def signatureAlgorithm (keyType : KeyType) (flags : ℤ) : Option (JString × JavaAlgorithm) :=
  match keyType with
  | .skEcdsa => none
  | .ed25519 => some ("ssh-ed25519".toList, .Ed25519)
  | .rsa =>
    if testFlag flags 2 then some ("rsa-sha2-512".toList, .SHA512withRSA)
    else if testFlag flags 1 then some ("rsa-sha2-256".toList, .SHA256withRSA)
    else none

def signResponse (signatureBlob : Bytes) : Bytes := SSH_AGENT_SIGN_RESPONSE :: writeString signatureBlob

/-- The answer to a SIGN request for a key held in memory. -/
def signWithPrivateKey (prov : Provider) (key : StoredKey) (data : Bytes) (flags : ℤ) : Option Bytes := do
  let (sshAlgorithm, javaAlgorithm) ← signatureAlgorithm key.keyType flags
  let privateKey ← key.privateKey
  let signature ← prov.sign javaAlgorithm privateKey data
  some (signResponse (wireBlob sshAlgorithm signature))

/-- The answer of `signSecurityKeyOnce` for the DER signature the Keystore returned. -/
def skSignResponse (counter : ℤ) (der : Bytes) : Option Bytes := do
  let ecdsaBlob ← ecdsaDerToSsh der
  some (signResponse (writeString (encodeUtf8 SK_ECDSA_TYPE) ++ writeString ecdsaBlob ++
    [SK_USER_PRESENT] ++ writeInt counter))

/-- `sendIdentities`: the count was read before the list. -/
def identitiesAnswer (count : ℕ) (keys : List StoredKey) : Bytes :=
  SSH_AGENT_IDENTITIES_ANSWER :: writeInt count ++
    keys.flatMap fun key => writeString key.blob ++ writeString (encodeUtf8 key.comment)

/-- Where a connection's worker stands; named after what it does next. -/
inductive Phase
  | absent
  /-- the test of `while (running)` -/
  | loop
  /-- blocked in `readInt` or `readFully` -/
  | reading
  /-- a frame is read; next is the read of `locked` -/
  | received (message : Bytes)
  /-- `sendIdentities`: `keys.size()`, then the iteration -/
  | countKeys
  | listKeys (count : ℕ)
  /-- `addIdentity`: `keys.removeIf`, then `keys.add` -/
  | replaceKey (key : StoredKey)
  | addKey (key : StoredKey)
  | removeKey (blob : Bytes)
  | clearKeys
  /-- `sign`: the search of `keys` -/
  | findKey (blob data : Bytes) (flags : ℤ)
  | signing (key : StoredKey) (data : Bytes) (flags : ℤ)
  /-- blocked in `awaitBiometricAuth` -/
  | awaitAuth (key : StoredKey) (data : Bytes)
  /-- `signSecurityKeyOnce`: the counter, then the Keystore -/
  | takeCounter (key : StoredKey) (data : Bytes) (attempt : ℕ)
  | skSign (key : StoredKey) (data : Bytes) (attempt : ℕ) (counter : ℤ)
  /-- `sendPayload` inside the `try` -/
  | reply (payload : Bytes)
  /-- `sendStatus(out, false)` of the `catch` -/
  | replyFailure
  | done
  deriving DecidableEq

inductive KeystoreResult
  | signature (der : Bytes)
  | userNotAuthenticated
  /-- key not found, another exception, or an interrupted wait -/
  | failed
  deriving DecidableEq

/-- What makes a worker move. -/
inductive WorkerEvent
  | run
  | recv (message : Bytes)
  /-- end of stream, an out-of-range length or an I/O error while reading -/
  | disconnect
  | authenticated (ok : Bool)
  | keystore (result : KeystoreResult)
  | write (ok : Bool)
  deriving DecidableEq

/-- The `switch` on the message type, up to the handler's first shared access. -/
def dispatch (prov : Provider) (message : Bytes) : Phase :=
  let type := message.headD 0
  if type = SSH_AGENTC_REQUEST_IDENTITIES then .countKeys
  else if type = SSH_AGENTC_ADD_IDENTITY then
    match addIdentity prov message false with
    | some key => .replaceKey key
    | none => .replyFailure
  else if type = SSH_AGENTC_ADD_ID_CONSTRAINED then
    match addIdentity prov message true with
    | some key => .replaceKey key
    | none => .replyFailure
  else if type = SSH_AGENTC_REMOVE_IDENTITY then
    match parseRemove message with
    | some blob => .removeKey blob
    | none => .replyFailure
  else if type = SSH_AGENTC_REMOVE_ALL_IDENTITIES then .clearKeys
  else if type = SSH_AGENTC_SIGN_REQUEST then
    match parseSign message with
    | some (blob, data, flags) => .findKey blob data flags
    | none => .replyFailure
  -- LOCK, UNLOCK and unknown types
  else .reply [SSH_AGENT_FAILURE]

/-- `keys.removeIf(k -> Arrays.equals(k.blob, blob))`. -/
def removeBlob (keys : List StoredKey) (blob : Bytes) : List StoredKey :=
  keys.filter fun key => key.blob ≠ blob

structure Conn where
  phase : Phase
  /-- the incarnation whose socket accepted the connection -/
  born : ℕ
  deriving DecidableEq

/-- Where an accept thread stands in `acceptLoop`. Sockets are named by the
incarnation that opened them. -/
inductive AcceptPhase
  | absent
  | test
  | call
  | accepting (socket : ℕ)
  | accepted (socket : ℕ)
  | done
  deriving DecidableEq

inductive AcceptEvent
  | run
  | accept (uidMatches : Bool)
  | ioError
  deriving DecidableEq

/-- A call of `addAndroidSecurityKey`, with the incarnation it was made in. -/
inductive AskPhase
  | absent
  | replaceKey (key : StoredKey) (born : ℕ)
  | addKey (key : StoredKey) (born : ℕ)
  | done
  deriving DecidableEq

/-- The rest of a `stop()` that has set `running = false`; it holds the server's monitor. -/
inductive StopPhase
  | closing
  | joining
  | clearing
  deriving DecidableEq

structure Server where
  running : Bool
  locked : Bool
  keys : List StoredKey
  serverSocket : Option ℕ
  stopping : Option StopPhase
  activeClients : ℤ
  /-- the `ssh_sk_counters` preferences -/
  counters : JString → ℤ
  conn : ℕ → Conn
  conns : ℕ
  acceptor : ℕ → AcceptPhase
  acceptors : ℕ
  ask : ℕ → AskPhase
  asks : ℕ
  /-- successful `start()` calls so far -/
  incarnation : ℕ
  /-- `some k`: a `stop()` of incarnation `k` has returned and nothing was added since
  on a connection, or by an `addAndroidSecurityKey` call, of a later incarnation -/
  emptied : Option ℕ
  /-- payloads written, with their connection -/
  sent : List (ℕ × Bytes)

/-- A server object that was never started. -/
def Server.init (counters : JString → ℤ) : Server where
  running := false
  locked := false
  keys := []
  serverSocket := none
  stopping := none
  activeClients := 0
  counters := counters
  conn := fun _ => ⟨.absent, 0⟩
  conns := 0
  acceptor := fun _ => .absent
  acceptors := 0
  ask := fun _ => .absent
  asks := 0
  incarnation := 0
  emptied := none
  sent := []

def Server.isRunning (s : Server) : Bool := s.running && s.serverSocket.isSome

/-- The record of an `add` by a caller of incarnation `born`. -/
def addedBy (born : ℕ) : Option ℕ → Option ℕ
  | some k => if k < born then none else some k
  | none => none

/-- What a worker's step writes. -/
structure Effect where
  phase : Phase
  keys : List StoredKey
  counters : JString → ℤ
  emptied : Option ℕ
  sent : Option Bytes

def Server.goto (s : Server) (phase : Phase) : Effect := ⟨phase, s.keys, s.counters, s.emptied, none⟩

/-- `nextSecurityKeyCounter`, which needs the server's monitor. -/
def nextSecurityKeyCounter (counters : JString → ℤ) (keyAlias : JString) : ℤ := wrap32 (counters keyAlias + 1)

/-- One step of the worker of a connection accepted in incarnation `born`. -/
def advance (prov : Provider) (s : Server) (born : ℕ) : Phase → WorkerEvent → Option Effect
  | .loop, .run => some (s.goto (if s.running then .reading else .done))
  | .loop, .disconnect => some (s.goto .done)
  | .reading, .recv message =>
    if 1 ≤ message.length ∧ message.length ≤ MAX_MESSAGE_SIZE then some (s.goto (.received message)) else none
  | .reading, .disconnect => some (s.goto .done)
  | .received message, .run =>
    some (s.goto (if s.locked then .reply [SSH_AGENT_FAILURE] else dispatch prov message))
  | .countKeys, .run => some (s.goto (.listKeys s.keys.length))
  | .listKeys count, .run => some (s.goto (.reply (identitiesAnswer count s.keys)))
  | .replaceKey key, .run => some { s.goto (.addKey key) with keys := removeBlob s.keys key.blob }
  | .addKey key, .run =>
    some { s.goto (.reply [SSH_AGENT_SUCCESS]) with
      keys := s.keys ++ [key]
      emptied := addedBy born s.emptied }
  | .removeKey blob, .run =>
    some { s.goto (.reply [SSH_AGENT_SUCCESS]) with keys := removeBlob s.keys blob }
  | .clearKeys, .run => some { s.goto (.reply [SSH_AGENT_SUCCESS]) with keys := [] }
  | .findKey blob data flags, .run =>
    some (s.goto (match s.keys.find? fun key => key.blob = blob with
      | some key => if key.keyType = .skEcdsa then .awaitAuth key data else .signing key data flags
      | none => .replyFailure))
  | .signing key data flags, .run =>
    some (s.goto (match signWithPrivateKey prov key data flags with
      | some payload => .reply payload
      | none => .replyFailure))
  | .awaitAuth key data, .authenticated ok =>
    some (s.goto (if ok then .takeCounter key data 0 else .replyFailure))
  | .takeCounter key data attempt, .run =>
    let keyAlias := key.keyStoreAlias.getD []
    let counter := nextSecurityKeyCounter s.counters keyAlias
    if s.stopping = none then
      some { s.goto (.skSign key data attempt counter) with
        counters := Function.update s.counters keyAlias counter }
    else none
  | .skSign key data attempt counter, .keystore result =>
    some (s.goto (match result with
      | .signature der => match skSignResponse counter der with
        | some payload => .reply payload
        | none => .replyFailure
      | .userNotAuthenticated => if attempt < 4 then .takeCounter key data (attempt + 1) else .replyFailure
      | .failed => .replyFailure))
  | .reply payload, .write ok =>
    some (if ok then { s.goto .loop with sent := some payload } else s.goto .replyFailure)
  | .replyFailure, .write ok =>
    some (if ok then { s.goto .loop with sent := some [SSH_AGENT_FAILURE] } else s.goto .done)
  | _, _ => none

/-- Write an effect back; the worker's `finally` releases its slot. -/
def Server.commit (s : Server) (w : ℕ) (e : Effect) : Server :=
  { s with
    conn := Function.update s.conn w ⟨e.phase, (s.conn w).born⟩
    keys := e.keys
    counters := e.counters
    emptied := e.emptied
    activeClients := if e.phase = .done then s.activeClients - 1 else s.activeClients
    sent := s.sent ++ (e.sent.map fun payload => (w, payload)).toList }

def workerStep (prov : Provider) (s : Server) (w : ℕ) (ev : WorkerEvent) : Option Server :=
  (advance prov s (s.conn w).born (s.conn w).phase ev).map (s.commit w)

/-- One step of an accept thread. -/
def acceptStep (s : Server) (i : ℕ) (ev : AcceptEvent) : Option Server :=
  let goto (phase : AcceptPhase) : Server := { s with acceptor := Function.update s.acceptor i phase }
  match s.acceptor i, ev with
  | .test, .run => some (goto (if s.running then .call else .done))
  -- a null `serverSocket` ends the thread with an exception
  | .call, .run => some (goto (match s.serverSocket with
    | some socket => .accepting socket
    | none => .done))
  | .accepting socket, .accept uidMatches =>
    if s.serverSocket = some socket then some (goto (if uidMatches then .accepted socket else .test)) else none
  | .accepting _, .ioError => some (goto .done)
  | .accepted socket, .run =>
    if s.activeClients + 1 > MAX_CONCURRENT_CLIENTS then some (goto .test)
    else some { goto .test with
      activeClients := s.activeClients + 1
      conn := Function.update s.conn s.conns ⟨.loop, socket⟩
      conns := s.conns + 1 }
  -- closing the rejected client fails
  | .accepted _, .ioError =>
    if s.activeClients + 1 > MAX_CONCURRENT_CLIENTS then some (goto .done) else none
  | _, _ => none

def storedSecurityKey (key : AndroidSecurityKey) : StoredKey :=
  ⟨key.publicBlob, key.comment, .skEcdsa, none, some key.keyAlias, some key.application⟩

/-- `addAndroidSecurityKey` replaces and adds in two operations on the list. -/
def askStep (s : Server) (i : ℕ) : Option Server :=
  match s.ask i with
  | .replaceKey key born =>
    some { s with
      keys := removeBlob s.keys key.blob
      ask := Function.update s.ask i (.addKey key born) }
  | .addKey key born =>
    some { s with
      keys := s.keys ++ [key]
      emptied := addedBy born s.emptied
      ask := Function.update s.ask i .done }
  | _ => none

/-- `start()`: nothing in it blocks, so it is one step. -/
def start (s : Server) (bound : Bool) : Server :=
  if s.running then s
  else if bound then
    { s with
      serverSocket := some (s.incarnation + 1)
      locked := false
      running := true
      acceptor := Function.update s.acceptor s.acceptors .test
      acceptors := s.acceptors + 1
      incarnation := s.incarnation + 1 }
  else { s with serverSocket := none, running := false }

/-- The rest of `stop()`: close the socket, wait up to 500 ms for the accept
thread, clear the keys. -/
def stopStep (s : Server) : Option Server :=
  match s.stopping with
  | some .closing => some { s with serverSocket := none, stopping := some .joining }
  | some .joining => some { s with stopping := some .clearing }
  | some .clearing => some { s with keys := [], stopping := none, emptied := some s.incarnation }
  | none => none

inductive Action
  | start (bound : Bool)
  /-- entry of `stop()` up to `running = false` -/
  | stop
  | stopStep
  | setLocked (locked : Bool)
  | accept (i : ℕ) (ev : AcceptEvent)
  | worker (w : ℕ) (ev : WorkerEvent)
  /-- entry of `addAndroidSecurityKey` -/
  | ask (key : AndroidSecurityKey)
  | askStep (i : ℕ)
  deriving DecidableEq

def step (prov : Provider) (s : Server) : Action → Option Server
  | .start bound => if s.stopping = none then some (start s bound) else none
  | .stop => if s.stopping = none then some { s with running := false, stopping := some .closing } else none
  | .stopStep => stopStep s
  | .setLocked locked => some { s with locked := locked }
  | .accept i ev => acceptStep s i ev
  | .worker w ev => workerStep prov s w ev
  | .ask key => some { s with
      ask := Function.update s.ask s.asks (.replaceKey (storedSecurityKey key) s.incarnation)
      asks := s.asks + 1 }
  | .askStep i => askStep s i

end Tinyhack.Agent
