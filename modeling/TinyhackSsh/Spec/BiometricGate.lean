import TinyhackSsh.Spec.AgentServer

/-! The gate before a security-key signature: `awaitBiometricAuth`, the static
maps `PENDING_BIOMETRIC` and `ACTIVE_PROMPTS`, and `BiometricAuthActivity`, around
the server of `Spec.AgentServer`. What that model leaves to the outside, the
answer to a worker in `awaitAuth`, is here the return of the worker's call.
Each operation on a map or a future is a step; the main looper, Android (which
creates, re-creates and destroys activities) and the prompt act at any time. -/

namespace Tinyhack.Biometric

open Agent Wire

/-- Who calls `awaitBiometricAuth`: a worker that signs, or anybody else (the
debug endpoint does). -/
inductive Caller
  | worker (w : ℕ)
  | other (n : ℕ)
  deriving DecidableEq

/-- Where a call of `awaitBiometricAuth` stands. -/
inductive Call
  | idle
  | put (id : ℤ)
  | post (id : ℤ)
  | waiting (id : ℤ)
  /-- the `catch` block -/
  | dismiss (id : ℤ)
  /-- the `finally` block, with the value to return -/
  | remove (id : ℤ) (ok : Bool)
  deriving DecidableEq

/-- A `BiometricAuthActivity`, prompting once `authenticate` was called. -/
inductive Activity
  | absent
  | created (requestId : ℤ) (prompting : Bool)
  | destroyed
  deriving DecidableEq

/-- What happened, with requests numbered in the order they were read. -/
inductive Event
  | arrived (request : ℕ)
  /-- `onAuthenticationSucceeded` of a prompt that carries `id` -/
  | succeeded (id : ℤ)
  /-- a SIGN_RESPONSE for a security key was written -/
  | signResponse (request : ℕ)
  deriving DecidableEq

structure System where
  server : Server
  /-- `BIOMETRIC_REQUESTS`; a `long` that nobody counts through -/
  requests : ℤ
  /-- the keys of `PENDING_BIOMETRIC` -/
  pending : ℤ → Bool
  /-- the future made for an id, `none` until it is completed -/
  future : ℤ → Option Bool
  call : Caller → Call
  /-- launches posted to the main looper -/
  posted : List ℤ
  /-- futures `completeBiometricAuth` has found and not completed yet -/
  completions : List (ℤ × Bool)
  activity : ℕ → Activity
  activities : ℕ
  activePrompts : ℤ → Option ℕ
  /-- activities asked to `finish()` -/
  finishing : ℕ → Bool
  /-- the request a worker has read last -/
  current : ℕ → ℕ
  arrivals : ℕ
  /-- the id drawn for a request -/
  idOf : ℕ → Option ℤ
  log : List Event

def System.init (counters : JString → ℤ) : System where
  server := Server.init counters
  requests := 0
  pending := fun _ => false
  future := fun _ => none
  call := fun _ => .idle
  posted := []
  completions := []
  activity := fun _ => .absent
  activities := 0
  activePrompts := fun _ => none
  finishing := fun _ => false
  current := fun _ => 0
  arrivals := 0
  idOf := fun _ => none
  log := []

/-- A SIGN_RESPONSE whose signature blob names the security-key type. -/
def isSkResponse (payload : Bytes) : Bool :=
  payload.head? = some SSH_AGENT_SIGN_RESPONSE &&
    (writeString (encodeUtf8 SK_ECDSA_TYPE)).isPrefixOf (payload.drop 5)

def skReply : Phase → Bool
  | .reply payload => isSkResponse payload
  | _ => false

def awaits : Phase → Bool
  | .awaitAuth _ _ => true
  | _ => false

/-- `completeBiometricAuth` up to the call of `complete`. -/
def completeBiometricAuth (s : System) (id : ℤ) (success : Bool) : System :=
  if s.pending id then { s with completions := s.completions ++ [(id, success)] } else s

/-- `awaitBiometricAuth` returns; a worker goes on with the answer. -/
def awaitReturns (prov : Provider) (s : System) (c : Caller) (ok : Bool) : Option System :=
  match c with
  | .worker w => (step prov s.server (.worker w (.authenticated ok))).map fun server => { s with server := server }
  | .other _ => some s

def Caller.mayCall (s : System) : Caller → Bool
  | .worker w => awaits (s.server.conn w).phase
  | .other _ => true

/-- `awaitBiometricAuth` up to the new id. -/
def awaitBiometricAuth (prov : Provider) (s : System) (c : Caller) (enrolled : Bool) : Option System :=
  if s.call c = .idle ∧ c.mayCall s = true then
    if enrolled then
      let id := s.requests + 1
      some { s with
        requests := id
        call := Function.update s.call c (.put id)
        idOf := match c with
          | .worker w => Function.update s.idOf (s.current w) (some id)
          | .other _ => s.idOf }
    else awaitReturns prov s c false
  else none

/-- `dismissPendingPrompt`. -/
def dismissPendingPrompt (s : System) (id : ℤ) : System :=
  match s.activePrompts id with
  | some n => { s with finishing := Function.update s.finishing n true }
  | none => s

/-- The next step of a call. -/
def callStep (prov : Provider) (s : System) (c : Caller) : Option System :=
  match s.call c with
  | .idle => none
  | .put id => some { s with
      pending := Function.update s.pending id true
      call := Function.update s.call c (.post id) }
  | .post id => some { s with
      posted := s.posted ++ [id]
      call := Function.update s.call c (.waiting id) }
  | .waiting id => (s.future id).map fun ok => { s with call := Function.update s.call c (.remove id ok) }
  | .dismiss id =>
    let s := dismissPendingPrompt s id
    some { s with call := Function.update s.call c (.remove id false) }
  | .remove id ok =>
    awaitReturns prov { s with
      pending := Function.update s.pending id false
      call := Function.update s.call c .idle } c ok

/-- The `try` block ends with an exception: a timeout or an interrupt. -/
def callFails (s : System) (c : Caller) : Option System :=
  match s.call c with
  | .post id | .waiting id => some { s with call := Function.update s.call c (.dismiss id) }
  | _ => none

/-- `onCreate` of the next activity. -/
def onCreate (s : System) (requestId : ℤ) (enrolled : Bool) : System :=
  let create (s : System) (prompting : Bool) : System := { s with
    activity := Function.update s.activity s.activities (.created requestId prompting)
    activities := s.activities + 1
    finishing := Function.update s.finishing s.activities !prompting }
  if requestId < 0 then create s false
  else if !enrolled then create (completeBiometricAuth s requestId false) false
  else
    let s := { s with activePrompts := Function.update s.activePrompts requestId (some s.activities) }
    create s true

/-- A callback of the prompt of activity `n`. -/
def promptEnds (s : System) (n : ℕ) (success : Bool) : Option System :=
  match s.activity n with
  | .created requestId true =>
    let s := { s with log := s.log ++ if success then [.succeeded requestId] else [] }
    let s := completeBiometricAuth s requestId success
    some { s with finishing := Function.update s.finishing n true }
  | _ => none

def onDestroy (s : System) (n : ℕ) : Option System :=
  match s.activity n with
  | .created requestId _ => some { s with
      activity := Function.update s.activity n .destroyed
      activePrompts := if 0 ≤ requestId then Function.update s.activePrompts requestId none else s.activePrompts }
  | _ => none

/-- The runnable that launches the prompt. -/
def launch (s : System) (id : ℤ) (started : Bool) : Option System :=
  if id ∈ s.posted then
    let s := { s with posted := s.posted.erase id }
    some (if started then s else completeBiometricAuth s id false)
  else none

/-- `future.complete(success)`: only the first completion counts. -/
def complete (s : System) (id : ℤ) (success : Bool) : Option System :=
  if (id, success) ∈ s.completions then
    some { s with
      completions := s.completions.erase (id, success)
      future := Function.update s.future id (some ((s.future id).getD success)) }
  else none

/-- A step of the server, recording the requests read and the security-key answers written. -/
def serverStep (prov : Provider) (s : System) (a : Agent.Action) : Option System :=
  match a with
  | .worker _ (.authenticated _) => none
  | .worker w (.recv message) =>
    (step prov s.server (.worker w (.recv message))).map fun server => { s with
      server := server
      current := Function.update s.current w s.arrivals
      arrivals := s.arrivals + 1
      log := s.log ++ [.arrived s.arrivals] }
  | .worker w (.write true) =>
    (step prov s.server (.worker w (.write true))).map fun server => { s with
      server := server
      log := s.log ++ if skReply (s.server.conn w).phase then [.signResponse (s.current w)] else [] }
  | a => (step prov s.server a).map fun server => { s with server := server }

inductive Action
  | server (a : Agent.Action)
  | await (c : Caller) (enrolled : Bool)
  | callStep (c : Caller)
  | callFails (c : Caller)
  | launch (id : ℤ) (started : Bool)
  | onCreate (requestId : ℤ) (enrolled : Bool)
  | promptEnds (n : ℕ) (success : Bool)
  | onDestroy (n : ℕ)
  | complete (id : ℤ) (success : Bool)
  deriving DecidableEq

def gateStep (prov : Provider) (s : System) : Action → Option System
  | .server a => serverStep prov s a
  | .await c enrolled => awaitBiometricAuth prov s c enrolled
  | .callStep c => callStep prov s c
  | .callFails c => callFails s c
  | .launch id started => launch s id started
  | .onCreate requestId enrolled => some (onCreate s requestId enrolled)
  | .promptEnds n success => promptEnds s n success
  | .onDestroy n => onDestroy s n
  | .complete id success => complete s id success

end Tinyhack.Biometric
