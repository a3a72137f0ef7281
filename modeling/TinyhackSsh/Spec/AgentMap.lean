import TinyhackSsh.Lib.OrderedMap
import TinyhackSsh.Spec.AgentRequests

/-! What the agent's key list is for: a map from public-key blobs to identities
that lists them in the order in which they were added. Requests are given by what
they ask for, not by their bytes. -/

namespace Tinyhack.Agent

open Wire

/-- What is stored under a blob. -/
structure Identity where
  comment : JString
  keyType : KeyType
  privateKey : Option PrivateKey
  keyStoreAlias : Option JString
  application : Option JString

abbrev IdentityMap := OrderedMap Bytes Identity

def StoredKey.identity (key : StoredKey) : Identity :=
  ⟨key.comment, key.keyType, key.privateKey, key.keyStoreAlias, key.application⟩

def Identity.stored (blob : Bytes) (identity : Identity) : StoredKey :=
  ⟨blob, identity.comment, identity.keyType, identity.privateKey, identity.keyStoreAlias, identity.application⟩

inductive Request
  | list
  | add (blob : Bytes) (identity : Identity)
  | remove (blob : Bytes)
  | removeAll
  | sign (blob data : Bytes) (flags : ℤ)
  /-- unknown, not supported or malformed -/
  | other

/-- What a message asks for. -/
def Request.ofMessage (prov : Provider) (message : Bytes) : Request :=
  let type := message.headD 0
  if type = SSH_AGENTC_REQUEST_IDENTITIES then .list
  else if type = SSH_AGENTC_ADD_IDENTITY ∨ type = SSH_AGENTC_ADD_ID_CONSTRAINED then
    match addIdentity prov message (type = SSH_AGENTC_ADD_ID_CONSTRAINED) with
    | some key => .add key.blob key.identity
    | none => .other
  else if type = SSH_AGENTC_REMOVE_IDENTITY then
    match parseRemove message with
    | some blob => .remove blob
    | none => .other
  else if type = SSH_AGENTC_REMOVE_ALL_IDENTITIES then .removeAll
  else if type = SSH_AGENTC_SIGN_REQUEST then
    match parseSign message with
    | some (blob, data, flags) => .sign blob data flags
    | none => .other
  else .other

/-- The map after a request. An identity that is added goes to the end. -/
def IdentityMap.update (m : IdentityMap) : Request → IdentityMap
  | .add blob identity => (m.erase blob).put blob identity
  | .remove blob => m.erase blob
  | .removeAll => OrderedMap.empty
  | .list | .sign _ _ _ | .other => m

/-- IDENTITIES_ANSWER: the number of identities, then blob and comment of each. -/
def IdentityMap.listing (m : IdentityMap) : Bytes :=
  SSH_AGENT_IDENTITIES_ANSWER :: writeInt m.size ++
    m.entries.flatMap fun e => writeString e.1 ++ writeString (encodeUtf8 e.2.comment)

/-- The reply to a request. A signature is the one of the identity under the blob,
if it gives one; `counters` are the security-key counters. -/
def IdentityMap.reply (m : IdentityMap) (prov : Provider) (outside : Outside) (counters : JString → ℤ) : Request → Bytes
  | .list => m.listing
  | .add _ _ | .remove _ | .removeAll => [SSH_AGENT_SUCCESS]
  | .sign blob data flags =>
    match m.get? blob with
    | some identity => (signWith prov outside (identity.stored blob) data flags counters).1.getD [SSH_AGENT_FAILURE]
    | none => [SSH_AGENT_FAILURE]
  | .other => [SSH_AGENT_FAILURE]

/-- The counters after a request: a security key counts its attempts. -/
def IdentityMap.counters (m : IdentityMap) (prov : Provider) (outside : Outside) (counters : JString → ℤ) :
    Request → JString → ℤ
  | .sign blob data flags =>
    match m.get? blob with
    | some identity => (signWith prov outside (identity.stored blob) data flags counters).2
    | none => counters
  | _ => counters

/-- Requests one at a time: the replies and the map then. -/
def IdentityMap.run (prov : Provider) (outside : ℕ → Outside) :
    ℕ → IdentityMap → (JString → ℤ) → List Request → List Bytes × IdentityMap
  | _, m, _, [] => ([], m)
  | k, m, counters, request :: requests =>
    let (replies, m') := IdentityMap.run prov outside (k + 1) (m.update request)
      (m.counters prov (outside k) counters request) requests
    (m.reply prov (outside k) counters request :: replies, m')

/-- The signatures an identity gives on `data`: one of the provider with its private
key, or one of the Keystore after the user was authenticated. -/
inductive SignedBy (prov : Provider) (outside : Outside) (identity : Identity) (data : Bytes) (flags : ℤ) :
    Bytes → Prop
  | software (sshAlgorithm : JString) (javaAlgorithm : JavaAlgorithm) (privateKey : PrivateKey) (signature : Bytes)
      (halg : signatureAlgorithm identity.keyType flags = some (sshAlgorithm, javaAlgorithm))
      (hkey : identity.privateKey = some privateKey) (hsig : prov.sign javaAlgorithm privateKey data = some signature) :
      SignedBy prov outside identity data flags (signResponse (wireBlob sshAlgorithm signature))
  | securityKey (attempt : ℕ) (counter : ℤ) (der payload : Bytes) (htype : identity.keyType = .skEcdsa)
      (hauth : outside.authenticated = true) (hattempt : attempt < 5)
      (hretry : ∀ i < attempt, outside.keystore i = .userNotAuthenticated)
      (hder : outside.keystore attempt = .signature der) (hpayload : skSignResponse counter der = some payload) :
      SignedBy prov outside identity data flags payload

/-- The answer to a SIGN request: a signature by the identity under the blob;
FAILURE if there is none, or if it gives no signature. -/
def SignAnswer (prov : Provider) (outside : Outside) (m : IdentityMap) (blob data : Bytes) (flags : ℤ)
    (reply : Bytes) : Prop :=
  match m.get? blob with
  | none => reply = [SSH_AGENT_FAILURE]
  | some identity => SignedBy prov outside identity data flags reply ∨
      reply = [SSH_AGENT_FAILURE] ∧ ∀ payload, ¬ SignedBy prov outside identity data flags payload

/-- An SSH `mpint` is read as a two's-complement number, no bytes being zero. -/
def mpintValue (bs : Bytes) : ℤ := if bs = [] then 0 else ofByteArray bs

/-- The canonical `mpint` of a number is the shortest one with its value. -/
def CanonicalMpint (n : ℤ) (bs : Bytes) : Prop :=
  mpintValue bs = n ∧ ∀ bs', mpintValue bs' = n → bs.length ≤ bs'.length

/-- How a number is listed: canonically, except that zero is one byte. -/
def ListedMpint (n : ℤ) (bs : Bytes) : Prop := (n ≠ 0 → CanonicalMpint n bs) ∧ (n = 0 → bs = [0])

/-- `blob` is the public part of the identity sent in `message`: the key bytes as they
were sent, or the numbers `e` and `n`, which are sent in the other order. -/
inductive PublicPart (message blob : Bytes) : Prop
  | ed25519 (type publicKey rest : Bytes) (htype : decodeUtf8 type = "ssh-ed25519".toList)
      (hmessage : message.drop 1 = writeString type ++ writeString publicKey ++ rest)
      (hblob : blob = writeString (encodeUtf8 "ssh-ed25519".toList) ++ writeString publicKey)
  | rsa (type nSent eSent rest n e : Bytes) (htype : decodeUtf8 type = "ssh-rsa".toList)
      (hmessage : message.drop 1 = writeString type ++ writeString nSent ++ writeString eSent ++ rest)
      (hblob : blob = writeString (encodeUtf8 "ssh-rsa".toList) ++ writeString e ++ writeString n)
      (hn : ListedMpint (mpintValue nSent) n) (he : ListedMpint (mpintValue eSent) e)

end Tinyhack.Agent
