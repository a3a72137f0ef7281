import TinyhackSsh.Spec.Launch

/-! `ConnectionProfilesActivity`: the dialog that edits a profile of the list, and the copy
of a profile. The dialog works on the object that the list shows. -/

namespace Tinyhack.Profiles

open Launch

/-- What the dialog shows when the button is pressed. -/
structure Form where
  name : JString
  type : ProfileType
  /-- none for the Android shell, the first entry -/
  umlEnvironment : Option JString
  memory : JString
  shell : JString
  cwd : JString
  env : JString
  kittyGraphics : Bool
  osc52 : Bool
  notifications : Bool
  host : JString
  port : JString
  user : JString
  auth : AuthType
  /-- none for the entry `(none)` -/
  key : Option JString
  sshArgs : JString
  agentForwarding : Bool
  cloudflared : Bool
  cfHost : JString
  cfId : JString
  cfSecret : JString
  cfDestination : JString

/-- The memory that the form asks for, if it is one. -/
def Form.memoryMb (app : App) (form : Form) : Option ℤ :=
  if form.type = .LOCAL ∧ form.umlEnvironment.isSome ∧ ¬ (trim form.memory).isEmpty then
    (parseInt app.digit (trim form.memory)).filter fun memoryMb => memoryMb ≠ 0 && isValidUmlMemoryMb memoryMb
  else some 0

def Form.portNumber (app : App) (form : Form) : ℤ :=
  match parseInt app.digit (trim form.port) with
  | some p => if p > 0 then p else 22
  | none => 22

def setHeader (form : Form) (p : ConnectionProfile) : ConnectionProfile :=
  { p with
    name := some (trim form.name)
    type := form.type
    kittyGraphicsEnabled := form.kittyGraphics
    osc52ClipboardEnabled := form.osc52
    terminalNotificationsEnabled := form.notifications }

/-- With the fields of a connection cleared. -/
def setLocal (form : Form) (memoryMb : ℤ) (p : ConnectionProfile) : ConnectionProfile :=
  { p with
    umlEnvironment := form.umlEnvironment
    umlMemoryMb := memoryMb
    shell := nonEmpty (trim form.shell)
    cwd := nonEmpty (trim form.cwd)
    env := nonEmpty (trim form.env)
    host := none
    username := none
    keyName := none
    agentForwardingEnabled := false
    cloudflaredEnabled := false
    cloudflaredHostname := none
    cloudflaredServiceTokenId := none
    cloudflaredServiceTokenSecret := none
    cloudflaredDestination := none }

def Form.cfEnabled (form : Form) : Bool := form.type = .SSH && form.cloudflared

def setConnection (app : App) (form : Form) (p : ConnectionProfile) : ConnectionProfile :=
  { p with
    host := some (trim form.host)
    port := form.portNumber app
    username := nonEmpty (trim form.user)
    authType := form.auth
    keyName := form.key
    sshArgs := nonEmpty (trim form.sshArgs)
    agentForwardingEnabled := form.agentForwarding
    cloudflaredEnabled := form.cfEnabled }

def setHostname (form : Form) (p : ConnectionProfile) : ConnectionProfile :=
  { p with cloudflaredHostname := nonEmpty (trim form.cfHost) }

def setToken (form : Form) (p : ConnectionProfile) : ConnectionProfile :=
  { p with
    cloudflaredServiceTokenId := nonEmpty (trim form.cfId)
    cloudflaredServiceTokenSecret := nonEmpty (trim form.cfSecret) }

def setDestination (form : Form) (p : ConnectionProfile) : ConnectionProfile :=
  { p with cloudflaredDestination := nonEmpty (trim form.cfDestination) }

def clearCloudflared (p : ConnectionProfile) : ConnectionProfile :=
  { p with
    cloudflaredHostname := none
    cloudflaredServiceTokenId := none
    cloudflaredServiceTokenSecret := none
    cloudflaredDestination := none }

/-- The fields of the Cloudflare tunnel, in the order in which they are checked and set. -/
def saveTunnel (app : App) (form : Form) (p : ConnectionProfile) : ConnectionProfile × Option JString :=
  let cfHost := trim form.cfHost
  match if cfHost.isEmpty then none else hostValidationError (some cfHost) "Cloudflared hostname".toList with
  | some cfErr => (p, some cfErr)
  | none =>
    let p := setHostname form p
    if (trim form.cfId).isEmpty ≠ (trim form.cfSecret).isEmpty then
      (p, some "Cloudflare service token ID and secret must both be set".toList)
    else
      let p := setToken form p
      match destinationValidationError app (some (trim form.cfDestination)) with
      | some destErr => (p, some destErr)
      | none => (setDestination form p, none)

/-- The click listener of the button: the object as it leaves it, and the message if it
rejects the form. -/
def saveForm (app : App) (form : Form) (p : ConnectionProfile) : ConnectionProfile × Option JString :=
  if (trim form.name).isEmpty then (p, some "Name cannot be empty".toList)
  else
    match form.memoryMb app with
    | none => (p, some "Enter 256–65536 MiB, or leave blank for the environment default".toList)
    | some memoryMb =>
      let p := setHeader form p
      if form.type = .LOCAL then (setLocal form memoryMb p, none)
      else if (trim form.host).isEmpty then (p, some ("Host required for ".toList ++ form.type.name))
      else
        match hostValidationError (some (trim form.host)) "Host".toList with
        | some hostErr => (p, some hostErr)
        | none =>
          let p := setConnection app form p
          if form.cfEnabled then saveTunnel app form p else (clearCloudflared p, none)

/-- The dialog over a profile of the list. -/
structure Editor where
  profile : ConnectionProfile
  store : Store
  isOpen : Bool

/-- The outside's part in one press of the button. -/
structure SubmitCall where
  now : ℤ
  op : OpCall

def submit (plat : Platform) (app : App) (e : Editor) (s : SubmitCall × Form) : Editor :=
  match saveForm app s.2 e.profile with
  | (p, some _) => { e with profile := p }
  | (p, none) =>
    let p := { p with updatedAt := s.1.now }
    ⟨p, updateProfile plat s.1.op p e.store, false⟩

def cancel (e : Editor) : Editor := { e with isOpen := false }

/-- The outside's part in `onProfileDuplicate`. -/
structure DuplicateCall where
  encrypts : Secret → EncryptCall
  load : LoadCall
  uuid : JString
  createdNow : ℤ
  updatedNow : ℤ
  op : OpCall

def copyOf (plat : Platform) (call : DuplicateCall) (p : ConnectionProfile) : ConnectionProfile :=
  { fromJson plat call.load (toJson plat call.encrypts p) with
    id := call.uuid
    name := some (p.name.getD "null".toList ++ " Copy".toList)
    createdAt := call.createdNow
    updatedAt := call.updatedNow }

def onProfileDuplicate (plat : Platform) (call : DuplicateCall) (e : Editor) : Editor :=
  { e with store := addProfile plat call.op (copyOf plat call e.profile) e.store }

end Tinyhack.Profiles
