import TinyhackSsh.Lib.Base64
import TinyhackSsh.Spec.Wire

/-! `ProfileCrypto`, `ConnectionProfile.toJson` and `fromJson`, and
`ProfileManager`. Stored text is kept as the JSON it parses to. Every Keystore
call may fail on its own, so each `encrypt` and `decrypt` is told by its caller
whether it does; the clock, fresh ids and IVs are inputs in the same way. -/

namespace Tinyhack.Profiles

open Wire

/-- AES-GCM under the Keystore key, and `Double.parseDouble` cast to `int` and `long`. -/
structure Platform where
  gcmEncrypt : Bytes → Bytes → Bytes
  gcmDecrypt : Bytes → Bytes → Option Bytes
  gcmDecrypt_gcmEncrypt : ∀ iv plain, gcmDecrypt iv (gcmEncrypt iv plain) = some plain
  parseInt : JString → Option ℤ
  parseLong : JString → Option ℤ

/-! `ProfileCrypto`. -/

def PREFIX : JString := "v1:".toList

def IV_LEN : ℕ := 12

def isEncrypted (value : JString) : Bool := PREFIX.isPrefixOf value

/-- The Keystore's part in one call of `encrypt`: whether it fails, else the fresh IV. -/
structure EncryptCall where
  fails : Bool
  iv : { iv : Bytes // iv.length = IV_LEN }

def encrypt (plat : Platform) (call : EncryptCall) (plain : Option JString) : Option JString :=
  match plain with
  | none => none
  | some plain =>
    if plain.isEmpty || call.fails then none
    else some (PREFIX ++ Base64.encode call.iv ++ ':' ::
      Base64.encode (plat.gcmEncrypt call.iv (encodeUtf8 plain)))

/-- `split(":", 2)` when it gives two parts. -/
def splitColon (s : JString) : Option (JString × JString) :=
  match s.dropWhile (· ≠ ':') with
  | [] => none
  | _ :: rest => some (s.takeWhile (· ≠ ':'), rest)

def decrypt (plat : Platform) (fails : Bool) (value : JString) : Option JString :=
  if !isEncrypted value then none
  else do
    let (first, second) ← splitColon (value.drop PREFIX.length)
    let iv ← Base64.decode first
    let ct ← Base64.decode second
    if iv.length ≠ IV_LEN || fails then none
    else
      let plain ← plat.gcmDecrypt iv ct
      some (decodeUtf8 plain)

/-! JSON objects as `org.json` reads them. -/

inductive JValue
  | str (s : JString)
  | num (n : ℤ)
  | bool (b : Bool)
  | null
  /-- a nested value or a fraction: its text, and the number it truncates to -/
  | other (text : JString) (number : Option ℤ)
  deriving DecidableEq

abbrev JObject := List (JString × JValue)

def JValue.text : JValue → JString
  | .str s => s
  | .num n => (toString n).toList
  | .bool b => (toString b).toList
  | .null => "null".toList
  | .other text _ => text

def optString (o : JObject) (name : String) (fallback : JString) : JString :=
  match o.lookup name.toList with
  | some v => v.text
  | none => fallback

def optLong (plat : Platform) (o : JObject) (name : String) (fallback : ℤ) : ℤ :=
  match o.lookup name.toList with
  | some (.num n) => n
  | some (.other _ (some n)) => n
  | some (.str s) => (plat.parseLong s).getD fallback
  | _ => fallback

def optInt (plat : Platform) (o : JObject) (name : String) (fallback : ℤ) : ℤ :=
  match o.lookup name.toList with
  | some (.num n) => wrap32 n
  | some (.other _ (some n)) => wrap32 n
  | some (.str s) => (plat.parseInt s).getD fallback
  | _ => fallback

/-- Upper case, of the characters whose upper case is an ASCII letter. -/
def upperChar (c : Char) : Char := if c = 'ſ' then 'S' else c.toUpper

/-- `toUpperCase(Locale.ROOT)`, likewise; `ß` becomes two letters. -/
def toUpperCase (s : JString) : JString := s.flatMap fun c => if c = 'ß' then "SS".toList else [upperChar c]

def optBoolean (o : JObject) (name : String) (fallback : Bool) : Bool :=
  match o.lookup name.toList with
  | some (.bool b) => b
  | some (.str s) =>
    -- `equalsIgnoreCase`
    if s.map upperChar = "TRUE".toList then true
    else if s.map upperChar = "FALSE".toList then false
    else fallback
  | _ => fallback

/-! `ConnectionProfile`. -/

inductive ProfileType
  | LOCAL
  | SSH
  | MOSH
  deriving DecidableEq

def ProfileType.name : ProfileType → JString
  | .LOCAL => "LOCAL".toList
  | .SSH => "SSH".toList
  | .MOSH => "MOSH".toList

def ProfileType.fromString (s : JString) : ProfileType :=
  if toUpperCase s = "SSH".toList then .SSH
  else if toUpperCase s = "MOSH".toList then .MOSH
  else .LOCAL

inductive AuthType
  | NONE
  | PASSWORD
  | KEY
  deriving DecidableEq

def AuthType.name : AuthType → JString
  | .NONE => "NONE".toList
  | .PASSWORD => "PASSWORD".toList
  | .KEY => "KEY".toList

def AuthType.fromString (s : JString) : AuthType :=
  if toUpperCase s = "PASSWORD".toList then .PASSWORD
  else if toUpperCase s = "KEY".toList then .KEY
  else .NONE

structure ConnectionProfile where
  id : JString
  name : Option JString
  type : ProfileType
  createdAt : ℤ
  updatedAt : ℤ
  shell : Option JString
  umlEnvironment : Option JString
  umlMemoryMb : ℤ
  cwd : Option JString
  env : Option JString
  host : Option JString
  port : ℤ
  username : Option JString
  authType : AuthType
  keyName : Option JString
  password : Option JString
  sshArgs : Option JString
  agentForwardingEnabled : Bool
  kittyGraphicsEnabled : Bool
  osc52ClipboardEnabled : Bool
  terminalNotificationsEnabled : Bool
  cloudflaredEnabled : Bool
  cloudflaredHostname : Option JString
  cloudflaredServiceTokenId : Option JString
  cloudflaredServiceTokenSecret : Option JString
  cloudflaredDestination : Option JString
  color : ℤ
  deriving DecidableEq

/-- The two fields kept encrypted. -/
inductive Secret
  | password
  | serviceToken
  deriving DecidableEq

def ConnectionProfile.secret (p : ConnectionProfile) : Secret → Option JString
  | .password => p.password
  | .serviceToken => p.cloudflaredServiceTokenSecret

/-- `0xFF4D90FE` as an `int`. -/
def DEFAULT_COLOR : ℤ := wrap32 0xFF4D90FE

/-- `new ConnectionProfile(name, type)`. -/
def newProfile (id name : JString) (type : ProfileType) (now : ℤ) : ConnectionProfile where
  id := id
  name := some name
  type := type
  createdAt := now
  updatedAt := now
  shell := none
  umlEnvironment := none
  umlMemoryMb := 0
  cwd := none
  env := none
  host := none
  port := 22
  username := none
  authType := .NONE
  keyName := none
  password := none
  sshArgs := none
  agentForwardingEnabled := false
  kittyGraphicsEnabled := false
  osc52ClipboardEnabled := false
  terminalNotificationsEnabled := false
  cloudflaredEnabled := false
  cloudflaredHostname := none
  cloudflaredServiceTokenId := none
  cloudflaredServiceTokenSecret := none
  cloudflaredDestination := none
  color := DEFAULT_COLOR

def isValidUmlMemoryMb (value : ℤ) : Bool := value = 0 || (256 ≤ value && value ≤ 65536)

/-- `s != null ? s : ""`. -/
def orEmpty (s : Option JString) : JValue := .str (s.getD [])

def toJson (plat : Platform) (calls : Secret → EncryptCall) (p : ConnectionProfile) : JObject :=
  [("id".toList, .str p.id),
   ("name".toList, orEmpty p.name),
   ("type".toList, .str p.type.name),
   ("createdAt".toList, .num p.createdAt),
   ("updatedAt".toList, .num p.updatedAt),
   ("shell".toList, orEmpty p.shell),
   ("umlEnvironment".toList, orEmpty p.umlEnvironment),
   ("umlMemoryMb".toList, .num p.umlMemoryMb),
   ("cwd".toList, orEmpty p.cwd),
   ("env".toList, orEmpty p.env),
   ("host".toList, orEmpty p.host),
   ("port".toList, .num p.port),
   ("username".toList, orEmpty p.username),
   ("authType".toList, .str p.authType.name),
   ("keyName".toList, orEmpty p.keyName),
   ("passwordEnc".toList, orEmpty (encrypt plat (calls .password) p.password)),
   ("sshArgs".toList, orEmpty p.sshArgs),
   ("agentForwardingEnabled".toList, .bool p.agentForwardingEnabled),
   ("kittyGraphicsEnabled".toList, .bool p.kittyGraphicsEnabled),
   ("osc52ClipboardEnabled".toList, .bool p.osc52ClipboardEnabled),
   ("terminalNotificationsEnabled".toList, .bool p.terminalNotificationsEnabled),
   ("cloudflaredEnabled".toList, .bool p.cloudflaredEnabled),
   ("cloudflaredHostname".toList, orEmpty p.cloudflaredHostname),
   ("cloudflaredServiceTokenId".toList, orEmpty p.cloudflaredServiceTokenId),
   ("cloudflaredServiceTokenSecretEnc".toList,
     orEmpty (encrypt plat (calls .serviceToken) p.cloudflaredServiceTokenSecret)),
   ("cloudflaredServiceTokenSecret".toList, .str []),
   ("cloudflaredDestination".toList, orEmpty p.cloudflaredDestination),
   ("color".toList, .num p.color)]

/-- `s.isEmpty() ? null : s`. -/
def nonEmpty (s : JString) : Option JString := if s.isEmpty then none else some s

def optNonEmpty (o : JObject) (name : String) : Option JString := nonEmpty (optString o name [])

/-- A secret field: the encrypted text if there is one, else the legacy plain text. -/
def optSecret (plat : Platform) (fails : Bool) (o : JObject) (encName plainName : String) : Option JString :=
  let s := optString o encName []
  if s.isEmpty then optNonEmpty o plainName else decrypt plat fails s

/-- The outside's part in one call of `fromJson`. -/
structure LoadCall where
  fails : Secret → Bool
  uuid : JString
  createdNow : ℤ
  updatedNow : ℤ

def fromJson (plat : Platform) (call : LoadCall) (o : JObject) : ConnectionProfile :=
  let memoryMb := optInt plat o "umlMemoryMb" 0
  { id := optString o "id" call.uuid
    name := some (optString o "name" "Unnamed".toList)
    type := ProfileType.fromString (optString o "type" "LOCAL".toList)
    createdAt := optLong plat o "createdAt" call.createdNow
    updatedAt := optLong plat o "updatedAt" call.updatedNow
    shell := optNonEmpty o "shell"
    umlEnvironment := optNonEmpty o "umlEnvironment"
    umlMemoryMb := if isValidUmlMemoryMb memoryMb then memoryMb else 0
    cwd := optNonEmpty o "cwd"
    env := optNonEmpty o "env"
    host := optNonEmpty o "host"
    port := optInt plat o "port" 22
    username := optNonEmpty o "username"
    authType := AuthType.fromString (optString o "authType" "NONE".toList)
    keyName := optNonEmpty o "keyName"
    password := optSecret plat (call.fails .password) o "passwordEnc" "password"
    sshArgs := optNonEmpty o "sshArgs"
    agentForwardingEnabled := optBoolean o "agentForwardingEnabled" false
    kittyGraphicsEnabled := optBoolean o "kittyGraphicsEnabled" false
    osc52ClipboardEnabled := optBoolean o "osc52ClipboardEnabled" false
    terminalNotificationsEnabled := optBoolean o "terminalNotificationsEnabled" false
    cloudflaredEnabled := optBoolean o "cloudflaredEnabled" false
    cloudflaredHostname := optNonEmpty o "cloudflaredHostname"
    cloudflaredServiceTokenId := optNonEmpty o "cloudflaredServiceTokenId"
    cloudflaredServiceTokenSecret :=
      optSecret plat (call.fails .serviceToken) o "cloudflaredServiceTokenSecretEnc" "cloudflaredServiceTokenSecret"
    cloudflaredDestination := optNonEmpty o "cloudflaredDestination"
    color := optInt plat o "color" DEFAULT_COLOR }

/-! `ProfileManager`. -/

inductive Element
  | object (o : JObject)
  /-- `getJSONObject` throws -/
  | other
  deriving DecidableEq

/-- Non-empty stored text. -/
inductive Text
  /-- `new JSONArray` throws -/
  | broken
  | array (elements : List Element)
  deriving DecidableEq

/-- The preference and `profiles.json`; `none` when missing, unreadable or empty. -/
structure Store where
  prefs : Option Text
  file : Option Text
  deriving DecidableEq

/-- One call of `saveProfiles`: the Keystore calls by position, and what a failed
write leaves in the file. -/
structure SaveCall where
  encrypts : ℕ → Secret → EncryptCall
  fileFails : Option (Option Text)

structure DefaultsCall where
  uuid : JString
  now : ℤ
  save : SaveCall

/-- The outside's part in one operation of the manager. -/
structure OpCall where
  load : ℕ → LoadCall
  loadDefaults : DefaultsCall
  touchNow : ℤ
  save : SaveCall
  deleteDefaults : DefaultsCall

def saveProfiles (plat : Platform) (call : SaveCall) (profiles : List ConnectionProfile) : Store :=
  let text := Text.array (profiles.mapIdx fun i p => .object (toJson plat (call.encrypts i) p))
  { prefs := some text
    file := match call.fileFails with
      | none => some text
      | some left => left }

def createDefaultProfiles (plat : Platform) (call : DefaultsCall) : List ConnectionProfile × Store :=
  let list := [newProfile call.uuid "Local shell".toList .LOCAL call.now]
  (list, saveProfiles plat call.save list)

/-- The objects of an array without other elements. -/
def objects : List Element → Option (List JObject)
  | [] => some []
  | .object o :: elements => (objects elements).map (o :: ·)
  | .other :: _ => none

/-- The stored objects, if the text can be read. -/
def Store.objects (st : Store) : Option (List JObject) :=
  match st.prefs.or st.file with
  | some (.array elements) => Profiles.objects elements
  | _ => none

def loadProfiles (plat : Platform) (call : OpCall) (st : Store) : List ConnectionProfile × Store :=
  match st.objects with
  | some (o :: os) => ((o :: os).mapIdx fun i o => fromJson plat (call.load i) o, st)
  | _ => createDefaultProfiles plat call.loadDefaults

def addProfile (plat : Platform) (call : OpCall) (profile : ConnectionProfile) (st : Store) : Store :=
  let (list, _) := loadProfiles plat call st
  saveProfiles plat call.save (list ++ [profile])

def updateProfile (plat : Platform) (call : OpCall) (profile : ConnectionProfile) (st : Store) : Store :=
  let (list, _) := loadProfiles plat call st
  match list.findIdx? fun p => p.id = profile.id with
  | some i => saveProfiles plat call.save (list.set i { profile with updatedAt := call.touchNow })
  | none => saveProfiles plat call.save (list ++ [profile])

def deleteProfile (plat : Platform) (call : OpCall) (id : JString) (st : Store) : Bool × Store :=
  let (list, loaded) := loadProfiles plat call st
  match list.findIdx? fun p => p.id = id with
  | some i =>
    if (list.eraseIdx i).isEmpty then (true, (createDefaultProfiles plat call.deleteDefaults).2)
    else (true, saveProfiles plat call.save (list.eraseIdx i))
  | none => (false, loaded)

/-- With the store that loading leaves. -/
def getProfile (plat : Platform) (call : OpCall) (id : JString) (st : Store) : Option ConnectionProfile × Store :=
  let (list, loaded) := loadProfiles plat call st
  (list.find? fun p => p.id = id, loaded)

end Tinyhack.Profiles
