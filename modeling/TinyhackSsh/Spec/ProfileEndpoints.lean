import TinyhackSsh.Spec.Launch

/-! The requests of `DebugHttpServer` that change the profiles, and the steps of a
`ProfileManager` that these requests and the activities make. -/

namespace Tinyhack.Profiles

structure Request where
  params : String → Option JString
  /-- the JSON object in the body, if there is one -/
  body : Option JObject
  /-- the object under `profile` in it -/
  profile : Option JObject

def Request.object (req : Request) : Option JObject := req.profile.or req.body

/-- The outside's part in `/profiles/create`. -/
structure CreateCall where
  load : LoadCall
  uuid : JString
  now : ℤ

/-- A profile from the query parameters. -/
def paramsProfile (digit : Char → Option ℕ) (call : CreateCall) (params : String → Option JString) :
    ConnectionProfile :=
  let name := (params "name").getD []
  let int (key : String) (fallback : ℤ) : ℤ := ((params key).bind (Launch.parseInt digit)).getD fallback
  { newProfile call.uuid (if name.isEmpty then "New Profile".toList else name)
      (ProfileType.fromString ((params "type").getD "LOCAL".toList)) call.now with
    host := params "host"
    port := int "port" 22
    username := params "username"
    keyName := params "keyName"
    shell := params "shell"
    cwd := params "cwd"
    sshArgs := params "sshArgs"
    color := int "color" DEFAULT_COLOR }

/-- The id the caller chose, else a new one. -/
def requestedId (uuid : JString) (jo : JObject) : JString :=
  match jo.lookup "id".toList with
  | some v => if v.text.isEmpty then uuid else v.text
  | none => uuid

/-- The profile that `/profiles/create` adds. -/
def createdProfile (plat : Platform) (digit : Char → Option ℕ) (call : CreateCall) (req : Request) :
    ConnectionProfile :=
  match req.object with
  | some jo => { fromJson plat call.load jo with id := requestedId call.uuid jo }
  | none => paramsProfile digit call req.params

/-- The id `/profiles/delete` is about. -/
def Request.id (req : Request) : Option JString :=
  (req.params "id").or (req.body.bind fun jo => (jo.lookup "id".toList).map JValue.text)

/-- One call that may change the profiles. -/
inductive Action
  | addProfile (profile : ConnectionProfile)
  | updateProfile (profile : ConnectionProfile)
  | deleteProfile (id : JString)
  | createRequest (call : CreateCall) (req : Request)
  | updateRequest (call : LoadCall) (req : Request)
  | deleteRequest (req : Request)

def step (plat : Platform) (digit : Char → Option ℕ) (st : Store) (a : OpCall × Action) : Option Store :=
  match a.2 with
  | .addProfile profile => some (addProfile plat a.1 profile st)
  | .updateProfile profile => some (updateProfile plat a.1 profile st)
  | .deleteProfile id => some (deleteProfile plat a.1 id st).2
  | .createRequest call req => some (addProfile plat a.1 (createdProfile plat digit call req) st)
  | .updateRequest call req =>
    match req.object with
    | some jo => some (updateProfile plat a.1 (fromJson plat call jo) st)
    -- 400
    | none => some st
  | .deleteRequest req =>
    match req.id with
    | some id => some (deleteProfile plat a.1 id st).2
    | none => some st

end Tinyhack.Profiles
