import TinyhackSsh.Proofs.ProfileSecrets
import TinyhackSsh.Proofs.Wire

/-! A profile on its way through JSON and back, and what the JSON says about the secrets. -/

namespace Tinyhack.Profiles

open Wire

/-- Null for the empty text. -/
def blank (s : Option JString) : Option JString := s.filter fun v => !v.isEmpty

/-- The profile with null for every empty text. -/
def ConnectionProfile.normalize (p : ConnectionProfile) : ConnectionProfile :=
  { p with
    name := blank p.name
    shell := blank p.shell
    umlEnvironment := blank p.umlEnvironment
    cwd := blank p.cwd
    env := blank p.env
    host := blank p.host
    username := blank p.username
    keyName := blank p.keyName
    password := blank p.password
    sshArgs := blank p.sshArgs
    cloudflaredHostname := blank p.cloudflaredHostname
    cloudflaredServiceTokenId := blank p.cloudflaredServiceTokenId
    cloudflaredServiceTokenSecret := blank p.cloudflaredServiceTokenSecret
    cloudflaredDestination := blank p.cloudflaredDestination }

/-- The value of a secret replaced. -/
def ConnectionProfile.withSecret (p : ConnectionProfile) (v : Option JString) : Secret → ConnectionProfile
  | .password => { p with password := v }
  | .serviceToken => { p with cloudflaredServiceTokenSecret := v }

/-- The fields of type `int` hold one, and the memory setting is valid. -/
structure Storable (p : ConnectionProfile) : Prop where
  memory : isValidUmlMemoryMb p.umlMemoryMb = true
  port : -2 ^ 31 ≤ p.port ∧ p.port < 2 ^ 31
  color : -2 ^ 31 ≤ p.color ∧ p.color < 2 ^ 31

section Fields

variable {s : Option JString} {n : ℤ}

theorem blank_blank (s : Option JString) : blank (blank s) = blank s := by
  cases s with
  | none => rfl
  | some v => cases v <;> rfl

theorem nonEmpty_getD (s : Option JString) : nonEmpty (s.getD []) = blank s := by
  cases s with
  | none => rfl
  | some v => cases v <;> rfl

theorem blank_getD (s : Option JString) : blank (some (s.getD [])) = blank s := by
  cases s <;> rfl

theorem fromString_name (t : ProfileType) : ProfileType.fromString t.name = t := by
  cases t <;> decide

theorem authFromString_name (t : AuthType) : AuthType.fromString t.name = t := by
  cases t <;> decide

theorem memory_range (h : isValidUmlMemoryMb n = true) : -2 ^ 31 ≤ n ∧ n < 2 ^ 31 := by
  simp only [isValidUmlMemoryMb, Bool.or_eq_true, Bool.and_eq_true, decide_eq_true_eq] at h
  omega

end Fields

section RoundTrip

variable {plat : Platform} {calls : Secret → EncryptCall} {call : LoadCall} {p : ConnectionProfile}

/-- A working Keystore gives the secrets back. -/
theorem optSecret_toJson (plat : Platform) (p : ConnectionProfile) (hcalls : ∀ f, (calls f).fails = false)
    (f : Secret) :
    optSecret plat false (toJson plat calls p) f.encName f.plainName = blank (p.secret f) := by
  have hstored := storedSecret_toJson plat calls p f
  rw [hcalls f] at hstored
  exact hstored

/-- What is read is the profile with null for its empty texts, except that the name is never null. -/
theorem fromJson_toJson (hp : Storable p) (hcalls : ∀ f, (calls f).fails = false) (hcall : ∀ f, call.fails f = false) :
    fromJson plat call (toJson plat calls p) = { p.normalize with name := some (p.name.getD []) } := by
  have hpassword := optSecret_toJson plat p hcalls .password
  have htoken := optSecret_toJson plat p hcalls .serviceToken
  have hmemory : optInt plat (toJson plat calls p) "umlMemoryMb" 0 = p.umlMemoryMb :=
    wrap32_eq (memory_range hp.memory).1 (memory_range hp.memory).2
  have hport : optInt plat (toJson plat calls p) "port" 22 = p.port := wrap32_eq hp.port.1 hp.port.2
  have hcolor : optInt plat (toJson plat calls p) "color" DEFAULT_COLOR = p.color := wrap32_eq hp.color.1 hp.color.2
  have htext (name : String) (s : Option JString) (h : optString (toJson plat calls p) name [] = s.getD []) :
      optNonEmpty (toJson plat calls p) name = blank s := by
    rw [optNonEmpty, h, nonEmpty_getD]
  have htype : ProfileType.fromString (optString (toJson plat calls p) "type" "LOCAL".toList) = p.type :=
    fromString_name p.type
  have hauth : AuthType.fromString (optString (toJson plat calls p) "authType" "NONE".toList) = p.authType :=
    authFromString_name p.authType
  simp only [fromJson, hcall, hmemory, hp.memory, if_true, hport, hcolor, htype, hauth]
  rw [htext "shell" p.shell rfl, htext "umlEnvironment" p.umlEnvironment rfl, htext "cwd" p.cwd rfl,
    htext "env" p.env rfl, htext "host" p.host rfl, htext "username" p.username rfl, htext "keyName" p.keyName rfl,
    htext "sshArgs" p.sshArgs rfl, htext "cloudflaredHostname" p.cloudflaredHostname rfl,
    htext "cloudflaredServiceTokenId" p.cloudflaredServiceTokenId rfl,
    htext "cloudflaredDestination" p.cloudflaredDestination rfl]
  change ConnectionProfile.mk _ _ _ _ _ _ _ _ _ _ _ _ _ _ _ (optSecret plat false _ Secret.password.encName
    Secret.password.plainName) _ _ _ _ _ _ _ _ (optSecret plat false _ Secret.serviceToken.encName
    Secret.serviceToken.plainName) _ _ = _
  rw [hpassword, htoken]
  rfl

end RoundTrip

/-- Only the result of `encrypt` goes into the JSON. -/
theorem toJson_withSecret {plat : Platform} {calls : Secret → EncryptCall} {p : ConnectionProfile} {f : Secret}
    {v : Option JString} (h : encrypt plat (calls f) v = encrypt plat (calls f) (p.secret f)) :
    toJson plat calls (p.withSecret v f) = toJson plat calls p := by
  cases f with
  | password =>
    change encrypt plat (calls .password) v = encrypt plat (calls .password) p.password at h
    simp only [toJson, ConnectionProfile.withSecret, h]
  | serviceToken =>
    change encrypt plat (calls .serviceToken) v =
      encrypt plat (calls .serviceToken) p.cloudflaredServiceTokenSecret at h
    simp only [toJson, ConnectionProfile.withSecret, h]

theorem encrypt_fails {plat : Platform} {call : EncryptCall} (h : call.fails = true) (v : Option JString) :
    encrypt plat call v = none := by
  cases v with
  | none => rfl
  | some v => simp [encrypt, h]

/-- With a working Keystore a profile comes back from JSON as it was, up to null for empty
texts; and always the JSON is the same for two values of a secret that `encrypt` maps to
one text, so for all values where it fails. -/
theorem profile_json_faithful (plat : Platform) (p : ConnectionProfile) (hp : Storable p) :
    (∀ calls call, (∀ f, EncryptCall.fails (calls f) = false) → (∀ f, LoadCall.fails call f = false) →
      (fromJson plat call (toJson plat calls p)).normalize = p.normalize) ∧
    (∀ calls f v, encrypt plat (calls f) v = encrypt plat (calls f) (p.secret f) →
      toJson plat calls (p.withSecret v f) = toJson plat calls p) ∧
    (∀ calls f v, EncryptCall.fails (calls f) = true → toJson plat calls (p.withSecret v f) = toJson plat calls p) := by
  refine ⟨?_, ?_, ?_⟩
  · intro calls call hcalls hcall
    rw [fromJson_toJson hp hcalls hcall]
    simp [ConnectionProfile.normalize, blank_blank, blank_getD]
  · intro calls f v h
    exact toJson_withSecret h
  · intro calls f v h
    exact toJson_withSecret ((encrypt_fails h v).trans (encrypt_fails h _).symm)

theorem profile_json_faithful_password :
    (fromJson samplePlatform ⟨fun _ => false, [], 0, 0⟩ (toJson samplePlatform (fun _ => sampleEncrypt false)
      profileB)).normalize = profileB.normalize ∧
    toJson samplePlatform (fun _ => sampleEncrypt true) (profileB.withSecret (some "other".toList) .password) =
      toJson samplePlatform (fun _ => sampleEncrypt true) profileB :=
  have h := profile_json_faithful samplePlatform profileB ⟨by decide, by decide, by decide⟩
  ⟨h.1 _ _ (fun _ => rfl) (fun _ => rfl), h.2.2 _ .password (some "other".toList) rfl⟩

end Tinyhack.Profiles
