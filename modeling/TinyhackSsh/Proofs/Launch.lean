import TinyhackSsh.Spec.Launch

/-! The sessions of remote profiles: which of them start ssh or mosh, with which
destination, and what their arguments tell about the secrets of the profile. -/

namespace Tinyhack.Launch

open Profiles

section Sessions

variable {app : App} {profile : ConnectionProfile} {proxy : List JString} {envp : Option (List JString)}

theorem arguments_refuse (script : String) (args : List JString) :
    (app.refuse profile script args).arguments = some ("sh".toList :: "-c".toList :: script.toList :: args) := rfl

theorem arguments_fallback :
    (app.fallback profile).arguments = none ∨ (app.fallback profile).arguments = some ["bash".toList, "-l".toList] := by
  unfold App.fallback createSessionInternal
  dsimp only
  split_ifs
  · exact Or.inr rfl
  · exact Or.inl rfl

/-- A session that runs neither ssh nor mosh. -/
def Plain (s : TerminalSession) : Prop := ∀ program args, s.arguments = some (program :: args) →
  program ≠ "ssh".toList ∧ program ≠ "mosh".toList

theorem Plain.head? {s : TerminalSession} {argv : List JString} (h : Plain s) (hargv : s.arguments = some argv) :
    argv.head? ≠ some "ssh".toList ∧ argv.head? ≠ some "mosh".toList := by
  cases argv with
  | nil => exact ⟨nofun, nofun⟩
  | cons program args =>
    obtain ⟨hssh, hmosh⟩ := h program args hargv
    exact ⟨fun heq => hssh (Option.some.inj heq), fun heq => hmosh (Option.some.inj heq)⟩

theorem refuse_plain (script : String) (args : List JString) : Plain (app.refuse profile script args) := by
  intro program rest h
  rw [arguments_refuse] at h
  obtain ⟨rfl, -⟩ := List.cons.inj (Option.some.inj h)
  decide

theorem fallback_plain : Plain (app.fallback profile) := by
  intro program args h
  have hcases : (app.fallback profile).arguments = none ∨ _ := arguments_fallback
  rcases hcases with hf | hf
  · rw [hf] at h
    cases h
  · rw [hf] at h
    obtain ⟨rfl, -⟩ := List.cons.inj (Option.some.inj h)
    decide

theorem sshSession_cases : Plain (sshSession app profile proxy envp) ∨
    (sshSession app profile proxy envp).arguments = some (sshArgs app profile proxy) := by
  unfold sshSession
  split_ifs
  · exact Or.inl fallback_plain
  · exact Or.inr rfl

/-- The options for cloudflared. -/
def IsProxy (app : App) (profile : ConnectionProfile) (proxy : List JString) : Prop :=
  proxy = [] ∨ proxy = ["-o".toList, "ProxyCommand=".toList ++ proxyCommand app profile]

theorem cloudflaredSession_cases : Plain (cloudflaredSession app profile) ∨
    ∃ proxy, IsProxy app profile proxy ∧
      (cloudflaredSession app profile).arguments = some (sshArgs app profile proxy) := by
  unfold cloudflaredSession
  dsimp only
  split
  · exact Or.inl (refuse_plain _ _)
  · split_ifs
    · exact sshSession_cases.imp_right fun h => ⟨[], Or.inl rfl, h⟩
    · exact Or.inl (refuse_plain _ _)
    · exact sshSession_cases.imp_right fun h => ⟨_, Or.inr rfl, h⟩

/-- An SSH profile starts ssh with the arguments of `sshArgs`, or something else. -/
theorem ssh_cases (htype : profile.type = .SSH) : Plain (createSessionForProfile app (some profile)) ∨
    ∃ proxy, IsProxy app profile proxy ∧
      (createSessionForProfile app (some profile)).arguments = some (sshArgs app profile proxy) := by
  simp only [createSessionForProfile, htype, remoteSession]
  split_ifs
  · exact Or.inl (refuse_plain _ _)
  · exact Or.inl (refuse_plain _ _)
  · contradiction
  · exact cloudflaredSession_cases
  · exact sshSession_cases.imp_right fun h => ⟨[], Or.inl rfl, h⟩

theorem mosh_cases (htype : profile.type = .MOSH) : Plain (createSessionForProfile app (some profile)) ∨
    (createSessionForProfile app (some profile)).arguments = some (moshArgs app profile) := by
  simp only [createSessionForProfile, htype, remoteSession, moshSession]
  split_ifs
  · exact Or.inl (refuse_plain _ _)
  · exact Or.inl (refuse_plain _ _)
  · exact Or.inl fallback_plain
  · exact Or.inr rfl

/-- The arguments of an SSH profile that runs one of the two programs. -/
theorem ssh_arguments {argv : List JString} (htype : profile.type = .SSH)
    (hargv : (createSessionForProfile app (some profile)).arguments = some argv)
    (hhead : argv.head? = some "ssh".toList ∨ argv.head? = some "mosh".toList) :
    ∃ proxy, IsProxy app profile proxy ∧ argv = sshArgs app profile proxy := by
  rcases ssh_cases htype with hplain | ⟨proxy, hproxy, hssh⟩
  · exact absurd hhead (not_or.mpr (hplain.head? hargv))
  · exact ⟨proxy, hproxy, Option.some.inj (hargv.symm.trans hssh)⟩

theorem mosh_arguments {argv : List JString} (htype : profile.type = .MOSH)
    (hargv : (createSessionForProfile app (some profile)).arguments = some argv)
    (hhead : argv.head? = some "ssh".toList ∨ argv.head? = some "mosh".toList) : argv = moshArgs app profile := by
  rcases mosh_cases htype with hplain | hmosh
  · exact absurd hhead (not_or.mpr (hplain.head? hargv))
  · exact Option.some.inj (hargv.symm.trans hmosh)

theorem getLast?_sshArgs : (sshArgs app profile proxy).tail.getLast? = some (target profile) := by
  rw [sshArgs, List.tail_cons, List.getLast?_append]
  rfl

theorem getLast?_moshArgs : (moshArgs app profile).tail.getLast? = some (target profile) := by
  change (["--ssh=".toList ++ moshSshCommand app profile] ++ _ ++ extraArgs profile ++ [target profile]).getLast? = _
  rw [List.getLast?_append]
  rfl

end Sessions

/-- The user, or the host where there is no user, does not begin with a dash. -/
def DashFree (profile : ConnectionProfile) : Prop :=
  if (userOf profile).isEmpty then (hostOf profile).head? ≠ some '-' else (userOf profile).head? ≠ some '-'

theorem head?_target (profile : ConnectionProfile) : (target profile).head? ≠ some '-' ↔ DashFree profile := by
  unfold target DashFree
  cases hu : userOf profile with
  | nil => simp
  | cons c user => simp

/-- The last argument of ssh and of mosh is the destination. It does not begin with a
dash just when the user does not, or, without a user, the host. -/
theorem destination_no_dash (app : App) (profile : ConnectionProfile) (program : JString) (args : List JString)
    (htype : profile.type ≠ .LOCAL)
    (hargs : (createSessionForProfile app (some profile)).arguments = some (program :: args))
    (hprogram : program = "ssh".toList ∨ program = "mosh".toList) :
    (∃ operand, args.getLast? = some operand ∧ operand.head? ≠ some '-') ↔ DashFree profile := by
  have hhead : (program :: args).head? = some "ssh".toList ∨ (program :: args).head? = some "mosh".toList :=
    hprogram.imp (congrArg some) (congrArg some)
  have hlast : (program :: args).tail.getLast? = some (target profile) := by
    cases ht : profile.type with
    | LOCAL => exact absurd ht htype
    | SSH =>
      obtain ⟨proxy, -, hssh⟩ := ssh_arguments ht hargs hhead
      rw [hssh]
      exact getLast?_sshArgs
    | MOSH =>
      rw [mosh_arguments ht hargs hhead]
      exact getLast?_moshArgs
  rw [List.tail_cons] at hlast
  rw [← head?_target, hlast]
  simp

/-- A device with the two programs and no other file. -/
def sampleApp : App where
  nativeLibraryDir := "/lib".toList
  filesDir := "/files".toList
  fileExists path := path = "/lib/libssh.so".toList || path = "/lib/libmosh.so".toList
  isDirectory _ := false
  canExecute _ := false
  isAndroidSecurityKey _ := false
  agentEnv := none
  digit _ := none
  nativeLibraryDir_noSpace := by decide
  filesDir_noSpace := by decide

/-- `user@example` over SSH. -/
def sampleProfile (user : String) : ConnectionProfile :=
  { newProfile "a".toList "A".toList .SSH 0 with host := some "example".toList, username := some user.toList }

theorem destination_no_dash_user :
    (∃ operand, ["-o".toList, "ForwardAgent=no".toList, "me@example".toList].getLast? = some operand ∧
      operand.head? ≠ some '-') ↔ DashFree (sampleProfile "me") :=
  destination_no_dash sampleApp (sampleProfile "me") "ssh".toList _ (by decide) (by decide) (by decide)

/-- A user name is passed to ssh as an option. -/
theorem user_taken_as_option : ∃ args operand,
    (createSessionForProfile sampleApp (some (sampleProfile "-oProxyCommand=sh"))).arguments =
      some ("ssh".toList :: args) ∧
    args.getLast? = some operand ∧ operand.head? = some '-' :=
  ⟨["-o".toList, "ForwardAgent=no".toList, "-oProxyCommand=sh@example".toList], _, by decide, rfl, rfl⟩

/-! Secrets. -/

/-- Equal except for the password and the service token. -/
def SameButSecrets (p q : ConnectionProfile) : Prop :=
  q = { p with
    password := q.password
    cloudflaredServiceTokenId := q.cloudflaredServiceTokenId
    cloudflaredServiceTokenSecret := q.cloudflaredServiceTokenSecret }

/-- What other processes see of a session. -/
def shown (s : TerminalSession) : JString × Option (List JString) := (s.command, s.arguments)

section Secrets

variable {app : App} {p q : ConnectionProfile}

theorem sshSession_shown (h : SameButSecrets p q) (proxy : List JString) (envp envp' : Option (List JString)) :
    shown (sshSession app q proxy envp') = shown (sshSession app p proxy envp) := by
  rw [h]
  unfold sshSession
  change shown (if (hostOf p).isEmpty then _ else _) = _
  split_ifs <;> rfl

theorem cloudflaredSession_shown (h : SameButSecrets p q) (hid : hasTokenId q = hasTokenId p)
    (hsecret : hasTokenSecret q = hasTokenSecret p) :
    shown (cloudflaredSession app q) = shown (cloudflaredSession app p) := by
  have hhost : cloudflaredHost q = cloudflaredHost p := by rw [h]; rfl
  have hdest : q.cloudflaredDestination = p.cloudflaredDestination := by rw [h]
  have hargs : q.sshArgs = p.sshArgs := by rw [h]
  have hproxy : proxyCommand app q = proxyCommand app p := by rw [h]; rfl
  unfold cloudflaredSession
  dsimp only
  rw [hhost, hdest, hargs, hproxy, hid, hsecret]
  split
  · rfl
  · split_ifs
    · exact sshSession_shown h _ _ _
    · rfl
    · exact sshSession_shown h _ _ _

theorem remoteSession_shown (h : SameButSecrets p q) (hid : hasTokenId q = hasTokenId p)
    (hsecret : hasTokenSecret q = hasTokenSecret p) (isMosh : Bool) :
    shown (remoteSession app q isMosh) = shown (remoteSession app p isMosh) := by
  have hcloud : q.cloudflaredEnabled = p.cloudflaredEnabled := by rw [h]
  have hhost : hostOf q = hostOf p := by rw [h]; rfl
  have hcloudHost : cloudflaredHost q = cloudflaredHost p := by rw [h]; rfl
  have hname : q.name = p.name := by rw [h]
  have hmosh : moshSession app q = moshSession app p := by rw [h]; rfl
  unfold remoteSession
  dsimp only
  rw [hcloud, hhost, hcloudHost, hname, hmosh]
  split_ifs
  · rfl
  · rfl
  · rfl
  · exact cloudflaredSession_shown h hid hsecret
  · exact sshSession_shown h _ _ _

theorem createSessionForProfile_shown (h : SameButSecrets p q) (hid : hasTokenId q = hasTokenId p)
    (hsecret : hasTokenSecret q = hasTokenSecret p) :
    shown (createSessionForProfile app (some q)) = shown (createSessionForProfile app (some p)) := by
  have htype : q.type = p.type := by rw [h]
  cases ht : p.type with
  | LOCAL =>
    rw [h]
    simp only [createSessionForProfile, ht]
    rfl
  | SSH =>
    simp only [createSessionForProfile, htype, ht]
    exact remoteSession_shown h hid hsecret false
  | MOSH =>
    simp only [createSessionForProfile, htype, ht]
    exact remoteSession_shown h hid hsecret true

end Secrets

/-- Profiles that differ in their secrets only, with the same secrets set, give the same
command and the same arguments. -/
theorem arguments_hide_secrets (app : App) (p q : ConnectionProfile) (h : SameButSecrets p q)
    (hid : trimOrEmpty p.cloudflaredServiceTokenId = [] ↔ trimOrEmpty q.cloudflaredServiceTokenId = [])
    (hsecret : p.cloudflaredServiceTokenSecret.getD [] = [] ↔ q.cloudflaredServiceTokenSecret.getD [] = []) :
    (createSessionForProfile app (some q)).command = (createSessionForProfile app (some p)).command ∧
    (createSessionForProfile app (some q)).arguments = (createSessionForProfile app (some p)).arguments := by
  have hset : ∀ a b : JString, (a = [] ↔ b = []) → (!b.isEmpty) = !a.isEmpty := by
    intro a b hab
    cases a <;> cases b <;> simp_all
  have hshown : shown (createSessionForProfile app (some q)) = shown (createSessionForProfile app (some p)) :=
    createSessionForProfile_shown h (hset _ _ hid) (hset _ _ hsecret)
  exact Prod.mk.inj hshown

/-- Through Cloudflare Access, with a service token. -/
def sampleAccess (password id secret : String) : ConnectionProfile :=
  { sampleProfile "me" with
    password := some password.toList
    cloudflaredEnabled := true
    cloudflaredServiceTokenId := some id.toList
    cloudflaredServiceTokenSecret := some secret.toList }

theorem arguments_hide_secrets_token :
    (createSessionForProfile sampleApp (some (sampleAccess "p" "i" "s"))).command =
      (createSessionForProfile sampleApp (some (sampleAccess "pw" "id" "secret"))).command ∧
    (createSessionForProfile sampleApp (some (sampleAccess "p" "i" "s"))).arguments =
      (createSessionForProfile sampleApp (some (sampleAccess "pw" "id" "secret"))).arguments :=
  arguments_hide_secrets sampleApp (sampleAccess "pw" "id" "secret") (sampleAccess "p" "i" "s") rfl
    (by decide) (by decide)

end Tinyhack.Launch
