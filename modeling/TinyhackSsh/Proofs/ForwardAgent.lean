import TinyhackSsh.Spec.SshCommandLine
import TinyhackSsh.Proofs.MoshCommand

/-! Agent forwarding of a profile that has it disabled. The service puts
`-o ForwardAgent=no` first, and a later `-o` does not change it; `-A` does, wherever it
comes from: the extra arguments, the destination, or a piece of the identity path. -/

namespace Tinyhack.Launch

open Profiles Getopt Mosh

/-- Reads `-A` and `-a` only. -/
def Ssh.flags (ssh : Ssh) : Reader (Option Bool) where
  kind := ssh.kind
  onFlag := ssh.reader.onFlag
  onArgument _ _ v := v

/-- Reads `-o` only. -/
def Ssh.values (ssh : Ssh) : Reader (Option Bool) where
  kind := ssh.kind
  onFlag _ v := v
  onArgument := ssh.reader.onArgument

/-- The last of `-A` and `-a` in `args` as ssh reads them, if there is one and ssh accepts `args`. -/
def Ssh.lastFlag (ssh : Ssh) (args : List JString) : Option Bool := (ssh.flags.run (start none) args).result.join

/-- The first value `-o` gives in `args`, else the configured one; `none` if ssh refuses `args`. -/
def Ssh.firstValue (ssh : Ssh) (args : List JString) : Option Bool :=
  (ssh.values.run (start none) args).result.map fun v => v.getD ssh.configured

section Reading

variable {ssh : Ssh} {w : JString} {args : List JString}

/-- Options with an argument that says nothing about forwarding. -/
theorem forwardAgent_argument {c : Char} (hc : ssh.kind c = .takesArgument) (ho : c ≠ 'o') (hdash : c ≠ '-') :
    ssh.forwardAgent (['-', c] :: w :: args) = ssh.forwardAgent args := by
  unfold Ssh.forwardAgent
  rw [run_argument rfl hc hdash]
  simp only [Ssh.reader, ho, if_false]

/-- A flag goes before a value, wherever the two stand. -/
theorem reader_simulates (ssh : Ssh) :
    Simulates (fun p v => p.1.or p.2 = v) (ssh.flags.prod ssh.values) ssh.reader where
  kind _ := rfl
  onFlag c p v h := by
    subst h
    simp only [Reader.prod, Ssh.flags, Ssh.values, Ssh.reader]
    split_ifs <;> rfl
  onArgument c arg p v h := by
    subst h
    simp only [Reader.prod, Ssh.flags, Ssh.values, Ssh.reader]
    split_ifs
    · exact Option.or_assoc.symm
    · rfl

/-- The last of `-A` and `-a` decides; where there is neither, the first value does. -/
theorem forwardAgent_iff : ssh.forwardAgent args ≠ some true ↔
    ssh.lastFlag args ≠ some true ∧ (ssh.lastFlag args = none → ssh.firstValue args ≠ some true) := by
  have hboth : (ssh.reader.run (start none) args).result = _ := result_map (reader_simulates ssh) (none, none) args
  have hflag : (ssh.flags.run (start none) args).result = _ :=
    result_map (prod_fst (r := ssh.flags) (q := ssh.values)) (none, none) args
  have hvalue : (ssh.values.run (start none) args).result = _ :=
    result_map (prod_snd (r := ssh.flags) (q := ssh.values) fun _ => rfl) (none, none) args
  unfold Ssh.forwardAgent Ssh.lastFlag Ssh.firstValue
  rw [hboth, hflag, hvalue]
  cases ((ssh.flags.prod ssh.values).run (start (none, none)) args).result with
  | none => simp
  | some p =>
    obtain ⟨flag, value⟩ := p
    cases flag <;> simp

theorem lastFlag_argument {c : Char} (hc : ssh.kind c = .takesArgument) (hdash : c ≠ '-') :
    ssh.lastFlag (['-', c] :: w :: args) = ssh.lastFlag args := by
  unfold Ssh.lastFlag
  rw [run_argument rfl hc hdash]
  rfl

/-- A value that was given stays. -/
theorem values_fixed (ssh : Ssh) (b : Bool) :
    Simulates (fun v _ => v = some b) ssh.values ssh.values where
  kind _ := rfl
  onFlag _ _ _ h := h
  onArgument c arg v _ h := by
    subst h
    simp only [Ssh.values, Ssh.reader]
    split_ifs <;> rfl

/-- After `-o ForwardAgent=no` the last `-A` or `-a` decides. -/
theorem forwardAgent_no :
    ssh.forwardAgent ("-o".toList :: "ForwardAgent=no".toList :: args) ≠ some true ↔ ssh.lastFlag args ≠ some true := by
  have hflag : ssh.lastFlag ("-o".toList :: "ForwardAgent=no".toList :: args) = ssh.lastFlag args :=
    lastFlag_argument ssh.kind_o (by decide)
  have hvalue : ssh.firstValue ("-o".toList :: "ForwardAgent=no".toList :: args) ≠ some true := by
    have hrun : ssh.values.run (start none) ("-o".toList :: "ForwardAgent=no".toList :: args) =
        ssh.values.run (start (some false)) args := by
      rw [show "-o".toList = ['-', 'o'] from rfl, run_argument rfl ssh.kind_o (by decide)]
      simp only [Ssh.values, Ssh.reader, start, if_true, Option.none_or, ssh.forwardAgentOf_no]
    have hfixed : Related _ (ssh.values.run (start (some false)) args) (ssh.values.run (start (some false)) args) :=
      run_related (values_fixed ssh false) ⟨rfl, rfl, rfl⟩
    unfold Ssh.firstValue State.result
    rw [hrun, hfixed.value]
    cases (ssh.values.run (start (some false)) args).mode <;> simp
  rw [forwardAgent_iff, hflag]
  exact and_iff_left fun _ => hvalue

theorem forwardAgent_identityArgs (app : App) (profile : ConnectionProfile) :
    ssh.forwardAgent (identityArgs app profile ++ args) = ssh.forwardAgent args := by
  unfold identityArgs
  cases identityPath app profile with
  | none => rfl
  | some path => exact forwardAgent_argument ssh.kind_i (by decide) (by decide)

theorem forwardAgent_portArgs (profile : ConnectionProfile) :
    ssh.forwardAgent (portArgs profile ++ args) = ssh.forwardAgent args := by
  unfold portArgs
  split_ifs
  · exact forwardAgent_argument ssh.kind_p (by decide) (by decide)
  · rfl

theorem reader_tt (ssh : Ssh) {s : State (Option Bool)} (hs : s.mode = .options) :
    ssh.reader.read s "-tt".toList = s := by
  obtain ⟨mode, operand, value⟩ := s
  obtain rfl : mode = .options := hs
  simp [Reader.read, Reader.option, Reader.cluster, Ssh.reader, ssh.kind_t]

/-- `-n`, where it is not the argument of the option before it. -/
theorem flags_n (ssh : Ssh) {s : State (Option Bool)} (hs : ∀ c, s.mode ≠ .argument c) :
    ssh.flags.read s "-n".toList = s := by
  obtain ⟨mode, operand, value⟩ := s
  cases mode with
  | options => simp [Reader.read, Reader.option, Reader.cluster, Ssh.flags, Ssh.reader, ssh.kind_n]
  | argument c => exact absurd rfl (hs c)
  | stopped => rfl
  | failed => rfl

theorem reader_argument {s : State (Option Bool)} {c : Char} (hs : s.mode = .options)
    (hc : ssh.kind c = .takesArgument) (hdash : c ≠ '-') (hw : c = 'o' → ssh.forwardAgentOf w = none) :
    ssh.reader.run s (['-', c] :: w :: args) = ssh.reader.run s args := by
  rw [run_argument hs hc hdash]
  have hvalue : ssh.reader.onArgument c w s.value = s.value := by
    simp only [Ssh.reader]
    split_ifs with ho
    · rw [hw ho, Option.or_none]
    · rfl
  rw [hvalue]

/-- After its `-n` the options of the launcher change nothing. -/
theorem reader_sshOptions (s : State (Option Bool)) (env : Mosh.Env) (o : Mosh.Options) :
    ssh.reader.run s (sshOptions env o) = ssh.reader.read s "-n".toList := by
  have hrun : ssh.reader.run s (sshOptions env o) = ssh.reader.run (ssh.reader.read s "-n".toList)
      ((if o.sshPort.isEmpty then [] else ["-p".toList, o.sshPort]) ++ if agentHold env then
        ["-tt".toList, "-o".toList, "ServerAliveInterval=30".toList, "-o".toList, "ServerAliveCountMax=8".toList]
      else []) := rfl
  have hmode : ∀ c, (ssh.reader.read s "-n".toList).mode ≠ .argument c := by
    intro c h
    obtain ⟨hkind, hlast⟩ := read_pending h
    obtain rfl : 'n' = c := Option.some.inj hlast
    exact absurd (ssh.kind_n.symm.trans hkind) (by decide)
  rw [hrun]
  generalize ssh.reader.read s "-n".toList = t at hmode ⊢
  cases ht : t.mode with
  | options =>
    have hport : ssh.reader.run t (if o.sshPort.isEmpty then [] else ["-p".toList, o.sshPort]) = t := by
      split_ifs
      · rfl
      · exact reader_argument ht ssh.kind_p (by decide) fun h => absurd h (by decide)
    have hhold : ssh.reader.run t (if agentHold env then
        ["-tt".toList, "-o".toList, "ServerAliveInterval=30".toList, "-o".toList, "ServerAliveCountMax=8".toList]
      else []) = t := by
      split_ifs
      · change ssh.reader.run (ssh.reader.read t "-tt".toList) (['-', 'o'] :: _ :: ['-', 'o'] :: _ :: []) = t
        rw [reader_tt ssh ht, reader_argument ht ssh.kind_o (by decide) fun _ => ssh.forwardAgentOf_interval,
          reader_argument ht ssh.kind_o (by decide) fun _ => ssh.forwardAgentOf_countMax]
        rfl
      · rfl
    rw [run_append, hport, hhold]
  | argument c => exact absurd ht (hmode c)
  | stopped => exact run_of_done (Or.inl ht)
  | failed => exact run_of_done (Or.inr ht)

theorem forwardAgent_sshOptions (words : List JString) (env : Mosh.Env) (o : Mosh.Options) :
    ssh.forwardAgent (words ++ sshOptions env o ++ args) = ssh.forwardAgent (words ++ "-n".toList :: args) := by
  unfold Ssh.forwardAgent
  rw [run_append, run_append, reader_sshOptions, run_append]
  rfl

/-- The words of the identity end with a quote, so no option waits for its argument after them. -/
theorem identityWords_complete (ssh : Ssh) (app : App) (profile : ConnectionProfile) (c : Char) :
    (ssh.flags.run (start none) (identityWords app profile)).mode ≠ .argument c := by
  unfold identityWords
  cases identityPath app profile with
  | none => simp [Reader.run, start]
  | some path =>
    obtain ⟨init, last, hwords⟩ : ∃ init last, splitSpaces (shellQuote path) = init ++ [last ++ ['\'']] :=
      Words.words_concat (by decide)
    intro h
    have hread : (ssh.flags.read (ssh.flags.run (start none) ("-i".toList :: init)) (last ++ ['\''])).mode =
        .argument c := by
      rw [← h]
      dsimp only
      rw [hwords, ← List.cons_append, run_append]
      rfl
    obtain ⟨hkind, hlast⟩ := read_pending hread
    rw [List.getLast?_concat] at hlast
    obtain rfl := Option.some.inj hlast
    have hquote := hkind.symm.trans ssh.kind_quote
    cases hquote

/-- So the launcher's `-n` stands as an option after them. -/
theorem lastFlag_identityWords (app : App) (profile : ConnectionProfile) :
    ssh.lastFlag (identityWords app profile ++ "-n".toList :: args) =
      ssh.lastFlag (identityWords app profile ++ args) := by
  unfold Ssh.lastFlag
  rw [run_append, run_append]
  change (ssh.flags.run (ssh.flags.read _ "-n".toList) args).result.join = _
  rw [flags_n ssh (identityWords_complete ssh app profile)]

end Reading

/-! What the launcher makes of the arguments from the service. -/

theorem readOptions_option {o o' : Mosh.Options} {arg : JString} {args : List JString} (hne : arg ≠ "--".toList)
    (h : readArgument o arg = .options o') : readOptions o (arg :: args) = readOptions o' args := by
  rw [readOptions.eq_def]
  dsimp only
  rw [if_neg hne, h]

theorem readOptions_ssh (o : Mosh.Options) (v : JString) (args : List JString) :
    readOptions o (("--ssh=".toList ++ v) :: args) = readOptions { o with sshCommand := v } args := by
  refine readOptions_option ?_ rfl
  intro h
  have hthird : some 's' = none := congrArg (fun l : JString => l[2]?) h
  cases hthird

theorem readOptions_sshPort (o : Mosh.Options) (v : JString) (args : List JString) :
    readOptions o (("--ssh-port=".toList ++ v) :: args) = readOptions { o with sshPort := v } args := by
  refine readOptions_option ?_ rfl
  intro h
  have hthird : some 's' = none := congrArg (fun l : JString => l[2]?) h
  cases hthird

/-- The options the service gives, before the extra arguments. -/
def serviceOptions (app : App) (profile : ConnectionProfile) : Mosh.Options :=
  { Options.initial with
    sshCommand := moshSshCommand app profile
    sshPort := if hasPort profile then decimal profile.port else [] }

/-- The launcher's options for a profile. -/
def launcherOptions (app : App) (profile : ConnectionProfile) : Parsed :=
  readOptions (serviceOptions app profile) (extraArgs profile ++ [target profile])

theorem readOptions_moshArgs (app : App) (profile : ConnectionProfile) :
    readOptions .initial (moshArgs app profile).tail = launcherOptions app profile := by
  unfold launcherOptions serviceOptions moshArgs
  cases hasPort profile with
  | false => exact readOptions_ssh _ _ _
  | true => exact (readOptions_ssh _ _ _).trans (readOptions_sshPort _ _ _)

theorem launch_moshArgs {app : App} {profile : ConnectionProfile} {env : Mosh.Env} {argv : List JString}
    (h : launch env (moshArgs app profile) = some argv) :
    ∃ o, launcherOptions app profile = .options o ∧ argv = sshArgv env o := by
  unfold launch at h
  rw [readOptions_moshArgs] at h
  cases hopts : launcherOptions app profile with
  | exit code =>
    rw [hopts] at h
    cases h
  | options o =>
    rw [hopts] at h
    exact ⟨o, rfl, (Option.some.inj h).symm⟩

/-- What stands after the name of the ssh command, without the options the launcher adds to its `-n`. -/
def commandWords (env : Mosh.Env) (o : Mosh.Options) : List JString :=
  (sshWords o).tail ++ "-n".toList :: o.userhost :: "--".toList :: remoteCommand env o

/-- The arguments leave forwarding off. SSH: the last `-A` or `-a` in the extra arguments
and the destination, as ssh reads them, is not `-A`. MOSH: the same of the words of the
identity and what follows them. With an ssh command from the extra arguments there is no
`ForwardAgent=no` in front: the last `-A` or `-a` is not `-A`, and where there is neither,
the first `-o ForwardAgent`, or without one the configuration, does not say yes. -/
def LeavesOff (ssh : Ssh) (app : App) (env : Mosh.Env) (profile : ConnectionProfile) : Prop :=
  match profile.type with
  | .LOCAL => True
  | .SSH => ssh.lastFlag (extraArgs profile ++ [target profile]) ≠ some true
  | .MOSH =>
    match launcherOptions app profile with
    | .exit _ => True
    | .options o =>
      if o.sshCommand = moshSshCommand app profile then
        ssh.lastFlag (identityWords app profile ++ o.userhost :: "--".toList :: remoteCommand env o) ≠ some true
      else
        ssh.lastFlag (commandWords env o) ≠ some true ∧
          (ssh.lastFlag (commandWords env o) = none → ssh.firstValue (commandWords env o) ≠ some true)

theorem forwardAgentOption_off {profile : ConnectionProfile} (hoff : profile.agentForwardingEnabled = false) :
    forwardAgentOption profile = "ForwardAgent=no".toList := by
  unfold forwardAgentOption
  cases hon : profile.agentForwardingEnabled with
  | false => decide
  | true => rw [hoff] at hon; cases hon

theorem forwardAgent_sshArgs (ssh : Ssh) {app : App} {profile : ConnectionProfile} {proxy : List JString}
    (hoff : profile.agentForwardingEnabled = false) (hproxy : IsProxy app profile proxy) :
    ssh.forwardAgent (sshArgs app profile proxy).tail ≠ some true ↔
      ssh.lastFlag (extraArgs profile ++ [target profile]) ≠ some true := by
  have hargs : (sshArgs app profile proxy).tail = identityArgs app profile ++ (portArgs profile ++
      ("-o".toList :: "ForwardAgent=no".toList :: (proxy ++ (extraArgs profile ++ [target profile])))) := by
    rw [sshArgs, List.tail_cons, forwardAgentOption_off hoff, List.append_assoc, List.append_assoc, List.append_assoc,
      List.append_assoc]
    rfl
  have hproxied : ssh.lastFlag (proxy ++ (extraArgs profile ++ [target profile])) =
      ssh.lastFlag (extraArgs profile ++ [target profile]) := by
    rcases hproxy with rfl | rfl
    · rfl
    · exact lastFlag_argument ssh.kind_o (by decide)
  rw [hargs, forwardAgent_identityArgs, forwardAgent_portArgs, forwardAgent_no, hproxied]

theorem forwardAgent_sshArgv (ssh : Ssh) (env : Mosh.Env) (o : Mosh.Options) :
    ssh.forwardAgent (sshArgv env o).tail = ssh.forwardAgent (commandWords env o) := by
  have hne : sshWords o ≠ [] := by
    unfold sshWords
    split_ifs with hempty
    · exact List.cons_ne_nil _ _
    · exact fun h => hempty (List.isEmpty_iff.mpr h)
  have hargs : (sshArgv env o).tail =
      (sshWords o).tail ++ sshOptions env o ++ o.userhost :: "--".toList :: remoteCommand env o := by
    rw [sshArgv, List.append_assoc, List.tail_append_of_ne_nil hne, List.append_assoc]
  rw [hargs, forwardAgent_sshOptions]
  rfl

theorem forwardAgent_moshSshCommand (ssh : Ssh) {app : App} {profile : ConnectionProfile} {o : Mosh.Options}
    (env : Mosh.Env) (hoff : profile.agentForwardingEnabled = false) (ho : o.sshCommand = moshSshCommand app profile) :
    ssh.forwardAgent (commandWords env o) ≠ some true ↔
      ssh.lastFlag (identityWords app profile ++ o.userhost :: "--".toList :: remoteCommand env o) ≠ some true := by
  have hwords : commandWords env o = "-o".toList :: "ForwardAgent=no".toList ::
      (identityWords app profile ++ "-n".toList :: o.userhost :: "--".toList :: remoteCommand env o) := by
    rw [commandWords, sshWords_moshSshCommand ho, forwardAgentOption_off hoff]
    rfl
  rw [hwords, forwardAgent_no, lastFlag_identityWords]

section Started

variable {app : App} {env : Mosh.Env} {profile : ConnectionProfile} {args : List JString}

theorem sshProcess_cases (hstart : sshProcess app env profile = some args) :
    ∃ argv, (createSessionForProfile app (some profile)).arguments = some argv ∧
      (profile.type = .SSH ∧ argv.head? = some "ssh".toList ∧ args = argv.tail ∨
        profile.type = .MOSH ∧ argv.head? = some "mosh".toList ∧ (launch env argv).map List.tail = some args) := by
  unfold sshProcess at hstart
  cases hargv : (createSessionForProfile app (some profile)).arguments with
  | none =>
    rw [hargv] at hstart
    cases htype : profile.type <;> rw [htype] at hstart <;> cases hstart
  | some argv =>
    rw [hargv] at hstart
    refine ⟨argv, rfl, ?_⟩
    cases htype : profile.type with
    | LOCAL =>
      rw [htype] at hstart
      cases hstart
    | SSH =>
      rw [htype] at hstart
      dsimp only at hstart
      split_ifs at hstart with hhead
      exact Or.inl ⟨rfl, hhead, (Option.some.inj hstart).symm⟩
    | MOSH =>
      rw [htype] at hstart
      dsimp only at hstart
      split_ifs at hstart with hhead
      exact Or.inr ⟨rfl, hhead, hstart⟩

end Started

/-- The options of OpenSSH, and no configuration. -/
def sampleSsh : Ssh where
  kind c :=
    if c ∈ "1246AaCfGgKkMNnqsTtVvXxYy".toList then .flag
    else if c ∈ "BbcDEeFIiJLlmOoPpQRSWw".toList then .takesArgument
    else .unknown
  forwardAgentOf arg :=
    if arg = "ForwardAgent=no".toList then some false
    else if arg = "ForwardAgent=yes".toList then some true
    else none
  configured := false
  kind_A := by decide
  kind_a := by decide
  kind_n := by decide
  kind_t := by decide
  kind_i := by decide
  kind_o := by decide
  kind_p := by decide
  kind_quote := by decide
  forwardAgentOf_no := by decide
  forwardAgentOf_interval := by decide
  forwardAgentOf_countMax := by decide

def sampleExtra (sshArgs : String) : ConnectionProfile := { sampleProfile "me" with sshArgs := some sshArgs.toList }

end Tinyhack.Launch
