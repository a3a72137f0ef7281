import TinyhackSsh.Spec.MoshLauncher
import TinyhackSsh.Proofs.Launch

/-! The `--ssh=` command on its way from the service to the launcher. The service quotes
the identity path for a shell; the launcher splits the command at spaces and leaves the
quotes, so ssh is never given the path itself. -/

namespace Tinyhack.Launch

open Profiles Mosh

/-! Paths. -/

def NoSpace (s : JString) : Prop := ' ' ∉ s

theorem mem_mergeSlashes {c : Char} {s : JString} (h : c ∈ mergeSlashes s) : c ∈ s := by
  induction s with
  | nil => exact h
  | cons d s ih =>
    rw [mergeSlashes] at h
    split_ifs at h
    · exact List.mem_cons_of_mem d (ih h)
    · rcases List.mem_cons.mp h with rfl | h
      · exact List.mem_cons_self
      · exact List.mem_cons_of_mem d (ih h)

theorem NoSpace.file {s : JString} (h : NoSpace s) : NoSpace (file s) := by
  intro hmem
  unfold Launch.file at hmem
  dsimp only at hmem
  split_ifs at hmem
  · exact h (mem_mergeSlashes hmem)
  · exact h (mem_mergeSlashes ((List.rdropWhile_prefix _ _).subset hmem))

theorem NoSpace.resolve {parent child : JString} (hp : NoSpace parent) (hc : NoSpace child) :
    NoSpace (resolve parent child) := by
  unfold Launch.resolve
  split_ifs
  · exact hp
  · exact hc
  · exact fun h => (List.mem_append.mp h).elim hp hc
  · exact fun h => (List.mem_append.mp h).elim hp hc
  · refine fun h => (List.mem_append.mp h).elim hp fun h => ?_
    rcases List.mem_cons.mp h with h | h
    · exact absurd h (by decide)
    · exact hc h

theorem NoSpace.fileIn {parent child : JString} (hp : NoSpace parent) (hc : NoSpace child) :
    NoSpace (fileIn parent child) := by
  unfold Launch.fileIn
  split_ifs
  · exact hc.file
  · exact hp.file.resolve hc.file

theorem NoSpace.absolutePath {path : JString} (h : NoSpace path) : NoSpace (absolutePath path) := by
  unfold Launch.absolutePath
  split_ifs
  · exact h
  · exact NoSpace.resolve (by unfold NoSpace; decide) h

theorem program_cases (app : App) (library name : String) :
    app.program library name = absolutePath (fileIn app.nativeLibraryDir library.toList) ∨
    app.program library name = absolutePath (fileIn app.filesDir ("usr/bin/" ++ name).toList) ∨
    app.program library name = name.toList := by
  unfold App.program
  dsimp only
  split_ifs
  · exact Or.inl rfl
  · exact Or.inr (Or.inl rfl)
  · exact Or.inr (Or.inr rfl)

theorem head?_absolutePath (path : JString) : (absolutePath path).head? = some '/' := by
  unfold absolutePath resolve
  split_ifs with h
  · exact h
  · rfl
  · rfl
  · rfl

/-- The identity path is absolute. -/
theorem head?_identityPath {app : App} {profile : ConnectionProfile} {path : JString}
    (h : identityPath app profile = some path) : path.head? = some '/' := by
  unfold identityPath at h
  cases hk : profile.keyName with
  | none =>
    rw [hk] at h
    cases h
  | some keyName =>
    rw [hk] at h
    dsimp only at h
    split_ifs at h
    · obtain rfl := Option.some.inj h
      rw [List.head?_append, head?_absolutePath]
      rfl
    · obtain rfl := Option.some.inj h
      exact head?_absolutePath _
    · obtain rfl := Option.some.inj h
      exact head?_absolutePath _

theorem absolutePath_ne_nil (path : JString) : absolutePath path ≠ [] := by
  intro h
  have hhead := head?_absolutePath path
  rw [h] at hhead
  cases hhead

theorem sshPath_noSpace (app : App) : app.sshPath ≠ [] ∧ NoSpace app.sshPath := by
  unfold App.sshPath
  rcases program_cases app "libssh.so" "ssh" with h | h | h
  · rw [h]
    exact ⟨absolutePath_ne_nil _,
      (NoSpace.fileIn app.nativeLibraryDir_noSpace (by unfold NoSpace; decide)).absolutePath⟩
  · rw [h]
    exact ⟨absolutePath_ne_nil _, (NoSpace.fileIn app.filesDir_noSpace (by unfold NoSpace; decide)).absolutePath⟩
  · rw [h]
    unfold NoSpace
    decide

/-! The words of the command. -/

theorem splitSpaces_one {s : JString} (hne : s ≠ []) (h : NoSpace s) : splitSpaces s = [s] := by
  refine Words.words_of_none hne ?_
  intro d hd
  simp only [decide_eq_false_iff_not]
  rintro rfl
  exact h hd

theorem splitSpaces_append (s t : JString) : splitSpaces (s ++ ' ' :: t) = splitSpaces s ++ splitSpaces t :=
  Words.words_append_sep rfl

/-- The words that name the identity. -/
def identityWords (app : App) (profile : ConnectionProfile) : List JString :=
  match identityPath app profile with
  | some path => "-i".toList :: splitSpaces (shellQuote path)
  | none => []

theorem forwardAgentOption_noSpace (profile : ConnectionProfile) :
    forwardAgentOption profile ≠ [] ∧ NoSpace (forwardAgentOption profile) := by
  unfold forwardAgentOption NoSpace
  cases profile.agentForwardingEnabled <;> decide

theorem splitSpaces_moshSshCommand (app : App) (profile : ConnectionProfile) :
    splitSpaces (moshSshCommand app profile) =
      app.sshPath :: "-o".toList :: forwardAgentOption profile :: identityWords app profile := by
  obtain ⟨hne, hspace⟩ := forwardAgentOption_noSpace profile
  have hpath := splitSpaces_one (sshPath_noSpace app).1 (sshPath_noSpace app).2
  have ho : splitSpaces "-o".toList = ["-o".toList] := by decide
  have hi : splitSpaces "-i".toList = ["-i".toList] := by decide
  unfold moshSshCommand identityWords
  cases identityPath app profile with
  | none =>
    have hvalue : app.sshPath ++ " -o ".toList ++ forwardAgentOption profile ++ [] =
        app.sshPath ++ ' ' :: ("-o".toList ++ ' ' :: forwardAgentOption profile) := by
      simp only [List.append_assoc, List.append_nil]
      rfl
    dsimp only
    rw [hvalue, splitSpaces_append, splitSpaces_append, hpath, ho, splitSpaces_one hne hspace]
    rfl
  | some path =>
    have hvalue : app.sshPath ++ " -o ".toList ++ forwardAgentOption profile ++ (" -i ".toList ++ shellQuote path) =
        app.sshPath ++ ' ' :: ("-o".toList ++ ' ' :: (forwardAgentOption profile ++ ' ' ::
          ("-i".toList ++ ' ' :: shellQuote path))) := by
      simp only [List.append_assoc]
      rfl
    dsimp only
    rw [hvalue, splitSpaces_append, splitSpaces_append, splitSpaces_append, splitSpaces_append, hpath, ho, hi,
      splitSpaces_one hne hspace]
    rfl

theorem sshWords_moshSshCommand {app : App} {profile : ConnectionProfile} {o : Mosh.Options}
    (ho : o.sshCommand = moshSshCommand app profile) :
    sshWords o = app.sshPath :: "-o".toList :: forwardAgentOption profile :: identityWords app profile := by
  unfold sshWords
  rw [ho, splitSpaces_moshSshCommand]
  rfl

/-! Neighbours in an argument vector. -/

section Neighbours

variable {a b x y : JString} {l m : List JString}

theorem pair_append : [a, b] <:+: l ++ m ↔
    [a, b] <:+: l ∨ (l.getLast? = some a ∧ m.head? = some b) ∨ [a, b] <:+: m := by
  induction l with
  | nil => simp
  | cons z l ih =>
    rw [List.cons_append, List.infix_cons_iff, List.infix_cons_iff, ih, List.cons_prefix_cons, List.cons_prefix_cons]
    cases l with
    | nil =>
      cases m with
      | nil => simp
      | cons c m => simp [@eq_comm _ a z, @eq_comm _ b c]
    | cons w l => simp [or_assoc]

/-- No word begins with a slash. -/
def Slashless (l : List JString) : Prop := ∀ w ∈ l, w.head? ≠ some '/'

theorem Slashless.append (hl : Slashless l) (hm : Slashless m) : Slashless (l ++ m) :=
  fun w hw => (List.mem_append.mp hw).elim (hl w) (hm w)

/-- A path is not found in words that do not begin with a slash. -/
theorem pair_append_slashless (hb : b.head? = some '/') (hm : Slashless m) : [a, b] <:+: l ++ m ↔ [a, b] <:+: l := by
  rw [pair_append]
  refine ⟨?_, Or.inl⟩
  rintro (h | ⟨-, h⟩ | h)
  · exact h
  · exact absurd hb (hm b (List.mem_of_mem_head? h))
  · exact absurd hb (hm b (h.subset (by simp)))

/-- Nor after an option other than the one looked for. -/
theorem pair_append_option (hb : b.head? = some '/') (hx : x.head? ≠ some '/') (hne : x ≠ a) :
    [a, b] <:+: l ++ [x, y] ↔ [a, b] <:+: l := by
  have hsplit : l ++ [x, y] = (l ++ [x]) ++ [y] := by simp
  rw [hsplit, pair_append, pair_append_slashless hb (by simpa [Slashless] using hx)]
  refine ⟨?_, Or.inl⟩
  rintro (h | ⟨h, -⟩ | h)
  · exact h
  · rw [List.getLast?_concat] at h
    exact absurd (Option.some.inj h) hne
  · exact absurd h.length_le (by simp)

end Neighbours

section Vector

variable {env : Mosh.Env} {o : Mosh.Options} {path : JString} {l : List JString}

theorem localeVars_slashless : Slashless ((localeVars env).flatMap fun lv => ["-l".toList, lv]) := by
  have hvars : Slashless (localeVars env) := by
    unfold localeVars
    dsimp only
    split_ifs
    · intro w hw
      rw [List.mem_singleton.mp hw]
      exact fun h : some 'L' = some '/' => by cases h
    · intro w hw
      obtain ⟨name, hname, hw⟩ := List.mem_filterMap.mp hw
      obtain ⟨v, -, rfl⟩ := Option.map_eq_some_iff.mp hw
      -- all four names begin with an L
      fin_cases hname <;> exact fun h : some 'L' = some '/' => by cases h
  intro w hw
  obtain ⟨lv, hlv, hw⟩ := List.mem_flatMap.mp hw
  rcases List.mem_cons.mp hw with rfl | hw
  · decide
  · rw [List.mem_singleton.mp hw]
    exact hvars lv hlv

/-- Nothing of the remote command stands after `-i`. -/
theorem pair_remoteCommand (hpath : path.head? = some '/') :
    ["-i".toList, path] <:+: l ++ "--".toList :: remoteCommand env o ↔ ["-i".toList, path] <:+: l := by
  have hhold : Slashless (if agentHold env then ["&&".toList, "sleep".toList, "86400".toList] else []) := by
    split_ifs
    · unfold Slashless
      decide
    · exact List.forall_mem_nil _
  have hsplit : l ++ "--".toList :: remoteCommand env o =
      (((l ++ ["--".toList, o.serverCommand]) ++ ["new".toList]) ++ ["-c".toList, (toString env.colors).toList]) ++
        (if o.udpPorts.isEmpty then [] else ["-p".toList, o.udpPorts]) ++
        ((localeVars env).flatMap (fun lv => ["-l".toList, lv]) ++
          if agentHold env then ["&&".toList, "sleep".toList, "86400".toList] else []) := by
    simp only [remoteCommand, List.append_assoc]
    rfl
  rw [hsplit, pair_append_slashless hpath (localeVars_slashless.append hhold)]
  have hports : ∀ l', ["-i".toList, path] <:+: l' ++ (if o.udpPorts.isEmpty then [] else ["-p".toList, o.udpPorts]) ↔
      ["-i".toList, path] <:+: l' := by
    intro l'
    split_ifs
    · rw [List.append_nil]
    · exact pair_append_option hpath (by decide) (by decide)
  rw [hports, pair_append_option hpath (by decide) (by decide),
    pair_append_slashless hpath (by unfold Slashless; decide), pair_append_option hpath (by decide) (by decide)]

theorem pair_sshOptions (hpath : path.head? = some '/') :
    ["-i".toList, path] <:+: l ++ sshOptions env o ↔ ["-i".toList, path] <:+: l := by
  have hhold : Slashless (if agentHold env then
      ["-tt".toList, "-o".toList, "ServerAliveInterval=30".toList, "-o".toList, "ServerAliveCountMax=8".toList]
    else []) := by
    split_ifs
    · unfold Slashless
      decide
    · exact List.forall_mem_nil _
  unfold sshOptions
  rw [← List.append_assoc, pair_append_slashless hpath hhold, ← List.append_assoc]
  split_ifs
  · rw [List.append_nil, pair_append_slashless hpath (by unfold Slashless; decide)]
  · rw [pair_append_option hpath (by decide) (by decide), pair_append_slashless hpath (by unfold Slashless; decide)]

theorem getLast?_sshOptions :
    (l ++ sshOptions env o).getLast? = some "-i".toList ↔ o.sshPort = "-i".toList ∧ agentHold env = false := by
  have hne : sshOptions env o ≠ [] := List.cons_ne_nil _ _
  rw [List.getLast?_append_of_ne_nil _ hne]
  unfold sshOptions
  cases agentHold env with
  | true =>
    rw [if_pos rfl, List.getLast?_append_of_ne_nil _ (List.cons_ne_nil _ _)]
    refine ⟨fun h => absurd h (by decide), ?_⟩
    rintro ⟨-, h⟩
    cases h
  | false =>
    cases o.sshPort with
    | nil => decide
    | cons c port =>
      change some (c :: port) = some "-i".toList ↔ _
      rw [Option.some.injEq]
      exact (and_iff_left rfl).symm

/-- The path stands after `-i` if it does so in the ssh command, or if `-i` was given as
the port and the path as the destination. -/
theorem pair_sshArgv (hpath : path.head? = some '/') : ["-i".toList, path] <:+: sshArgv env o ↔
    ["-i".toList, path] <:+: sshWords o ∨
    (o.sshPort = "-i".toList ∧ agentHold env = false ∧ o.userhost = path) := by
  have hsplit : sshArgv env o =
      (sshWords o ++ sshOptions env o ++ [o.userhost]) ++ "--".toList :: remoteCommand env o := by
    simp only [sshArgv, List.append_assoc]
    rfl
  have hone : ¬ ["-i".toList, path] <:+: [o.userhost] := fun h => absurd h.length_le (by simp)
  rw [hsplit, pair_remoteCommand hpath, pair_append, pair_sshOptions hpath, getLast?_sshOptions, List.head?_cons,
    Option.some.injEq, and_assoc]
  simp only [hone, or_false]

end Vector

theorem NoSpace.shellQuote {value : JString} (h : NoSpace value) : NoSpace (shellQuote value) := by
  intro hmem
  rcases List.mem_cons.mp hmem with hmem | hmem
  · cases hmem
  rcases List.mem_append.mp hmem with hmem | hmem
  · obtain ⟨c, hc, hmem⟩ := List.mem_flatMap.mp hmem
    split_ifs at hmem
    · exact absurd hmem (by decide)
    · rw [← List.mem_singleton.mp hmem] at hc
      exact h hc
  · cases List.mem_singleton.mp hmem

/-- No word of a quoted path is the path. -/
theorem quoted_not_identity {path : JString} (hpath : path.head? = some '/') :
    (splitSpaces (shellQuote path)).head? ≠ some path ∧
    ∀ word, ¬ [word, path] <:+: splitSpaces (shellQuote path) := by
  constructor
  · intro h
    obtain ⟨rest, others, hwords⟩ : ∃ rest others, splitSpaces (shellQuote path) = ('\'' :: rest) :: others :=
      Words.words_cons (by decide)
    rw [hwords] at h
    obtain rfl := Option.some.inj h
    cases hpath
  · intro word h
    have hspace : NoSpace path := by
      intro hmem
      exact absurd ((Words.mem_words (h.subset (by simp))).2 ' ' hmem) (by decide)
    have hone : splitSpaces (shellQuote path) = [shellQuote path] :=
      splitSpaces_one (List.cons_ne_nil _ _) hspace.shellQuote
    rw [hone] at h
    exact absurd h.length_le (by simp)

theorem pair_moshSshCommand {app : App} {profile : ConnectionProfile} {path : JString} {o : Mosh.Options}
    (hpath : identityPath app profile = some path) (ho : o.sshCommand = moshSshCommand app profile) :
    ¬ ["-i".toList, path] <:+: sshWords o := by
  have hslash := head?_identityPath hpath
  obtain ⟨hfirst, hrest⟩ := quoted_not_identity hslash
  have hforward : (forwardAgentOption profile).head? ≠ some '/' := fun h : some 'F' = some '/' => by cases h
  have hbefore : Slashless ["-o".toList, forwardAgentOption profile, "-i".toList] := by
    intro w hw
    fin_cases hw
    · decide
    · exact hforward
    · decide
  have hsplit : sshWords o = ([app.sshPath] ++ ["-o".toList, forwardAgentOption profile, "-i".toList]) ++
      splitSpaces (shellQuote path) := by
    rw [sshWords_moshSshCommand ho, identityWords, hpath]
    rfl
  rw [hsplit, pair_append, pair_append_slashless hslash hbefore]
  rintro (h | ⟨-, h⟩ | h)
  · exact absurd h.length_le (by simp)
  · exact hfirst h
  · exact hrest _ h

/-- The argument vector for ssh has the identity path after `-i` only by accident: when
`-i` was given as the port and the path as the destination. -/
theorem identity_as_argument (app : App) (profile : ConnectionProfile) (path value : JString) (args : List JString)
    (env : Mosh.Env) (o : Mosh.Options) (htype : profile.type = .MOSH) (hpath : identityPath app profile = some path)
    (hargs : (createSessionForProfile app (some profile)).arguments =
      some ("mosh".toList :: ("--ssh=".toList ++ value) :: args))
    (ho : o.sshCommand = value) :
    ["-i".toList, path] <:+: sshArgv env o ↔
      o.sshPort = "-i".toList ∧ agentHold env = false ∧ o.userhost = path := by
  have hvalue : value = moshSshCommand app profile := by
    have hmosh := mosh_arguments htype hargs (Or.inr rfl)
    exact List.append_cancel_left (List.cons.inj (List.cons.inj hmosh).2).1
  rw [pair_sshArgv (head?_identityPath hpath)]
  simp only [pair_moshSshCommand hpath (ho.trans hvalue), false_or]

/-- The same device with a key. -/
def sampleKeyApp : App :=
  { sampleApp with fileExists := fun path => sampleApp.fileExists path || path = "/files/home/.ssh/key".toList }

def sampleMosh : ConnectionProfile :=
  { sampleProfile "me" with type := .MOSH, authType := .KEY, keyName := some "key".toList }

def sampleEnv : Mosh.Env := ⟨fun _ => none, 256⟩

def sampleCommand : JString := "/lib/libssh.so -o ForwardAgent=no -i '/files/home/.ssh/key'".toList

theorem identity_as_argument_key :
    ¬ ["-i".toList, "/files/home/.ssh/key".toList] <:+:
      sshArgv sampleEnv { Options.initial with sshCommand := sampleCommand, userhost := "me@example".toList } := by
  rw [identity_as_argument sampleKeyApp sampleMosh "/files/home/.ssh/key".toList sampleCommand ["me@example".toList]
    sampleEnv _ rfl (by decide) (by decide) rfl]
  decide

/-- ssh is given the path with its quotes. -/
theorem identity_keeps_quotes :
    identityPath sampleKeyApp sampleMosh = some "/files/home/.ssh/key".toList ∧
    ∃ argv, (createSessionForProfile sampleKeyApp (some sampleMosh)).arguments = some argv ∧
      Mosh.launch sampleEnv argv = some ["/lib/libssh.so".toList, "-o".toList, "ForwardAgent=no".toList, "-i".toList,
        "'/files/home/.ssh/key'".toList, "-n".toList, "me@example".toList, "--".toList, "mosh-server".toList,
        "new".toList, "-c".toList, "256".toList, "-l".toList, "LANG=en_US.UTF-8".toList] :=
  ⟨by decide, ["mosh".toList, "--ssh=".toList ++ sampleCommand, "me@example".toList], by decide, by decide⟩

end Tinyhack.Launch
