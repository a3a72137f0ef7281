import TinyhackSsh.Lib.ShellTokens
import TinyhackSsh.Spec.MoshLauncher

/-! The remote command as the shell on the server reads it. ssh joins its arguments with
spaces, and the launcher quotes none of them. -/

namespace Tinyhack.Mosh

open ShellTokens

/-- The command meant to run on the server. -/
def serverArgv (env : Env) (ports : JString) : List JString :=
  ["mosh-server".toList, "new".toList, "-c".toList, (toString env.colors).toList] ++
    (if ports.isEmpty then [] else ["-p".toList, ports]) ++ (localeVars env).flatMap fun lv => ["-l".toList, lv]

/-- The tokens of that command, and of the hold. -/
def intendedTokens (env : Env) (ports : JString) : List Token :=
  (serverArgv env ports).map .word ++
    if agentHold env then .op "&&".toList :: ["sleep".toList, "86400".toList].map .word else []

def localeNames : List String := ["LANG", "LANGUAGE", "LC_CTYPE", "LC_ALL"]

/-! ### The words -/

theorem ordinaryWord_toString (n : ℕ) : OrdinaryWord (toString n).toList := by
  have hdigits : (toString n).toList = Nat.toDigits 10 n := Nat.toList_repr
  rw [hdigits]
  apply ordinaryWord_digits Nat.toDigits_ne_nil
  intro c hc
  exact Nat.isDigit_of_mem_toDigits (by decide) (by decide) hc

theorem ordinaryWord_assignment {name : String} (hname : name ∈ localeNames) (v : JString) :
    OrdinaryWord (name.toList ++ '=' :: v) ↔ Ordinary v := by
  rw [← List.singleton_append, ← List.append_assoc]
  have hnames : ∀ n ∈ localeNames, checkWord (n.toList ++ ['=']) = true ∧ '[' ∉ n.toList ++ ['='] := by decide
  obtain ⟨hcheck, hbracket⟩ := hnames name hname
  exact ordinaryWord_append (checkWord_iff.mp hcheck) hbracket

theorem defaultLocale_of_unset {env : Env} (h : ∀ name ∈ localeNames, env.nonEmpty name = none) :
    defaultLocale env = "en_US.UTF-8".toList := by
  have hnone : (["LC_ALL", "LC_CTYPE", "LANG"].filterMap env.nonEmpty) = [] := by
    rw [List.filterMap_eq_nil_iff]
    intro name hname
    exact h name (by revert name; decide)
  rw [defaultLocale, hnone]
  rfl

/-- The assignments of the variables that are set. -/
def assignments (env : Env) : List JString :=
  localeNames.filterMap fun name => (env.nonEmpty name).map fun v => name.toList ++ '=' :: v

theorem localeVars_eq (env : Env) :
    localeVars env = if (assignments env).isEmpty then ["LANG=".toList ++ defaultLocale env] else assignments env := rfl

theorem mem_assignments {env : Env} {lv : JString} :
    lv ∈ assignments env ↔ ∃ name ∈ localeNames, ∃ v, env.nonEmpty name = some v ∧ name.toList ++ '=' :: v = lv := by
  simp only [assignments, List.mem_filterMap, Option.map_eq_some_iff]

theorem localeVars_ordinary_iff (env : Env) :
    (∀ lv ∈ localeVars env, OrdinaryWord lv) ↔
      ∀ name ∈ localeNames, ∀ v, env.nonEmpty name = some v → Ordinary v := by
  by_cases hunset : assignments env = []
  · have hnone : ∀ name ∈ localeNames, env.nonEmpty name = none := by
      intro name hname
      simpa using List.filterMap_eq_nil_iff.mp hunset name hname
    rw [localeVars_eq, hunset, List.isEmpty_nil, if_pos rfl, defaultLocale_of_unset hnone]
    constructor
    · intro _ name hname v hv
      exact absurd (hv.symm.trans (hnone name hname)) (by simp)
    · intro _ lv hlv
      rw [List.mem_singleton.mp hlv]
      exact checkWord_iff.mp (by decide)
  · rw [localeVars_eq, if_neg (by simpa using hunset)]
    constructor
    · intro h name hname v hv
      exact (ordinaryWord_assignment hname v).mp (h _ (mem_assignments.mpr ⟨name, hname, v, hv, rfl⟩))
    · intro h lv hlv
      obtain ⟨name, hname, v, hv, rfl⟩ := mem_assignments.mp hlv
      exact (ordinaryWord_assignment hname v).mpr (h name hname v hv)

theorem serverArgv_ordinary_iff (env : Env) (ports : JString) :
    (∀ w ∈ serverArgv env ports, OrdinaryWord w) ↔
      (ports = [] ∨ OrdinaryWord ports) ∧ ∀ lv ∈ localeVars env, OrdinaryWord lv := by
  have hfixed : ∀ w ∈ ["mosh-server".toList, "new".toList, "-c".toList, (toString env.colors).toList],
      OrdinaryWord w := by
    rw [List.forall_mem_cons, List.forall_mem_cons, List.forall_mem_cons, List.forall_mem_singleton]
    exact ⟨checkWord_iff.mp (by decide), checkWord_iff.mp (by decide), checkWord_iff.mp (by decide),
      ordinaryWord_toString env.colors⟩
  have hp : OrdinaryWord "-p".toList := checkWord_iff.mp (by decide)
  have hl : OrdinaryWord "-l".toList := checkWord_iff.mp (by decide)
  have hports : (∀ w ∈ if ports.isEmpty then [] else ["-p".toList, ports], OrdinaryWord w) ↔
      ports = [] ∨ OrdinaryWord ports := by
    cases ports with
    | nil => simp
    | cons c cs =>
      rw [List.isEmpty_cons, if_neg Bool.false_ne_true, List.forall_mem_cons, List.forall_mem_singleton,
        and_iff_right hp, or_iff_right (List.cons_ne_nil c cs)]
  have hlocale : (∀ w ∈ (localeVars env).flatMap fun lv => ["-l".toList, lv], OrdinaryWord w) ↔
      ∀ lv ∈ localeVars env, OrdinaryWord lv := by
    simp only [List.mem_flatMap]
    constructor
    · intro h lv hlv
      exact h lv ⟨lv, hlv, by simp⟩
    · rintro h w ⟨lv, hlv, hw⟩
      rcases List.mem_pair.mp hw with rfl | rfl
      · exact hl
      · exact h w hlv
  rw [serverArgv, List.forall_mem_append, List.forall_mem_append, hports, hlocale, and_iff_right hfixed]

theorem remoteCommand_eq (env : Env) (o : Options) :
    remoteCommand env { o with serverCommand := "mosh-server".toList } =
      serverArgv env o.udpPorts ++
        if agentHold env then ["&&".toList, "sleep".toList, "86400".toList] else [] := rfl

/-- The server's shell reads the intended command exactly if the ports and the exported values are
ordinary text, and the ports may begin a word. -/
theorem remoteCommand_read_iff (env : Env) (o : Options) :
    tokens (join (remoteCommand env { o with serverCommand := "mosh-server".toList })) =
        some (intendedTokens env o.udpPorts) ↔
      (o.udpPorts = [] ∨ OrdinaryWord o.udpPorts) ∧
        ∀ name ∈ localeNames, ∀ v, env.nonEmpty name = some v → Ordinary v := by
  rw [← localeVars_ordinary_iff, ← serverArgv_ordinary_iff, remoteCommand_eq, intendedTokens]
  have hne : serverArgv env o.udpPorts ≠ [] := by simp [serverArgv]
  cases agentHold env with
  | false =>
    simp only [Bool.false_eq_true, if_false, List.append_nil]
    exact tokens_join_iff hne
  | true =>
    have hhold : ∀ v ∈ ["sleep".toList, "86400".toList], OrdinaryWord v := by
      intro v hv
      have hcheck : ∀ v ∈ ["sleep".toList, "86400".toList], checkWord v = true := by decide
      exact checkWord_iff.mp (hcheck v hv)
    simp only [if_true]
    rw [join_append hne (by simp)]
    exact tokens_and_iff (by simp) hhold hne

def injectingEnv : Env := ⟨fun name => if name = "LANG" then some "C;id".toList else none, 256⟩

/-- A value that ends the command and runs another. -/
theorem remoteCommand_injected :
    tokens (join (remoteCommand injectingEnv .initial)) ≠
      some (intendedTokens injectingEnv Options.initial.udpPorts) ∧
    tokens (join (remoteCommand injectingEnv .initial)) =
      some (["mosh-server".toList, "new".toList, "-c".toList, "256".toList, "-l".toList, "LANG=C".toList].map .word ++
        [.op ";".toList, .word "id".toList]) := by
  decide

end Tinyhack.Mosh
