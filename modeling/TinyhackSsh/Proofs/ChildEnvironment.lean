import TinyhackSsh.Spec.ChildEnvironment
import TinyhackSsh.Proofs.Launch

/-! What the environment text of a local profile does to the environment of its
shell. The base variables are put last, so they are as built in; `TERM` follows
the Kitty switch of the profile alone. -/

namespace Tinyhack.Launch

open Profiles (ConnectionProfile)
open OrderedMap (lastValue lastValue_append lastValue_eq_none lastValue_of_nodup get?_putAll)

/-- The `NAME=VALUE` lines of an environment text that are no comments. -/
def envLines (text : JString) : List JString :=
  ((Words.words (· = '\n') text).map trim).filter fun line => line.head? ≠ some '#' ∧ '=' ∈ line

/-! Assignments. -/

theorem assignment_entry {name : JString} (h : '=' ∉ name) (value : JString) :
    assignment (name ++ '=' :: value) = (name, value) := by
  have hne : ∀ c ∈ name, decide (c ≠ '=') = true := fun c hc => decide_eq_true fun he => h (he ▸ hc)
  rw [assignment, List.takeWhile_append_of_pos hne, List.dropWhile_append_of_pos hne]
  simp

theorem entry_of_assignment {entry : JString} (h : '=' ∈ entry) :
    (assignment entry).1 ++ '=' :: (assignment entry).2 = entry := by
  induction entry with
  | nil => cases h
  | cons c entry ih =>
    by_cases hc : c = '='
    · simp [assignment, hc]
    · have htail : '=' ∈ entry := (List.mem_cons.mp h).resolve_left (Ne.symm hc)
      simpa [assignment, hc] using ih htail

theorem foldl_putenv {l : List JString} (hl : ∀ e ∈ l, '=' ∈ e) (environ : OrderedMap JString JString) :
    l.foldl putenv environ = environ.putAll (l.map assignment) := by
  induction l generalizing environ with
  | nil => rfl
  | cons e l ih =>
    have he : putenv environ e = environ.put (assignment e).1 (assignment e).2 := if_pos (hl e List.mem_cons_self)
    rw [List.foldl_cons, he, ih fun x hx => hl x (List.mem_cons_of_mem e hx)]
    rfl

/-! The strings of a local session: the lines of the text, and the agent's socket
unless a line names one. -/

theorem localEnv_getD (profile : ConnectionProfile) :
    (localEnv profile).getD [] = envLines (profile.env.getD []) := by
  have hlines : (((Words.words (· = '\n') (profile.env.getD [])).map trim).filter fun line =>
      line.head? ≠ some '#' && contains line "=".toList) = envLines (profile.env.getD []) := by
    apply List.filter_congr
    intro line _
    have hcontains : contains line "=".toList = decide ('=' ∈ line) :=
      decide_eq_decide.mpr (List.singleton_infix_iff '=' line)
    rw [hcontains, Bool.decide_and]
  simp only [localEnv, hlines]
  split_ifs with hnil
  · exact (List.isEmpty_iff.mp hnil).symm
  · rfl

theorem injectAgentEnv_getD (app : App) (socketPath : Option JString) (envp : Option (List JString)) :
    ∃ agent, (injectAgentEnv (app.withAgent socketPath) envp).getD [] = envp.getD [] ++ agent ∧
      ∀ e ∈ agent, (∃ path, e = getAgentEnv path) ∧
        ∀ line ∈ envp.getD [], ¬ "SSH_AUTH_SOCK=".toList.isPrefixOf line := by
  cases socketPath with
  | none => exact ⟨[], (List.append_nil _).symm, by simp⟩
  | some path =>
    cases envp with
    | none =>
      refine ⟨[getAgentEnv path], rfl, ?_⟩
      intro e he
      exact ⟨⟨path, List.mem_singleton.mp he⟩, fun line hline => absurd hline List.not_mem_nil⟩
    | some envp =>
      have hinject : injectAgentEnv (app.withAgent (some path)) (some envp) =
        if envp.any fun e => "SSH_AUTH_SOCK=".toList.isPrefixOf e then some envp
        else some (envp ++ [getAgentEnv path]) := rfl
      rw [hinject]
      split_ifs with hany
      · exact ⟨[], (List.append_nil _).symm, by simp⟩
      · refine ⟨[getAgentEnv path], rfl, ?_⟩
        intro e he
        refine ⟨⟨path, List.mem_singleton.mp he⟩, ?_⟩
        intro line hline hprefix
        exact hany (List.any_eq_true.mpr ⟨line, hline, hprefix⟩)

/-- A line that defines the agent's variable starts as `injectAgentEnv` looks for. -/
theorem isPrefixOf_of_agent {line path : JString} (hline : '=' ∈ line)
    (h : (assignment line).1 = (assignment (getAgentEnv path)).1) : "SSH_AUTH_SOCK=".toList.isPrefixOf line := by
  have hname : '=' ∉ "SSH_AUTH_SOCK".toList := by decide
  have hagent : assignment (getAgentEnv path) = ("SSH_AUTH_SOCK".toList, path) := assignment_entry hname path
  have hentry := entry_of_assignment hline
  rw [h, hagent] at hentry
  rw [List.isPrefixOf_iff_prefix]
  exact ⟨(assignment line).2, hentry⟩

theorem mem_eq_of_envLines {text line : JString} (h : line ∈ envLines text) : '=' ∈ line :=
  (of_decide_eq_true (List.mem_filter.mp h).2).2

theorem local_session (app : App) {profile : ConnectionProfile} (h : profile.type = .LOCAL) :
    (createSessionForProfile app (some profile)).envp = injectAgentEnv app (localEnv profile) ∧
      (createSessionForProfile app (some profile)).kittyGraphicsEnabled = profile.kittyGraphicsEnabled := by
  have hlocal : createSessionForProfile app (some profile) = localSession app profile := by
    simp only [createSessionForProfile, h]
  rw [hlocal]
  unfold localSession
  split_ifs <;> exact ⟨rfl, rfl⟩

/-! The base variables. -/

def baseNames : List JString :=
  ["TERM".toList, "TERM_PROGRAM".toList, "GHOSTTY_BIN_DIR".toList, "TERMINFO".toList, "COLORTERM".toList,
    "LANG".toList, "SHELL".toList, "PATH".toList, "HOME".toList, "PREFIX".toList, "TMPDIR".toList]

theorem baseVariables_names (app : App) (kitty : Bool) : (baseVariables app kitty).map Prod.fst = baseNames := rfl

theorem baseNames_nodup : baseNames.Nodup := by decide

theorem not_mem_of_baseNames {name : JString} (h : name ∈ baseNames) : '=' ∉ name := by
  have hall : ∀ name ∈ baseNames, '=' ∉ name := by decide
  exact hall name h

/-- The strings of the base variables assign them. -/
theorem base_assignments (app : App) (kitty : Bool) :
    ((baseVariables app kitty).map fun e => e.1 ++ '=' :: e.2).map assignment = baseVariables app kitty := by
  rw [List.map_map]
  calc
    _ = (baseVariables app kitty).map id := by
      apply List.map_congr_left
      intro e he
      have hname : e.1 ∈ baseNames := List.mem_map_of_mem he
      exact assignment_entry (not_mem_of_baseNames hname) e.2
    _ = _ := List.map_id _

/-- A base variable is put after every string of the session. -/
theorem get?_childEnviron (app : App) (session : TerminalSession) (h : ∀ e ∈ session.envp.getD [], '=' ∈ e)
    (name : JString) : (childEnviron app session).get? name =
      (lastValue (baseVariables app session.kittyGraphicsEnabled) name).or
        (lastValue ((session.envp.getD []).map assignment) name) := by
  have hall : ∀ e ∈ envpList app session, '=' ∈ e := by
    intro e he
    rcases List.mem_append.mp he with he | he
    · exact h e he
    · obtain ⟨e, -, rfl⟩ := List.mem_map.mp he
      simp
  have hempty : (OrderedMap.empty : OrderedMap JString JString).get? name = none := rfl
  rw [childEnviron, foldl_putenv hall, get?_putAll, hempty, Option.or_none, envpList, List.map_append,
    base_assignments, lastValue_append]

/-- The agent's socket takes no name that a line defines. -/
theorem lastValue_with_agent {lines agent : List JString} (hlines : ∀ line ∈ lines, '=' ∈ line)
    (hagent : ∀ e ∈ agent, (∃ path, e = getAgentEnv path) ∧
      ∀ line ∈ lines, ¬ "SSH_AUTH_SOCK=".toList.isPrefixOf line) {name value : JString}
    (h : lastValue (lines.map assignment) name = some value) :
    lastValue ((lines ++ agent).map assignment) name = some value := by
  have hnone : lastValue (agent.map assignment) name = none := by
    apply lastValue_eq_none
    intro hmem
    rw [List.map_map] at hmem
    obtain ⟨e, he, hname⟩ := List.mem_map.mp hmem
    obtain ⟨⟨path, rfl⟩, hfree⟩ := hagent e he
    have hdefined : name ∈ (lines.map assignment).map Prod.fst := by
      by_contra hnot
      rw [lastValue_eq_none hnot] at h
      cases h
    rw [List.map_map] at hdefined
    obtain ⟨line, hline, hline'⟩ := List.mem_map.mp hdefined
    exact hfree line hline (isPrefixOf_of_agent (hlines line hline) (hline'.trans hname.symm))
  rw [List.map_append, lastValue_append, hnone, Option.none_or, h]

/-- A local profile with an environment text. -/
def localProfile (env : String) : ConnectionProfile :=
  { Profiles.newProfile "l".toList "L".toList .LOCAL 0 with env := some env.toList }

end Tinyhack.Launch
