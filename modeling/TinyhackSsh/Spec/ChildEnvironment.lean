import TinyhackSsh.Lib.OrderedMap
import TinyhackSsh.Spec.Launch

/-! `nativeCreateSession`: the environment in which the child runs the command of
a session. -/

namespace Tinyhack.Launch

/-- `SshAgentManager.getAgentEnv`. -/
def getAgentEnv (socketPath : JString) : JString := "SSH_AUTH_SOCK=".toList ++ socketPath

/-- The app while its agent runs at a socket, or does not run. -/
def App.withAgent (app : App) (socketPath : Option JString) : App :=
  { app with agentEnv := socketPath.map getAgentEnv }

/-- The name and the value of a string for `putenv`. -/
def assignment (entry : JString) : JString × JString :=
  (entry.takeWhile (· ≠ '='), (entry.dropWhile (· ≠ '=')).tail)

/-- A name without `=` is removed. -/
def putenv (environ : OrderedMap JString JString) (entry : JString) : OrderedMap JString JString :=
  if '=' ∈ entry then environ.put (assignment entry).1 (assignment entry).2 else environ.erase entry

def App.prefixDir (app : App) : JString := app.filesDir ++ "/usr".toList

/-- The variables that every child is given, in the order of the pushes. -/
def baseVariables (app : App) (kittyGraphicsEnabled : Bool) : List (JString × JString) :=
  [("TERM".toList, if kittyGraphicsEnabled then "xterm-kitty".toList else "xterm-256color".toList),
    ("TERM_PROGRAM".toList, "ghostty".toList),
    ("GHOSTTY_BIN_DIR".toList, app.prefixDir ++ "/bin".toList),
    ("TERMINFO".toList, app.prefixDir ++ "/share/terminfo".toList),
    ("COLORTERM".toList, "truecolor".toList),
    ("LANG".toList, "en_US.UTF-8".toList),
    ("SHELL".toList, app.prefixDir ++ "/bin/bash".toList),
    ("PATH".toList, app.prefixDir ++ "/bin:/system/bin:/system/xbin".toList),
    ("HOME".toList, app.homeDir),
    ("PREFIX".toList, app.prefixDir),
    ("TMPDIR".toList, app.prefixDir ++ "/tmp".toList)]

/-- The strings of the session, then those of the base variables. -/
def envpList (app : App) (session : TerminalSession) : List JString :=
  session.envp.getD [] ++ (baseVariables app session.kittyGraphicsEnabled).map fun e => e.1 ++ '=' :: e.2

/-- `environ` at the call of `execve`: `clearenv`, then `putenv` of each string. -/
def childEnviron (app : App) (session : TerminalSession) : OrderedMap JString JString :=
  (envpList app session).foldl putenv OrderedMap.empty

end Tinyhack.Launch
