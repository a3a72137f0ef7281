import TinyhackSsh.Lib.Getopt
import TinyhackSsh.Spec.Launch
import TinyhackSsh.Spec.MoshLauncher

/-! The ssh process that a profile leads to, and what ssh takes from its arguments
about agent forwarding. OpenSSH itself is outside the repository: `Ssh` says which
options it has and what the ones used here do. -/

namespace Tinyhack.Launch

open Profiles Getopt

structure Ssh where
  kind : Char → Kind
  /-- what an argument of `-o` says about `ForwardAgent` -/
  forwardAgentOf : JString → Option Bool
  /-- `ForwardAgent` when no option gives it: from the configuration files, else no -/
  configured : Bool
  kind_A : kind 'A' = .flag
  kind_a : kind 'a' = .flag
  kind_n : kind 'n' = .flag
  kind_t : kind 't' = .flag
  kind_i : kind 'i' = .takesArgument
  kind_o : kind 'o' = .takesArgument
  kind_p : kind 'p' = .takesArgument
  kind_quote : kind '\'' = .unknown
  forwardAgentOf_no : forwardAgentOf "ForwardAgent=no".toList = some false
  forwardAgentOf_interval : forwardAgentOf "ServerAliveInterval=30".toList = none
  forwardAgentOf_countMax : forwardAgentOf "ServerAliveCountMax=8".toList = none

/-- `-A` and `-a` set the option; `-o` gives it a value if it has none yet. -/
def Ssh.reader (ssh : Ssh) : Reader (Option Bool) where
  kind := ssh.kind
  onFlag c v := if c = 'A' then some true else if c = 'a' then some false else v
  onArgument c arg v := if c = 'o' then v.or (ssh.forwardAgentOf arg) else v

/-- The forward-agent setting of ssh started with `args`; `none` if it refuses them. -/
def Ssh.forwardAgent (ssh : Ssh) (args : List JString) : Option Bool :=
  (ssh.reader.run (start none) args).result.map fun v => v.getD ssh.configured

/-- The arguments of the ssh process started for a profile, by the service or by the mosh launcher. -/
def sshProcess (app : App) (env : Mosh.Env) (profile : ConnectionProfile) : Option (List JString) :=
  match profile.type, (createSessionForProfile app (some profile)).arguments with
  | .SSH, some argv => if argv.head? = some "ssh".toList then some argv.tail else none
  | .MOSH, some argv =>
    if argv.head? = some "mosh".toList then (Mosh.launch env argv).map List.tail else none
  | _, _ => none

end Tinyhack.Launch
