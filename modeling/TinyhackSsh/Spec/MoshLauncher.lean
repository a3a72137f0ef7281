import TinyhackSsh.Lib.Words
import TinyhackSsh.Spec.Wire

/-! `mosh-launcher.cc` up to the start of ssh: the option loop of `main` and the
argument vector it builds. The launcher looks for ASCII characters only, so its
byte strings are kept as characters. -/

namespace Tinyhack.Mosh

def splitSpaces (s : JString) : List JString := Words.words (· = ' ') s

structure Options where
  userhost : JString
  udpPorts : JString
  sshPort : JString
  sshCommand : JString
  serverCommand : JString
  predict : JString
  noInit : Bool
  deriving DecidableEq

/-- The values before the loop. -/
def Options.initial : Options := ⟨[], [], [], "ssh".toList, "mosh-server".toList, [], false⟩

/-- How the option loop ends. -/
inductive Parsed
  /-- usage, version, an unknown option, or a second host -/
  | exit (code : ℕ)
  | options (o : Options)
  deriving DecidableEq

/-- The value of an option written `name=value`. -/
def valueOf (name : String) (arg : JString) : Option JString :=
  if name.toList.isPrefixOf arg then some (arg.drop name.length) else none

/-- What the loop does with an argument other than `--`. -/
def readArgument (o : Options) (arg : JString) : Parsed :=
  if arg = "--version".toList then .exit 0
  else if arg = "--help".toList ∨ arg = "-h".toList then .exit 0
  else if let some v := valueOf "--port=" arg then .options { o with udpPorts := v }
  else if let some v := valueOf "--ssh-port=" arg then .options { o with sshPort := v }
  else if let some v := valueOf "--ssh=" arg then .options { o with sshCommand := v }
  else if let some v := valueOf "--server=" arg then .options { o with serverCommand := v }
  else if let some v := valueOf "--predict=" arg then .options { o with predict := v }
  else if arg = "--no-init".toList then .options { o with noInit := true }
  else if arg.head? = some '-' ∧ arg ≠ ['-'] then .exit 1
  else if !o.userhost.isEmpty then .exit 1
  else .options { o with userhost := arg }

/-- The loop, and the check for a host after it. -/
def readOptions (o : Options) : List JString → Parsed
  | [] => if o.userhost.isEmpty then .exit 1 else .options o
  | arg :: args =>
    if arg = "--".toList then
      match args with
      | next :: rest =>
        if o.userhost.isEmpty then readOptions { o with userhost := next } rest else readOptions o (next :: rest)
      | [] => readOptions o []
    else
      match readArgument o arg with
      | .exit code => .exit code
      | .options o' => readOptions o' args

/-- The environment, and the number of colors `mosh-client -c` reports. -/
structure Env where
  getenv : String → Option JString
  colors : ℕ

/-- Set and not empty. -/
def Env.nonEmpty (env : Env) (name : String) : Option JString := (env.getenv name).filter fun v => !v.isEmpty

def isUtf8 (v : JString) : Bool :=
  let s := v.map fun c => if 'A' ≤ c ∧ c ≤ 'Z' then Char.ofNat (c.toNat + 32) else c
  "utf-8".toList <:+: s || "utf8".toList <:+: s

def defaultLocale (env : Env) : JString :=
  ((["LC_ALL", "LC_CTYPE", "LANG"].filterMap env.nonEmpty).find? isUtf8).getD "en_US.UTF-8".toList

def localeVars (env : Env) : List JString :=
  let out := ["LANG", "LANGUAGE", "LC_CTYPE", "LC_ALL"].filterMap fun name =>
    (env.nonEmpty name).map fun v => name.toList ++ '=' :: v
  if out.isEmpty then ["LANG=".toList ++ defaultLocale env] else out

def agentHold (env : Env) : Bool := (env.getenv "SSH_AUTH_SOCK").isSome

/-- The words of the ssh command. -/
def sshWords (o : Options) : List JString :=
  if (splitSpaces o.sshCommand).isEmpty then ["ssh".toList] else splitSpaces o.sshCommand

/-- The options the launcher adds for ssh. -/
def sshOptions (env : Env) (o : Options) : List JString :=
  ["-n".toList] ++ (if o.sshPort.isEmpty then [] else ["-p".toList, o.sshPort]) ++
    (if agentHold env then
      ["-tt".toList, "-o".toList, "ServerAliveInterval=30".toList, "-o".toList, "ServerAliveCountMax=8".toList]
    else [])

def remoteCommand (env : Env) (o : Options) : List JString :=
  [o.serverCommand, "new".toList, "-c".toList, (toString env.colors).toList] ++
    (if o.udpPorts.isEmpty then [] else ["-p".toList, o.udpPorts]) ++
    (localeVars env).flatMap (fun lv => ["-l".toList, lv]) ++
    (if agentHold env then ["&&".toList, "sleep".toList, "86400".toList] else [])

def sshArgv (env : Env) (o : Options) : List JString :=
  sshWords o ++ sshOptions env o ++ o.userhost :: "--".toList :: remoteCommand env o

/-- The argument vector of ssh, unless the launcher exits before it starts ssh. -/
def launch (env : Env) (argv : List JString) : Option (List JString) :=
  match readOptions .initial argv.tail with
  | .exit _ => none
  | .options o => some (sshArgv env o)

end Tinyhack.Mosh
