import TinyhackSsh.Lib.Words
import TinyhackSsh.Spec.Profiles
import Mathlib.Data.List.DropRight

/-! `TerminalService.createSessionForProfile`: from a profile to the command,
arguments and environment of a terminal session, with the validation in
`ConnectionProfile` that it calls. The installation and the file system are read
through `App`. -/

namespace Tinyhack.Launch

open Profiles

/-! `String`. -/

/-- `String.trim`. -/
def trim (s : JString) : JString := (s.dropWhile (· ≤ ' ')).rdropWhile (· ≤ ' ')

/-- `s != null ? s.trim() : ""`. -/
def trimOrEmpty (s : Option JString) : JString := trim (s.getD [])

def contains (s pat : JString) : Bool := pat <:+: s

/-- The regular expression class `\s`. -/
def isSpace (c : Char) : Bool := c = ' ' || c = '\t' || c = '\n' || c = '\x0B' || c = '\x0C' || c = '\r'

def decimal (n : ℤ) : JString := (toString n).toList

/-- `String.indexOf`. -/
def indexOf (s pat : JString) : Option ℕ := (List.range s.length).find? fun i => pat.isPrefixOf (s.drop i)

/-- `String.lastIndexOf`. -/
def lastIndexOf (s : JString) (c : Char) : Option ℕ := (List.range s.length).reverse.find? fun i => s[i]? = some c

/-- `Integer.parseInt`, with `Character.digit`. -/
def parseInt (digit : Char → Option ℕ) (s : JString) : Option ℤ :=
  let negative := s.head? = some '-'
  let digits := if s.head? = some '-' ∨ s.head? = some '+' then s.tail else s
  if digits.isEmpty then none
  else do
    let n : ℕ ← digits.foldlM (fun acc c => (digit c).map (acc * 10 + ·)) 0
    let value : ℤ := if negative then -n else n
    if -2 ^ 31 ≤ value ∧ value < 2 ^ 31 then some value else none

/-! `java.io.File`; a file is its path. -/

/-- Without repeated slashes. -/
def mergeSlashes : JString → JString
  | [] => []
  | c :: cs => if c = '/' ∧ cs.head? = some '/' then mergeSlashes cs else c :: mergeSlashes cs

/-- `new File(path)`. -/
def file (path : JString) : JString :=
  let merged := mergeSlashes path
  if merged = ['/'] then merged else merged.rdropWhile (· = '/')

def resolve (parent child : JString) : JString :=
  if child.isEmpty ∨ child = ['/'] then parent
  else if parent = ['/'] then if child.head? = some '/' then child else parent ++ child
  else if child.head? = some '/' then parent ++ child
  else parent ++ '/' :: child

/-- `new File(parent, child)`. -/
def fileIn (parent child : JString) : JString :=
  if parent.isEmpty then file child else resolve (file parent) (file child)

/-- The working directory of an app is the root. -/
def absolutePath (path : JString) : JString := if path.head? = some '/' then path else resolve ['/'] path

def fileName (path : JString) : JString := path.rtakeWhile (· ≠ '/')

/-- The installation, and what the service finds on the device during one call.
The system makes both directories from the package name and text without spaces. -/
structure App where
  nativeLibraryDir : JString
  filesDir : JString
  fileExists : JString → Bool
  isDirectory : JString → Bool
  canExecute : JString → Bool
  /-- `readAndroidSecurityKey(file) != null` -/
  isAndroidSecurityKey : JString → Bool
  /-- `SSH_AUTH_SOCK=…` while the agent is running -/
  agentEnv : Option JString
  /-- `Character.digit(c, 10)` -/
  digit : Char → Option ℕ
  nativeLibraryDir_noSpace : ' ' ∉ nativeLibraryDir
  filesDir_noSpace : ' ' ∉ filesDir

/-! `ConnectionProfile`. -/

def isHostChar (c : Char) : Bool :=
  ('a' ≤ c && c ≤ 'z') || ('A' ≤ c && c ≤ 'Z') || ('0' ≤ c && c ≤ '9') || c = '.' || c = '-' || c = '_' || c = ':'

def isValidHost (host : JString) : Bool := !host.isEmpty && host.all isHostChar

def hostValidationError (host : Option JString) (fieldLabel : JString) : Option JString :=
  let h := trimOrEmpty host
  if h.isEmpty then some (fieldLabel ++ " is required".toList)
  else if contains h "@".toList then
    some (fieldLabel ++ " must not contain '@' (put the username in the User field)".toList)
  else if !isValidHost h then
    some (fieldLabel ++ (" contains invalid characters (spaces and symbols are not allowed; " ++
      "only letters, digits, '.', '-', '_', and ':' for IPv6)").toList)
  else none

/-- The host and the port text of a destination, or the message. -/
def splitDestination (value : JString) : Except JString (JString × JString) :=
  if value.head? = some '[' then
    match indexOf value "]:".toList with
    | some last =>
      if last ≤ 1 then .error "Destination must be host:port or [IPv6]:port".toList
      else .ok ((value.take last).drop 1, value.drop (last + 2))
    | none => .error "Destination must be host:port or [IPv6]:port".toList
  else
    match lastIndexOf value ':' with
    | some colon =>
      if colon = 0 ∨ colon = value.length - 1 then .error "Destination must be host:port".toList
      else .ok (value.take colon, value.drop (colon + 1))
    | none => .error "Destination must be host:port".toList

def destinationValidationError (app : App) (destination : Option JString) : Option JString :=
  let value := trimOrEmpty destination
  if value.isEmpty then none
  else
    match splitDestination value with
    | .error message => some message
    | .ok (host, portText) =>
      if !isValidHost host then some "Destination host contains invalid characters".toList
      else
        match parseInt app.digit portText with
        | none => some "Destination port must be a number".toList
        | some parsedPort =>
          if parsedPort < 1 ∨ parsedPort > 65535 then some "Destination port must be between 1 and 65535".toList
          else none

/-! `TerminalService`. -/

def shellQuote (value : JString) : JString :=
  '\'' :: value.flatMap (fun c => if c = '\'' then "'\"'\"'".toList else [c]) ++ ['\'']

def shellQuoteForProxy (value : JString) : JString :=
  shellQuote (value.flatMap fun c => if c = '%' then "%%".toList else [c])

/-- What `new TerminalSession` is given. -/
structure TerminalSession where
  command : JString
  workDir : JString
  arguments : Option (List JString)
  envp : Option (List JString)
  profileId : Option JString
  sessionName : Option JString
  kittyGraphicsEnabled : Bool
  osc52ClipboardEnabled : Bool
  notificationsEnabled : Bool
  deriving DecidableEq

def injectAgentEnv (app : App) (envp : Option (List JString)) : Option (List JString) :=
  match app.agentEnv with
  | none => envp
  | some agentEnv =>
    match envp with
    | none => some [agentEnv]
    | some envp =>
      if envp.any fun e => "SSH_AUTH_SOCK=".toList.isPrefixOf e then some envp else some (envp ++ [agentEnv])

def App.homeDir (app : App) : JString := app.filesDir ++ "/home".toList

def createSessionInternal (app : App) (cmd cwd : Option JString) (argv envp : Option (List JString))
    (profileId sessionName : Option JString) (kittyGraphicsEnabled osc52ClipboardEnabled notificationsEnabled : Bool) :
    TerminalSession :=
  let bashBin := fileIn app.nativeLibraryDir "libbash.so".toList
  let (command, arguments) := match cmd with
    | some cmd => (cmd, argv)
    | none =>
      if app.fileExists bashBin then (absolutePath bashBin, some (argv.getD ["bash".toList, "-l".toList]))
      else ("/system/bin/sh".toList, argv)
  { command := command
    workDir := cwd.getD app.homeDir
    arguments := arguments
    envp := injectAgentEnv app envp
    profileId := profileId
    sessionName := sessionName
    kittyGraphicsEnabled := kittyGraphicsEnabled
    osc52ClipboardEnabled := osc52ClipboardEnabled
    notificationsEnabled := notificationsEnabled }

/-- With the capabilities of the profile. -/
def App.start (app : App) (profile : ConnectionProfile) (cmd : Option JString) (workDir : JString)
    (argv envp : Option (List JString)) : TerminalSession :=
  createSessionInternal app cmd (some workDir) argv envp (some profile.id) profile.name profile.kittyGraphicsEnabled
    profile.osc52ClipboardEnabled profile.terminalNotificationsEnabled

/-- A shell that first says why there is no connection. -/
def App.refuse (app : App) (profile : ConnectionProfile) (script : String) (args : List JString) : TerminalSession :=
  let busybox := fileIn app.nativeLibraryDir "libbusybox.so".toList
  let shBin := if app.fileExists busybox then absolutePath busybox else "sh".toList
  createSessionInternal app (some shBin) (some app.homeDir) (some ("sh".toList :: "-c".toList :: script.toList :: args))
    none (some profile.id) profile.name false false false

/-- The local shell opened for a profile without a host. -/
def App.fallback (app : App) (profile : ConnectionProfile) : TerminalSession :=
  createSessionInternal app none none none none (some profile.id) profile.name false false false

/-- A program of the installation: the native library, else the file under `usr/bin`, else its name. -/
def App.program (app : App) (library name : String) : JString :=
  let bin := fileIn app.nativeLibraryDir library.toList
  let bin := if app.fileExists bin then bin else fileIn app.filesDir ("usr/bin/" ++ name).toList
  if app.fileExists bin then absolutePath bin else name.toList

def App.sshPath (app : App) : JString := app.program "libssh.so" "ssh"

def identityPath (app : App) (profile : ConnectionProfile) : Option JString :=
  match profile.keyName with
  | none => none
  | some keyName =>
    if profile.authType ≠ .KEY ∨ keyName.isEmpty then none
    else
      let keyFile := file (app.homeDir ++ "/.ssh/".toList ++ keyName)
      if app.isAndroidSecurityKey keyFile then some (absolutePath keyFile ++ ".pub".toList)
      else if app.fileExists keyFile then some (absolutePath keyFile)
      else if app.fileExists (file keyName) then some (absolutePath (file keyName))
      else none

/-- `sshArgs`, split at white space. -/
def extraArgs (profile : ConnectionProfile) : List JString := Words.words isSpace (trimOrEmpty profile.sshArgs)

def hostOf (profile : ConnectionProfile) : JString := trimOrEmpty profile.host

def userOf (profile : ConnectionProfile) : JString := trimOrEmpty profile.username

/-- `user@host`. -/
def target (profile : ConnectionProfile) : JString :=
  if (userOf profile).isEmpty then hostOf profile else userOf profile ++ '@' :: hostOf profile

def forwardAgentOption (profile : ConnectionProfile) : JString :=
  "ForwardAgent=".toList ++ (if profile.agentForwardingEnabled then "yes" else "no").toList

def hasPort (profile : ConnectionProfile) : Bool := profile.port ≠ 22 && profile.port > 0

/-- The value of `--ssh=`. -/
def moshSshCommand (app : App) (profile : ConnectionProfile) : JString :=
  app.sshPath ++ " -o ".toList ++ forwardAgentOption profile ++
    (match identityPath app profile with
      | some path => " -i ".toList ++ shellQuote path
      | none => [])

def moshArgs (app : App) (profile : ConnectionProfile) : List JString :=
  ["mosh".toList, "--ssh=".toList ++ moshSshCommand app profile] ++
    (if hasPort profile then ["--ssh-port=".toList ++ decimal profile.port] else []) ++
    extraArgs profile ++ [target profile]

def moshSession (app : App) (profile : ConnectionProfile) : TerminalSession :=
  if (hostOf profile).isEmpty then app.fallback profile
  else app.start profile (some (app.program "libmosh.so" "mosh")) app.homeDir (some (moshArgs app profile)) none

def identityArgs (app : App) (profile : ConnectionProfile) : List JString :=
  match identityPath app profile with
  | some path => ["-i".toList, path]
  | none => []

def portArgs (profile : ConnectionProfile) : List JString :=
  if hasPort profile then ["-p".toList, decimal profile.port] else []

/-- The arguments of ssh; `proxy` is the options for cloudflared. -/
def sshArgs (app : App) (profile : ConnectionProfile) (proxy : List JString) : List JString :=
  "ssh".toList :: (identityArgs app profile ++ portArgs profile ++ ["-o".toList, forwardAgentOption profile] ++ proxy ++
    extraArgs profile ++ [target profile])

/-- The end of the SSH case. -/
def sshSession (app : App) (profile : ConnectionProfile) (proxy : List JString) (envp : Option (List JString)) :
    TerminalSession :=
  if (hostOf profile).isEmpty then app.fallback profile
  else app.start profile (some app.sshPath) app.homeDir (some (sshArgs app profile proxy)) envp

def cloudflaredHost (profile : ConnectionProfile) : JString :=
  if (trimOrEmpty profile.cloudflaredHostname).isEmpty then hostOf profile
  else trimOrEmpty profile.cloudflaredHostname

def proxyCommand (app : App) (profile : ConnectionProfile) : JString :=
  let cfNative := fileIn app.nativeLibraryDir "libcloudflared.so".toList
  let cfPath := if app.fileExists cfNative then absolutePath cfNative
    else absolutePath (fileIn app.filesDir "usr/bin/cloudflared".toList)
  let dest := trimOrEmpty profile.cloudflaredDestination
  shellQuoteForProxy cfPath ++ " access ssh --hostname ".toList ++ shellQuoteForProxy (cloudflaredHost profile) ++
    (if dest.isEmpty then [] else " --destination ".toList ++ shellQuoteForProxy dest)

def hasTokenId (profile : ConnectionProfile) : Bool := !(trimOrEmpty profile.cloudflaredServiceTokenId).isEmpty

def hasTokenSecret (profile : ConnectionProfile) : Bool := !(profile.cloudflaredServiceTokenSecret.getD []).isEmpty

/-- The variables `cloudflared` inherits from ssh. -/
def tokenEnv (profile : ConnectionProfile) : Option (List JString) :=
  if hasTokenId profile then
    some ["TUNNEL_SERVICE_TOKEN_ID=".toList ++ trimOrEmpty profile.cloudflaredServiceTokenId,
      "TUNNEL_SERVICE_TOKEN_SECRET=".toList ++ profile.cloudflaredServiceTokenSecret.getD []]
  else none

/-- The SSH case with Cloudflare Access and a host for it. -/
def cloudflaredSession (app : App) (profile : ConnectionProfile) : TerminalSession :=
  let cfHostError := hostValidationError (some (cloudflaredHost profile)) "Cloudflared hostname".toList
  match cfHostError.or (destinationValidationError app profile.cloudflaredDestination) with
  | some message => app.refuse profile "printf 'Cannot connect: %s\\n\\n' \"$1\"; exec sh" ["sh".toList, message]
  | none =>
    let hasProxy := contains (profile.sshArgs.getD []) "ProxyCommand".toList
    if hasProxy then sshSession app profile [] none
    else if hasTokenId profile ≠ hasTokenSecret profile then
      app.refuse profile
        "printf '%s\\n\\n' 'Cannot connect: Cloudflare service token ID and secret must both be set.'; exec sh" []
    else sshSession app profile ["-o".toList, "ProxyCommand=".toList ++ proxyCommand app profile] (tokenEnv profile)

def remoteSession (app : App) (profile : ConnectionProfile) (isMosh : Bool) : TerminalSession :=
  if isMosh && profile.cloudflaredEnabled then
    app.refuse profile ("printf '%s\\n\\n' 'Cannot connect: Cloudflare Access is supported for SSH profiles only " ++
      "because Mosh requires a direct UDP path.'; exec sh") []
  else if !(hostOf profile).isEmpty && !isValidHost (hostOf profile) then
    let msg := "Cannot connect: profile '".toList ++ profile.name.getD "null".toList ++
      "' has an invalid host '".toList ++ hostOf profile ++ "'.".toList
    app.refuse profile ("printf '%s\\n' \"$1\"; printf '%s\\n\\n' 'Host names cannot contain spaces, @, " ++
      "or other special characters.'; exec sh") ["sh".toList, msg]
  else if isMosh then moshSession app profile
  else if profile.cloudflaredEnabled && !(cloudflaredHost profile).isEmpty then cloudflaredSession app profile
  else sshSession app profile [] none

/-- The command and arguments of a local profile's shell. -/
def localShell (app : App) (profile : ConnectionProfile) : Option JString × Option (List JString) :=
  let shell := profile.shell.getD []
  if shell.isEmpty then (none, none)
  else if app.fileExists (file shell) && app.canExecute (file shell) then
    (some (absolutePath (file shell)), some [fileName (file shell), "-l".toList])
  else if contains shell "/".toList then (some shell, none)
  else if app.fileExists (fileIn app.filesDir ("usr/bin/".toList ++ shell)) then
    (some (absolutePath (fileIn app.filesDir ("usr/bin/".toList ++ shell))), some [shell, "-l".toList])
  else
    let lib := fileIn app.nativeLibraryDir ("lib".toList ++ shell ++ ".so".toList)
    if app.fileExists lib then (some (absolutePath lib), some [shell, "-l".toList]) else (none, none)

def umlArgs (app : App) (profile : ConnectionProfile) : List JString :=
  ["bash".toList, absolutePath (fileIn app.filesDir "usr/libexec/uml-env".toList), "start".toList,
      profile.umlEnvironment.getD []] ++
    (if profile.umlMemoryMb > 0 then ["--memory".toList, decimal profile.umlMemoryMb ++ ['M']] else [])

/-- The assignments among the lines of `env`. -/
def localEnv (profile : ConnectionProfile) : Option (List JString) :=
  let lines := (Words.words (· = '\n') (profile.env.getD [])).map trim
  let envList := lines.filter fun line => line.head? ≠ some '#' && contains line "=".toList
  if envList.isEmpty then none else some envList

def localSession (app : App) (profile : ConnectionProfile) : TerminalSession :=
  let cwd := profile.cwd.getD []
  let workDir := if !cwd.isEmpty && app.isDirectory (file cwd) then absolutePath (file cwd) else app.homeDir
  if (profile.umlEnvironment.getD []).isEmpty then
    app.start profile (localShell app profile).1 workDir (localShell app profile).2 (localEnv profile)
  else
    app.start profile (some (absolutePath (fileIn app.nativeLibraryDir "libbash.so".toList))) app.homeDir
      (some (umlArgs app profile)) (localEnv profile)

def createSessionForProfile (app : App) (profile : Option ConnectionProfile) : TerminalSession :=
  match profile with
  | none => createSessionInternal app none none none none none none false false false
  | some profile =>
    match profile.type with
    | .SSH => remoteSession app profile false
    | .MOSH => remoteSession app profile true
    | .LOCAL => localSession app profile

end Tinyhack.Launch
