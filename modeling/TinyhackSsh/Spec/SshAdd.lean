import TinyhackSsh.Spec.Wire

/-! `SshAgentManager.execSshAdd` and `execSshAddWithPassphrase`: a child process whose output
is read to its end before it is waited for. Time is counted in milliseconds from the start. -/

namespace Tinyhack.SshAdd

/-- The paths of the app; `nativeSshAdd` and `fallbackSshAdd` say which of the binaries exist. -/
structure Paths where
  nativeLibraryDir : JString
  filesDir : JString
  socketPath : JString
  oldPath : Option JString
  nativeSshAdd : Bool
  fallbackSshAdd : Bool

def Paths.getSshAddBin (p : Paths) : JString :=
  if p.nativeSshAdd then p.nativeLibraryDir ++ "/libssh-add.so".toList
  else if p.fallbackSshAdd then p.filesDir ++ "/usr/bin/ssh-add".toList
  else "ssh-add".toList

def Paths.getHomeDir (p : Paths) : JString := p.filesDir ++ "/home".toList

def Paths.path (p : Paths) : JString :=
  p.filesDir ++ "/usr/bin:".toList ++ p.oldPath.getD "/system/bin".toList

/-- A `ProcessBuilder` at the call of `start`. -/
structure Spawn where
  command : List JString
  environment : List (JString × JString)
  deriving DecidableEq

def sshAddSpawn (p : Paths) (args : Option (List JString)) : Spawn :=
  { command := p.getSshAddBin :: args.getD []
    environment :=
      [("HOME".toList, p.getHomeDir), ("SSH_AUTH_SOCK".toList, p.socketPath),
        ("SSH_ASKPASS_REQUIRE".toList, "never".toList), ("PATH".toList, p.path)] }

/-- `applyAskpassEnv`. -/
def askpassEnv (p : Paths) (passFile : JString) : List (JString × JString) :=
  [("DISPLAY".toList, "dummy:0".toList), ("SSH_ASKPASS".toList, p.nativeLibraryDir ++ "/libaskpass.so".toList),
    ("SSH_ASKPASS_REQUIRE".toList, "force".toList), ("GHOSTTY_ASKPASS_FILE".toList, passFile)]

def askpassSpawn (p : Paths) (keyPath passFile : JString) : Spawn :=
  { command := [p.getSshAddBin, keyPath]
    environment :=
      [("HOME".toList, p.getHomeDir), ("SSH_AUTH_SOCK".toList, p.socketPath)] ++ askpassEnv p passFile ++
        [("PATH".toList, p.path)] }

/-- What a started process does. -/
structure Child where
  /-- the lines it completes in a millisecond -/
  output : ℕ → List JString
  /-- when its output ends for the reader -/
  closed : Option ℕ
  /-- when it exits, and with which status -/
  exited : Option (ℕ × ℤ)
  /-- what it leaves of the passphrase file -/
  touch : ℕ → Bytes → Option Bytes

def Child.closedBy (child : Child) (t : ℕ) : Bool := child.closed.any (· ≤ t)

def Child.exitedBy (child : Child) (t : ℕ) : Option ℤ := (child.exited.filter (·.1 ≤ t)).map (·.2)

structure ExecResult where
  exitCode : ℤ
  out : JString
  deriving DecidableEq

inductive Phase
  /-- in the `readLine` loop -/
  | reading
  /-- in `waitFor` -/
  | waiting (deadline : ℕ)
  | returned (result : ExecResult)
  /-- `start` has thrown -/
  | threw
  deriving DecidableEq

def Phase.isOver : Phase → Bool
  | .reading | .waiting _ => false
  | .returned _ | .threw => true

/-- A call in progress; `passFile` is what the passphrase file holds, if it exists. -/
structure Call where
  phase : Phase
  out : JString
  passFile : Option Bytes
  deriving DecidableEq

/-- The lines of this millisecond, and the end of the loop. -/
def Call.read (child : Child) (timeoutMs t : ℕ) (c : Call) : Call :=
  match c.phase with
  | .reading =>
    { c with
      out := c.out ++ (child.output t).flatMap (· ++ ['\n'])
      phase := if child.closedBy t then .waiting (t + timeoutMs) else .reading }
  | _ => c

/-- `waitFor`, and the result; 124 is the status of a child that has to be destroyed. -/
def Call.wait (child : Child) (t : ℕ) (c : Call) : Call :=
  match c.phase with
  | .waiting deadline =>
    match child.exitedBy t with
    | some status => { c with phase := .returned ⟨status, c.out⟩ }
    | none => if deadline ≤ t then { c with phase := .returned ⟨124, c.out⟩ } else c
  | _ => c

/-- The zeros written through a new `FileOutputStream`, which creates the file where it is gone. -/
def overwrite (_passFile : Option Bytes) : Option Bytes := some (List.replicate 64 0)

def delete (_passFile : Option Bytes) : Option Bytes := none

def wipePassphraseFile (passFile : Option Bytes) : Option Bytes := delete (overwrite passFile)

/-- The `finally` block of the call with a passphrase. -/
def Call.leave (wipes : Bool) (c : Call) : Call :=
  if wipes && c.phase.isOver then { c with passFile := wipePassphraseFile c.passFile } else c

/-- One millisecond of a call that is not over. -/
def Call.tick (child : Child) (timeoutMs : ℕ) (wipes : Bool) (t : ℕ) (c : Call) : Call :=
  if c.phase.isOver then c
  else
    ((({ c with passFile := c.passFile.bind (child.touch t) } : Call).read child timeoutMs t).wait child t).leave wipes

/-- The call after the milliseconds up to `t`. -/
def Call.after (child : Child) (timeoutMs : ℕ) (wipes : Bool) (c : Call) : ℕ → Call
  | 0 => c.tick child timeoutMs wipes 0
  | t + 1 => (Call.after child timeoutMs wipes c t).tick child timeoutMs wipes (t + 1)

/-- The call from `start` on. -/
def exec (started : Option Child) (timeoutMs : ℕ) (wipes : Bool) (passFile : Option Bytes) (t : ℕ) : Call :=
  match started with
  | none => Call.leave wipes ⟨.threw, [], passFile⟩
  | some child => Call.after child timeoutMs wipes ⟨.reading, [], passFile⟩ t

def execSshAdd (start : Spawn → Option Child) (p : Paths) (args : Option (List JString)) (timeoutMs : ℕ) : ℕ → Call :=
  exec (start (sshAddSpawn p args)) timeoutMs false none

/-- The content `writePassphraseFile` gives the file. -/
def writePassphraseFile (passphrase : JString) : Bytes := Wire.encodeUtf8 passphrase ++ [0x0A]

def execSshAddWithPassphrase (start : Spawn → Option Child) (p : Paths) (keyPath : JString)
    (passphrase : Option JString) (passFile : JString) (timeoutMs : ℕ) : ℕ → Call :=
  let pass := passphrase.getD []
  if pass.isEmpty then execSshAdd start p (some [keyPath]) timeoutMs
  else exec (start (askpassSpawn p keyPath passFile)) timeoutMs true (some (writePassphraseFile pass))

end Tinyhack.SshAdd
