import TinyhackSsh.Lib.Runs

/-! `SshAgentManager`'s lifecycle: starting and stopping the agent, the calls that
start it when it is down, and the auto-load threads a start leaves behind. Every
synchronized method is one step. What the platform answers (`LocalServerSocket`,
`ssh-agent`, `ssh-add -l`) is part of the action; removing a file of the app's own
directory succeeds, and only an `ssh-agent` that `startAgent` launched makes the
socket file, this time or in an earlier life of the app. -/

namespace Tinyhack.AgentManager

structure State where
  /-- `javaServer != null && javaServer.isRunning()` -/
  javaRunning : Bool
  /-- null, or a process that is alive or has exited -/
  agentProcess : Option Bool
  /-- `socketFile.exists()` -/
  socketExists : Bool
  /-- the preferences `agent_locked` and `agent_autostart` -/
  locked : Bool
  autoStart : Bool
  /-- the auto-load threads that have not had the monitor yet, each with the number
  of `stopAgent` calls before it was scheduled -/
  autoLoads : List ℕ
  stops : ℕ
  /-- a `stopAgent` has returned, and since the last one nobody but auto-load threads
  scheduled before it has called a method that may start the agent -/
  stopped : Bool
  deriving DecidableEq

def init (socketExists locked autoStart : Bool) : State where
  javaRunning := false
  agentProcess := none
  socketExists := socketExists
  locked := locked
  autoStart := autoStart
  autoLoads := []
  stops := 0
  stopped := false

/-- How launching `ssh-agent -a` goes. -/
inductive Launch
  /-- the socket is there within 3 s; the shell may have exited by then -/
  | listens (alive : Bool)
  /-- a non-zero exit before that -/
  | exits
  | silent (alive : Bool)
  /-- an exception -/
  | fails
  deriving DecidableEq

/-- The platform's answers to one `startAgent`. -/
structure Answers where
  /-- `ssh-add -l` exits with 0 or 1 -/
  probe : Bool
  /-- `javaServer.start()` -/
  java : Bool
  launch : Launch
  deriving DecidableEq

namespace State

/-- An exited process is forgotten on the way. -/
def isAgentRunning (s : State) (probe : Bool) : State × Bool :=
  if s.javaRunning then (s, true)
  else
    let s := if s.agentProcess = some false then { s with agentProcess := none } else s
    if !s.socketExists then (s, s.agentProcess.isSome) else (s, probe)

def scheduleAutoLoad (s : State) : State := { s with autoLoads := s.autoLoads ++ [s.stops] }

/-- The fallback to the native agent: stale daemons are killed and their socket removed. -/
def startNative (s : State) : Launch → State × Bool
  | .listens alive =>
    (({ s with agentProcess := some alive, socketExists := true, locked := false } : State).scheduleAutoLoad, true)
  | .exits | .fails => ({ s with agentProcess := none, socketExists := false }, false)
  | .silent alive => ({ s with agentProcess := some alive, socketExists := false }, false)

def startAgent (s : State) (o : Answers) : State × Bool :=
  let (s, running) := s.isAgentRunning o.probe
  if running then (s, true)
  else if o.java then
    (({ s with javaRunning := true, locked := false, agentProcess := none } : State).scheduleAutoLoad, true)
  else s.startNative o.launch

/-- Returns whether the agent was running. -/
def stopAgent (s : State) (probe : Bool) : State × Bool :=
  let (s, wasRunning) := s.isAgentRunning probe
  ({ s with javaRunning := false, agentProcess := none, socketExists := false, locked := false }, wasRunning)

def ensureAgentRunning (s : State) (probe probeAgain : Bool) (o : Answers) : State × Bool :=
  if s.autoStart then
    let (s, running) := s.isAgentRunning probe
    if running then s.isAgentRunning probeAgain else s.startAgent o
  else s.isAgentRunning probeAgain

/-- How `addKey` and `addAllKeys` begin: start the agent unless it is running, and give up if that fails. -/
def bringUp (s : State) (probe : Bool) (o : Answers) : State × Bool :=
  let (s, running) := s.isAgentRunning probe
  if running then (s, true) else s.startAgent o

/-- `addKey` for a key file; `added` is what becomes of it once the agent is up and unlocked. -/
def addKey (s : State) (probe : Bool) (o : Answers) (added : Bool) : State × Bool :=
  let (s, up) := s.bringUp probe o
  if !up then (s, false) else if s.locked then (s, false) else (s, added)

end State

/-- What the calls inside one `addKey` are answered. -/
structure KeyAnswers where
  probe : Bool
  start : Answers
  added : Bool
  deriving DecidableEq

namespace State

/-- The loop of `addAllKeys` over the private key files. -/
def addKeys (s : State) : List KeyAnswers → State × Bool
  | [] => (s, true)
  | k :: ks =>
    let (s, ok) := s.addKey k.probe k.start k.added
    let (s, allOk) := s.addKeys ks
    (s, ok && allOk)

def addAllKeys (s : State) (probe : Bool) (o : Answers) (keys : List KeyAnswers) : State × Bool :=
  let (s, up) := s.bringUp probe o
  if !up then (s, false) else if s.locked then (s, false) else s.addKeys keys

end State

inductive Action
  | startAgent (o : Answers)
  | stopAgent (probe : Bool)
  | ensureAgentRunning (probe probeAgain : Bool) (o : Answers)
  | addKey (probe : Bool) (o : Answers) (added : Bool)
  | addAllKeys (probe : Bool) (o : Answers) (keys : List KeyAnswers)
  /-- a waiting auto-load thread gets the monitor and runs `addAllKeys` -/
  | autoLoad (i : ℕ) (probe : Bool) (o : Answers) (keys : List KeyAnswers)
  /-- `isAgentRunning`, `listKeys`, `removeKey`, `removeAllKeys`, `getKeyCount` -/
  | query (probe : Bool)
  | setLocked (locked : Bool)
  | setAutoStart (auto : Bool)
  | processExits
  /-- a launched `ssh-agent` binds its socket late, or removes it -/
  | socketAppears
  | socketVanishes
  deriving DecidableEq

/-- Someone has called a method that may start the agent. -/
def called (s : State) : State := { s with stopped := false }

def step (s : State) : Action → Option State
  | .startAgent o => some (called (s.startAgent o).1)
  | .stopAgent probe => some { (s.stopAgent probe).1 with stops := s.stops + 1, stopped := true }
  | .ensureAgentRunning probe probeAgain o => some (called (s.ensureAgentRunning probe probeAgain o).1)
  | .addKey probe o added => some (called (s.addKey probe o added).1)
  | .addAllKeys probe o keys => some (called (s.addAllKeys probe o keys).1)
  | .autoLoad i probe o keys => do
    let scheduled ← s.autoLoads[i]?
    let s' := (({ s with autoLoads := s.autoLoads.eraseIdx i } : State).addAllKeys probe o keys).1
    -- scheduled before the last stop, it gives the agent no right to run
    some (if scheduled < s.stops then s' else called s')
  | .query probe => some (s.isAgentRunning probe).1
  | .setLocked locked => some { s with locked := locked }
  | .setAutoStart auto => some { s with autoStart := auto }
  | .processExits => if s.agentProcess = some true then some { s with agentProcess := some false } else none
  | .socketAppears => if s.agentProcess = some true then some { s with socketExists := true } else none
  | .socketVanishes => some { s with socketExists := false }

/-- `isAgentRunning()` can answer true. -/
def State.Running (s : State) : Prop := ∃ probe, (s.isAgentRunning probe).2 = true

instance (s : State) : Decidable s.Running :=
  inferInstanceAs (Decidable (∃ probe : Bool, (s.isAgentRunning probe).2 = true))

/-- Any step but another `stopAgent`. -/
def NoStop (_ : State) (a : Action) : Prop := ∀ probe, a ≠ .stopAgent probe

instance (s : State) (a : Action) : Decidable (NoStop s a) :=
  inferInstanceAs (Decidable (∀ probe : Bool, a ≠ .stopAgent probe))

end Tinyhack.AgentManager
