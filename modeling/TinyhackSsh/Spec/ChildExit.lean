import TinyhackSsh.Lib.Runs

/-! The child process of a session: the watcher thread in `nativeWaitChild`, calls of `close`
with their `nativeClose`, and the exit of the child. `nativeWaitChild` takes no lock.
What `nativeClose` does besides (the terminal, the reader thread, Ghostty) does not touch
the child, and other holders of `session_mutex` only delay it. -/

namespace Tinyhack.ChildExit

inductive Child
  | running
  | zombie
  /-- `waitpid` has returned its status, and the pid is free again -/
  | reaped
  deriving DecidableEq

/-- The next step of the thread that `startWatcherThread` starts. -/
inductive Watcher
  /-- `if (sessionPtr != 0)` -/
  | testPtr
  /-- the argument of `nativeWaitChild` -/
  | readPtr
  /-- `session->child_pid <= 0` -/
  | testPid
  /-- the argument of `waitpid` -/
  | readPid
  | waitpid (pid : ℤ)
  | done
  deriving DecidableEq

/-- The next step of a call of `close`, and from `callNative` on of `nativeClose`. -/
inductive Closer
  | compareAndSet
  /-- `ptr = sessionPtr; sessionPtr = 0`, in the monitor -/
  | takePtr
  /-- `if (ptr != 0)` -/
  | callNative (ptr : Bool)
  | lock
  /-- test and set `is_closed` -/
  | shut
  /-- `if (session->child_pid > 0) kill(session->child_pid, SIGHUP)` -/
  | signal
  | unlock (delete : Bool)
  | delete
  | done
  deriving DecidableEq

structure State where
  /-- `sessionPtr != 0` -/
  sessionPtr : Bool
  isClosed : Bool
  sessionMutex : Bool
  /-- `session->is_closed` -/
  nativeClosed : Bool
  freed : Bool
  /-- `child_pid`: set once, to what `fork` returned -/
  childPid : ℤ
  child : Child
  watcher : Watcher
  closers : List Closer
  /-- every SIGHUP sent: to which pid, and what had become of the child -/
  hups : List (ℤ × Child)
  deriving DecidableEq

/-- After the constructor, with the watcher started. -/
def init (pid : ℤ) : State := ⟨true, false, false, false, false, pid, .running, .testPtr, [], []⟩

namespace State

/-- `session->child_pid`; `stale` is what is found in a deleted session. -/
def readChildPid (s : State) (stale : ℤ) : ℤ := if s.freed then stale else s.childPid

/-- `waitpid` returns: with the child's status, or without (interrupted, no such child, or
the status of another child). An argument that is not positive stands for several children. -/
def waitpidReturns (s : State) (pid : ℤ) (reaps : Bool) : Option State :=
  if reaps then
    if s.child = .zombie ∧ (pid = s.childPid ∨ pid ≤ 0) then some { s with child := .reaped, watcher := .done }
    else none
  else some { s with watcher := .done }

def watch (s : State) (stale : ℤ) (reaps : Bool) : Option State :=
  match s.watcher with
  | .testPtr => some { s with watcher := if s.sessionPtr then .readPtr else .done }
  | .readPtr => some { s with watcher := if s.sessionPtr then .testPid else .done }
  | .testPid => some { s with watcher := if s.readChildPid stale ≤ 0 then .done else .readPid }
  | .readPid => some { s with watcher := .waitpid (s.readChildPid stale) }
  | .waitpid pid => s.waitpidReturns pid reaps
  | .done => none

def put (s : State) (t : ℕ) (c : Closer) : State := { s with closers := s.closers.set t c }

def runCloser (s : State) (t : ℕ) : Closer → Option State
  | .compareAndSet =>
    if s.isClosed then some (s.put t .done) else some { s.put t .takePtr with isClosed := true }
  | .takePtr => some { s.put t (.callNative s.sessionPtr) with sessionPtr := false }
  | .callNative ptr => some (s.put t (if ptr then .lock else .done))
  | .lock => if s.sessionMutex then none else some { s.put t .shut with sessionMutex := true }
  | .shut =>
    if s.nativeClosed then some (s.put t (.unlock false)) else some { s.put t .signal with nativeClosed := true }
  | .signal =>
    some { s.put t (.unlock true) with
      hups := if 0 < s.childPid then s.hups ++ [(s.childPid, s.child)] else s.hups }
  | .unlock delete => some { s.put t (if delete then .delete else .done) with sessionMutex := false }
  | .delete => some { s.put t .done with freed := true }
  | .done => none

end State

inductive Action
  /-- the child exits -/
  | exit
  /-- the next step of the watcher -/
  | watch (stale : ℤ) (reaps : Bool)
  /-- a call of `close` -/
  | close
  /-- the next step of a call of `close` -/
  | closer (t : ℕ)
  deriving DecidableEq

def step (s : State) : Action → Option State
  | .exit => if s.child = .running then some { s with child := .zombie } else none
  | .watch stale reaps => s.watch stale reaps
  | .close => some { s with closers := s.closers ++ [.compareAndSet] }
  | .closer t => s.closers[t]?.bind (s.runCloser t)

end Tinyhack.ChildExit
