import TinyhackSsh.Lib.Fair

/-! `pty_read_loop` and `nativeClose` of one `NativeSession`. Every read of a
shared field, every system call and every mutex operation is a step. What the
kernel and the peer of the PTY decide (when `poll` returns and with what, how
much `read` gets) is part of the action, within what their manuals allow: `poll`
reports POLLIN only for an open descriptor with data or a hangup, and `read`
gets data only from an open descriptor. `ghostty_terminal_vt_write` and the Java
callback are taken to return. -/

namespace Tinyhack.ReadLoop

inductive Thread
  | reader
  | closer
  deriving DecidableEq

inductive PollResult
  /-- `ret < 0` -/
  | error (eintr : Bool)
  /-- `ret == 0` -/
  | timeout
  | pollin
  /-- POLLHUP, POLLERR or POLLNVAL without POLLIN -/
  | hangup
  /-- `ret > 0` with none of these -/
  | other
  deriving DecidableEq

/-- The reader thread, named after what it does next. -/
inductive Reader
  /-- `while (!is_closed && ptm_fd >= 0)` -/
  | loopClosed
  | loopFd
  /-- `if (ptm_fd < 0 || is_closed) break` -/
  | recheckFd
  | recheckClosed
  | pollArg
  | polling (valid : Bool)
  /-- `if (is_closed || ptm_fd < 0) break` -/
  | polledClosed (result : PollResult)
  | polledFd (result : PollResult)
  | readArg
  | reading (valid : Bool)
  /-- `read` returned `bytes > 0`; next is `session_mutex` -/
  | lock (bytes : ℕ)
  | critical (bytes : ℕ)
  | callback
  | exited
  deriving DecidableEq

/-- The thread that calls `nativeClose`. -/
inductive Closer
  | notCalled
  | acquire
  | testClosed
  | storeClosed
  | testFd
  | closeFd
  | clearFd
  | kill
  | join
  | free
  /-- end of the locked block, `early` on the `is_closed` return -/
  | unlock (early : Bool)
  | delete
  | returned
  deriving DecidableEq

structure Session where
  isClosed : Bool
  /-- `ptm_fd >= 0` -/
  ptmFd : Bool
  /-- the descriptor is open in the kernel -/
  fdOpen : Bool
  mutex : Option Thread
  reader : Reader
  closer : Closer
  /-- bytes the peer has written and `read` has not returned -/
  pending : ℕ
  hungUp : Bool
  /-- bytes fed to the terminal -/
  fed : ℕ
  deriving DecidableEq

def Session.init : Session := ⟨false, true, true, none, .loopClosed, .notCalled, 0, false, 0⟩

inductive ReaderEvent
  | run
  | pollReturns (result : PollResult)
  /-- `0` stands for end of file and for errors -/
  | readReturns (bytes : ℕ)
  deriving DecidableEq

def BUFFER_SIZE : ℕ := 8192

/-- What `poll` may report for a descriptor argument. -/
def pollAllowed (s : Session) (valid : Bool) : PollResult → Bool
  | .error _ | .timeout => true
  | .pollin => valid && s.fdOpen && (s.pending > 0 || s.hungUp)
  | .hangup | .other => valid

/-- The tests of `ret` and `revents`. -/
def afterPoll : PollResult → Reader
  | .error true => .loopClosed
  | .error false => .exited
  | .timeout => .loopClosed
  | .pollin => .readArg
  | .hangup => .exited
  | .other => .loopClosed

def readerStep (s : Session) : ReaderEvent → Option Session
  | .run =>
    match s.reader with
    | .loopClosed => some { s with reader := if s.isClosed then .exited else .loopFd }
    | .loopFd => some { s with reader := if s.ptmFd then .recheckFd else .exited }
    | .recheckFd => some { s with reader := if s.ptmFd then .recheckClosed else .exited }
    | .recheckClosed => some { s with reader := if s.isClosed then .exited else .pollArg }
    | .pollArg => some { s with reader := .polling s.ptmFd }
    | .polledClosed result => some { s with reader := if s.isClosed then .exited else .polledFd result }
    | .polledFd result => some { s with reader := if s.ptmFd then afterPoll result else .exited }
    | .readArg => some { s with reader := .reading s.ptmFd }
    | .lock bytes =>
      if s.mutex = none then some { s with reader := .critical bytes, mutex := some .reader } else none
    | .critical bytes =>
      some { s with
        reader := .callback
        mutex := none
        fed := if s.isClosed then s.fed else s.fed + bytes }
    | .callback => some { s with reader := .loopClosed }
    | .polling _ | .reading _ | .exited => none
  | .pollReturns result =>
    match s.reader with
    | .polling valid => if pollAllowed s valid result then some { s with reader := .polledClosed result } else none
    | _ => none
  | .readReturns bytes =>
    match s.reader with
    | .reading valid =>
      if bytes = 0 then some { s with reader := .exited }
      else if valid && s.fdOpen && bytes ≤ s.pending && bytes ≤ BUFFER_SIZE then
        some { s with reader := .lock bytes, pending := s.pending - bytes }
      else none
    | _ => none

def closerStep (s : Session) : Option Session :=
  match s.closer with
  | .notCalled => none
  | .acquire => if s.mutex = none then some { s with closer := .testClosed, mutex := some .closer } else none
  | .testClosed => some { s with closer := if s.isClosed then .unlock true else .storeClosed }
  | .storeClosed => some { s with closer := .testFd, isClosed := true }
  | .testFd => some { s with closer := if s.ptmFd then .closeFd else .kill }
  | .closeFd => some { s with closer := .clearFd, fdOpen := false }
  | .clearFd => some { s with closer := .kill, ptmFd := false }
  | .kill => some { s with closer := .join }
  | .join => if s.reader = .exited then some { s with closer := .free } else none
  | .free => some { s with closer := .unlock false }
  | .unlock early => some { s with closer := if early then .returned else .delete, mutex := none }
  | .delete => some { s with closer := .returned }
  | .returned => none

inductive Action
  | reader (ev : ReaderEvent)
  | callClose
  | closer
  | peerWrites (bytes : ℕ)
  | peerHangsUp
  deriving DecidableEq

def step (s : Session) : Action → Option Session
  | .reader ev => readerStep s ev
  | .callClose => if s.closer = .notCalled then some { s with closer := .acquire } else none
  | .closer => closerStep s
  | .peerWrites bytes => some { s with pending := s.pending + bytes }
  | .peerHangsUp => some { s with hungUp := true }

end Tinyhack.ReadLoop
