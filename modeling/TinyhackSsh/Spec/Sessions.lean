import Mathlib.Tactic

/-! The session list of `TerminalService`: the list, the index of the current
session, and the `onCurrentSessionChanged` calls the listeners have received.
Every method is `synchronized`, so a call is one step. Listeners only observe:
`MainActivity`'s callbacks call no method that changes the list or the index. -/

namespace Tinyhack.Sessions

/-- A `TerminalSession` object, by identity. -/
abbrev SessionRef := ℕ

structure Service where
  sessions : List SessionRef
  currentSessionIndex : ℤ
  /-- objects constructed so far; the next one gets this identity -/
  allocated : ℕ
  stayConnected : Bool
  /-- arguments of the listener calls made by `notifyCurrentChanged`, latest first -/
  delivered : List (Option SessionRef × ℤ)
  deriving DecidableEq

def Service.init (stayConnected : Bool) : Service := ⟨[], -1, 0, stayConnected, []⟩

/-- `sessions.indexOf(session)`. -/
def indexOf (xs : List SessionRef) (s : SessionRef) : ℤ :=
  match xs.idxOf? s with
  | some i => i
  | none => -1

/-- Returns the session and the state: an index out of range is reset to 0. -/
def getCurrentSession (st : Service) : Option SessionRef × Service :=
  if 0 ≤ st.currentSessionIndex ∧ st.currentSessionIndex < st.sessions.length then
    (st.sessions[st.currentSessionIndex.toNat]?, st)
  else if st.sessions ≠ [] then (st.sessions[0]?, { st with currentSessionIndex := 0 })
  else (none, st)

/-- The notification's title is read off the current session. -/
def createNotification (st : Service) : Service := (getCurrentSession st).2

def startForegroundIfNeeded (st : Service) : Service :=
  if st.stayConnected then createNotification st else st

def updateNotification (st : Service) : Service :=
  if st.sessions = [] then st else if !st.stayConnected then st else startForegroundIfNeeded st

def notifySessionsChanged (st : Service) : Service := updateNotification st

def notifyCurrentChanged (st : Service) : Service :=
  let (cur, st) := getCurrentSession st
  updateNotification { st with delivered := (cur, st.currentSessionIndex) :: st.delivered }

/-- `createSessionInternal`; the constructor throws when no terminal or pty can be made. -/
def createSession (st : Service) (constructed : Bool) : Service :=
  if constructed then
    let st := { st with sessions := st.sessions ++ [st.allocated], allocated := st.allocated + 1 }
    let st := { st with currentSessionIndex := st.sessions.length - 1 }
    notifyCurrentChanged (notifySessionsChanged (startForegroundIfNeeded st))
  else st

def setCurrentSession (st : Service) (index : ℤ) : Service :=
  if 0 ≤ index ∧ index < st.sessions.length ∧ index ≠ st.currentSessionIndex then
    notifyCurrentChanged { st with currentSessionIndex := index }
  else st

/-- The overload that takes the object; `null` and unknown sessions are ignored. -/
def setCurrentSessionObject (st : Service) : Option SessionRef → Service
  | none => st
  | some s => if 0 ≤ indexOf st.sessions s then setCurrentSession st (indexOf st.sessions s) else st

def removeSession (st : Service) : Option SessionRef → Service
  | none => st
  | some s =>
    let wasCurrent : Bool := indexOf st.sessions s = st.currentSessionIndex
    let st := { st with sessions := st.sessions.erase s }
    let st := if st.currentSessionIndex ≥ st.sessions.length then
      { st with currentSessionIndex := st.sessions.length - 1 } else st
    let st := if st.sessions = [] then { st with currentSessionIndex := -1 } else updateNotification st
    let st := notifySessionsChanged st
    if wasCurrent ∨ st.sessions = [] then notifyCurrentChanged st else st

def setStayConnectedEnabled (st : Service) (enabled : Bool) : Service :=
  let st := { st with stayConnected := enabled }
  if enabled ∧ st.sessions ≠ [] then startForegroundIfNeeded st else st

inductive Call
  | createSession (constructed : Bool)
  | setCurrentSession (index : ℤ)
  | setCurrentSessionObject (session : Option SessionRef)
  | removeSession (session : Option SessionRef)
  | getCurrentSession
  | setStayConnectedEnabled (enabled : Bool)
  deriving DecidableEq

def step (st : Service) : Call → Option Service
  | .createSession constructed => some (createSession st constructed)
  | .setCurrentSession index => some (setCurrentSession st index)
  | .setCurrentSessionObject session => some (setCurrentSessionObject st session)
  | .removeSession session => some (removeSession st session)
  | .getCurrentSession => some (getCurrentSession st).2
  | .setStayConnectedEnabled enabled => some (setStayConnectedEnabled st enabled)

/-- The session the listeners were told about last; `none` before the first notification. -/
def lastDelivered (st : Service) : Option SessionRef := st.delivered.head?.bind Prod.fst

end Tinyhack.Sessions
