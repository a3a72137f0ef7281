import TinyhackSsh.Spec.Notifications

/-! How OSC 99 requests reach the manager: the native callback on the thread that
reads the PTY, `TerminalSession.onKittyNotification`, and the main looper, which
takes the posted messages in order. The watcher thread of a session and the
service end it. A message is run in one step, and `isRunning()` and the session
list are read at its beginning. -/

namespace Tinyhack.Notify

/-- Where the watcher thread of a session is. -/
inductive Watcher
  | unstarted
  /-- in `nativeWaitChild` -/
  | waiting
  /-- the cleanup is posted, `isRunning` is not cleared yet -/
  | posted
  | done
  deriving DecidableEq

/-- A session is put in the service's list after its constructor, and removed for good. -/
inductive Place
  | absent
  | listed
  | removed
  deriving DecidableEq

structure TerminalSession where
  notificationsEnabled : Bool
  /-- the flag of that name -/
  isRunning : Bool
  isClosed : Bool
  queuedNotifications : ℕ
  watcher : Watcher
  place : Place
  deriving DecidableEq

def TerminalSession.new (notificationsEnabled : Bool) : TerminalSession where
  notificationsEnabled := notificationsEnabled
  isRunning := false
  isClosed := false
  queuedNotifications := 0
  watcher := .unstarted
  place := .absent

/-- `isRunning()` -/
def TerminalSession.running (t : TerminalSession) : Bool := t.isRunning && !t.isClosed

/-- What `onKittyNotification` does with a request. -/
inductive Answer
  | reply (bytes : Bytes)
  | dropped
  | queued
  deriving DecidableEq

def TerminalSession.onKittyNotification (t : TerminalSession) (metadata payload : Bytes) : Answer :=
  if !t.notificationsEnabled || t.isClosed || metadata.length > 2048 || payload.length > 4096 then .dropped
  else match capabilityReply metadata with
    | some query => .reply query
    | none => if t.queuedNotifications + 1 > 32 then .dropped else .queued

/-- A chunk that a program sends, whether or not the limits and the alphabet of the
metadata are kept. -/
def claimedRequest (metadata : Bytes) : Request :=
  let options := ((metadata.map asciiChar).splitOn ':').filterMap metadataItem
  ⟨options, options.lookup 'i', requestType ((options.lookup 'p').getD "title".toList)⟩

def Request.chunk (request : Request) (payload : Bytes) : Option Chunk :=
  match request.type with
  | .title => some ⟨request.options, false, payload⟩
  | .body => some ⟨request.options, true, payload⟩
  | .query | .alive | .close | .other => none

/-- What a program has sent of the transaction that is not finished, and whether that
did not get through. -/
structure Transaction where
  chunks : List Chunk
  dropped : Bool
  deriving DecidableEq

/-- A transaction ends with its final chunk, or with a request to close that gets through. -/
def Transaction.next (t : Transaction) (request : Request) (payload : Bytes) (kept : Bool) : Transaction :=
  match request.chunk payload with
  | some c => if c.isFinal then ⟨[], false⟩ else ⟨t.chunks ++ [c], !kept⟩
  | none => if request.type = .close && request.id.isSome && kept then ⟨[], false⟩ else t

inductive Message
  /-- with the earlier chunks of the transaction, for a chunk -/
  | request (session : ℕ) (metadata payload : Bytes) (before : List Chunk)
  /-- `notificationListener.onSessionClosed`, posted by the session -/
  | cleanup (session : ℕ)
  /-- the same, posted by the manager -/
  | sessionClosed (session : ℕ)
  deriving DecidableEq

/-- A text that was handed to `show` on a chunk, with the chunks of the transaction up to that one. -/
structure Shown where
  transaction : List Chunk
  title : JString
  body : JString
  deriving DecidableEq

structure System where
  sessions : ℕ → TerminalSession
  queue : List Message
  manager : Manager
  /-- the replies of the native callback -/
  pty : List (ℕ × Bytes)
  transactions : ℕ → Option JString → Transaction
  shown : List Shown
  /-- the manager has run its cleanup for the session -/
  cleaned : ℕ → Bool

namespace System

def new (platform : Bool) (notificationsEnabled : ℕ → Bool) : System where
  sessions := fun session => TerminalSession.new (notificationsEnabled session)
  queue := []
  manager := Manager.new platform
  pty := []
  transactions := fun _ _ => ⟨[], false⟩
  shown := []
  cleaned := fun _ => false

/-- What the manager finds outside. Sessions may stop while it runs, so a reply may
find one stopped that was running at the beginning. -/
def env (s : System) (env : Env) : Env :=
  { env with
    running := fun session => (s.sessions session).running
    listed := fun session => (s.sessions session).place = .listed
    answers := fun session => env.answers session && (s.sessions session).running }

def setSession (s : System) (session : ℕ) (t : TerminalSession) : System :=
  { s with sessions := Function.update s.sessions session t }

def setTransaction (s : System) (session : ℕ) (id : Option JString) (t : Transaction) : System :=
  { s with transactions := fun x i => if x = session ∧ i = id then t else s.transactions x i }

def post (s : System) (message : Message) : System := { s with queue := s.queue ++ [message] }

/-- `on_kitty_notification`, with whether the Java method could be called. -/
def onKittyNotification (s : System) (session : ℕ) (metadata payload : Bytes) (jni : Bool) : Answer :=
  if metadata.length > 2048 || payload.length > 4096 || !jni then .dropped
  else (s.sessions session).onKittyNotification metadata payload

/-- The request is queued, and the manager can read its metadata. -/
def keeps (s : System) (session : ℕ) (metadata payload : Bytes) (jni : Bool) : Bool :=
  s.onKittyNotification session metadata payload jni = .queued && (parseRequest metadata).isSome

/-- A request arrives from the program; `writable` says whether the PTY takes a reply. -/
def deliver (s : System) (session : ℕ) (metadata payload : Bytes) (jni writable : Bool) : System :=
  let t := s.sessions session
  match s.onKittyNotification session metadata payload jni with
  | .reply query =>
    if 0 < query.length && query.length ≤ 1024 && writable then { s with pty := s.pty ++ [(session, query)] } else s
  | .dropped => s
  | .queued =>
    let before := (s.transactions session (claimedRequest metadata).id).chunks
    (s.post (.request session metadata payload before)).setSession session
      { t with queuedNotifications := t.queuedNotifications + 1 }

def osc (s : System) (session : ℕ) (metadata payload : Bytes) (jni writable : Bool) : System :=
  let request := claimedRequest metadata
  (s.deliver session metadata payload jni writable).setTransaction session request.id
    ((s.transactions session request.id).next request payload (s.keeps session metadata payload jni))

def runCleanup (s : System) (env : Env) (session : ℕ) : System :=
  { s with
    manager := s.manager.onSessionClosed (s.env env) session
    cleaned := Function.update s.cleaned session true }

def run (s : System) (env : Env) : Message → System
  | .request session metadata payload before =>
    let t := s.sessions session
    let m := if t.isClosed then s.manager else s.manager.onNotification (s.env env) session metadata payload
    let transaction := before ++ ((claimedRequest metadata).chunk payload).toList
    let shown := (m.submits.drop s.manager.submits.length).map fun x => ⟨transaction, x.2.1, x.2.2⟩
    let s := { s with manager := m, shown := s.shown ++ shown }
    s.setSession session { t with queuedNotifications := t.queuedNotifications - 1 }
  | .cleanup session => s.runCleanup env session
  | .sessionClosed session => s.runCleanup env session

/-- `removeSession`, under the service's lock, which `getSessionById` takes as well. -/
def removeSession (s : System) (env : Env) (session : ℕ) (onMain : Bool) : System :=
  let s := if onMain then s.runCleanup env session else s.post (.sessionClosed session)
  s.setSession session { s.sessions session with place := .removed }

end System

inductive SystemAction
  /-- the constructor has made the native session: `isRunning` is set and the watcher starts -/
  | started (session : ℕ)
  /-- `sessions.add` -/
  | listed (session : ℕ)
  | osc (session : ℕ) (metadata payload : Bytes) (jni writable : Bool)
  /-- the child has exited: the watcher posts the cleanup -/
  | exited (session : ℕ)
  /-- then it clears `isRunning` -/
  | stopped (session : ℕ)
  /-- `close` -/
  | closed (session : ℕ)
  | removed (env : Env) (session : ℕ) (onMain : Bool)
  /-- the next message of the main looper -/
  | looper (env : Env)
  /-- an intent, a delayed message of the manager, or the end of the service -/
  | manager (act : Action)

def Event.isOwn : Event → Bool
  | .intent _ | .expiry _ | .sweep | .destroy => true
  | .notification .. | .sessionClosed _ => false

namespace System

/-- `removeCallbacksAndMessages` takes the manager's own messages from the queue. -/
def managerEvent (s : System) (act : Action) : Option System :=
  if !act.event.isOwn then none
  else (Notify.step s.manager ⟨s.env act.env, act.event⟩).map fun m =>
    { s with
      manager := m
      queue := if act.event = .destroy then s.queue.filter fun
          | .sessionClosed _ => false
          | .request .. | .cleanup _ => true
        else s.queue }

def step (s : System) : SystemAction → Option System
  | .started session =>
    let t := s.sessions session
    if t.watcher = .unstarted then
      some (s.setSession session { t with isRunning := true, watcher := .waiting })
    else none
  | .listed session =>
    let t := s.sessions session
    if t.place = .absent then some (s.setSession session { t with place := .listed }) else none
  | .osc session metadata payload jni writable => some (s.osc session metadata payload jni writable)
  | .exited session =>
    let t := s.sessions session
    if t.watcher = .waiting then
      some ((s.post (.cleanup session)).setSession session { t with watcher := .posted })
    else none
  | .stopped session =>
    let t := s.sessions session
    if t.watcher = .posted then some (s.setSession session { t with isRunning := false, watcher := .done }) else none
  | .closed session => some (s.setSession session { s.sessions session with isClosed := true, isRunning := false })
  | .removed env session onMain =>
    if (s.sessions session).place = .absent then none else some (s.removeSession env session onMain)
  | .looper env =>
    match s.queue with
    | [] => none
    | message :: queue => some (System.run { s with queue := queue } env message)
  | .manager act => s.managerEvent act

end System

end Tinyhack.Notify
