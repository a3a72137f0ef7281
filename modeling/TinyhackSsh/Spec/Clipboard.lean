import TinyhackSsh.Spec.TerminalView
import TinyhackSsh.Spec.Notifications

/-! OSC 52 writes to the clipboard, and how sessions come to their views. A session posts
the text to the main looper and looks up its listener when the message is run; the
listener is the view the session is attached to, or the view's activity, and checks the
permission of the session that the view shows then. A method of `MainActivity` is run in
one step. -/

namespace Tinyhack.Osc52

open Sessions (SessionRef Service)
open Views (TerminalView)
open Wire

/-- A `MainActivity`, by identity, and its `terminalView`, which has the same number. -/
abbrev ActivityRef := ℕ

inductive Listener
  | activity (a : ActivityRef)
  | view (a : ActivityRef)
  deriving DecidableEq

/-- The view that the text comes to; an activity hands it on to its own. -/
def Listener.target : Listener → ActivityRef
  | .activity a => a
  | .view a => a

structure Activity where
  /-- `terminalService != null` -/
  connected : Bool
  isBound : Bool
  deriving DecidableEq

/-- What is posted to the main looper. -/
inductive Message
  | clipboardWrite (session : SessionRef) (text : Option JString)
  | currentSessionChanged (a : ActivityRef) (session : Option SessionRef)
  /-- the runnable of `/profiles/connect` -/
  | debugAttach (session : SessionRef)
  deriving DecidableEq

structure Ui where
  service : Service
  /-- `osc52ClipboardEnabled` of the sessions constructed so far, by identity -/
  osc52ClipboardEnabled : List Bool
  isRunning : SessionRef → Bool
  listener : SessionRef → Option Listener
  views : ActivityRef → TerminalView
  activities : ActivityRef → Activity
  sessionsListeners : List ActivityRef
  /-- `DebugHttpServer.debugTerminalView` -/
  debugTerminalView : Option ActivityRef
  queue : List Message
  /-- what was placed on the clipboard, with the session that sent it -/
  clipboard : List (SessionRef × JString)

namespace Ui

def new (stayConnected : Bool) : Ui where
  service := Service.init stayConnected
  osc52ClipboardEnabled := []
  isRunning := fun _ => false
  listener := fun _ => none
  views := fun _ => .new
  activities := fun _ => ⟨false, false⟩
  sessionsListeners := []
  debugTerminalView := none
  queue := []
  clipboard := []

def post (ui : Ui) (message : Message) : Ui := { ui with queue := ui.queue ++ [message] }

def setListener (ui : Ui) (session : SessionRef) (listener : Option Listener) : Ui :=
  { ui with listener := Function.update ui.listener session listener }

/-- `if (session != null) session.setListener(null)` -/
def dropListener (ui : Ui) : Option SessionRef → Ui
  | some session => ui.setListener session none
  | none => ui

/-- `terminalView.attachSession` of an activity's view. -/
def attachSession (ui : Ui) (a : ActivityRef) (newSession : SessionRef) : Ui :=
  let ui := ui.dropListener (ui.views a).session
  let ui := { ui with views := Function.update ui.views a ((ui.views a).attachSession (some newSession)) }
  ui.setListener newSession (some (.view a))

/-- `session.setListener(this); terminalView.attachSession(session);` -/
def showSession (ui : Ui) (a : ActivityRef) (session : SessionRef) : Ui :=
  (ui.setListener session (some (.activity a))).attachSession a session

/-- The runnable of `onCurrentSessionChanged`. -/
def currentSessionChanged (ui : Ui) (a : ActivityRef) : Option SessionRef → Ui
  | some session => ui.showSession a session
  | none => ui

/-- The calls of the listeners that a service call makes; `runOnUiThread` runs its argument
at once on the main thread and posts it on another. -/
def callService (ui : Ui) (onMain : Bool) (call : Service → Service) : Ui :=
  let service := call ui.service
  let calls := (service.delivered.take (service.delivered.length - ui.service.delivered.length)).reverse
  calls.foldl (fun ui delivered => ui.sessionsListeners.foldl (fun ui a =>
    if onMain then ui.currentSessionChanged a delivered.1
    else ui.post (.currentSessionChanged a delivered.1)) ui) { ui with service := service }

/-- `createSessionInternal`, with the session; `constructed` is false when the constructor throws. -/
def createSession (ui : Ui) (onMain osc52 constructed : Bool) : Ui × Option SessionRef :=
  if constructed then
    let session := ui.service.allocated
    let ui := { ui with
      osc52ClipboardEnabled := ui.osc52ClipboardEnabled ++ [osc52]
      isRunning := Function.update ui.isRunning session true }
    (ui.callService onMain fun service => Sessions.createSession service true, some session)
  else (ui, none)

def removeSession (ui : Ui) (onMain : Bool) (session : SessionRef) : Ui :=
  ui.callService onMain fun service => Sessions.removeSession service (some session)

def setCurrentSession (ui : Ui) (onMain : Bool) (index : ℤ) : Ui :=
  ui.callService onMain fun service => Sessions.setCurrentSession service index

def setCurrentSessionObject (ui : Ui) (onMain : Bool) (session : SessionRef) : Ui :=
  ui.callService onMain fun service => Sessions.setCurrentSessionObject service (some session)

def getCurrentSession (ui : Ui) : Ui × Option SessionRef :=
  let (session, service) := Sessions.getCurrentSession ui.service
  ({ ui with service := service }, session)

/-- The choice of a session in `setupSession`. -/
def pickSession (ui : Ui) (constructed : Bool) : Ui × Option SessionRef :=
  let (ui, session) := ui.getCurrentSession
  if session.any ui.isRunning then (ui, session)
  else if ui.service.sessions.isEmpty then ui.createSession true false constructed
  else
    let (ui, session) := ui.getCurrentSession
    (ui, session.or ui.service.sessions.head?)

def setupSession (ui : Ui) (a : ActivityRef) (constructed : Bool) : Ui :=
  if !(ui.activities a).isBound || !(ui.activities a).connected then ui
  else match ui.pickSession constructed with
    | (ui, none) => ui
    | (ui, some session) => (ui.showSession a session).setCurrentSessionObject true session

def switchToSession (ui : Ui) (a : ActivityRef) (index : ℤ) : Ui :=
  if !(ui.activities a).connected || decide (index < 0 ∨ index ≥ ui.service.sessions.length) then ui
  else
    let ui := (ui.dropListener (ui.views a).session).setCurrentSession true index
    let (ui, target) := ui.getCurrentSession
    ui.currentSessionChanged a target

/-- `createNewLocalSession` and `connectProfile` but for the session they create. -/
def openSession (ui : Ui) (a : ActivityRef) (osc52 constructed : Bool) : Ui :=
  if !(ui.activities a).connected then ui
  else
    let ui := ui.dropListener (ui.views a).session
    match ui.createSession true osc52 constructed with
    | (ui, none) => ui
    | (ui, some session) => ui.showSession a session

def createNewLocalSession (ui : Ui) (a : ActivityRef) (constructed : Bool) : Ui := ui.openSession a false constructed

/-- The session gets the profile's permission, or none where `createSessionForProfile` refuses. -/
def connectProfile (ui : Ui) (a : ActivityRef) (osc52 constructed : Bool) : Ui := ui.openSession a osc52 constructed

/-- The session that the view shows, when it has exited. -/
def deadSession (ui : Ui) (a : ActivityRef) : Option SessionRef :=
  if (ui.activities a).connected then (ui.views a).session.filter fun session => !ui.isRunning session else none

def closeDeadCurrentSession (ui : Ui) (a : ActivityRef) (constructed : Bool) : Ui :=
  match ui.deadSession a with
  | none => ui
  | some cur => ((ui.setListener cur none).removeSession true cur).setupSession a constructed

/-- `profile` is the permission of the dead session's profile, if it is found. -/
def reopenDeadSession (ui : Ui) (a : ActivityRef) (profile : Option Bool) (constructed : Bool) : Ui :=
  match ui.deadSession a with
  | none => ui
  | some cur =>
    let ui := (ui.setListener cur none).removeSession true cur
    match profile with
    | some osc52 => ui.connectProfile a osc52 constructed
    | none => ui.createNewLocalSession a constructed

/-- With the session that the intent's notification names. -/
def handleNotificationIntent (ui : Ui) (a : ActivityRef) (session : Option SessionRef) (constructed : Bool) : Ui :=
  match session with
  | none => ui
  | some session =>
    if (ui.activities a).connected && session ∈ ui.service.sessions then
      (ui.setCurrentSessionObject true session).setupSession a constructed
    else ui

/-- The positive button of `confirmCloseSession`. -/
def closeSession (ui : Ui) (a : ActivityRef) (session : SessionRef) (intent : Option SessionRef)
    (constructed constructed' : Bool) : Ui :=
  let wasCurrent := (ui.views a).session = some session
  let ui := ui.removeSession true session
  if wasCurrent then (ui.setupSession a constructed).handleNotificationIntent a intent constructed' else ui

def setActivity (ui : Ui) (a : ActivityRef) (activity : Activity) : Ui :=
  { ui with activities := Function.update ui.activities a activity }

def addSessionsListener (ui : Ui) (a : ActivityRef) : Ui :=
  { ui with
    sessionsListeners := if a ∈ ui.sessionsListeners then ui.sessionsListeners else ui.sessionsListeners ++ [a] }

def removeSessionsListener (ui : Ui) (a : ActivityRef) : Ui :=
  { ui with sessionsListeners := ui.sessionsListeners.erase a }

/-- `onServiceConnected`, with the profile whose connection was pending. -/
def onServiceConnected (ui : Ui) (a : ActivityRef) (intent : Option SessionRef) (pending : Option Bool)
    (constructed constructed' constructed'' : Bool) : Ui :=
  let ui := (ui.setActivity a ⟨true, true⟩).addSessionsListener a
  let ui := (ui.setupSession a constructed).handleNotificationIntent a intent constructed'
  match pending with
  | some osc52 => ui.connectProfile a osc52 constructed''
  | none => ui

/-- `TerminalView.onClipboardWrite`; `origin` is only recorded. -/
def onClipboardWrite (ui : Ui) (a : ActivityRef) (text : Option JString) (origin : SessionRef) : Ui :=
  match (ui.views a).session with
  | none => ui
  | some session =>
    if ui.osc52ClipboardEnabled[session]? ≠ some true then ui
    else match text with
      | some text =>
        if Notify.utf16Length text ≤ 1024 * 1024 then { ui with clipboard := ui.clipboard ++ [(origin, text)] } else ui
      | none => ui

def run (ui : Ui) : Message → Ui
  | .clipboardWrite session text =>
    match ui.listener session with
    | some l => ui.onClipboardWrite l.target text session
    | none => ui
  | .currentSessionChanged a session => ui.currentSessionChanged a session
  | .debugAttach session =>
    match ui.debugTerminalView with
    | none => ui
    | some a =>
      ((ui.dropListener (ui.views a).session).setListener session (some (.view a))).attachSession a session

end Ui

inductive Action
  /-- the main looper runs its next message -/
  | looper
  /-- the terminal of a session reads an OSC 52 sequence -/
  | osc52 (session : SessionRef) (text : Option JString)
  | exit (session : SessionRef)
  | onCreate (a : ActivityRef)
  | onServiceConnected (a : ActivityRef) (intent : Option SessionRef) (pending : Option Bool)
      (constructed constructed' constructed'' : Bool)
  | onServiceDisconnected (a : ActivityRef)
  | onDestroy (a : ActivityRef)
  | setupSession (a : ActivityRef) (constructed : Bool)
  | switchToSession (a : ActivityRef) (index : ℤ)
  | createNewLocalSession (a : ActivityRef) (constructed : Bool)
  | connectProfile (a : ActivityRef) (osc52 constructed : Bool)
  | closeDeadCurrentSession (a : ActivityRef) (constructed : Bool)
  | reopenDeadSession (a : ActivityRef) (profile : Option Bool) (constructed : Bool)
  | handleNotificationIntent (a : ActivityRef) (session : Option SessionRef) (constructed : Bool)
  | closeSession (a : ActivityRef) (session : SessionRef) (intent : Option SessionRef)
      (constructed constructed' : Bool)
  /-- the debug server, on its own thread -/
  | debugCreate (osc52 constructed : Bool)
  | debugConnect (osc52 constructed : Bool)
  | debugRemove (session : SessionRef)
  | debugSetCurrent (index : ℤ)
  deriving DecidableEq

def step (ui : Ui) : Action → Option Ui
  | .looper =>
    match ui.queue with
    | [] => none
    | message :: queue => some ({ ui with queue := queue }.run message)
  | .osc52 session text => some (ui.post (.clipboardWrite session text))
  | .exit session => some { ui with isRunning := Function.update ui.isRunning session false }
  | .onCreate a => some { ui with debugTerminalView := some a }
  | .onServiceConnected a intent pending constructed constructed' constructed'' =>
    some (ui.onServiceConnected a intent pending constructed constructed' constructed'')
  | .onServiceDisconnected a =>
    some ((ui.setActivity a ⟨false, false⟩).removeSessionsListener a)
  | .onDestroy a =>
    if (ui.activities a).isBound then
      some ((ui.setActivity a { ui.activities a with isBound := false }).removeSessionsListener a)
    else some ui
  | .setupSession a constructed => some (ui.setupSession a constructed)
  | .switchToSession a index => some (ui.switchToSession a index)
  | .createNewLocalSession a constructed => some (ui.createNewLocalSession a constructed)
  | .connectProfile a osc52 constructed => some (ui.connectProfile a osc52 constructed)
  | .closeDeadCurrentSession a constructed => some (ui.closeDeadCurrentSession a constructed)
  | .reopenDeadSession a profile constructed => some (ui.reopenDeadSession a profile constructed)
  | .handleNotificationIntent a session constructed => some (ui.handleNotificationIntent a session constructed)
  | .closeSession a session intent constructed constructed' =>
    some (ui.closeSession a session intent constructed constructed')
  | .debugCreate osc52 constructed => some (ui.createSession false osc52 constructed).1
  | .debugConnect osc52 constructed =>
    let (ui, session) := ui.createSession false osc52 constructed
    match session, ui.debugTerminalView with
    | some session, some _ => some (ui.post (.debugAttach session))
    | _, _ => some ui
  | .debugRemove session => some (ui.removeSession false session)
  | .debugSetCurrent index => some (ui.setCurrentSession false index)

end Tinyhack.Osc52
