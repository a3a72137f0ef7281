import TinyhackSsh.Lib.OrderedMap
import TinyhackSsh.Spec.NotificationText

/-! `KittyNotificationManager`: its maps, timers and effects, one event of the main
looper at a time. What it asks of the platform, the service and the sessions, and
the clock, are given with each event; the clock is read once for each. Random
UUIDs are numbers that were not used before. -/

namespace Tinyhack.Notify

open Wire

def MAX_ENTRIES : ℕ := 64
def MAX_PER_SESSION : ℕ := 8
def ASSEMBLY_TTL_MS : ℕ := 30000

/-- A key of `pending` and `active`: the session's id with the notification's id, empty
for none, or with a random UUID. -/
inductive Key
  | scope (session : ℕ) (id : JString)
  | unnamed (session : ℕ) (uuid : ℕ)
  deriving DecidableEq

def scope (session : ℕ) (id : Option JString) : Key := .scope session (id.getD [])

abbrev Pending := OrderedMap Key Assembly

namespace Pending

def removeFirst (pending : Pending) : List (Key × Assembly) → Pending
  | [] => pending
  | oldest :: _ => pending.erase oldest.1

def trimPending (pending : Pending) (session : ℕ) : Pending :=
  let own := pending.entries.filter fun p => p.2.session = session
  let pending := if own.length ≥ MAX_PER_SESSION then pending.removeFirst own else pending
  if pending.size ≥ MAX_ENTRIES then pending.removeFirst pending.entries else pending

def sweepPending (pending : Pending) (now : ℕ) : Pending :=
  pending.filter fun p => now - p.2.created ≤ ASSEMBLY_TTL_MS

/-- The assembly that a chunk is added to. -/
def assembly (pending : Pending) (now session : ℕ) (id : Option JString) : Pending × Assembly :=
  let pending := pending.sweepPending now
  match pending.get? (scope session id) with
  | some a => (pending, a)
  | none =>
    let a := Assembly.new session id now
    ((pending.trimPending session).put (scope session id) a, a)

end Pending

/-- A notification that was posted. Its tag is made of the key; the token is random. -/
structure Entry where
  session : ℕ
  id : Option JString
  key : Key
  token : ℕ
  posted : ℕ
  androidId : ℤ
  focus : Bool
  report : Bool
  closeReport : Bool
  deriving DecidableEq

structure Rate where
  start : ℕ
  count : ℕ
  deriving DecidableEq

/-- What the builder is told. -/
structure Content where
  channel : ℕ
  title : JString
  text : JString
  subText : JString
  onlyAlertOnce : Bool
  silent : Bool
  launchActivity : Bool
  timeoutAfter : Option ℤ
  deriving DecidableEq

/-- Why a notification ended; the source has no name for it. -/
inductive Cause
  | clientClose
  | activated
  | dismissed
  | expired
  | reconciled
  | evicted
  | replaced
  | sessionClosed
  | destroyed
  deriving DecidableEq

/-- What the manager does to the outside, and when a text is handed to `show` and an
entry ends. -/
inductive Output
  | submit (a : Assembly) (title body : JString)
  | notify (e : Entry) (content : Content)
  | cancel (key : Key) (androidId : ℤ)
  /-- `about` names the generation whose end is reported -/
  | write (session : ℕ) (about : Option ℕ) (bytes : Bytes)
  /-- with what `isRunning` says of the session then -/
  | ended (e : Entry) (cause : Cause) (running : Bool)
  deriving DecidableEq

/-- What an event finds outside. -/
structure Env where
  now : ℕ
  /-- `session.isRunning()` on entry -/
  running : ℕ → Bool
  /-- `service.getSessionById(session.getId()) == session` -/
  listed : ℕ → Bool
  /-- `session.isRunning()` when a reply is written -/
  answers : ℕ → Bool
  isTerminalFocused : ℕ → Bool
  isTerminalVisible : ℕ → Bool
  displayTitle : ℕ → JString
  areNotificationsEnabled : Bool
  /-- the channel of an urgency exists and is not blocked -/
  channel : ℕ → Bool
  /-- `notify` does not throw -/
  notifies : Bool
  /-- the tags among the platform's active notifications -/
  shown : Key → Bool

structure Manager where
  /-- `platform != null` -/
  platform : Bool
  pending : Pending
  active : OrderedMap Key Entry
  tokens : OrderedMap ℕ Entry
  rates : OrderedMap ℕ Rate
  nextId : ℤ
  destroyed : Bool
  sweepScheduled : Bool
  /-- the expiry runnables that are posted, with their times -/
  timers : List (Entry × ℕ)
  /-- the time of the sweep that is posted -/
  sweepDue : Option ℕ
  /-- the next random UUID -/
  uuids : ℕ
  out : List Output

def Manager.new (platform : Bool) : Manager where
  platform := platform
  pending := OrderedMap.empty
  active := OrderedMap.empty
  tokens := OrderedMap.empty
  rates := OrderedMap.empty
  nextId := 3000
  destroyed := false
  sweepScheduled := false
  timers := []
  sweepDue := none
  uuids := 0
  out := []

def Output.submitted : Output → Option (Assembly × JString × JString)
  | .submit a title body => some (a, title, body)
  | _ => none

/-- What was handed to `show` so far. -/
def Manager.submits (m : Manager) : List (Assembly × JString × JString) := m.out.filterMap Output.submitted

namespace Manager

def emit (m : Manager) (o : Output) : Manager := { m with out := m.out ++ [o] }

def reply (m : Manager) (env : Env) (session : ℕ) (id operation : Option JString) (payload : JString)
    (about : Option ℕ) : Manager :=
  if env.answers session then m.emit (.write session about (encodeUtf8 (replyText id operation payload))) else m

def forget (m : Manager) (e : Entry) : Manager :=
  { m with
    active := m.active.erase e.key
    tokens := m.tokens.erase e.token
    timers := m.timers.filter fun t => t.1.token ≠ e.token }

/-- `close(e, report)`; the cause is only recorded. -/
def close (m : Manager) (env : Env) (e : Entry) (report : Bool) (cause : Cause) : Manager :=
  if m.tokens.get? e.token ≠ some e then m
  else
    let m := (m.forget e).emit (.ended e cause (env.answers e.session))
    let m := if m.platform then m.emit (.cancel e.key e.androidId) else m
    if report && e.closeReport then m.reply env e.session e.id (some "p=close".toList) [] (some e.token) else m

/-- `close` of those among the entries that pass the test. -/
def closeWhere (m : Manager) (env : Env) (report : Bool) (cause : Cause) (test : Entry → Bool)
    (entries : List Entry) : Manager :=
  entries.foldl (fun m e => if test e then m.close env e report cause else m) m

def entries (m : Manager) : List Entry := m.active.entries.map Prod.snd

def reconcile (m : Manager) (env : Env) : Manager :=
  if !m.platform || m.entries.isEmpty then m
  else m.closeWhere env true .reconciled (fun e => !env.shown e.key && env.now - e.posted > 1000) m.entries

def closeFirst (m : Manager) (env : Env) (cause : Cause) : List Entry → Manager
  | [] => m
  | oldest :: _ => m.close env oldest true cause

def trimActive (m : Manager) (env : Env) (session : ℕ) : Manager :=
  let own := m.entries.filter fun e => e.session = session
  let m := if own.length ≥ MAX_PER_SESSION then m.closeFirst env .evicted own else m
  if m.active.size ≥ MAX_ENTRIES then m.closeFirst env .evicted m.entries else m

def scheduleSweep (m : Manager) (env : Env) : Manager :=
  if m.sweepScheduled then m
  else { m with sweepScheduled := true, sweepDue := some (env.now + ASSEMBLY_TTL_MS) }

end Manager

/-- UTF-16 code units. -/
def utf16Length (value : JString) : ℕ := (value.map fun c => if c.toNat < 0x10000 then 1 else 2).sum

/-- As many characters as fit in `limit` code units. -/
def takeUnits : ℕ → JString → JString
  | _, [] => []
  | limit, c :: rest =>
    let units := if c.toNat < 0x10000 then 1 else 2
    if units ≤ limit then c :: takeUnits (limit - units) rest else []

def shorten (value : JString) (limit : ℕ) : JString :=
  if utf16Length value ≤ limit then value else takeUnits limit value ++ ['…']

/-- The rate after a post that is asked for now, and whether it is allowed. -/
def Rate.ask (rate : Rate) (now : ℕ) : Rate × Bool :=
  let rate := if now - rate.start ≥ 10000 then ⟨now, 0⟩ else rate
  (⟨rate.start, rate.count + 1⟩, rate.count < 10)

def Assembly.content (a : Assembly) (env : Env) (title body : JString) (replaces : Bool) : Content where
  channel := a.urgency
  title := shorten (if title.isEmpty then body else title) 4096
  text := shorten body 8192
  subText := shorten (env.displayTitle a.session) 128
  onlyAlertOnce := replaces
  silent := a.silent
  launchActivity := a.focus
  timeoutAfter := if a.expires > 0 then some a.expires else none

namespace Manager

/-- The key under which an assembly is posted. -/
def postKey (m : Manager) (a : Assembly) : Key :=
  if a.id.isNone then Key.unnamed a.session m.uuids else scope a.session a.id

/-- The entry for a post; the first random UUID not used yet is its token. -/
def newEntry (m : Manager) (env : Env) (a : Assembly) (key : Key) (previous : Option Entry) : Entry where
  session := a.session
  id := a.id
  key := key
  token := m.uuids
  posted := env.now
  androidId := (previous.map Entry.androidId).getD m.nextId
  focus := a.focus
  report := a.report
  closeReport := a.closeReport

/-- The records of a post. Replacement does not report the old notification closing. -/
def register (m : Manager) (env : Env) (a : Assembly) (e : Entry) (previous : Option Entry) : Manager :=
  let m := match previous with
    | some old => (m.forget old).emit (.ended old .replaced (env.answers old.session))
    | none => m
  let m := { m with
    active := m.active.put e.key e
    tokens := m.tokens.put e.token e }
  if a.expires > 0 then { m with timers := m.timers ++ [(e, env.now + a.expires.toNat)] } else m

/-- `show` from the rate on. -/
def post (m : Manager) (env : Env) (a : Assembly) (title body : JString) : Manager :=
  let m := m.reconcile env
  let key := m.postKey a
  let previous := m.active.get? key
  let m := if previous.isNone then m.trimActive env a.session else m
  let e := m.newEntry env a key previous
  let m := { m with
    uuids := m.uuids + 1
    nextId := if previous.isNone then wrap32 (m.nextId + 1) else m.nextId }
  if !env.notifies then m
  else (m.emit (.notify e (a.content env title body previous.isSome))).register env a e previous

/-- The tests at the beginning of `show`. -/
def isSuppressed (m : Manager) (env : Env) (a : Assembly) (title body : JString) : Bool :=
  (title.isEmpty && body.isEmpty) || (a.occasion = .unfocused && env.isTerminalFocused a.session) ||
    (a.occasion = .invisible && env.isTerminalVisible a.session) ||
    !m.platform || !env.areNotificationsEnabled || !env.channel a.urgency

/-- `show` -/
def showAssembly (m : Manager) (env : Env) (a : Assembly) (title body : JString) : Manager :=
  let m := m.emit (.submit a title body)
  if m.isSuppressed env a title body then m
  else
    let (rate, allowed) := ((m.rates.get? a.session).getD ⟨0, 0⟩).ask env.now
    let m := { m with rates := m.rates.put a.session rate }
    if allowed then m.post env a title body else m

/-- Title and body requests. An assembly that has failed keeps its place until its
final chunk; its other fields are not read any more. -/
def chunk (m : Manager) (env : Env) (session : ℕ) (id : Option JString) (c : Chunk) : Manager :=
  let (pending, a) := m.pending.assembly env.now session id
  let m := { m with pending := pending }
  let key := scope session id
  let removed := { m with pending := m.pending.erase key }
  if a.failed then (if c.isFinal then removed else m)
  else match a.add c with
    | some a =>
      if !c.isFinal then { m with pending := m.pending.put key a }.scheduleSweep env
      else match a.complete with
        | some (title, body) => removed.showAssembly env a title body
        | none => removed
    | none =>
      if c.isFinal then removed
      else { m with pending := m.pending.put key { a with failed := true } }.scheduleSweep env

def aliveIds (m : Manager) (session : ℕ) : List JString :=
  (m.entries.filter fun e => e.session = session).filterMap Entry.id

def closeRequest (m : Manager) (env : Env) (session : ℕ) (id : JString) : Manager :=
  let key := Key.scope session id
  let m := { m with pending := m.pending.erase key }
  match m.active.get? key with
  | some e => m.close env e true .clientClose
  | none => m

/-- The test at the beginning of `onNotification`. -/
def ignores (m : Manager) (env : Env) (session : ℕ) : Bool :=
  m.destroyed || !env.running session || !env.listed session

def onNotification (m : Manager) (env : Env) (session : ℕ) (metadata payload : Bytes) : Manager :=
  if m.ignores env session then m
  else match parseRequest metadata with
    | none => m
    | some request =>
      match request.type with
      | .query => m.reply env session request.id (some "p=?".toList) CAPABILITIES none
      | .alive =>
        let m := m.reconcile env
        m.reply env session request.id (some "p=alive".toList) ([','].intercalate (m.aliveIds session)) none
      | .close =>
        match request.id with
        | some id => m.closeRequest env session id
        | none => m
      | .title => m.chunk env session request.id ⟨request.options, false, payload⟩
      | .body => m.chunk env session request.id ⟨request.options, true, payload⟩
      | .other => m

end Manager

/-- The chunk that a request is, with its key. -/
def chunkOf (session : ℕ) (metadata payload : Bytes) : Option (Key × Chunk) :=
  match parseRequest metadata with
  | none => none
  | some request =>
    match request.type with
    | .title => some (scope session request.id, ⟨request.options, false, payload⟩)
    | .body => some (scope session request.id, ⟨request.options, true, payload⟩)
    | .query | .alive | .close | .other => none

inductive Authority
  | activate
  | dismiss
  | other
  deriving DecidableEq

/-- An intent with the manager's action and scheme names an event and a token. -/
structure Intent where
  /-- the action is the manager's, and so is the scheme of the data -/
  isOwn : Bool
  authority : Authority
  lastPathSegment : Option ℕ
  deriving DecidableEq

namespace Manager

/-- `handleIntent`, with the session to bring to the front. -/
def handleIntent (m : Manager) (env : Env) (intent : Intent) : Manager × Option ℕ :=
  if m.destroyed || !intent.isOwn then (m, none)
  else match intent.lastPathSegment.bind m.tokens.get? with
    | none => (m, none)
    | some e =>
      match intent.authority with
      | .activate =>
        let m := if e.report then m.reply env e.session e.id none [] none else m
        (m.close env e true .activated, if e.focus then some e.session else none)
      | .dismiss => (m.close env e true .dismissed, none)
      | .other => (m, none)

/-- The expiry runnable of an entry. -/
def runExpiry (m : Manager) (env : Env) (e : Entry) : Manager :=
  if m.tokens.get? e.token = some e then m.close env e true .expired else m

/-- The runnable that `scheduleSweep` posts. -/
def runSweep (m : Manager) (env : Env) : Manager :=
  let m := { m with sweepScheduled := false }
  if m.destroyed then m
  else
    let m := { m with pending := m.pending.sweepPending env.now }
    if m.pending.entries.isEmpty then m else m.scheduleSweep env

def onSessionClosed (m : Manager) (env : Env) (session : ℕ) : Manager :=
  let m := { m with pending := m.pending.filter fun p => p.2.session ≠ session }
  let m := m.closeWhere env false .sessionClosed (fun e => e.session = session) m.entries
  { m with rates := m.rates.erase session }

def destroy (m : Manager) (env : Env) : Manager :=
  let m := { m with destroyed := true, timers := [], sweepDue := none }
  let m := m.closeWhere env false .destroyed (fun _ => true) m.entries
  { m with pending := OrderedMap.empty, rates := OrderedMap.empty }

end Manager

inductive Event
  | notification (session : ℕ) (metadata payload : Bytes)
  | intent (intent : Intent)
  /-- the expiry runnable of a token is due -/
  | expiry (token : ℕ)
  | sweep
  | sessionClosed (session : ℕ)
  | destroy
  deriving DecidableEq

def Event.chunk : Event → Option (Key × Chunk)
  | .notification session metadata payload => chunkOf session metadata payload
  | _ => none

structure Action where
  env : Env
  event : Event

/-- One event on the main looper. A posted runnable is taken from the queue when it runs. -/
def step (m : Manager) (act : Action) : Option Manager :=
  match act.event with
  | .notification session metadata payload => some (m.onNotification act.env session metadata payload)
  | .intent intent => some (m.handleIntent act.env intent).1
  | .expiry token =>
    match m.timers.find? fun t => t.1.token = token with
    | some (e, due) =>
      if due ≤ act.env.now then
        some ({ m with timers := m.timers.filter fun t => t.1.token ≠ token }.runExpiry act.env e)
      else none
    | none => none
  | .sweep =>
    match m.sweepDue with
    | some due => if due ≤ act.env.now then some ({ m with sweepDue := none }.runSweep act.env) else none
    | none => none
  | .sessionClosed session => some (m.onSessionClosed act.env session)
  | .destroy => some (m.destroy act.env)

end Tinyhack.Notify
