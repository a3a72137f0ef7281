import TinyhackSsh.Spec.MoshFragments

/-! `TransportSender` and `Transport` of mosh. Both sides of a connection send diffs from a
state that the other side is assumed to have to the current one. A failed assertion, a
dangling iterator or `abort` is `none`; an exception that the main loop catches leaves what
was changed before. -/

namespace Tinyhack.Network

/-- The interface of an object that is synchronized. -/
class SyncState (σ : Type) where
  /-- `operator==` -/
  same : σ → σ → Bool
  diffFrom : σ → σ → Option Bytes
  applyString : σ → Bytes → Option σ
  subtract : σ → σ → Option σ
  /-- `subtract` with the object itself as argument -/
  subtractSelf : σ → σ

open SyncState

structure TimestampedState (σ : Type) where
  timestamp : ℕ
  num : ℕ
  state : σ

/-- A state in the list `sent_states`; `node` stands for the iterators to it. -/
structure SentState (σ : Type) extends TimestampedState σ where
  node : ℕ

def SEND_INTERVAL_MIN : ℕ := 20
def SEND_INTERVAL_MAX : ℕ := 250
def ACK_INTERVAL : ℕ := 3000
def ACK_DELAY : ℕ := 100
def SHUTDOWN_RETRIES : ℕ := 16
def ACTIVE_RETRY_TIMEOUT : ℕ := 10000
def MOSH_PROTOCOL_VERSION : ℕ := 2
def MIN_RTO : ℕ := 50
def MAX_RTO : ℕ := 1000

/-- The values of `Connection::MTU`. -/
inductive Mtu
  | lastResort
  | inet
  | inet6

namespace Mtu

def bytes : Mtu → ℕ
  | .lastResort => 500
  | .inet => 1280 - 28
  | .inet6 => 1280 - 64

/-- Without what `Connection` and `Session` add. -/
def payload (m : Mtu) : ℕ := m.bytes - 12 - 16

end Mtu

/-- What the connection answers during a call. -/
structure Link where
  /-- `lrint(ceil(SRTT + 4 * RTTVAR))` -/
  RTO : ℕ
  /-- `lrint(ceil(SRTT / 2.0))` -/
  halfSRTT : ℤ
  mtu : Mtu
  hasRemoteAddr : Bool
  /-- The datagram after which `send` throws, if it does. -/
  throws : Option ℕ

namespace Link

def timeout (l : Link) : ℕ := if l.RTO < MIN_RTO then MIN_RTO else if MAX_RTO < l.RTO then MAX_RTO else l.RTO

def sendInterval (l : Link) : ℕ :=
  if l.halfSRTT < SEND_INTERVAL_MIN then SEND_INTERVAL_MIN
  else if l.halfSRTT > SEND_INTERVAL_MAX then SEND_INTERVAL_MAX
  else l.halfSRTT.toNat

/-- What reaches the network of the datagrams of an instruction, and whether `send` throws. -/
def send (l : Link) (datagrams : List Bytes) : List Bytes × Bool :=
  match l.throws with
  | none => (datagrams, false)
  | some k => (datagrams.take (k + 1), decide (k < datagrams.length))

end Link

/-- `sent_states` is `known`, the acknowledged state, and after it `unacked`. -/
structure TransportSender (σ : Type) where
  currentState : σ
  known : SentState σ
  unacked : List (SentState σ)
  assumedReceiverState : ℕ
  fragmenter : Fragmenter
  nextAckTime : ℕ
  nextSendTime : ℕ
  shutdownInProgress : Bool
  shutdownTries : ℕ
  shutdownStart : ℕ
  ackNum : ℕ
  pendingDataAck : Bool
  SEND_MINDELAY : ℕ
  lastHeard : ℕ
  mindelayClock : ℕ
  /-- The nodes allocated so far. -/
  nodes : ℕ

/-- A call that sends: the sender afterwards, the datagrams, and whether it threw. -/
structure Sent (σ : Type) where
  sender : TransportSender σ
  datagrams : List Bytes
  threw : Bool

namespace TransportSender

variable {σ : Type}

def new (now : ℕ) (initial : σ) : TransportSender σ where
  currentState := initial
  known := ⟨⟨now, 0, initial⟩, 0⟩
  unacked := []
  assumedReceiverState := 0
  fragmenter := .new
  nextAckTime := now
  nextSendTime := now
  shutdownInProgress := false
  shutdownTries := 0
  shutdownStart := MAX64
  ackNum := 0
  pendingDataAck := false
  SEND_MINDELAY := 8
  lastHeard := 0
  mindelayClock := MAX64
  nodes := 1

def sentStates (s : TransportSender σ) : List (SentState σ) := s.known :: s.unacked

/-- `sent_states.back()`. -/
def back (s : TransportSender σ) : SentState σ := s.unacked.getLastD s.known

/-- `*assumed_receiver_state`. -/
def assumed (s : TransportSender σ) : Option (SentState σ) :=
  s.sentStates.find? fun x => x.node = s.assumedReceiverState

/-- The loop of `update_assumed_receiver_state`, from the state after `node`. -/
def assumeFrom (now limit : ℕ) : ℕ → List (SentState σ) → Option ℕ
  | node, [] => some node
  | node, i :: rest =>
    if now < i.timestamp then none
    else if now - i.timestamp < limit then assumeFrom now limit i.node rest
    else some node

def updateAssumedReceiverState (s : TransportSender σ) (now : ℕ) (link : Link) : Option (TransportSender σ) :=
  (assumeFrom now (link.timeout + ACK_DELAY) s.known.node s.unacked).map fun node =>
    { s with assumedReceiverState := node }

def addSentState (s : TransportSender σ) (timestamp num : ℕ) (state : σ) : TransportSender σ :=
  let unacked := s.unacked ++ [⟨⟨timestamp, num, state⟩, s.nodes⟩]
  -- a state is erased from the middle of the list, the sixteenth from its end
  { s with
    unacked := if 32 < unacked.length + 1 then unacked.eraseIdx (unacked.length - 16) else unacked
    nodes := s.nodes + 1 }

def processAcknowledgmentThrough (s : TransportSender σ) (ackNum : ℕ) : Option (TransportSender σ) :=
  if s.sentStates.any fun x => x.num = ackNum then
    match s.sentStates.filter fun x => ackNum ≤ x.num with
    | [] => none
    | known :: unacked => some { s with known := known, unacked := unacked }
  else some s

def shutdownAckTimedOut (s : TransportSender σ) (now : ℕ) : Bool :=
  s.shutdownInProgress && (decide (SHUTDOWN_RETRIES ≤ s.shutdownTries) ||
    decide (ACTIVE_RETRY_TIMEOUT ≤ now - s.shutdownStart))

def shutdownAcknowledged (s : TransportSender σ) : Bool := s.known.num = MAX64

def startShutdown (s : TransportSender σ) (now : ℕ) : TransportSender σ :=
  if s.shutdownInProgress then s else { s with shutdownStart := now, shutdownInProgress := true }

variable [SyncState σ]

/-- The other states of `rationalize_states`, cut by the first. -/
def subtractAll (front : σ) : List (SentState σ) → Option (List (SentState σ))
  | [] => some []
  | i :: rest => (subtract i.state front).bind fun state =>
    (subtractAll front rest).map fun rest => { i with state := state } :: rest

def rationalizeStates (s : TransportSender σ) : Option (TransportSender σ) :=
  (subtract s.currentState s.known.state).bind fun currentState =>
    (subtractAll s.known.state s.unacked).map fun unacked =>
      { s with
        currentState := currentState
        unacked := unacked
        known := { s.known with state := subtractSelf s.known.state } }

/-- The times, once `assumed_receiver_state` is known. -/
def scheduleNext (s : TransportSender σ) (now : ℕ) (link : Link) (assumed : SentState σ) : TransportSender σ :=
  let nextAckTime := if s.pendingDataAck ∧ now + ACK_DELAY < s.nextAckTime then now + ACK_DELAY else s.nextAckTime
  let mindelayClock :=
    if ¬ same s.currentState s.back.state ∧ s.mindelayClock = MAX64 then now else s.mindelayClock
  let active := now < s.lastHeard + ACTIVE_RETRY_TIMEOUT
  let nextSendTime :=
    if ¬ same s.currentState s.back.state then
      max (mindelayClock + s.SEND_MINDELAY) (s.back.timestamp + link.sendInterval)
    else if ¬ same s.currentState assumed.state ∧ active then
      if mindelayClock ≠ MAX64 then
        max (s.back.timestamp + link.sendInterval) (mindelayClock + s.SEND_MINDELAY)
      else s.back.timestamp + link.sendInterval
    else if ¬ same s.currentState s.known.state ∧ active then s.back.timestamp + link.timeout + ACK_DELAY
    else MAX64
  { s with
    nextAckTime :=
      if s.shutdownInProgress ∨ s.ackNum = MAX64 then s.back.timestamp + link.sendInterval else nextAckTime
    nextSendTime := nextSendTime
    mindelayClock := mindelayClock }

def calculateTimers (s : TransportSender σ) (now : ℕ) (link : Link) : Option (TransportSender σ) :=
  (s.updateAssumedReceiverState now link).bind fun s => s.rationalizeStates.bind fun s =>
    s.assumed.map fun assumed => s.scheduleNext now link assumed

variable (codec : Codec)

def instruction (s : TransportSender σ) (assumed : SentState σ) (diff : Bytes) (newNum : ℕ) (chaff : Bytes) :
    Instruction where
  protocolVersion := MOSH_PROTOCOL_VERSION
  oldNum := assumed.num
  newNum := newNum
  ackNum := s.ackNum
  throwawayNum := s.known.num
  diff := diff
  chaff := chaff

def sendInFragments (s : TransportSender σ) (link : Link) (diff : Bytes) (newNum : ℕ) (chaff : Bytes) :
    Option (Sent σ) :=
  s.assumed.bind fun assumed =>
    (s.fragmenter.makeFragments codec (s.instruction assumed diff newNum chaff) link.mtu.payload).bind fun made =>
      let s := { s with
        shutdownTries := if newNum = MAX64 then s.shutdownTries + 1 else s.shutdownTries
        fragmenter := made.1 }
      match made.2 with
      | none => some ⟨s, [], true⟩
      | some fragments => (fragments.mapM Fragment.tostring).map fun datagrams =>
        let sent := link.send datagrams
        ⟨if sent.2 then s else { s with pendingDataAck := false }, sent.1, sent.2⟩

def sendEmptyAck (s : TransportSender σ) (now : ℕ) (link : Link) (chaff : Bytes) : Option (Sent σ) :=
  let newNum := if s.shutdownInProgress then MAX64 else (s.back.num + 1) % 2 ^ 64
  ((s.addSentState now newNum s.currentState).sendInFragments codec link [] newNum chaff).map fun sent =>
    if sent.threw then sent
    else { sent with sender := { sent.sender with nextAckTime := now + ACK_INTERVAL, nextSendTime := MAX64 } }

/-- The last state with a new timestamp. -/
def touchBack (s : TransportSender σ) (now : ℕ) : TransportSender σ :=
  match s.unacked.getLast? with
  | none => { s with known := { s.known with timestamp := now } }
  | some last => { s with unacked := s.unacked.dropLast ++ [{ last with timestamp := now }] }

def sendToReceiver (s : TransportSender σ) (now : ℕ) (link : Link) (diff chaff : Bytes) : Option (Sent σ) :=
  let newNum := if s.shutdownInProgress then MAX64
    else if same s.currentState s.back.state then s.back.num
    else (s.back.num + 1) % 2 ^ 64
  let s := if newNum = s.back.num then s.touchBack now else s.addSentState now newNum s.currentState
  (s.sendInFragments codec link diff newNum chaff).map fun sent =>
    if sent.threw then sent
    else { sent with sender := { sent.sender with
      assumedReceiverState := sent.sender.back.node
      nextAckTime := now + ACK_INTERVAL
      nextSendTime := MAX64 } }

/-- With the diff to send. -/
def attemptProspectiveResendOptimization (s : TransportSender σ) (proposedDiff : Bytes) :
    Option (TransportSender σ × Bytes) :=
  if s.assumedReceiverState = s.known.node then some (s, proposedDiff)
  else (diffFrom s.currentState s.known.state).map fun resendDiff =>
    if resendDiff.length ≤ proposedDiff.length ∨
        resendDiff.length < 1000 ∧ resendDiff.length - proposedDiff.length < 100 then
      ({ s with assumedReceiverState := s.known.node }, resendDiff)
    else (s, proposedDiff)

/-- An empty diff: an acknowledgement, if it is time for one. -/
def tickAck (s : TransportSender σ) (now : ℕ) (link : Link) (chaff : Bytes) : Option (Sent σ) :=
  (if s.nextAckTime ≤ now then (s.sendEmptyAck codec now link chaff).map fun sent =>
      if sent.threw then sent else { sent with sender := { sent.sender with mindelayClock := MAX64 } }
    else some ⟨s, [], false⟩).map fun sent =>
  if ¬ sent.threw ∧ sent.sender.nextSendTime ≤ now then
    { sent with sender := { sent.sender with nextSendTime := MAX64, mindelayClock := MAX64 } }
  else sent

def tickDiff (s : TransportSender σ) (now : ℕ) (link : Link) (diff chaff : Bytes) : Option (Sent σ) :=
  if s.nextSendTime ≤ now ∨ s.nextAckTime ≤ now then (s.sendToReceiver codec now link diff chaff).map fun sent =>
    if sent.threw then sent else { sent with sender := { sent.sender with mindelayClock := MAX64 } }
  else some ⟨s, [], false⟩

def tick (s : TransportSender σ) (now : ℕ) (link : Link) (chaff : Bytes) : Option (Sent σ) :=
  (s.calculateTimers now link).bind fun s =>
    if ¬ link.hasRemoteAddr ∨ now < s.nextAckTime ∧ now < s.nextSendTime then some ⟨s, [], false⟩
    else s.assumed.bind fun assumed => (diffFrom s.currentState assumed.state).bind fun diff =>
      (s.attemptProspectiveResendOptimization diff).bind fun next =>
        if next.2.isEmpty then next.1.tickAck codec now link chaff
        else next.1.tickDiff codec now link next.2 chaff

end TransportSender

structure Transport (σ τ : Type) where
  sender : TransportSender σ
  receivedStates : List (TimestampedState τ)
  receiverQuenchTimer : ℕ
  lastReceiverState : τ
  fragments : FragmentAssembly

namespace Transport

variable {σ τ : Type}

def new (now : ℕ) (initialState : σ) (initialRemote : τ) : Transport σ τ where
  sender := .new now initialState
  receivedStates := [⟨now, 0, initialRemote⟩]
  receiverQuenchTimer := 0
  lastReceiverState := initialRemote
  fragments := .new

/-- `received_states.back().num`. -/
def remoteStateNum (t : Transport σ τ) : ℕ := (t.receivedStates.getLast?.map TimestampedState.num).getD 0

def processThrowawayUntil (t : Transport σ τ) (throwawayNum : ℕ) : Option (Transport σ τ) :=
  let kept := t.receivedStates.filter fun x => throwawayNum ≤ x.num
  if kept.isEmpty then none else some { t with receivedStates := kept }

/-- The new state at its place; only at the end it is acknowledged. -/
def insertState (t : Transport σ τ) (now : ℕ) (state : TimestampedState τ) (data : Bool) : Transport σ τ :=
  if t.receivedStates.any fun x => state.num < x.num then
    { t with receivedStates := t.receivedStates.takeWhile (fun x => ¬ state.num < x.num) ++
        state :: t.receivedStates.dropWhile fun x => ¬ state.num < x.num }
  else
    { t with
      receivedStates := t.receivedStates ++ [state]
      sender := { t.sender with
        ackNum := state.num
        lastHeard := now
        pendingDataAck := t.sender.pendingDataAck || data } }

variable [SyncState τ]

/-- `reference` is `*reference_state`. -/
def acceptState (t : Transport σ τ) (now : ℕ) (inst : Instruction) (reference : TimestampedState τ) :
    Option (Transport σ τ) :=
  (if inst.diff.isEmpty then some reference.state else applyString reference.state inst.diff).map fun state =>
    t.insertState now ⟨now, inst.newNum, state⟩ (!inst.diff.isEmpty)

/-- An instruction with a known version, after its acknowledgement. The list has every number
once, so that `reference_state` is found by it again after states were thrown away. -/
def processInstruction (t : Transport σ τ) (now : ℕ) (inst : Instruction) : Option (Transport σ τ) :=
  if t.receivedStates.any fun x => x.num = inst.newNum then some t
  else if t.receivedStates.all fun x => x.num ≠ inst.oldNum then some t
  else (t.processThrowawayUntil inst.throwawayNum).bind fun t =>
    if 1024 < t.receivedStates.length ∧ now < t.receiverQuenchTimer then some t
    else
      let t := if 1024 < t.receivedStates.length then { t with receiverQuenchTimer := now + 15000 } else t
      (t.receivedStates.find? fun x => x.num = inst.oldNum).bind fun reference =>
        t.acceptState now inst reference

def receive (t : Transport σ τ) (now : ℕ) (inst : Instruction) : Option (Transport σ τ) :=
  if inst.protocolVersion ≠ MOSH_PROTOCOL_VERSION then some t
  else (t.sender.processAcknowledgmentThrough inst.ackNum).bind fun sender =>
    { t with sender := sender }.processInstruction now inst

/-- `recv` of a datagram. -/
def recv (codec : Codec) (t : Transport σ τ) (now : ℕ) (datagram : Bytes) : Option (Transport σ τ) :=
  (Fragment.ofString datagram).bind fun frag => (t.fragments.addFragment frag).bind fun added =>
    if added.1 then (added.2.getAssembly codec).bind fun got =>
      match got.2 with
      | none => some { t with fragments := got.1 }
      | some inst => { t with fragments := got.1 }.receive now inst
    else some { t with fragments := added.2 }

def subtractAll (front : τ) : List (TimestampedState τ) → Option (List (TimestampedState τ))
  | [] => some []
  | i :: rest => (subtract i.state front).bind fun state =>
    (subtractAll front rest).map fun rest => { i with state := state } :: rest

/-- The diff, and the transport with the states cut by the oldest. -/
def getRemoteDiff (t : Transport σ τ) : Option (Bytes × Transport σ τ) :=
  match t.receivedStates with
  | [] => none
  | oldest :: rest =>
    (diffFrom (rest.getLastD oldest).state t.lastReceiverState).bind fun diff =>
      (subtractAll oldest.state rest).map fun rest =>
        let oldest := { oldest with state := subtractSelf oldest.state }
        (diff, { t with
          receivedStates := oldest :: rest
          lastReceiverState := (rest.getLastD oldest).state })

end Transport

end Tinyhack.Network
