import TinyhackSsh.Lib.Runs
import TinyhackSsh.Proofs.MoshConnection
import TinyhackSsh.Proofs.MoshMessages
import TinyhackSsh.Spec.MoshSecured

/-! A session whose datagrams anybody may repeat, send back or make up runs as one whose network
only loses, repeats and reorders them. No nonce is used twice, and the server sends to where the newest packet
came from. -/

namespace Tinyhack.Mosh

open Network Runs Connection

variable {format : UserFormat} {τ : Type} {cipher : Cipher}

/-- The side that sends in a direction. -/
def Secured.side (s : Secured format τ) : Direction → Connection
  | .toServer => s.client
  | .toClient => s.server

/-- What its transport handed to it. -/
def Secured.handed (s : Secured format τ) : Direction → List Bytes
  | .toServer => s.session.toServer
  | .toClient => s.session.toClient

/-- Every datagram on the wire is a packet of the side whose direction it has, and no two have a nonce in common. -/
structure SecuredOk (cipher : Cipher) (s : Secured format τ) : Prop where
  direction : ∀ dir, (s.side dir).direction = dir
  counted : ∀ dir, (s.side dir).Counted
  wire : ∀ d ∈ s.wire, ∃ p, opened cipher d = some p ∧ p.seq < (s.side p.direction).counter ∧
    p.payload ∈ s.handed p.direction
  nonces : (s.wire.map nonce).Nodup

namespace SecuredOk

variable {s s' : Secured format τ}

theorem new (clientNow serverNow : ℕ) (localTerminal terminal : τ) (remoteAddr : Addr) (clientMtu serverMtu : Mtu) :
    SecuredOk cipher
      (Secured.new clientNow serverNow localTerminal terminal remoteAddr clientMtu serverMtu : Secured format τ) where
  direction dir := by cases dir <;> rfl
  counted dir := by cases dir <;> exact ⟨le_rfl, show (0 : ℕ) < 2 ^ 47 by decide⟩
  wire := by simp [Secured.new]
  nonces := List.nodup_nil

/-- Nothing is sent. -/
theorem silent (h : SecuredOk cipher s) (hside : ∀ dir, SameSender (s.side dir) (s'.side dir))
    (hhanded : ∀ dir, s'.handed dir = s.handed dir) (hwire : s'.wire = s.wire) : SecuredOk cipher s' where
  direction dir := by
    rw [Connection.direction, (hside dir).server]
    exact h.direction dir
  counted dir := (h.counted dir).congr (hside dir)
  wire d hd := by
    obtain ⟨p, hp, hseq, hpayload⟩ := h.wire d (hwire ▸ hd)
    exact ⟨p, hp, (hside _).counter ▸ hseq, hhanded _ ▸ hpayload⟩
  nonces := hwire ▸ h.nonces

/-- One side sends datagrams. -/
theorem sends (dir : Direction) {now : ℕ} {datagrams : List Bytes} {results : List SendResult}
    {out : Connection × List Bytes} (h : SecuredOk cipher s)
    (hout : (s.side dir).sendAll cipher now datagrams results = some out)
    (hside : ∀ dir', s'.side dir' = if dir' = dir then out.1 else s.side dir')
    (hhanded : ∀ dir', s'.handed dir' = s.handed dir' ++ if dir' = dir then datagrams else [])
    (hwire : s'.wire = s.wire ++ out.2) : SecuredOk cipher s' := by
  obtain ⟨hcounted, hsame, hle, hmade, hnodup⟩ := sendAll_spec (h.counted dir) hout
  have hcounter : ∀ dir', (s.side dir').counter ≤ (s'.side dir').counter := by
    intro dir'
    rw [hside]
    split_ifs with heq
    · exact heq ▸ hle
    · exact le_rfl
  refine ⟨fun dir' => ?_, fun dir' => ?_, fun d hd => ?_, ?_⟩
  · rw [hside]
    split_ifs with heq
    · rw [hsame.direction, h.direction, heq]
    · exact h.direction dir'
  · rw [hside]
    split_ifs
    · exact hcounted
    · exact h.counted dir'
  · rcases List.mem_append.mp (hwire ▸ hd) with hd | hd
    · obtain ⟨p, hp, hseq, hpayload⟩ := h.wire d hd
      exact ⟨p, hp, hseq.trans_le (hcounter _), hhanded _ ▸ List.mem_append_left _ hpayload⟩
    · obtain ⟨seq, payload, hpayload, -, hlt, p, hp, rfl, hdirection, rfl⟩ := hmade d hd
      have hdir : p.direction = dir := hdirection.trans (h.direction dir)
      refine ⟨p, hp, ?_, ?_⟩
      · rwa [hside, if_pos hdir]
      · rw [hhanded, if_pos hdir]
        exact List.mem_append_right _ hpayload
  · rw [hwire, List.map_append]
    refine List.nodup_append'.mpr ⟨h.nonces, hnodup, fun k hk hk' => ?_⟩
    obtain ⟨d, hd, rfl⟩ := List.mem_map.mp hk
    obtain ⟨d', hd', hnonce⟩ := List.mem_map.mp hk'
    obtain ⟨p, hp, hseq, -⟩ := h.wire d hd
    obtain ⟨seq, payload, -, hge, -, p', hp', rfl, hdirection, -⟩ := hmade d' hd'
    obtain ⟨heq, hdir⟩ := seq_eq_of_nonce hp' hp hnonce
    rw [← hdir, hdirection, h.direction, ← heq] at hseq
    exact absurd hseq (not_lt.mpr hge)

/-- What passes the integrity check and has the right direction was handed to the other side's connection. -/
theorem mem_handed {d payload : Bytes} {dir : Direction} (h : SecuredOk cipher s)
    (hunforged : (decrypt cipher d).isSome → d ∈ s.wire)
    (hheard : ∃ p, opened cipher d = some p ∧ p.direction = dir ∧ p.payload = payload) : payload ∈ s.handed dir := by
  obtain ⟨p, hp, rfl, rfl⟩ := hheard
  obtain ⟨m, hm, -⟩ := Option.bind_eq_some_iff.mp hp
  obtain ⟨p', hp', -, hpayload⟩ := h.wire d (hunforged (by rw [hm]; rfl))
  obtain rfl := Option.some.inj (hp'.symm.trans hp)
  exact hpayload

end SecuredOk

/-- The newest packet from the client came from the address that the server sends to. -/
def Located (cipher : Cipher) (actions : List (SecuredAction τ)) (c : Connection) : Prop :=
  c.expectedReceiverSeq = 0 ∧ c.remoteAddr = none ∨
    ∃ d p, .serverDeliver d ∈ actions ∧ opened cipher d.datagram = some p ∧ p.direction = .toServer ∧
      c.expectedReceiverSeq = p.seq + 1 ∧ c.remoteAddr = some d.source

theorem Located.mono {actions actions' : List (SecuredAction τ)} {c c' : Connection} (h : Located cipher actions c)
    (hsub : actions ⊆ actions') (hseq : c'.expectedReceiverSeq = c.expectedReceiverSeq)
    (haddr : c'.remoteAddr = c.remoteAddr) : Located cipher actions' c' := by
  rw [Located, hseq, haddr]
  rcases h with h | ⟨d, p, hd, h⟩
  · exact .inl h
  · exact .inr ⟨d, p, hsub hd, h⟩

/-- A datagram is taken from its source, or does not change where the server sends to. -/
theorem Located.recvOne {actions : List (SecuredAction τ)} {c : Connection} {now : ℕ} {d : Delivery}
    (h : Located cipher actions c) (hserver : c.server = true) :
    Located cipher (actions ++ [SecuredAction.serverDeliver d])
      (c.recvOne cipher now d.source d.congestionExperienced d.named d.datagram).1 := by
  have hsub : actions ⊆ actions ++ [SecuredAction.serverDeliver d] := List.subset_append_left _ _
  rcases c.recvOne_cases now d.source d.congestionExperienced d.named d.datagram with
    ⟨heq, -⟩ | ⟨-, p, hp, hdirection, ⟨-, heq⟩ | ⟨-, haccepts⟩⟩
  · exact h.mono hsub (by rw [heq]) (by rw [heq])
  · exact h.mono hsub (by rw [heq]) (by rw [heq])
  · rw [incoming, if_pos hserver] at hdirection
    exact .inr ⟨d, p, by simp, hp, hdirection, haccepts.expectedReceiverSeq, haccepts.remoteAddr hserver⟩

/-- What the server knows after the actions. -/
structure ServerOk (cipher : Cipher) (actions : List (SecuredAction τ)) (s : Secured format τ) : Prop where
  secured : SecuredOk cipher s
  heard : ∀ d, .serverDeliver d ∈ actions → Heard cipher s.server d.datagram
  located : Located cipher actions s.server

theorem readInput_rest {s s' : Session format τ} (h : s.readInput = some s') :
    s'.toServer = s.toServer ∧ s'.toClient = s.toClient := by
  unfold Session.readInput at h
  split_ifs at h
  · obtain ⟨got, -, h⟩ := Option.bind_eq_some_iff.mp h
    obtain ⟨us, -, rfl⟩ := Option.map_eq_some_iff.mp h
    exact ⟨rfl, rfl⟩
  · obtain rfl := Option.some.inj h
    exact ⟨rfl, rfl⟩

section Steps

variable [SyncState τ] {codec : Codec}

theorem step_onHost_rest {s s' : Session format τ} {action : Action τ} (h : s.step codec action = some s')
    (hhost : action.onHost = true) : s'.toServer = s.toServer ∧ s'.toClient = s.toClient := by
  cases action with
  | push event =>
    obtain ⟨-, heq⟩ := Option.ite_none_left_eq_some.mp h
    obtain rfl := Option.some.inj heq
    exact ⟨rfl, rfl⟩
  | setTerminal terminal =>
    obtain ⟨-, heq⟩ := Option.ite_none_left_eq_some.mp h
    obtain rfl := Option.some.inj heq
    exact ⟨rfl, rfl⟩
  | clientShutdown | serverShutdown | wait =>
    obtain rfl := Option.some.inj h
    exact ⟨rfl, rfl⟩
  | clientTick | clientRecv | serverTick | serverRecv => cases hhost

variable {s s' : Secured format τ}

/-- A datagram for the client: its transport gets the payload, if there is one. -/
theorem clientDeliver_cases {d : Delivery} (h : s.step cipher codec (.clientDeliver d) = some s') :
    ∃ session, s' = { s with client := (s.atClient cipher d).1, session := session } ∧
      ((s.atClient cipher d).2 = none ∧ session = s.session ∨ ∃ payload client, (s.atClient cipher d).2 = some payload ∧
        s.session.client.recv codec s.session.clientNow payload = some client ∧
        session = { s.session with client := client }) := by
  simp only [Secured.step] at h
  cases hgot : (s.atClient cipher d).2 with
  | none =>
    rw [hgot] at h
    exact ⟨s.session, (Option.some.inj h).symm, .inl ⟨rfl, rfl⟩⟩
  | some payload =>
    rw [hgot] at h
    obtain ⟨client, hclient, rfl⟩ := Option.map_eq_some_iff.mp h
    exact ⟨_, rfl, .inr ⟨payload, client, rfl, hclient, rfl⟩⟩

/-- A datagram for the server, which acts on new input. -/
theorem serverDeliver_cases {d : Delivery} (h : s.step cipher codec (.serverDeliver d) = some s') :
    ∃ session, s' = { s with server := (s.atServer cipher d).1, session := session } ∧
      ((s.atServer cipher d).2 = none ∧ session = s.session ∨ ∃ payload server, (s.atServer cipher d).2 = some payload ∧
        s.session.server.recv codec s.session.serverNow payload = some server ∧
        Session.readInput { s.session with server := server } = some session) := by
  simp only [Secured.step] at h
  cases hgot : (s.atServer cipher d).2 with
  | none =>
    rw [hgot] at h
    exact ⟨s.session, (Option.some.inj h).symm, .inl ⟨rfl, rfl⟩⟩
  | some payload =>
    rw [hgot] at h
    obtain ⟨server, hserver, hmap⟩ := Option.bind_eq_some_iff.mp h
    obtain ⟨session, hsession, rfl⟩ := Option.map_eq_some_iff.mp hmap
    exact ⟨session, rfl, .inr ⟨payload, server, rfl, hserver, hsession⟩⟩

theorem SecuredOk.step {action : SecuredAction τ} (h : SecuredOk cipher s)
    (hstep : s.step cipher codec action = some s') : SecuredOk cipher s' := by
  cases action with
  | onHost action =>
    obtain ⟨hhost, hmap⟩ := Option.ite_none_right_eq_some.mp hstep
    obtain ⟨session, hsession, rfl⟩ := Option.map_eq_some_iff.mp hmap
    obtain ⟨htoServer, htoClient⟩ := step_onHost_rest hsession hhost
    refine h.silent (fun dir => ?_) (fun dir => ?_) rfl
    · cases dir <;> exact SameSender.refl _
    · cases dir <;> assumption
  | clientTick link chaff results =>
    obtain ⟨sent, -, hmap⟩ := Option.bind_eq_some_iff.mp hstep
    obtain ⟨out, hout, rfl⟩ := Option.map_eq_some_iff.mp hmap
    refine h.sends .toServer hout (fun dir => ?_) (fun dir => ?_) rfl
    · cases dir <;> rfl
    · cases dir
      · rfl
      · exact (List.append_nil _).symm
  | clientDeliver d =>
    obtain ⟨session, rfl, hsession⟩ := clientDeliver_cases hstep
    refine h.silent (fun dir => ?_) (fun dir => ?_) rfl
    · cases dir
      · exact (hears_recvOne _ _ _ _ _ _).sender
      · exact SameSender.refl _
    · rcases hsession with ⟨-, rfl⟩ | ⟨payload, client, -, -, rfl⟩ <;> cases dir <;> rfl
  | serverTick link chaff results =>
    obtain ⟨sent, -, hmap⟩ := Option.bind_eq_some_iff.mp hstep
    obtain ⟨out, hout, rfl⟩ := Option.map_eq_some_iff.mp hmap
    refine h.sends .toClient hout (fun dir => ?_) (fun dir => ?_) rfl
    · cases dir <;> rfl
    · cases dir
      · exact (List.append_nil _).symm
      · rfl
  | serverDeliver d =>
    obtain ⟨session, rfl, hsession⟩ := serverDeliver_cases hstep
    refine h.silent (fun dir => ?_) (fun dir => ?_) rfl
    · cases dir
      · exact SameSender.refl _
      · exact (hears_recvOne _ _ _ _ _ _).sender
    · rcases hsession with ⟨-, rfl⟩ | ⟨payload, server, -, -, hread⟩
      · rfl
      · obtain ⟨htoServer, htoClient⟩ := readInput_rest hread
        cases dir <;> assumption

/-- One step of the secured session is one of the session, or none. -/
theorem SecuredOk.refines {action : SecuredAction τ} (h : SecuredOk cipher s) (hunforged : s.Unforged cipher action)
    (hstep : s.step cipher codec action = some s') :
    s'.session = s.session ∨ ∃ action', s.session.step codec action' = some s'.session := by
  cases action with
  | onHost action =>
    obtain ⟨-, hmap⟩ := Option.ite_none_right_eq_some.mp hstep
    obtain ⟨session, hsession, rfl⟩ := Option.map_eq_some_iff.mp hmap
    exact .inr ⟨action, hsession⟩
  | clientTick link chaff results =>
    obtain ⟨sent, hsent, hmap⟩ := Option.bind_eq_some_iff.mp hstep
    obtain ⟨out, -, rfl⟩ := Option.map_eq_some_iff.mp hmap
    exact .inr ⟨.clientTick (Secured.linked link s.client) chaff, by simp only [Session.step, hsent, Option.map_some]⟩
  | clientDeliver d =>
    obtain ⟨session, rfl, ⟨-, rfl⟩ | ⟨payload, client, hgot, hclient, rfl⟩⟩ := clientDeliver_cases hstep
    · exact .inl rfl
    · have hmem : payload ∈ s.handed s.client.incoming :=
        h.mem_handed hunforged ((hears_recvOne _ _ _ _ _ _).payload payload hgot)
      rw [incoming_of_toServer (c := s.client) (h.direction .toServer)] at hmem
      refine .inr ⟨.clientRecv payload, ?_⟩
      simp only [Session.step]
      rw [if_pos (show payload ∈ s.session.toClient from hmem), hclient, Option.map_some]
  | serverTick link chaff results =>
    obtain ⟨sent, hsent, hmap⟩ := Option.bind_eq_some_iff.mp hstep
    obtain ⟨out, -, rfl⟩ := Option.map_eq_some_iff.mp hmap
    exact .inr ⟨.serverTick (Secured.linked link s.server) chaff, by simp only [Session.step, hsent, Option.map_some]⟩
  | serverDeliver d =>
    obtain ⟨session, rfl, ⟨-, rfl⟩ | ⟨payload, server, hgot, hserver, hread⟩⟩ := serverDeliver_cases hstep
    · exact .inl rfl
    · have hmem : payload ∈ s.handed s.server.incoming :=
        h.mem_handed hunforged ((hears_recvOne _ _ _ _ _ _).payload payload hgot)
      rw [incoming_of_toClient (c := s.server) (h.direction .toClient)] at hmem
      refine .inr ⟨.serverRecv payload, ?_⟩
      simp only [Session.step]
      rw [if_pos (show payload ∈ s.session.toServer from hmem), hserver, Option.bind_some, hread]

/-- Only a datagram changes what the server goes by as a receiver. -/
theorem SecuredOk.server_cases {action : SecuredAction τ} (h : SecuredOk cipher s)
    (hstep : s.step cipher codec action = some s') :
    SameReceiver s.server s'.server ∧ (∀ d, action ≠ .serverDeliver d) ∨
      ∃ d, action = .serverDeliver d ∧ s'.server = (s.atServer cipher d).1 := by
  cases action with
  | onHost action =>
    obtain ⟨-, hmap⟩ := Option.ite_none_right_eq_some.mp hstep
    obtain ⟨session, -, rfl⟩ := Option.map_eq_some_iff.mp hmap
    exact .inl ⟨⟨rfl, rfl, rfl⟩, by simp⟩
  | clientTick link chaff results =>
    obtain ⟨sent, -, hmap⟩ := Option.bind_eq_some_iff.mp hstep
    obtain ⟨out, -, rfl⟩ := Option.map_eq_some_iff.mp hmap
    exact .inl ⟨⟨rfl, rfl, rfl⟩, by simp⟩
  | clientDeliver d =>
    obtain ⟨session, rfl, -⟩ := clientDeliver_cases hstep
    exact .inl ⟨⟨rfl, rfl, rfl⟩, by simp⟩
  | serverTick link chaff results =>
    obtain ⟨sent, -, hmap⟩ := Option.bind_eq_some_iff.mp hstep
    obtain ⟨out, hout, rfl⟩ := Option.map_eq_some_iff.mp hmap
    exact .inl ⟨(sendAll_spec (h.counted .toClient) hout).2.1, by simp⟩
  | serverDeliver d =>
    obtain ⟨session, rfl, -⟩ := serverDeliver_cases hstep
    exact .inr ⟨d, rfl, rfl⟩

theorem ServerOk.step {actions : List (SecuredAction τ)} {action : SecuredAction τ} (h : ServerOk cipher actions s)
    (hstep : s.step cipher codec action = some s') : ServerOk cipher (actions ++ [action]) s' := by
  refine ⟨h.secured.step hstep, fun d hd => ?_, ?_⟩
  · rcases h.secured.server_cases hstep with ⟨hsame, hother⟩ | ⟨d', rfl, hserver⟩
    · rcases List.mem_append.mp hd with hd | hd
      · exact (h.heard d hd).mono hsame.server hsame.expectedReceiverSeq.ge
      · exact absurd (List.mem_singleton.mp hd).symm (hother d)
    · have hhears : Hears cipher s.server d'.datagram (s.atServer cipher d') := hears_recvOne ..
      rw [hserver]
      rcases List.mem_append.mp hd with hd | hd
      · exact (h.heard d hd).mono hhears.sender.server hhears.le
      · obtain rfl := SecuredAction.serverDeliver.inj (List.mem_singleton.mp hd)
        exact hhears.heard
  · rcases h.secured.server_cases hstep with ⟨hsame, -⟩ | ⟨d, rfl, hserver⟩
    · exact h.located.mono (List.subset_append_left _ _) hsame.expectedReceiverSeq hsame.remoteAddr
    · rw [hserver]
      exact h.located.recvOne (server_of_toClient (c := s.server) (h.secured.direction .toClient))

end Steps

/-- A terminal that is its text; a diff replaces it. -/
structure Screen where
  text : Bytes
  deriving DecidableEq

instance : SyncState Screen where
  same s t := s = t
  diffFrom s t := some (if s = t then [] else 0 :: s.text)
  applyString _ diff := some ⟨diff.tail⟩
  subtract s _ := some s
  subtractSelf s := s

namespace Sample

def start : Secured UserStream.protobuf Screen := Secured.new 0 0 ⟨[]⟩ ⟨[]⟩ [1] .inet .inet

def link : Link := ⟨100, 10, .inet, true, none⟩

/-- Packet 0 of the client: state 1 with a keystroke. -/
def keystroke : Bytes :=
  [0, 0, 0, 0, 0, 0, 0, 0, 0, 10, 0, 9, 0, 0, 0, 0, 0, 0, 0, 1, 128, 0, 0, 8, 2, 16, 0, 24, 1, 32, 0, 40, 0, 50, 7,
    10, 5, 18, 3, 34, 1, 97, 58, 0] ++ List.replicate 16 0

def typed : List (SecuredAction Screen) :=
  [.onHost (.push (.userByte 97)), .onHost (.wait 10 10), .clientTick link [] []]

/-- The keystroke arrives from the client, and once more from somewhere else. -/
def replayed : List (SecuredAction Screen) :=
  typed ++ [.serverDeliver ⟨keystroke, [2], false, true⟩, .serverDeliver ⟨keystroke, [3], false, true⟩]

/-- The server answers. -/
def answered : List (SecuredAction Screen) :=
  replayed ++ [.onHost (.setTerminal ⟨[97]⟩), .onHost (.wait 30 30), .serverTick link [] []]

end Sample

section Runs

variable [SyncState τ] {codec : Codec} {clientNow serverNow : ℕ} {localTerminal terminal : τ} {remoteAddr : Addr}
  {clientMtu serverMtu : Mtu} {actions : List (SecuredAction τ)} {s : Secured format τ}

theorem serverOk_of_run
    (h : Run (Secured.new clientNow serverNow localTerminal terminal remoteAddr clientMtu serverMtu)
      (Secured.step cipher codec) anyStep actions s) : ServerOk cipher actions s := by
  refine Run.inv_acts (ServerOk cipher) ⟨SecuredOk.new .., by simp, .inl ⟨rfl, rfl⟩⟩ ?_ h
  intro before s action s' _ hok _ hstep
  exact hok.step hstep

/-- Whatever is delivered to either side, the two of them never encrypt with the same nonce twice. -/
theorem nonces_nodup
    (h : Run (Secured.new clientNow serverNow localTerminal terminal remoteAddr clientMtu serverMtu)
      (Secured.step cipher codec) anyStep actions s) : (s.wire.map nonce).Nodup :=
  (serverOk_of_run h).secured.nonces

theorem nonces_answered : ∃ s : Secured UserStream.protobuf Screen,
    Run Sample.start (Secured.step Cipher.plain Codec.stored) anyStep Sample.answered s ∧ s.wire.length = 2 ∧
      (s.wire.map nonce).Nodup := by
  obtain ⟨s, hrun, hlen⟩ : ∃ s, Run Sample.start (Secured.step Cipher.plain Codec.stored) anyStep Sample.answered s ∧
      s.wire.length = 2 := exists_run_of_exec (by decide)
  exact ⟨s, hrun, hlen, nonces_nodup hrun⟩

/-- A datagram that was delivered to the server once does nothing to its connection later, wherever it comes from. -/
theorem replay_inert {s₁ s₂ : Secured format τ} {d : Delivery} {later : List (SecuredAction τ)}
    (h : Run (Secured.new clientNow serverNow localTerminal terminal remoteAddr clientMtu serverMtu)
      (Secured.step cipher codec) anyStep actions s)
    (hstep : s.step cipher codec (.serverDeliver d) = some s₁)
    (hlater : Run s₁ (Secured.step cipher codec) anyStep later s₂) (d' : Delivery)
    (hagain : d'.datagram = d.datagram) : (s₂.atServer cipher d').1 = s₂.server := by
  have hok := serverOk_of_run ((h.snoc trivial hstep).append hlater)
  rw [Secured.atServer, hagain]
  exact recvOne_eq_self (hok.heard d (by simp)) ..

theorem replay_inert_keystroke : ∃ s s₁ : Secured UserStream.protobuf Screen,
    Run Sample.start (Secured.step Cipher.plain Codec.stored) anyStep Sample.typed s ∧
      s.step Cipher.plain Codec.stored (.serverDeliver ⟨Sample.keystroke, [2], false, true⟩) = some s₁ ∧
      s₁.server.remoteAddr = some [2] ∧
      (s₁.atServer Cipher.plain ⟨Sample.keystroke, [3], false, true⟩).1 = s₁.server := by
  obtain ⟨s, s₁, hrun, hstep, haddr⟩ : ∃ s s₁,
      Run Sample.start (Secured.step Cipher.plain Codec.stored) anyStep Sample.typed s ∧
        s.step Cipher.plain Codec.stored (.serverDeliver ⟨Sample.keystroke, [2], false, true⟩) = some s₁ ∧
        s₁.server.remoteAddr = some [2] := exists_step_of_exec (by decide)
  exact ⟨s, s₁, hrun, hstep, haddr, replay_inert hrun hstep .nil _ rfl⟩

/-- As long as nobody else can make a datagram that passes the integrity check, the session over a network
that anybody writes to is one over a network that loses, repeats and reorders. -/
theorem secured_refines
    (h : Run (Secured.new clientNow serverNow localTerminal terminal remoteAddr clientMtu serverMtu)
      (Secured.step cipher codec) (Secured.Unforged cipher) actions s) :
    ∃ actions', actions'.length ≤ actions.length ∧
      Run (Session.new clientNow serverNow localTerminal terminal) (Session.step codec) anyStep actions' s.session := by
  have hboth := Run.inv_acts (fun actions (s : Secured format τ) => SecuredOk cipher s ∧
      ∃ actions', actions'.length ≤ actions.length ∧
        Run (Session.new clientNow serverNow localTerminal terminal) (Session.step codec) anyStep actions' s.session)
    ⟨SecuredOk.new .., [], le_rfl, .nil⟩ ?_ h
  · exact hboth.2
  · rintro before s action s' - ⟨hok, actions', hlen, hrun⟩ hunforged hstep
    refine ⟨hok.step hstep, ?_⟩
    rcases hok.refines hunforged hstep with heq | ⟨action', hstep'⟩
    · exact ⟨actions', hlen.trans (by simp), heq ▸ hrun⟩
    · exact ⟨actions' ++ [action'], by simpa using hlen, hrun.snoc trivial hstep'⟩

theorem refines_answered : ∃ s : Secured UserStream.protobuf Screen,
    Run Sample.start (Secured.step Cipher.plain Codec.stored) (Secured.Unforged Cipher.plain) Sample.answered s ∧
      s.session.applied = [.userByte 97] ∧ ∃ actions', actions'.length ≤ 8 ∧
        Run (Session.new 0 0 ⟨[]⟩ ⟨[]⟩) (Session.step Codec.stored) anyStep actions' s.session := by
  obtain ⟨s, hrun, happlied⟩ : ∃ s, Run Sample.start (Secured.step Cipher.plain Codec.stored)
      (Secured.Unforged Cipher.plain) Sample.answered s ∧ s.session.applied = [.userByte 97] :=
    exists_run_of_exec (by decide)
  exact ⟨s, hrun, happlied, secured_refines hrun⟩

end Runs

end Tinyhack.Mosh
