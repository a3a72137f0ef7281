import TinyhackSsh.Proofs.MoshFragments
import TinyhackSsh.Spec.MoshConnection

/-! A packet is read back as it was made, every packet has a number of its own, and one that is
not newer than all before changes nothing. -/

namespace Tinyhack.Network

open Wire

variable {cipher : Cipher}

/-- Text in the clear, with a tag of zeros. -/
def Cipher.plain : Cipher where
  encrypt _ text := text ++ List.replicate 16 0
  decrypt _ text :=
    if text.drop (text.length - 16) = List.replicate 16 0 then some (text.take (text.length - 16)) else none
  decrypt_encrypt _ text := by simp
  length_encrypt _ text := by simp

/-- The packet of a datagram that passes the integrity check. -/
def opened (cipher : Cipher) (datagram : Bytes) : Option Packet := (decrypt cipher datagram).bind Packet.ofMessage

/-- The nonce of a datagram. -/
def nonce (datagram : Bytes) : ℕ := beNat (datagram.take 8)

theorem SEQUENCE_MASK_eq : SEQUENCE_MASK = 2 ^ 63 - 1 := by decide

theorem DIRECTION_MASK_eq : DIRECTION_MASK = 2 ^ 63 := by decide

namespace Packet

variable {p : Packet}

theorem nonce_toMessage (hseq : p.seq < 2 ^ 63) :
    p.toMessage.nonce = (p.direction = .toClient : Bool).toNat <<< 63 ||| p.seq := by
  rw [toMessage, SEQUENCE_MASK_eq, Nat.and_two_pow_sub_one_eq_mod, Nat.mod_eq_of_lt hseq]

theorem nonce_lt (hseq : p.seq < 2 ^ 63) : p.toMessage.nonce < 2 ^ 64 := by
  rw [nonce_toMessage hseq]
  exact TopBit.or_lt hseq _

theorem length_text : p.toMessage.text.length = 4 + p.payload.length := by
  rw [toMessage, List.length_append, List.length_append, length_beBytes, length_beBytes]

/-- What the receiver goes by is read as it was written. -/
theorem ofMessage_toMessage (hseq : p.seq < 2 ^ 63) :
    ∃ p', ofMessage p.toMessage = some p' ∧ p'.seq = p.seq ∧ p'.direction = p.direction ∧ p'.payload = p.payload := by
  refine ⟨_, if_neg (by rw [length_text]; omega), ?_, ?_, ?_⟩
  · show p.toMessage.nonce &&& SEQUENCE_MASK = p.seq
    rw [nonce_toMessage hseq, SEQUENCE_MASK_eq, TopBit.low hseq]
  · show (if p.toMessage.nonce &&& DIRECTION_MASK ≠ 0 then Direction.toClient else .toServer) = p.direction
    rw [nonce_toMessage hseq, DIRECTION_MASK_eq, TopBit.high hseq]
    cases p.direction <;> rfl
  · show p.toMessage.text.drop 4 = p.payload
    exact List.drop_left' (by simp)

end Packet

/-- Encrypting counts at least one block, and the datagram is decrypted again. -/
theorem encrypt_spec {blocks : ℕ} {m : Message} {out : ℕ × Bytes} (h : encrypt cipher blocks m = some out)
    (htext : m.text ≠ []) (hnonce : m.nonce < 2 ^ 64) :
    blocks < out.1 ∧ out.1 < 2 ^ 47 ∧ nonce out.2 = m.nonce ∧ decrypt cipher out.2 = some m := by
  unfold encrypt at h
  obtain ⟨-, h⟩ := Option.ite_none_left_eq_some.mp h
  obtain ⟨hlimit, heq⟩ := Option.ite_none_left_eq_some.mp h
  obtain rfl := Option.some.inj heq
  have hpos := List.length_pos_iff.mpr htext
  have hnonce' : nonce (beBytes 8 m.nonce ++ cipher.encrypt m.nonce m.text) = m.nonce := by
    rw [nonce, List.take_left' (length_beBytes 8 _), beNat_beBytes_of_lt (by simpa using hnonce)]
  refine ⟨?_, ?_, hnonce', ?_⟩
  · have hlow : m.text.length &&& 0xF = m.text.length % 2 ^ 4 := Nat.and_two_pow_sub_one_eq_mod _ 4
    rw [hlow, Nat.shiftRight_eq_div_pow]
    split_ifs <;> omega
  · rw [not_not, Nat.shiftRight_eq_div_pow] at hlimit
    exact Nat.lt_of_div_eq_zero (by decide) hlimit
  · unfold decrypt
    rw [if_neg (by simp [cipher.length_encrypt]; omega)]
    rw [show beNat (List.take 8 (beBytes 8 m.nonce ++ cipher.encrypt m.nonce m.text)) = m.nonce from hnonce',
      List.drop_left' (length_beBytes 8 _), cipher.decrypt_encrypt, Option.map_some]

/-- The nonce tells the number and the direction. -/
theorem seq_eq_of_nonce {d d' : Bytes} {p p' : Packet} (h : opened cipher d = some p)
    (h' : opened cipher d' = some p') (hnonce : nonce d = nonce d') : p.seq = p'.seq ∧ p.direction = p'.direction := by
  have hread : ∀ {d : Bytes} {p : Packet}, opened cipher d = some p → p.seq = nonce d &&& SEQUENCE_MASK ∧
      p.direction = if nonce d &&& DIRECTION_MASK ≠ 0 then .toClient else .toServer := by
    intro d p h
    obtain ⟨m, hm, hp⟩ := Option.bind_eq_some_iff.mp h
    obtain ⟨-, hm⟩ := Option.ite_none_left_eq_some.mp hm
    obtain ⟨text, -, rfl⟩ := Option.map_eq_some_iff.mp hm
    obtain ⟨-, hp⟩ := Option.ite_none_left_eq_some.mp hp
    obtain rfl := Option.some.inj hp
    exact ⟨rfl, rfl⟩
  rw [(hread h).1, (hread h').1, (hread h).2, (hread h').2, hnonce]
  exact ⟨rfl, rfl⟩

namespace Connection

variable {c c' : Connection} {now : ℕ} {datagram : Bytes}

/-- Every packet has taken a block at least, so that the numbers end before they repeat. -/
structure Counted (c : Connection) : Prop where
  counter_le : c.counter ≤ c.blocksEncrypted
  blocks_lt : c.blocksEncrypted < 2 ^ 47

theorem Counted.counter_lt (h : Counted c) : c.counter < 2 ^ 63 :=
  h.counter_le.trans_lt (h.blocks_lt.trans (by decide))

/-- Receiving leaves alone what the sender goes by. -/
structure SameSender (c c' : Connection) : Prop where
  server : c'.server = c.server
  counter : c'.counter = c.counter
  blocksEncrypted : c'.blocksEncrypted = c.blocksEncrypted

theorem SameSender.refl (c : Connection) : SameSender c c := ⟨rfl, rfl, rfl⟩

theorem Counted.congr (h : Counted c) (hs : SameSender c c') : Counted c' := by
  refine ⟨?_, ?_⟩
  · rw [hs.counter, hs.blocksEncrypted]
    exact h.counter_le
  · rw [hs.blocksEncrypted]
    exact h.blocks_lt

/-- Sending leaves alone what the receiver goes by. -/
structure SameReceiver (c c' : Connection) : Prop where
  server : c'.server = c.server
  expectedReceiverSeq : c'.expectedReceiverSeq = c.expectedReceiverSeq
  remoteAddr : c'.remoteAddr = c.remoteAddr

/-- A datagram of `c` with the number `seq`. -/
def Made (cipher : Cipher) (c : Connection) (seq : ℕ) (payload datagram : Bytes) : Prop :=
  ∃ p, opened cipher datagram = some p ∧ p.seq = seq ∧ p.direction = c.direction ∧ p.payload = payload

theorem newPacket_spec {payload : Bytes} {made : Connection × Packet} (h : c.newPacket now payload = some made) :
    SameReceiver c made.1 ∧ made.1.counter = c.counter + 1 ∧ made.1.blocksEncrypted = c.blocksEncrypted ∧
      made.2.seq = c.counter ∧ made.2.direction = c.direction ∧ made.2.payload = payload := by
  unfold newPacket at h
  obtain ⟨-, heq⟩ := Option.ite_none_left_eq_some.mp h
  obtain rfl := Option.some.inj heq
  exact ⟨⟨rfl, rfl, rfl⟩, rfl, rfl, rfl, rfl, rfl⟩

theorem send_spec {result : SendResult} {payload : Bytes} {sent : Connection × Option Bytes} (h : Counted c)
    (hsent : c.send cipher now result payload = some sent) :
    Counted sent.1 ∧ SameReceiver c sent.1 ∧ c.counter ≤ sent.1.counter ∧
      ∀ d ∈ sent.2, c.counter < sent.1.counter ∧ Made cipher c c.counter payload d := by
  unfold send at hsent
  split_ifs at hsent
  · obtain ⟨made, hmade, hsent⟩ := Option.bind_eq_some_iff.mp hsent
    obtain ⟨out, hout, rfl⟩ := Option.map_eq_some_iff.mp hsent
    obtain ⟨hsame, hcounter, hblocks, hseq, hdirection, hpayload⟩ := newPacket_spec hmade
    have hlt : made.2.seq < 2 ^ 63 := hseq ▸ h.counter_lt
    have htext : made.2.toMessage.text ≠ [] := List.length_pos_iff.mp (by rw [Packet.length_text]; omega)
    obtain ⟨hmore, hlimit, -, hdecrypt⟩ := encrypt_spec hout htext (Packet.nonce_lt hlt)
    obtain ⟨p, hp, hpseq, hpdirection, hppayload⟩ := Packet.ofMessage_toMessage hlt
    have hle := h.counter_le
    refine ⟨⟨?_, hlimit⟩, ⟨hsame.server, hsame.expectedReceiverSeq, hsame.remoteAddr⟩, ?_, fun d hd => ⟨?_, ?_⟩⟩
    · show made.1.counter ≤ out.1
      omega
    · show c.counter ≤ made.1.counter
      omega
    · show c.counter < made.1.counter
      omega
    · have hout' : d = out.2 := by
        cases result with
        | sent => exact (Option.some.inj hd).symm
        | failed emsgsize => cases hd
      refine ⟨p, ?_, hpseq.trans hseq, hpdirection.trans hdirection, hppayload.trans hpayload⟩
      rw [hout', opened, hdecrypt, Option.bind_some, hp]
  · obtain rfl := Option.some.inj hsent
    exact ⟨h, ⟨rfl, rfl, rfl⟩, le_rfl, by simp⟩

theorem SameReceiver.trans {c'' : Connection} (h : SameReceiver c c') (h' : SameReceiver c' c'') :
    SameReceiver c c'' :=
  ⟨h'.server.trans h.server, h'.expectedReceiverSeq.trans h.expectedReceiverSeq, h'.remoteAddr.trans h.remoteAddr⟩

theorem SameReceiver.direction (h : SameReceiver c c') : c'.direction = c.direction := by
  rw [Connection.direction, Connection.direction, h.server]

theorem sendAll_spec {datagrams : List Bytes} {results : List SendResult} {out : Connection × List Bytes}
    (h : Counted c) (hout : sendAll cipher now c datagrams results = some out) :
    Counted out.1 ∧ SameReceiver c out.1 ∧ c.counter ≤ out.1.counter ∧
      (∀ d ∈ out.2, ∃ seq, ∃ payload ∈ datagrams, c.counter ≤ seq ∧ seq < out.1.counter ∧
        Made cipher c seq payload d) ∧ (out.2.map nonce).Nodup := by
  induction datagrams generalizing c results out with
  | nil =>
    obtain rfl := Option.some.inj hout
    exact ⟨h, ⟨rfl, rfl, rfl⟩, le_rfl, by simp, List.nodup_nil⟩
  | cons payload rest ih =>
    obtain ⟨sent, hsent, hmap⟩ := Option.bind_eq_some_iff.mp hout
    obtain ⟨out, hrec, rfl⟩ := Option.map_eq_some_iff.mp hmap
    obtain ⟨hcounted, hsame, hle, hfirst⟩ := send_spec h hsent
    obtain ⟨hcounted', hsame', hle', hrest, hnodup⟩ := ih hcounted hrec
    refine ⟨hcounted', hsame.trans hsame', hle.trans hle', fun d hd => ?_, ?_⟩
    · rcases List.mem_append.mp hd with hd | hd
      · obtain ⟨hlt, hmade⟩ := hfirst d (Option.mem_toList.mp hd)
        exact ⟨c.counter, payload, List.mem_cons_self, le_rfl, hlt.trans_le hle', hmade⟩
      · obtain ⟨seq, x, hx, hseq, hlt, p, hp, hpseq, hdirection, hpayload⟩ := hrest d hd
        exact ⟨seq, x, List.mem_cons_of_mem _ hx, hle.trans hseq, hlt, p, hp, hpseq,
          hdirection.trans hsame.direction, hpayload⟩
    · -- the first one has a smaller number than those after it
      rw [List.map_append]
      refine List.nodup_append'.mpr ⟨?_, hnodup, ?_⟩
      · cases sent.2 <;> simp
      · intro k hk hk'
        obtain ⟨d, hd, rfl⟩ := List.mem_map.mp hk
        obtain ⟨d', hd', hnonce⟩ := List.mem_map.mp hk'
        obtain ⟨hlt, p, hp, hpseq, -⟩ := hfirst d (Option.mem_toList.mp hd)
        obtain ⟨seq, x, -, hseq, -, p', hp', hpseq', -⟩ := hrest d' hd'
        have heq := (seq_eq_of_nonce hp' hp hnonce).1
        omega

/-! Receiving. -/

/-- The direction of what the side takes. -/
def incoming (c : Connection) : Direction := if c.server then .toServer else .toClient

theorem incoming_of_toServer (h : c.direction = .toServer) : c.incoming = .toClient := by
  unfold direction at h
  unfold incoming
  split_ifs at h ⊢
  rfl

theorem server_of_toClient (h : c.direction = .toClient) : c.server = true := by
  unfold direction at h
  by_contra hserver
  rw [if_neg hserver] at h
  cases h

theorem incoming_of_toClient (h : c.direction = .toClient) : c.incoming = .toServer := if_pos (server_of_toClient h)

/-- What a packet that is newer than all before changes. -/
structure Accepts (c : Connection) (source : Addr) (p : Packet) (got : Connection × Option Bytes) : Prop where
  sender : SameSender c got.1
  expectedReceiverSeq : got.1.expectedReceiverSeq = p.seq + 1
  remoteAddr : c.server = true → got.1.remoteAddr = some source
  payload : ∀ x ∈ got.2, x = p.payload

theorem accepts_accept (c : Connection) (now : ℕ) (source : Addr) (congestion named : Bool) (p : Packet) :
    Accepts c source p (c.accept now source congestion named p) := by
  have hsaved : ∀ c : Connection, (c.saveTimestamp now congestion p).server = c.server ∧
      (c.saveTimestamp now congestion p).counter = c.counter ∧
      (c.saveTimestamp now congestion p).blocksEncrypted = c.blocksEncrypted ∧
      (c.saveTimestamp now congestion p).expectedReceiverSeq = c.expectedReceiverSeq ∧
      (c.saveTimestamp now congestion p).remoteAddr = c.remoteAddr := by
    intro c
    unfold saveTimestamp
    split_ifs <;> exact ⟨rfl, rfl, rfl, rfl, rfl⟩
  obtain ⟨hserver, hcounter, hblocks, hseq, haddr⟩ := hsaved { c with expectedReceiverSeq := p.seq + 1 }
  unfold accept
  generalize saveTimestamp { c with expectedReceiverSeq := p.seq + 1 } now congestion p = t at *
  dsimp only
  by_cases hmoved : t.server = true ∧ t.remoteAddr ≠ some source
  · rw [if_pos hmoved]
    refine ⟨⟨hserver, hcounter, hblocks⟩, hseq, fun _ => rfl, fun x hx => ?_⟩
    cases named with
    | true => exact (Option.some.inj hx).symm
    | false => cases hx
  · rw [if_neg hmoved]
    refine ⟨⟨hserver, hcounter, hblocks⟩, hseq, fun hside => ?_, fun x hx => (Option.some.inj hx).symm⟩
    by_contra hother
    exact hmoved ⟨hserver.trans hside, hother⟩

/-- A datagram is refused, is no news, or is newer than all before. -/
theorem recvOne_cases (c : Connection) (now : ℕ) (source : Addr) (congestion named : Bool) (d : Bytes) :
    c.recvOne cipher now source congestion named d = (c, none) ∧
        (d.length ≤ RECEIVE_MTU → ∀ p, opened cipher d = some p → p.direction ≠ c.incoming) ∨
      d.length ≤ RECEIVE_MTU ∧ ∃ p, opened cipher d = some p ∧ p.direction = c.incoming ∧
        (p.seq < c.expectedReceiverSeq ∧ c.recvOne cipher now source congestion named d = (c, some p.payload) ∨
          c.expectedReceiverSeq ≤ p.seq ∧ Accepts c source p (c.recvOne cipher now source congestion named d)) := by
  unfold recvOne
  by_cases hlen : RECEIVE_MTU < d.length
  · exact .inl ⟨if_pos hlen, fun hle => absurd hlen (not_lt.mpr hle)⟩
  rw [if_neg hlen]
  cases hopened : (decrypt cipher d).bind Packet.ofMessage with
  | none => exact .inl ⟨rfl, fun _ p hp => by cases hopened.symm.trans hp⟩
  | some p =>
    by_cases hdirection : p.direction = c.incoming
    · refine .inr ⟨not_lt.mp hlen, p, hopened, hdirection, ?_⟩
      simp only [if_neg (not_not.mpr (show p.direction = if c.server then .toServer else .toClient from hdirection))]
      by_cases hseq : p.seq < c.expectedReceiverSeq
      · exact .inl ⟨hseq, if_pos hseq⟩
      · refine .inr ⟨not_lt.mp hseq, ?_⟩
        rw [if_neg hseq]
        exact accepts_accept c now source congestion named p
    · refine .inl ⟨if_pos hdirection, fun _ p' hp' => ?_⟩
      obtain rfl := Option.some.inj (hopened.symm.trans hp')
      exact hdirection

/-- A datagram that this side has heard, or would not hear. -/
def Heard (cipher : Cipher) (c : Connection) (d : Bytes) : Prop :=
  d.length ≤ RECEIVE_MTU → ∀ p, opened cipher d = some p → p.direction = c.incoming → p.seq < c.expectedReceiverSeq

theorem recvOne_eq_self {d : Bytes} (h : Heard cipher c d) (now : ℕ) (source : Addr) (congestion named : Bool) :
    (c.recvOne cipher now source congestion named d).1 = c := by
  rcases c.recvOne_cases now source congestion named d with ⟨heq, -⟩ | ⟨hlen, p, hp, hdirection, hcases⟩
  · rw [heq]
  · rcases hcases with ⟨-, heq⟩ | ⟨hle, -⟩
    · rw [heq]
    · exact absurd (h hlen p hp hdirection) (not_lt.mpr hle)

/-- What holds of every datagram that arrives. -/
structure Hears (cipher : Cipher) (c : Connection) (d : Bytes) (got : Connection × Option Bytes) : Prop where
  sender : SameSender c got.1
  le : c.expectedReceiverSeq ≤ got.1.expectedReceiverSeq
  heard : Heard cipher got.1 d
  payload : ∀ x ∈ got.2, ∃ p, opened cipher d = some p ∧ p.direction = c.incoming ∧ p.payload = x

theorem hears_recvOne (c : Connection) (now : ℕ) (source : Addr) (congestion named : Bool) (d : Bytes) :
    Hears cipher c d (c.recvOne cipher now source congestion named d) := by
  rcases c.recvOne_cases now source congestion named d with ⟨heq, hrefused⟩ | ⟨hlen, p, hp, hdirection, hcases⟩
  · rw [heq]
    exact ⟨.refl c, le_rfl, fun hlen p hp hin => absurd hin (hrefused hlen p hp), by simp⟩
  · have hunique : ∀ p', opened cipher d = some p' → p' = p := fun p' hp' => Option.some.inj (hp'.symm.trans hp)
    rcases hcases with ⟨hlt, heq⟩ | ⟨hle, haccepts⟩
    · rw [heq]
      refine ⟨.refl c, le_rfl, fun _ p' hp' _ => hunique p' hp' ▸ hlt, fun x hx => ?_⟩
      exact ⟨p, hp, hdirection, Option.some.inj hx⟩
    · refine ⟨haccepts.sender, ?_, fun _ p' hp' _ => ?_, fun x hx => ?_⟩
      · rw [haccepts.expectedReceiverSeq]
        omega
      · rw [hunique p' hp', haccepts.expectedReceiverSeq]
        exact Nat.lt_succ_self _
      · exact ⟨p, hp, hdirection, (haccepts.payload x hx).symm⟩

theorem Heard.mono {d : Bytes} (h : Heard cipher c d) (hserver : c'.server = c.server)
    (hle : c.expectedReceiverSeq ≤ c'.expectedReceiverSeq) : Heard cipher c' d := by
  intro hlen p hp hdirection
  rw [incoming, hserver] at hdirection
  exact (h hlen p hp hdirection).trans_le hle

end Connection

end Tinyhack.Network
