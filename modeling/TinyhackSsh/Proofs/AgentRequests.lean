import TinyhackSsh.Proofs.AgentSteps
import TinyhackSsh.Proofs.Wire
import TinyhackSsh.Spec.AgentRequests

/-! One client and its replies. The bytes a client sends are cut into frames up
to the first one that is out of range or cut off; every frame is answered once
and in order, and a FAILURE leaves the key list as it was. The last part shows
that the worker of `Spec.AgentServer` does the same, step by step. -/

namespace Tinyhack.Agent

open Runs Wire

/-! Frames. -/

theorem readFrame_eq_some {bs message rest : Bytes} (h : readFrame bs = some (message, rest)) :
    bs = sendPayload message ++ rest ∧ 1 ≤ message.length ∧ message.length ≤ MAX_MESSAGE_SIZE := by
  obtain ⟨⟨length, tail⟩, hread, hcut⟩ := Option.bind_eq_some_iff.mp h
  obtain ⟨rfl, -, -⟩ := readInt_eq_some hread
  dsimp only at hcut
  split_ifs at hcut with hrange hlong
  obtain ⟨rfl, rfl⟩ := Prod.mk.inj (Option.some.inj hcut)
  obtain ⟨hlo, hhi⟩ := not_or.mp hrange
  have hlen : (tail.take length.toNat).length = length.toNat := by
    rw [List.length_take]
    omega
  refine ⟨?_, by omega, by omega⟩
  rw [sendPayload, hlen, Int.toNat_of_nonneg (by omega), List.append_assoc, List.take_append_drop]

theorem readFrame_sendPayload {message : Bytes} (hpos : 1 ≤ message.length)
    (hmax : message.length ≤ MAX_MESSAGE_SIZE) (rest : Bytes) :
    readFrame (sendPayload message ++ rest) = some (message, rest) := by
  have hsize : MAX_MESSAGE_SIZE < 2 ^ 31 := by decide
  have hread : readInt (sendPayload message ++ rest) = some ((message.length : ℤ), message ++ rest) := by
    rw [sendPayload, List.append_assoc]
    exact readInt_writeInt (by omega) (by omega) _
  have hrange : ¬ ((message.length : ℤ) < 1 ∨ (message.length : ℤ) > MAX_MESSAGE_SIZE) := by omega
  have hlong : ¬ (message.length : ℤ) > ((message ++ rest).length : ℕ) := by
    rw [List.length_append]
    omega
  simp only [readFrame, hread, Option.bind_eq_bind, Option.bind_some]
  rw [if_neg hrange, if_neg hlong]
  simp

/-! Replies. -/

/-- FAILURE, SUCCESS, an IDENTITIES_ANSWER that counts its entries, or a
SIGN_RESPONSE. -/
inductive WellFormed : Bytes → Prop
  | failure : WellFormed [SSH_AGENT_FAILURE]
  | success : WellFormed [SSH_AGENT_SUCCESS]
  | identities (keys : List StoredKey) : WellFormed (identitiesAnswer keys.length keys)
  | signature (blob : Bytes) : WellFormed (signResponse blob)

theorem signWithPrivateKey_signResponse {prov : Provider} {key : StoredKey} {data : Bytes} {flags : ℤ} {payload : Bytes}
    (h : signWithPrivateKey prov key data flags = some payload) : ∃ blob, payload = signResponse blob := by
  obtain ⟨_, -, h⟩ := Option.bind_eq_some_iff.mp h
  obtain ⟨_, -, h⟩ := Option.bind_eq_some_iff.mp h
  obtain ⟨_, -, h⟩ := Option.bind_eq_some_iff.mp h
  exact ⟨_, (Option.some.inj h).symm⟩

theorem skSignResponse_signResponse {counter : ℤ} {der payload : Bytes}
    (h : skSignResponse counter der = some payload) : ∃ blob, payload = signResponse blob := by
  obtain ⟨_, -, h⟩ := Option.bind_eq_some_iff.mp h
  exact ⟨_, (Option.some.inj h).symm⟩

/-- The outcome of the attempts that are left is decided at the first one that is not
told to authenticate first. -/
theorem signAttempts_eq_some {outside : Outside} {key : StoredKey} {payload : Bytes} (attempts attempt : ℕ)
    (counters : JString → ℤ) (h : (signAttempts outside key attempts attempt counters).1 = some payload) :
    ∃ last counter der, attempt ≤ last ∧ last < attempt + attempts ∧
      (∀ i, attempt ≤ i → i < last → outside.keystore i = .userNotAuthenticated) ∧
      outside.keystore last = .signature der ∧ skSignResponse counter der = some payload := by
  induction attempts generalizing attempt counters with
  | zero => cases h
  | succ attempts ih =>
    rw [signAttempts] at h
    cases hk : outside.keystore attempt with
    | signature der =>
      rw [hk] at h
      exact ⟨attempt, _, der, le_rfl, by omega, fun i h₁ h₂ => absurd h₁ (by omega), hk, h⟩
    | userNotAuthenticated =>
      rw [hk] at h
      obtain ⟨last, counter, der, hle, hlt, hbefore, hder, hpayload⟩ := ih (attempt + 1) _ h
      refine ⟨last, counter, der, by omega, by omega, fun i h₁ h₂ => ?_, hder, hpayload⟩
      obtain rfl | hi := h₁.eq_or_lt
      · exact hk
      · exact hbefore i hi h₂
    | failed =>
      rw [hk] at h
      cases h

theorem sign_signResponse {prov : Provider} {outside : Outside} {store : Store} {message payload : Bytes}
    (h : (sign prov outside store message).1 = some payload) : ∃ blob, payload = signResponse blob := by
  unfold sign at h
  split at h
  · simp at h
  · split at h
    · simp at h
    · unfold signWith signSecurityKey at h
      split_ifs at h
      · obtain ⟨_, _, _, -, -, -, -, hpayload⟩ := signAttempts_eq_some _ _ _ h
        exact skSignResponse_signResponse hpayload
      · exact signWithPrivateKey_signResponse h

/-- What a request can do to the store, with the reply it gets. -/
inductive Answers (prov : Provider) (store : Store) (message : Bytes) : Bytes → Store → Prop
  | list (ht : message.headD 0 = SSH_AGENTC_REQUEST_IDENTITIES) :
      Answers prov store message (identitiesAnswer store.keys.length store.keys) store
  | add (key : StoredKey) (constrained : Bool) (hadd : addIdentity prov message constrained = some key)
      (ht : message.headD 0 = if constrained then SSH_AGENTC_ADD_ID_CONSTRAINED else SSH_AGENTC_ADD_IDENTITY) :
      Answers prov store message [SSH_AGENT_SUCCESS] { store with keys := removeBlob store.keys key.blob ++ [key] }
  | remove (blob : Bytes) (hremove : parseRemove message = some blob)
      (ht : message.headD 0 = SSH_AGENTC_REMOVE_IDENTITY) :
      Answers prov store message [SSH_AGENT_SUCCESS] { store with keys := removeBlob store.keys blob }
  | removeAll (ht : message.headD 0 = SSH_AGENTC_REMOVE_ALL_IDENTITIES) :
      Answers prov store message [SSH_AGENT_SUCCESS] { store with keys := [] }
  | signed (blob : Bytes) (counters : JString → ℤ) :
      Answers prov store message (signResponse blob) { store with counters := counters }
  | failed (counters : JString → ℤ) : Answers prov store message [SSH_AGENT_FAILURE] { store with counters := counters }

theorem handleRequest_answers (prov : Provider) (outside : Outside) (store : Store) (message : Bytes) :
    Answers prov store message (handleRequest prov outside store message).1
      (handleRequest prov outside store message).2 := by
  unfold handleRequest
  dsimp only
  split_ifs with hlist hadd hremove hclear hsign
  · exact .list hlist
  · cases hkey : addIdentity prov message (message.headD 0 = SSH_AGENTC_ADD_ID_CONSTRAINED) with
    | none => exact .failed store.counters
    | some key =>
      refine .add key _ hkey ?_
      by_cases hc : message.headD 0 = SSH_AGENTC_ADD_ID_CONSTRAINED
      · rw [if_pos (decide_eq_true hc)]
        exact hc
      · rw [if_neg (by rwa [decide_eq_true_eq])]
        exact hadd.resolve_right hc
  · cases hblob : parseRemove message with
    | none => exact .failed store.counters
    | some blob => exact .remove blob hblob hremove
  · exact .removeAll hclear
  · cases hpayload : (sign prov outside store message).1 with
    | none => exact .failed _
    | some payload =>
      obtain ⟨blob, rfl⟩ := sign_signResponse hpayload
      exact .signed blob _
  · exact .failed store.counters

/-- The bytes after the key and its comment. -/
def carriesConstraints (prov : Provider) (message : Bytes) : Prop :=
  message.headD 0 = SSH_AGENTC_ADD_ID_CONSTRAINED ∧
    ∃ key constraints, parseIdentity prov message = some (key, constraints) ∧ constraints ≠ []

theorem addIdentity_constrained {prov : Provider} {message constraints : Bytes} {key : StoredKey}
    (h : parseIdentity prov message = some (key, constraints)) (hne : constraints ≠ []) :
    addIdentity prov message true = none := by
  cases constraints with
  | nil => exact absurd rfl hne
  | cons b bs => simp [addIdentity, h]

section Answers

variable {prov : Provider} {store after : Store} {message reply : Bytes}

theorem Answers.wellFormed (h : Answers prov store message reply after) : WellFormed reply := by
  cases h with
  | list => exact .identities store.keys
  | add | remove | removeAll => exact .success
  | signed blob => exact .signature blob
  | failed => exact .failure

/-- A failed request changes no key. -/
theorem Answers.failure (h : Answers prov store message reply after) (hreply : reply = [SSH_AGENT_FAILURE]) :
    after.keys = store.keys := by
  cases h with
  | list => rfl
  | signed | failed => rfl
  | add | remove | removeAll => cases hreply

theorem Answers.constrained (h : Answers prov store message reply after) (hc : carriesConstraints prov message) :
    after.keys = store.keys := by
  obtain ⟨htype, key, constraints, hparse, hne⟩ := hc
  cases h with
  | list | signed | failed => rfl
  | add added constrained hadd ht =>
    cases constrained with
    | true => simp [addIdentity_constrained hparse hne] at hadd
    | false => exact absurd (htype.symm.trans ht) (by decide)
  | remove blob hremove ht => exact absurd (htype.symm.trans ht) (by decide)
  | removeAll ht => exact absurd (htype.symm.trans ht) (by decide)

end Answers

/-! The whole conversation. -/

/-- Every request finds the store as the one before it left it. -/
def Chained : Store → List Exchange → Prop
  | _, [] => True
  | store, x :: xs => x.before = store ∧ Chained x.after xs

theorem handleClient_spec (prov : Provider) (outside : ℕ → Outside) (fuel k : ℕ) (store : Store) (bs : Bytes)
    (hfuel : bs.length ≤ fuel) :
    (∃ rest, bs = (handleClient prov outside fuel k store bs).2.flatMap (fun x => sendPayload x.request) ++ rest ∧
      readFrame rest = none) ∧
    (handleClient prov outside fuel k store bs).1 =
      (handleClient prov outside fuel k store bs).2.flatMap (fun x => sendPayload x.reply) ∧
    Chained store (handleClient prov outside fuel k store bs).2 ∧
    ∀ x ∈ (handleClient prov outside fuel k store bs).2,
      1 ≤ x.request.length ∧ x.request.length ≤ MAX_MESSAGE_SIZE ∧ Answers prov x.before x.request x.reply x.after := by
  induction fuel generalizing k store bs with
  | zero =>
    obtain rfl : bs = [] := List.length_eq_zero_iff.mp (by omega)
    exact ⟨⟨[], rfl, rfl⟩, rfl, trivial, by simp [handleClient]⟩
  | succ fuel ih =>
    rw [handleClient]
    cases hframe : readFrame bs with
    | none => exact ⟨⟨bs, rfl, hframe⟩, rfl, trivial, by simp⟩
    | some frame =>
      obtain ⟨message, rest⟩ := frame
      obtain ⟨hbs, hpos, hmax⟩ := readFrame_eq_some hframe
      have hlen : bs.length = 4 + message.length + rest.length := by
        rw [hbs]
        simp [sendPayload, Nat.add_assoc]
      obtain ⟨⟨tail, htail, hend⟩, hwritten, hchain, hall⟩ :=
        ih (k + 1) (handleRequest prov (outside k) store message).2 rest (by omega)
      refine ⟨⟨tail, ?_, hend⟩, ?_, ⟨rfl, hchain⟩, fun x hx => ?_⟩
      · conv_lhs => rw [hbs, htail]
        simp
      · simp [hwritten]
      · rcases List.mem_cons.mp hx with rfl | hx
        · exact ⟨hpos, hmax, handleRequest_answers prov (outside k) store message⟩
        · exact hall x hx

/-- Everything a client sends to an unlocked running server is a sequence of frames
and a rest that starts with no complete frame in range; the output is one reply
for each frame, in order, and nothing after it. A FAILURE leaves the keys as they
were, and constraints keep a key out. -/
theorem one_reply_per_frame (prov : Provider) (outside : ℕ → Outside) (store : Store) (stream : Bytes) :
    ∃ (exchanges : List Exchange) (rest : Bytes),
      handleClient prov outside stream.length 0 store stream =
        (exchanges.flatMap (fun x => sendPayload x.reply), exchanges) ∧
      stream = exchanges.flatMap (fun x => sendPayload x.request) ++ rest ∧
      (∀ message tail, 1 ≤ message.length → message.length ≤ MAX_MESSAGE_SIZE → rest ≠ sendPayload message ++ tail) ∧
      Chained store exchanges ∧
      ∀ x ∈ exchanges, (1 ≤ x.request.length ∧ x.request.length ≤ MAX_MESSAGE_SIZE) ∧ WellFormed x.reply ∧
        (x.reply.length < 2 ^ 31 →
          ∀ tail, readInt (sendPayload x.reply ++ tail) = some ((x.reply.length : ℤ), x.reply ++ tail)) ∧
        (x.reply = [SSH_AGENT_FAILURE] → x.after.keys = x.before.keys) ∧
        (carriesConstraints prov x.request → x.after.keys = x.before.keys) := by
  obtain ⟨⟨rest, hstream, hend⟩, hwritten, hchain, hall⟩ :=
    handleClient_spec prov outside stream.length 0 store stream le_rfl
  refine ⟨_, rest, Prod.ext hwritten rfl, hstream, fun message tail hpos hmax hrest => ?_, hchain, fun x hx => ?_⟩
  · rw [hrest, readFrame_sendPayload hpos hmax] at hend
    cases hend
  · obtain ⟨hpos, hmax, hans⟩ := hall x hx
    refine ⟨⟨hpos, hmax⟩, hans.wellFormed, fun hlen tail => ?_, hans.failure, hans.constrained⟩
    rw [sendPayload, List.append_assoc]
    exact readInt_writeInt (by omega) (by omega) _

/-! The worker of `Spec.AgentServer` does what `handleClient` does. -/

def Action.message : Action → Option Bytes
  | .worker _ (.recv message) => some message
  | _ => none

/-- Worker `w` alone has come from `s` to a state in which it is at `p`, having
read `requests` and written `replies`. -/
structure Reached (prov : Provider) (w : ℕ) (s s' : Server) (p : Phase) (store : Store)
    (requests replies : List Bytes) : Prop where
  run : ∃ acts, Run s (step prov) (fun _ a => ∃ ev, a = .worker w ev) acts s' ∧
    acts.filterMap Action.message = requests
  phase : (s'.conn w).phase = p
  keys : s'.keys = store.keys
  counters : s'.counters = store.counters
  sent : s'.sent = s.sent ++ replies.map fun reply => (w, reply)
  running : s'.running = s.running
  locked : s'.locked = s.locked
  stopping : s'.stopping = s.stopping

section Worker

variable {prov : Provider} {w : ℕ} {s s' : Server} {p : Phase} {store : Store} {requests replies : List Bytes}

/-- One step more. -/
theorem Reached.next (h : Reached prov w s s' p store requests replies) (ev : WorkerEvent) (e : Effect) (after : Store)
    (he : advance prov s' (s'.conn w).born p ev = some e) (hkeys : e.keys = after.keys)
    (hcounters : e.counters = after.counters) :
    ∃ s'', Reached prov w s s'' e.phase after (requests ++ (Action.message (.worker w ev)).toList)
      (replies ++ e.sent.toList) := by
  obtain ⟨acts, hrun, hreq⟩ := h.run
  have hstep : step prov s' (.worker w ev) = some (s'.commit w e) := by
    simp [step, workerStep, h.phase, he]
  refine ⟨s'.commit w e, ⟨acts ++ [.worker w ev], hrun.snoc ⟨ev, rfl⟩ hstep, ?_⟩, by simp [Server.commit], hkeys,
    hcounters, ?_, h.running, h.locked, h.stopping⟩
  · rw [List.filterMap_append, hreq]
    cases hm : Action.message (.worker w ev) <;> simp [hm]
  · cases hsent : e.sent <;> simp [Server.commit, h.sent, hsent]

/-- A step that only goes on. -/
theorem Reached.goto (h : Reached prov w s s' p store requests replies) (ev : WorkerEvent) (q : Phase)
    (he : advance prov s' (s'.conn w).born p ev = some (s'.goto q)) (hev : Action.message (.worker w ev) = none) :
    ∃ s'', Reached prov w s s'' q store requests replies := by
  simpa [hev, Server.goto] using h.next ev (s'.goto q) store he h.keys h.counters

/-- The reply is written, whether by the handler or by the `catch`. -/
def replyPhase : Option Bytes → Phase
  | some payload => .reply payload
  | none => .replyFailure

theorem Reached.write {p : Option Bytes} (h : Reached prov w s s' (replyPhase p) store requests replies) :
    ∃ s'', Reached prov w s s'' .loop store requests (replies ++ [p.getD [SSH_AGENT_FAILURE]]) := by
  cases p with
  | some payload =>
    simpa [Action.message, Server.goto] using
      h.next (.write true) { s'.goto .loop with sent := some payload } store rfl h.keys h.counters
  | none =>
    simpa [Action.message, Server.goto] using
      h.next (.write true) { s'.goto .loop with sent := some [SSH_AGENT_FAILURE] } store rfl h.keys h.counters

/-- `nextSecurityKeyCounter` has counted for `key`. -/
def Store.count (store : Store) (key : StoredKey) : Store :=
  { store with counters := Function.update store.counters (key.keyStoreAlias.getD [])
                 (nextSecurityKeyCounter store.counters (key.keyStoreAlias.getD [])) }

theorem signAttempts_succ (outside : Outside) (key : StoredKey) (attempts attempt : ℕ) (store : Store) :
    signAttempts outside key (attempts + 1) attempt store.counters = match outside.keystore attempt with
      | .signature der => (skSignResponse (nextSecurityKeyCounter store.counters (key.keyStoreAlias.getD [])) der,
          (store.count key).counters)
      | .userNotAuthenticated => signAttempts outside key attempts (attempt + 1) (store.count key).counters
      | .failed => (none, (store.count key).counters) := rfl

/-- One attempt with the Keystore. -/
theorem Reached.attempt (hstop : s.stopping = none) {key : StoredKey} {data : Bytes} {attempt : ℕ}
    (h : Reached prov w s s' (.takeCounter key data attempt) store requests replies) (result : KeystoreResult) :
    ∃ s'', Reached prov w s s''
      (match result with
        | .signature der =>
          replyPhase (skSignResponse (nextSecurityKeyCounter store.counters (key.keyStoreAlias.getD [])) der)
        | .userNotAuthenticated => if attempt < 4 then .takeCounter key data (attempt + 1) else .replyFailure
        | .failed => .replyFailure)
      (store.count key) requests replies := by
  set counter := nextSecurityKeyCounter store.counters (key.keyStoreAlias.getD []) with hcount
  have hcounter : advance prov s' (s'.conn w).born (.takeCounter key data attempt) .run =
      some { s'.goto (.skSign key data attempt counter) with counters := (store.count key).counters } := by
    simp [advance, h.stopping, hstop, h.counters, hcount, Store.count]
  obtain ⟨s₁, h₁⟩ := h.next .run _ (store.count key) hcounter h.keys rfl
  simp only [Action.message, Server.goto, Option.toList_none, List.append_nil] at h₁
  refine h₁.goto (.keystore result) _ ?_ rfl
  cases result with
  | signature der => cases hsig : skSignResponse counter der <;> simp [advance, hsig, replyPhase]
  | userNotAuthenticated => rfl
  | failed => rfl

/-- The attempts with the Keystore, by induction on those that are left. -/
theorem Reached.signAttempts (hstop : s.stopping = none) (outside : Outside) (key : StoredKey) (data : Bytes)
    (attempts attempt : ℕ) (hleft : attempt + attempts = 4) (s' : Server) (store : Store)
    (h : Reached prov w s s' (.takeCounter key data attempt) store requests replies) :
    ∃ s'', Reached prov w s s'' (replyPhase (signAttempts outside key (attempts + 1) attempt store.counters).1)
      { store with counters := (Agent.signAttempts outside key (attempts + 1) attempt store.counters).2 }
      requests replies := by
  induction attempts generalizing attempt s' store with
  | zero =>
    obtain rfl : attempt = 4 := by omega
    obtain ⟨s₁, h₁⟩ := h.attempt hstop (outside.keystore 4)
    refine ⟨s₁, ?_⟩
    rw [signAttempts_succ]
    cases hk : outside.keystore 4 <;> simp only [hk] at h₁ <;> exact h₁
  | succ attempts ih =>
    obtain ⟨s₁, h₁⟩ := h.attempt hstop (outside.keystore attempt)
    rw [signAttempts_succ]
    cases hk : outside.keystore attempt with
    | userNotAuthenticated =>
      have hless : attempt < 4 := by omega
      simp only [hk, if_pos hless] at h₁
      exact ih (attempt + 1) (by omega) s₁ (store.count key) h₁
    | signature der => simp only [hk] at h₁; exact ⟨s₁, h₁⟩
    | failed => simp only [hk] at h₁; exact ⟨s₁, h₁⟩

theorem Reached.sign (hstop : s.stopping = none) (outside : Outside) {message : Bytes}
    (hsign : message.headD 0 = SSH_AGENTC_SIGN_REQUEST)
    (h : Reached prov w s s' (dispatch prov message) store requests replies) :
    ∃ s'', Reached prov w s s'' (replyPhase (sign prov outside store message).1)
      { store with counters := (Agent.sign prov outside store message).2 } requests replies := by
  have hdispatch : dispatch prov message =
      (parseSign message).elim .replyFailure fun args => .findKey args.1 args.2.1 args.2.2 := by
    unfold dispatch
    rw [hsign]
    cases parseSign message <;> rfl
  rw [hdispatch] at h
  cases hparse : parseSign message with
  | none =>
    have hval : Agent.sign prov outside store message = (none, store.counters) := by simp [Agent.sign, hparse]
    rw [hval]
    exact ⟨s', by simpa [hparse, replyPhase] using h⟩
  | some args =>
    obtain ⟨blob, data, flags⟩ := args
    simp only [hparse, Option.elim_some] at h
    cases hfind : store.keys.find? fun key => key.blob = blob with
    | none =>
      have hval : Agent.sign prov outside store message = (none, store.counters) := by
        simp [Agent.sign, hparse, hfind]
      rw [hval]
      exact h.goto .run .replyFailure (by simp [advance, h.keys, hfind]) rfl
    | some key =>
      have hval : Agent.sign prov outside store message = signWith prov outside key data flags store.counters := by
        simp [Agent.sign, hparse, hfind]
      rw [hval, signWith]
      by_cases hk : key.keyType = .skEcdsa
      · rw [if_pos hk, signSecurityKey]
        obtain ⟨s₁, h₁⟩ := h.goto .run (.awaitAuth key data) (by simp [advance, h.keys, hfind, hk]) rfl
        cases hauth : outside.authenticated with
        | true =>
          obtain ⟨s₂, h₂⟩ := h₁.goto (.authenticated true) (.takeCounter key data 0) rfl rfl
          exact h₂.signAttempts hstop outside key data 4 0 rfl s₂ store
        | false => exact h₁.goto (.authenticated false) .replyFailure rfl rfl
      · rw [if_neg hk]
        obtain ⟨s₁, h₁⟩ := h.goto .run (.signing key data flags) (by simp [advance, h.keys, hfind, hk]) rfl
        refine h₁.goto .run _ ?_ rfl
        cases hsig : signWithPrivateKey prov key data flags <;> simp [advance, hsig, replyPhase]

/-- A handler that ends with SUCCESS. -/
theorem Reached.success (h : Reached prov w s s' (.reply [SSH_AGENT_SUCCESS]) store requests replies) :
    ∃ s'', Reached prov w s s'' .loop store requests (replies ++ [[SSH_AGENT_SUCCESS]]) :=
  Reached.write (p := some _) h

/-- A handler that ends with an exception. -/
theorem Reached.failure (h : Reached prov w s s' .replyFailure store requests replies) :
    ∃ s'', Reached prov w s s'' .loop store requests (replies ++ [[SSH_AGENT_FAILURE]]) :=
  Reached.write (p := none) h

/-- `removeIf`, then `add`. -/
theorem Reached.add {key : StoredKey} (h : Reached prov w s s' (.replaceKey key) store requests replies) :
    ∃ s'', Reached prov w s s'' .loop { store with keys := removeBlob store.keys key.blob ++ [key] } requests
      (replies ++ [[SSH_AGENT_SUCCESS]]) := by
  obtain ⟨s₁, h₁⟩ := h.next .run { s'.goto (.addKey key) with keys := removeBlob s'.keys key.blob }
    { store with keys := removeBlob store.keys key.blob } rfl (by rw [h.keys]) h.counters
  simp only [Action.message, Server.goto, Option.toList_none, List.append_nil] at h₁
  obtain ⟨s₂, h₂⟩ := h₁.next .run _ { store with keys := removeBlob store.keys key.blob ++ [key] } rfl
    (by rw [h₁.keys]) h₁.counters
  simp only [Action.message, Server.goto, Option.toList_none, List.append_nil] at h₂
  exact h₂.success

/-- A request is handled and answered. -/
theorem Reached.handleRequest (hlocked : s.locked = false) (hstop : s.stopping = none) (outside : Outside)
    {message : Bytes} (h : Reached prov w s s' (.received message) store requests replies) :
    ∃ s'', Reached prov w s s'' .loop (handleRequest prov outside store message).2 requests
      (replies ++ [(Agent.handleRequest prov outside store message).1]) := by
  obtain ⟨s₁, h₁⟩ := h.goto .run (dispatch prov message) (by simp [advance, h.locked, hlocked]) rfl
  unfold Agent.handleRequest
  dsimp only
  split_ifs with hlist hadd hremove hclear hsign
  · rw [show dispatch prov message = .countKeys by unfold dispatch; rw [hlist]; rfl] at h₁
    obtain ⟨s₂, h₂⟩ := h₁.goto .run (.listKeys store.keys.length) (by rw [← h₁.keys]; rfl) rfl
    obtain ⟨s₃, h₃⟩ :=
      h₂.goto .run (.reply (identitiesAnswer store.keys.length store.keys)) (by rw [← h₂.keys]; rfl) rfl
    exact Reached.write (p := some _) h₃
  · have hd : dispatch prov message =
        (addIdentity prov message (message.headD 0 = SSH_AGENTC_ADD_ID_CONSTRAINED)).elim .replyFailure
          .replaceKey := by
      unfold dispatch
      rcases hadd with ht | ht
      · rw [ht]
        change _ = (addIdentity prov message false).elim _ _
        cases addIdentity prov message false <;> rfl
      · rw [ht]
        change _ = (addIdentity prov message true).elim _ _
        cases addIdentity prov message true <;> rfl
    rw [hd] at h₁
    cases hkey : addIdentity prov message (message.headD 0 = SSH_AGENTC_ADD_ID_CONSTRAINED) with
    | none => rw [hkey, Option.elim_none] at h₁; exact h₁.failure
    | some key => rw [hkey, Option.elim_some] at h₁; exact h₁.add
  · have hd : dispatch prov message = (parseRemove message).elim .replyFailure .removeKey := by
      unfold dispatch
      rw [hremove]
      cases parseRemove message <;> rfl
    rw [hd] at h₁
    cases hblob : parseRemove message with
    | none => rw [hblob, Option.elim_none] at h₁; exact h₁.failure
    | some blob =>
      rw [hblob, Option.elim_some] at h₁
      obtain ⟨s₂, h₂⟩ := h₁.next .run _ { store with keys := removeBlob store.keys blob } rfl (by rw [h₁.keys])
        h₁.counters
      simp only [Action.message, Server.goto, Option.toList_none, List.append_nil] at h₂
      exact h₂.success
  · rw [show dispatch prov message = .clearKeys by unfold dispatch; rw [hclear]; rfl] at h₁
    obtain ⟨s₂, h₂⟩ := h₁.next .run _ { store with keys := [] } rfl rfl h₁.counters
    simp only [Action.message, Server.goto, Option.toList_none, List.append_nil] at h₂
    exact h₂.success
  · obtain ⟨s₂, h₂⟩ := h₁.sign hstop outside hsign
    exact h₂.write
  · rw [show dispatch prov message = .reply [SSH_AGENT_FAILURE] by
      unfold dispatch
      dsimp only
      rw [if_neg hlist, if_neg fun ht => hadd (Or.inl ht), if_neg fun ht => hadd (Or.inr ht), if_neg hremove,
        if_neg hclear, if_neg hsign]] at h₁
    exact Reached.write (p := some _) h₁

/-- The store after the last request. -/
def finalStore : Store → List Exchange → Store
  | store, [] => store
  | _, x :: xs => finalStore x.after xs

theorem Reached.leave (hrunning : s.running = true) (h : Reached prov w s s' .loop store requests replies) :
    ∃ s'', Reached prov w s s'' .done store requests replies := by
  obtain ⟨s₁, h₁⟩ := h.goto .run .reading (by simp [advance, h.running, hrunning]) rfl
  exact h₁.goto .disconnect .done rfl rfl

/-- The worker of a running, unlocked server reads the requests that `handleClient`
cuts out of the stream, writes its replies, and ends with its keys. -/
theorem Reached.handleClient (hrunning : s.running = true) (hlocked : s.locked = false) (hstop : s.stopping = none)
    (outside : ℕ → Outside) (fuel k : ℕ) (bs : Bytes) (s' : Server) (store : Store) (requests replies : List Bytes)
    (h : Reached prov w s s' .loop store requests replies) :
    ∃ s'', Reached prov w s s'' .done (finalStore store (handleClient prov outside fuel k store bs).2)
      (requests ++ (Agent.handleClient prov outside fuel k store bs).2.map Exchange.request)
      (replies ++ (Agent.handleClient prov outside fuel k store bs).2.map Exchange.reply) := by
  induction fuel generalizing k bs s' store requests replies with
  | zero => simpa [Agent.handleClient, finalStore] using h.leave hrunning
  | succ fuel ih =>
    rw [Agent.handleClient]
    cases hframe : readFrame bs with
    | none => simpa [finalStore] using h.leave hrunning
    | some frame =>
      obtain ⟨message, rest⟩ := frame
      obtain ⟨-, hpos, hmax⟩ := readFrame_eq_some hframe
      obtain ⟨s₁, h₁⟩ := h.goto .run .reading (by simp [advance, h.running, hrunning]) rfl
      obtain ⟨s₂, h₂⟩ := h₁.next (.recv message) (s₁.goto (.received message)) store
        (by simp [advance, hpos, hmax]) h₁.keys h₁.counters
      simp only [Action.message, Server.goto, Option.toList_some, Option.toList_none, List.append_nil] at h₂
      obtain ⟨s₃, h₃⟩ := h₂.handleRequest hlocked hstop (outside k)
      obtain ⟨s₄, h₄⟩ := ih (k + 1) rest s₃ _ _ _ h₃
      exact ⟨s₄, by simpa [finalStore] using h₄⟩

end Worker

end Tinyhack.Agent
