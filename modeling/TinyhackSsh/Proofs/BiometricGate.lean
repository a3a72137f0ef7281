import TinyhackSsh.Proofs.AgentSteps
import TinyhackSsh.Spec.BiometricGate

/-! Who approved a security-key signature. An id is drawn once, for one request;
only a prompt that carries it completes its future, and only while the request
waits. A worker past the gate therefore has its own approval, and the signing
loop behind it writes one answer. -/

namespace Tinyhack.Biometric

open Agent Runs Wire

/-- The worker has a request that it has not answered yet. -/
def busy : Phase → Bool
  | .absent | .loop | .reading | .done => false
  | _ => true

/-- The worker signs with a security key, or holds such a signature. -/
def pastGate : Phase → Bool
  | .takeCounter _ _ _ | .skSign _ _ _ _ => true
  | .reply payload => isSkResponse payload
  | _ => false

theorem busy_of_awaits {p : Phase} (h : awaits p = true) : busy p = true := by
  cases p <;> first | rfl | cases h

theorem busy_of_pastGate {p : Phase} (h : pastGate p = true) : busy p = true := by
  cases p <;> first | rfl | cases h

/-- The id a call has drawn. -/
def Call.id : Call → Option ℤ
  | .idle => none
  | .put id | .post id | .waiting id | .dismiss id | .remove id _ => some id

/-! Which answers are security-key signatures. -/

/-- An answer signed with a key in memory names another algorithm. -/
theorem signWithPrivateKey_notSk {prov : Provider} {key : StoredKey} {data : Bytes} {flags : ℤ} {payload : Bytes}
    (h : signWithPrivateKey prov key data flags = some payload) : isSkResponse payload = false := by
  obtain ⟨⟨algorithm, java⟩, halg, h⟩ := Option.bind_eq_some_iff.mp h
  obtain ⟨_, -, h⟩ := Option.bind_eq_some_iff.mp h
  obtain ⟨signature, -, h⟩ := Option.bind_eq_some_iff.mp h
  obtain rfl := Option.some.inj h
  have hdrop : (signResponse (wireBlob algorithm signature)).drop 5 = wireBlob algorithm signature := by
    simp [signResponse, writeString, writeInt, beBytes]
  have hname : algorithm = "ssh-ed25519".toList ∨ algorithm = "rsa-sha2-512".toList ∨
      algorithm = "rsa-sha2-256".toList := by
    cases hk : key.keyType with
    | skEcdsa => simp [signatureAlgorithm, hk] at halg
    | ed25519 =>
      simp only [signatureAlgorithm, hk, Option.some.injEq, Prod.mk.injEq] at halg
      exact Or.inl halg.1.symm
    | rsa =>
      simp only [signatureAlgorithm, hk] at halg
      split_ifs at halg <;> simp only [Option.some.injEq, Prod.mk.injEq] at halg
      · exact Or.inr (Or.inl halg.1.symm)
      · exact Or.inr (Or.inr halg.1.symm)
  rw [isSkResponse, hdrop]
  rcases hname with rfl | rfl | rfl <;> rfl

theorem dispatch_notSk (prov : Provider) (message : Bytes) : pastGate (dispatch prov message) = false := by
  unfold dispatch
  dsimp only
  split_ifs
  · rfl
  · split <;> rfl
  · split <;> rfl
  · split <;> rfl
  · rfl
  · split <;> rfl
  · rfl

section Advance

variable {prov : Provider} {s : Server} {born : ℕ} {p : Phase} {ev : WorkerEvent} {e : Effect}

/-- A worker gets past the gate by a positive answer only. -/
theorem move_pastGate (h : WorkerMove prov s born p ev e) (he : pastGate e.phase = true) :
    pastGate p = true ∨ (awaits p = true ∧ ev = .authenticated true) := by
  cases h with
  | authenticated => exact Or.inr ⟨rfl, rfl⟩
  | counter | skSigned | retried | skFailed => exact Or.inl rfl
  | dispatched message => simp [Server.goto, dispatch_notSk] at he
  | signed key data flags payload hs => simp [Server.goto, pastGate, signWithPrivateKey_notSk hs] at he
  | _ => cases he

/-- A worker gets a request by reading it. -/
theorem move_busy (h : WorkerMove prov s born p ev e) (he : busy e.phase = true) :
    busy p = true ∨ ∃ message, ev = .recv message := by
  cases h with
  | recv message => exact Or.inr ⟨message, rfl⟩
  | goesOn | ends | flushFails | readFails => cases he
  | _ => exact Or.inl rfl

/-- A worker in `awaitBiometricAuth` waits for its return. -/
theorem move_of_awaits (h : WorkerMove prov s born p ev e) (hp : awaits p = true) :
    ∃ ok, ev = .authenticated ok := by
  cases h with
  | authenticated => exact ⟨true, rfl⟩
  | notAuthenticated => exact ⟨false, rfl⟩
  | _ => cases hp

/-- Only a written payload is sent. -/
theorem move_sent (h : WorkerMove prov s born p ev e) :
    (e.sent = none ∧ ev ≠ .write true) ∨
      (ev = .write true ∧ ∃ payload, e.sent = some payload ∧ isSkResponse payload = skReply p) := by
  cases h with
  | sent payload => exact Or.inr ⟨rfl, payload, rfl, rfl⟩
  | failureSent => exact Or.inr ⟨rfl, _, rfl, rfl⟩
  | _ => exact Or.inl ⟨rfl, by simp⟩

end Advance

/-- After request `q` was read, a prompt that carries `id` succeeded. -/
def Approved (log : List Event) (q : ℕ) (id : ℤ) : Prop :=
  ∃ before after, log = before ++ .arrived q :: after ∧ .succeeded id ∈ after

theorem Approved.append {log : List Event} {q : ℕ} {id : ℤ} (h : Approved log q id) (more : List Event) :
    Approved (log ++ more) q id := by
  obtain ⟨before, after, rfl, hmem⟩ := h
  exact ⟨before, after ++ more, by simp, List.mem_append_left _ hmem⟩

/-- A success approves every request that was read before it. -/
theorem approved_of_arrived {log : List Event} {q : ℕ} {id : ℤ} (h : Event.arrived q ∈ log) :
    Approved (log ++ [Event.succeeded id]) q id := by
  obtain ⟨before, after, rfl⟩ := List.append_of_mem h
  exact ⟨before, after ++ [Event.succeeded id], by simp, by simp⟩

/-- What the ids, futures and calls have to do with the requests. -/
structure GateInv (s : System) : Prop where
  /-- nothing is known yet of an id that was not drawn -/
  unissued : ∀ id, s.requests < id → s.pending id = false ∧ s.future id = none ∧ ∀ b, (id, b) ∉ s.completions
  /-- an id belongs to one request, which was read before it was drawn -/
  issued : ∀ q id, s.idOf q = some id → id ≤ s.requests ∧ .arrived q ∈ s.log
  unique : ∀ q q' id, s.idOf q = some id → s.idOf q' = some id → q = q'
  /-- a call holds the id of its worker's request -/
  drawn : ∀ c id, (s.call c).id = some id → id ≤ s.requests
  calls : ∀ w id, (s.call (.worker w)).id = some id →
    s.idOf (s.current w) = some id ∧ awaits (s.server.conn w).phase = true
  approved : ∀ q id, s.idOf q = some id → (s.future id = some true ∨ (id, true) ∈ s.completions) →
    Approved s.log q id
  verdict : ∀ c id, s.call c = .remove id true → s.future id = some true

/-- What the workers have to do with the log. -/
structure WorkerInv (s : System) : Prop where
  numbered : ∀ q, (.arrived q ∈ s.log ∨ .signResponse q ∈ s.log) → q < s.arrivals
  busy : ∀ w, busy (s.server.conn w).phase = true →
    s.current w < s.arrivals ∧ .arrived (s.current w) ∈ s.log ∧ .signResponse (s.current w) ∉ s.log
  apart : ∀ w w', Biometric.busy (s.server.conn w).phase = true → Biometric.busy (s.server.conn w').phase = true →
    s.current w = s.current w' → w = w'
  signing : ∀ w, pastGate (s.server.conn w).phase = true →
    ∃ id, s.idOf (s.current w) = some id ∧ Approved s.log (s.current w) id
  responses : ∀ before after q, s.log = before ++ .signResponse q :: after →
    .signResponse q ∉ before ∧ ∃ id, s.idOf q = some id ∧ Approved before q id

structure Inv (s : System) : Prop where
  gate : GateInv s
  workers : WorkerInv s

/-! The log. -/

theorem append_singleton_split {α : Type*} {l before after : List α} {x y : α}
    (h : l ++ [x] = before ++ y :: after) :
    (l = before ∧ x = y ∧ after = []) ∨ ∃ rest, after = rest ++ [x] ∧ l = before ++ y :: rest := by
  rcases after.eq_nil_or_concat with rfl | ⟨rest, z, rfl⟩
  · obtain ⟨rfl, hxy⟩ := List.append_inj' h rfl
    exact Or.inl ⟨rfl, by simpa using hxy, rfl⟩
  · rw [List.concat_eq_append] at h ⊢
    rw [← List.cons_append, ← List.append_assoc] at h
    obtain ⟨rfl, hxz⟩ := List.append_inj' h rfl
    obtain rfl : x = z := by simpa using hxz
    exact Or.inr ⟨rest, rfl, rfl⟩

section Workers

variable {prov : Provider} {s s' : System}

/-- A success in the log. -/
theorem WorkerInv.succeeded (h : WorkerInv s) (id : ℤ) : WorkerInv { s with log := s.log ++ [Event.succeeded id] } where
  numbered q hq := h.numbered q (by simpa using hq)
  busy w hw := by simpa using h.busy w hw
  apart := h.apart
  signing w hw := by
    obtain ⟨i, hi, happ⟩ := h.signing w hw
    exact ⟨i, hi, happ.append _⟩
  responses before after q hq := by
    rcases append_singleton_split hq with ⟨-, hne, -⟩ | ⟨rest, -, hlog⟩
    · cases hne
    · exact h.responses before rest q hlog

/-- The answer to the request of a worker that is back in its loop. -/
theorem WorkerInv.responded (h : WorkerInv s) {q : ℕ} {id : ℤ} (hq : q < s.arrivals)
    (hnew : Event.signResponse q ∉ s.log) (hid : s.idOf q = some id) (happ : Approved s.log q id)
    (hother : ∀ v, Biometric.busy (s.server.conn v).phase = true → s.current v ≠ q) :
    WorkerInv { s with log := s.log ++ [Event.signResponse q] } where
  numbered p hp := by
    simp only [List.mem_append, List.mem_singleton, reduceCtorEq, or_false, Event.signResponse.injEq] at hp
    rcases hp with hp | hp | rfl
    · exact h.numbered p (Or.inl hp)
    · exact h.numbered p (Or.inr hp)
    · exact hq
  busy v hv := by
    obtain ⟨h1, h2, h3⟩ := h.busy v hv
    exact ⟨h1, by simpa using h2, by simpa [h3] using hother v hv⟩
  apart := h.apart
  signing v hv := by
    obtain ⟨i, hi, happ'⟩ := h.signing v hv
    exact ⟨i, hi, happ'.append _⟩
  responses before after p hp := by
    rcases append_singleton_split hp with ⟨rfl, hpq, -⟩ | ⟨rest, -, hlog⟩
    · obtain rfl : q = p := by simpa using hpq
      exact ⟨hnew, id, hid, happ⟩
    · exact h.responses before rest p hlog

/-- A worker's step that reads no request and, when it passes the gate, is approved. -/
theorem WorkerInv.move (h : WorkerInv s) {w born : ℕ} {ev : WorkerEvent} {e : Effect}
    (hm : WorkerMove prov s.server born (s.server.conn w).phase ev e) (hev : ∀ message, ev ≠ .recv message)
    (happ : ev = .authenticated true → ∃ id, s.idOf (s.current w) = some id ∧ Approved s.log (s.current w) id) :
    WorkerInv { s with server := s.server.commit w e } := by
  have hbusy : ∀ v, Biometric.busy ((s.server.commit w e).conn v).phase = true →
      Biometric.busy (s.server.conn v).phase = true := by
    intro v hv
    by_cases hvw : v = w
    · subst hvw
      rcases move_busy hm (by simpa [Server.commit] using hv) with hb | ⟨message, hr⟩
      · exact hb
      · exact absurd hr (hev message)
    · simpa [Server.commit, hvw] using hv
  refine ⟨h.numbered, fun v hv => h.busy v (hbusy v hv), fun v v' hv hv' => h.apart v v' (hbusy v hv) (hbusy v' hv'),
    fun v hv => ?_, h.responses⟩
  by_cases hvw : v = w
  · subst hvw
    rcases move_pastGate hm (by simpa [Server.commit] using hv) with hp | ⟨-, hauth⟩
    · exact h.signing v hp
    · exact happ hauth
  · exact h.signing v (by simpa [Server.commit, hvw] using hv)

/-- A request is read: it gets the next number. -/
theorem WorkerInv.recv (h : WorkerInv s) {w : ℕ} {e : Effect} (hp : pastGate e.phase = false) :
    WorkerInv { s with
      server := s.server.commit w e
      current := Function.update s.current w s.arrivals
      arrivals := s.arrivals + 1
      log := s.log ++ [Event.arrived s.arrivals] } where
  numbered q hq := by
    simp only [List.mem_append, List.mem_singleton, reduceCtorEq, or_false, Event.arrived.injEq] at hq
    rcases hq with (hq | rfl) | hq
    · exact (h.numbered q (Or.inl hq)).trans (Nat.lt_succ_self _)
    · exact Nat.lt_succ_self _
    · exact (h.numbered q (Or.inr hq)).trans (Nat.lt_succ_self _)
  busy v hv := by
    by_cases hvw : v = w
    · subst hvw
      have hnew : Event.signResponse s.arrivals ∉ s.log := fun hmem => (h.numbered _ (Or.inr hmem)).false
      simp [hnew]
    · obtain ⟨h1, h2, h3⟩ := h.busy v (by simpa [Server.commit, hvw] using hv)
      simp only [Function.update_of_ne hvw]
      exact ⟨by omega, by simp [h2], by simp [h3]⟩
  apart v v' hv hv' heq := by
    have hold : ∀ u, u ≠ w → Biometric.busy ((s.server.commit w e).conn u).phase = true → s.current u < s.arrivals :=
      fun u hu hb => (h.busy u (by simpa [Server.commit, hu] using hb)).1
    by_cases hvw : v = w <;> by_cases hvw' : v' = w
    · exact hvw.trans hvw'.symm
    · subst hvw
      have := hold v' hvw' hv'
      simp only [Function.update_self, Function.update_of_ne hvw'] at heq
      omega
    · subst hvw'
      have := hold v hvw hv
      simp only [Function.update_self, Function.update_of_ne hvw] at heq
      omega
    · simp only [Function.update_of_ne hvw, Function.update_of_ne hvw'] at heq
      exact h.apart v v' (by simpa [Server.commit, hvw] using hv) (by simpa [Server.commit, hvw'] using hv') heq
  signing v hv := by
    have hvw : v ≠ w := by
      rintro rfl
      simp [Server.commit, hp] at hv
    obtain ⟨i, hi, happ⟩ := h.signing v (by simpa [Server.commit, hvw] using hv)
    simp only [Function.update_of_ne hvw]
    exact ⟨i, hi, happ.append _⟩
  responses before after q hq := by
    rcases append_singleton_split hq with ⟨-, hne, -⟩ | ⟨rest, -, hlog⟩
    · cases hne
    · exact h.responses before rest q hlog

end Workers

section Gate

variable {prov : Provider} {s s' : System}

/-- A future is found only while its id is pending, hence after the id was drawn. -/
theorem GateInv.completeBiometricAuth (h : GateInv s) {id : ℤ} {success : Bool}
    (happ : success = true → ∀ q, s.idOf q = some id → Approved s.log q id) :
    GateInv (completeBiometricAuth s id success) := by
  unfold Biometric.completeBiometricAuth
  split_ifs with hp
  · refine ⟨fun i hi => ?_, h.issued, h.unique, h.drawn, h.calls, fun q i hq hi => ?_, h.verdict⟩
    · obtain ⟨h1, h2, h3⟩ := h.unissued i hi
      have hne : i ≠ id := by
        rintro rfl
        simp [h1] at hp
      exact ⟨h1, h2, fun b => by simpa [hne] using h3 b⟩
    · rcases hi with hi | hi
      · exact h.approved q i hq (Or.inl hi)
      · simp only [List.mem_append, List.mem_singleton, Prod.mk.injEq] at hi
        rcases hi with hi | ⟨rfl, rfl⟩
        · exact h.approved q i hq (Or.inr hi)
        · exact happ rfl q hq
  · exact h

theorem WorkerInv.completeBiometricAuth (h : WorkerInv s) (id : ℤ) (success : Bool) :
    WorkerInv (completeBiometricAuth s id success) := by
  unfold Biometric.completeBiometricAuth
  split_ifs
  · exact ⟨h.numbered, h.busy, h.apart, h.signing, h.responses⟩
  · exact h

theorem Inv.lookup (h : Inv s) {id : ℤ} {success : Bool}
    (happ : success = true → ∀ q, s.idOf q = some id → Approved s.log q id) :
    Inv (Biometric.completeBiometricAuth s id success) :=
  ⟨h.gate.completeBiometricAuth happ, h.workers.completeBiometricAuth id success⟩

/-- Launches and activities by themselves change nothing. -/
theorem Inv.outside (h : Inv s) (posted : List ℤ) (activity : ℕ → Activity) (activities : ℕ)
    (activePrompts : ℤ → Option ℕ) (finishing : ℕ → Bool) :
    Inv { s with
      posted := posted
      activity := activity
      activities := activities
      activePrompts := activePrompts
      finishing := finishing } where
  gate := ⟨h.gate.unissued, h.gate.issued, h.gate.unique, h.gate.drawn, h.gate.calls, h.gate.approved,
    h.gate.verdict⟩
  workers := ⟨h.workers.numbered, h.workers.busy, h.workers.apart, h.workers.signing, h.workers.responses⟩

/-- A call goes on with its id, to a verdict only if the future has it. -/
theorem Inv.callTo (h : Inv s) {c : Caller} {call : Call} (hid : call.id = (s.call c).id)
    (hv : ∀ id, call = .remove id true → s.future id = some true) :
    Inv { s with call := Function.update s.call c call } where
  gate := by
    refine ⟨h.gate.unissued, h.gate.issued, h.gate.unique, fun c' id hc' => ?_, fun w id hw => ?_, h.gate.approved,
      fun c' id hc' => ?_⟩
    · by_cases hc : c' = c
      · subst hc
        exact h.gate.drawn c' id (by simpa [hid] using hc')
      · exact h.gate.drawn c' id (by simpa [hc] using hc')
    · by_cases hc : Caller.worker w = c
      · subst hc
        exact h.gate.calls w id (by simpa [hid] using hw)
      · exact h.gate.calls w id (by simpa [hc] using hw)
    · by_cases hc : c' = c
      · subst hc
        exact hv id (by simpa using hc')
      · exact h.gate.verdict c' id (by simpa [hc] using hc')
  workers := ⟨h.workers.numbered, h.workers.busy, h.workers.apart, h.workers.signing, h.workers.responses⟩

/-- A call puts its id into the map or takes it out. -/
theorem Inv.setPending (h : Inv s) {id : ℤ} (hid : id ≤ s.requests) (b : Bool) :
    Inv { s with pending := Function.update s.pending id b } where
  gate := by
    refine ⟨fun i hi => ?_, h.gate.issued, h.gate.unique, h.gate.drawn, h.gate.calls, h.gate.approved, h.gate.verdict⟩
    have hne : i ≠ id := by
      rintro rfl
      exact absurd hi (not_lt.mpr hid)
    simpa [hne] using h.gate.unissued i hi
  workers := ⟨h.workers.numbered, h.workers.busy, h.workers.apart, h.workers.signing, h.workers.responses⟩

/-- A call ends. -/
theorem Inv.callIdle (h : Inv s) (c : Caller) : Inv { s with call := Function.update s.call c .idle } where
  gate := by
    refine ⟨h.gate.unissued, h.gate.issued, h.gate.unique, fun c' id hc' => ?_, fun w id hw => ?_, h.gate.approved,
      fun c' id hc' => ?_⟩
    · have hc : c' ≠ c := by
        rintro rfl
        simp [Call.id] at hc'
      exact h.gate.drawn c' id (by simpa [hc] using hc')
    · have hc : Caller.worker w ≠ c := by
        rintro rfl
        simp [Call.id] at hw
      exact h.gate.calls w id (by simpa [hc] using hw)
    · have hc : c' ≠ c := by
        rintro rfl
        simp at hc'
      exact h.gate.verdict c' id (by simpa [hc] using hc')
  workers := ⟨h.workers.numbered, h.workers.busy, h.workers.apart, h.workers.signing, h.workers.responses⟩

/-- A worker's step, other than reading a request, while the worker is in no call. -/
theorem Inv.move (h : Inv s) {w : ℕ} {ev : WorkerEvent} {server : Server}
    (hs : step prov s.server (.worker w ev) = some server) (hcall : (s.call (.worker w)).id = none)
    (hev : ∀ message, ev ≠ .recv message)
    (happ : ev = .authenticated true → ∃ id, s.idOf (s.current w) = some id ∧ Approved s.log (s.current w) id) :
    Inv { s with server := server } := by
  refine ⟨⟨h.gate.unissued, h.gate.issued, h.gate.unique, h.gate.drawn, fun v id hv => ?_, h.gate.approved,
    h.gate.verdict⟩, ?_⟩
  · obtain ⟨e, -, rfl⟩ := workerStep_cases hs
    have hvw : v ≠ w := by
      rintro rfl
      simp [hcall] at hv
    simpa [Server.commit, hvw] using h.gate.calls v id hv
  · obtain ⟨e, he, rfl⟩ := workerStep_cases hs
    exact h.workers.move (advance_move he) hev happ

/-- A worker that is not in `awaitBiometricAuth` is in no call. -/
theorem Inv.noCall (h : Inv s) {w : ℕ} (hp : awaits (s.server.conn w).phase = false) :
    (s.call (.worker w)).id = none := by
  by_contra hne
  obtain ⟨id, hid⟩ := Option.ne_none_iff_exists'.mp hne
  simp [(h.gate.calls w id hid).2] at hp

theorem Inv.awaitReturns (h : Inv s) {c : Caller} {ok : Bool} (hcall : (s.call c).id = none)
    (happ : ok = true → ∀ w, c = .worker w →
      ∃ id, s.idOf (s.current w) = some id ∧ Approved s.log (s.current w) id)
    (hs : awaitReturns prov s c ok = some s') : Inv s' := by
  cases c with
  | other n => obtain rfl := Option.some.inj hs; exact h
  | worker w =>
    obtain ⟨server, hstep, rfl⟩ := Option.map_eq_some_iff.mp hs
    exact h.move hstep hcall (by simp) fun hauth => happ (by simpa using hauth) w rfl

/-- A worker draws the id of its request: nobody knows the id, and no other worker
has the request. -/
theorem Inv.draw (h : Inv s) {w : ℕ} (hp : awaits (s.server.conn w).phase = true) :
    Inv { s with
      requests := s.requests + 1
      call := Function.update s.call (.worker w) (.put (s.requests + 1))
      idOf := Function.update s.idOf (s.current w) (some (s.requests + 1)) } := by
  have hbusy := busy_of_awaits hp
  obtain ⟨-, harrived, hunanswered⟩ := h.workers.busy w hbusy
  have hother : ∀ v, v ≠ w → busy (s.server.conn v).phase = true → s.current v ≠ s.current w :=
    fun v hv hb heq => hv (h.workers.apart v w hb hbusy heq)
  refine ⟨⟨fun id hid => ?_, fun q id hq => ?_, fun q q' id hq hq' => ?_, fun c id hc => ?_, fun v id hv => ?_,
    fun q id hq hid => ?_, fun c id hc => ?_⟩, ⟨h.workers.numbered, h.workers.busy, h.workers.apart,
    fun v hv => ?_, fun before after q hq => ?_⟩⟩
  · have hlt : s.requests < id := by simp only at hid; omega
    exact h.gate.unissued id hlt
  · by_cases hqw : q = s.current w
    · subst hqw
      obtain rfl : s.requests + 1 = id := by simpa using hq
      exact ⟨le_rfl, harrived⟩
    · obtain ⟨h1, h2⟩ := h.gate.issued q id (by simpa [hqw] using hq)
      exact ⟨by simp only; omega, h2⟩
  · have hold : ∀ p, p ≠ s.current w → Function.update s.idOf (s.current w) (some (s.requests + 1)) p = some id →
        id ≤ s.requests := fun p hne hid => (h.gate.issued p id (by simpa [hne] using hid)).1
    by_cases hqw : q = s.current w <;> by_cases hqw' : q' = s.current w
    · exact hqw.trans hqw'.symm
    · have hle := hold q' hqw' hq'
      have heq : s.requests + 1 = id := by simpa [hqw] using hq
      omega
    · have hle := hold q hqw hq
      have heq : s.requests + 1 = id := by simpa [hqw'] using hq'
      omega
    · exact h.gate.unique q q' id (by simpa [hqw] using hq) (by simpa [hqw'] using hq')
  · by_cases hcw : c = .worker w
    · subst hcw
      have heq : s.requests + 1 = id := by simpa [Call.id] using hc
      exact heq.symm.le
    · have hle := h.gate.drawn c id (by simpa [hcw] using hc)
      simp only
      omega
  · by_cases hvw : v = w
    · subst hvw
      have heq : s.requests + 1 = id := by simpa [Call.id] using hv
      simp [heq, hp]
    · obtain ⟨h1, h2⟩ := h.gate.calls v id (by simpa [hvw] using hv)
      exact ⟨by simpa [hother v hvw (busy_of_awaits h2)] using h1, h2⟩
  · by_cases hqw : q = s.current w
    · subst hqw
      obtain rfl : s.requests + 1 = id := by simpa using hq
      obtain ⟨-, hfuture, hnone⟩ := h.gate.unissued (s.requests + 1) (by omega)
      rcases hid with hid | hid
      · simp [hfuture] at hid
      · exact absurd hid (hnone true)
    · exact h.gate.approved q id (by simpa [hqw] using hq) hid
  · by_cases hcw : c = .worker w
    · subst hcw
      simp at hc
    · exact h.gate.verdict c id (by simpa [hcw] using hc)
  · have hvw : v ≠ w := by
      rintro rfl
      have hv' : pastGate (s.server.conn v).phase = true := hv
      cases hph : (s.server.conn v).phase <;> simp [hph, awaits, pastGate] at hp hv'
    obtain ⟨id, hid, happ⟩ := h.workers.signing v hv
    exact ⟨id, by simpa [hother v hvw (busy_of_pastGate hv)] using hid, happ⟩
  · obtain ⟨hnot, id, hid, happ⟩ := h.workers.responses before after q hq
    have hlog : s.log = before ++ Event.signResponse q :: after := hq
    have hqw : q ≠ s.current w := by
      rintro rfl
      exact hunanswered (by simp [hlog])
    exact ⟨hnot, id, by simpa [hqw] using hid, happ⟩

/-- Somebody outside the server draws an id, which is no request's. -/
theorem Inv.drawOther (h : Inv s) (n : ℕ) :
    Inv { s with
      requests := s.requests + 1
      call := Function.update s.call (.other n) (.put (s.requests + 1)) } where
  gate := by
    refine ⟨fun id hid => h.gate.unissued id (by simp only at hid; omega), fun q id hq => ?_, h.gate.unique,
      fun c id hc => ?_, fun v id hv => h.gate.calls v id (by simpa using hv), h.gate.approved, fun c id hc => ?_⟩
    · obtain ⟨h1, h2⟩ := h.gate.issued q id hq
      exact ⟨by simp only; omega, h2⟩
    · by_cases hcn : c = .other n
      · subst hcn
        have heq : s.requests + 1 = id := by simpa [Call.id] using hc
        exact heq.symm.le
      · have hle := h.gate.drawn c id (by simpa [hcn] using hc)
        simp only
        omega
    · by_cases hcn : c = .other n
      · subst hcn
        simp at hc
      · exact h.gate.verdict c id (by simpa [hcn] using hc)
  workers := ⟨h.workers.numbered, h.workers.busy, h.workers.apart, h.workers.signing, h.workers.responses⟩

theorem Inv.await (h : Inv s) {c : Caller} {enrolled : Bool}
    (hs : awaitBiometricAuth prov s c enrolled = some s') : Inv s' := by
  unfold awaitBiometricAuth at hs
  split_ifs at hs with hcall henrolled
  · obtain rfl := Option.some.inj hs
    cases c with
    | worker w => exact h.draw hcall.2
    | other n => exact h.drawOther n
  · exact h.awaitReturns (by simp [hcall.1, Call.id]) (by simp) hs

theorem Inv.callStep (h : Inv s) {c : Caller} (hs : callStep prov s c = some s') : Inv s' := by
  unfold Biometric.callStep at hs
  cases hc : s.call c with
  | idle => simp [hc] at hs
  | put id =>
    simp only [hc, Option.some.injEq] at hs
    subst hs
    exact (h.setPending (h.gate.drawn c id (by simp [hc, Call.id])) true).callTo (by simp [hc, Call.id]) (by simp)
  | post id =>
    simp only [hc, Option.some.injEq] at hs
    subst hs
    exact (h.outside (s.posted ++ [id]) _ _ _ _).callTo (by simp [hc, Call.id]) (by simp)
  | waiting id =>
    simp only [hc] at hs
    obtain ⟨ok, hok, rfl⟩ := Option.map_eq_some_iff.mp hs
    refine h.callTo (by simp [hc, Call.id]) fun i hi => ?_
    obtain ⟨rfl, rfl⟩ := Call.remove.inj hi
    exact hok
  | dismiss id =>
    simp only [hc, Option.some.injEq] at hs
    subst hs
    unfold dismissPendingPrompt
    split
    · exact (h.outside s.posted _ _ _ (Function.update s.finishing _ true)).callTo (by simp [hc, Call.id]) (by simp)
    · exact h.callTo (by simp [hc, Call.id]) (by simp)
  | remove id ok =>
    simp only [hc] at hs
    have hid : (s.call c).id = some id := by simp [hc, Call.id]
    have hinv := (h.setPending (h.gate.drawn c id hid) false).callIdle c
    refine hinv.awaitReturns (by simp [Call.id]) (fun hok w hw => ?_) hs
    subst hok hw
    obtain ⟨hidOf, -⟩ := h.gate.calls w id hid
    exact ⟨id, hidOf, h.gate.approved _ id hidOf (Or.inl (h.gate.verdict _ id hc))⟩

theorem Inv.callFails (h : Inv s) {c : Caller} (hs : callFails s c = some s') : Inv s' := by
  unfold Biometric.callFails at hs
  cases hc : s.call c with
  | post id | waiting id =>
    simp only [hc, Option.some.injEq] at hs
    subst hs
    exact h.callTo (by simp [hc, Call.id]) (by simp)
  | _ => simp [hc] at hs

end Gate

section Prompts

variable {prov : Provider} {s s' : System}

theorem Inv.onCreate (h : Inv s) (requestId : ℤ) (enrolled : Bool) : Inv (onCreate s requestId enrolled) := by
  unfold Biometric.onCreate
  dsimp only
  split_ifs
  · exact h.outside _ _ _ _ _
  · exact (h.lookup (by simp)).outside _ _ _ _ _
  · exact h.outside _ _ _ _ _

/-- A success approves the request its id was drawn for. -/
theorem Inv.promptEnds (h : Inv s) {n : ℕ} {success : Bool} (hs : promptEnds s n success = some s') : Inv s' := by
  unfold Biometric.promptEnds at hs
  split at hs
  · obtain rfl := Option.some.inj hs
    rename_i requestId hp
    refine Inv.outside (Inv.lookup ?_ ?_) _ _ _ _ _
    · cases success with
      | false => simpa using h
      | true =>
        refine ⟨⟨h.gate.unissued, fun q id hq => ?_, h.gate.unique, h.gate.drawn, h.gate.calls, fun q id hq hid => ?_,
          h.gate.verdict⟩, h.workers.succeeded requestId⟩
        · obtain ⟨h1, h2⟩ := h.gate.issued q id hq
          exact ⟨h1, List.mem_append_left _ h2⟩
        · exact (h.gate.approved q id hq hid).append _
    · intro hsuccess q hq
      subst hsuccess
      exact approved_of_arrived (h.gate.issued q requestId hq).2
  · cases hs

theorem Inv.onDestroy (h : Inv s) {n : ℕ} (hs : onDestroy s n = some s') : Inv s' := by
  unfold Biometric.onDestroy at hs
  split at hs
  · obtain rfl := Option.some.inj hs
    exact h.outside _ _ _ _ _
  · cases hs

theorem Inv.launch (h : Inv s) {id : ℤ} {started : Bool} (hs : launch s id started = some s') : Inv s' := by
  unfold Biometric.launch at hs
  dsimp only at hs
  split_ifs at hs
  · obtain rfl := Option.some.inj hs
    exact h.outside _ _ _ _ _
  · obtain rfl := Option.some.inj hs
    exact (h.outside (s.posted.erase id) _ _ _ _).lookup (by simp)

theorem Inv.complete (h : Inv s) {id : ℤ} {success : Bool} (hs : complete s id success = some s') : Inv s' := by
  unfold Biometric.complete at hs
  split_ifs at hs with hmem
  obtain rfl := Option.some.inj hs
  refine ⟨⟨fun i hi => ?_, h.gate.issued, h.gate.unique, h.gate.drawn, h.gate.calls, fun q i hq hi => ?_,
    fun c i hc => ?_⟩, ⟨h.workers.numbered, h.workers.busy, h.workers.apart, h.workers.signing,
    h.workers.responses⟩⟩
  · obtain ⟨h1, h2, h3⟩ := h.gate.unissued i hi
    have hne : i ≠ id := by
      rintro rfl
      exact h3 success hmem
    exact ⟨h1, by simpa [hne] using h2, fun b hb => h3 b (List.mem_of_mem_erase hb)⟩
  · rcases hi with hi | hi
    · by_cases hne : i = id
      · subst hne
        cases hf : s.future i with
        | none =>
          obtain rfl : success = true := by simpa [hf] using hi
          exact h.gate.approved q i hq (Or.inr hmem)
        | some b =>
          obtain rfl : b = true := by simpa [hf] using hi
          exact h.gate.approved q i hq (Or.inl hf)
      · exact h.gate.approved q i hq (Or.inl (by simpa [hne] using hi))
    · exact h.gate.approved q i hq (Or.inr (List.mem_of_mem_erase hi))
  · have hf := h.gate.verdict c i hc
    by_cases hne : i = id
    · subst hne
      simp [hf]
    · simpa [hne] using hf

end Prompts

section Server

variable {prov : Provider} {s s' : System}

/-- A step of the server that is no worker's. -/
theorem Inv.serverOther (h : Inv s) (hal : Allocated s.server) {a : Agent.Action} {server : Server}
    (ha : ∀ w ev, a ≠ .worker w ev) (hs : step prov s.server a = some server) : Inv { s with server := server } := by
  have hphase := step_phase ha hs
  have hbusy : ∀ v, busy (server.conn v).phase = true → busy (s.server.conn v).phase = true := by
    intro v hv
    rcases hphase v with hp | ⟨-, hp⟩
    · rwa [hp] at hv
    · simp [hp, busy] at hv
  refine ⟨⟨h.gate.unissued, h.gate.issued, h.gate.unique, h.gate.drawn, fun v id hv => ?_, h.gate.approved,
    h.gate.verdict⟩, ⟨h.workers.numbered, fun v hv => h.workers.busy v (hbusy v hv),
    fun v v' hv hv' => h.workers.apart v v' (hbusy v hv) (hbusy v' hv'), fun v hv => ?_, h.workers.responses⟩⟩
  · obtain ⟨hid, hp⟩ := h.gate.calls v id hv
    rcases hphase v with hsame | ⟨rfl, -⟩
    · exact ⟨hid, by rwa [hsame]⟩
    · simp [hal.conn _ le_rfl, awaits] at hp
  · rcases hphase v with hp | ⟨-, hp⟩
    · exact h.workers.signing v (by simpa [hp] using hv)
    · simp [hp, pastGate] at hv

/-- A request is read by a worker that has none. -/
theorem Inv.recv (h : Inv s) {w : ℕ} {message : Bytes} {server : Server}
    (hs : step prov s.server (.worker w (.recv message)) = some server) :
    Inv { s with
      server := server
      current := Function.update s.current w s.arrivals
      arrivals := s.arrivals + 1
      log := s.log ++ [Event.arrived s.arrivals] } := by
  obtain ⟨e, he, rfl⟩ := workerStep_cases hs
  have hm := advance_move he
  generalize hp : (s.server.conn w).phase = p at hm
  cases hm with
  | recv hpos hmax =>
    have hcall := h.noCall (w := w) (by simp [hp, awaits])
    refine ⟨⟨h.gate.unissued, fun q id hq => ?_, h.gate.unique, h.gate.drawn, fun v id hv => ?_,
      fun q id hq hid => (h.gate.approved q id hq hid).append _, h.gate.verdict⟩, h.workers.recv rfl⟩
    · obtain ⟨h1, h2⟩ := h.gate.issued q id hq
      exact ⟨h1, List.mem_append_left _ h2⟩
    · have hvw : v ≠ w := by
        rintro rfl
        simp [hcall] at hv
      simpa [Server.commit, hvw] using h.gate.calls v id hv

/-- A payload is written; a security-key signature is the one answer of its request. -/
theorem Inv.write (h : Inv s) {w : ℕ} {server : Server}
    (hs : step prov s.server (.worker w (.write true)) = some server) :
    Inv { s with
      server := server
      log := s.log ++ if skReply (s.server.conn w).phase then [Event.signResponse (s.current w)] else [] } := by
  have hnowait : awaits (s.server.conn w).phase = false := by
    by_contra hne
    obtain ⟨e, he, -⟩ := workerStep_cases hs
    obtain ⟨ok, hok⟩ := move_of_awaits (advance_move he) (by simpa using hne)
    cases hok
  have hinv := h.move hs (h.noCall hnowait) (by simp) (by simp)
  split_ifs with hsk
  · have hgate : pastGate (s.server.conn w).phase = true := by
      cases hp : (s.server.conn w).phase <;> simp [hp, skReply] at hsk
      simpa [pastGate] using hsk
    obtain ⟨hq, -, hnew⟩ := h.workers.busy w (busy_of_pastGate hgate)
    obtain ⟨id, hid, happ⟩ := h.workers.signing w hgate
    refine ⟨⟨h.gate.unissued, fun q id hq => ?_, h.gate.unique, h.gate.drawn, hinv.gate.calls,
      fun q id hq hid => (h.gate.approved q id hq hid).append _, h.gate.verdict⟩,
      hinv.workers.responded hq hnew hid happ fun v hv heq => ?_⟩
    · obtain ⟨h1, h2⟩ := h.gate.issued q id hq
      exact ⟨h1, List.mem_append_left _ h2⟩
    · -- the worker itself is back in its loop, and no other worker has its request
      obtain ⟨e, he, rfl⟩ := workerStep_cases hs
      by_cases hvw : v = w
      · subst hvw
        have hm := advance_move he
        generalize (s.server.conn v).phase = p at hm
        cases hm <;> simp [Server.commit, Server.goto, busy] at hv
      · have hb : busy (s.server.conn v).phase = true := by simpa [Server.commit, hvw] using hv
        exact hvw (h.workers.apart v w hb (busy_of_pastGate hgate) heq)
  · simpa using hinv

theorem serverStep_other {a : Agent.Action} (ha : ∀ w ev, a ≠ .worker w ev) :
    serverStep prov s a = (step prov s.server a).map fun server => { s with server := server } := by
  cases a with
  | worker w ev => exact absurd rfl (ha w ev)
  | _ => rfl

theorem Inv.serverStep (h : Inv s) (hal : Allocated s.server) {a : Agent.Action}
    (hs : serverStep prov s a = some s') : Inv s' := by
  have hplain : ∀ w ev server, a = .worker w ev → (∀ message, ev ≠ .recv message) → (∀ ok, ev ≠ .authenticated ok) →
      step prov s.server a = some server → Inv { s with server := server } := by
    intro w ev server haw hrecv hauth hstep
    subst haw
    refine h.move hstep (h.noCall ?_) hrecv fun hev => absurd hev (hauth true)
    by_contra hne
    obtain ⟨e, he, -⟩ := workerStep_cases hstep
    obtain ⟨ok, hok⟩ := move_of_awaits (advance_move he) (by simpa using hne)
    exact hauth ok hok
  cases a with
  | worker w ev =>
    cases ev with
    | authenticated ok => simp [Biometric.serverStep] at hs
    | recv message =>
      obtain ⟨server, hstep, rfl⟩ := Option.map_eq_some_iff.mp hs
      exact h.recv hstep
    | write ok =>
      cases ok with
      | true =>
        obtain ⟨server, hstep, rfl⟩ := Option.map_eq_some_iff.mp hs
        exact h.write hstep
      | false =>
        obtain ⟨server, hstep, rfl⟩ := Option.map_eq_some_iff.mp hs
        exact hplain w _ server rfl (by simp) (by simp) hstep
    | run | disconnect | keystore =>
      obtain ⟨server, hstep, rfl⟩ := Option.map_eq_some_iff.mp hs
      exact hplain w _ server rfl (by simp) (by simp) hstep
  | _ =>
    rw [serverStep_other (by simp)] at hs
    obtain ⟨server, hstep, rfl⟩ := Option.map_eq_some_iff.mp hs
    exact h.serverOther hal (by simp) hstep

end Server

theorem step_inv {prov : Provider} {s s' : System} {a : Action} (h : Inv s) (hal : Allocated s.server)
    (hs : gateStep prov s a = some s') : Inv s' := by
  cases a with
  | server a => exact h.serverStep hal hs
  | await c enrolled => exact h.await hs
  | callStep c => exact h.callStep hs
  | callFails c => exact h.callFails hs
  | launch id started => exact h.launch hs
  | onCreate requestId enrolled => obtain rfl := Option.some.inj hs; exact h.onCreate requestId enrolled
  | promptEnds n success => exact h.promptEnds hs
  | onDestroy n => exact h.onDestroy hs
  | complete id success => exact h.complete hs

/-! The gate adds nothing to what the server does. -/

def Event.isResponse : Event → Bool
  | .signResponse _ => true
  | _ => false

/-- Outside the server's own steps: at most a worker gets its answer, and no
response is logged. -/
structure Aside (prov : Provider) (s s' : System) : Prop where
  server : s'.server = s.server ∨ ∃ w ok, step prov s.server (.worker w (.authenticated ok)) = some s'.server
  log : s'.log.filter Event.isResponse = s.log.filter Event.isResponse

theorem aside_awaitReturns {prov : Provider} {s s' : System} {c : Caller} {ok : Bool}
    (hs : awaitReturns prov s c ok = some s') : Aside prov s s' := by
  cases c with
  | other n => obtain rfl := Option.some.inj hs; exact ⟨Or.inl rfl, rfl⟩
  | worker w =>
    obtain ⟨server, hstep, rfl⟩ := Option.map_eq_some_iff.mp hs
    exact ⟨Or.inr ⟨w, ok, hstep⟩, rfl⟩

@[simp] theorem completeBiometricAuth_server (s : System) (id : ℤ) (success : Bool) :
    (completeBiometricAuth s id success).server = s.server := by
  unfold completeBiometricAuth
  split_ifs <;> rfl

@[simp] theorem completeBiometricAuth_log (s : System) (id : ℤ) (success : Bool) :
    (completeBiometricAuth s id success).log = s.log := by
  unfold completeBiometricAuth
  split_ifs <;> rfl

theorem gateStep_cases {prov : Provider} {s s' : System} {a : Action} (hs : gateStep prov s a = some s') :
    (∃ b, serverStep prov s b = some s') ∨ Aside prov s s' := by
  cases a with
  | server a => exact Or.inl ⟨a, hs⟩
  | await c enrolled =>
    simp only [gateStep, awaitBiometricAuth] at hs
    split_ifs at hs
    · obtain rfl := Option.some.inj hs; exact Or.inr ⟨Or.inl rfl, rfl⟩
    · exact Or.inr (aside_awaitReturns hs)
  | callStep c =>
    simp only [gateStep, callStep] at hs
    cases hc : s.call c with
    | idle => simp [hc] at hs
    | put id | post id => simp only [hc, Option.some.injEq] at hs; subst hs; exact Or.inr ⟨Or.inl rfl, rfl⟩
    | waiting id =>
      simp only [hc] at hs
      obtain ⟨ok, -, rfl⟩ := Option.map_eq_some_iff.mp hs
      exact Or.inr ⟨Or.inl rfl, rfl⟩
    | dismiss id =>
      simp only [hc, Option.some.injEq] at hs
      subst hs
      unfold dismissPendingPrompt
      split <;> exact Or.inr ⟨Or.inl rfl, rfl⟩
    | remove id ok =>
      simp only [hc] at hs
      obtain ⟨hserver, hlog⟩ := aside_awaitReturns hs
      exact Or.inr ⟨hserver, hlog⟩
  | callFails c =>
    simp only [gateStep, callFails] at hs
    split at hs
    · obtain rfl := Option.some.inj hs; exact Or.inr ⟨Or.inl rfl, rfl⟩
    · obtain rfl := Option.some.inj hs; exact Or.inr ⟨Or.inl rfl, rfl⟩
    · cases hs
  | launch id started =>
    simp only [gateStep, launch] at hs
    split_ifs at hs <;> obtain rfl := Option.some.inj hs <;> exact Or.inr ⟨Or.inl (by simp), by simp⟩
  | onCreate requestId enrolled =>
    obtain rfl := Option.some.inj hs
    unfold onCreate
    dsimp only
    split_ifs <;> exact Or.inr ⟨Or.inl (by simp), by simp⟩
  | promptEnds n success =>
    simp only [gateStep, promptEnds] at hs
    split at hs
    · obtain rfl := Option.some.inj hs
      refine Or.inr ⟨Or.inl (by simp), ?_⟩
      cases success <;> simp [Event.isResponse]
    · cases hs
  | onDestroy n =>
    simp only [gateStep, onDestroy] at hs
    split at hs
    · obtain rfl := Option.some.inj hs; exact Or.inr ⟨Or.inl rfl, rfl⟩
    · cases hs
  | complete id success =>
    simp only [gateStep, complete] at hs
    split_ifs at hs
    obtain rfl := Option.some.inj hs
    exact Or.inr ⟨Or.inl rfl, rfl⟩

theorem serverStep_server {prov : Provider} {s s' : System} {a : Agent.Action} (hs : serverStep prov s a = some s') :
    step prov s.server a = some s'.server := by
  cases a with
  | worker w ev =>
    cases ev with
    | authenticated ok => simp [serverStep] at hs
    | write ok =>
      cases ok <;>
      · obtain ⟨server, hstep, rfl⟩ := Option.map_eq_some_iff.mp hs
        exact hstep
    | _ =>
      obtain ⟨server, hstep, rfl⟩ := Option.map_eq_some_iff.mp hs
      exact hstep
  | _ =>
    rw [serverStep_other (by simp)] at hs
    obtain ⟨server, hstep, rfl⟩ := Option.map_eq_some_iff.mp hs
    exact hstep

/-- The server in front of the gate makes a run of the server by itself. -/
theorem run_server {prov : Provider} {counters : JString → ℤ} {acts : List Action} {s : System}
    (h : Run (System.init counters) (gateStep prov) anyStep acts s) :
    ∃ acts', Run (Server.init counters) (step prov) anyStep acts' s.server := by
  induction h with
  | nil => exact ⟨[], Run.nil⟩
  | snoc _ _ hs ih =>
    obtain ⟨acts', hrun⟩ := ih
    rcases gateStep_cases hs with ⟨b, hb⟩ | ⟨hsame | ⟨w, ok, hw⟩, -⟩
    · exact ⟨_, hrun.snoc trivial (serverStep_server hb)⟩
    · exact ⟨acts', hsame ▸ hrun⟩
    · exact ⟨_, hrun.snoc trivial hw⟩

theorem init_inv (counters : JString → ℤ) : Inv (System.init counters) where
  gate := ⟨by simp [System.init], by simp [System.init], by simp [System.init], by simp [System.init, Call.id],
    by simp [System.init, Call.id], by simp [System.init], by simp [System.init]⟩
  workers := ⟨by simp [System.init], by simp [System.init, Server.init, busy],
    by simp [System.init, Server.init, busy], by simp [System.init, Server.init, pastGate], by simp [System.init]⟩

theorem run_inv {prov : Provider} {counters : JString → ℤ} {acts : List Action} {s : System}
    (h : Run (System.init counters) (gateStep prov) anyStep acts s) : Inv s := by
  induction h with
  | nil => exact init_inv counters
  | snoc hrun _ hs ih =>
    obtain ⟨acts', hserver⟩ := run_server hrun
    exact step_inv ih (run_allocated hserver) hs

/-! The log and what the server has sent. -/

/-- The log has an entry for every security-key answer written to a client. -/
def Logged (s : System) : Prop :=
  (s.server.sent.filter fun x => isSkResponse x.2).length = (s.log.filter Event.isResponse).length

/-- A worker that writes nothing sends nothing. -/
theorem step_sent_worker {prov : Provider} {s s' : Server} {w : ℕ} {ev : WorkerEvent}
    (hs : step prov s (.worker w ev) = some s') (hev : ev ≠ .write true) : s'.sent = s.sent := by
  obtain ⟨e, he, rfl⟩ := workerStep_cases hs
  rcases move_sent (advance_move he) with ⟨hsent, -⟩ | ⟨hwrite, -⟩
  · simp [Server.commit, hsent]
  · exact absurd hwrite hev

theorem serverStep_logged {prov : Provider} {s s' : System} {a : Agent.Action} (h : Logged s)
    (hs : serverStep prov s a = some s') : Logged s' := by
  cases a with
  | worker w ev =>
    cases ev with
    | authenticated ok => simp [serverStep] at hs
    | recv message =>
      obtain ⟨server, hstep, rfl⟩ := Option.map_eq_some_iff.mp hs
      simpa [Logged, step_sent_worker hstep (by simp), Event.isResponse] using h
    | write ok =>
      cases ok with
      | true =>
        obtain ⟨server, hstep, rfl⟩ := Option.map_eq_some_iff.mp hs
        obtain ⟨e, he, rfl⟩ := workerStep_cases hstep
        rcases move_sent (advance_move he) with ⟨-, hev⟩ | ⟨-, payload, hsent, hsk⟩
        · exact absurd rfl hev
        · rw [← hsk]
          unfold Logged at h ⊢
          cases hp : isSkResponse payload with
          | false => simp [Server.commit, hsent, hp, h]
          | true => simp [Server.commit, hsent, hp, h, List.filter_cons, Event.isResponse]
      | false =>
        obtain ⟨server, hstep, rfl⟩ := Option.map_eq_some_iff.mp hs
        simpa [Logged, step_sent_worker hstep (by simp)] using h
    | run | disconnect | keystore =>
      obtain ⟨server, hstep, rfl⟩ := Option.map_eq_some_iff.mp hs
      simpa [Logged, step_sent_worker hstep (by simp)] using h
  | _ =>
    rw [serverStep_other (by simp)] at hs
    obtain ⟨server, hstep, rfl⟩ := Option.map_eq_some_iff.mp hs
    simpa [Logged, step_sent (by simp) hstep] using h

theorem step_logged {prov : Provider} {s s' : System} {a : Action} (h : Logged s) (hs : gateStep prov s a = some s') :
    Logged s' := by
  rcases gateStep_cases hs with ⟨b, hb⟩ | ⟨hserver, hlog⟩
  · exact serverStep_logged h hb
  · have hsent : s'.server.sent = s.server.sent := by
      rcases hserver with hsame | ⟨w, ok, hw⟩
      · rw [hsame]
      · exact step_sent_worker hw (by simp)
    rw [Logged, hsent, hlog]
    exact h

/-- A security-key answer to a request with biometric id `id`. -/
def Event.answers (idOf : ℕ → Option ℤ) (id : ℤ) : Event → Bool
  | .signResponse q => idOf q = some id
  | _ => false

theorem length_filter_le_one {α : Type*} {p : α → Bool} {l : List α}
    (h : ∀ before after x, l = before ++ x :: after → p x = true → ∀ y ∈ before, p y = false) :
    (l.filter p).length ≤ 1 := by
  induction l using List.reverseRecOn with
  | nil => simp
  | append_singleton l x ih =>
    rw [List.filter_append]
    by_cases hx : p x = true
    · have hnone : l.filter p = [] := by
        simpa [List.filter_eq_nil_iff] using h l [] x rfl hx
      simp [hnone, hx]
    · have hl := ih fun before after y hy => h before (after ++ [x]) y (by simp [hy])
      simpa [hx] using hl

/-- Every security-key SIGN_RESPONSE written to a client follows a success of a
prompt that carries the id of its own request, later than that request; and no id
has two of them. -/
theorem sk_responses_approved (prov : Provider) (counters : JString → ℤ) (acts : List Action) (s : System)
    (h : Run (System.init counters) (gateStep prov) anyStep acts s) :
    (s.server.sent.filter fun x => isSkResponse x.2).length = (s.log.filter Event.isResponse).length ∧
    (∀ before after q, s.log = before ++ .signResponse q :: after →
      ∃ id, s.idOf q = some id ∧ Approved before q id) ∧
    ∀ id, (s.log.filter (Event.answers s.idOf id)).length ≤ 1 := by
  have hinv := run_inv h
  have hlogged : Logged s := by
    refine h.inv Logged ?_ fun _ _ _ hi _ hs => step_logged hi hs
    rfl
  refine ⟨hlogged, fun before after q hq => (hinv.workers.responses before after q hq).2, fun id => ?_⟩
  apply length_filter_le_one
  intro before after x hx hans y hy
  by_contra hy'
  cases x with
  | signResponse q =>
    cases y with
    | signResponse q' =>
      obtain rfl : q' = q := hinv.gate.unique q' q id (by simpa [Event.answers] using hy')
        (by simpa [Event.answers] using hans)
      exact (hinv.workers.responses before after q' hx).1 hy
    | _ => simp [Event.answers] at hy'
  | _ => cases hans

/-- A client asks for a signature; the activity is re-created before the user
touches the sensor, and the Keystore sees the authentication at the second attempt. -/
def signOnce : List Action :=
  connectOne.map Action.server ++
  [Action.server (.ask ⟨"key".toList, "ssh:".toList, "phone".toList, [1, 2]⟩), .server (.askStep 0),
   .server (.askStep 0),
   .server (.worker 0 (.recv (SSH_AGENTC_SIGN_REQUEST :: (writeString [1, 2] ++ writeString [7] ++ writeInt 0)))),
   .server (.worker 0 .run), .server (.worker 0 .run),
   .await (.worker 0) true, .callStep (.worker 0), .callStep (.worker 0), .launch 1 true,
   .onCreate 1 true, .onDestroy 0, .onCreate 1 true, .promptEnds 1 true, .complete 1 true,
   .callStep (.worker 0), .callStep (.worker 0),
   .server (.worker 0 .run), .server (.worker 0 (.keystore .userNotAuthenticated)), .server (.worker 0 .run),
   .server (.worker 0 (.keystore (.signature [0x30, 6, 2, 1, 5, 2, 1, 9]))), .server (.worker 0 (.write true))]

theorem sk_responses_approved_once : ∃ s, Run (System.init fun _ => 0) (gateStep laxProvider) anyStep signOnce s ∧
    s.log = [.arrived 0, .succeeded 1, .signResponse 0] ∧
    (∃ id, s.idOf 0 = some id ∧ Approved [.arrived 0, .succeeded 1] 0 id) ∧
    (s.server.sent.filter fun x => isSkResponse x.2).length = 1 := by
  have hrun : ∃ s, Run (System.init fun _ => 0) (gateStep laxProvider) anyStep signOnce s ∧
      s.log = [.arrived 0, .succeeded 1, .signResponse 0] := exists_run_of_exec (by decide)
  obtain ⟨s, hs, hlog⟩ := hrun
  obtain ⟨hsent, happ, -⟩ := sk_responses_approved laxProvider (fun _ => 0) signOnce s hs
  refine ⟨s, hs, hlog, happ [.arrived 0, .succeeded 1] [] 0 hlog, ?_⟩
  rw [hsent, hlog]
  rfl

end Tinyhack.Biometric
