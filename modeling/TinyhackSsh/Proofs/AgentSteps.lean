import TinyhackSsh.Lib.Runs
import TinyhackSsh.Spec.AgentServer

/-! What one step of the agent server can do, stated once for each kind of
thread; the invariants below and in the later modules are derived from these. -/

namespace Tinyhack.Agent

/-- What a worker's step can do, one constructor for each branch of `handleClient`
and its handlers. -/
inductive WorkerMove (prov : Provider) (s : Server) (born : ℕ) : Phase → WorkerEvent → Effect → Prop
  | goesOn (hr : s.running = true) : WorkerMove prov s born .loop .run (s.goto .reading)
  | ends (hr : s.running = false) : WorkerMove prov s born .loop .run (s.goto .done)
  | flushFails : WorkerMove prov s born .loop .disconnect (s.goto .done)
  | recv (message : Bytes) (hpos : 1 ≤ message.length) (hmax : message.length ≤ Wire.MAX_MESSAGE_SIZE) :
      WorkerMove prov s born .reading (.recv message) (s.goto (.received message))
  | readFails : WorkerMove prov s born .reading .disconnect (s.goto .done)
  | refused (message : Bytes) (hl : s.locked = true) :
      WorkerMove prov s born (.received message) .run (s.goto (.reply [SSH_AGENT_FAILURE]))
  | dispatched (message : Bytes) (hl : s.locked = false) :
      WorkerMove prov s born (.received message) .run (s.goto (dispatch prov message))
  | counted : WorkerMove prov s born .countKeys .run (s.goto (.listKeys s.keys.length))
  | listed (count : ℕ) :
      WorkerMove prov s born (.listKeys count) .run (s.goto (.reply (identitiesAnswer count s.keys)))
  | replaced (key : StoredKey) : WorkerMove prov s born (.replaceKey key) .run
      { s.goto (.addKey key) with keys := removeBlob s.keys key.blob }
  | added (key : StoredKey) : WorkerMove prov s born (.addKey key) .run
      { s.goto (.reply [SSH_AGENT_SUCCESS]) with
        keys := s.keys ++ [key]
        emptied := addedBy born s.emptied }
  | removed (blob : Bytes) : WorkerMove prov s born (.removeKey blob) .run
      { s.goto (.reply [SSH_AGENT_SUCCESS]) with keys := removeBlob s.keys blob }
  | cleared : WorkerMove prov s born .clearKeys .run { s.goto (.reply [SSH_AGENT_SUCCESS]) with keys := [] }
  | notFound (blob data : Bytes) (flags : ℤ) (hf : (s.keys.find? fun key => key.blob = blob) = none) :
      WorkerMove prov s born (.findKey blob data flags) .run (s.goto .replyFailure)
  | foundSk (blob data : Bytes) (flags : ℤ) (key : StoredKey)
      (hf : (s.keys.find? fun key => key.blob = blob) = some key) (hk : key.keyType = .skEcdsa) :
      WorkerMove prov s born (.findKey blob data flags) .run (s.goto (.awaitAuth key data))
  | found (blob data : Bytes) (flags : ℤ) (key : StoredKey)
      (hf : (s.keys.find? fun key => key.blob = blob) = some key) (hk : key.keyType ≠ .skEcdsa) :
      WorkerMove prov s born (.findKey blob data flags) .run (s.goto (.signing key data flags))
  | signed (key : StoredKey) (data : Bytes) (flags : ℤ) (payload : Bytes)
      (hs : signWithPrivateKey prov key data flags = some payload) :
      WorkerMove prov s born (.signing key data flags) .run (s.goto (.reply payload))
  | notSigned (key : StoredKey) (data : Bytes) (flags : ℤ) (hs : signWithPrivateKey prov key data flags = none) :
      WorkerMove prov s born (.signing key data flags) .run (s.goto .replyFailure)
  | authenticated (key : StoredKey) (data : Bytes) :
      WorkerMove prov s born (.awaitAuth key data) (.authenticated true) (s.goto (.takeCounter key data 0))
  | notAuthenticated (key : StoredKey) (data : Bytes) :
      WorkerMove prov s born (.awaitAuth key data) (.authenticated false) (s.goto .replyFailure)
  | counter (key : StoredKey) (data : Bytes) (attempt : ℕ) (hstop : s.stopping = none) :
      WorkerMove prov s born (.takeCounter key data attempt) .run
        { s.goto (.skSign key data attempt (nextSecurityKeyCounter s.counters (key.keyStoreAlias.getD []))) with
          counters := Function.update s.counters (key.keyStoreAlias.getD [])
            (nextSecurityKeyCounter s.counters (key.keyStoreAlias.getD [])) }
  | skSigned (key : StoredKey) (data : Bytes) (attempt : ℕ) (count : ℤ) (der payload : Bytes)
      (hs : skSignResponse count der = some payload) :
      WorkerMove prov s born (.skSign key data attempt count) (.keystore (.signature der)) (s.goto (.reply payload))
  | retried (key : StoredKey) (data : Bytes) (attempt : ℕ) (count : ℤ) (ha : attempt < 4) :
      WorkerMove prov s born (.skSign key data attempt count) (.keystore .userNotAuthenticated)
        (s.goto (.takeCounter key data (attempt + 1)))
  | skFailed (key : StoredKey) (data : Bytes) (attempt : ℕ) (count : ℤ) (result : KeystoreResult) :
      WorkerMove prov s born (.skSign key data attempt count) (.keystore result) (s.goto .replyFailure)
  | sent (payload : Bytes) :
      WorkerMove prov s born (.reply payload) (.write true) { s.goto .loop with sent := some payload }
  | writeFails (payload : Bytes) : WorkerMove prov s born (.reply payload) (.write false) (s.goto .replyFailure)
  | failureSent : WorkerMove prov s born .replyFailure (.write true)
      { s.goto .loop with sent := some [SSH_AGENT_FAILURE] }
  | failureFails : WorkerMove prov s born .replyFailure (.write false) (s.goto .done)

theorem advance_move {prov : Provider} {s : Server} {born : ℕ} {p : Phase} {ev : WorkerEvent} {e : Effect}
    (h : advance prov s born p ev = some e) : WorkerMove prov s born p ev e := by
  revert h
  fun_cases advance prov s born p ev with
  | case1 =>
    intro h
    obtain rfl := Option.some.inj h
    split_ifs with hr
    · exact .goesOn hr
    · exact .ends (by simpa using hr)
  | case2 => intro h; obtain rfl := Option.some.inj h; exact .flushFails
  | case3 message hlen => intro h; obtain rfl := Option.some.inj h; exact .recv message hlen.1 hlen.2
  | case5 => intro h; obtain rfl := Option.some.inj h; exact .readFails
  | case6 message =>
    intro h
    obtain rfl := Option.some.inj h
    split_ifs with hl
    · exact .refused message hl
    · exact .dispatched message (by simpa using hl)
  | case7 => intro h; obtain rfl := Option.some.inj h; exact .counted
  | case8 count => intro h; obtain rfl := Option.some.inj h; exact .listed count
  | case9 key => intro h; obtain rfl := Option.some.inj h; exact .replaced key
  | case10 key => intro h; obtain rfl := Option.some.inj h; exact .added key
  | case11 blob => intro h; obtain rfl := Option.some.inj h; exact .removed blob
  | case12 => intro h; obtain rfl := Option.some.inj h; exact .cleared
  | case13 blob data flags =>
    intro h
    obtain rfl := Option.some.inj h
    cases hf : s.keys.find? fun key => key.blob = blob with
    | none => exact .notFound blob data flags hf
    | some key =>
      dsimp only
      split_ifs with hk
      · exact .foundSk blob data flags key hf hk
      · exact .found blob data flags key hf hk
  | case14 key data flags =>
    intro h
    obtain rfl := Option.some.inj h
    cases hs : signWithPrivateKey prov key data flags with
    | none => exact .notSigned key data flags hs
    | some payload => exact .signed key data flags payload hs
  | case15 key data ok =>
    intro h
    obtain rfl := Option.some.inj h
    cases ok with
    | true => exact .authenticated key data
    | false => exact .notAuthenticated key data
  | case16 key data attempt keyAlias count hstop =>
    intro h
    obtain rfl := Option.some.inj h
    exact .counter key data attempt hstop
  | case18 key data attempt count result =>
    intro h
    obtain rfl := Option.some.inj h
    cases result with
    | failed => exact .skFailed key data attempt count _
    | userNotAuthenticated =>
      dsimp only
      split_ifs with ha
      · exact .retried key data attempt count ha
      · exact .skFailed key data attempt count _
    | signature der =>
      dsimp only
      cases hs : skSignResponse count der with
      | none => exact .skFailed key data attempt count _
      | some payload => exact .skSigned key data attempt count der payload hs
  | case19 payload ok =>
    intro h
    obtain rfl := Option.some.inj h
    cases ok with
    | true => exact .sent payload
    | false => exact .writeFails payload
  | case20 ok =>
    intro h
    obtain rfl := Option.some.inj h
    cases ok with
    | true => exact .failureSent
    | false => exact .failureFails
  | case4 | case17 | case21 => simp

theorem workerStep_cases {prov : Provider} {s s' : Server} {w : ℕ} {ev : WorkerEvent}
    (hs : workerStep prov s w ev = some s') :
    ∃ e, advance prov s (s.conn w).born (s.conn w).phase ev = some e ∧ s' = s.commit w e := by
  obtain ⟨e, he, rfl⟩ := Option.map_eq_some_iff.mp hs
  exact ⟨e, he, rfl⟩

/-- What a step of an accept thread can do, one constructor for each branch of its loop. -/
inductive AcceptMove (s : Server) (i : ℕ) (s' : Server) : AcceptPhase → AcceptEvent → Prop
  | goesOn (hr : s.running = true) (hs : s' = { s with acceptor := Function.update s.acceptor i .call }) :
      AcceptMove s i s' .test .run
  | ends (hr : s.running = false) (hs : s' = { s with acceptor := Function.update s.acceptor i .done }) :
      AcceptMove s i s' .test .run
  | calls (socket : ℕ) (hopen : s.serverSocket = some socket)
      (hs : s' = { s with acceptor := Function.update s.acceptor i (.accepting socket) }) :
      AcceptMove s i s' .call .run
  | socketGone (hclosed : s.serverSocket = none)
      (hs : s' = { s with acceptor := Function.update s.acceptor i .done }) : AcceptMove s i s' .call .run
  | accepts (socket : ℕ) (uidMatches : Bool) (hopen : s.serverSocket = some socket)
      (hs : s' = { s with
        acceptor := Function.update s.acceptor i (if uidMatches then .accepted socket else .test) }) :
      AcceptMove s i s' (.accepting socket) (.accept uidMatches)
  | acceptFails (socket : ℕ) (hs : s' = { s with acceptor := Function.update s.acceptor i .done }) :
      AcceptMove s i s' (.accepting socket) .ioError
  | full (socket : ℕ) (hfull : s.activeClients + 1 > MAX_CONCURRENT_CLIENTS)
      (hs : s' = { s with acceptor := Function.update s.acceptor i .test }) :
      AcceptMove s i s' (.accepted socket) .run
  | serves (socket : ℕ) (hroom : ¬ s.activeClients + 1 > MAX_CONCURRENT_CLIENTS)
      (hs : s' = { s with
        acceptor := Function.update s.acceptor i .test
        activeClients := s.activeClients + 1
        conn := Function.update s.conn s.conns ⟨.loop, socket⟩
        conns := s.conns + 1 }) :
      AcceptMove s i s' (.accepted socket) .run
  | closeFails (socket : ℕ) (hfull : s.activeClients + 1 > MAX_CONCURRENT_CLIENTS)
      (hs : s' = { s with acceptor := Function.update s.acceptor i .done }) :
      AcceptMove s i s' (.accepted socket) .ioError

section AcceptMoves

variable {s s' : Server} {i : ℕ} {ev : AcceptEvent}

theorem acceptStep_move {p : AcceptPhase} (hs : acceptStep s i ev = some s') (hp : s.acceptor i = p) :
    AcceptMove s i s' p ev := by
  subst hp
  revert hs
  fun_cases acceptStep s i ev with
  | case1 _ hp =>
    intro hs
    obtain rfl := Option.some.inj hs
    rw [hp]
    split_ifs with hr
    · exact .goesOn hr rfl
    · exact .ends (by simpa using hr) rfl
  | case2 _ hp =>
    intro hs
    obtain rfl := Option.some.inj hs
    rw [hp]
    cases hsock : s.serverSocket with
    | none => exact .socketGone hsock rfl
    | some socket => exact .calls socket hsock rfl
  | case3 _ socket uidMatches hp hopen =>
    intro hs
    obtain rfl := Option.some.inj hs
    rw [hp]
    exact .accepts socket uidMatches hopen rfl
  | case5 _ socket hp => intro hs; obtain rfl := Option.some.inj hs; rw [hp]; exact .acceptFails socket rfl
  | case6 _ socket hp hfull => intro hs; obtain rfl := Option.some.inj hs; rw [hp]; exact .full socket hfull rfl
  | case7 _ socket hp hroom => intro hs; obtain rfl := Option.some.inj hs; rw [hp]; exact .serves socket hroom rfl
  | case8 _ socket hp hfull => intro hs; obtain rfl := Option.some.inj hs; rw [hp]; exact .closeFails socket hfull rfl
  | case4 | case9 | case10 => simp

theorem acceptStep_idle (hp : s.acceptor i = .absent ∨ s.acceptor i = .done) : acceptStep s i ev = none := by
  unfold acceptStep
  rcases hp with hp | hp <;> rw [hp]

theorem acceptStep_of_move {p : AcceptPhase} (h : AcceptMove s i s' p ev) (hp : s.acceptor i = p) :
    acceptStep s i ev = some s' := by
  unfold acceptStep
  rw [hp]
  cases h with
  | goesOn hr hs | ends hr hs => simp [hr, hs]
  | calls socket hopen hs | accepts socket uidMatches hopen hs => simp [hopen, hs]
  | socketGone hclosed hs => simp [hclosed, hs]
  | acceptFails socket hs => simp [hs]
  | full socket hfull hs | closeFails socket hfull hs => simp [hfull, hs]
  | serves socket hroom hs => simp [hroom, hs]

/-- The accept thread moves on, holding a connection only of an open socket, or
starts the worker of the connection it holds. -/
theorem acceptStep_cases (hs : acceptStep s i ev = some s') :
    (∃ p, s.acceptor i ≠ .absent ∧ s' = { s with acceptor := Function.update s.acceptor i p } ∧
      ∀ k, p = .accepted k → s.serverSocket = some k) ∨
    (∃ k, s.acceptor i = .accepted k ∧
      s' = { s with
        acceptor := Function.update s.acceptor i .test
        activeClients := s.activeClients + 1
        conn := Function.update s.conn s.conns ⟨.loop, k⟩
        conns := s.conns + 1 }) := by
  have hm := acceptStep_move hs rfl
  generalize s.acceptor i = p at hm
  cases hm with
  | accepts socket uidMatches hopen heq =>
    refine Or.inl ⟨_, by simp, heq, fun k hk => ?_⟩
    split_ifs at hk
    rw [hopen, AcceptPhase.accepted.inj hk]
  | serves socket hroom heq => exact Or.inr ⟨socket, rfl, heq⟩
  | goesOn _ heq | ends _ heq | calls _ _ heq | socketGone _ heq | acceptFails _ heq | full _ _ heq
  | closeFails _ _ heq => exact Or.inl ⟨_, by simp, heq, by simp⟩

end AcceptMoves

/-- A call of `addAndroidSecurityKey` replaces, then adds. -/
theorem askStep_cases {s s' : Server} {i : ℕ} (hs : askStep s i = some s') :
    (∃ key born, s.ask i = .replaceKey key born ∧
      s' = { s with
        keys := removeBlob s.keys key.blob
        ask := Function.update s.ask i (.addKey key born) }) ∨
    (∃ key born, s.ask i = .addKey key born ∧
      s' = { s with
        keys := s.keys ++ [key]
        emptied := addedBy born s.emptied
        ask := Function.update s.ask i .done }) := by
  unfold askStep at hs
  cases hp : s.ask i with
  | replaceKey key born =>
    simp only [hp, Option.some.injEq] at hs
    exact Or.inl ⟨key, born, rfl, hs.symm⟩
  | addKey key born =>
    simp only [hp, Option.some.injEq] at hs
    exact Or.inr ⟨key, born, rfl, hs.symm⟩
  | absent => simp [hp] at hs
  | done => simp [hp] at hs

theorem stopStep_cases {s s' : Server} (hs : stopStep s = some s') :
    (s.stopping = some .closing ∧ s' = { s with serverSocket := none, stopping := some .joining }) ∨
    (s.stopping = some .joining ∧ s' = { s with stopping := some .clearing }) ∨
    (s.stopping = some .clearing ∧
      s' = { s with keys := [], stopping := none, emptied := some s.incarnation }) := by
  unfold stopStep at hs
  cases hp : s.stopping with
  | none => simp [hp] at hs
  | some p =>
    cases p with
    | closing => simp only [hp, Option.some.injEq] at hs; exact Or.inl ⟨rfl, hs.symm⟩
    | joining => simp only [hp, Option.some.injEq] at hs; exact Or.inr (Or.inl ⟨rfl, hs.symm⟩)
    | clearing => simp only [hp, Option.some.injEq] at hs; exact Or.inr (Or.inr ⟨rfl, hs.symm⟩)

/-- `start()` of a running server, of a stopped one, and one that cannot bind its socket. -/
theorem step_start_cases {prov : Provider} {s s' : Server} {bound : Bool}
    (hs : step prov s (.start bound) = some s') :
    (s.running = true ∧ s' = s) ∨
    (s.running = false ∧ bound = true ∧
      s' = { s with
        serverSocket := some (s.incarnation + 1)
        locked := false
        running := true
        acceptor := Function.update s.acceptor s.acceptors .test
        acceptors := s.acceptors + 1
        incarnation := s.incarnation + 1 }) ∨
    (s.running = false ∧ bound = false ∧ s' = { s with serverSocket := none, running := false }) := by
  simp only [step, start] at hs
  split_ifs at hs with hstop hr hb
  · exact Or.inl ⟨hr, (Option.some.inj hs).symm⟩
  · exact Or.inr (Or.inl ⟨by simpa using hr, hb, (Option.some.inj hs).symm⟩)
  · exact Or.inr (Or.inr ⟨by simpa using hr, by simpa using hb, (Option.some.inj hs).symm⟩)

theorem step_stop_eq {prov : Provider} {s s' : Server} (hs : step prov s .stop = some s') :
    s' = { s with running := false, stopping := some .closing } := by
  simp only [step] at hs
  split_ifs at hs
  exact (Option.some.inj hs).symm

/-- A step that is no worker's leaves the connections as they are, or adds one. -/
theorem step_phase {prov : Provider} {s s' : Server} {a : Action} (ha : ∀ w ev, a ≠ .worker w ev)
    (hs : step prov s a = some s') (v : ℕ) :
    (s'.conn v).phase = (s.conn v).phase ∨ (v = s.conns ∧ (s'.conn v).phase = .loop) := by
  cases a with
  | start bound => rcases step_start_cases hs with ⟨-, rfl⟩ | ⟨-, -, rfl⟩ | ⟨-, -, rfl⟩ <;> exact Or.inl rfl
  | stop => obtain rfl := step_stop_eq hs; exact Or.inl rfl
  | stopStep => rcases stopStep_cases hs with ⟨-, rfl⟩ | ⟨-, rfl⟩ | ⟨-, rfl⟩ <;> exact Or.inl rfl
  | setLocked locked => obtain rfl := Option.some.inj hs; exact Or.inl rfl
  | accept i ev =>
    rcases acceptStep_cases hs with ⟨p, -, rfl, -⟩ | ⟨k, -, rfl⟩
    · exact Or.inl rfl
    · by_cases hv : v = s.conns
      · subst hv
        exact Or.inr ⟨rfl, by simp⟩
      · exact Or.inl (by simp [hv])
  | worker w ev => exact absurd rfl (ha w ev)
  | ask key => obtain rfl := Option.some.inj hs; exact Or.inl rfl
  | askStep i => rcases askStep_cases hs with ⟨_, _, -, rfl⟩ | ⟨_, _, -, rfl⟩ <;> exact Or.inl rfl

/-- Only workers write to clients. -/
theorem step_sent {prov : Provider} {s s' : Server} {a : Action} (ha : ∀ w ev, a ≠ .worker w ev)
    (hs : step prov s a = some s') : s'.sent = s.sent := by
  cases a with
  | start bound => rcases step_start_cases hs with ⟨-, rfl⟩ | ⟨-, -, rfl⟩ | ⟨-, -, rfl⟩ <;> rfl
  | stop => obtain rfl := step_stop_eq hs; rfl
  | stopStep => rcases stopStep_cases hs with ⟨-, rfl⟩ | ⟨-, rfl⟩ | ⟨-, rfl⟩ <;> rfl
  | setLocked locked => obtain rfl := Option.some.inj hs; rfl
  | accept i ev => rcases acceptStep_cases hs with ⟨p, -, rfl, -⟩ | ⟨k, -, rfl⟩ <;> rfl
  | worker w ev => exact absurd rfl (ha w ev)
  | ask key => obtain rfl := Option.some.inj hs; rfl
  | askStep i => rcases askStep_cases hs with ⟨_, _, -, rfl⟩ | ⟨_, _, -, rfl⟩ <;> rfl

/-- Threads that were not started yet are absent. -/
structure Allocated (s : Server) : Prop where
  conn : ∀ w, s.conns ≤ w → (s.conn w).phase = .absent
  acceptor : ∀ i, s.acceptors ≤ i → s.acceptor i = .absent
  ask : ∀ i, s.asks ≤ i → s.ask i = .absent

/-- Only an existing connection moves. -/
theorem Allocated.conn_lt {prov : Provider} {s : Server} {w born : ℕ} {ev : WorkerEvent} {e : Effect}
    (h : Allocated s) (he : advance prov s born (s.conn w).phase ev = some e) : w < s.conns := by
  by_contra hge
  rw [h.conn w (by omega)] at he
  simp [advance] at he

private theorem update_absent {β : Type*} {f : ℕ → β} {absent b : β} {n i : ℕ}
    (h : ∀ j, n ≤ j → f j = absent) (hi : f i ≠ absent) : ∀ j, n ≤ j → Function.update f i b j = absent := by
  intro j hj
  have hne : j ≠ i := fun hji => hi (hji ▸ h j hj)
  simpa [hne] using h j hj

private theorem update_absent_succ {β : Type*} {f : ℕ → β} {absent b : β} {n : ℕ}
    (h : ∀ j, n ≤ j → f j = absent) : ∀ j, n + 1 ≤ j → Function.update f n b j = absent := by
  intro j hj
  have hne : j ≠ n := by omega
  simpa [hne] using h j (by omega)

theorem step_allocated {prov : Provider} {s s' : Server} {a : Action} (h : Allocated s)
    (hs : step prov s a = some s') : Allocated s' := by
  cases a with
  | start bound =>
    rcases step_start_cases hs with ⟨-, rfl⟩ | ⟨-, -, rfl⟩ | ⟨-, -, rfl⟩
    · exact h
    · exact ⟨h.conn, update_absent_succ h.acceptor, h.ask⟩
    · exact ⟨h.conn, h.acceptor, h.ask⟩
  | stop => obtain rfl := step_stop_eq hs; exact ⟨h.conn, h.acceptor, h.ask⟩
  | stopStep => rcases stopStep_cases hs with ⟨-, rfl⟩ | ⟨-, rfl⟩ | ⟨-, rfl⟩ <;> exact ⟨h.conn, h.acceptor, h.ask⟩
  | setLocked locked => obtain rfl := Option.some.inj hs; exact ⟨h.conn, h.acceptor, h.ask⟩
  | accept i ev =>
    rcases acceptStep_cases hs with ⟨p, hi, rfl, -⟩ | ⟨k, hi, rfl⟩
    · exact ⟨h.conn, update_absent h.acceptor hi, h.ask⟩
    · refine ⟨fun w hw => ?_, update_absent h.acceptor (by simp [hi]), h.ask⟩
      have hlt : s.conns < w := hw
      simpa [hlt.ne'] using h.conn w hlt.le
  | worker w ev =>
    obtain ⟨e, he, rfl⟩ := workerStep_cases hs
    refine ⟨fun v hv => ?_, h.acceptor, h.ask⟩
    have hlt : w < v := (h.conn_lt he).trans_le hv
    simpa [Server.commit, hlt.ne'] using h.conn v hv
  | ask key => obtain rfl := Option.some.inj hs; exact ⟨h.conn, h.acceptor, update_absent_succ h.ask⟩
  | askStep i =>
    rcases askStep_cases hs with ⟨_, _, hi, rfl⟩ | ⟨_, _, hi, rfl⟩ <;>
      exact ⟨h.conn, h.acceptor, update_absent h.ask (by simp [hi])⟩

theorem run_allocated {prov : Provider} {counters : JString → ℤ} {ok : Server → Action → Prop}
    {acts : List Action} {s : Server} (h : Runs.Run (Server.init counters) (step prov) ok acts s) :
    Allocated s :=
  h.inv Allocated ⟨fun _ _ => rfl, fun _ _ => rfl, fun _ _ => rfl⟩ fun _ _ _ hi _ hs => step_allocated hi hs

/-- A provider that accepts every key. -/
def laxProvider : Provider := ⟨fun _ => true, fun _ _ _ => none⟩

/-- One client is connected and its worker waits for a request. -/
def connectOne : List Action :=
  [.start true, .accept 0 .run, .accept 0 .run, .accept 0 (.accept true), .accept 0 .run, .worker 0 .run]

end Tinyhack.Agent
