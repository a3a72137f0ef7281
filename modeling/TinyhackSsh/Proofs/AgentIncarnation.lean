import TinyhackSsh.Proofs.AgentSteps

/-! Connections across `stop()` and `start()`. `stop()` leaves the accepted
clients connected, and their workers test the one `running` flag that the next
`start()` sets again. Connections stay with the keys of their own incarnation,
and a stopped server stays empty, in every run in which `start()` finds the old
connections gone and `stop()` clears the keys when nobody can add one any more. -/

namespace Tinyhack.Agent

open Runs

def Phase.live : Phase → Bool
  | .absent | .done => false
  | _ => true

/-- The next step reads or changes the key list. -/
def Phase.usesKeys : Phase → Bool
  | .countKeys | .listKeys _ | .replaceKey _ | .addKey _ | .removeKey _ | .clearKeys | .findKey _ _ _ => true
  | _ => false

def addRequest (message : Bytes) : Bool :=
  message.headD 0 = SSH_AGENTC_ADD_IDENTITY || message.headD 0 = SSH_AGENTC_ADD_ID_CONSTRAINED

/-- The worker can add a key without testing `running` again. -/
def Phase.mayAdd : Phase → Bool
  | .reading | .replaceKey _ | .addKey _ => true
  | .received message => addRequest message
  | _ => false

def AskPhase.mayAdd : AskPhase → Bool
  | .replaceKey _ _ | .addKey _ _ => true
  | _ => false

def AcceptPhase.holdsClient : AcceptPhase → Bool
  | .accepted _ => true
  | _ => false

/-- A `start()` that opens a new incarnation finds no client of the old one, a
`stop()` clears the keys when no add is possible any more, and
`addAndroidSecurityKey` is called on a running server. -/
def IncarnationOk (s : Server) : Action → Prop
  | .start true => s.running = true ∨
      ((∀ w < s.conns, (s.conn w).phase.live = false) ∧ ∀ i < s.acceptors, (s.acceptor i).holdsClient = false)
  | .stopStep => s.stopping = some .clearing →
      (∀ w < s.conns, (s.conn w).phase.mayAdd = false) ∧ ∀ i < s.asks, (s.ask i).mayAdd = false
  | .ask _ => s.running = true
  | _ => True

instance (s : Server) : ∀ a, Decidable (IncarnationOk s a)
  | .start true => inferInstanceAs (Decidable (s.running = true ∨ _))
  | .stopStep => inferInstanceAs (Decidable (s.stopping = some .clearing → _))
  | .ask _ => inferInstanceAs (Decidable (s.running = true))
  | .start false | .stop | .setLocked _ | .accept _ _ | .worker _ _ | .askStep _ => isTrue trivial

theorem Phase.live_of_usesKeys {p : Phase} (h : p.usesKeys = true) : p.live = true := by
  cases p <;> first | rfl | cases h

theorem advance_live {prov : Provider} {s : Server} {born : ℕ} {p : Phase} {ev : WorkerEvent} {e : Effect}
    (h : advance prov s born p ev = some e) : p.live = true := by
  cases p with
  | absent => simp [advance] at h
  | done => simp [advance] at h
  | _ => rfl

/-- A request other than an add does not become one. -/
theorem dispatch_mayAdd {prov : Provider} {message : Bytes} (h : (dispatch prov message).mayAdd = true) :
    addRequest message = true := by
  by_contra hadd
  have hne : message.headD 0 ≠ SSH_AGENTC_ADD_IDENTITY ∧ message.headD 0 ≠ SSH_AGENTC_ADD_ID_CONSTRAINED := by
    simpa [addRequest] using hadd
  simp only [dispatch, if_neg hne.1, if_neg hne.2] at h
  split_ifs at h
  · cases h
  · cases hm : parseRemove message <;> simp [hm, Phase.mayAdd] at h
  · cases h
  · cases hm : parseSign message <;> simp [hm, Phase.mayAdd] at h
  · cases h

/-- A worker gets to where it can add a key only by finding `running` set. -/
theorem advance_mayAdd {prov : Provider} {s : Server} {born : ℕ} {p : Phase} {ev : WorkerEvent} {e : Effect}
    (h : advance prov s born p ev = some e) (he : e.phase.mayAdd = true) :
    p.mayAdd = true ∨ s.running = true := by
  cases advance_move h with
  | recv | readFails | replaced | added => exact Or.inl rfl
  | goesOn hr => exact Or.inr hr
  | dispatched message => exact Or.inl (dispatch_mayAdd he)
  -- everywhere else a worker goes on to its answer, its next signing attempt or the loop
  | _ => cases he

theorem removeBlob_nil (blob : Bytes) : removeBlob [] blob = [] := rfl

/-- Only the step of `addKey` can end the emptiness of the key list. -/
theorem advance_keys {prov : Provider} {s : Server} {born : ℕ} {p : Phase} {ev : WorkerEvent} {e : Effect}
    (h : advance prov s born p ev = some e) :
    (p.mayAdd = true ∧ e.emptied = addedBy born s.emptied) ∨
    (e.emptied = s.emptied ∧ (s.keys = [] → e.keys = [])) := by
  cases advance_move h with
  | added => exact Or.inl ⟨rfl, rfl⟩
  | replaced | removed => exact Or.inr ⟨rfl, fun hk => by simp [hk, removeBlob_nil]⟩
  | cleared => exact Or.inr ⟨rfl, fun _ => rfl⟩
  | _ => exact Or.inr ⟨rfl, id⟩

/-- Whoever can reach the keys belongs to the current incarnation. -/
structure Owned (s : Server) : Prop where
  conn : ∀ w, (s.conn w).phase.live = true → (s.conn w).born = s.incarnation
  acceptor : ∀ i k, s.acceptor i = .accepted k → k = s.incarnation
  socket : ∀ k, s.serverSocket = some k → k = s.incarnation

theorem step_owned {prov : Provider} {s s' : Server} {a : Action} (h : Owned s) (hal : Allocated s)
    (hok : IncarnationOk s a) (hs : step prov s a = some s') : Owned s' := by
  cases a with
  | start bound =>
    rcases step_start_cases hs with ⟨-, rfl⟩ | ⟨hr, rfl, rfl⟩ | ⟨-, -, rfl⟩
    · exact h
    · obtain ⟨hconn, hacc⟩ := hok.resolve_left (by simp [hr])
      refine ⟨fun w hw => ?_, fun i k hi => ?_, fun k hk => (Option.some.inj hk).symm⟩
      · -- every connection of the old incarnation is gone
        exfalso
        by_cases hlt : w < s.conns
        · simp [hconn w hlt] at hw
        · simp [hal.conn w (by omega), Phase.live] at hw
      · exfalso
        by_cases hlt : i < s.acceptors
        · have hi' : s.acceptor i = .accepted k := by simpa [hlt.ne] using hi
          have hclear := hacc i hlt
          simp [hi', AcceptPhase.holdsClient] at hclear
        · by_cases heq : i = s.acceptors
          · simp [heq] at hi
          · simp [heq, hal.acceptor i (by omega)] at hi
    · exact ⟨h.conn, h.acceptor, by simp⟩
  | stop => obtain rfl := step_stop_eq hs; exact ⟨h.conn, h.acceptor, h.socket⟩
  | stopStep =>
    rcases stopStep_cases hs with ⟨-, rfl⟩ | ⟨-, rfl⟩ | ⟨-, rfl⟩
    · exact ⟨h.conn, h.acceptor, by simp⟩
    · exact ⟨h.conn, h.acceptor, h.socket⟩
    · exact ⟨h.conn, h.acceptor, h.socket⟩
  | setLocked locked => obtain rfl := Option.some.inj hs; exact ⟨h.conn, h.acceptor, h.socket⟩
  | accept i ev =>
    rcases acceptStep_cases hs with ⟨p, -, rfl, hp⟩ | ⟨k, hk, rfl⟩
    · refine ⟨h.conn, fun j k hj => ?_, h.socket⟩
      by_cases hji : j = i
      · subst hji
        exact h.socket k (hp k (by simpa using hj))
      · exact h.acceptor j k (by simpa [hji] using hj)
    · refine ⟨fun w hw => ?_, fun j k' hj => ?_, h.socket⟩
      · by_cases hwc : w = s.conns
        · subst hwc
          simpa using h.acceptor i k hk
        · simpa [hwc] using h.conn w (by simpa [hwc] using hw)
      · by_cases hji : j = i
        · simp [hji] at hj
        · exact h.acceptor j k' (by simpa [hji] using hj)
  | worker w ev =>
    obtain ⟨e, he, rfl⟩ := workerStep_cases hs
    refine ⟨fun v hv => ?_, h.acceptor, h.socket⟩
    by_cases hvw : v = w
    · subst hvw
      simpa [Server.commit] using h.conn v (advance_live he)
    · simpa [Server.commit, hvw] using h.conn v (by simpa [Server.commit, hvw] using hv)
  | ask key => obtain rfl := Option.some.inj hs; exact ⟨h.conn, h.acceptor, h.socket⟩
  | askStep i =>
    rcases askStep_cases hs with ⟨_, _, -, rfl⟩ | ⟨_, _, -, rfl⟩ <;> exact ⟨h.conn, h.acceptor, h.socket⟩

/-- A `stop()` in progress has cleared the flag. -/
theorem step_stopping {prov : Provider} {s s' : Server} {a : Action} (h : s.stopping ≠ none → s.running = false)
    (hs : step prov s a = some s') : s'.stopping ≠ none → s'.running = false := by
  cases a with
  | start bound =>
    have hn : s.stopping = none := by
      by_contra hn
      simp [step, hn] at hs
    rcases step_start_cases hs with ⟨-, rfl⟩ | ⟨-, -, rfl⟩ | ⟨-, -, rfl⟩ <;> exact fun hne => absurd hn hne
  | stop => obtain rfl := step_stop_eq hs; exact fun _ => rfl
  | stopStep =>
    rcases stopStep_cases hs with ⟨hp, rfl⟩ | ⟨hp, rfl⟩ | ⟨-, rfl⟩
    · exact fun _ => h (by simp [hp])
    · exact fun _ => h (by simp [hp])
    · exact fun hne => absurd rfl hne
  | setLocked locked => obtain rfl := Option.some.inj hs; exact h
  | accept i ev => rcases acceptStep_cases hs with ⟨p, -, rfl, -⟩ | ⟨k, -, rfl⟩ <;> exact h
  | worker w ev => obtain ⟨e, he, rfl⟩ := workerStep_cases hs; exact h
  | ask key => obtain rfl := Option.some.inj hs; exact h
  | askStep i => rcases askStep_cases hs with ⟨_, _, -, rfl⟩ | ⟨_, _, -, rfl⟩ <;> exact h

def AskPhase.born : AskPhase → ℕ
  | .replaceKey _ born | .addKey _ born => born
  | _ => 0

/-- After a `stop()` of incarnation `k`: no key, and whoever can add one is of a
later incarnation. -/
structure Emptied (s : Server) (k : ℕ) : Prop where
  keys : s.keys = []
  le : k ≤ s.incarnation
  running : s.running = true → k < s.incarnation
  conn : ∀ w, (s.conn w).phase.mayAdd = true → k < (s.conn w).born
  ask : ∀ i, (s.ask i).mayAdd = true → k < (s.ask i).born

theorem addedBy_eq_some {born k : ℕ} {emptied : Option ℕ} (h : addedBy born emptied = some k) :
    emptied = some k ∧ ¬ k < born := by
  cases emptied with
  | none => cases h
  | some j =>
    simp only [addedBy] at h
    split_ifs at h with hlt
    obtain rfl := Option.some.inj h
    exact ⟨rfl, hlt⟩

/-- `keys.clear()` at the end of `stop()`, when nobody is left who can add. -/
theorem emptied_of_stopped {s : Server} (hal : Allocated s) (hr : s.running = false)
    (hconn : ∀ w < s.conns, (s.conn w).phase.mayAdd = false) (hask : ∀ i < s.asks, (s.ask i).mayAdd = false) :
    Emptied { s with keys := [], stopping := none, emptied := some s.incarnation } s.incarnation := by
  refine ⟨rfl, le_refl _, fun hrun => ?_, fun w hw => ?_, fun i hi => ?_⟩
  · simp [hr] at hrun
  · by_cases hlt : w < s.conns
    · simp [hconn w hlt] at hw
    · simp [hal.conn w (by omega), Phase.mayAdd] at hw
  · by_cases hlt : i < s.asks
    · simp [hask i hlt] at hi
    · simp [hal.ask i (by omega), AskPhase.mayAdd] at hi

theorem Emptied.worker {prov : Provider} {s : Server} {k w : ℕ} {ev : WorkerEvent} {e : Effect} (h : Emptied s k)
    (how : Owned s) (he : advance prov s (s.conn w).born (s.conn w).phase ev = some e) (hkeys : e.keys = []) :
    Emptied (s.commit w e) k := by
  refine ⟨hkeys, h.le, h.running, fun v hv => ?_, h.ask⟩
  by_cases hvw : v = w
  · subst hvw
    have hborn : k < (s.conn v).born := by
      rcases advance_mayAdd he (by simpa [Server.commit] using hv) with hp | hr
      · exact h.conn v hp
      · rw [how.conn v (advance_live he)]
        exact h.running hr
    simpa [Server.commit] using hborn
  · simpa [Server.commit, hvw] using h.conn v (by simpa [Server.commit, hvw] using hv)

theorem step_emptied {prov : Provider} {s s' : Server} {a : Action} (h : ∀ k, s.emptied = some k → Emptied s k)
    (hal : Allocated s) (how : Owned s) (hst : s.stopping ≠ none → s.running = false)
    (hok : IncarnationOk s a) (hs : step prov s a = some s') : ∀ k, s'.emptied = some k → Emptied s' k := by
  intro k hk
  cases a with
  | start bound =>
    rcases step_start_cases hs with ⟨-, rfl⟩ | ⟨-, -, rfl⟩ | ⟨-, -, rfl⟩
    · exact h k hk
    · have hlt : k < s.incarnation + 1 := Nat.lt_succ_of_le (h k hk).le
      exact ⟨(h k hk).keys, hlt.le, fun _ => hlt, (h k hk).conn, (h k hk).ask⟩
    · exact ⟨(h k hk).keys, (h k hk).le, by simp, (h k hk).conn, (h k hk).ask⟩
  | stop =>
    obtain rfl := step_stop_eq hs
    exact ⟨(h k hk).keys, (h k hk).le, by simp, (h k hk).conn, (h k hk).ask⟩
  | stopStep =>
    rcases stopStep_cases hs with ⟨-, rfl⟩ | ⟨-, rfl⟩ | ⟨hp, rfl⟩
    · obtain ⟨hkeys, hle, hrun, hconn, hask⟩ := h k hk
      exact ⟨hkeys, hle, hrun, hconn, hask⟩
    · obtain ⟨hkeys, hle, hrun, hconn, hask⟩ := h k hk
      exact ⟨hkeys, hle, hrun, hconn, hask⟩
    · obtain ⟨hconn, hask⟩ := hok hp
      obtain rfl := Option.some.inj hk
      exact emptied_of_stopped hal (hst (by simp [hp])) hconn hask
  | setLocked locked =>
    obtain rfl := Option.some.inj hs
    exact ⟨(h k hk).keys, (h k hk).le, (h k hk).running, (h k hk).conn, (h k hk).ask⟩
  | accept i ev =>
    rcases acceptStep_cases hs with ⟨p, -, rfl, -⟩ | ⟨j, -, rfl⟩
    · exact ⟨(h k hk).keys, (h k hk).le, (h k hk).running, (h k hk).conn, (h k hk).ask⟩
    · refine ⟨(h k hk).keys, (h k hk).le, (h k hk).running, fun w hw => ?_, (h k hk).ask⟩
      by_cases hwc : w = s.conns
      · simp [hwc, Phase.mayAdd] at hw
      · simpa [hwc] using (h k hk).conn w (by simpa [hwc] using hw)
  | worker w ev =>
    obtain ⟨e, he, rfl⟩ := workerStep_cases hs
    rcases advance_keys he with ⟨hadd, hemp⟩ | ⟨hemp, hkeys⟩
    · obtain ⟨hold, hnlt⟩ := addedBy_eq_some (hemp.symm.trans hk)
      exact absurd ((h k hold).conn w hadd) hnlt
    · have hold := h k (hemp.symm.trans hk)
      exact hold.worker how he (hkeys hold.keys)
  | ask key =>
    obtain rfl := Option.some.inj hs
    refine ⟨(h k hk).keys, (h k hk).le, (h k hk).running, (h k hk).conn, fun i hi => ?_⟩
    by_cases hia : i = s.asks
    · subst hia
      simpa [AskPhase.born] using (h k hk).running hok
    · simpa [hia] using (h k hk).ask i (by simpa [hia] using hi)
  | askStep i =>
    rcases askStep_cases hs with ⟨key, born, hi, rfl⟩ | ⟨key, born, hi, rfl⟩
    · have hold := h k hk
      refine ⟨by simp [hold.keys, removeBlob_nil], hold.le, hold.running, hold.conn, fun j hj => ?_⟩
      by_cases hji : j = i
      · subst hji
        simpa [hi, AskPhase.born] using hold.ask j (by simp [hi, AskPhase.mayAdd])
      · simpa [hji] using hold.ask j (by simpa [hji] using hj)
    · obtain ⟨hold, hnlt⟩ := addedBy_eq_some hk
      have hborn := (h k hold).ask i (by simp [hi, AskPhase.mayAdd])
      simp only [hi, AskPhase.born] at hborn
      exact absurd hborn hnlt

theorem run_owned {prov : Provider} {counters : JString → ℤ} {acts : List Action} {s : Server}
    (h : Run (Server.init counters) (step prov) IncarnationOk acts s) : Owned s := by
  induction h with
  | nil => exact ⟨by simp [Server.init, Phase.live], by simp [Server.init], by simp [Server.init]⟩
  | snoc hrun hok hs ih => exact step_owned ih (run_allocated hrun) hok hs

theorem run_stopping {prov : Provider} {counters : JString → ℤ} {ok : Server → Action → Prop}
    {acts : List Action} {s : Server} (h : Run (Server.init counters) (step prov) ok acts s) :
    s.stopping ≠ none → s.running = false :=
  h.inv (fun s => s.stopping ≠ none → s.running = false) (fun _ => rfl) fun _ _ _ hi _ hs => step_stopping hi hs

theorem run_emptied {prov : Provider} {counters : JString → ℤ} {acts : List Action} {s : Server}
    (h : Run (Server.init counters) (step prov) IncarnationOk acts s) :
    ∀ k, s.emptied = some k → Emptied s k := by
  induction h with
  | nil => simp [Server.init]
  | snoc hrun hok hs ih => exact step_emptied ih (run_allocated hrun) (run_owned hrun) (run_stopping hrun) hok hs

/-- A connection about to read or change the keys was accepted by the current
incarnation, and a stopped server has no keys until the next incarnation adds one,
in every run that meets the condition. -/
theorem incarnations_apart (prov : Provider) (counters : JString → ℤ) (acts : List Action) (s : Server)
    (h : Run (Server.init counters) (step prov) IncarnationOk acts s) :
    (∀ w, (s.conn w).phase.usesKeys = true → (s.conn w).born = s.incarnation) ∧
    (∀ k, s.emptied = some k → s.keys = []) :=
  ⟨fun w hw => (run_owned h).conn w (Phase.live_of_usesKeys hw), fun k hk => (run_emptied h k hk).keys⟩

def stopCompletely : List Action := [.stop, .stopStep, .stopStep, .stopStep]

/-- The client leaves before the restart; a new client asks for the list. -/
def politeRestart : List Action :=
  connectOne ++ [Action.worker 0 .disconnect] ++ stopCompletely ++
  [Action.start true, .accept 1 .run, .accept 1 .run, .accept 1 (.accept true), .accept 1 .run, .worker 1 .run,
   .worker 1 (.recv [SSH_AGENTC_REQUEST_IDENTITIES]), .worker 1 .run]

theorem incarnations_apart_restart : ∃ s,
    Run (Server.init fun _ => 0) (step laxProvider) IncarnationOk politeRestart s ∧
    ((s.conn 1).phase.usesKeys = true ∧ s.emptied = some 1) ∧ (s.conn 1).born = s.incarnation ∧ s.keys = [] := by
  have hrun : ∃ s, Run (Server.init fun _ => 0) (step laxProvider) IncarnationOk politeRestart s ∧
      (s.conn 1).phase.usesKeys = true ∧ s.emptied = some 1 := exists_run_of_exec (by decide)
  obtain ⟨s, hrun, huses, hemp⟩ := hrun
  obtain ⟨hborn, hkeys⟩ := incarnations_apart _ _ _ _ hrun
  exact ⟨s, hrun, ⟨huses, hemp⟩, hborn 1 huses, hkeys 1 hemp⟩

/-- The old client stays connected over the restart and asks for the list. -/
def listAfterRestart : List Action :=
  connectOne ++ stopCompletely ++
  [Action.start true, .worker 0 (.recv [SSH_AGENTC_REQUEST_IDENTITIES]), .worker 0 .run]

def addEd25519 : Bytes :=
  SSH_AGENTC_ADD_IDENTITY :: (Wire.writeString (Wire.encodeUtf8 "ssh-ed25519".toList) ++
    Wire.writeString (List.replicate 32 1) ++ Wire.writeString (List.replicate 32 2) ++ Wire.writeString [])

/-- The old client stays connected over `stop()` and adds a key. -/
def addAfterStop : List Action :=
  connectOne ++ stopCompletely ++ [Action.worker 0 (.recv addEd25519), .worker 0 .run, .worker 0 .run, .worker 0 .run]

theorem old_connection_outlives_stop :
    (∃ s, Run (Server.init fun _ => 0) (step laxProvider) anyStep listAfterRestart s ∧
      (s.conn 0).phase.usesKeys = true ∧ (s.conn 0).born < s.incarnation) ∧
    (∃ s, Run (Server.init fun _ => 0) (step laxProvider) anyStep addAfterStop s ∧
      s.emptied = some 1 ∧ s.keys ≠ []) :=
  ⟨exists_run_of_exec (by decide), exists_run_of_exec (by decide)⟩

end Tinyhack.Agent
