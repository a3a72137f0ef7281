import TinyhackSsh.Proofs.AgentSteps

/-! The agent's lock. A worker reads `locked` once, before the `switch`; a
request that saw `false` goes on to sign, list or change keys whatever
`setLocked` does meanwhile. The lock is respected in every run in which
`setLocked(true)` is called while no such request is under way. -/

namespace Tinyhack.Agent

open Runs

/-- IDENTITIES_ANSWER or SIGN_RESPONSE. -/
def isAnswer (payload : Bytes) : Bool :=
  payload.head? = some SSH_AGENT_IDENTITIES_ANSWER || payload.head? = some SSH_AGENT_SIGN_RESPONSE

/-- The request has passed the lock check and may still send such an answer or
change the key list. -/
def Phase.pastCheck : Phase → Bool
  | .countKeys | .listKeys _ | .replaceKey _ | .addKey _ | .removeKey _ | .clearKeys
  | .findKey _ _ _ | .signing _ _ _ | .awaitAuth _ _ | .takeCounter _ _ _ | .skSign _ _ _ _ => true
  | .reply payload => isAnswer payload
  | _ => false

/-- The argument of the last `setLocked` call. -/
def lockedAfter (acts : List Action) : Bool :=
  acts.foldl (fun b a => match a with
    | .setLocked locked => locked
    | _ => b) false

theorem lockedAfter_snoc (acts : List Action) (a : Action) :
    lockedAfter (acts ++ [a]) = match a with
      | .setLocked locked => locked
      | _ => lockedAfter acts := by
  rw [lockedAfter, List.foldl_append]
  cases a <;> rfl

/-- `setLocked(true)` finds no request past its check, and a locked server is not
restarted, which would clear the flag. -/
def LockOk (s : Server) : Action → Prop
  | .setLocked true => ∀ w < s.conns, (s.conn w).phase.pastCheck = false
  | .start true => s.running = true ∨ s.locked = false
  | _ => True

instance (s : Server) : ∀ a, Decidable (LockOk s a)
  | .setLocked true => inferInstanceAs (Decidable (∀ w < s.conns, (s.conn w).phase.pastCheck = false))
  | .start true => inferInstanceAs (Decidable (s.running = true ∨ s.locked = false))
  | .setLocked false | .start false | .stop | .stopStep | .accept _ _ | .worker _ _ | .ask _ | .askStep _ =>
    isTrue trivial

/-- Under the lock a request that has not passed its check never passes it: the
worker's step answers FAILURE at most and leaves the keys alone. -/
theorem advance_locked {prov : Provider} {s : Server} {born : ℕ} {p : Phase} {ev : WorkerEvent} {e : Effect}
    (h : advance prov s born p ev = some e) (hp : p.pastCheck = false) (hl : s.locked = true) :
    e.phase.pastCheck = false ∧ e.keys = s.keys ∧ ∀ payload ∈ e.sent, isAnswer payload = false := by
  cases advance_move h with
  | goesOn | ends | flushFails | recv | readFails | refused | writeFails | failureFails =>
    exact ⟨rfl, rfl, by simp [Server.goto]⟩
  -- the check itself
  | dispatched message hunlocked => simp [hl] at hunlocked
  | sent payload =>
    refine ⟨rfl, rfl, fun sent hsent => ?_⟩
    obtain rfl := Option.some.inj hsent
    exact hp
  | failureSent =>
    refine ⟨rfl, rfl, fun sent hsent => ?_⟩
    obtain rfl := Option.some.inj hsent
    rfl
  | _ => cases hp

/-- Under the lock no request is past its check. -/
def Silent (s : Server) : Prop := s.locked = true → ∀ w, (s.conn w).phase.pastCheck = false

theorem Silent.congr {s s' : Server} (h : Silent s) (h1 : s'.conn = s.conn) (h2 : s'.locked = s.locked) :
    Silent s' := by
  intro hl w
  rw [h1]
  exact h (h2 ▸ hl) w

theorem step_silent {prov : Provider} {s s' : Server} {a : Action} (h : Silent s) (hal : Allocated s)
    (hok : LockOk s a) (hs : step prov s a = some s') : Silent s' := by
  cases a with
  | start bound =>
    rcases step_start_cases hs with ⟨-, rfl⟩ | ⟨-, -, rfl⟩ | ⟨-, -, rfl⟩
    · exact h
    · intro hl
      cases hl
    · exact h.congr rfl rfl
  | stop => obtain rfl := step_stop_eq hs; exact h.congr rfl rfl
  | stopStep => rcases stopStep_cases hs with ⟨-, rfl⟩ | ⟨-, rfl⟩ | ⟨-, rfl⟩ <;> exact h.congr rfl rfl
  | setLocked locked =>
    obtain rfl := Option.some.inj hs
    intro hl w
    obtain rfl : locked = true := hl
    by_cases hw : w < s.conns
    · exact hok w hw
    · change (s.conn w).phase.pastCheck = false
      rw [hal.conn w (by omega)]
      rfl
  | accept i ev =>
    rcases acceptStep_cases hs with ⟨p, -, rfl, -⟩ | ⟨k, -, rfl⟩
    · exact h.congr rfl rfl
    · intro hl w
      by_cases hw : w = s.conns
      · subst hw
        simp [Phase.pastCheck]
      · simpa [hw] using h hl w
  | worker w ev =>
    obtain ⟨e, he, rfl⟩ := workerStep_cases hs
    intro hl v
    by_cases hvw : v = w
    · subst hvw
      simpa [Server.commit] using (advance_locked he (h hl v) hl).1
    · simpa [Server.commit, hvw] using h hl v
  | ask key => obtain rfl := Option.some.inj hs; exact h.congr rfl rfl
  | askStep i => rcases askStep_cases hs with ⟨_, _, -, rfl⟩ | ⟨_, _, -, rfl⟩ <;> exact h.congr rfl rfl

/-- The flag is what the last `setLocked` call made it. -/
theorem step_locked {prov : Provider} {s s' : Server} {a : Action} {acts : List Action}
    (h : s.locked = lockedAfter acts) (hok : LockOk s a) (hs : step prov s a = some s') :
    s'.locked = lockedAfter (acts ++ [a]) := by
  rw [lockedAfter_snoc]
  cases a with
  | start bound =>
    rcases step_start_cases hs with ⟨-, rfl⟩ | ⟨hr, rfl, rfl⟩ | ⟨-, -, rfl⟩
    · exact h
    · have hunlocked : s.locked = false := hok.resolve_left (by simp [hr])
      exact hunlocked.symm.trans h
    · exact h
  | stop => obtain rfl := step_stop_eq hs; exact h
  | stopStep => rcases stopStep_cases hs with ⟨-, rfl⟩ | ⟨-, rfl⟩ | ⟨-, rfl⟩ <;> exact h
  | setLocked locked => obtain rfl := Option.some.inj hs; rfl
  | accept i ev => rcases acceptStep_cases hs with ⟨p, -, rfl, -⟩ | ⟨k, -, rfl⟩ <;> exact h
  | worker w ev => obtain ⟨e, he, rfl⟩ := workerStep_cases hs; exact h
  | ask key => obtain rfl := Option.some.inj hs; exact h
  | askStep i => rcases askStep_cases hs with ⟨_, _, -, rfl⟩ | ⟨_, _, -, rfl⟩ <;> exact h

theorem run_silent {prov : Provider} {counters : JString → ℤ} {acts : List Action} {s : Server}
    (h : Run (Server.init counters) (step prov) LockOk acts s) : Silent s ∧ s.locked = lockedAfter acts := by
  induction h with
  | nil =>
    refine ⟨fun hl => ?_, rfl⟩
    cases hl
  | snoc hrun hok hs ih =>
    exact ⟨step_silent ih.1 (run_allocated hrun) hok hs, step_locked ih.2 hok hs⟩

/-- Between `setLocked(true)` and the next `setLocked(false)` no IDENTITIES_ANSWER
or SIGN_RESPONSE is sent and no request changes the keys, in every run in which
`setLocked(true)` finds no request past its check. -/
theorem lock_holds (prov : Provider) (counters : JString → ℤ) (acts : List Action) (s s' : Server) (a : Action)
    (h : Run (Server.init counters) (step prov) LockOk acts s) (hl : lockedAfter acts = true)
    (hs : step prov s a = some s') :
    (∃ new, s'.sent = s.sent ++ new ∧ ∀ m ∈ new, isAnswer m.2 = false) ∧
    (∀ w ev, a = .worker w ev → s'.keys = s.keys) := by
  obtain ⟨hsilent, hflag⟩ := run_silent h
  have hlocked : s.locked = true := hflag.trans hl
  by_cases hw : ∃ w ev, a = .worker w ev
  · obtain ⟨w, ev, rfl⟩ := hw
    obtain ⟨e, he, rfl⟩ := workerStep_cases hs
    obtain ⟨-, hkeys, hsent⟩ := advance_locked he (hsilent hlocked w) hlocked
    refine ⟨⟨_, rfl, fun m hm => ?_⟩, fun _ _ _ => hkeys⟩
    obtain ⟨payload, hp, rfl⟩ := by simpa using hm
    exact hsent payload hp
  · have hsent : s'.sent = s.sent := step_sent (fun w ev ha => hw ⟨w, ev, ha⟩) hs
    exact ⟨⟨[], by simp [hsent], by simp⟩, fun w ev ha => absurd ⟨w, ev, ha⟩ hw⟩

/-- A provider without any algorithm; security keys do not need one. -/
def noProvider : Provider := ⟨fun _ => false, fun _ _ _ => none⟩

/-- A listing asked for under the lock is refused. -/
def lockThenList : List Action :=
  connectOne ++ [.setLocked true, .worker 0 (.recv [SSH_AGENTC_REQUEST_IDENTITIES]), .worker 0 .run]

theorem lock_holds_listing : ∃ s s',
    Run (Server.init fun _ => 0) (step noProvider) LockOk lockThenList s ∧ lockedAfter lockThenList = true ∧
    step noProvider s (.worker 0 (.write true)) = some s' ∧ s'.sent = [(0, [SSH_AGENT_FAILURE])] ∧
    ∃ new, s'.sent = s.sent ++ new ∧ ∀ m ∈ new, isAnswer m.2 = false := by
  have hrun : ∃ s s', Run (Server.init fun _ => 0) (step noProvider) LockOk lockThenList s ∧
      step noProvider s (.worker 0 (.write true)) = some s' ∧ s'.sent = [(0, [SSH_AGENT_FAILURE])] :=
    exists_step_of_exec (by decide)
  obtain ⟨s, s', hrun, hs, hsent⟩ := hrun
  have hl : lockedAfter lockThenList = true := by decide
  exact ⟨s, s', hrun, hl, hs, hsent, (lock_holds _ _ _ _ _ _ hrun hl hs).1⟩

/-- A security key, and a SIGN request for it. -/
def phoneKey : AndroidSecurityKey := ⟨"sk".toList, "ssh:".toList, "phone".toList, [1]⟩

def signRequest : Bytes :=
  SSH_AGENTC_SIGN_REQUEST :: (Wire.writeString phoneKey.publicBlob ++ Wire.writeString [7] ++ [0, 0, 0, 0])

/-- `setLocked(true)` while the biometric prompt is up; then the user confirms. -/
def lockDuringPrompt : List Action :=
  connectOne ++
  [.ask phoneKey, .askStep 0, .askStep 0, .worker 0 (.recv signRequest), .worker 0 .run, .worker 0 .run,
   .setLocked true, .worker 0 (.authenticated true), .worker 0 .run,
   .worker 0 (.keystore (.signature [0x30, 6, 2, 1, 5, 2, 1, 7]))]

/-- The signature is sent after the agent was locked. -/
theorem sign_response_under_lock : lockedAfter lockDuringPrompt = true ∧ ∃ s s',
    Run (Server.init fun _ => 0) (step noProvider) anyStep lockDuringPrompt s ∧
    step noProvider s (.worker 0 (.write true)) = some s' ∧
    s.sent = [] ∧ s'.sent.any (fun m => m.2.head? = some SSH_AGENT_SIGN_RESPONSE) = true := by
  refine ⟨by decide, ?_⟩
  exact exists_step_of_exec (by decide)

end Tinyhack.Agent
