import TinyhackSsh.Spec.NotificationQueue
import TinyhackSsh.Proofs.NotificationLedger

/-! What the steps of the sessions and the looper do to the manager, and what is left of
a session after its cleanup. -/

namespace Tinyhack.Notify

open Runs

section Steps

variable {s s' : System} {act : SystemAction}

/-- A request that arrives does not reach the manager yet. -/
theorem osc_frame (s : System) (session : ℕ) (metadata payload : Bytes) (jni writable : Bool) :
    (s.osc session metadata payload jni writable).manager = s.manager ∧
    (s.osc session metadata payload jni writable).cleaned = s.cleaned ∧
    (s.osc session metadata payload jni writable).shown = s.shown := by
  unfold System.osc System.setTransaction System.deliver
  dsimp only
  split
  · split_ifs <;> exact ⟨rfl, rfl, rfl⟩
  · exact ⟨rfl, rfl, rfl⟩
  · exact ⟨rfl, rfl, rfl⟩

theorem looper_eq_some {env : Env} (hs : s.step (.looper env) = some s') :
    ∃ message queue, s.queue = message :: queue ∧ s' = System.run { s with queue := queue } env message := by
  simp only [System.step] at hs
  cases hqueue : s.queue with
  | nil => simp [hqueue] at hs
  | cons message queue =>
    rw [hqueue] at hs
    exact ⟨message, queue, rfl, (Option.some.inj hs).symm⟩

/-- Only messages of the manager itself may be taken from the queue. -/
theorem manager_eq_some {a : Action} (hs : s.step (.manager a) = some s') : a.event.isOwn = true ∧
    ∃ m keep, step s.manager ⟨s.env a.env, a.event⟩ = some m ∧
      s' = { s with manager := m, queue := s.queue.filter keep } ∧
      ∀ message, keep message = false → ∃ session, message = .sessionClosed session := by
  simp only [System.step, System.managerEvent] at hs
  by_cases hown : a.event.isOwn = true
  · rw [if_neg (by simpa using hown)] at hs
    obtain ⟨m, hm, rfl⟩ := Option.map_eq_some_iff.mp hs
    by_cases hdestroy : a.event = .destroy
    · rw [if_pos hdestroy]
      refine ⟨hown, m, _, hm, rfl, fun message hkeep => ?_⟩
      cases message with
      | sessionClosed session => exact ⟨session, rfl⟩
      | request | cleanup => cases hkeep
    · rw [if_neg hdestroy]
      exact ⟨hown, m, fun _ => true, hm, by rw [List.filter_true], fun _ h => by cases h⟩
  · rw [if_pos (by simpa using hown)] at hs
    cases hs

/-- What a step can do, as far as the manager and the logs are concerned. -/
inductive SystemMove (act : SystemAction) (s : System) : System → Prop
  | aside (sessions : ℕ → TerminalSession) (queue : List Message) :
      SystemMove act s { s with sessions := sessions, queue := queue }
  | osc (session : ℕ) (metadata payload : Bytes) (jni writable : Bool) :
      SystemMove act s (s.osc session metadata payload jni writable)
  | cleanup (env : Env) (session : ℕ) (sessions : ℕ → TerminalSession) (queue : List Message) :
      SystemMove act s { s.runCleanup env session with sessions := sessions, queue := queue }
  | request (env : Env) (session : ℕ) (metadata payload : Bytes) (before : List Chunk) (queue : List Message)
      (hact : act = .looper env) (hqueue : s.queue = .request session metadata payload before :: queue) :
      SystemMove act s (System.run { s with queue := queue } env (.request session metadata payload before))
  | own (env : Env) (event : Event) (m : Manager) (queue : List Message) (hown : event.isOwn = true)
      (hstep : step s.manager ⟨s.env env, event⟩ = some m) :
      SystemMove act s { s with manager := m, queue := queue }

theorem step_systemMove (hs : s.step act = some s') : SystemMove act s s' := by
  cases act with
  | started session | listed session | exited session | stopped session =>
    simp only [System.step] at hs
    split_ifs at hs
    obtain rfl := Option.some.inj hs
    exact .aside _ _
  | closed session =>
    obtain rfl := Option.some.inj hs
    exact .aside _ _
  | osc session metadata payload jni writable =>
    obtain rfl := Option.some.inj hs
    exact .osc session metadata payload jni writable
  | removed env session onMain =>
    simp only [System.step] at hs
    split_ifs at hs
    obtain rfl := Option.some.inj hs
    cases onMain with
    | true => exact .cleanup env session _ _
    | false => exact .aside _ _
  | looper env =>
    obtain ⟨message, queue, hqueue, rfl⟩ := looper_eq_some hs
    cases message with
    | request session metadata payload before => exact .request env session metadata payload before queue rfl hqueue
    | cleanup session | sessionClosed session => exact .cleanup env session _ _
  | manager a =>
    obtain ⟨hown, m, keep, hm, rfl, -⟩ := manager_eq_some hs
    exact .own a.env a.event m _ hown hm

/-- The manager handles one event or none. It sees what the sessions are like, and a
request is the first message of the queue. -/
theorem step_manager (hs : s.step act = some s') : s'.manager = s.manager ∨
    ∃ env event, step s.manager ⟨s.env env, event⟩ = some s'.manager ∧
      ∀ session metadata payload, event = .notification session metadata payload →
        ∃ before queue, act = .looper env ∧ s.queue = .request session metadata payload before :: queue := by
  cases step_systemMove hs with
  | aside => exact .inl rfl
  | osc session metadata payload jni writable => exact .inl (osc_frame s session metadata payload jni writable).1
  | cleanup env session => exact .inr ⟨env, .sessionClosed session, rfl, fun _ _ _ h => by cases h⟩
  | request env session metadata payload before queue hact hqueue =>
    by_cases hclosed : (s.sessions session).isClosed = true
    · exact .inl (if_pos hclosed)
    · refine .inr ⟨env, .notification session metadata payload, congrArg some (if_neg hclosed).symm, ?_⟩
      rintro _ _ _ ⟨⟩
      exact ⟨before, queue, hact, hqueue⟩
  | own env event m queue hown hstep =>
    refine .inr ⟨env, event, hstep, ?_⟩
    rintro session metadata payload rfl
    cases hown

/-- What the manager can reach among the sessions it can reach by itself. -/
theorem run_manager {platform : Bool} {enabled : ℕ → Bool} {ok : System → SystemAction → Prop}
    {acts : List SystemAction} (h : Run (System.new platform enabled) System.step ok acts s) :
    ∃ macts, Run (Manager.new platform) step anyStep macts s.manager := by
  induction h with
  | nil => exact ⟨[], .nil⟩
  | snoc _ _ hs ih =>
    obtain ⟨macts, hrun⟩ := ih
    obtain heq | ⟨env, event, hstep, -⟩ := step_manager hs
    · exact ⟨macts, heq ▸ hrun⟩
    · exact ⟨_, hrun.snoc trivial hstep⟩

end Steps

/-- The manager holds nothing of the session. -/
structure Cleared (session : ℕ) (m : Manager) : Prop where
  pending : ∀ k a, m.pending.get? k = some a → a.session ≠ session
  active : ∀ k e, m.active.get? k = some e → e.session ≠ session
  rates : m.rates.get? session = none

section Cleared

variable {session : ℕ} {m m' : Manager} {act : Action}

theorem move_pending_cleared (hnot : ∀ payload request, ¬ Accepted act session payload request) (hmove : Move act m m')
    (h : ∀ k a, m.pending.get? k = some a → a.session ≠ session) (k : Key) (a : Assembly)
    (hk : m'.pending.get? k = some a) : a.session ≠ session := by
  cases hmove with
  | quiet hquiet =>
    rw [hquiet.pending_eq] at hk
    exact h k a hk
  | dropPending pending hsub => exact h k a (hsub k a hk)
  | putPending payload request a' c haccepted =>
    rw [OrderedMap.get?_put] at hk
    split_ifs at hk
    · obtain rfl := Option.some.inj hk
      rintro rfl
      exact hnot _ _ haccepted
    · exact h k a hk
  | submit => exact h k a hk

/-- What a session has comes from a request of its own that is accepted. -/
theorem move_cleared (hnot : ∀ payload request, ¬ Accepted act session payload request) (hmove : Move act m m')
    (h : Cleared session m) : Cleared session m' := by
  have hpending := move_pending_cleared hnot hmove h.pending
  cases hmove with
  | quiet hquiet =>
    cases hquiet with
    | rate session' payload request rate haccepted =>
      refine ⟨hpending, h.active, ?_⟩
      change (m.rates.put session' rate).get? session = none
      rw [OrderedMap.get?_put, if_neg, h.rates]
      rintro rfl
      exact hnot _ _ haccepted
    | dropRates rates hsub =>
      refine ⟨hpending, h.active, Option.eq_none_iff_forall_ne_some.mpr fun r hr => ?_⟩
      have hrate := hsub session r hr
      rw [h.rates] at hrate
      cases hrate
    | sweepFlags | dropTimers | destroyed | notPosted => exact ⟨hpending, h.active, h.rates⟩
    | query | alive | activated =>
      rw [reply_eq] at hpending ⊢
      exact ⟨hpending, h.active, h.rates⟩
    | close e cause =>
      by_cases hlive : m.tokens.get? e.token = some e
      · rw [close_live hlive] at hpending ⊢
        exact ⟨hpending, fun k e' he' => h.active k e' (OrderedMap.get?_of_erase he'), h.rates⟩
      · rw [close_stale hlive]
        exact h
    | posted payload request a content nextId e haccepted hid he =>
      rw [register_eq] at hpending ⊢
      refine ⟨hpending, fun k e' he' => ?_, h.rates⟩
      dsimp only at he'
      rw [OrderedMap.get?_put] at he'
      split_ifs at he' with hk
      · obtain rfl := Option.some.inj he'
        have hsession : e.session = a.session := by rw [he]; rfl
        rintro rfl
        exact hnot _ _ (hsession ▸ haccepted)
      · cases hprevious : m.active.get? (m.postKey a) with
        | none =>
          rw [hprevious] at he'
          exact h.active k e' he'
        | some old =>
          rw [hprevious] at he'
          exact h.active k e' (OrderedMap.get?_of_erase he')
  | dropPending | putPending | submit => exact ⟨hpending, h.active, h.rates⟩

/-- Closing the entries that pass a test, where the list has them all. -/
theorem closeWhere_active (h : Ledger m) (env : Env) (cause : Cause) (test : Entry → Bool) (entries : List Entry)
    (hall : ∀ e ∈ m.entries, test e = true → e ∈ entries) :
    ∀ e ∈ (m.closeWhere env cause.reports cause test entries).entries, test e = false := by
  induction entries generalizing m with
  | nil =>
    intro e he
    by_contra htest
    exact absurd (hall e he (by simpa using htest)) (by simp)
  | cons e₀ entries ih =>
    rw [Manager.closeWhere, List.foldl_cons]
    refine ih ?_ fun e he htest => ?_
    · split_ifs
      · exact close_ledger h env e₀ cause
      · exact h
    · split_ifs at he with htest₀
      · -- the entry that is closed is not there any more
        by_cases hlive : m.tokens.get? e₀.token = some e₀
        · rw [close_live hlive] at he
          obtain ⟨k, hk⟩ := mem_entries_iff.mp he
          have hne : e ≠ e₀ := by
            rintro rfl
            obtain rfl := h.keyed _ _ (OrderedMap.get?_of_erase hk)
            change (m.active.erase e.key).get? e.key = some e at hk
            rw [OrderedMap.get?_erase, if_pos rfl] at hk
            cases hk
          have hmem := hall e (mem_entries_iff.mpr ⟨k, OrderedMap.get?_of_erase hk⟩) htest
          exact (List.mem_cons.mp hmem).resolve_left hne
        · rw [close_stale hlive] at he
          refine (List.mem_cons.mp (hall e he htest)).resolve_left ?_
          rintro rfl
          obtain ⟨k, hk⟩ := mem_entries_iff.mp he
          exact hlive ((h.tokens _ _).mpr ⟨h.keyed k e hk ▸ hk, rfl⟩)
      · refine (List.mem_cons.mp (hall e he htest)).resolve_left ?_
        rintro rfl
        exact htest₀ htest

theorem onSessionClosed_cleared (h : Ledger m) (env : Env) (session : ℕ) :
    Cleared session (m.onSessionClosed env session) := by
  refine ⟨fun k a hk => ?_, fun k e he => ?_, ?_⟩
  · rw [onSessionClosed_pending, OrderedMap.get?_filter] at hk
    simpa using (Option.filter_eq_some_iff.mp hk).2
  · have hledger : Ledger { m with pending := m.pending.filter fun p => p.2.session ≠ session } :=
      h.frame rfl rfl (fun _ ht => ht) le_rfl rfl rfl rfl
    have htest := closeWhere_active hledger env .sessionClosed (fun e => e.session = session) _
      (fun _ he _ => he) e (mem_entries_iff.mpr ⟨k, he⟩)
    simpa using htest
  · unfold Manager.onSessionClosed
    dsimp only
    rw [OrderedMap.get?_erase, if_pos rfl]

end Cleared

theorem step_cleaned {s s' : System} {act : SystemAction} (hs : s.step act = some s') {session : ℕ}
    (h : s'.cleaned session = true) : s.cleaned session = true ∨
      ∃ env, s'.manager = s.manager.onSessionClosed (s.env env) session := by
  cases step_systemMove hs with
  | aside | request | own => exact .inl h
  | osc x metadata payload jni writable =>
    rw [(osc_frame s x metadata payload jni writable).2.1] at h
    exact .inl h
  | cleanup env x =>
    change Function.update s.cleaned x true session = true at h
    by_cases hx : session = x
    · subst hx
      exact .inr ⟨env, rfl⟩
    · rw [Function.update_of_ne hx] at h
      exact .inl h

/-- No request of a session is run after its cleanup while `isRunning()` still holds. -/
def settled (s : System) : SystemAction → Bool
  | .looper _ =>
    match s.queue with
    | .request session _ _ _ :: _ => !(s.cleaned session && (s.sessions session).running)
    | _ => true
  | _ => true

/-- Once the cleanup of a session has run, the manager holds nothing of it. -/
theorem cleaned_stays_cleared (platform : Bool) (enabled : ℕ → Bool) (acts : List SystemAction) (s : System)
    (hrun : Run (System.new platform enabled) System.step (fun s act => settled s act = true) acts s)
    (session : ℕ) (h : s.cleaned session = true) : Cleared session s.manager := by
  induction hrun with
  | nil => cases h
  | @snoc acts s act s' hrun hok hs ih =>
    obtain ⟨macts, hmanager⟩ := run_manager hrun
    obtain hcleaned | ⟨env, heq⟩ := step_cleaned hs h
    · obtain heq | ⟨env, event, hstep, hevent⟩ := step_manager hs
      · exact heq ▸ ih hcleaned
      · -- a request of this session would have to be accepted
        refine inv_of_moves (Cleared session) (fun _ _ => move_cleared fun payload request haccepted => ?_)
          (step_moves (run_keyed hmanager) hstep) (ih hcleaned)
        obtain ⟨metadata, hnotification, -⟩ := haccepted.event
        obtain ⟨before, queue, rfl, hqueue⟩ := hevent session metadata payload hnotification
        have hrunning : (s.sessions session).running = true := haccepted.running
        simp [settled, hqueue, hcleaned, hrunning] at hok
    · rw [heq]
      exact onSessionClosed_cleared (run_ledger hmanager) _ _

/-- The session's program exits, but the thread that reads its last output is slower. -/
def lateOutput : List SystemAction :=
  [SystemAction.started 0, .listed 0, .exited 0, .osc 0 (ascii "i=x") (ascii "Hi") true true,
    .osc 0 (ascii "i=y:d=0") (ascii "Hi") true true]

theorem cleaned_stays_cleared_stopped : ∃ s,
    Run (System.new true fun _ => true) System.step (fun s act => settled s act = true)
      (lateOutput ++ [.looper (calmEnv 0), .stopped 0, .looper (calmEnv 0), .looper (calmEnv 0)]) s ∧
    s.cleaned 0 = true ∧ Cleared 0 s.manager := by
  have hrun : ∃ s, Run (System.new true fun _ => true) System.step (fun s act => settled s act = true)
      (lateOutput ++ [SystemAction.looper (calmEnv 0), .stopped 0, .looper (calmEnv 0), .looper (calmEnv 0)]) s ∧
      s.cleaned 0 = true := exists_run_of_exec (by decide)
  obtain ⟨s, hrun, hcleaned⟩ := hrun
  exact ⟨s, hrun, hcleaned, cleaned_stays_cleared true _ _ s hrun 0 hcleaned⟩

/-- `isRunning` is cleared after both messages: an active entry, a rate and a pending
assembly of the session are left. -/
theorem late_output_outlives_cleanup : ∃ s,
    Run (System.new true fun _ => true) System.step anyStep
      (lateOutput ++ [.looper (calmEnv 0), .looper (calmEnv 0), .looper (calmEnv 0), .stopped 0]) s ∧
    s.cleaned 0 = true ∧ (s.sessions 0).running = false ∧ (∃ e ∈ s.manager.entries, e.session = 0) ∧
    (∃ p ∈ s.manager.pending.entries, p.2.session = 0) ∧ (s.manager.rates.get? 0).isSome = true :=
  exists_run_of_exec (by decide)

end Tinyhack.Notify
