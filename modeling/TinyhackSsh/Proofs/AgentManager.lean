import TinyhackSsh.Spec.AgentManager

/-! When a `stopAgent` lasts. Nothing but the start-capable methods brings the
agent up, and the only ones of them that nobody asked for are those of auto-load
threads scheduled before the stop: the stop lasts exactly when none was waiting. -/

namespace Tinyhack.AgentManager

open Runs

variable {s s' s'' s₁ : State} {acts : List Action} {act : Action} {probe : Bool} {o : Answers}
  {socketExists locked autoStart : Bool}

/-- What the methods do besides starting the agent: threads are scheduled with the
count of stops of their time. -/
structure Schedules (s s' : State) : Prop where
  stops : s'.stops = s.stops
  stopped : s'.stopped = s.stopped
  autoLoads : ∀ c ∈ s'.autoLoads, c ∈ s.autoLoads ∨ c = s.stops

theorem Schedules.refl (s : State) : Schedules s s := ⟨rfl, rfl, fun _ hc => Or.inl hc⟩

theorem Schedules.trans (h : Schedules s s') (h' : Schedules s' s'') : Schedules s s'' := by
  refine ⟨h'.stops.trans h.stops, h'.stopped.trans h.stopped, fun c hc => ?_⟩
  rcases h'.autoLoads c hc with hc | rfl
  · exact h.autoLoads c hc
  · exact Or.inr h.stops

theorem scheduleAutoLoad_schedules (hs : s'.stops = s.stops) (hst : s'.stopped = s.stopped)
    (ha : s'.autoLoads = s.autoLoads) : Schedules s s'.scheduleAutoLoad := by
  refine ⟨hs, hst, fun c hc => ?_⟩
  rcases List.mem_append.mp hc with hc | hc
  · exact Or.inl (ha ▸ hc)
  · exact Or.inr ((List.mem_singleton.mp hc).trans hs)

theorem isAgentRunning_schedules (s : State) (probe : Bool) : Schedules s (s.isAgentRunning probe).1 := by
  unfold State.isAgentRunning
  dsimp only
  split_ifs <;> exact ⟨rfl, rfl, fun _ hc => Or.inl hc⟩

theorem startAgent_schedules (s : State) (o : Answers) : Schedules s (s.startAgent o).1 := by
  refine (isAgentRunning_schedules s o.probe).trans ?_
  unfold State.startAgent
  dsimp only
  split_ifs
  · exact .refl _
  · exact scheduleAutoLoad_schedules rfl rfl rfl
  · cases o.launch with
    | listens alive => exact scheduleAutoLoad_schedules rfl rfl rfl
    | exits | fails | silent alive => exact ⟨rfl, rfl, fun _ hc => Or.inl hc⟩

theorem bringUp_schedules (s : State) (probe : Bool) (o : Answers) : Schedules s (s.bringUp probe o).1 := by
  refine (isAgentRunning_schedules s probe).trans ?_
  unfold State.bringUp
  dsimp only
  split_ifs
  · exact .refl _
  · exact startAgent_schedules _ o

theorem addKey_schedules (s : State) (probe : Bool) (o : Answers) (added : Bool) :
    Schedules s (s.addKey probe o added).1 := by
  unfold State.addKey
  dsimp only
  split_ifs <;> exact bringUp_schedules s probe o

theorem addKeys_schedules (s : State) (keys : List KeyAnswers) : Schedules s (s.addKeys keys).1 := by
  induction keys generalizing s with
  | nil => exact .refl s
  | cons k ks ih => exact (addKey_schedules s k.probe k.start k.added).trans (ih _)

theorem addAllKeys_schedules (s : State) (probe : Bool) (o : Answers) (keys : List KeyAnswers) :
    Schedules s (s.addAllKeys probe o keys).1 := by
  refine (bringUp_schedules s probe o).trans ?_
  unfold State.addAllKeys
  dsimp only
  split_ifs
  · exact .refl _
  · exact .refl _
  · exact addKeys_schedules _ keys

theorem ensureAgentRunning_schedules (s : State) (probe probeAgain : Bool) (o : Answers) :
    Schedules s (s.ensureAgentRunning probe probeAgain o).1 := by
  unfold State.ensureAgentRunning
  dsimp only
  split_ifs
  · exact (isAgentRunning_schedules s probe).trans (isAgentRunning_schedules _ probeAgain)
  · exact (isAgentRunning_schedules s probe).trans (startAgent_schedules _ o)
  · exact isAgentRunning_schedules s probeAgain

/-- Every waiting thread was scheduled before now. -/
def Stamped (s : State) : Prop := ∀ c ∈ s.autoLoads, c ≤ s.stops

theorem Schedules.stamped (h : Schedules s s') (hs : Stamped s) : Stamped s' := by
  intro c hc
  rw [h.stops]
  rcases h.autoLoads c hc with hc | rfl
  · exact hs c hc
  · exact le_rfl

theorem stopAgent_eq (s : State) (probe : Bool) : (s.stopAgent probe).1 =
    { s with javaRunning := false, agentProcess := none, socketExists := false, locked := false } := by
  unfold State.stopAgent State.isAgentRunning
  dsimp only
  split_ifs <;> rfl

theorem step_stamped (h : Stamped s) (hs : step s act = some s') : Stamped s' := by
  cases act with
  | startAgent o => cases hs; exact (startAgent_schedules s o).stamped h
  | ensureAgentRunning probe probeAgain o =>
    cases hs; exact (ensureAgentRunning_schedules s probe probeAgain o).stamped h
  | addKey probe o added => cases hs; exact (addKey_schedules s probe o added).stamped h
  | addAllKeys probe o keys => cases hs; exact (addAllKeys_schedules s probe o keys).stamped h
  | query probe => cases hs; exact (isAgentRunning_schedules s probe).stamped h
  | stopAgent probe =>
    cases hs
    rw [stopAgent_eq]
    exact fun c hc => (h c hc).trans (Nat.le_succ _)
  | autoLoad i probe o keys =>
    simp only [step, Option.bind_eq_bind, Option.bind_eq_some_iff, Option.some.injEq] at hs
    obtain ⟨scheduled, -, rfl⟩ := hs
    have herase : Stamped { s with autoLoads := s.autoLoads.eraseIdx i } :=
      fun c hc => h c (List.mem_of_mem_eraseIdx hc)
    have hadd := (addAllKeys_schedules { s with autoLoads := s.autoLoads.eraseIdx i } probe o keys).stamped herase
    split_ifs
    · exact hadd
    · exact hadd
  | setLocked _ | setAutoStart _ | socketVanishes => cases hs; exact h
  | processExits | socketAppears =>
    simp only [step] at hs
    split_ifs at hs
    cases hs
    exact h

/-- The agent is down and no auto-load thread is waiting to bring it up. -/
structure Down (s : State) : Prop where
  java : s.javaRunning = false
  process : s.agentProcess = none
  socket : s.socketExists = false
  autoLoads : s.autoLoads = []

theorem Down.isAgentRunning (h : Down s) (probe : Bool) : s.isAgentRunning probe = (s, false) := by
  simp [State.isAgentRunning, h.java, h.process, h.socket]

theorem Down.not_running (h : Down s) : ¬s.Running := by
  rintro ⟨probe, hrunning⟩
  rw [h.isAgentRunning] at hrunning
  cases hrunning

/-- A stopped agent with no thread waiting stays down until someone calls. -/
theorem step_down (h : s.stopped = true → Down s) (hno : NoStop s act) (hs : step s act = some s')
    (hstopped : s'.stopped = true) : Down s' := by
  cases act with
  | startAgent o => cases hs; cases hstopped
  | ensureAgentRunning probe probeAgain o => cases hs; cases hstopped
  | addKey probe o added => cases hs; cases hstopped
  | addAllKeys probe o keys => cases hs; cases hstopped
  | stopAgent probe => exact absurd rfl (hno probe)
  | autoLoad i probe o keys =>
    simp only [step, Option.bind_eq_bind, Option.bind_eq_some_iff, Option.some.injEq] at hs
    obtain ⟨scheduled, hget, rfl⟩ := hs
    -- while the agent is stopped there is no thread to run
    have hadd := addAllKeys_schedules { s with autoLoads := s.autoLoads.eraseIdx i } probe o keys
    split_ifs at hstopped with hold
    · have hdown := h (hadd.stopped.symm.trans hstopped)
      simp [hdown.autoLoads] at hget
    · cases hstopped
  | query probe =>
    cases hs
    have hdown := h ((isAgentRunning_schedules s probe).stopped.symm.trans hstopped)
    rwa [hdown.isAgentRunning]
  | setLocked _ | setAutoStart _ =>
    cases hs
    exact ⟨(h hstopped).java, (h hstopped).process, (h hstopped).socket, (h hstopped).autoLoads⟩
  | socketVanishes =>
    cases hs
    exact ⟨(h hstopped).java, (h hstopped).process, rfl, (h hstopped).autoLoads⟩
  | processExits | socketAppears =>
    simp only [step] at hs
    split_ifs at hs with halive
    cases hs
    have hdown := h hstopped
    rw [hdown.process] at halive
    cases halive

/-- An auto-load thread that was waiting starts the agent again. -/
theorem waiting_thread_restarts (hstamped : Stamped s) (hwait : s.autoLoads ≠ [])
    (hstop : step s (.stopAgent probe) = some s₁) :
    ∃ act s', NoStop s₁ act ∧ step s₁ act = some s' ∧ s'.stopped = true ∧ s'.Running := by
  obtain ⟨java, process, socket, locked, auto, autoLoads, stops, stopped⟩ := s
  obtain ⟨c, cs, rfl⟩ := List.exists_cons_of_ne_nil hwait
  have hc : c < stops + 1 := Nat.lt_succ_of_le (hstamped c List.mem_cons_self)
  cases hstop
  rw [stopAgent_eq]
  refine ⟨.autoLoad 0 false ⟨false, true, .fails⟩ [], _, fun _ => by simp, congrArg some (if_pos hc), rfl, ?_⟩
  exact ⟨false, rfl⟩

/-- After a `stopAgent`, in whatever state it is called, the agent is not running
in any continuation until someone else calls a start-capable method, if and only
if no auto-load thread is waiting for the monitor when the stop is made. -/
theorem stop_lasts_iff (hrun : Run (init socketExists locked autoStart) step anyStep acts s)
    (hstop : step s (.stopAgent probe) = some s₁) :
    (∀ acts' s', Run s₁ step NoStop acts' s' → s'.stopped = true → ¬s'.Running) ↔ s.autoLoads = [] := by
  have hstamped : Stamped s := by
    refine hrun.inv Stamped ?_ fun _ _ _ h _ => step_stamped h
    intro c hc
    cases hc
  constructor
  · intro h
    by_contra hwait
    obtain ⟨act, s', hno, hstep, hstopped, hrunning⟩ := waiting_thread_restarts hstamped hwait hstop
    exact h _ s' (Run.nil.snoc hno hstep) hstopped hrunning
  · intro hnone acts' s' hrun' hstopped
    cases hstop
    refine (hrun'.inv (fun s => s.stopped = true → Down s) ?_ ?_ hstopped).not_running
    · intro _
      rw [stopAgent_eq]
      exact ⟨rfl, rfl, rfl, hnone⟩
    · intro _ _ _ h hno hs
      exact step_down h hno hs

/-- The Java server starts; `ssh-agent` is not tried. -/
def javaStarts : Answers := ⟨false, true, .fails⟩

/-- The auto-load thread of the start has been and gone. -/
theorem stop_lasts_after_auto_load :
    ∃ s s₁, Run (init false false true) step anyStep [.startAgent javaStarts, .autoLoad 0 true javaStarts []] s ∧
      s.Running ∧ step s (.stopAgent true) = some s₁ ∧
      ∀ acts' s', Run s₁ step NoStop acts' s' → s'.stopped = true → ¬s'.Running := by
  have hrun : ∃ s, Run (init false false true) step anyStep
      [.startAgent javaStarts, .autoLoad 0 true javaStarts []] s ∧ s.Running ∧ s.autoLoads = [] :=
    exists_run_of_exec (by decide)
  obtain ⟨s, hrun, hrunning, hnone⟩ := hrun
  exact ⟨s, _, hrun, hrunning, rfl, (stop_lasts_iff hrun rfl).mpr hnone⟩

/-- `startAgent`, `stopAgent`, and then the auto-load thread of that start. -/
theorem auto_load_restarts_agent :
    ∃ s, Run (init false false true) step anyStep
      [.startAgent javaStarts, .stopAgent true, .autoLoad 0 false javaStarts []] s ∧
      s.stopped = true ∧ s.Running :=
  exists_run_of_exec (by decide)

end Tinyhack.AgentManager
