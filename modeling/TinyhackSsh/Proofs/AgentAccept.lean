import TinyhackSsh.Lib.Fair
import TinyhackSsh.Proofs.AgentSteps

/-! The accept loop. An `IOException` of `accept`, `getPeerCredentials` or
`close` ends the loop's thread, but `running` stays set: the server then says
that it runs, `start()` finds nothing to do, and nobody accepts. As long as no
such exception hits the open socket, the thread of the last `start()` keeps
accepting, and every admitted client gets a worker. -/

namespace Tinyhack.Agent

open Runs

/-- The socket an accept thread has called `accept` on. -/
def AcceptPhase.socket : AcceptPhase → Option ℕ
  | .accepting k | .accepted k => some k
  | _ => none

/-- In the loop, and on the server's socket if on any. -/
def AcceptPhase.attends (p : AcceptPhase) (serverSocket : Option ℕ) : Bool :=
  match p with
  | .absent | .done => false
  | .test | .call => true
  | .accepting k | .accepted k => serverSocket = some k

/-- No `IOException` reaches a thread that works on the socket of a running server. -/
def AcceptOk (s : Server) : Action → Prop
  | .accept i .ioError => s.running = true → (s.acceptor i).socket ≠ s.serverSocket
  | _ => True

/-- Everything thread `i` does but fail; a thread in `accept()` moves when a client connects. -/
def Moves (i : ℕ) (a : Action) : Prop := ∃ ev, a = .accept i ev ∧ ev ≠ .ioError

/-- While the server runs, the thread of the last `start()` serves its socket. -/
structure Served (s : Server) : Prop where
  stopping : s.running = true → s.stopping = none
  socket : s.running = true → s.serverSocket = some s.incarnation
  thread : s.running = true → ∃ i, s.acceptors = i + 1 ∧ (s.acceptor i).attends s.serverSocket = true

/-- No exception reaches the thread that serves a running server. -/
theorem acceptStep_ioError_none {s : Server} {i : ℕ} (hr : s.running = true) (hok : AcceptOk s (.accept i .ioError))
    (ha : (s.acceptor i).attends s.serverSocket = true) : acceptStep s i .ioError = none := by
  refine Option.eq_none_iff_forall_ne_some.mpr fun s' hs => ?_
  have hm := acceptStep_move hs rfl
  have hne := hok hr
  generalize s.acceptor i = p at hm ha hne
  cases hm with
  | acceptFails socket | closeFails socket =>
    have hopen : s.serverSocket = some socket := by simpa [AcceptPhase.attends] using ha
    exact hne hopen.symm

/-- A running server's accept thread that meets no `IOException` stays in the loop. -/
theorem acceptStep_attends {s s' : Server} {i : ℕ} {ev : AcceptEvent} (hs : acceptStep s i ev = some s')
    (hr : s.running = true) (hsock : s.serverSocket = some s.incarnation) (hok : AcceptOk s (.accept i ev))
    (ha : (s.acceptor i).attends s.serverSocket = true) : (s'.acceptor i).attends s.serverSocket = true := by
  have hm := acceptStep_move hs rfl
  generalize s.acceptor i = p at hm
  cases hm with
  | goesOn _ heq => simp [heq, AcceptPhase.attends]
  | ends hended => simp [hr] at hended
  | calls socket hopen heq => simp [heq, hopen, AcceptPhase.attends]
  | socketGone hclosed => simp [hsock] at hclosed
  | accepts socket uidMatches hopen heq => cases uidMatches <;> simp [heq, hopen, AcceptPhase.attends]
  | full socket _ heq | serves socket _ heq => simp [heq, AcceptPhase.attends]
  | acceptFails | closeFails => simp [acceptStep_ioError_none hr hok ha] at hs

/-- A step of an accept thread changes that thread, the clients and nothing else. -/
theorem acceptStep_frame {s s' : Server} {i : ℕ} {ev : AcceptEvent} (hs : acceptStep s i ev = some s') :
    s'.running = s.running ∧ s'.stopping = s.stopping ∧ s'.serverSocket = s.serverSocket ∧
      s'.incarnation = s.incarnation ∧ s'.acceptors = s.acceptors ∧ ∀ j, j ≠ i → s'.acceptor j = s.acceptor j := by
  rcases acceptStep_cases hs with ⟨p, -, rfl, -⟩ | ⟨k, -, rfl⟩ <;>
    exact ⟨rfl, rfl, rfl, rfl, rfl, fun j hj => by simp [hj]⟩

theorem step_served {prov : Provider} {s s' : Server} {a : Action} (h : Served s) (hok : AcceptOk s a)
    (hs : step prov s a = some s') : Served s' := by
  cases a with
  | start bound =>
    rcases step_start_cases hs with ⟨-, rfl⟩ | ⟨hr, -, rfl⟩ | ⟨-, -, rfl⟩
    · exact h
    · refine ⟨fun _ => ?_, fun _ => rfl, fun _ => ⟨s.acceptors, rfl, by simp [AcceptPhase.attends]⟩⟩
      simp only [step] at hs
      split_ifs at hs with hstop
      exact hstop
    · exact ⟨by simp, by simp, by simp⟩
  | stop => obtain rfl := step_stop_eq hs; exact ⟨by simp, by simp, by simp⟩
  | stopStep =>
    -- a server that is being stopped does not run
    have hr : s.running = false := by
      by_contra hr
      have hnone := h.stopping (by simpa using hr)
      rcases stopStep_cases hs with ⟨hp, -⟩ | ⟨hp, -⟩ | ⟨hp, -⟩ <;> simp [hnone] at hp
    rcases stopStep_cases hs with ⟨-, rfl⟩ | ⟨-, rfl⟩ | ⟨-, rfl⟩ <;> exact ⟨by simp [hr], by simp [hr], by simp [hr]⟩
  | setLocked locked => obtain rfl := Option.some.inj hs; exact ⟨h.stopping, h.socket, h.thread⟩
  | accept i ev =>
    obtain ⟨hrun, hstop, hsock, hinc, hthreads, hother⟩ := acceptStep_frame hs
    refine ⟨by rw [hrun, hstop]; exact h.stopping, by rw [hrun, hsock, hinc]; exact h.socket, ?_⟩
    intro hr
    rw [hrun] at hr
    obtain ⟨j, hj, hatt⟩ := h.thread hr
    refine ⟨j, hthreads.trans hj, ?_⟩
    rw [hsock]
    rcases eq_or_ne j i with rfl | hne
    · exact acceptStep_attends hs hr (h.socket hr) hok hatt
    · rwa [hother j hne]
  | worker w ev => obtain ⟨e, -, rfl⟩ := workerStep_cases hs; exact ⟨h.stopping, h.socket, h.thread⟩
  | ask key => obtain rfl := Option.some.inj hs; exact ⟨h.stopping, h.socket, h.thread⟩
  | askStep i =>
    rcases askStep_cases hs with ⟨_, _, -, rfl⟩ | ⟨_, _, -, rfl⟩ <;> exact ⟨h.stopping, h.socket, h.thread⟩

theorem run_served {prov : Provider} {counters : JString → ℤ} {acts : List Action} {s : Server}
    (h : Run (Server.init counters) (step prov) AcceptOk acts s) : Served s :=
  h.inv Served ⟨by simp [Server.init], by simp [Server.init], by simp [Server.init]⟩ fun _ _ _ hi hok hs =>
    step_served hi hok hs

/-! One thread of a running server, followed through an execution. -/

/-- The server runs and `i` is the thread of its last `start()`. -/
structure Attends (s : Server) (i : ℕ) : Prop where
  served : Served s
  running : s.running = true
  last : s.acceptors = i + 1

theorem Attends.attends {s : Server} {i : ℕ} (h : Attends s i) :
    (s.acceptor i).attends s.serverSocket = true := by
  obtain ⟨j, hj, hatt⟩ := h.served.thread h.running
  obtain rfl : i = j := by have := h.last; omega
  exact hatt

/-- Until `stop()` is called the server runs with the same thread, which only moves itself. -/
theorem Attends.next {prov : Provider} {s s' : Server} {a : Action} {i : ℕ} (h : Attends s i)
    (hok : AcceptOk s a) (hstop : a ≠ .stop) (hs : step prov s a = some s') :
    Attends s' i ∧ s'.serverSocket = s.serverSocket ∧ (¬ Moves i a → s'.acceptor i = s.acceptor i) := by
  have hserved := step_served h.served hok hs
  cases a with
  | start bound =>
    rcases step_start_cases hs with ⟨-, rfl⟩ | ⟨hr, -⟩ | ⟨hr, -⟩
    · exact ⟨h, rfl, fun _ => rfl⟩
    · simp [h.running] at hr
    · simp [h.running] at hr
  | stop => exact absurd rfl hstop
  | stopStep =>
    have hnone := h.served.stopping h.running
    rcases stopStep_cases hs with ⟨hp, -⟩ | ⟨hp, -⟩ | ⟨hp, -⟩ <;> simp [hnone] at hp
  | setLocked locked => obtain rfl := Option.some.inj hs; exact ⟨⟨hserved, h.running, h.last⟩, rfl, fun _ => rfl⟩
  | accept j ev =>
    obtain ⟨hrun, -, hsock, -, hthreads, hother⟩ := acceptStep_frame hs
    refine ⟨⟨hserved, hrun.trans h.running, hthreads.trans h.last⟩, hsock, fun hmove => ?_⟩
    rcases eq_or_ne i j with rfl | hne
    · -- a move that is no move is an exception, which cannot reach this thread
      have hev : ev = .ioError := by
        by_contra hev
        exact hmove ⟨ev, rfl, hev⟩
      subst hev
      exact absurd (hs.symm.trans (acceptStep_ioError_none h.running hok h.attends)) (by simp)
    · exact hother i hne
  | worker w ev =>
    obtain ⟨e, -, rfl⟩ := workerStep_cases hs
    exact ⟨⟨hserved, h.running, h.last⟩, rfl, fun _ => rfl⟩
  | ask key => obtain rfl := Option.some.inj hs; exact ⟨⟨hserved, h.running, h.last⟩, rfl, fun _ => rfl⟩
  | askStep j =>
    rcases askStep_cases hs with ⟨_, _, -, rfl⟩ | ⟨_, _, -, rfl⟩ <;>
      exact ⟨⟨hserved, h.running, h.last⟩, rfl, fun _ => rfl⟩

theorem AcceptMove.enabled {prov : Provider} {s s' : Server} {i : ℕ} {p : AcceptPhase} {ev : AcceptEvent}
    (h : AcceptMove s i s' p ev) (hp : s.acceptor i = p) (hev : ev ≠ .ioError) :
    Enabled (step prov) (Moves i) s :=
  ⟨.accept i ev, ⟨ev, rfl, hev⟩, Option.isSome_of_mem (acceptStep_of_move h hp)⟩

/-- A thread in the loop can always go on, in `accept()` when a client connects. -/
theorem Attends.enabled {prov : Provider} {s : Server} {i : ℕ} (h : Attends s i) :
    Enabled (step prov) (Moves i) s := by
  have hatt := h.attends
  cases hp : s.acceptor i with
  | absent => simp [hp, AcceptPhase.attends] at hatt
  | done => simp [hp, AcceptPhase.attends] at hatt
  | test => exact (AcceptMove.goesOn h.running rfl).enabled hp (by simp)
  | call => exact (AcceptMove.calls _ (h.served.socket h.running) rfl).enabled hp (by simp)
  | accepting k =>
    have hk : s.serverSocket = some k := by simpa [hp, AcceptPhase.attends] using hatt
    exact (AcceptMove.accepts k true hk rfl).enabled hp (by simp)
  | accepted k =>
    by_cases hfull : s.activeClients + 1 > MAX_CONCURRENT_CLIENTS
    · exact (AcceptMove.full k hfull rfl).enabled hp (by simp)
    · exact (AcceptMove.serves k hfull rfl).enabled hp (by simp)

section Executions

variable {prov : Provider} {counters : JString → ℤ} {t : Trace (Server.init counters) (step prov) AcceptOk}

/-- The next move of the thread finds it where it is. -/
theorem next_move {i n : ℕ} (hfair : t.WeakFair (Moves i)) (hstop : ∀ k, n ≤ k → t.act k ≠ some .stop)
    (hn : Attends (t.state n) i) :
    ∃ k ev, n ≤ k ∧ t.act k = some (.accept i ev) ∧ ev ≠ .ioError ∧
      step prov (t.state k) (.accept i ev) = some (t.state (k + 1)) ∧
      (t.state k).acceptor i = (t.state n).acceptor i ∧
      Attends (t.state k) i ∧ Attends (t.state (k + 1)) i := by
  have hstep : ∀ k, n ≤ k → Attends (t.state k) i → Attends (t.state (k + 1)) i ∧
      (¬ t.Taken (Moves i) k → (t.state (k + 1)).acceptor i = (t.state k).acceptor i) := by
    intro k hk hatt
    rcases t.next k with ⟨a, ha, hok, hs⟩ | ⟨-, hs⟩
    · have hne : a ≠ .stop := fun hstopped => hstop k hk (hstopped ▸ ha)
      obtain ⟨hatt', -, hsame⟩ := hatt.next hok hne hs
      exact ⟨hatt', fun hnot => hsame fun hmove => hnot ⟨a, hmove, ha⟩⟩
    · rw [hs]
      exact ⟨hatt, fun _ => rfl⟩
  have hall : ∀ k, n ≤ k → Attends (t.state k) i := by
    intro k hk
    induction k, hk using Nat.le_induction with
    | base => exact hn
    | succ k hk ih => exact (hstep k hk ih).1
  have hex : ∃ k, n ≤ k ∧ t.Taken (Moves i) k := hfair n fun k hk => (hall k hk).enabled
  -- the first move from `n` on
  classical
  obtain ⟨hk, a, ⟨ev, rfl, hev⟩, hact⟩ := Nat.find_spec hex
  set k := Nat.find hex with hkdef
  have hsame : ∀ j, n ≤ j → j ≤ k → (t.state j).acceptor i = (t.state n).acceptor i := by
    intro j hj
    induction j, hj using Nat.le_induction with
    | base => exact fun _ => rfl
    | succ j hj ih =>
      intro hjk
      have hnot : ¬ t.Taken (Moves i) j := fun htaken => Nat.find_min hex (by omega) ⟨hj, htaken⟩
      exact ((hstep j hj (hall j hj)).2 hnot).trans (ih (by omega))
  refine ⟨k, ev, hk, hact, hev, ?_, hsame k hk le_rfl, hall k hk, hall (k + 1) (by omega)⟩
  rcases t.next k with ⟨b, hb, -, hs⟩ | ⟨hidle, -⟩
  · obtain rfl : Action.accept i ev = b := Option.some.inj (hact.symm.trans hb)
    exact hs
  · simp [hidle] at hact

/-- At `k` thread `i` accepts a client on the open socket; a client of this user
gets a worker, unless the limit is reached. -/
def AcceptsAt (t : Trace (Server.init counters) (step prov) AcceptOk) (i k : ℕ) : Prop :=
  ∃ uidMatches socket, t.act k = some (.accept i (.accept uidMatches)) ∧
    (t.state k).acceptor i = .accepting socket ∧ (t.state k).serverSocket = some socket ∧
    (uidMatches = true → ∃ j, k < j ∧ t.act j = some (.accept i .run) ∧
      (t.state j).acceptor i = .accepted socket ∧
      (MAX_CONCURRENT_CLIENTS < (t.state j).activeClients + 1 ∨
        ((t.state (j + 1)).conns = (t.state j).conns + 1 ∧
          (t.state (j + 1)).conn (t.state j).conns = ⟨.loop, socket⟩)))

/-- From the call on, the thread accepts the next client and hands it on. -/
theorem accepts_of_accepting {i n socket : ℕ} (hfair : t.WeakFair (Moves i))
    (hstop : ∀ k, n ≤ k → t.act k ≠ some .stop) (hn : Attends (t.state n) i)
    (hp : (t.state n).acceptor i = .accepting socket) : ∃ k, n ≤ k ∧ AcceptsAt t i k := by
  obtain ⟨k, ev, hk, hact, hev, hs, hsame, -, hatt'⟩ := next_move hfair hstop hn
  rw [hp] at hsame
  cases acceptStep_move hs hsame with
  | acceptFails => exact absurd rfl hev
  | accepts _ uidMatches hopen heq =>
    refine ⟨k, hk, uidMatches, socket, hact, hsame, hopen, fun huid => ?_⟩
    have hnext : (t.state (k + 1)).acceptor i = .accepted socket := by simp [heq, huid]
    obtain ⟨j, ev, hj, hact, hev, hs, hsame, -, -⟩ := next_move hfair (fun m hm => hstop m (by omega)) hatt'
    rw [hnext] at hsame
    cases acceptStep_move hs hsame with
    | closeFails => exact absurd rfl hev
    | full _ hfull => exact ⟨j, by omega, hact, hsame, Or.inl hfull⟩
    | serves _ _ heq => exact ⟨j, by omega, hact, hsame, Or.inr (by simp [heq])⟩

/-- The thread comes back to `accept()` from every place of its loop. -/
theorem accepts_again {i n : ℕ} (hfair : t.WeakFair (Moves i))
    (hstop : ∀ k, n ≤ k → t.act k ≠ some .stop) (hn : Attends (t.state n) i) :
    ∃ k, n ≤ k ∧ AcceptsAt t i k := by
  have hcall : ∀ m, n ≤ m → Attends (t.state m) i → (t.state m).acceptor i = .call →
      ∃ k, n ≤ k ∧ AcceptsAt t i k := by
    intro m hm hatt hp
    have hstop' : ∀ k, m ≤ k → t.act k ≠ some .stop := fun k hk => hstop k (hm.trans hk)
    obtain ⟨k, ev, hk, -, -, hs, hsame, hattk, hatt'⟩ := next_move hfair hstop' hatt
    rw [hp] at hsame
    have hnext : (t.state (k + 1)).acceptor i = .accepting (t.state k).incarnation := by
      have hsock := hattk.served.socket hattk.running
      cases acceptStep_move hs hsame with
      | calls socket hopen heq =>
        obtain rfl := Option.some.inj (hopen.symm.trans hsock)
        simp [heq]
      | socketGone hclosed => simp [hsock] at hclosed
    obtain ⟨j, hj, hacc⟩ := accepts_of_accepting hfair (fun l hl => hstop' l (by omega)) hatt' hnext
    exact ⟨j, by omega, hacc⟩
  have htest : ∀ m, n ≤ m → Attends (t.state m) i → (t.state m).acceptor i = .test →
      ∃ k, n ≤ k ∧ AcceptsAt t i k := by
    intro m hm hatt hp
    obtain ⟨k, ev, hk, -, -, hs, hsame, hattk, hatt'⟩ := next_move hfair (fun k hk => hstop k (hm.trans hk)) hatt
    rw [hp] at hsame
    refine hcall (k + 1) (by omega) hatt' ?_
    cases acceptStep_move hs hsame with
    | goesOn _ heq => simp [heq]
    | ends hended => simp [hattk.running] at hended
  have hatt := hn.attends
  cases hp : (t.state n).acceptor i with
  | absent => simp [hp, AcceptPhase.attends] at hatt
  | done => simp [hp, AcceptPhase.attends] at hatt
  | test => exact htest n le_rfl hn hp
  | call => exact hcall n le_rfl hn hp
  | accepting socket => exact accepts_of_accepting hfair hstop hn hp
  | accepted socket =>
    obtain ⟨k, ev, hk, -, hev, hs, hsame, -, hatt'⟩ := next_move hfair hstop hn
    rw [hp] at hsame
    refine htest (k + 1) (by omega) hatt' ?_
    cases acceptStep_move hs hsame with
    | full _ _ heq | serves _ _ heq => simp [heq]
    | closeFails => exact absurd rfl hev

end Executions

/-- A server that meets no `IOException` on its open socket has, whenever it says
that it runs, a thread in the accept loop; until `stop()` is called this thread
accepts clients again and again. -/
theorem accept_loop_serves (prov : Provider) (counters : JString → ℤ)
    (t : Trace (Server.init counters) (step prov) AcceptOk) (hfair : ∀ i, t.WeakFair (Moves i)) (n : ℕ)
    (hrun : (t.state n).isRunning = true) :
    ∃ i, ((t.state n).acceptor i).attends (t.state n).serverSocket = true ∧
      ((∀ k, n ≤ k → t.act k ≠ some .stop) →
        ∀ m, n ≤ m → (t.state m).isRunning = true ∧ ∃ k, m ≤ k ∧ AcceptsAt t i k) := by
  obtain ⟨acts, hreach⟩ := t.exists_run n
  have hserved := run_served hreach
  have hr : (t.state n).running = true := by
    simp only [Server.isRunning, Bool.and_eq_true] at hrun
    exact hrun.1
  obtain ⟨i, hi, hatt⟩ := hserved.thread hr
  refine ⟨i, hatt, fun hstop m hm => ?_⟩
  have hall : Attends (t.state m) i := by
    induction m, hm using Nat.le_induction with
    | base => exact ⟨hserved, hr, hi⟩
    | succ m hm ih =>
      rcases t.next m with ⟨a, ha, hok, hs⟩ | ⟨-, hs⟩
      · exact (ih.next hok (fun hstopped => hstop m hm (hstopped ▸ ha)) hs).1
      · rwa [hs]
  refine ⟨?_, accepts_again (hfair i) (fun k hk => hstop k (hm.trans hk)) hall⟩
  simp [Server.isRunning, hall.running, hall.served.socket hall.running]

section Rejecting

/-- A started server whose only accept thread is at `p`. -/
def listening (p : AcceptPhase) : Server :=
  { start (Server.init fun _ => 0) true with acceptor := Function.update (fun _ => .absent) 0 p }

/-- The loop of an accept thread that is offered foreign clients only. -/
def rejectingPhase : ℕ → AcceptPhase
  | 0 => .test
  | n + 1 => match rejectingPhase n with
    | .test => .call
    | .call => .accepting 1
    | _ => .test

def rejectingEvent (n : ℕ) : AcceptEvent :=
  match rejectingPhase n with
  | .accepting _ => .accept false
  | _ => .run

theorem rejectingPhase_cases (n : ℕ) :
    rejectingPhase n = .test ∨ rejectingPhase n = .call ∨ rejectingPhase n = .accepting 1 := by
  induction n with
  | zero => exact Or.inl rfl
  | succ n ih => rcases ih with h | h | h <;> simp [rejectingPhase, h]

theorem rejecting_step (n : ℕ) :
    step laxProvider (listening (rejectingPhase n)) (.accept 0 (rejectingEvent n)) =
      some (listening (rejectingPhase (n + 1))) := by
  rcases rejectingPhase_cases n with h | h | h <;>
    simp [rejectingPhase, rejectingEvent, h, step, acceptStep, listening, start, Server.init]

/-- The server is started, and every client that connects belongs to another user. -/
def rejecting : Trace (Server.init fun _ => 0) (step laxProvider) AcceptOk where
  state
    | 0 => Server.init fun _ => 0
    | n + 1 => listening (rejectingPhase n)
  act
    | 0 => some (.start true)
    | n + 1 => some (.accept 0 (rejectingEvent n))
  zero := rfl
  next
    | 0 => Or.inl ⟨.start true, rfl, trivial, rfl⟩
    | n + 1 => by
      refine Or.inl ⟨_, rfl, ?_, rejecting_step n⟩
      rcases rejectingPhase_cases n with h | h | h <;> simp [rejectingEvent, h, AcceptOk]

theorem rejecting_fair (i : ℕ) : rejecting.WeakFair (Moves i) := by
  intro n hen
  rcases Nat.eq_zero_or_pos i with rfl | hi
  · refine ⟨n + 1, by omega, _, ⟨_, rfl, ?_⟩, rfl⟩
    rcases rejectingPhase_cases n with h | h | h <;> simp [rejectingEvent, h]
  · -- no other thread exists
    obtain ⟨a, ⟨ev, rfl, -⟩, hsome⟩ := hen (n + 1) (by omega)
    have habsent : (listening (rejectingPhase n)).acceptor i = .absent := by
      simp [listening, hi.ne']
    have hnone : step laxProvider (rejecting.state (n + 1)) (.accept i ev) = none := acceptStep_idle (.inl habsent)
    simp [hnone] at hsome

/-- The loop goes on after every rejected client. -/
theorem accept_loop_serves_rejecting : ∃ i, ∀ m, 1 ≤ m → ∃ k, m ≤ k ∧ AcceptsAt rejecting i k := by
  obtain ⟨i, -, hlive⟩ := accept_loop_serves laxProvider (fun _ => 0) rejecting rejecting_fair 1 (by decide)
  refine ⟨i, fun m hm => (hlive (fun k hk => ?_) m hm).2⟩
  obtain ⟨k, rfl⟩ := Nat.exists_eq_add_of_le' hk
  simp [rejecting]

end Rejecting

/-- The server says that it runs, and no accept thread is left. -/
structure Deaf (s : Server) : Prop where
  running : s.isRunning = true
  stopping : s.stopping = none
  threads : ∀ i, s.acceptor i = .absent ∨ s.acceptor i = .done

theorem Deaf.accept_none {s : Server} (h : Deaf s) (i : ℕ) (ev : AcceptEvent) : acceptStep s i ev = none :=
  acceptStep_idle (h.threads i)

/-- Nothing but `stop()` changes that; `start()` returns at once. -/
theorem Deaf.next {prov : Provider} {s s' : Server} {a : Action} (h : Deaf s) (hstop : a ≠ .stop)
    (hs : step prov s a = some s') : Deaf s' := by
  cases a with
  | start bound =>
    have hr : s.running = true := (Bool.and_eq_true_iff.mp h.running).1
    rcases step_start_cases hs with ⟨-, rfl⟩ | ⟨hr', -⟩ | ⟨hr', -⟩
    · exact h
    · simp [hr] at hr'
    · simp [hr] at hr'
  | stop => exact absurd rfl hstop
  | stopStep => rcases stopStep_cases hs with ⟨hp, -⟩ | ⟨hp, -⟩ | ⟨hp, -⟩ <;> simp [h.stopping] at hp
  | setLocked locked => obtain rfl := Option.some.inj hs; exact ⟨h.running, h.stopping, h.threads⟩
  | accept i ev => exact absurd (hs.symm.trans (h.accept_none i ev)) (by simp)
  | worker w ev => obtain ⟨e, -, rfl⟩ := workerStep_cases hs; exact ⟨h.running, h.stopping, h.threads⟩
  | ask key => obtain rfl := Option.some.inj hs; exact ⟨h.running, h.stopping, h.threads⟩
  | askStep i =>
    rcases askStep_cases hs with ⟨_, _, -, rfl⟩ | ⟨_, _, -, rfl⟩ <;> exact ⟨h.running, h.stopping, h.threads⟩

/-- One client closes its end before its credentials are read. -/
def credentialsFail : List Action := [.start true, .accept 0 .run, .accept 0 .run, .accept 0 .ioError]

/-- After one failed call the server runs on without a thread that accepts,
whatever happens before `stop()`. -/
theorem one_failure_ends_accepting : ∃ s, Run (Server.init fun _ => 0) (step laxProvider) anyStep credentialsFail s ∧
    ∀ acts s', Run s (step laxProvider) (fun _ a => a ≠ .stop) acts s' →
      s'.isRunning = true ∧ ∀ i ev, step laxProvider s' (.accept i ev) = none := by
  have hrun : ∃ s, Run (Server.init fun _ => 0) (step laxProvider) anyStep credentialsFail s ∧
      (s.isRunning = true ∧ s.stopping = none ∧ s.acceptors = 1 ∧ s.acceptor 0 = .done) :=
    exists_run_of_exec (by decide)
  obtain ⟨s, hs, hr, hstop, hone, hdone⟩ := hrun
  have hdeaf : Deaf s := by
    refine ⟨hr, hstop, fun i => ?_⟩
    rcases Nat.eq_zero_or_pos i with rfl | hi
    · exact Or.inr hdone
    · exact Or.inl ((run_allocated hs).acceptor i (by omega))
  refine ⟨s, hs, fun acts s' hcont => ?_⟩
  have hdeaf' : Deaf s' := hcont.inv Deaf hdeaf fun _ _ _ hd hne hstep => hd.next hne hstep
  exact ⟨hdeaf'.running, fun i ev => hdeaf'.accept_none i ev⟩

end Tinyhack.Agent
