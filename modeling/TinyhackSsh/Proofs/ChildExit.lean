import TinyhackSsh.Spec.ChildExit

/-! When SIGHUP reaches the child, and not whoever has its pid by then. `nativeClose` goes by
`child_pid > 0`, which stays so after the child is reaped. -/

namespace Tinyhack.ChildExit

open Runs

/-- The call has started to close the session and has not signalled yet. -/
def Closer.closing : Closer → Bool
  | .takePtr | .callNative _ | .lock | .shut | .signal => true
  | _ => false

/-- The step is the `waitpid` that reaps. -/
def Reaps (s : State) : Action → Bool
  | .watch _ reaps =>
    match s.watcher with
    | .waitpid _ => reaps
    | _ => false
  | _ => false

/-- The step is the `compareAndSet` that starts to close the session. -/
def StartsClose (s : State) : Action → Bool
  | .closer t => s.closers[t]? = some .compareAndSet && !s.isClosed
  | _ => false

/-- The session is closed before its child is reaped, and is not closing while it is reaped. -/
def ClosedBeforeReaped (s : State) (a : Action) : Prop :=
  (StartsClose s a = true → s.child ≠ .reaped) ∧ (Reaps s a = true → ∀ c ∈ s.closers, c.closing = false)

instance (s : State) (a : Action) : Decidable (ClosedBeforeReaped s a) := inferInstanceAs (Decidable (_ ∧ _))

/-- While a call is on its way to the signal the child has not been reaped. -/
structure Safe (s : State) : Prop where
  closing : s.child = .reaped → ∀ c ∈ s.closers, c.closing = false
  hups : ∀ hup ∈ s.hups, hup.2 ≠ .reaped

section Steps

variable {s s' : State} {a : Action} {t : ℕ} {c : Closer}

theorem safe_init (pid : ℤ) : Safe (init pid) := by
  constructor
  · intro hreaped
    cases hreaped
  · intro hup hhup
    cases hhup

theorem Safe.watch (h : Safe s) {stale : ℤ} {reaps : Bool} (hok : ClosedBeforeReaped s (.watch stale reaps))
    (hs : s.watch stale reaps = some s') : Safe s' := by
  unfold State.watch at hs
  cases hw : s.watcher with
  | waitpid pid =>
    rw [hw] at hs
    dsimp only [State.waitpidReturns] at hs
    split_ifs at hs with hreaps hzombie
    · obtain rfl := Option.some.inj hs
      refine ⟨fun _ => hok.2 ?_, h.hups⟩
      rw [Reaps, hw, hreaps]
    · obtain rfl := Option.some.inj hs
      exact ⟨h.closing, h.hups⟩
  | done =>
    rw [hw] at hs
    cases hs
  | _ =>
    rw [hw] at hs
    obtain rfl := Option.some.inj hs
    exact ⟨h.closing, h.hups⟩

/-- A call goes on without a signal; it counts as closing afterwards only if it did before. -/
theorem Safe.goesOn (h : Safe s) (c' : Closer) (hc : s.closers[t]? = some c)
    (hc' : c'.closing = true → c.closing = true)
    (hchild : s'.child = s.child) (hclosers : s'.closers = s.closers.set t c') (hhups : s'.hups = s.hups) :
    Safe s' := by
  refine ⟨fun hreaped d hd => ?_, hhups ▸ h.hups⟩
  rw [hchild] at hreaped
  rw [hclosers] at hd
  obtain hd | rfl := List.mem_or_eq_of_mem_set hd
  · exact h.closing hreaped d hd
  · have hno := h.closing hreaped c (List.mem_of_getElem? hc)
    cases hd' : d.closing with
    | false => rfl
    | true => exact absurd (hno.symm.trans (hc' hd')) Bool.false_ne_true

/-- A call that is about to signal finds the child not reaped. -/
theorem Safe.signal (h : Safe s) (hc : s.closers[t]? = some .signal) : s.child ≠ .reaped := by
  intro hreaped
  have hno := h.closing hreaped .signal (List.mem_of_getElem? hc)
  cases hno

theorem Safe.runCloser (h : Safe s) (hok : ClosedBeforeReaped s (.closer t)) (hc : s.closers[t]? = some c)
    (hs : s.runCloser t c = some s') : Safe s' := by
  cases c with
  | compareAndSet =>
    dsimp only [State.runCloser] at hs
    split_ifs at hs with hclosed
    · obtain rfl := Option.some.inj hs
      exact h.goesOn .done hc nofun rfl rfl rfl
    · obtain rfl := Option.some.inj hs
      have hnot : s.child ≠ .reaped := hok.1 (by simp [StartsClose, hc, hclosed])
      exact ⟨fun hreaped => absurd hreaped hnot, h.hups⟩
  | takePtr =>
    obtain rfl := Option.some.inj hs
    exact h.goesOn (.callNative s.sessionPtr) hc (fun _ => rfl) rfl rfl rfl
  | callNative ptr =>
    obtain rfl := Option.some.inj hs
    exact h.goesOn _ hc (fun _ => rfl) rfl rfl rfl
  | lock =>
    dsimp only [State.runCloser] at hs
    split_ifs at hs
    obtain rfl := Option.some.inj hs
    exact h.goesOn _ hc (fun _ => rfl) rfl rfl rfl
  | shut =>
    dsimp only [State.runCloser] at hs
    split_ifs at hs
    all_goals
      obtain rfl := Option.some.inj hs
      exact h.goesOn _ hc (fun _ => rfl) rfl rfl rfl
  | signal =>
    obtain rfl := Option.some.inj hs
    have hgoes : Safe (s.put t (.unlock true)) := h.goesOn (.unlock true) hc nofun rfl rfl rfl
    refine ⟨hgoes.closing, fun hup hhup => ?_⟩
    dsimp only at hhup
    split_ifs at hhup with hpid
    · obtain hhup | hhup := List.mem_append.mp hhup
      · exact h.hups hup hhup
      · rw [List.mem_singleton.mp hhup]
        exact h.signal hc
    · exact h.hups hup hhup
  | unlock delete =>
    obtain rfl := Option.some.inj hs
    refine h.goesOn (if delete then .delete else .done) hc ?_ rfl rfl rfl
    cases delete <;> nofun
  | delete =>
    obtain rfl := Option.some.inj hs
    exact h.goesOn .done hc nofun rfl rfl rfl
  | done => cases hs

theorem Safe.step (h : Safe s) (hok : ClosedBeforeReaped s a) (hs : step s a = some s') : Safe s' := by
  cases a with
  | exit =>
    simp only [ChildExit.step] at hs
    split_ifs at hs with hrunning
    obtain rfl := Option.some.inj hs
    exact ⟨nofun, h.hups⟩
  | watch stale reaps => exact h.watch hok hs
  | close =>
    obtain rfl := Option.some.inj hs
    refine ⟨fun hreaped c hc => ?_, h.hups⟩
    obtain hc | hc := List.mem_append.mp hc
    · exact h.closing hreaped c hc
    · rw [List.mem_singleton.mp hc]
      rfl
  | closer t =>
    obtain ⟨c, hc, hs⟩ := Option.bind_eq_some_iff.mp hs
    exact h.runCloser hok hc hs

end Steps

/-- Every SIGHUP is sent before the child is reaped. -/
theorem hups_before_reaped {pid : ℤ} {acts : List Action} {s : State}
    (h : Run (init pid) step ClosedBeforeReaped acts s) : ∀ hup ∈ s.hups, hup.2 ≠ .reaped := by
  have hsafe : Safe s := h.inv Safe (safe_init pid) fun _ _ _ hi hok hs => hi.step hok hs
  exact hsafe.hups

def watcherWaits : List Action := [.watch 0 false, .watch 0 false, .watch 0 false, .watch 0 false]

/-- A call of `close` up to its signal. -/
def closeToSignal : List Action := .close :: List.replicate 6 (.closer 0)

/-- The session is closed while its child runs. -/
theorem hups_before_reaped_close :
    ∃ s, Run (init 7) step ClosedBeforeReaped (watcherWaits ++ closeToSignal ++ [.exit, .watch 0 true]) s ∧
    (s.child = .reaped ∧ s.hups = [(7, .running)]) ∧ ∀ hup ∈ s.hups, hup.2 ≠ .reaped := by
  obtain ⟨s, hrun, hs⟩ : ∃ s, Run (init 7) step ClosedBeforeReaped
      (watcherWaits ++ closeToSignal ++ [Action.exit, .watch 0 true]) s ∧
        (s.child = .reaped ∧ s.hups = [(7, .running)]) :=
    exists_run_of_exec (by decide)
  exact ⟨s, hrun, hs, hups_before_reaped hrun⟩

/-- A session whose child has exited is closed later. -/
theorem close_hups_reaped :
    ∃ s, Run (init 7) step anyStep (watcherWaits ++ [.exit, .watch 0 true] ++ closeToSignal) s ∧
    (7, .reaped) ∈ s.hups := exists_run_of_exec (by decide)

end Tinyhack.ChildExit
