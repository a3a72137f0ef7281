import Mathlib.Tactic

/-! Finite runs of a partial step function. A step that is not enabled is
`none`; the environment's choices are part of the action. `ok` restricts the
steps a run may take: `fun _ _ => True` gives every run. -/

namespace Runs

variable {σ α : Type*}

/-- The runs from `init` each of whose steps meets `ok`, with the state reached. -/
inductive Run (init : σ) (step : σ → α → Option σ) (ok : σ → α → Prop) : List α → σ → Prop
  | nil : Run init step ok [] init
  | snoc {acts : List α} {s s' : σ} {a : α} :
      Run init step ok acts s → ok s a → step s a = some s' → Run init step ok (acts ++ [a]) s'

/-- No restriction on the steps. -/
def anyStep (_ : σ) (_ : α) : Prop := True

variable {init : σ} {step : σ → α → Option σ} {ok ok' : σ → α → Prop} {acts : List α} {s s' : σ} {a : α}

/-- What holds initially and is kept by every permitted step holds in every state reached. -/
theorem Run.inv (I : σ → Prop) (h0 : I init)
    (hs : ∀ s a s', I s → ok s a → step s a = some s' → I s') (h : Run init step ok acts s) : I s := by
  induction h with
  | nil => exact h0
  | snoc _ hok hstep ih => exact hs _ _ _ ih hok hstep

/-- The same with the actions so far. -/
theorem Run.inv_acts (I : List α → σ → Prop) (h0 : I [] init)
    (hs : ∀ acts' s a s', acts'.length < acts.length → I acts' s → ok s a → step s a = some s' → I (acts' ++ [a]) s')
    (h : Run init step ok acts s) : I acts s := by
  induction h with
  | nil => exact h0
  | snoc _ hok hstep ih =>
    rw [List.length_append, List.length_singleton] at hs
    refine hs _ _ _ _ (Nat.lt_succ_self _) (ih fun acts' s a s' hn => ?_) hok hstep
    exact hs acts' s a s' (Nat.lt_succ_of_lt hn)

/-- A run goes on from where another one ended. -/
theorem Run.append {acts' : List α} (h : Run init step ok acts s) (h' : Run s step ok acts' s') :
    Run init step ok (acts ++ acts') s' := by
  induction h' with
  | nil => rwa [List.append_nil]
  | snoc _ hok hstep ih =>
    rw [← List.append_assoc]
    exact ih.snoc hok hstep

theorem Run.weaken (hw : ∀ s a, ok s a → ok' s a) (h : Run init step ok acts s) :
    Run init step ok' acts s := by
  induction h with
  | nil => exact Run.nil
  | snoc _ hok hstep ih => exact ih.snoc (hw _ _ hok) hstep

theorem Run.any (h : Run init step ok acts s) : Run init step anyStep acts s :=
  h.weaken fun _ _ _ => trivial

/-- Follow a list of actions, `none` as soon as one is not enabled or not permitted. -/
def exec (step : σ → α → Option σ) (ok : σ → α → Prop) [∀ s a, Decidable (ok s a)] :
    σ → List α → Option σ
  | s, [] => some s
  | s, a :: acts => if ok s a then (step s a).bind fun s' => exec step ok s' acts else none

theorem run_append_of_exec [∀ s a, Decidable (ok s a)] {pre : List α} (h : Run init step ok pre s)
    (he : exec step ok s acts = some s') : Run init step ok (pre ++ acts) s' := by
  induction acts generalizing pre s with
  | nil =>
    simp only [exec, Option.some.injEq] at he
    subst he
    simpa using h
  | cons a acts ih =>
    simp only [exec] at he
    split_ifs at he with hok
    obtain ⟨t, ht, hrest⟩ := Option.bind_eq_some_iff.mp he
    simpa using ih (h.snoc hok ht) hrest

/-- An executed list of actions is a run, so concrete runs are found by evaluation. -/
theorem run_of_exec [∀ s a, Decidable (ok s a)] (he : exec step ok init acts = some s) :
    Run init step ok acts s := by
  simpa using run_append_of_exec Run.nil he

/-- The state that an execution reaches, with a decidable property of it. -/
theorem exists_of_exec [∀ s a, Decidable (ok s a)] {P : σ → Prop} [DecidablePred P]
    (he : (exec step ok init acts).any (fun s => decide (P s)) = true) :
    ∃ s, exec step ok init acts = some s ∧ P s := by
  cases hs : exec step ok init acts with
  | none => simp [hs] at he
  | some s => exact ⟨s, rfl, by simpa [hs] using he⟩

/-- The same with a decidable property of the state reached, for states that
cannot be compared. -/
theorem exists_run_of_exec [∀ s a, Decidable (ok s a)] {P : σ → Prop} [DecidablePred P]
    (he : (exec step ok init acts).any (fun s => decide (P s)) = true) :
    ∃ s, Run init step ok acts s ∧ P s := by
  obtain ⟨s, hs, hP⟩ := exists_of_exec he
  exact ⟨s, run_of_exec hs, hP⟩

/-- A run and a second one from where it ends, with a decidable property of both states. -/
theorem exists_runs_of_exec [∀ s a, Decidable (ok s a)] {acts' : List α} {P : σ → σ → Prop}
    [∀ s s', Decidable (P s s')]
    (he : (exec step ok init acts).any
      (fun s => (exec step ok s acts').any fun s' => decide (P s s')) = true) :
    ∃ s s', Run init step ok acts s ∧ Run s step ok acts' s' ∧ P s s' := by
  cases hs : exec step ok init acts with
  | none => simp [hs] at he
  | some s =>
    obtain ⟨s', hs', hP⟩ := exists_of_exec (P := P s) (by simpa [hs] using he)
    exact ⟨s, s', run_of_exec hs, run_of_exec hs', hP⟩

/-- A run and one step more, with a decidable property of that step. -/
theorem exists_step_of_exec [∀ s a, Decidable (ok s a)] {P : σ → σ → Prop} [∀ s s', Decidable (P s s')]
    (he : (exec step ok init acts).any (fun s => (step s a).any fun s' => decide (P s s')) = true) :
    ∃ s s', Run init step ok acts s ∧ step s a = some s' ∧ P s s' := by
  cases hrun : exec step ok init acts with
  | none => simp [hrun] at he
  | some s =>
    cases hs : step s a with
    | none => simp [hrun, hs] at he
    | some s' => exact ⟨s, s', run_of_exec hrun, hs, by simpa [hrun, hs] using he⟩

instance (s : σ) (a : α) : Decidable (anyStep s a) := isTrue trivial

end Runs
