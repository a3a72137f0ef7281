import TinyhackSsh.Spec.BiometricPrompts
import TinyhackSsh.Proofs.PromptBoard
import TinyhackSsh.Lib.Fair

/-! What becomes of a prompt once its `awaitBiometricAuth` has returned. A dismissal
reaches the prompt that is registered for the id. It misses one that is still on its
way, and one that Android re-creates before the posted `finish()` runs; when neither
happens, no prompt for the id comes after the return, and one that is there finishes.

`Board` keeps of the system what this depends on, and each step of the system is one
of the `Step`s of the board. On the board a request's prompt is in one place at a
time: on its way, or in one activity. -/

namespace Tinyhack.Biometric

open Agent Wire Runs

/-- A dismissal comes neither before the prompt of its id is shown, with that prompt
still to come, nor is the activity it has asked to finish re-created. -/
def Prompts.timely (s : Prompts) : PromptAction → Bool
  | .gate (.callStep c) =>
    match s.gate.call c with
    | .dismiss id => decide (id ∉ s.gate.posted) && decide (id ∉ s.starting) &&
        s.creating.all fun n => decide (s.gate.activity n ≠ .created id true)
    | _ => true
  | .recreate n => decide (n ∉ s.finishPosts)
  | _ => true

/-- How many launches and starts are on their way for an id. -/
def onTheWay (posted starting : List ℤ) (id : ℤ) : ℕ := posted.count id + starting.count id

def Prompts.board (s : Prompts) : Board where
  requests := s.gate.requests
  call := s.gate.call
  coming := onTheWay s.gate.posted s.starting
  activity := s.gate.activity
  activities := s.gate.activities
  registered := s.gate.activePrompts
  creating := s.creating
  finishPosts := s.finishPosts
  finished := s.finished
  answered id := s.gate.future id ≠ none ∨ ∃ ok, (id, ok) ∈ s.gate.completions
  returned := s.returned

/-! Every step of the system is a step of the board. -/

section Simulation

variable {prov : Provider} {s s' : System}

theorem awaitReturns_eq {c : Caller} {ok : Bool} (hs : awaitReturns prov s c ok = some s') :
    ∃ server, s' = { s with server := server } := by
  cases c with
  | other n => exact ⟨s.server, (Option.some.inj hs).symm⟩
  | worker w =>
    obtain ⟨server, -, rfl⟩ := Option.map_eq_some_iff.mp hs
    exact ⟨server, rfl⟩

theorem serverStep_eq {a : Agent.Action} (hs : serverStep prov s a = some s') :
    ∃ server current arrivals log,
      s' = { s with server := server, current := current, arrivals := arrivals, log := log } := by
  unfold serverStep at hs
  split at hs
  · cases hs
  all_goals
    obtain ⟨server, -, rfl⟩ := Option.map_eq_some_iff.mp hs
    exact ⟨server, _, _, _, rfl⟩

theorem completeBiometricAuth_eq (s : System) (id : ℤ) (success : Bool) :
    ∃ completions, completeBiometricAuth s id success = { s with completions := completions } ∧
      ∀ x ok, (x, ok) ∈ completions → (x, ok) ∈ s.completions ∨ x = id := by
  unfold completeBiometricAuth
  split_ifs
  · refine ⟨_, rfl, fun x ok hx => ?_⟩
    rcases List.mem_append.mp hx with hx | hx
    · exact Or.inl hx
    · obtain ⟨rfl, -⟩ := Prod.mk.inj (List.mem_singleton.mp hx)
      exact Or.inr rfl
  · exact ⟨s.completions, rfl, fun x ok hx => Or.inl hx⟩

/-- Without an id or an enrolled biometric the activity finishes at once. -/
theorem onCreate_refused {id : ℤ} {enrolled : Bool} (h : (decide (0 ≤ id) && enrolled) = false) :
    ∃ completions, onCreate s id enrolled = { s with
      completions := completions
      activity := Function.update s.activity s.activities (.created id false)
      activities := s.activities + 1
      finishing := Function.update s.finishing s.activities true } ∧
      ∀ x ok, (x, ok) ∈ completions → (x, ok) ∈ s.completions ∨ x = id := by
  unfold onCreate
  dsimp only
  split_ifs with hneg henr
  · exact ⟨s.completions, rfl, fun x ok hx => Or.inl hx⟩
  · obtain ⟨completions, heq, hmem⟩ := completeBiometricAuth_eq s id false
    rw [heq]
    exact ⟨completions, rfl, hmem⟩
  · simp only [Bool.not_eq_true, Bool.not_eq_false'] at henr
    simp [henr, not_lt.mp hneg] at h

theorem onCreate_prompting {id : ℤ} {enrolled : Bool} (h : (decide (0 ≤ id) && enrolled) = true) :
    onCreate s id enrolled = { s with
      activity := Function.update s.activity s.activities (.created id true)
      activities := s.activities + 1
      activePrompts := Function.update s.activePrompts id (some s.activities)
      finishing := Function.update s.finishing s.activities false } := by
  obtain ⟨hid, rfl⟩ : 0 ≤ id ∧ enrolled = true := by simpa using h
  unfold onCreate
  dsimp only
  rw [if_neg (not_lt.mpr hid)]
  rfl

theorem onDestroy_eq {n : ℕ} (hs : onDestroy s n = some s') :
    ∃ id p activePrompts, s.activity n = .created id p ∧
      s' = { s with
        activity := Function.update s.activity n .destroyed
        activePrompts := activePrompts } ∧
      ∀ x, x ≠ id → activePrompts x = s.activePrompts x := by
  unfold onDestroy at hs
  split at hs
  · rename_i id p hact
    refine ⟨id, p, _, hact, (Option.some.inj hs).symm, fun x hx => ?_⟩
    split_ifs
    · exact Function.update_of_ne hx _ _
    · rfl
  · cases hs

end Simulation

section OnTheWay

variable {posted starting : List ℤ} {id : ℤ}

theorem onTheWay_comm (posted starting : List ℤ) : onTheWay posted starting = onTheWay starting posted :=
  funext fun _ => Nat.add_comm _ _

theorem onTheWay_pos_left (h : id ∈ posted) : 0 < onTheWay posted starting id :=
  Nat.add_pos_left (List.count_pos_iff.mpr h) _

theorem onTheWay_pos_right (h : id ∈ starting) : 0 < onTheWay posted starting id :=
  Nat.add_pos_right _ (List.count_pos_iff.mpr h)

theorem onTheWay_eq_zero (hp : id ∉ posted) (hs : id ∉ starting) : onTheWay posted starting id = 0 := by
  rw [onTheWay, List.count_eq_zero.mpr hp, List.count_eq_zero.mpr hs]

theorem onTheWay_erase_left (h : id ∈ posted) : onTheWay (posted.erase id) starting =
    Function.update (onTheWay posted starting) id (onTheWay posted starting id - 1) := by
  have hpos := List.count_pos_iff.mpr h
  refine Function.eq_update_iff.mpr ⟨?_, fun x hx => ?_⟩
  · rw [onTheWay, onTheWay, List.count_erase_self]
    omega
  · rw [onTheWay, onTheWay, List.count_erase_of_ne hx]

theorem onTheWay_erase_right (h : id ∈ starting) : onTheWay posted (starting.erase id) =
    Function.update (onTheWay posted starting) id (onTheWay posted starting id - 1) := by
  rw [onTheWay_comm, onTheWay_erase_left h, onTheWay_comm]

theorem onTheWay_append_left : onTheWay (posted ++ [id]) starting =
    Function.update (onTheWay posted starting) id (onTheWay posted starting id + 1) := by
  refine Function.eq_update_iff.mpr ⟨?_, fun x hx => ?_⟩
  · rw [onTheWay, onTheWay, List.count_append, List.count_singleton_self]
    omega
  · rw [onTheWay, onTheWay, List.count_append, List.count_singleton, if_neg (by simpa using hx.symm), Nat.add_zero]

theorem onTheWay_append_right : onTheWay posted (starting ++ [id]) =
    Function.update (onTheWay posted starting) id (onTheWay posted starting id + 1) := by
  rw [onTheWay_comm, onTheWay_append_left, onTheWay_comm]

/-- A launch stays on its way when the activity is started. -/
theorem onTheWay_launch (h : id ∈ posted) :
    onTheWay (posted.erase id) (starting ++ [id]) = onTheWay posted starting := by
  have hpos : 0 < onTheWay posted starting id := onTheWay_pos_left h
  rw [onTheWay_append_right, onTheWay_erase_left h, Function.update_self, Nat.sub_add_cancel hpos,
    Function.update_idem, Function.update_eq_self]

end OnTheWay

/-- The board up to how the launches on their way are written. -/
theorem Board.Step.of_coming {b b' : Board} {coming : ℤ → ℕ} (h : b.Step { b' with coming := coming })
    (hc : b'.coming = coming) : b.Step b' := by
  subst hc
  exact h

section Simulation

variable {prov : Provider} {s s' : Prompts}

/-- Completions for `id` answer nobody else. -/
theorem answered_or {completions : List (ℤ × Bool)} {id : ℤ}
    (hc : ∀ x ok, (x, ok) ∈ completions → (x, ok) ∈ s.gate.completions ∨ x = id) (x : ℤ)
    (hx : s.gate.future x ≠ none ∨ ∃ ok, (x, ok) ∈ completions) : s.board.answered x ∨ x = id := by
  rcases hx with hx | ⟨ok, hx⟩
  · exact Or.inl (Or.inl hx)
  · exact (hc x ok hx).imp_left fun hx => Or.inr ⟨ok, hx⟩

theorem step_callStep {c : Caller} (hs : s.gateStep prov (.callStep c) = some s')
    (ht : s.timely (.gate (.callStep c)) = true) : s.board.Step s'.board := by
  obtain ⟨gate, hg, rfl⟩ := Option.map_eq_some_iff.mp hs
  simp only [gateStep, callStep] at hg
  have hcall : s.board.call c = s.gate.call c := rfl
  cases hc : s.gate.call c with
  | idle => simp [hc] at hg
  | put id =>
    simp only [hc, Option.some.injEq] at hg
    subst hg
    simp only [Prompts.dismisses, Prompts.returns, hc, Option.toList_none, List.append_nil]
    exact .advance c (.post id) (by rw [hcall, hc]; rfl) (fun _ => by rw [hcall, hc]; rfl) rfl
  | post id =>
    simp only [hc, Option.some.injEq] at hg
    subst hg
    simp only [Prompts.dismisses, Prompts.returns, hc, Option.toList_none, List.append_nil]
    exact Board.Step.of_coming (.post c id hc) onTheWay_append_left
  | waiting id =>
    simp only [hc] at hg
    obtain ⟨ok, hfuture, rfl⟩ := Option.map_eq_some_iff.mp hg
    simp only [Prompts.dismisses, Prompts.returns, hc, Option.toList_none, List.append_nil]
    exact .answer c id ok hc (Or.inl (by simp [hfuture]))
  | dismiss id =>
    simp only [hc, Option.some.injEq] at hg
    subst hg
    simp only [Prompts.timely, hc, Bool.and_eq_true, decide_eq_true_eq] at ht
    obtain ⟨⟨hposted, hstarting⟩, hcreating⟩ := ht
    have hnot : ∀ n, s.creating = some n → s.gate.activity n ≠ .created id true := by
      intro n hn
      simpa [hn] using hcreating
    simp only [Prompts.dismisses, Prompts.returns, hc, Option.toList_none, List.append_nil, dismissPendingPrompt]
    split <;> exact .dismiss c id hc (onTheWay_eq_zero hposted hstarting) hnot
  | remove id ok =>
    simp only [hc] at hg
    obtain ⟨server, rfl⟩ := awaitReturns_eq hg
    simp only [Prompts.dismisses, Prompts.returns, hc, Option.toList_none, List.append_nil]
    exact .returns c id ok hc

theorem step_launch {id : ℤ} {started : Bool} (hs : s.gateStep prov (.launch id started) = some s') :
    s.board.Step s'.board := by
  obtain ⟨gate, hg, rfl⟩ := Option.map_eq_some_iff.mp hs
  simp only [gateStep, launch] at hg
  split_ifs at hg with hposted hstarted
  · obtain rfl := Option.some.inj hg
    subst hstarted
    exact Board.Step.of_coming (.rest _ fun _ hx => hx) (onTheWay_launch hposted)
  · obtain ⟨completions, heq, hmem⟩ :=
      completeBiometricAuth_eq { s.gate with posted := s.gate.posted.erase id } id false
    rw [heq] at hg
    obtain rfl := Option.some.inj hg
    rw [if_neg hstarted, List.append_nil]
    exact Board.Step.of_coming (.lost id _ (onTheWay_pos_left hposted) (answered_or hmem)) (onTheWay_erase_left hposted)

theorem step_onCreate {id : ℤ} {enrolled : Bool} (hn : s.creating = none)
    (hs : s.gateStep prov (.onCreate id enrolled) = some s') : s.board.Step s'.board := by
  simp only [Prompts.gateStep] at hs
  split_ifs at hs with hstarting hp <;> obtain rfl := Option.some.inj hs
  · rw [onCreate_prompting hp, hp]
    exact Board.Step.of_coming (.create id (onTheWay_pos_right hstarting) hn) (onTheWay_erase_right hstarting)
  · rw [Bool.not_eq_true] at hp
    obtain ⟨completions, heq, hmem⟩ := onCreate_refused (s := s.gate) hp
    rw [heq, hp, ← hn]
    exact Board.Step.of_coming (.refuse id _ (onTheWay_pos_right hstarting) hn (answered_or hmem))
      (onTheWay_erase_right hstarting)

theorem step_promptEnds {n : ℕ} {success : Bool} (hn : s.creating = none)
    (hs : s.gateStep prov (.promptEnds n success) = some s') : s.board.Step s'.board := by
  obtain ⟨gate, hg, rfl⟩ := Option.map_eq_some_iff.mp hs
  simp only [gateStep, promptEnds] at hg
  split at hg
  · rename_i id hact
    obtain ⟨completions, heq, hmem⟩ := completeBiometricAuth_eq
      { s.gate with log := s.gate.log ++ if success then [.succeeded id] else [] } id success
    rw [heq] at hg
    obtain rfl := Option.some.inj hg
    exact .promptEnds n id _ hact hn (answered_or hmem)
  · cases hg

theorem step_complete {id : ℤ} {success : Bool} (hs : s.gateStep prov (.complete id success) = some s') :
    s.board.Step s'.board := by
  obtain ⟨gate, hg, rfl⟩ := Option.map_eq_some_iff.mp hs
  simp only [gateStep, complete] at hg
  split_ifs at hg with hmem
  obtain rfl := Option.some.inj hg
  refine .rest _ fun x hx => ?_
  rcases eq_or_ne x id with rfl | hne
  · exact Or.inr ⟨success, hmem⟩
  · rcases hx with hx | ⟨ok, hx⟩
    · dsimp only at hx
      rw [Function.update_of_ne hne] at hx
      exact Or.inl hx
    · exact Or.inr ⟨ok, List.mem_of_mem_erase hx⟩

theorem step_callFails {c : Caller} (hs : s.gateStep prov (.callFails c) = some s') : s.board.Step s'.board := by
  obtain ⟨gate, hg, rfl⟩ := Option.map_eq_some_iff.mp hs
  simp only [gateStep, callFails] at hg
  have hcall : s.board.call c = s.gate.call c := rfl
  cases hc : s.gate.call c with
  | post id | waiting id =>
    simp only [hc, Option.some.injEq] at hg
    subst hg
    exact .advance c (.dismiss id) (by rw [hcall, hc]; rfl) (fun h => by cases h) rfl
  | _ => simp [hc] at hg

/-- Each step of the system that comes in time is one of the board. -/
theorem step_board {a : PromptAction} (ht : s.timely a = true) (hs : promptStep prov s a = some s') :
    s.board.Step s'.board := by
  cases a with
  | gate a =>
    simp only [promptStep] at hs
    split_ifs at hs with hl
    cases a with
    | server a =>
      obtain ⟨gate, hg, rfl⟩ := Option.map_eq_some_iff.mp hs
      obtain ⟨server, current, arrivals, log, rfl⟩ := serverStep_eq hg
      exact .rest _ fun _ hx => hx
    | await c enrolled =>
      obtain ⟨gate, hg, rfl⟩ := Option.map_eq_some_iff.mp hs
      simp only [gateStep, awaitBiometricAuth] at hg
      split_ifs at hg with hidle
      · obtain rfl := Option.some.inj hg
        exact .draw c hidle.1
      · obtain ⟨server, rfl⟩ := awaitReturns_eq hg
        exact .rest _ fun _ hx => hx
    | callStep c => exact step_callStep hs ht
    | callFails c => exact step_callFails hs
    | launch id started => exact step_launch hs
    | onCreate id enrolled => exact step_onCreate (by simpa [Action.onLooper] using hl) hs
    | promptEnds n success => exact step_promptEnds (by simpa [Action.onLooper] using hl) hs
    | onDestroy n =>
      have hn : s.creating = none := by simpa [Action.onLooper] using hl
      obtain ⟨gate, hg, rfl⟩ := Option.map_eq_some_iff.mp hs
      obtain ⟨id, p, registered, hact, rfl, hr⟩ := onDestroy_eq hg
      exact .destroy n id p registered hact hn hr
    | complete id success => exact step_complete hs
  | dropped id =>
    simp only [promptStep] at hs
    split_ifs at hs with hstarting
    obtain rfl := Option.some.inj hs
    exact Board.Step.of_coming (.lost id _ (onTheWay_pos_right hstarting) fun x hx => Or.inl hx)
      (onTheWay_erase_right hstarting)
  | authenticate =>
    simp only [promptStep] at hs
    split_ifs at hs
    obtain rfl := Option.some.inj hs
    exact .authenticate
  | finish n =>
    simp only [promptStep, Prompts.finish] at hs
    split_ifs at hs with hn
    obtain rfl := Option.some.inj hs
    exact .finish n hn.1 hn.2
  | recreate n =>
    simp only [promptStep, Prompts.recreate] at hs
    split at hs
    · split_ifs at hs with hn
      obtain ⟨gate, hg, rfl⟩ := Option.map_eq_some_iff.mp hs
      obtain ⟨id', p', registered, hact', rfl, hr⟩ := onDestroy_eq hg
      rename_i id p hact
      obtain ⟨rfl, rfl⟩ := Activity.created.inj (hact.symm.trans hact')
      have hposts : n ∉ s.finishPosts := by simpa [Prompts.timely] using ht
      exact Board.Step.of_coming (.recreate n id p registered hact hn.1 hn.2 hposts hr) onTheWay_append_right
    · cases hs

/-- The gate inside takes steps of its own, so that what holds of its runs holds here. -/
theorem step_gate {a : PromptAction} (hs : promptStep prov s a = some s') :
    s'.gate = s.gate ∨ ∃ b, gateStep prov s.gate b = some s'.gate := by
  cases a with
  | gate a =>
    simp only [promptStep] at hs
    split_ifs at hs
    refine Or.inr ⟨a, ?_⟩
    cases a with
    | onCreate id enrolled =>
      simp only [Prompts.gateStep] at hs
      split_ifs at hs <;> obtain rfl := Option.some.inj hs <;> rfl
    | _ =>
      obtain ⟨gate, hg, rfl⟩ := Option.map_eq_some_iff.mp hs
      exact hg
  | dropped id | authenticate | finish n =>
    simp only [promptStep, Prompts.finish] at hs
    split_ifs at hs
    obtain rfl := Option.some.inj hs
    exact Or.inl rfl
  | recreate n =>
    simp only [promptStep, Prompts.recreate] at hs
    split at hs
    · split_ifs at hs
      obtain ⟨gate, hg, rfl⟩ := Option.map_eq_some_iff.mp hs
      exact Or.inr ⟨.onDestroy n, hg⟩
    · cases hs

theorem run_gate {counters : JString → ℤ} {ok : Prompts → PromptAction → Prop} {acts : List PromptAction}
    (h : Run (Prompts.init counters) (promptStep prov) ok acts s) :
    ∃ acts', Run (System.init counters) (gateStep prov) anyStep acts' s.gate := by
  induction h with
  | nil => exact ⟨[], Run.nil⟩
  | snoc _ _ hs ih =>
    obtain ⟨acts', hrun⟩ := ih
    rcases step_gate hs with hsame | ⟨b, hb⟩
    · exact ⟨acts', hsame ▸ hrun⟩
    · exact ⟨_, hrun.snoc trivial hb⟩

end Simulation

/-! Runs. -/

theorem init_safe (counters : JString → ℤ) : (Prompts.init counters).board.Safe where
  inv := {
    calls := ⟨nofun, nofun, nofun⟩
    placed := ⟨fun _ => Nat.zero_le _, nofun, nofun, fun _ _ => rfl⟩
    launched := by
      rintro id (h | ⟨n, p, h⟩ | h | ⟨ok, h⟩)
      · cases h
      · cases h
      · exact absurd rfl h
      · cases h
    registered := nofun
    refused := nofun
    answered := by
      rintro id (h | ⟨ok, h⟩)
      · exact absurd rfl h
      · cases h
    creating := nofun }
  settled := by
    rintro id (h | ⟨c, h, -⟩) <;> cases h

section Traces

variable {prov : Provider} {counters : JString → ℤ}

theorem trace_safe (t : Trace (Prompts.init counters) (promptStep prov) fun s a => s.timely a = true) (i : ℕ) :
    (t.state i).board.Safe := by
  obtain ⟨acts, hrun⟩ := t.exists_run i
  exact hrun.inv (fun s => s.board.Safe) (init_safe counters) fun _ _ _ h ht hs => h.step (step_board ht hs)

/-- `onCreate` gets to its end. -/
theorem looper_free {t : Trace (Prompts.init counters) (promptStep prov) fun s a => s.timely a = true}
    (hauth : t.WeakFair (· = .authenticate)) (i : ℕ) : ∃ j, i ≤ j ∧ (t.state j).creating = none := by
  refine Trace.leadsTo_of_measure hauth (fun _ => True) (fun s => s.creating = none) (fun _ => 0) ?_ ?_ trivial
  · intro s _ hcr
    refine ⟨_, rfl, ?_⟩
    simp [promptStep, Option.isSome_iff_ne_none, hcr]
  · intro s a s' _ _ _ hs
    rcases eq_or_ne a .authenticate with rfl | hne
    · simp only [promptStep] at hs
      split_ifs at hs
      obtain rfl := Option.some.inj hs
      exact Or.inl rfl
    · exact Or.inr ⟨trivial, le_rfl, fun ha => absurd ha hne⟩

/-- An activity of a settled id has finished, or has its `finish()` in the queue. -/
theorem posted_of_settled {s : Prompts} {n : ℕ} {id : ℤ} {p : Bool} (h : s.board.Settled id)
    (hn : s.gate.activity n = .created id p) (hc : ¬ s.Closed n) : n ∈ s.finishPosts :=
  ((h.2 n p hn).2).resolve_left fun hf => hc (Or.inl hf)

theorem finish_closes {s s' : Prompts} {n : ℕ} (hs : promptStep prov s (.finish n) = some s') : s'.Closed n := by
  simp only [promptStep, Prompts.finish] at hs
  split_ifs at hs
  obtain rfl := Option.some.inj hs
  exact Or.inl (Function.update_self ..)

/-- A prompt whose call has returned closes. -/
theorem shown_closes {t : Trace (Prompts.init counters) (promptStep prov) fun s a => s.timely a = true}
    (hauth : t.WeakFair (· = .authenticate)) {n : ℕ} (hfinish : t.StrongFair (· = .finish n)) {id : ℤ} {i : ℕ}
    (hret : id ∈ (t.state i).returned) (hn : (t.state i).gate.activity n = .created id true) :
    ∃ j, i ≤ j ∧ (t.state j).Closed n := by
  -- until it closes, the activity is there and its `finish()` is queued
  let P : Prompts → Prop := fun s =>
    s.board.Safe ∧ id ∈ s.returned ∧ s.gate.activity n = .created id true
  have hkeep : ∀ s a s', P s → s.timely a = true → promptStep prov s a = some s' → s'.Closed n ∨ P s' := by
    rintro s a s' ⟨hsafe, hmem, hact⟩ ht hs
    have hstep := step_board ht hs
    rcases hsafe.inv.step_activity hstep hact with hact' | hgone
    · exact Or.inr ⟨hsafe.step hstep, hstep.returned hmem, hact'⟩
    · exact Or.inl (Or.inr hgone)
  refine Trace.leadsTo_of_strong hfinish P (fun s => s.Closed n) ?_ ?_ ⟨trace_safe t i, hret, hn⟩
  · intro m hP
    by_cases hclosed : ∃ k, m ≤ k ∧ (t.state k).Closed n
    · obtain ⟨k, hk, hq⟩ := hclosed
      exact ⟨k, hk, Or.inr hq⟩
    · obtain ⟨k, hk, hfree⟩ := looper_free hauth m
      have hopen : ∀ k, m ≤ k → ¬ (t.state k).Closed n := fun k hk hq => hclosed ⟨k, hk, hq⟩
      obtain ⟨hsafe, hmem, hact⟩ := Trace.persists hkeep hP hopen k hk
      have hqueued := posted_of_settled (hsafe.settled id (Or.inl hmem)) hact (hopen k hk)
      exact ⟨k, hk, Or.inl ⟨_, rfl, by simp [promptStep, Prompts.finish, hfree, hqueued]⟩⟩
  · intro s a s' hP ht hs
    by_cases ha : a = .finish n
    · subst ha
      exact Or.inl (finish_closes hs)
    · exact (hkeep s a s' hP ht hs).imp_right fun hP' => ⟨hP', ha⟩

/-- Once its call has returned, a prompt that is shown was shown at the return. -/
theorem shown_before (t : Trace (Prompts.init counters) (promptStep prov) fun s a => s.timely a = true) {id : ℤ} {i : ℕ}
    (hret : id ∈ (t.state i).returned) (n : ℕ) (j : ℕ) (hij : i ≤ j) :
    id ∈ (t.state j).returned ∧ ((t.state j).Shows n id → (t.state i).Shows n id) := by
  induction j, hij using Nat.le_induction with
  | base => exact ⟨hret, fun h => h⟩
  | succ j hij ih =>
    obtain ⟨hmem, hback⟩ := ih
    rcases t.next j with ⟨a, -, ht, hs⟩ | ⟨-, hs⟩
    · have hstep := step_board ht hs
      have hset := (trace_safe t j).settled id (Or.inl hmem)
      refine ⟨hstep.returned hmem, fun hshows => hback ?_⟩
      have hold := hstep.activity_old hset.1 hshows.1
      exact ⟨hold, (hset.2 n true hold).1⟩
    · rw [hs]
      exact ⟨hmem, hback⟩

/-- In every run whose dismissals come in time: once `awaitBiometricAuth` has
returned for an id, no prompt for it is shown that was not shown then, and one that
was shown is told to finish. -/
theorem returned_prompts_close (prov : Provider) (counters : JString → ℤ)
    (t : Trace (Prompts.init counters) (promptStep prov) fun s a => s.timely a = true)
    (hauth : t.WeakFair (· = .authenticate)) (hfinish : ∀ n, t.StrongFair (· = .finish n)) (id : ℤ) (i : ℕ)
    (hret : id ∈ (t.state i).returned) :
    (∀ j n, i ≤ j → (t.state j).Shows n id → (t.state i).Shows n id) ∧
      ∀ n, (t.state i).Shows n id → ∃ j, i ≤ j ∧ (t.state j).Closed n :=
  ⟨fun j n hij => (shown_before t hret n j hij).2, fun n hn => shown_closes hauth (hfinish n) hret hn.1⟩

end Traces

/-- A client asks for a signature and its worker has posted the launch of prompt 1. -/
def launchPosted : List PromptAction :=
  (signOnce.take 12 ++
    [Action.await (.worker 0) true, .callStep (.worker 0), .callStep (.worker 0)]).map PromptAction.gate

/-- The wait ends without an answer, and the call returns. -/
def timeOut : List PromptAction :=
  [Action.callFails (.worker 0), .callStep (.worker 0), .callStep (.worker 0)].map PromptAction.gate

def showPrompt : List PromptAction := [.gate (.launch 1 true), .gate (.onCreate 1 true), .authenticate]

/-- The wait ends while the prompt is shown. -/
def dismissShown : List PromptAction := launchPosted ++ showPrompt ++ timeOut ++ [.finish 0]

theorem exec_dismissShown : ∃ last, exec (promptStep laxProvider) (fun s a => s.timely a = true)
    (Prompts.init fun _ => 0) dismissShown = some last ∧ last.creating = none ∧ last.finishPosts = [] :=
  exists_of_exec (by decide)

theorem returned_prompts_close_shown :
    ∃ t : Trace (Prompts.init fun _ => 0) (promptStep laxProvider) fun s a => s.timely a = true,
      t.WeakFair (· = .authenticate) ∧ (∀ n, t.StrongFair (· = .finish n)) ∧
      1 ∈ (t.state 21).returned ∧ (t.state 21).Shows 0 1 ∧ ¬ (t.state 21).Closed 0 ∧
      ∃ j, 21 ≤ j ∧ (t.state j).Closed 0 := by
  obtain ⟨last, hexec, hcr, hposts⟩ := exec_dismissShown
  have hauth := (Trace.ofExec_strongFair (A := (· = PromptAction.authenticate)) hexec (by
    rintro ⟨a, rfl, hs⟩
    simp [promptStep, hcr] at hs)).weak
  have hfinish : ∀ n, (Trace.ofExec hexec).StrongFair (· = .finish n) := fun n => Trace.ofExec_strongFair hexec (by
    rintro ⟨a, rfl, hs⟩
    simp [promptStep, Prompts.finish, hposts] at hs)
  have hstate : (Trace.ofExec hexec).state 21 = (exec (promptStep laxProvider) (fun s a => s.timely a = true)
      (Prompts.init fun _ => 0) (dismissShown.take 21)).getD (Prompts.init fun _ => 0) := rfl
  have hat : 1 ∈ ((Trace.ofExec hexec).state 21).returned ∧ ((Trace.ofExec hexec).state 21).Shows 0 1 ∧
      ¬ ((Trace.ofExec hexec).state 21).Closed 0 := by
    rw [hstate]
    decide
  obtain ⟨hret, hshows, hopen⟩ := hat
  have hclose := (returned_prompts_close laxProvider (fun _ => 0) _ hauth hfinish 1 21 hret).2 0 hshows
  exact ⟨_, hauth, hfinish, hret, hshows, hopen, hclose⟩

/-- The wait ends while the launch is in the looper's queue: the dismissal finds no
prompt, and the launch shows one after the return. When the activity is re-created
between the dismissal and its `finish()`, the old activity is finished and the new
one shows its prompt. Nobody is asked to finish either. -/
theorem late_prompts_shown :
    (∃ s s', Run (Prompts.init fun _ => 0) (promptStep laxProvider) anyStep (launchPosted ++ timeOut) s ∧
      Run s (promptStep laxProvider) anyStep showPrompt s' ∧
      1 ∈ s.returned ∧ s.gate.activities = 0 ∧ s'.Shows 0 1 ∧ ¬ s'.Closed 0 ∧ s'.finishPosts = []) ∧
    ∃ s s', Run (Prompts.init fun _ => 0) (promptStep laxProvider) anyStep (launchPosted ++ showPrompt ++ timeOut) s ∧
      Run s (promptStep laxProvider) anyStep [.recreate 0, .gate (.onCreate 1 true), .authenticate, .finish 0] s' ∧
      1 ∈ s.returned ∧ s.gate.activities = 1 ∧ s'.Shows 1 1 ∧ ¬ s'.Closed 1 ∧ s'.finishPosts = [] :=
  ⟨exists_runs_of_exec (by decide), exists_runs_of_exec (by decide)⟩

end Tinyhack.Biometric
