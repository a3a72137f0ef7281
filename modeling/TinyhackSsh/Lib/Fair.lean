import TinyhackSsh.Lib.Runs

/-! Infinite executions of a partial step function, fairness, and how a fair
class of actions brings about a goal. A moment in which nothing happens is
allowed, so that only fairness makes anybody move. -/

namespace Runs

variable {σ α : Type*}

structure Trace (init : σ) (step : σ → α → Option σ) (ok : σ → α → Prop) where
  state : ℕ → σ
  act : ℕ → Option α
  zero : state 0 = init
  next : ∀ n, (∃ a, act n = some a ∧ ok (state n) a ∧ step (state n) a = some (state (n + 1))) ∨
    (act n = none ∧ state (n + 1) = state n)

variable {init : σ} {step : σ → α → Option σ} {ok : σ → α → Prop}

/-- Some action of the class `A` can be taken. -/
def Enabled (step : σ → α → Option σ) (A : α → Prop) (s : σ) : Prop := ∃ a, A a ∧ (step s a).isSome = true

namespace Trace

variable (t : Trace init step ok) {A : α → Prop}

def Taken (A : α → Prop) (n : ℕ) : Prop := ∃ a, A a ∧ t.act n = some a

/-- A class that stays enabled is taken. -/
def WeakFair (A : α → Prop) : Prop :=
  ∀ n, (∀ k, n ≤ k → Enabled step A (t.state k)) → ∃ k, n ≤ k ∧ t.Taken A k

/-- A class that is enabled again and again is taken again and again. -/
def StrongFair (A : α → Prop) : Prop :=
  (∀ n, ∃ k, n ≤ k ∧ Enabled step A (t.state k)) → ∀ n, ∃ k, n ≤ k ∧ t.Taken A k

variable {t}

theorem StrongFair.weak (h : t.StrongFair A) : t.WeakFair A := by
  intro n hn
  refine h (fun m => ⟨max n m, le_max_right _ _, hn _ (le_max_left _ _)⟩) n

/-- Every state of a trace is reached by a run. -/
theorem exists_run (t : Trace init step ok) (n : ℕ) : ∃ acts, Run init step ok acts (t.state n) := by
  induction n with
  | zero =>
    rw [t.zero]
    exact ⟨[], Run.nil⟩
  | succ n ih =>
    obtain ⟨acts, hrun⟩ := ih
    rcases t.next n with ⟨a, -, hok, hs⟩ | ⟨-, hs⟩
    · exact ⟨_, hrun.snoc hok hs⟩
    · exact ⟨acts, hs ▸ hrun⟩

/-- What every permitted step keeps, unless it reaches `Q`, is kept until `Q`. -/
theorem persists {P Q : σ → Prop} (hs : ∀ s a s', P s → ok s a → step s a = some s' → Q s' ∨ P s')
    {n : ℕ} (hn : P (t.state n)) (hQ : ∀ k, n ≤ k → ¬ Q (t.state k)) : ∀ k, n ≤ k → P (t.state k) := by
  intro k hk
  induction k, hk using Nat.le_induction with
  | base => exact hn
  | succ k hk ih =>
    rcases t.next k with ⟨a, -, hok, hstep⟩ | ⟨-, hstep⟩
    · exact (hs _ a _ ih hok hstep).resolve_left (hQ (k + 1) (by omega))
    · rwa [hstep]

/-- `P` leads to `Q` when a weakly fair class stays enabled under `P`, its actions
lower a measure, and nobody else's action raises it. -/
theorem leadsTo_of_measure (hf : t.WeakFair A) (P Q : σ → Prop) (m : σ → ℕ)
    (he : ∀ s, P s → ¬ Q s → Enabled step A s)
    (hs : ∀ s a s', P s → ¬ Q s → ok s a → step s a = some s' →
      Q s' ∨ (P s' ∧ m s' ≤ m s ∧ (A a → m s' < m s)))
    {n : ℕ} (hn : P (t.state n)) : ∃ k, n ≤ k ∧ Q (t.state k) := by
  induction hm : m (t.state n) using Nat.strong_induction_on generalizing n with
  | _ bound ih =>
    by_contra hnone
    have hQ : ∀ k, n ≤ k → ¬ Q (t.state k) := fun k hk hq => hnone ⟨k, hk, hq⟩
    have hP : ∀ k, n ≤ k → P (t.state k) ∧ m (t.state k) ≤ bound := by
      intro k hk
      induction k, hk using Nat.le_induction with
      | base => exact ⟨hn, hm.le⟩
      | succ k hk ihk =>
        rcases t.next k with ⟨a, -, hok, hstep⟩ | ⟨-, hstep⟩
        · obtain ⟨hp, hle, -⟩ :=
            (hs _ a _ ihk.1 (hQ k hk) hok hstep).resolve_left (hQ (k + 1) (by omega))
          exact ⟨hp, hle.trans ihk.2⟩
        · rwa [hstep]
    -- the fair step lowers the measure, so the induction hypothesis applies after it
    obtain ⟨k, hk, a, hA, hact⟩ := hf n fun k hk => he _ (hP k hk).1 (hQ k hk)
    rcases t.next k with ⟨b, hb, hok, hstep⟩ | ⟨hidle, -⟩
    · obtain rfl : a = b := Option.some.inj (hact.symm.trans hb)
      obtain ⟨hp, -, hlt⟩ := (hs _ a _ (hP k hk).1 (hQ k hk) hok hstep).resolve_left (hQ (k + 1) (by omega))
      obtain ⟨j, hj, hq⟩ := ih _ ((hlt hA).trans_le (hP k hk).2) hp rfl
      exact hnone ⟨j, by omega, hq⟩
    · rw [hidle] at hact
      cases hact

/-- `P` leads to `Q` when a strongly fair class is enabled again and again under `P`
and each of its actions reaches `Q`. -/
theorem leadsTo_of_strong (hf : t.StrongFair A) (P Q : σ → Prop)
    (he : ∀ n, P (t.state n) → ∃ k, n ≤ k ∧ (Enabled step A (t.state k) ∨ Q (t.state k)))
    (hs : ∀ s a s', P s → ok s a → step s a = some s' → Q s' ∨ (P s' ∧ ¬ A a))
    {n : ℕ} (hn : P (t.state n)) : ∃ k, n ≤ k ∧ Q (t.state k) := by
  by_contra hnone
  have hQ : ∀ k, n ≤ k → ¬ Q (t.state k) := fun k hk hq => hnone ⟨k, hk, hq⟩
  have hP : ∀ k, n ≤ k → P (t.state k) :=
    persists (fun s a s' hp hok hstep => (hs s a s' hp hok hstep).imp_right And.left) hn hQ
  have hoften : ∀ m, ∃ k, m ≤ k ∧ Enabled step A (t.state k) := by
    intro m
    obtain ⟨k, hk, hen | hq⟩ := he (max n m) (hP _ (le_max_left _ _))
    · exact ⟨k, (le_max_right _ _).trans hk, hen⟩
    · exact absurd hq (hQ k ((le_max_left _ _).trans hk))
  obtain ⟨k, hk, a, hA, hact⟩ := hf hoften n
  rcases t.next k with ⟨b, hb, hok, hstep⟩ | ⟨hidle, -⟩
  · obtain rfl : a = b := Option.some.inj (hact.symm.trans hb)
    rcases hs _ a _ (hP k hk) hok hstep with hq | ⟨-, hnA⟩
    · exact hQ (k + 1) (by omega) hq
    · exact hnA hA
  · rw [hidle] at hact
    cases hact

end Trace

theorem exec_append [∀ s a, Decidable (ok s a)] (s : σ) (xs ys : List α) :
    exec step ok s (xs ++ ys) = (exec step ok s xs).bind fun s' => exec step ok s' ys := by
  induction xs generalizing s with
  | nil => rfl
  | cons a xs ih =>
    simp only [List.cons_append, exec]
    split_ifs
    · rw [Option.bind_assoc]
      exact Option.bind_congr fun s' _ => ih s'
    · rfl

/-- The execution that follows a list of actions and then rests. -/
def Trace.ofExec [∀ s a, Decidable (ok s a)] {acts : List α} {last : σ}
    (h : exec step ok init acts = some last) : Trace init step ok where
  state n := (exec step ok init (acts.take n)).getD init
  act n := acts[n]?
  zero := rfl
  next n := by
    have htake : acts.take (n + 1) = acts.take n ++ acts[n]?.toList := List.take_add_one
    have hsome : ∃ s, exec step ok init (acts.take n) = some s := by
      rw [← List.take_append_drop n acts, exec_append] at h
      obtain ⟨s, hs, -⟩ := Option.bind_eq_some_iff.mp h
      exact ⟨s, hs⟩
    have hsome' : ∃ s, exec step ok init (acts.take (n + 1)) = some s := by
      rw [← List.take_append_drop (n + 1) acts, exec_append] at h
      obtain ⟨s, hs, -⟩ := Option.bind_eq_some_iff.mp h
      exact ⟨s, hs⟩
    obtain ⟨s, hs⟩ := hsome
    obtain ⟨s', hs'⟩ := hsome'
    rw [hs, hs']
    rw [htake, exec_append, hs] at hs'
    cases ha : acts[n]? with
    | none =>
      refine Or.inr ⟨rfl, ?_⟩
      simpa [ha, exec, eq_comm] using hs'
    | some a =>
      refine Or.inl ⟨a, rfl, ?_⟩
      simp only [ha, Option.toList_some, Option.bind_some, exec] at hs'
      split_ifs at hs' with hok
      obtain ⟨s'', hstep, hlast⟩ := Option.bind_eq_some_iff.mp hs'
      obtain rfl := Option.some.inj hlast
      exact ⟨hok, hstep⟩

/-- It is fair to every class that cannot move in the end. -/
theorem Trace.ofExec_strongFair [∀ s a, Decidable (ok s a)] {acts : List α} {last : σ} {A : α → Prop}
    (h : exec step ok init acts = some last) (hend : ¬ Enabled step A last) : (Trace.ofExec h).StrongFair A := by
  intro hoften n
  obtain ⟨k, hk, hen⟩ := hoften acts.length
  have hlast : (Trace.ofExec h).state k = last := by simp [Trace.ofExec, List.take_of_length_le hk, h]
  rw [hlast] at hen
  exact absurd hen hend

end Runs
