import TinyhackSsh.Lib.PosixWrite

/-! A loop around system calls, driven by the calls' outcomes: each step makes
one call, and an interrupted call is made again. -/

namespace PosixWrite

variable {σ : Type*}

/-- The state after `n` calls. -/
def drive (step : σ → Option ℕ → σ) (o : Outcomes) (s : σ) : ℕ → σ
  | 0 => s
  | n + 1 => step (drive step o s n) (o n)

variable {step : σ → Option ℕ → σ} {o : Outcomes} {s : σ}

theorem drive_inv (I : σ → Prop) (h0 : I s) (hs : ∀ s outcome, I s → I (step s outcome)) (n : ℕ) :
    I (drive step o s n) := by
  induction n with
  | zero => exact h0
  | succ n ih => exact hs _ _ ih

/-- Interrupted calls change nothing until the next one that is not. -/
theorem exists_uninterrupted (hnone : ∀ s, step s none = s) {n d : ℕ} (hsome : (o (n + d)).isSome = true) :
    ∃ m k, o m = some k ∧ drive step o s m = drive step o s n := by
  induction d generalizing n with
  | zero =>
    obtain ⟨k, hk⟩ := Option.isSome_iff_exists.mp hsome
    exact ⟨n, k, hk, rfl⟩
  | succ d ih =>
    cases ho : o n with
    | some k => exact ⟨n, k, ho, rfl⟩
    | none =>
      have hsame : drive step o s (n + 1) = drive step o s n := by rw [drive, ho, hnone]
      rw [← Nat.add_assoc, Nat.add_right_comm] at hsome
      rw [← hsame]
      exact ih hsome

/-- A loop whose uninterrupted calls lower a measure comes to an end. -/
theorem Fair.exists_final (hfair : Fair o) (hnone : ∀ s, step s none = s) (I final : σ → Prop) (measure : σ → ℕ)
    (h0 : I s) (hinv : ∀ s outcome, I s → I (step s outcome))
    (hsome : ∀ s k, I s → ¬ final s → final (step s (some k)) ∨ measure (step s (some k)) < measure s) :
    ∃ n, final (drive step o s n) := by
  have hnext : ∀ n, ∃ m, final (drive step o s m) ∨ measure (drive step o s m) < measure (drive step o s n) := by
    intro n
    obtain ⟨l, hle, hl⟩ := hfair n
    obtain ⟨d, rfl⟩ := Nat.exists_eq_add_of_le hle
    obtain ⟨m, k, hk, hsame⟩ := exists_uninterrupted (s := s) hnone hl
    by_cases hfinal : final (drive step o s m)
    · exact ⟨m, .inl hfinal⟩
    · refine ⟨m + 1, ?_⟩
      rw [drive, hk, ← hsame]
      exact hsome _ k (drive_inv I h0 hinv m) hfinal
  have hend : ∀ bound n, measure (drive step o s n) = bound → ∃ n, final (drive step o s n) := by
    intro bound
    induction bound using Nat.strong_induction_on with
    | _ bound ih =>
      intro n hn
      obtain ⟨m, hfinal | hlt⟩ := hnext n
      · exact ⟨m, hfinal⟩
      · exact ih _ (hn ▸ hlt) m rfl
  exact hend _ 0 rfl

end PosixWrite
