import TinyhackSsh.Spec.SshAdd

/-! When the calls of ssh-add end. The output is read without a limit, and the timeout only
starts when the output has ended. -/

namespace Tinyhack.SshAdd

def EndsBy (call : ℕ → Call) (limit : ℕ) : Prop := ∃ t ≤ limit, (call t).phase.isOver = true

/-- The child closes its output within the limit; and it also exits within it, or leaves `waitFor` its whole
timeout. -/
def Prompt (child : Child) (timeoutMs slack : ℕ) : Prop :=
  ∃ closed, child.closed = some closed ∧ closed ≤ timeoutMs + slack ∧
    ((∃ e ∈ child.exited, e.1 ≤ timeoutMs + slack) ∨ closed ≤ slack)

theorem closedBy_iff {child : Child} {t : ℕ} :
    child.closedBy t = true ↔ ∃ closed, child.closed = some closed ∧ closed ≤ t := by
  simp [Child.closedBy, Option.any_eq_true]

theorem exitedBy_isSome {child : Child} {t : ℕ} : (child.exitedBy t).isSome = true ↔ ∃ e ∈ child.exited, e.1 ≤ t := by
  cases h : child.exited with
  | none => simp [Child.exitedBy, h]
  | some e => by_cases he : e.1 ≤ t <;> simp [Child.exitedBy, h, he, Option.filter]

/-! ### One millisecond -/

@[simp]
theorem leave_phase (wipes : Bool) (c : Call) : (c.leave wipes).phase = c.phase := by
  unfold Call.leave
  split_ifs <;> rfl

@[simp]
theorem read_passFile (child : Child) (timeoutMs t : ℕ) (c : Call) :
    (c.read child timeoutMs t).passFile = c.passFile := by
  unfold Call.read
  split <;> rfl

@[simp]
theorem wait_passFile (child : Child) (t : ℕ) (c : Call) : (c.wait child t).passFile = c.passFile := by
  unfold Call.wait
  split
  · split
    · rfl
    · split_ifs <;> rfl
  · rfl

theorem tick_of_over {child : Child} {timeoutMs t : ℕ} {wipes : Bool} {c : Call} (h : c.phase.isOver = true) :
    c.tick child timeoutMs wipes t = c := if_pos h

theorem wait_phase {child : Child} {t deadline : ℕ} {c : Call} (h : c.phase = .waiting deadline) :
    ((∃ e ∈ child.exited, e.1 ≤ t) ∨ deadline ≤ t → (c.wait child t).phase.isOver = true) ∧
    (¬((∃ e ∈ child.exited, e.1 ≤ t) ∨ deadline ≤ t) → (c.wait child t).phase = .waiting deadline) := by
  rw [← exitedBy_isSome]
  simp only [Call.wait, h]
  cases child.exitedBy t with
  | some status => simp [Phase.isOver]
  | none => by_cases hd : deadline ≤ t <;> simp [hd, h, Phase.isOver]

section Tick

variable {child : Child} {timeoutMs t : ℕ} {wipes : Bool} {c : Call}

theorem tick_reading (h : c.phase = .reading) (hclosed : child.closedBy t = false) :
    (c.tick child timeoutMs wipes t).phase = .reading := by
  simp [Call.tick, Call.read, Call.wait, h, hclosed, Phase.isOver]

/-- The end of the output is noticed, and `waitFor` begins. -/
theorem tick_closes (h : c.phase = .reading) (hclosed : child.closedBy t = true) :
    ∃ c' : Call, c'.phase = .waiting (t + timeoutMs) ∧
      (c.tick child timeoutMs wipes t).phase = (c'.wait child t).phase := by
  refine ⟨({ c with passFile := c.passFile.bind (child.touch t) } : Call).read child timeoutMs t, ?_, ?_⟩
  · simp [Call.read, h, hclosed]
  · simp [Call.tick, h, Phase.isOver]

theorem tick_waits {deadline : ℕ} (h : c.phase = .waiting deadline) :
    ∃ c' : Call, c'.phase = .waiting deadline ∧ (c.tick child timeoutMs wipes t).phase = (c'.wait child t).phase := by
  refine ⟨{ c with passFile := c.passFile.bind (child.touch t) }, h, ?_⟩
  simp [Call.tick, Call.read, h, Phase.isOver]

end Tick

/-! ### The call -/

section Call

variable (child : Child) (timeoutMs : ℕ) (wipes : Bool) (passFile : Option Bytes)

theorem after_reading {t : ℕ} (h : child.closedBy t = false) :
    (Call.after child timeoutMs wipes ⟨.reading, [], passFile⟩ t).phase = .reading := by
  induction t with
  | zero => exact tick_reading rfl h
  | succ t ih =>
    have hbefore : child.closedBy t = false := by
      rw [Bool.eq_false_iff, ne_eq, closedBy_iff] at h ⊢
      rintro ⟨closed, hclosed, hle⟩
      exact h ⟨closed, hclosed, hle.trans (Nat.le_succ t)⟩
    exact tick_reading (ih hbefore) h

/-- From the end of the output on, the call waits until the child has exited or the timeout is over. -/
theorem after_closed {closed : ℕ} (hclosed : child.closed = some closed) {t : ℕ} (ht : closed ≤ t) :
    ((∃ e ∈ child.exited, e.1 ≤ t) ∨ closed + timeoutMs ≤ t →
      (Call.after child timeoutMs wipes ⟨.reading, [], passFile⟩ t).phase.isOver = true) ∧
    (¬((∃ e ∈ child.exited, e.1 ≤ t) ∨ closed + timeoutMs ≤ t) →
      (Call.after child timeoutMs wipes ⟨.reading, [], passFile⟩ t).phase = .waiting (closed + timeoutMs)) := by
  have hby : ∀ u, child.closedBy u = true ↔ closed ≤ u := by
    intro u
    rw [closedBy_iff, hclosed]
    simp
  have hfirst : ∀ c : Call, c.phase = .reading →
      ((∃ e ∈ child.exited, e.1 ≤ closed) ∨ closed + timeoutMs ≤ closed →
        (c.tick child timeoutMs wipes closed).phase.isOver = true) ∧
      (¬((∃ e ∈ child.exited, e.1 ≤ closed) ∨ closed + timeoutMs ≤ closed) →
        (c.tick child timeoutMs wipes closed).phase = .waiting (closed + timeoutMs)) := by
    intro c hc
    obtain ⟨c', hc', heq⟩ := @tick_closes child timeoutMs closed wipes c hc ((hby closed).mpr le_rfl)
    rw [heq]
    exact wait_phase hc'
  induction t with
  | zero =>
    obtain rfl : closed = 0 := Nat.le_zero.mp ht
    exact hfirst _ rfl
  | succ t ih =>
    rcases Nat.eq_or_lt_of_le ht with rfl | hlt
    · apply hfirst
      apply after_reading
      rw [Bool.eq_false_iff, ne_eq, hby]
      omega
    · obtain ⟨hover, hwaiting⟩ := ih (Nat.le_of_lt_succ hlt)
      by_cases hdue : (∃ e ∈ child.exited, e.1 ≤ t) ∨ closed + timeoutMs ≤ t
      · have hover' : (Call.after child timeoutMs wipes ⟨.reading, [], passFile⟩ (t + 1)).phase.isOver = true := by
          rw [Call.after, tick_of_over (hover hdue)]
          exact hover hdue
        refine ⟨fun _ => hover', fun hnot => absurd ?_ hnot⟩
        rcases hdue with ⟨e, he, hle⟩ | hle
        · exact .inl ⟨e, he, hle.trans (Nat.le_succ t)⟩
        · exact .inr (hle.trans (Nat.le_succ t))
      · obtain ⟨c', hc', heq⟩ := @tick_waits child timeoutMs (t + 1) wipes _ _ (hwaiting hdue)
        rw [Call.after, heq]
        exact wait_phase hc'

theorem after_ends_iff (slack : ℕ) :
    EndsBy (Call.after child timeoutMs wipes ⟨.reading, [], passFile⟩) (timeoutMs + slack) ↔
      Prompt child timeoutMs slack := by
  constructor
  · rintro ⟨t, ht, hover⟩
    have hby : child.closedBy t = true := by
      by_contra hnot
      rw [after_reading child timeoutMs wipes passFile (Bool.eq_false_iff.mpr hnot)] at hover
      exact absurd hover (by decide)
    obtain ⟨closed, hclosed, hle⟩ := closedBy_iff.mp hby
    refine ⟨closed, hclosed, hle.trans ht, ?_⟩
    by_contra hlate
    rw [not_or] at hlate
    rw [(after_closed child timeoutMs wipes passFile hclosed hle).2] at hover
    · exact absurd hover (by simp [Phase.isOver])
    · rintro (⟨e, he, hexit⟩ | hdeadline)
      · exact hlate.1 ⟨e, he, hexit.trans ht⟩
      · exact hlate.2 (by omega)
  · rintro ⟨closed, hclosed, hle, hdue⟩
    refine ⟨timeoutMs + slack, le_rfl, (after_closed child timeoutMs wipes passFile hclosed hle).1 ?_⟩
    rcases hdue with hexit | hslack
    · exact .inl hexit
    · exact .inr (by omega)

/-- The file is gone when a call that wipes it is over. -/
theorem after_wiped (t : ℕ) (h : (Call.after child timeoutMs true ⟨.reading, [], passFile⟩ t).phase.isOver = true) :
    (Call.after child timeoutMs true ⟨.reading, [], passFile⟩ t).passFile = none := by
  have htick : ∀ (c : Call) (u : ℕ), c.phase.isOver = false → (c.tick child timeoutMs true u).phase.isOver = true →
      (c.tick child timeoutMs true u).passFile = none := by
    intro c u hc hover
    rw [Call.tick, if_neg (by simp [hc])] at hover ⊢
    rw [leave_phase] at hover
    simp only [Call.leave, hover, Bool.and_true, if_true]
    rfl
  induction t with
  | zero => exact htick _ _ rfl h
  | succ t ih =>
    cases hbefore : (Call.after child timeoutMs true ⟨.reading, [], passFile⟩ t).phase.isOver with
    | false => exact htick _ _ hbefore h
    | true =>
      rw [Call.after, tick_of_over hbefore]
      exact ih hbefore

/-- A call without the file never makes one. -/
theorem after_none (t : ℕ) : (Call.after child timeoutMs wipes ⟨.reading, [], none⟩ t).passFile = none := by
  have htick : ∀ (c : Call) (u : ℕ), c.passFile = none → (c.tick child timeoutMs wipes u).passFile = none := by
    intro c u hc
    unfold Call.tick
    split_ifs
    · exact hc
    · unfold Call.leave
      split_ifs
      · rfl
      · rw [wait_passFile, read_passFile]
        simp [hc]
  induction t with
  | zero => exact htick _ _ rfl
  | succ t ih => exact htick _ _ ih

end Call

theorem exec_ends_iff (started : Option Child) (timeoutMs slack : ℕ) (wipes : Bool) (passFile : Option Bytes) :
    EndsBy (exec started timeoutMs wipes passFile) (timeoutMs + slack) ↔
      ∀ child, started = some child → Prompt child timeoutMs slack := by
  cases started with
  | none =>
    refine iff_of_true ⟨0, Nat.zero_le _, ?_⟩ (by simp)
    rw [exec, leave_phase]
    rfl
  | some child =>
    rw [show (∀ c, some child = some c → Prompt c timeoutMs slack) ↔ Prompt child timeoutMs slack by simp]
    exact after_ends_iff child timeoutMs wipes passFile slack

theorem exec_wiped (started : Option Child) (timeoutMs : ℕ) (passFile : Option Bytes) (t : ℕ)
    (h : (exec started timeoutMs true passFile t).phase.isOver = true) :
    (exec started timeoutMs true passFile t).passFile = none := by
  cases started with
  | none => rfl
  | some child => exact after_wiped child timeoutMs passFile t h

theorem exec_none (started : Option Child) (timeoutMs t : ℕ) :
    (exec started timeoutMs false none t).passFile = none := by
  cases started with
  | none => rfl
  | some child => exact after_none child timeoutMs false t

/-- The process a call with a passphrase starts. -/
def passphraseSpawn (p : Paths) (keyPath : JString) (passphrase : Option JString) (passFile : JString) : Spawn :=
  if (passphrase.getD []).isEmpty then sshAddSpawn p (some [keyPath]) else askpassSpawn p keyPath passFile

theorem withPassphrase_ends_iff (start : Spawn → Option Child) (p : Paths) (keyPath : JString)
    (passphrase : Option JString) (passFile : JString) (timeoutMs slack : ℕ) :
    EndsBy (execSshAddWithPassphrase start p keyPath passphrase passFile timeoutMs) (timeoutMs + slack) ↔
      ∀ child, start (passphraseSpawn p keyPath passphrase passFile) = some child → Prompt child timeoutMs slack := by
  simp only [execSshAddWithPassphrase, passphraseSpawn, execSshAdd]
  split_ifs <;> exact exec_ends_iff ..

theorem withPassphrase_wiped (start : Spawn → Option Child) (p : Paths) (keyPath : JString)
    (passphrase : Option JString) (passFile : JString) (timeoutMs t : ℕ)
    (h : (execSshAddWithPassphrase start p keyPath passphrase passFile timeoutMs t).phase.isOver = true) :
    (execSshAddWithPassphrase start p keyPath passphrase passFile timeoutMs t).passFile = none := by
  simp only [execSshAddWithPassphrase, execSshAdd] at h ⊢
  split_ifs at h ⊢
  · exact exec_none ..
  · exact exec_wiped _ _ _ _ h

/-- Both calls end within the timeout and a given slack, with the passphrase file gone, exactly if their
children are prompt. -/
theorem sshAdd_ends_iff (start : Spawn → Option Child) (p : Paths) (args : Option (List JString)) (keyPath : JString)
    (passphrase : Option JString) (passFile : JString) (timeoutMs slack : ℕ) :
    (EndsBy (execSshAdd start p args timeoutMs) (timeoutMs + slack) ∧
      EndsBy (execSshAddWithPassphrase start p keyPath passphrase passFile timeoutMs) (timeoutMs + slack) ∧
      ∀ t, (execSshAddWithPassphrase start p keyPath passphrase passFile timeoutMs t).phase.isOver = true →
        (execSshAddWithPassphrase start p keyPath passphrase passFile timeoutMs t).passFile = none) ↔
    (∀ child, start (sshAddSpawn p args) = some child → Prompt child timeoutMs slack) ∧
      ∀ child, start (passphraseSpawn p keyPath passphrase passFile) = some child → Prompt child timeoutMs slack := by
  rw [withPassphrase_ends_iff, execSshAdd, exec_ends_iff]
  have hwiped := withPassphrase_wiped start p keyPath passphrase passFile timeoutMs
  constructor
  · rintro ⟨hadd, hpass, -⟩
    exact ⟨hadd, hpass⟩
  · rintro ⟨hadd, hpass⟩
    exact ⟨hadd, hpass, hwiped⟩

/-- A child that waits for an agent that does not answer. -/
def silentChild : Child := ⟨fun _ => [], none, none, fun _ file => some file⟩

/-- `ssh-add -l` with such a child never ends. -/
theorem sshAdd_never_ends :
    ¬∃ limit, EndsBy (execSshAdd (fun _ => some silentChild) ⟨[], [], [], none, true, false⟩ (some ["-l".toList]) 3000)
      limit := by
  rintro ⟨limit, t, -, hover⟩
  rw [execSshAdd, exec, after_reading silentChild 3000 false none rfl] at hover
  exact absurd hover (by decide)

end Tinyhack.SshAdd
