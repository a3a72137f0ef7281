import TinyhackSsh.Proofs.NotificationLimits

/-! The sweep of pending assemblies: it is posted as long as there is one, a chunk
comes to no assembly that it would have removed, and when it runs on time no
assembly is kept for more than two of its periods. -/

namespace Tinyhack.Notify

open Runs

/-- The sweep and the end of the manager are as they were. -/
structure SameFlags (m m' : Manager) : Prop where
  destroyed : m'.destroyed = m.destroyed
  scheduled : m'.sweepScheduled = m.sweepScheduled
  due : m'.sweepDue = m.sweepDue

theorem SameFlags.refl (m : Manager) : SameFlags m m := ⟨rfl, rfl, rfl⟩

theorem SameFlags.trans {m m₁ m₂ : Manager} (h : SameFlags m m₁) (h' : SameFlags m₁ m₂) : SameFlags m m₂ :=
  ⟨h'.destroyed.trans h.destroyed, h'.scheduled.trans h.scheduled, h'.due.trans h.due⟩

theorem SameFlags.after {m m₁ m₂ : Manager} (h : SameFlags m₁ m₂) (hm₁ : SameFlags m m₁) : SameFlags m m₂ := hm₁.trans h

section Flags

variable {env : Env} {m m' : Manager}

theorem talk_flags (h : Talk env m m') : SameFlags m m' := by
  cases h with
  | close e report cause =>
    by_cases hlive : m.tokens.get? e.token = some e
    · rw [close_live hlive]
      exact ⟨rfl, rfl, rfl⟩
    · rw [close_stale hlive]
      exact .refl m
  | reply session id operation payload about =>
    rw [reply_eq]
    exact ⟨rfl, rfl, rfl⟩

theorem talks_flags (h : Talks env m m') : SameFlags m m' := by
  induction h with
  | refl => exact .refl m
  | tail _ hlast ih => exact ih.trans (talk_flags hlast)

theorem talk_frame (h : Talk env m m') : m'.pending = m.pending ∧ m'.submits = m.submits := by
  cases h with
  | close e report cause =>
    by_cases hlive : m.tokens.get? e.token = some e
    · rw [close_live hlive]
      refine ⟨rfl, ?_⟩
      simp only [Manager.submits, Manager.closeOutputs, List.filterMap_append]
      split_ifs <;> simp [Output.submitted]
    · rw [close_stale hlive]
      exact ⟨rfl, rfl⟩
  | reply session id operation payload about =>
    rw [reply_eq]
    refine ⟨rfl, ?_⟩
    simp only [Manager.submits, List.filterMap_append]
    split_ifs <;> simp [Output.submitted]

theorem talks_frame (h : Talks env m m') : m'.pending = m.pending ∧ m'.submits = m.submits := by
  induction h with
  | refl => exact ⟨rfl, rfl⟩
  | tail _ hlast ih => exact ⟨(talk_frame hlast).1.trans ih.1, (talk_frame hlast).2.trans ih.2⟩

theorem post_flags (a : Assembly) (title body : JString) : SameFlags m (m.post env a title body) := by
  unfold Manager.post
  dsimp only
  have hrec : SameFlags m (m.reconcile env) := talks_flags reconcile_talks
  generalize m.reconcile env = m₁ at hrec ⊢
  generalize hm₂ : (if (m₁.active.get? (m₁.postKey a)).isNone then m₁.trimActive env a.session else m₁) = m₂
  have hflags : SameFlags m m₂ := by
    subst hm₂
    split_ifs
    · exact hrec.trans (talks_flags (trimActive_talks _))
    · exact hrec
  split_ifs
  · exact ⟨hflags.destroyed, hflags.scheduled, hflags.due⟩
  · exact ⟨hflags.destroyed, hflags.scheduled, hflags.due⟩
  all_goals
    rw [register_eq]
    exact ⟨hflags.destroyed, hflags.scheduled, hflags.due⟩

theorem showAssembly_flags (a : Assembly) (title body : JString) : SameFlags m (m.showAssembly env a title body) := by
  unfold Manager.showAssembly
  dsimp only
  split_ifs
  · exact ⟨rfl, rfl, rfl⟩
  · exact (post_flags a title body).after ⟨rfl, rfl, rfl⟩
  · exact ⟨rfl, rfl, rfl⟩

/-- `scheduleSweep` was called. -/
structure Scheduled (m : Manager) (env : Env) (m' : Manager) : Prop where
  destroyed : m'.destroyed = m.destroyed
  scheduled : m'.sweepScheduled = true
  due : m'.sweepDue = if m.sweepScheduled then m.sweepDue else some (env.now + ASSEMBLY_TTL_MS)

theorem scheduled_scheduleSweep (pending : Pending) :
    Scheduled m env ({ m with pending := pending }.scheduleSweep env) := by
  unfold Manager.scheduleSweep
  dsimp only
  split_ifs with h
  · exact ⟨rfl, h, (if_pos h).symm⟩
  · exact ⟨rfl, rfl, (if_neg h).symm⟩

/-- A chunk that is not the last has the sweep scheduled, unless it comes to an assembly that has failed. -/
theorem chunk_flags (session : ℕ) (id : Option JString) (c : Chunk) :
    (SameFlags m (m.chunk env session id c) ∧
      (c.isFinal = true ∨ (m.pending.current env.now session id).failed = true)) ∨
    Scheduled m env (m.chunk env session id c) := by
  obtain ⟨ha, -⟩ := assembly_spec m.pending env.now session id
  rw [← ha]
  unfold Manager.chunk
  generalize m.pending.assembly env.now session id = r
  obtain ⟨pending, a⟩ := r
  dsimp only
  by_cases hfailed : a.failed = true
  · rw [if_pos hfailed]
    split_ifs <;> exact .inl ⟨⟨rfl, rfl, rfl⟩, .inr hfailed⟩
  rw [if_neg hfailed]
  cases a.add c with
  | none =>
    cases hfinal : c.isFinal with
    | true => exact .inl ⟨⟨rfl, rfl, rfl⟩, .inl rfl⟩
    | false => exact .inr (scheduled_scheduleSweep _)
  | some a' =>
    cases hfinal : c.isFinal with
    | false => exact .inr (scheduled_scheduleSweep _)
    | true =>
      simp only [Bool.not_true, Bool.false_eq_true, ↓reduceIte]
      cases a'.complete with
      | none => exact .inl ⟨⟨rfl, rfl, rfl⟩, .inl trivial⟩
      | some texts => exact .inl ⟨(showAssembly_flags _ _ _).after ⟨rfl, rfl, rfl⟩, .inl trivial⟩

end Flags

/-! The assembly that takes a chunk. -/

section Fresh

variable {now session : ℕ} {id : Option JString} {pending : Pending}

/-- It is one of those pending, and not older than 30 s, or it is new. -/
theorem current_cases : (∃ a, pending.get? (scope session id) = some a ∧ now - a.created ≤ ASSEMBLY_TTL_MS ∧
      pending.current now session id = a) ∨ pending.current now session id = Assembly.new session id now := by
  unfold Pending.current
  cases hget : (pending.sweepPending now).get? (scope session id) with
  | none => exact .inr rfl
  | some a =>
    rw [get?_sweepPending, Option.filter_eq_some_iff] at hget
    exact .inl ⟨a, hget.1, of_decide_eq_true hget.2, rfl⟩

theorem current_fresh : now ≤ (pending.current now session id).created + ASSEMBLY_TTL_MS := by
  have hcases : (∃ a, _ ∧ _ ∧ pending.current now session id = a) ∨ _ := current_cases
  rcases hcases with ⟨a, -, hage, heq⟩ | heq
  · rw [heq]
    omega
  · rw [heq]
    exact Nat.le_add_right _ _

theorem receive_created (a : Assembly) (c : Chunk) : (a.receive c).created = a.created := by
  unfold Assembly.receive
  split_ifs
  · rfl
  cases hadd : a.add c with
  | none => rfl
  | some a' => exact (Assembly.add_fields hadd).2.2.1

end Fresh

/-! What an event does to the assemblies and the sweep. -/

inductive SweepStep (m : Manager) (act : Action) (m' : Manager) : Prop
  | other (flags : SameFlags m m') (pending : m'.pending.Sub m.pending) (submits : m'.submits = m.submits)
  | chunk (session : ℕ) (id : Option JString) (c : Chunk) (alive : m.destroyed = false)
      (flags : (SameFlags m m' ∧ (c.isFinal = true ∨ (m.pending.current act.env.now session id).failed = true)) ∨
        Scheduled m act.env m')
      (own : m'.pending.get? (scope session id) =
        if c.isFinal then none else some ((m.pending.current act.env.now session id).receive c))
      (others : ∀ k a, k ≠ scope session id → m'.pending.get? k = some a → m.pending.get? k = some a)
      (submits : m'.submits = m.submits ++ if c.isFinal then
        (((m.pending.current act.env.now session id).receive c).outcome.map fun t =>
          ((m.pending.current act.env.now session id).receive c, t)).toList else [])
  | sweep (event : act.event = .sweep) (handled : m' = { m with sweepDue := none }.runSweep act.env)
  | destroy (destroyed : m'.destroyed = true) (due : m'.sweepDue = none) (pending : m'.pending = OrderedMap.empty)
      (submits : m'.submits = m.submits)

section Steps

variable {act : Action} {m m' : Manager}

theorem assembly_sub {now session : ℕ} {id : Option JString} {k : Key} {a : Assembly} (hk : k ≠ scope session id)
    (h : (m.pending.assembly now session id).1.get? k = some a) : m.pending.get? k = some a := by
  rw [(assembly_spec m.pending now session id).2.2 k hk] at h
  split_ifs at h
  · exact get?_of_sweepPending (get?_of_trimPending h)
  · exact get?_of_sweepPending h

theorem chunk_sweepStep (hm : Keyed m) {session : ℕ} {payload : Bytes} {request : Request}
    (haccepted : Accepted act session payload request) (halive : m.destroyed = false) (c : Chunk) :
    SweepStep m act (m.chunk act.env session request.id c) := by
  obtain ⟨hown, hothers, hsubmits⟩ := chunk_spec hm haccepted c
  refine .chunk session request.id c halive (chunk_flags session request.id c) hown ?_ hsubmits
  intro k a hk h
  rw [hothers k hk] at h
  exact assembly_sub hk h

/-- Closing and answering, after something that at most removed assemblies. -/
theorem talks_sweepStep {m₁ : Manager} (h : Talks act.env m₁ m') (hflags : SameFlags m m₁)
    (hpending : m₁.pending.Sub m.pending) (hsubmits : m₁.submits = m.submits) : SweepStep m act m' := by
  obtain ⟨hsame, hsubmits'⟩ := talks_frame h
  exact .other (hflags.trans (talks_flags h)) (hsame ▸ hpending) (hsubmits'.trans hsubmits)

theorem sub_refl (pending : Pending) : pending.Sub pending := fun _ _ h => h

theorem onNotification_sweepStep (hm : Keyed m) {session : ℕ} {metadata payload : Bytes}
    (hevent : act.event = .notification session metadata payload) :
    SweepStep m act (m.onNotification act.env session metadata payload) := by
  have hsame : SweepStep m act m := talks_sweepStep .refl (.refl m) (sub_refl _) rfl
  unfold Manager.onNotification
  by_cases hguard : m.ignores act.env session = true
  · rw [if_pos hguard]
    exact hsame
  rw [if_neg hguard]
  rw [Bool.not_eq_true] at hguard
  have halive : m.destroyed = false := by
    simp only [Manager.ignores, Bool.or_eq_false_iff] at hguard
    exact hguard.1.1
  cases hparse : parseRequest metadata with
  | none => exact hsame
  | some request =>
    have haccepted := accepted_of_not_ignores hevent hparse hguard
    dsimp only
    cases request.type with
    | query => exact talks_sweepStep (.single (.reply _ _ _ _ _)) (.refl m) (sub_refl _) rfl
    | alive => exact talks_sweepStep (reconcile_talks.tail (.reply _ _ _ _ _)) (.refl m) (sub_refl _) rfl
    | close =>
      cases request.id with
      | none => exact hsame
      | some id =>
        have hsub : (m.pending.erase (Key.scope session id)).Sub m.pending := fun _ _ => OrderedMap.get?_of_erase
        dsimp only [Manager.closeRequest]
        split
        · exact talks_sweepStep (.single (.close _ _ _)) ⟨rfl, rfl, rfl⟩ hsub rfl
        · exact talks_sweepStep .refl ⟨rfl, rfl, rfl⟩ hsub rfl
    | title => exact chunk_sweepStep hm haccepted halive _
    | body => exact chunk_sweepStep hm haccepted halive _
    | other => exact hsame

theorem step_sweepStep (hm : Keyed m) (hs : step m act = some m') : SweepStep m act m' := by
  cases step_handled hs with
  | notification event => exact onNotification_sweepStep hm event
  | intent event => exact talks_sweepStep (handleIntent_talks _) (.refl m) (sub_refl _) rfl
  | expiry event timer =>
    unfold Manager.runExpiry
    split_ifs
    · exact talks_sweepStep (.single (.close _ _ _)) ⟨rfl, rfl, rfl⟩ (sub_refl _) rfl
    · exact talks_sweepStep .refl ⟨rfl, rfl, rfl⟩ (sub_refl _) rfl
  | sweep event => exact .sweep event rfl
  | @sessionClosed session event =>
    have hsub : (m.pending.filter fun p => p.2.session ≠ session).Sub m.pending :=
      fun k a h => (Option.filter_eq_some_iff.mp (OrderedMap.get?_filter _ _ k ▸ h)).1
    have htalks : Talks act.env { m with pending := m.pending.filter fun p => p.2.session ≠ session }
        ({ m with pending := m.pending.filter fun p => p.2.session ≠ session }.closeWhere act.env false .sessionClosed
          (fun e => e.session = session) m.entries) := closeWhere_talks _ _ _ _
    refine .other ⟨(talks_flags htalks).destroyed, (talks_flags htalks).scheduled, (talks_flags htalks).due⟩
      (fun k a h => ?_) (talks_frame htalks).2
    rw [onSessionClosed_pending] at h
    exact hsub k a h
  | destroy event =>
    have htalks : Talks act.env { m with destroyed := true, timers := [], sweepDue := none }
        ({ m with destroyed := true, timers := [], sweepDue := none }.closeWhere act.env false .destroyed
          (fun _ => true) m.entries) := closeWhere_talks _ _ _ _
    exact .destroy (talks_flags htalks).destroyed (talks_flags htalks).due rfl (talks_frame htalks).2

end Steps

/-! Every run. -/

section Runs

variable {act : Action} {m m' : Manager}

/-- A sweep is posted as long as an assembly is pending. -/
structure Posted (m : Manager) : Prop where
  scheduled : m.destroyed = false → (m.sweepScheduled = true ↔ ∃ due, m.sweepDue = some due)
  pending : m.destroyed = false → ∀ k a, m.pending.get? k = some a → m.sweepScheduled = true

theorem posted_of_destroyed (h : m.destroyed = true) : Posted m :=
  ⟨fun halive => absurd (h.symm.trans halive) Bool.true_eq_false.mp,
    fun halive => absurd (h.symm.trans halive) Bool.true_eq_false.mp⟩

/-- The three ends of a sweep. -/
theorem runSweep_cases (m : Manager) (env : Env) :
    (m.destroyed = true ∧
      { m with sweepDue := none }.runSweep env = { m with sweepDue := none, sweepScheduled := false }) ∨
    (m.destroyed = false ∧ (∀ k, (m.pending.sweepPending env.now).get? k = none) ∧
      { m with sweepDue := none }.runSweep env =
        { m with pending := m.pending.sweepPending env.now, sweepDue := none, sweepScheduled := false }) ∨
    (m.destroyed = false ∧ { m with sweepDue := none }.runSweep env =
      { m with
        pending := m.pending.sweepPending env.now
        sweepDue := some (env.now + ASSEMBLY_TTL_MS)
        sweepScheduled := true }) := by
  unfold Manager.runSweep
  dsimp only
  cases hdestroyed : m.destroyed with
  | true => exact .inl ⟨rfl, rfl⟩
  | false =>
    rw [if_neg Bool.false_ne_true]
    split_ifs with hempty
    · refine .inr (.inl ⟨rfl, fun k => ?_, rfl⟩)
      rw [OrderedMap.get?_eq_none_iff]
      intro a ha
      rw [List.isEmpty_iff.mp hempty] at ha
      exact absurd ha List.not_mem_nil
    · exact .inr (.inr ⟨rfl, rfl⟩)

/-- An assembly that has failed was pending before. -/
theorem current_failed {now session : ℕ} {id : Option JString} {pending : Pending}
    (h : (pending.current now session id).failed = true) : ∃ a, pending.get? (scope session id) = some a := by
  rcases current_cases with ⟨a, hget, -⟩ | hnew
  · exact ⟨a, hget⟩
  · rw [hnew] at h
    exact absurd h Bool.false_ne_true

theorem Posted.step (h : Posted m) (hs : SweepStep m act m') : Posted m' := by
  cases hs with
  | other flags pending submits =>
    refine ⟨?_, ?_⟩
    · rw [flags.destroyed, flags.scheduled, flags.due]
      exact h.scheduled
    · rw [flags.destroyed, flags.scheduled]
      exact fun halive k a hk => h.pending halive k a (pending k a hk)
  | chunk session id c alive flags own others submits =>
    rcases flags with ⟨flags, hlast⟩ | flags
    · refine ⟨?_, ?_⟩
      · rw [flags.destroyed, flags.scheduled, flags.due]
        exact h.scheduled
      · rw [flags.destroyed, flags.scheduled]
        intro halive k a hk
        by_cases hkey : k = scope session id
        · subst hkey
          rcases hlast with hfinal | hfailed
          · rw [own, if_pos hfinal] at hk
            cases hk
          · obtain ⟨old, hold⟩ := current_failed hfailed
            exact h.pending halive _ old hold
        · exact h.pending halive k a (others k a hkey hk)
    · refine ⟨fun _ => iff_of_true flags.scheduled ?_, fun _ _ _ _ => flags.scheduled⟩
      rw [flags.due]
      split_ifs with hscheduled
      · exact (h.scheduled alive).mp hscheduled
      · exact ⟨_, rfl⟩
  | sweep event handled =>
    subst handled
    rcases runSweep_cases m act.env with ⟨hdead, heq⟩ | ⟨-, hempty, heq⟩ | ⟨-, heq⟩
    · rw [heq]
      exact posted_of_destroyed hdead
    · rw [heq]
      refine ⟨fun _ => iff_of_false Bool.false_ne_true (by simp), fun _ k a hk => ?_⟩
      rw [hempty k] at hk
      cases hk
    · rw [heq]
      exact ⟨fun _ => iff_of_true rfl ⟨_, rfl⟩, fun _ _ _ _ => rfl⟩
  | destroy destroyed due pending submits => exact posted_of_destroyed destroyed

/-- What an event changes or hands to `show` is not older than 30 s. -/
theorem step_fresh (hs : SweepStep m act m') :
    (∀ k a, m'.pending.get? k = some a → m.pending.get? k = some a ∨ act.env.now ≤ a.created + ASSEMBLY_TTL_MS) ∧
    ∃ shown, m'.submits = m.submits ++ shown ∧ ∀ x ∈ shown, act.env.now ≤ x.1.created + ASSEMBLY_TTL_MS := by
  cases hs with
  | other flags pending submits =>
    exact ⟨fun k a hk => .inl (pending k a hk), [], by rw [submits, List.append_nil], by simp⟩
  | chunk session id c alive flags own others submits =>
    have hfresh : act.env.now ≤ ((m.pending.current act.env.now session id).receive c).created + ASSEMBLY_TTL_MS := by
      rw [receive_created]
      exact current_fresh
    refine ⟨fun k a hk => ?_, _, submits, fun x hx => ?_⟩
    · by_cases hkey : k = scope session id
      · subst hkey
        rw [own] at hk
        split_ifs at hk
        obtain rfl := Option.some.inj hk
        exact .inr hfresh
      · exact .inl (others k a hkey hk)
    · split_ifs at hx
      · obtain ⟨t, -, rfl⟩ := Option.map_eq_some_iff.mp (Option.mem_toList.mp hx)
        exact hfresh
      · exact absurd hx List.not_mem_nil
  | sweep event handled =>
    subst handled
    rcases runSweep_cases m act.env with ⟨-, heq⟩ | ⟨-, -, heq⟩ | ⟨-, heq⟩
    · rw [heq]
      exact ⟨fun k a hk => .inl hk, [], (List.append_nil _).symm, by simp⟩
    · rw [heq]
      exact ⟨fun k a hk => .inl (get?_of_sweepPending hk), [], (List.append_nil _).symm, by simp⟩
    · rw [heq]
      exact ⟨fun k a hk => .inl (get?_of_sweepPending hk), [], (List.append_nil _).symm, by simp⟩
  | destroy destroyed due pending submits =>
    refine ⟨fun k a hk => ?_, [], by rw [submits, List.append_nil], by simp⟩
    rw [pending] at hk
    cases hk

end Runs

/-! Sweeps on time. -/

/-- The manager at a time. -/
structure Clocked where
  manager : Manager
  now : ℕ

inductive Tick
  | wait (time : ℕ)
  | event (act : Action)

/-- Time does not pass a sweep that is posted, and an event takes no time. -/
def clockStep (s : Clocked) : Tick → Option Clocked
  | .wait time =>
    if s.now ≤ time ∧ s.manager.sweepDue.all (time ≤ ·) then some { s with now := time } else none
  | .event act => if act.env.now = s.now then (step s.manager act).map fun m => ⟨m, s.now⟩ else none

/-- The sweep that is posted comes in time for every assembly. -/
structure Clocked.InTime (s : Clocked) : Prop where
  keyed : Keyed s.manager
  posted : Posted s.manager
  dead : s.manager.destroyed = true → ∀ k, s.manager.pending.get? k = none
  due : ∀ due, s.manager.sweepDue = some due → s.now ≤ due ∧ due ≤ s.now + ASSEMBLY_TTL_MS
  pending : ∀ k a, s.manager.pending.get? k = some a →
    ∃ due, s.manager.sweepDue = some due ∧ due ≤ a.created + 2 * ASSEMBLY_TTL_MS

section Clock

variable {act : Action} {s : Clocked} {m' : Manager}

theorem Clocked.InTime.dead_event (h : s.InTime) (hstep : SweepStep s.manager act m') (hdead : m'.destroyed = true)
    (k : Key) :
    m'.pending.get? k = none := by
  cases hstep with
  | other flags pending submits =>
    have hnone := h.dead (flags.destroyed ▸ hdead)
    cases hget : m'.pending.get? k with
    | none => rfl
    | some a => exact absurd ((hnone k).symm.trans (pending k a hget)) (Option.some_ne_none a).symm
  | chunk session id c alive flags own others submits =>
    have hsame : m'.destroyed = s.manager.destroyed := by
      rcases flags with ⟨flags, -⟩ | flags
      · exact flags.destroyed
      · exact flags.destroyed
    rw [hsame, alive] at hdead
    cases hdead
  | sweep event handled =>
    subst handled
    rcases runSweep_cases s.manager act.env with ⟨hdestroyed, heq⟩ | ⟨halive, -, heq⟩ | ⟨halive, heq⟩
    · rw [heq]
      exact h.dead hdestroyed k
    · rw [heq] at hdead
      exact absurd (hdead.symm.trans halive) Bool.true_eq_false.mp
    · rw [heq] at hdead
      exact absurd (hdead.symm.trans halive) Bool.true_eq_false.mp
  | destroy destroyed due pending submits =>
    rw [pending]
    rfl

theorem Clocked.InTime.due_event (h : s.InTime) (hnow : act.env.now = s.now) (hstep : SweepStep s.manager act m')
    {due : ℕ} (hdue : m'.sweepDue = some due) : s.now ≤ due ∧ due ≤ s.now + ASSEMBLY_TTL_MS := by
  have hnew : some (act.env.now + ASSEMBLY_TTL_MS) = some due → s.now ≤ due ∧ due ≤ s.now + ASSEMBLY_TTL_MS := by
    intro heq
    obtain rfl := Option.some.inj heq
    omega
  cases hstep with
  | other flags pending submits => exact h.due due (flags.due ▸ hdue)
  | chunk session id c alive flags own others submits =>
    rcases flags with ⟨flags, -⟩ | flags
    · exact h.due due (flags.due ▸ hdue)
    · rw [flags.due] at hdue
      split_ifs at hdue
      · exact h.due due hdue
      · exact hnew hdue
  | sweep event handled =>
    subst handled
    rcases runSweep_cases s.manager act.env with ⟨-, heq⟩ | ⟨-, -, heq⟩ | ⟨-, heq⟩
    · rw [heq] at hdue
      cases hdue
    · rw [heq] at hdue
      cases hdue
    · rw [heq] at hdue
      exact hnew hdue
  | destroy destroyed due' pending submits =>
    rw [due'] at hdue
    cases hdue

/-- While an assembly is pending, a chunk leaves the sweep as it is. -/
theorem Clocked.InTime.due_chunk (h : s.InTime) (halive : s.manager.destroyed = false) {P : Prop}
    (flags : (SameFlags s.manager m' ∧ P) ∨ Scheduled s.manager act.env m') {k : Key} {a : Assembly}
    (hk : s.manager.pending.get? k = some a) : m'.sweepDue = s.manager.sweepDue := by
  rcases flags with ⟨flags, -⟩ | flags
  · exact flags.due
  · rw [flags.due, if_pos (h.posted.pending halive k a hk)]

theorem Clocked.InTime.pending_event (h : s.InTime) (hnow : act.env.now = s.now) (hstep : SweepStep s.manager act m')
    {k : Key} {a : Assembly} (hk : m'.pending.get? k = some a) :
    ∃ due, m'.sweepDue = some due ∧ due ≤ a.created + 2 * ASSEMBLY_TTL_MS := by
  cases hstep with
  | other flags pending submits =>
    rw [flags.due]
    exact h.pending k a (pending k a hk)
  | chunk session id c alive flags own others submits =>
    by_cases hkey : k = scope session id
    · subst hkey
      rw [own] at hk
      split_ifs at hk with hfinal
      obtain rfl := Option.some.inj hk
      rw [receive_created]
      have hcases : (∃ a, _ ∧ _ ∧ s.manager.pending.current act.env.now session id = a) ∨ _ := current_cases
      rcases hcases with ⟨old, hold, -, heq⟩ | heq
      · rw [h.due_chunk alive flags hold, heq]
        exact h.pending _ old hold
      · -- a new assembly, so that the sweep was scheduled
        have hscheduled : Scheduled s.manager act.env m' := by
          rcases flags with ⟨-, hlast⟩ | flags
          · rcases hlast with hlast | hfailed
            · exact absurd hlast hfinal
            · rw [heq] at hfailed
              exact absurd hfailed Bool.false_ne_true
          · exact flags
        have hsome : ∃ due, m'.sweepDue = some due := by
          rw [hscheduled.due]
          split_ifs with hbefore
          · exact (h.posted.scheduled alive).mp hbefore
          · exact ⟨_, rfl⟩
        obtain ⟨due, hdue⟩ := hsome
        have hle := (h.due_event hnow (.chunk session id c alive flags own others submits) hdue).2
        refine ⟨due, hdue, ?_⟩
        rw [heq]
        change due ≤ act.env.now + 2 * ASSEMBLY_TTL_MS
        omega
    · have hold := others k a hkey hk
      rw [h.due_chunk alive flags hold]
      exact h.pending k a hold
  | sweep event handled =>
    subst handled
    rcases runSweep_cases s.manager act.env with ⟨hdestroyed, heq⟩ | ⟨-, hempty, heq⟩ | ⟨-, heq⟩
    · rw [heq] at hk
      exact absurd ((h.dead hdestroyed k).symm.trans hk) (Option.some_ne_none a).symm
    · rw [heq] at hk
      exact absurd ((hempty k).symm.trans hk) (Option.some_ne_none a).symm
    · rw [heq] at hk ⊢
      change (s.manager.pending.sweepPending act.env.now).get? k = some a at hk
      rw [get?_sweepPending, Option.filter_eq_some_iff] at hk
      have hage : act.env.now - a.created ≤ ASSEMBLY_TTL_MS := of_decide_eq_true hk.2
      exact ⟨_, rfl, by omega⟩
  | destroy destroyed due pending submits =>
    rw [pending] at hk
    cases hk

theorem Clocked.InTime.step {s' : Clocked} {tick : Tick} (h : s.InTime) (hs : clockStep s tick = some s') :
    s'.InTime := by
  cases tick with
  | wait time =>
    simp only [clockStep] at hs
    split_ifs at hs with hwait
    obtain rfl := Option.some.inj hs
    refine ⟨h.keyed, h.posted, h.dead, fun due hdue => ?_, h.pending⟩
    have hle : time ≤ due := by
      have hall := hwait.2
      rw [hdue] at hall
      simpa using hall
    have hbefore := (h.due due hdue).2
    change time ≤ due ∧ due ≤ time + ASSEMBLY_TTL_MS
    omega
  | event act =>
    simp only [clockStep] at hs
    split_ifs at hs with hnow
    obtain ⟨m', hm', rfl⟩ := Option.map_eq_some_iff.mp hs
    have hstep := step_sweepStep h.keyed hm'
    exact ⟨step_keyed h.keyed hm', h.posted.step hstep, h.dead_event hstep, fun due => h.due_event hnow hstep,
      fun k a => h.pending_event hnow hstep⟩

end Clock

theorem run_posted {platform : Bool} {acts : List Action} {m : Manager}
    (h : Run (Manager.new platform) step anyStep acts m) : Posted m := by
  induction h with
  | nil => exact ⟨fun _ => iff_of_false Bool.false_ne_true (by simp [Manager.new]), fun _ k a hk => by cases hk⟩
  | snoc hrun _ hs ih => exact ih.step (step_sweepStep (run_keyed hrun) hs)

theorem run_inTime {platform : Bool} {start : ℕ} {ticks : List Tick} {s : Clocked}
    (h : Run ⟨Manager.new platform, start⟩ clockStep anyStep ticks s) : s.InTime := by
  refine h.inv Clocked.InTime ?_ fun _ _ _ hi _ hs => hi.step hs
  have hrun : Run (Manager.new platform) step anyStep [] (Manager.new platform) := .nil
  exact ⟨run_keyed hrun, run_posted hrun, fun _ _ => rfl, fun due hdue => (by cases hdue), fun k a hk => (by cases hk)⟩

/-- Pending assemblies and their sweep: while the manager is not destroyed an assembly is only pending with a sweep
posted; no event changes or shows an assembly older than 30 s; and when sweeps run on time, none is pending more than
60 s after its creation. -/
theorem pending_assemblies_swept (platform : Bool) (start : ℕ) :
    (∀ acts m, Run (Manager.new platform) step anyStep acts m → m.destroyed = false → m.pending.entries ≠ [] →
      m.sweepScheduled = true ∧ ∃ due, m.sweepDue = some due) ∧
    (∀ acts m act m', Run (Manager.new platform) step anyStep acts m → step m act = some m' →
      (∀ k a, m'.pending.get? k = some a → m.pending.get? k = some a ∨ act.env.now ≤ a.created + 30000) ∧
      ∃ shown, m'.submits = m.submits ++ shown ∧ ∀ x ∈ shown, act.env.now ≤ x.1.created + 30000) ∧
    (∀ ticks s, Run ⟨Manager.new platform, start⟩ clockStep anyStep ticks s →
      ∀ k a, s.manager.pending.get? k = some a → s.now ≤ a.created + 60000) := by
  refine ⟨fun acts m hrun halive hpending => ?_, fun acts m act m' hrun hs => ?_, fun ticks s hrun k a hk => ?_⟩
  · obtain ⟨p, hp⟩ := List.exists_mem_of_ne_nil _ hpending
    have hposted := run_posted hrun
    have hscheduled := hposted.pending halive p.1 p.2 (OrderedMap.get?_eq_some_iff.mpr hp)
    exact ⟨hscheduled, (hposted.scheduled halive).mp hscheduled⟩
  · exact step_fresh (step_sweepStep (run_keyed hrun) hs)
  · have h := run_inTime hrun
    obtain ⟨due, hdue, hle⟩ := h.pending k a hk
    exact (h.due due hdue).1.trans hle

end Tinyhack.Notify
