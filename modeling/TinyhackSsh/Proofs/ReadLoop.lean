import TinyhackSsh.Spec.ReadLoop

/-! `nativeClose` waits for the reader inside the locked block. If `read` has
returned bytes when the descriptor is closed, the reader waits for the mutex and
the closer for the reader, for ever. If not, the reader finds the flag, the
descriptor or a failing `read` and exits, and `nativeClose` returns in every
fair execution. -/

namespace Tinyhack.ReadLoop

open Runs

def Reader.hasBytes : Reader → Bool
  | .lock _ => true
  | _ => false

def Reader.inCritical : Reader → Bool
  | .critical _ => true
  | _ => false

/-- Steps left to the exit once the session is closed. -/
def Reader.left : Reader → ℕ
  | .exited | .lock _ | .critical _ => 0
  | .loopClosed | .loopFd | .recheckFd | .recheckClosed | .polledClosed _ | .polledFd _ | .reading _ => 1
  | .polling _ | .readArg | .callback => 2
  | .pollArg => 3

/-- How far `nativeClose` has got. -/
def Closer.stage : Closer → ℕ
  | .notCalled => 0
  | .acquire => 1
  | .testClosed => 2
  | .storeClosed => 3
  | .testFd => 4
  | .closeFd => 5
  | .clearFd => 6
  | .kill => 7
  | .join => 8
  | .free => 9
  | .unlock _ => 10
  | .delete => 11
  | .returned => 12

/-- The closer waits for the reader, which waits for the closer's mutex. -/
def Deadlock (s : Session) : Prop :=
  s.closer = .join ∧ s.mutex = some .closer ∧ s.reader.hasBytes = true

/-- `close(ptm_fd)` finds the reader not between a successful `read` and the mutex. -/
def CloseOk (s : Session) (a : Action) : Prop := a = .closer → s.closer = .closeFd → s.reader.hasBytes = false

instance (s : Session) (a : Action) : Decidable (CloseOk s a) :=
  inferInstanceAs (Decidable (a = .closer → _))

/-- The reader leaves the closer's variables alone. -/
structure Frame (s s' : Session) : Prop where
  closer : s'.closer = s.closer
  isClosed : s'.isClosed = s.isClosed
  ptmFd : s'.ptmFd = s.ptmFd
  fdOpen : s'.fdOpen = s.fdOpen

/-- A step outside the locked block: data comes from an open descriptor only, and
in a closed session the reader comes nearer to its exit. -/
structure Moves (s s' : Session) : Prop where
  mutex : s'.mutex = s.mutex
  before : s.reader.hasBytes = false ∧ s.reader.inCritical = false ∧ s.reader ≠ .exited
  after : s'.reader.inCritical = false
  bytes : s'.reader.hasBytes = true → s.fdOpen = true
  left : s.isClosed = true → s.ptmFd = false → s.fdOpen = false → s'.reader.left < s.reader.left

theorem Moves.to {s : Session} (r : Reader)
    (before : s.reader.hasBytes = false ∧ s.reader.inCritical = false ∧ s.reader ≠ .exited)
    (after : r.hasBytes = false ∧ r.inCritical = false)
    (left : s.isClosed = true → s.ptmFd = false → r.left < s.reader.left) : Moves s { s with reader := r } where
  mutex := rfl
  before := before
  after := after.2
  bytes := fun hb => by simp [after.1] at hb
  left := fun hc hfd _ => left hc hfd

theorem afterPoll_quiet (result : PollResult) :
    (afterPoll result).hasBytes = false ∧ (afterPoll result).inCritical = false := by
  rcases result with (_ | _) | _ | _ | _ | _ <;> exact ⟨rfl, rfl⟩

/-- The reader takes the mutex, releases it, or moves outside the locked block. -/
theorem readerStep_cases {s s' : Session} {ev : ReaderEvent} (hs : readerStep s ev = some s') :
    Frame s s' ∧
    ((∃ bytes, s.reader = .lock bytes ∧ s.mutex = none ∧ s'.reader = .critical bytes ∧
        s'.mutex = some .reader) ∨
      (∃ bytes, s.reader = .critical bytes ∧ s'.reader = .callback ∧ s'.mutex = none) ∨
      Moves s s') := by
  cases ev with
  | run =>
    cases hr : s.reader with
    | lock bytes =>
      simp only [readerStep, hr] at hs
      split_ifs at hs with hm
      obtain rfl := Option.some.inj hs
      exact ⟨⟨rfl, rfl, rfl, rfl⟩, Or.inl ⟨bytes, rfl, hm, rfl, rfl⟩⟩
    | critical bytes =>
      simp only [readerStep, hr] at hs
      obtain rfl := Option.some.inj hs
      exact ⟨⟨rfl, rfl, rfl, rfl⟩, Or.inr (Or.inl ⟨bytes, rfl, rfl, rfl⟩)⟩
    | polling | reading | exited => simp [readerStep, hr] at hs
    | loopClosed | recheckClosed | polledClosed =>
      simp only [readerStep, hr] at hs
      obtain rfl := Option.some.inj hs
      refine ⟨⟨rfl, rfl, rfl, rfl⟩, Or.inr (Or.inr (Moves.to _ ?_ ?_ fun hc _ => ?_))⟩
      · simp [hr, Reader.hasBytes, Reader.inCritical]
      · split_ifs <;> exact ⟨rfl, rfl⟩
      · simp [hc, hr, Reader.left]
    | loopFd | recheckFd =>
      simp only [readerStep, hr] at hs
      obtain rfl := Option.some.inj hs
      refine ⟨⟨rfl, rfl, rfl, rfl⟩, Or.inr (Or.inr (Moves.to _ ?_ ?_ fun _ hfd => ?_))⟩
      · simp [hr, Reader.hasBytes, Reader.inCritical]
      · split_ifs <;> exact ⟨rfl, rfl⟩
      · simp [hfd, hr, Reader.left]
    | polledFd result =>
      simp only [readerStep, hr] at hs
      obtain rfl := Option.some.inj hs
      refine ⟨⟨rfl, rfl, rfl, rfl⟩, Or.inr (Or.inr (Moves.to _ ?_ ?_ fun _ hfd => ?_))⟩
      · simp [hr, Reader.hasBytes, Reader.inCritical]
      · split_ifs
        · exact afterPoll_quiet result
        · exact ⟨rfl, rfl⟩
      · simp [hfd, hr, Reader.left]
    | pollArg | readArg | callback =>
      simp only [readerStep, hr] at hs
      obtain rfl := Option.some.inj hs
      refine ⟨⟨rfl, rfl, rfl, rfl⟩, Or.inr (Or.inr (Moves.to _ ?_ ⟨rfl, rfl⟩ fun _ _ => ?_))⟩
      · simp [hr, Reader.hasBytes, Reader.inCritical]
      · simp [hr, Reader.left]
  | pollReturns result =>
    cases hr : s.reader with
    | polling valid =>
      simp only [readerStep, hr] at hs
      split_ifs at hs
      obtain rfl := Option.some.inj hs
      refine ⟨⟨rfl, rfl, rfl, rfl⟩, Or.inr (Or.inr (Moves.to _ ?_ ⟨rfl, rfl⟩ fun _ _ => ?_))⟩
      · simp [hr, Reader.hasBytes, Reader.inCritical]
      · simp [hr, Reader.left]
    | _ => simp [readerStep, hr] at hs
  | readReturns bytes =>
    cases hr : s.reader with
    | reading valid =>
      simp only [readerStep, hr] at hs
      split_ifs at hs with h0 hdata
      · obtain rfl := Option.some.inj hs
        refine ⟨⟨rfl, rfl, rfl, rfl⟩, Or.inr (Or.inr (Moves.to _ ?_ ⟨rfl, rfl⟩ fun _ _ => ?_))⟩
        · simp [hr, Reader.hasBytes, Reader.inCritical]
        · simp [hr, Reader.left]
      · obtain rfl := Option.some.inj hs
        have hopen : s.fdOpen = true := by
          simp only [Bool.and_eq_true] at hdata
          exact hdata.1.1.2
        refine ⟨⟨rfl, rfl, rfl, rfl⟩, Or.inr (Or.inr ⟨rfl, ?_, rfl, fun _ => hopen, ?_⟩)⟩
        · simp [hr, Reader.hasBytes, Reader.inCritical]
        · simp [hopen]
    | _ => simp [readerStep, hr] at hs

theorem closerStep_stage {s s' : Session} (hs : closerStep s = some s') :
    s.closer.stage < s'.closer.stage ∧ s'.reader = s.reader := by
  cases hc : s.closer with
  | notCalled | returned => simp [closerStep, hc] at hs
  | acquire | join =>
    simp only [closerStep, hc] at hs
    split_ifs at hs
    obtain rfl := Option.some.inj hs
    simp [Closer.stage]
  | testClosed | testFd | unlock =>
    simp only [closerStep, hc] at hs
    obtain rfl := Option.some.inj hs
    refine ⟨?_, rfl⟩
    split_ifs <;> simp [Closer.stage]
  | _ =>
    simp only [closerStep, hc] at hs
    obtain rfl := Option.some.inj hs
    simp [Closer.stage]

/-- What the position of `nativeClose` says about the shared variables. -/
structure Inv (s : Session) : Prop where
  owner : s.mutex = some .closer ↔ 2 ≤ s.closer.stage ∧ s.closer.stage ≤ 10
  readerOwns : s.mutex = some .reader ↔ s.reader.inCritical = true
  closed : s.isClosed = true ↔ 4 ≤ s.closer.stage
  opened : s.fdOpen = true ↔ s.closer.stage ≤ 5
  fd : s.ptmFd = true ↔ s.closer.stage ≤ 6
  joined : 9 ≤ s.closer.stage → s.reader = .exited

theorem Inv.of_frame {s s' : Session} (h : Inv s) (hf : Frame s s') (hlive : ¬ 9 ≤ s.closer.stage)
    (owner : s'.mutex = some .closer ↔ s.mutex = some .closer)
    (readerOwns : s'.mutex = some .reader ↔ s'.reader.inCritical = true) : Inv s' where
  owner := by rw [hf.closer, owner]; exact h.owner
  readerOwns := readerOwns
  closed := by rw [hf.closer, hf.isClosed]; exact h.closed
  opened := by rw [hf.closer, hf.fdOpen]; exact h.opened
  fd := by rw [hf.closer, hf.ptmFd]; exact h.fd
  joined := by rw [hf.closer]; exact fun hj => absurd hj hlive

theorem inv_reader {s s' : Session} {ev : ReaderEvent} (h : Inv s) (hs : readerStep s ev = some s') : Inv s' := by
  obtain ⟨hf, hcase⟩ := readerStep_cases hs
  have hlive : ¬ 9 ≤ s.closer.stage := by
    intro hj
    have hex := h.joined hj
    rcases hcase with ⟨b, hr, -⟩ | ⟨b, hr, -⟩ | hm
    · simp [hex] at hr
    · simp [hex] at hr
    · exact hm.before.2.2 hex
  rcases hcase with ⟨b, hr, hm, hr', hm'⟩ | ⟨b, hr, hr', hm'⟩ | hm
  · refine h.of_frame hf hlive ?_ ?_
    · simp [hm, hm']
    · simp [hr', hm', Reader.inCritical]
  · have hown : s.mutex = some .reader := h.readerOwns.mpr (by simp [hr, Reader.inCritical])
    refine h.of_frame hf hlive ?_ ?_
    · simp [hown, hm']
    · simp [hr', hm', Reader.inCritical]
  · refine h.of_frame hf hlive ?_ ?_
    · rw [hm.mutex]
    · rw [hm.mutex, h.readerOwns, hm.before.2.1, hm.after]

theorem inv_closer {s s' : Session} (h : Inv s) (hs : closerStep s = some s') : Inv s' := by
  obtain ⟨ho, hr, hcl, hop, hfd, hj⟩ := h
  cases hc : s.closer with
  | notCalled | returned => simp [closerStep, hc] at hs
  | acquire =>
    simp only [closerStep, hc] at hs
    split_ifs at hs with hm
    obtain rfl := Option.some.inj hs
    constructor <;> simp_all [Closer.stage]
  | join =>
    simp only [closerStep, hc] at hs
    split_ifs at hs with hex
    obtain rfl := Option.some.inj hs
    constructor <;> simp_all [Closer.stage]
  | unlock early =>
    simp only [closerStep, hc] at hs
    obtain rfl := Option.some.inj hs
    cases early <;> constructor <;> simp_all [Closer.stage, Reader.inCritical]
  | _ =>
    simp only [closerStep, hc] at hs
    obtain rfl := Option.some.inj hs
    constructor <;> simp_all [Closer.stage]

theorem inv_step {s s' : Session} {a : Action} (h : Inv s) (hs : step s a = some s') : Inv s' := by
  cases a with
  | reader ev => exact inv_reader h hs
  | closer => exact inv_closer h hs
  | callClose =>
    simp only [step] at hs
    split_ifs at hs with hc
    obtain rfl := Option.some.inj hs
    obtain ⟨ho, hr, hcl, hop, hfd, hj⟩ := h
    constructor <;> simp_all [Closer.stage]
  | peerWrites bytes =>
    obtain rfl := Option.some.inj hs
    exact ⟨h.owner, h.readerOwns, h.closed, h.opened, h.fd, h.joined⟩
  | peerHangsUp =>
    obtain rfl := Option.some.inj hs
    exact ⟨h.owner, h.readerOwns, h.closed, h.opened, h.fd, h.joined⟩

theorem inv_run {ok : Session → Action → Prop} {acts : List Action} {s : Session}
    (h : Run Session.init step ok acts s) : Inv s :=
  h.inv Inv (by constructor <;> simp [Session.init, Closer.stage, Reader.inCritical])
    fun _ _ _ hi _ hs => inv_step hi hs

def byReader (a : Action) : Prop := ∃ ev, a = .reader ev

def byCloser (a : Action) : Prop := a = .closer

/-- Only the mutex can stop the reader. -/
theorem reader_enabled {s : Session} (hex : s.reader ≠ .exited) (hm : s.reader.hasBytes = true → s.mutex = none) :
    Enabled step byReader s := by
  cases hr : s.reader with
  | exited => exact absurd hr hex
  | polling valid => exact ⟨.reader (.pollReturns .timeout), ⟨_, rfl⟩, by simp [step, readerStep, hr, pollAllowed]⟩
  | reading valid => exact ⟨.reader (.readReturns 0), ⟨_, rfl⟩, by simp [step, readerStep, hr]⟩
  | lock bytes =>
    have hfree := hm (by simp [hr, Reader.hasBytes])
    exact ⟨.reader .run, ⟨_, rfl⟩, by simp [step, readerStep, hr, hfree]⟩
  | _ => exact ⟨.reader .run, ⟨_, rfl⟩, by simp [step, readerStep, hr]⟩

/-- Only the mutex and the join can stop the closer. -/
theorem closer_enabled {s : Session} (hst : 1 ≤ s.closer.stage) (hret : s.closer ≠ .returned)
    (hm : s.closer = .acquire → s.mutex = none) (hj : s.closer = .join → s.reader = .exited) :
    Enabled step byCloser s := by
  refine ⟨.closer, rfl, ?_⟩
  cases hc : s.closer with
  | notCalled => simp [hc, Closer.stage] at hst
  | returned => exact absurd hc hret
  | acquire => simp [step, closerStep, hc, hm hc]
  | join => simp [step, closerStep, hc, hj hc]
  | _ => simp [step, closerStep, hc]

/-- Once called, `nativeClose` is moved by its own thread only. -/
theorem step_closer_eq {s s' : Session} {a : Action} (ha : ¬ byCloser a) (hst : 1 ≤ s.closer.stage)
    (hs : step s a = some s') : s'.closer = s.closer := by
  cases a with
  | reader ev => exact (readerStep_cases hs).1.closer
  | closer => exact absurd rfl ha
  | callClose =>
    simp only [step] at hs
    split_ifs at hs with hc
    simp [hc, Closer.stage] at hst
  | peerWrites bytes => obtain rfl := Option.some.inj hs; rfl
  | peerHangsUp => obtain rfl := Option.some.inj hs; rfl

theorem step_reader_eq {s s' : Session} {a : Action} (ha : ¬ byReader a) (hs : step s a = some s') :
    s'.reader = s.reader := by
  cases a with
  | reader ev => exact absurd ⟨ev, rfl⟩ ha
  | closer => exact (closerStep_stage hs).2
  | callClose =>
    simp only [step] at hs
    split_ifs at hs
    obtain rfl := Option.some.inj hs
    rfl
  | peerWrites bytes => obtain rfl := Option.some.inj hs; rfl
  | peerHangsUp => obtain rfl := Option.some.inj hs; rfl

theorem stage_le_step {s s' : Session} {a : Action} (hst : 1 ≤ s.closer.stage) (hs : step s a = some s') :
    s.closer.stage ≤ s'.closer.stage ∧ (byCloser a → s.closer.stage < s'.closer.stage) := by
  by_cases ha : byCloser a
  · subst ha
    have hlt := (closerStep_stage hs).1
    exact ⟨hlt.le, fun _ => hlt⟩
  · rw [step_closer_eq ha hst hs]
    exact ⟨le_refl _, fun hc => absurd hc ha⟩

/-- After `close(ptm_fd)` the reader holds no bytes. -/
def Quiet (s : Session) : Prop := 6 ≤ s.closer.stage → s.reader.hasBytes = false

theorem quiet_reader {s s' : Session} {ev : ReaderEvent} (h : Inv s) (hs : readerStep s ev = some s') :
    Quiet s' := by
  intro hst
  obtain ⟨hf, ⟨b, -, -, hr, -⟩ | ⟨b, -, hr, -⟩ | hm⟩ := readerStep_cases hs
  · simp [hr, Reader.hasBytes]
  · simp [hr, Reader.hasBytes]
  · -- no data comes from a closed descriptor
    by_contra hb
    have hle := h.opened.mp (hm.bytes (by simpa using hb))
    rw [hf.closer] at hst
    omega

theorem quiet_closer {s s' : Session} (h : Inv s) (hq : Quiet s) (hok : CloseOk s .closer)
    (hs : closerStep s = some s') : Quiet s' := by
  intro hst
  rw [(closerStep_stage hs).2]
  by_cases hpast : 6 ≤ s.closer.stage
  · exact hq hpast
  · cases hc : s.closer with
    | closeFd => exact hok rfl hc
    | testClosed =>
      have hclosed : s.isClosed = false := by
        by_contra hcl
        have hle := h.closed.mp (by simpa using hcl)
        simp [hc, Closer.stage] at hle
      simp only [closerStep, hc, hclosed] at hs
      obtain rfl := Option.some.inj hs
      simp [Closer.stage] at hst
    | testFd =>
      have hfd : s.ptmFd = true := h.fd.mpr (by simp [hc, Closer.stage])
      simp only [closerStep, hc, hfd] at hs
      obtain rfl := Option.some.inj hs
      simp [Closer.stage] at hst
    | notCalled => simp [closerStep, hc] at hs
    | acquire =>
      simp only [closerStep, hc] at hs
      split_ifs at hs
      obtain rfl := Option.some.inj hs
      simp [Closer.stage] at hst
    | storeClosed =>
      simp only [closerStep, hc] at hs
      obtain rfl := Option.some.inj hs
      simp [Closer.stage] at hst
    | _ => simp [hc, Closer.stage] at hpast

theorem quiet_step {s s' : Session} {a : Action} (h : Inv s) (hq : Quiet s) (hok : CloseOk s a)
    (hs : step s a = some s') : Quiet s' := by
  cases a with
  | reader ev => exact quiet_reader h hs
  | closer => exact quiet_closer h hq hok hs
  | callClose =>
    simp only [step] at hs
    split_ifs at hs
    obtain rfl := Option.some.inj hs
    intro hst
    simp [Closer.stage] at hst
  | peerWrites bytes => obtain rfl := Option.some.inj hs; exact hq
  | peerHangsUp => obtain rfl := Option.some.inj hs; exact hq

theorem quiet_run {acts : List Action} {s : Session} (h : Run Session.init step CloseOk acts s) : Quiet s := by
  induction h with
  | nil =>
    intro hst
    simp [Session.init, Closer.stage] at hst
  | snoc hrun hok hs ih => exact quiet_step (inv_run hrun) ih hok hs

/-- The closer is inside the locked block, past `close(ptm_fd)` or about to call it,
and the reader waits for the mutex. -/
def Stuck (s : Session) : Prop :=
  5 ≤ s.closer.stage ∧ s.closer.stage ≤ 8 ∧ s.mutex = some .closer ∧ s.reader.hasBytes = true

theorem stuck_step {s s' : Session} {a : Action} (h : Stuck s) (hs : step s a = some s') : Stuck s' := by
  obtain ⟨h5, h8, hm, hb⟩ := h
  cases a with
  | reader ev =>
    exfalso
    obtain ⟨-, ⟨b, -, hfree, -⟩ | ⟨b, hr, -⟩ | hmove⟩ := readerStep_cases hs
    · simp [hm] at hfree
    · simp [hr, Reader.hasBytes] at hb
    · simp [hmove.before.1] at hb
  | closer =>
    cases hc : s.closer with
    | closeFd | clearFd | kill =>
      simp only [step, closerStep, hc] at hs
      obtain rfl := Option.some.inj hs
      exact ⟨by simp [Closer.stage], by simp [Closer.stage], hm, hb⟩
    | join =>
      have hex : s.reader ≠ .exited := fun hex => by simp [hex, Reader.hasBytes] at hb
      simp [step, closerStep, hc, hex] at hs
    | _ => simp [hc, Closer.stage] at h5 h8
  | callClose =>
    simp only [step] at hs
    split_ifs at hs with hc
    simp [hc, Closer.stage] at h5
  | peerWrites bytes => obtain rfl := Option.some.inj hs; exact ⟨h5, h8, hm, hb⟩
  | peerHangsUp => obtain rfl := Option.some.inj hs; exact ⟨h5, h8, hm, hb⟩

theorem Closer.eq_returned {c : Closer} (h : 12 ≤ c.stage) : c = .returned := by
  cases c <;> simp [Closer.stage] at h ⊢

section Liveness

variable {t : Trace Session.init step CloseOk} {n : ℕ}

theorem inv_trace (t : Trace Session.init step CloseOk) (n : ℕ) : Inv (t.state n) ∧ Quiet (t.state n) := by
  obtain ⟨acts, hrun⟩ := t.exists_run n
  exact ⟨inv_run hrun, quiet_run hrun⟩

theorem reader_releases (hr : t.WeakFair byReader) (hcrit : (t.state n).reader.inCritical = true)
    (hacq : (t.state n).closer = .acquire) : ∃ k, n ≤ k ∧ (t.state k).closer = .acquire ∧ (t.state k).mutex = none := by
  refine Trace.leadsTo_of_measure hr (fun s => Inv s ∧ s.closer = .acquire ∧ s.reader.inCritical = true)
    (fun s => s.closer = .acquire ∧ s.mutex = none) (fun _ => 0) ?_ ?_ ⟨(inv_trace t n).1, hacq, hcrit⟩
  · rintro s ⟨-, -, hcrit⟩ -
    cases hpc : s.reader with
    | critical bytes => exact reader_enabled (by simp [hpc]) (by simp [hpc, Reader.hasBytes])
    | _ => simp [hpc, Reader.inCritical] at hcrit
  · rintro s a s' ⟨hi, hacq, hcrit⟩ - hok hs
    by_cases ha : byReader a
    · obtain ⟨ev, rfl⟩ := ha
      obtain ⟨hf, ⟨b, hpc, -⟩ | ⟨b, -, -, hm⟩ | hm⟩ := readerStep_cases hs
      · simp [hpc, Reader.inCritical] at hcrit
      · exact Or.inl ⟨hf.closer.trans hacq, hm⟩
      · simp [hm.before.2.1] at hcrit
    · have hown : s.mutex = some .reader := hi.readerOwns.mpr hcrit
      have hnc : ¬ byCloser a := by
        rintro rfl
        simp [step, closerStep, hacq, hown] at hs
      have hclose := step_closer_eq hnc (by simp [hacq, Closer.stage]) hs
      rw [← step_reader_eq ha hs] at hcrit
      exact Or.inr ⟨⟨inv_step hi hs, hclose.trans hacq, hcrit⟩, le_refl _, fun hc => absurd hc ha⟩

/-- From its call on `nativeClose` gets the mutex: the reader releases it again and again. -/
theorem closer_acquires (hr : t.WeakFair byReader) (hc : t.StrongFair byCloser)
    (hacq : (t.state n).closer = .acquire) : ∃ k, n ≤ k ∧ 2 ≤ (t.state k).closer.stage := by
  refine Trace.leadsTo_of_strong hc (fun s => s.closer = .acquire) (fun s => 2 ≤ s.closer.stage) ?_ ?_ hacq
  · intro n hacq
    have hfree : ∃ k, n ≤ k ∧ (t.state k).closer = .acquire ∧ (t.state k).mutex = none := by
      have hi := (inv_trace t n).1
      cases hm : (t.state n).mutex with
      | none => exact ⟨n, le_refl n, hacq, hm⟩
      | some owner =>
        cases owner with
        | reader => exact reader_releases hr (hi.readerOwns.mp hm) hacq
        | closer =>
          have hst := (hi.owner.mp hm).1
          simp [hacq, Closer.stage] at hst
    obtain ⟨k, hk, hacq, hm⟩ := hfree
    exact ⟨k, hk, Or.inl (closer_enabled (by simp [hacq, Closer.stage]) (by simp [hacq]) (fun _ => hm)
      (by simp [hacq]))⟩
  · intro s a s' hacq hok hs
    by_cases ha : byCloser a
    · have hlt := (stage_le_step (by simp [hacq, Closer.stage]) hs).2 ha
      rw [hacq] at hlt
      exact Or.inl hlt
    · exact Or.inr ⟨(step_closer_eq ha (by simp [hacq, Closer.stage]) hs).trans hacq, ha⟩

/-- Inside the locked block nothing stops the closer before the join. -/
theorem closer_joins (hc : t.WeakFair byCloser) (hst : 2 ≤ (t.state n).closer.stage) :
    ∃ k, n ≤ k ∧ 8 ≤ (t.state k).closer.stage := by
  refine Trace.leadsTo_of_measure hc (fun s => 2 ≤ s.closer.stage) (fun s => 8 ≤ s.closer.stage)
    (fun s => 12 - s.closer.stage) ?_ ?_ hst
  · intro s hst hbefore
    refine closer_enabled (by omega) ?_ ?_ ?_ <;> intro hpc <;> simp [hpc, Closer.stage] at hst hbefore
  · intro s a s' hst hbefore hok hs
    have hle := stage_le_step (by omega) hs
    refine Or.inr ⟨by omega, by omega, fun ha => ?_⟩
    have hlt := hle.2 ha
    omega

/-- The reader of a closed session exits. -/
theorem reader_exits (hr : t.WeakFair byReader) (hst : 8 ≤ (t.state n).closer.stage) :
    ∃ k, n ≤ k ∧ 8 ≤ (t.state k).closer.stage ∧ (t.state k).reader = .exited := by
  refine Trace.leadsTo_of_measure hr (fun s => (Inv s ∧ Quiet s) ∧ 8 ≤ s.closer.stage)
    (fun s => 8 ≤ s.closer.stage ∧ s.reader = .exited) (fun s => s.reader.left) ?_ ?_ ⟨inv_trace t n, hst⟩
  · rintro s ⟨⟨-, hq⟩, hst⟩ hne
    have hquiet := hq (by omega)
    exact reader_enabled (fun hex => hne ⟨hst, hex⟩) (by simp [hquiet])
  · rintro s a s' ⟨⟨hi, hq⟩, hst⟩ hne hok hs
    have hst' : 8 ≤ s'.closer.stage := hst.trans (stage_le_step (by omega) hs).1
    have hi' : Inv s' ∧ Quiet s' := ⟨inv_step hi hs, quiet_step hi hq hok hs⟩
    by_cases ha : byReader a
    · obtain ⟨ev, rfl⟩ := ha
      obtain ⟨hf, ⟨b, hpc, -⟩ | ⟨b, hpc, -⟩ | hm⟩ := readerStep_cases hs
      · have hquiet := hq (by omega)
        simp [hpc, Reader.hasBytes] at hquiet
      · -- the closer holds the mutex until it has seen the reader exit
        have hown : s.mutex = some .reader := hi.readerOwns.mpr (by simp [hpc, Reader.inCritical])
        have hnj : ¬ 9 ≤ s.closer.stage := fun hj => by simp [hi.joined hj] at hpc
        have howner := hi.owner.mpr ⟨by omega, by omega⟩
        simp [hown] at howner
      · have hclosed : s.isClosed = true := hi.closed.mpr (by omega)
        have hfd : s.ptmFd = false := by
          by_contra hfd
          have hle := hi.fd.mp (by simpa using hfd)
          omega
        have hopen : s.fdOpen = false := by
          by_contra hopen
          have hle := hi.opened.mp (by simpa using hopen)
          omega
        have hlt := hm.left hclosed hfd hopen
        exact Or.inr ⟨⟨hi', hst'⟩, hlt.le, fun _ => hlt⟩
    · rw [step_reader_eq ha hs]
      exact Or.inr ⟨⟨hi', hst'⟩, le_refl _, fun hc => absurd hc ha⟩

theorem closer_returns (hc : t.WeakFair byCloser) (hst : 8 ≤ (t.state n).closer.stage)
    (hex : (t.state n).reader = .exited) : ∃ k, n ≤ k ∧ (t.state k).closer = .returned := by
  refine Trace.leadsTo_of_measure hc (fun s => 8 ≤ s.closer.stage ∧ s.reader = .exited)
    (fun s => s.closer = .returned) (fun s => 12 - s.closer.stage) ?_ ?_ ⟨hst, hex⟩
  · rintro s ⟨hst, hex⟩ hret
    refine closer_enabled (by omega) hret (fun hpc => ?_) fun _ => hex
    simp [hpc, Closer.stage] at hst
  · rintro s a s' ⟨hst, hex⟩ hret hok hs
    have hle := stage_le_step (by omega) hs
    have hnr : ¬ byReader a := by
      rintro ⟨ev, rfl⟩
      obtain ⟨-, ⟨b, hpc, -⟩ | ⟨b, hpc, -⟩ | hm⟩ := readerStep_cases hs
      · simp [hex] at hpc
      · simp [hex] at hpc
      · exact hm.before.2.2 hex
    have hlt12 : s.closer.stage < 12 := by
      by_contra h12
      exact hret (Closer.eq_returned (by omega))
    refine Or.inr ⟨⟨hst.trans hle.1, (step_reader_eq hnr hs).trans hex⟩, by omega, fun ha => ?_⟩
    have hlt := hle.2 ha
    omega

end Liveness

/-- The reader has read three bytes and stands before the mutex. -/
def readThree : List Action :=
  [Action.peerWrites 3] ++ List.replicate 5 (Action.reader .run) ++ [Action.reader (.pollReturns .pollin)] ++
  List.replicate 3 (Action.reader .run) ++ [Action.reader (.readReturns 3)]

/-- The bytes are processed before `nativeClose` is called. -/
def closeWhenIdle : List Action :=
  readThree ++ List.replicate 3 (Action.reader .run) ++ [Action.callClose] ++ List.replicate 7 Action.closer ++
  [Action.reader .run] ++ List.replicate 4 Action.closer

def closedSession : Session := ⟨true, false, false, none, .exited, .returned, 0, false, 3⟩

theorem exec_closeWhenIdle : exec step CloseOk Session.init closeWhenIdle = some closedSession := by decide

/-- `nativeClose` is called while the reader stands before the mutex. -/
def closeWithBytes : List Action := readThree ++ [Action.callClose] ++ List.replicate 4 Action.closer

end Tinyhack.ReadLoop
