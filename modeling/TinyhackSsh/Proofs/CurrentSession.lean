import TinyhackSsh.Lib.Runs
import TinyhackSsh.Spec.Sessions

/-! The current session under removals. `removeSession` leaves
`currentSessionIndex` alone unless it falls off the end, so removing a session
in front of the current one moves the index to the next session without
telling the listeners. `RemoveOk` is exactly the condition under which it does not. -/

namespace Tinyhack.Sessions

open Runs

structure Inv (st : Service) : Prop where
  nodup : st.sessions.Nodup
  fresh : ∀ s ∈ st.sessions, s < st.allocated
  empty : st.sessions = [] → st.currentSessionIndex = -1
  range : st.sessions ≠ [] → 0 ≤ st.currentSessionIndex ∧ st.currentSessionIndex < st.sessions.length

theorem init_inv (stay : Bool) : Inv (Service.init stay) :=
  ⟨List.nodup_nil, by simp [Service.init], fun _ => rfl, by simp [Service.init]⟩

/-- The notification history and the preference are not part of the invariant. -/
theorem Inv.congr {st st' : Service} (h : Inv st) (h1 : st'.sessions = st.sessions)
    (h2 : st'.currentSessionIndex = st.currentSessionIndex) (h3 : st'.allocated = st.allocated) : Inv st' := by
  obtain ⟨hn, hf, he, hr⟩ := h
  exact ⟨h1 ▸ hn, by rw [h1, h3]; exact hf, by rw [h1, h2]; exact he, by rw [h1, h2]; exact hr⟩

def current (st : Service) : Option SessionRef := st.sessions[st.currentSessionIndex.toNat]?

theorem getCurrentSession_eq {st : Service} (h : Inv st) : getCurrentSession st = (current st, st) := by
  unfold getCurrentSession current
  by_cases he : st.sessions = []
  · simp [he, h.empty he]
  · rw [if_pos (h.range he)]

theorem startForegroundIfNeeded_eq {st : Service} (h : Inv st) : startForegroundIfNeeded st = st := by
  unfold startForegroundIfNeeded createNotification
  rw [getCurrentSession_eq h]
  split_ifs <;> rfl

theorem updateNotification_eq {st : Service} (h : Inv st) : updateNotification st = st := by
  unfold updateNotification
  rw [startForegroundIfNeeded_eq h]
  split_ifs <;> rfl

theorem notifyCurrentChanged_eq {st : Service} (h : Inv st) :
    notifyCurrentChanged st =
      { st with delivered := (current st, st.currentSessionIndex) :: st.delivered } := by
  unfold notifyCurrentChanged
  rw [getCurrentSession_eq h]
  exact updateNotification_eq (h.congr rfl rfl rfl)

theorem notifyCurrentChanged_inv {st : Service} (h : Inv st) : Inv (notifyCurrentChanged st) := by
  rw [notifyCurrentChanged_eq h]
  exact h.congr rfl rfl rfl

/-- The listeners know the current session. -/
def Synced (st : Service) : Prop := lastDelivered st = (getCurrentSession st).1

theorem synced_iff {st : Service} (h : Inv st) : Synced st ↔ lastDelivered st = current st := by
  rw [Synced, getCurrentSession_eq h]

theorem notifyCurrentChanged_synced {st : Service} (h : Inv st) : Synced (notifyCurrentChanged st) := by
  rw [synced_iff (notifyCurrentChanged_inv h), notifyCurrentChanged_eq h]
  rfl

/-! Creating and selecting sessions. -/

/-- The new session at the end of the list, with the index on it. -/
def pushed (st : Service) : Service :=
  { st with
    sessions := st.sessions ++ [st.allocated]
    allocated := st.allocated + 1
    currentSessionIndex := (st.sessions ++ [st.allocated]).length - 1 }

theorem pushed_inv {st : Service} (h : Inv st) : Inv (pushed st) := by
  refine ⟨?_, ?_, by simp [pushed], by simp [pushed]⟩
  · refine List.nodup_append.2 ⟨h.nodup, List.nodup_singleton _, ?_⟩
    intro a ha b hb
    rw [List.mem_singleton.mp hb]
    exact Nat.ne_of_lt (h.fresh a ha)
  · intro s hs
    rcases List.mem_append.1 hs with hs | hs
    · exact Nat.lt_succ_of_lt (h.fresh s hs)
    · rw [List.mem_singleton] at hs
      exact hs ▸ Nat.lt_succ_self _

/-- The call changes nothing, or ends by announcing the current session. -/
def Announces (st st' : Service) : Prop := st' = st ∨ ∃ st1, Inv st1 ∧ st' = notifyCurrentChanged st1

theorem Announces.inv {st st' : Service} (ha : Announces st st') (h : Inv st) : Inv st' := by
  rcases ha with rfl | ⟨st1, h1, rfl⟩
  · exact h
  · exact notifyCurrentChanged_inv h1

theorem Announces.synced {st st' : Service} (ha : Announces st st') (hsync : Synced st) : Synced st' := by
  rcases ha with rfl | ⟨st1, h1, rfl⟩
  · exact hsync
  · exact notifyCurrentChanged_synced h1

theorem createSession_announces {st : Service} (h : Inv st) (constructed : Bool) :
    Announces st (createSession st constructed) := by
  cases constructed with
  | false => exact Or.inl rfl
  | true =>
    have hp := pushed_inv h
    refine Or.inr ⟨pushed st, hp, ?_⟩
    change notifyCurrentChanged (updateNotification (startForegroundIfNeeded (pushed st))) = _
    rw [startForegroundIfNeeded_eq hp, updateNotification_eq hp]

theorem setCurrentSession_announces {st : Service} (h : Inv st) (index : ℤ) :
    Announces st (setCurrentSession st index) := by
  unfold setCurrentSession
  split_ifs with hi
  · refine Or.inr ⟨{ st with currentSessionIndex := index },
      ⟨h.nodup, h.fresh, fun he => ?_, fun _ => ⟨hi.1, hi.2.1⟩⟩, rfl⟩
    have he : st.sessions = [] := he
    simp only [he, List.length_nil, Nat.cast_zero] at hi
    omega
  · exact Or.inl rfl

theorem setCurrentSessionObject_announces {st : Service} (h : Inv st) (session : Option SessionRef) :
    Announces st (setCurrentSessionObject st session) := by
  cases session with
  | none => exact Or.inl rfl
  | some s =>
    simp only [setCurrentSessionObject]
    split_ifs
    · exact setCurrentSession_announces h _
    · exact Or.inl rfl

theorem setStayConnectedEnabled_eq {st : Service} (h : Inv st) (enabled : Bool) :
    setStayConnectedEnabled st enabled = { st with stayConnected := enabled } := by
  have h' : Inv { st with stayConnected := enabled } := h.congr rfl rfl rfl
  simp only [setStayConnectedEnabled, startForegroundIfNeeded_eq h', ite_self]

/-! Removal. -/

/-- The list and the index after the removal, before any notification. -/
def removed (st : Service) (s : SessionRef) : Service :=
  { st with
    sessions := st.sessions.erase s
    currentSessionIndex := if st.currentSessionIndex ≥ (st.sessions.erase s).length then
      (st.sessions.erase s).length - 1 else st.currentSessionIndex }

theorem removed_inv {st : Service} (h : Inv st) (s : SessionRef) : Inv (removed st s) := by
  refine ⟨h.nodup.erase s, fun t ht => h.fresh t (List.mem_of_mem_erase ht), fun he => ?_, fun he => ?_⟩
  · have he : st.sessions.erase s = [] := he
    simp only [removed, he, List.length_nil, Nat.cast_zero]
    split_ifs with hi
    · rfl
    · by_cases hs : st.sessions = []
      · exact h.empty hs
      · have := h.range hs
        omega
  · have hs : st.sessions ≠ [] := fun hs => he (by simp [removed, hs])
    have hlen := List.length_pos_iff.2 he
    have := h.range hs
    simp only [removed] at hlen ⊢
    split_ifs <;> omega

theorem removeSession_eq {st : Service} (h : Inv st) (s : SessionRef) :
    removeSession st (some s) =
      if indexOf st.sessions s = st.currentSessionIndex ∨ st.sessions.erase s = [] then
        notifyCurrentChanged (removed st s) else removed st s := by
  have hr := removed_inv h s
  have hclamp : (if st.currentSessionIndex ≥ (st.sessions.erase s).length then
      { st with sessions := st.sessions.erase s, currentSessionIndex := (st.sessions.erase s).length - 1 }
      else { st with sessions := st.sessions.erase s }) = removed st s := by
    unfold removed
    split_ifs <;> rfl
  have hempty : (if (removed st s).sessions = [] then
      Service.mk (removed st s).sessions (-1) (removed st s).allocated (removed st s).stayConnected
        (removed st s).delivered
      else removed st s) = removed st s := by
    split_ifs with he
    · rw [← hr.empty he]
    · rfl
  simp only [removeSession, hclamp, notifySessionsChanged, updateNotification_eq hr, hempty, decide_eq_true_eq]
  rfl

theorem removeSession_inv {st : Service} (h : Inv st) (s : SessionRef) : Inv (removeSession st (some s)) := by
  rw [removeSession_eq h]
  split_ifs
  · exact notifyCurrentChanged_inv (removed_inv h s)
  · exact removed_inv h s

/-- The removal leaves the index on the same session: the removed session is not
in front of the current one, or the current one is the last. -/
def RemoveOk (st : Service) (s : SessionRef) : Prop :=
  s ∈ st.sessions → st.currentSessionIndex ≤ indexOf st.sessions s ∨
    st.currentSessionIndex = st.sessions.length - 1

instance (st : Service) (s : SessionRef) : Decidable (RemoveOk st s) :=
  inferInstanceAs (Decidable (s ∈ st.sessions → _))

theorem indexOf_cases (xs : List SessionRef) (s : SessionRef) :
    (s ∉ xs ∧ indexOf xs s = -1 ∧ xs.erase s = xs) ∨
      ∃ i, i < xs.length ∧ xs[i]? = some s ∧ indexOf xs s = i ∧ xs.erase s = xs.eraseIdx i := by
  unfold indexOf
  rw [List.erase_eq_eraseIdx]
  cases hi : xs.idxOf? s with
  | none => exact Or.inl ⟨List.idxOf?_eq_none_iff.mp hi, rfl, rfl⟩
  | some i =>
    obtain ⟨hlt, hget, -⟩ := List.idxOf?_eq_some_iff.mp hi
    exact Or.inr ⟨i, hlt, by rw [List.getElem?_eq_getElem hlt, hget], rfl, rfl⟩

/-- After removing a session other than the current one, the index points to the
same session exactly when the removal is harmless. -/
theorem current_removed_iff {st : Service} (h : Inv st) {s : SessionRef} (hs : current st ≠ some s) :
    current (removed st s) = current st ↔ RemoveOk st s := by
  rcases indexOf_cases st.sessions s with ⟨hmem, -, herase⟩ | ⟨i, hi, hget, hidx, herase⟩
  · have hlt : st.currentSessionIndex < st.sessions.length := by
      by_cases he : st.sessions = []
      · rw [h.empty he]
        omega
      · exact (h.range he).2
    have hkeep : removed st s = st := by
      simp only [removed, herase]
      rw [if_neg (by omega)]
    simp [hkeep, RemoveOk, hmem]
  · have hne : st.sessions ≠ [] := fun he => by simp [he] at hi
    obtain ⟨h0, hlt⟩ := h.range hne
    have hmem : s ∈ st.sessions := List.mem_of_getElem? hget
    obtain ⟨c, hc⟩ : ∃ c : ℕ, st.currentSessionIndex = c := ⟨st.currentSessionIndex.toNat, by omega⟩
    have hci : c ≠ i := by
      rintro rfl
      exact hs (by simpa [current, hc] using hget)
    have hlen : (st.sessions.eraseIdx i).length = st.sessions.length - 1 := by
      rw [List.length_eraseIdx, if_pos hi]
    simp only [RemoveOk, hmem, true_implies, hidx, hc, current, removed, herase, hlen, Int.toNat_natCast]
    rw [hc] at hlt
    split_ifs with hend
    · -- the index was on the last session and is clamped onto it
      have hlast : c = st.sessions.length - 1 := by omega
      rw [show ((st.sessions.length - 1 : ℕ) - 1 : ℤ).toNat = c - 1 by omega, List.getElem?_eraseIdx,
        if_neg (by omega), show c - 1 + 1 = c by omega]
      exact iff_of_true rfl (Or.inr (by omega))
    · rw [Int.toNat_natCast, List.getElem?_eraseIdx]
      split_ifs with hfront
      · exact iff_of_true rfl (Or.inl (by omega))
      · have hdiff : st.sessions[c + 1]? ≠ st.sessions[c]? := by
          rw [Ne, List.getElem?_inj (by omega) h.nodup]
          omega
        exact iff_of_false hdiff (by omega)

theorem removeSession_current {st : Service} (h : Inv st) (s : SessionRef) :
    (getCurrentSession (removeSession st (some s))).1 = current (removed st s) := by
  rw [getCurrentSession_eq (removeSession_inv h s), removeSession_eq h]
  split_ifs
  · rw [notifyCurrentChanged_eq (removed_inv h s)]
    rfl
  · rfl

/-- Listeners are told only when the removed session was current or the list is
now empty, so they stay in step exactly when the removal is harmless. -/
theorem removeSession_synced_iff {st : Service} (h : Inv st) (hsync : Synced st) (s : SessionRef) :
    Synced (removeSession st (some s)) ↔ RemoveOk st s := by
  have hr := removed_inv h s
  rw [synced_iff h] at hsync
  rw [removeSession_eq h]
  split_ifs with hn
  · refine iff_of_true (notifyCurrentChanged_synced hr) fun hmem => ?_
    rcases hn with hcur | hempty
    · exact Or.inl hcur.ge
    · have hlen := List.length_erase_of_mem hmem
      rw [hempty, List.length_nil] at hlen
      have := h.range (List.ne_nil_of_mem hmem)
      exact Or.inr (by omega)
  · rw [not_or] at hn
    have hs : current st ≠ some s := by
      intro hcur
      apply hn.1
      rcases indexOf_cases st.sessions s with ⟨hmem, -, -⟩ | ⟨i, hi, hget, hidx, -⟩
      · exact absurd (List.mem_of_getElem? hcur) hmem
      · have hrange := h.range (List.ne_nil_of_mem (List.mem_of_getElem? hget))
        have := (List.getElem?_inj hi h.nodup).mp (hget.trans hcur.symm)
        omega
    rw [synced_iff hr, ← current_removed_iff h hs, ← hsync]
    exact eq_comm

/-- Every removal of the run leaves the index on the same session. -/
def StepOk (st : Service) : Call → Prop
  | .removeSession (some s) => RemoveOk st s
  | _ => True

instance (st : Service) : ∀ c, Decidable (StepOk st c)
  | .removeSession (some s) => inferInstanceAs (Decidable (RemoveOk st s))
  | .removeSession none | .createSession _ | .setCurrentSession _ | .setCurrentSessionObject _
  | .getCurrentSession | .setStayConnectedEnabled _ => isTrue trivial

theorem step_inv {st st' : Service} {c : Call} (h : Inv st) (hs : step st c = some st') : Inv st' := by
  cases c with
  | createSession constructed => cases hs; exact (createSession_announces h constructed).inv h
  | setCurrentSession index => cases hs; exact (setCurrentSession_announces h index).inv h
  | setCurrentSessionObject session => cases hs; exact (setCurrentSessionObject_announces h session).inv h
  | removeSession session =>
    cases hs
    cases session with
    | none => exact h
    | some s => exact removeSession_inv h s
  | getCurrentSession => cases hs; rw [getCurrentSession_eq h]; exact h
  | setStayConnectedEnabled enabled =>
    cases hs
    rw [setStayConnectedEnabled_eq h]
    exact h.congr rfl rfl rfl

theorem step_synced {st st' : Service} {c : Call} (h : Inv st) (hsync : Synced st) (hok : StepOk st c)
    (hs : step st c = some st') : Synced st' := by
  cases c with
  | createSession constructed => cases hs; exact (createSession_announces h constructed).synced hsync
  | setCurrentSession index => cases hs; exact (setCurrentSession_announces h index).synced hsync
  | setCurrentSessionObject session =>
    cases hs; exact (setCurrentSessionObject_announces h session).synced hsync
  | removeSession session =>
    cases hs
    cases session with
    | none => exact hsync
    | some s => exact (removeSession_synced_iff h hsync s).mpr hok
  | getCurrentSession => cases hs; rw [getCurrentSession_eq h]; exact hsync
  | setStayConnectedEnabled enabled =>
    cases hs
    have h' : Inv { st with stayConnected := enabled } := h.congr rfl rfl rfl
    rw [setStayConnectedEnabled_eq h, synced_iff h']
    exact (synced_iff h).mp hsync

theorem run_inv {stay : Bool} {ok : Service → Call → Prop} {calls : List Call} {st : Service}
    (h : Run (Service.init stay) step ok calls st) : Inv st :=
  h.inv Inv (init_inv stay) fun _ _ _ hi _ hs => step_inv hi hs

/-- In every reachable state, removing a session other than the current one keeps
the current session exactly under `RemoveOk`. In every run all of whose removals
meet it the listeners know the current session, and the next removal keeps them
informed exactly under `RemoveOk`. -/
theorem current_session_tracks (stay : Bool) :
    (∀ calls st, Run (Service.init stay) step anyStep calls st →
      ∀ s, (getCurrentSession st).1 ≠ some s →
        ((getCurrentSession (removeSession st (some s))).1 = (getCurrentSession st).1 ↔ RemoveOk st s)) ∧
    (∀ calls st, Run (Service.init stay) step StepOk calls st →
      lastDelivered st = (getCurrentSession st).1 ∧
      ∀ s, lastDelivered (removeSession st (some s)) = (getCurrentSession (removeSession st (some s))).1 ↔
        RemoveOk st s) := by
  constructor
  · intro calls st hrun s hs
    have h := run_inv hrun
    rw [removeSession_current h]
    rw [getCurrentSession_eq h] at hs ⊢
    exact current_removed_iff h hs
  · intro calls st hrun
    have hboth : Inv st ∧ Synced st :=
      hrun.inv (fun st => Inv st ∧ Synced st) ⟨init_inv stay, rfl⟩
        fun _ _ _ hi hok hs => ⟨step_inv hi.1 hs, step_synced hi.1 hi.2 hok hs⟩
    exact ⟨hboth.2, fun s => removeSession_synced_iff hboth.1 hboth.2 s⟩

/-- Two sessions, the second current: removing the first is harmless. -/
theorem current_session_tracks_last :
    (getCurrentSession (removeSession ⟨[0, 1], 1, 2, true, [(some 1, 1), (some 0, 0)]⟩ (some 0))).1 = some 1 ∧
    lastDelivered ⟨[0, 1], 1, 2, true, [(some 1, 1), (some 0, 0)]⟩ = some 1 :=
  ⟨((current_session_tracks true).1 [.createSession true, .createSession true] _
      (run_of_exec (by decide)) 0 (by decide)).mpr (by decide),
    ((current_session_tracks true).2 [.createSession true, .createSession true] _
      (run_of_exec (by decide))).1⟩

/-- Three sessions, the second current: removing the first makes the third
current, and the listeners still hold the second. -/
theorem removal_in_front_of_current :
    ∃ st, Run (Service.init true) step anyStep
        [.createSession true, .createSession true, .createSession true, .setCurrentSession 1] st ∧
      (getCurrentSession st).1 = some 1 ∧
      (getCurrentSession (removeSession st (some 0))).1 = some 2 ∧
      lastDelivered (removeSession st (some 0)) = some 1 :=
  ⟨⟨[0, 1, 2], 1, 3, true, [(some 1, 1), (some 2, 2), (some 1, 1), (some 0, 0)]⟩,
    run_of_exec (by decide), by decide, by decide, by decide⟩

end Tinyhack.Sessions
