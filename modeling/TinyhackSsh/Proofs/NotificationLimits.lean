import TinyhackSsh.Lib.Quota
import TinyhackSsh.Proofs.NotificationChunks
import TinyhackSsh.Proofs.NotificationLedger

/-! The limits on pending and active notifications. Sessions own the entries of both
maps; as long as few sessions have any, an event of one of them does not cost another
session an entry that is neither expired nor gone from the screen. -/

namespace Tinyhack.Notify

open Runs

def Manager.holders (m : Manager) : Finset ℕ := m.pending.owners Assembly.session ∪ m.active.owners Entry.session

/-- While a chunk is handled, its assembly is in `pending`. -/
def Manager.handling (m : Manager) (act : Action) : Manager :=
  match act.event with
  | .notification session metadata _ =>
    if m.ignores act.env session then m
    else match parseRequest metadata with
      | some request =>
        match request.type with
        | .title | .body => { m with pending := (m.pending.assembly act.env.now session request.id).1 }
        | .query | .alive | .close | .other => m
      | none => m
  | _ => m

/-- At most 8 sessions hold pending or active notifications, before the event and while
it is handled. -/
def FewHolders (m : Manager) (act : Action) : Prop := m.holders.card ≤ 8 ∧ (m.handling act).holders.card ≤ 8

instance (m : Manager) (act : Action) : Decidable (FewHolders m act) :=
  inferInstanceAs (Decidable (m.holders.card ≤ 8 ∧ (m.handling act).holders.card ≤ 8))

/-- The session that an event comes from. -/
def Event.origin (m : Manager) : Event → Option ℕ
  | .notification session _ _ => some session
  | .intent i => (i.lastPathSegment.bind m.tokens.get?).map Entry.session
  | .expiry token => (m.timers.find? fun t => t.1.token = token).map fun t => t.1.session
  | .sweep => none
  | .sessionClosed session => some session
  | .destroy => none

structure Limited (m : Manager) : Prop where
  pending : m.pending.Within Assembly.session MAX_PER_SESSION MAX_ENTRIES
  active : m.active.Within Entry.session MAX_PER_SESSION MAX_ENTRIES

/-- The keys of `active` are those of the sessions of their entries. -/
def Homed (active : OrderedMap Key Entry) : Prop := ∀ k e, active.get? k = some e → e.session = k.session

section Pending

variable {m : Manager} {act : Action} {session : ℕ} {payload : Bytes} {request : Request} {pending : Pending}

theorem removeFirst_eq (pending : Pending) (l : List (Key × Assembly)) :
    pending.removeFirst l = pending.dropFirst l := by
  cases l <;> rfl

theorem trimPending_eq (pending : Pending) (session : ℕ) :
    pending.trimPending session = pending.trim Assembly.session session MAX_PER_SESSION MAX_ENTRIES := by
  simp only [Pending.trimPending, removeFirst_eq]
  rfl

theorem sweepPending_sub (pending : Pending) (now : ℕ) : (pending.sweepPending now).Sub pending :=
  fun _ _ => get?_of_sweepPending

theorem assembly_within (h : pending.Within Assembly.session MAX_PER_SESSION MAX_ENTRIES) (now session : ℕ)
    (id : Option JString) :
    (pending.assembly now session id).1.Within Assembly.session MAX_PER_SESSION MAX_ENTRIES := by
  have hswept := h.mono (sweepPending_sub pending now)
  unfold Pending.assembly
  dsimp only
  cases hget : (pending.sweepPending now).get? (scope session id) with
  | some a => exact hswept
  | none =>
    dsimp only
    rw [trimPending_eq]
    have hsub : ((pending.sweepPending now).trim Assembly.session session MAX_PER_SESSION MAX_ENTRIES).Sub
        (pending.sweepPending now) := OrderedMap.trim_sub _ _ _ _
    obtain ⟨heach, hall⟩ := OrderedMap.trim_room hswept (by decide) (by decide) session
    refine (hswept.mono hsub).put_new ?_ heach hall
    refine Option.eq_none_iff_forall_ne_some.mpr fun a ha => ?_
    have := hsub _ _ ha
    rw [hget] at this
    cases this

/-- A chunk leaves its assembly under the same key, or removes it. -/
theorem chunk_within (hm : Keyed m) (haccepted : Accepted act session payload request) (c : Chunk)
    (h : m.pending.Within Assembly.session MAX_PER_SESSION MAX_ENTRIES) :
    (m.chunk act.env session request.id c).pending.Within Assembly.session MAX_PER_SESSION MAX_ENTRIES := by
  obtain ⟨-, hget, -⟩ := assembly_spec m.pending act.env.now session request.id
  obtain ⟨hown, hother, -⟩ := chunk_spec hm haccepted c
  refine ((assembly_within h act.env.now session request.id).put_old hget
    (Assembly.receive_session _ c)).mono fun k a ha => ?_
  rw [OrderedMap.get?_put]
  by_cases hk : k = scope session request.id
  · rw [if_pos hk]
    rw [hk, hown] at ha
    split_ifs at ha
    exact ha
  · rw [if_neg hk, ← hother k hk]
    exact ha

end Pending

section Closing

variable {m : Manager} {env : Env} {k : Key} {e e' : Entry} {report : Bool} {cause : Cause}

theorem close_sub : (m.close env e report cause).active.Sub m.active := by
  intro k e' h
  by_cases hlive : m.tokens.get? e.token = some e
  · rw [close_live hlive] at h
    exact OrderedMap.get?_of_erase h
  · rwa [close_stale hlive] at h

/-- Closing an entry leaves the others. -/
theorem close_keeps (h : Ledger m) (hget : m.active.get? k = some e') (hne : e' ≠ e) :
    (m.close env e report cause).active.get? k = some e' := by
  by_cases hlive : m.tokens.get? e.token = some e
  · rw [close_live hlive]
    change (m.active.erase e.key).get? k = some e'
    rw [OrderedMap.get?_erase, if_neg, hget]
    rintro rfl
    rw [h.active_of_token hlive] at hget
    exact hne (Option.some.inj hget).symm
  · rwa [close_stale hlive]

theorem closeWhere_sub (test : Entry → Bool) (entries : List Entry) :
    (m.closeWhere env report cause test entries).active.Sub m.active := by
  induction entries generalizing m with
  | nil => exact fun _ _ h => h
  | cons e entries ih =>
    rw [Manager.closeWhere, List.foldl_cons]
    split_ifs
    · exact ih.trans close_sub
    · exact ih

theorem closeWhere_keeps (h : Ledger m) (cause : Cause) {test : Entry → Bool} (entries : List Entry)
    (hget : m.active.get? k = some e') (htest : test e' = false) :
    (m.closeWhere env cause.reports cause test entries).active.get? k = some e' := by
  induction entries generalizing m with
  | nil => exact hget
  | cons e entries ih =>
    rw [Manager.closeWhere, List.foldl_cons]
    split_ifs with hclosed
    · have hne : e' ≠ e := by
        rintro rfl
        rw [htest] at hclosed
        cases hclosed
      exact ih (close_ledger h env e cause) (close_keeps h hget hne)
    · exact ih h hget

theorem reconcile_sub (m : Manager) (env : Env) : (m.reconcile env).active.Sub m.active := by
  unfold Manager.reconcile
  split_ifs
  · exact fun _ _ h => h
  · exact closeWhere_sub _ _

/-- Only what the platform does not show any more is closed. -/
theorem reconcile_keeps (h : Ledger m) (hget : m.active.get? k = some e') (hshown : env.shown e'.key = true) :
    (m.reconcile env).active.get? k = some e' := by
  unfold Manager.reconcile
  split_ifs
  · exact hget
  · exact closeWhere_keeps h .reconciled _ hget (by simp [hshown])

theorem reconcile_ledger (h : Ledger m) : Ledger (m.reconcile env) :=
  inv_of_moves Ledger (fun _ _ hmove => move_ledger (.quiet hmove))
    (reconcile_moves : QuietMoves ⟨env, .sweep⟩ m (m.reconcile env)) h

end Closing

section Posting

variable {m : Manager} {env : Env} {k : Key} {e : Entry} {a : Assembly}

theorem closeFirst_active (h : Ledger m) (l : List (Key × Entry)) (hl : ∀ p ∈ l, m.active.get? p.1 = some p.2) :
    (m.closeFirst env .evicted (l.map Prod.snd)).active = m.active.dropFirst l := by
  cases l with
  | nil => rfl
  | cons p l =>
    have hget := hl p List.mem_cons_self
    have hkey := h.keyed _ _ hget
    have hlive : m.tokens.get? p.2.token = some p.2 := (h.tokens _ _).mpr ⟨hkey ▸ hget, rfl⟩
    rw [List.map_cons, Manager.closeFirst, close_live hlive, OrderedMap.dropFirst, ← hkey]
    rfl

theorem closeFirst_ledger (h : Ledger m) (entries : List Entry) : Ledger (m.closeFirst env .evicted entries) :=
  inv_of_moves Ledger (fun _ _ hmove => move_ledger (.quiet hmove))
    (closeFirst_moves entries : QuietMoves ⟨env, .sweep⟩ m _) h

theorem trimActive_active (h : Ledger m) (env : Env) (session : ℕ) :
    (m.trimActive env session).active = m.active.trim Entry.session session MAX_PER_SESSION MAX_ENTRIES := by
  have hown : (m.entries.filter fun e => e.session = session) =
      (m.active.owned Entry.session session).map Prod.snd := List.filter_map
  have howned : ∀ p ∈ m.active.owned Entry.session session, m.active.get? p.1 = some p.2 :=
    fun p hp => OrderedMap.get?_eq_some_iff.mpr (List.mem_filter.mp hp).1
  -- the two tests in turn
  have hfirst : ∃ m₁ : Manager, Ledger m₁ ∧ m₁.active = m.active.trimOwner Entry.session session MAX_PER_SESSION ∧
      m.trimActive env session =
        if m₁.active.size ≥ MAX_ENTRIES then m₁.closeFirst env .evicted m₁.entries else m₁ := by
    refine ⟨_, ?_, ?_, rfl⟩
    · split_ifs
      · exact closeFirst_ledger h _
      · exact h
    · rw [hown, List.length_map, OrderedMap.trimOwner]
      split_ifs
      · exact closeFirst_active h _ howned
      · rfl
  obtain ⟨m₁, h₁, hactive, heq⟩ := hfirst
  rw [heq, OrderedMap.trim, ← hactive, OrderedMap.trimAll]
  split_ifs
  · exact closeFirst_active h₁ _ fun p hp => OrderedMap.get?_eq_some_iff.mpr hp
  · rfl

/-- `active` with room for an assembly that is posted. -/
def Manager.roomFor (m : Manager) (a : Assembly) : OrderedMap Key Entry :=
  if (m.active.get? (m.postKey a)).isNone then m.active.trim Entry.session a.session MAX_PER_SESSION MAX_ENTRIES
  else m.active

theorem post_active (h : Ledger m) (env : Env) (a : Assembly) (title body : JString) :
    (m.post env a title body).active = (m.reconcile env).roomFor a ∨
    ∃ e, e.session = a.session ∧ (m.post env a title body).active =
      (((m.reconcile env).roomFor a).erase ((m.reconcile env).postKey a)).put ((m.reconcile env).postKey a) e := by
  have h₁ : Ledger (m.reconcile env) := reconcile_ledger h
  unfold Manager.post Manager.roomFor
  generalize m.reconcile env = m₁ at h₁ ⊢
  cases hprevious : m₁.active.get? (m₁.postKey a) with
  | none =>
    have htrim := trimActive_active h₁ env a.session
    have hnone := trimActive_active_none env a.session hprevious
    rw [htrim] at hnone
    simp only [hprevious, Option.isNone_none, if_true]
    split_ifs
    · exact .inl htrim
    · refine .inr ⟨(m₁.trimActive env a.session).newEntry env a (m₁.postKey a) none, rfl, ?_⟩
      rw [register_eq]
      dsimp only [Option.elim, Manager.emit, Manager.newEntry]
      rw [htrim, OrderedMap.erase_of_get?_eq_none hnone.1]
  | some old =>
    have hkey := h₁.keyed _ _ hprevious
    simp only [hprevious, Option.isNone_some, Bool.false_eq_true, if_false]
    split_ifs
    · exact .inl rfl
    · refine .inr ⟨m₁.newEntry env a (m₁.postKey a) (some old), rfl, ?_⟩
      rw [register_eq]
      dsimp only [Option.elim, Manager.emit, Manager.newEntry]
      rw [hkey]

theorem postKey_session (m : Manager) (a : Assembly) : (m.postKey a).session = a.session := by
  unfold Manager.postKey
  split_ifs <;> rfl

theorem roomFor_sub (m : Manager) (a : Assembly) : (m.roomFor a).Sub m.active := by
  unfold Manager.roomFor
  split_ifs
  · exact OrderedMap.trim_sub _ _ _ _
  · exact fun _ _ h => h

/-- Without the entry that is replaced there is room for one. -/
theorem roomFor_room (hhomed : Homed m.active) (h : m.active.Within Entry.session MAX_PER_SESSION MAX_ENTRIES) :
    (((m.roomFor a).erase (m.postKey a)).owned Entry.session a.session).length < MAX_PER_SESSION ∧
    ((m.roomFor a).erase (m.postKey a)).size < MAX_ENTRIES := by
  unfold Manager.roomFor
  cases hprevious : m.active.get? (m.postKey a) with
  | none =>
    rw [if_pos Option.isNone_none]
    obtain ⟨heach, hall⟩ := OrderedMap.trim_room h (by decide) (by decide) a.session
    have hsub := OrderedMap.erase_sub (m.active.trim Entry.session a.session MAX_PER_SESSION MAX_ENTRIES) (m.postKey a)
    exact ⟨(hsub.length_owned_le _).trans_lt heach, hsub.subperm.length_le.trans_lt hall⟩
  | some old =>
    rw [if_neg (by simp)]
    have hsession : old.session = a.session := (hhomed _ _ hprevious).trans (postKey_session m a)
    exact hsession ▸ OrderedMap.erase_room h hprevious

theorem post_within (h : Ledger m) (hhomed : Homed m.active)
    (hwithin : m.active.Within Entry.session MAX_PER_SESSION MAX_ENTRIES) (title body : JString) :
    (m.post env a title body).active.Within Entry.session MAX_PER_SESSION MAX_ENTRIES := by
  have hhomed₁ : Homed (m.reconcile env).active := fun k e he => hhomed k e (reconcile_sub m env k e he)
  have hwithin₁ := hwithin.mono (reconcile_sub m env)
  obtain hactive | ⟨e, he, hactive⟩ := post_active h env a title body
  · rw [hactive]
    exact hwithin₁.mono (roomFor_sub _ a)
  · rw [hactive]
    obtain ⟨heach, hall⟩ := roomFor_room (a := a) hhomed₁ hwithin₁
    refine ((hwithin₁.mono (roomFor_sub _ a)).mono (OrderedMap.erase_sub _ _)).put_new ?_ (he ▸ heach) hall
    rw [OrderedMap.get?_erase, if_pos rfl]

/-- A post of one of few sessions spares the entries of the others. -/
theorem post_keeps (h : Ledger m) (hhomed : Homed m.active)
    (hwithin : m.active.Within Entry.session MAX_PER_SESSION MAX_ENTRIES)
    (hfew : (insert a.session (m.active.owners Entry.session)).card ≤ 8) (hget : m.active.get? k = some e)
    (hsession : e.session ≠ a.session) (hshown : env.shown e.key = true) (title body : JString) :
    (m.post env a title body).active.get? k = some e := by
  have hget₁ : (m.reconcile env).active.get? k = some e := reconcile_keeps h hget hshown
  have hsub : (m.reconcile env).active.owners Entry.session ⊆ m.active.owners Entry.session :=
    OrderedMap.owners_subset (reconcile_sub m env)
  have hroom : ((m.reconcile env).roomFor a).get? k = some e := by
    unfold Manager.roomFor
    split_ifs
    · refine OrderedMap.get?_trim (n := 8) (hwithin.mono (reconcile_sub m env)) (by decide) (by decide) ?_ ?_ hsession
        hget₁
      · exact (Finset.card_le_card (hsub.trans (Finset.subset_insert _ _))).trans hfew
      · refine (Finset.card_le_card (Finset.insert_subset_insert _ ?_)).trans hfew
        exact (OrderedMap.owners_subset (OrderedMap.trim_sub _ _ _ _)).trans hsub
    · exact hget₁
  have hkey : k ≠ (m.reconcile env).postKey a := by
    rintro rfl
    exact hsession ((hhomed _ _ hget).trans (postKey_session _ a))
  obtain hactive | ⟨e', -, hactive⟩ := post_active h env a title body
  · rw [hactive]
    exact hroom
  · rw [hactive, OrderedMap.get?_put, if_neg hkey, OrderedMap.get?_erase, if_neg hkey]
    exact hroom

end Posting

section Steps

variable {act : Action} {m m' : Manager}

theorem move_homed (hmove : Move act m m') (h : Homed m.active) : Homed m'.active := by
  cases hmove with
  | quiet hquiet =>
    cases hquiet with
    | close e cause => exact fun k e' he' => h k e' (close_sub k e' he')
    | query | alive | activated =>
      rw [reply_eq]
      exact h
    | posted payload request a content nextId e haccepted hid he =>
      rw [register_eq]
      intro k e' he'
      rw [OrderedMap.get?_put] at he'
      split_ifs at he' with hk
      · obtain rfl := Option.some.inj he'
        rw [hk, he]
        exact (postKey_session m a).symm
      · cases hprevious : m.active.get? (m.postKey a) with
        | none =>
          rw [hprevious] at he'
          exact h k e' he'
        | some old =>
          rw [hprevious] at he'
          exact h k e' (OrderedMap.get?_of_erase he')
    | rate | dropRates | sweepFlags | dropTimers | destroyed | notPosted => exact h
  | dropPending | putPending | submit => exact h

/-- The entries that other sessions keep. -/
def Spares (m m' : Manager) (env : Env) (session : ℕ) : Prop :=
  ∀ k e, m.active.get? k = some e → e.session ≠ session → env.shown e.key = true → m'.active.get? k = some e

theorem showAssembly_active (h : Ledger m) (env : Env) (a : Assembly) (title body : JString) :
    (m.showAssembly env a title body).active = m.active ∨ ∃ m₁ : Manager, Ledger m₁ ∧ m₁.active = m.active ∧
      (m.showAssembly env a title body).active = (m₁.post env a title body).active := by
  unfold Manager.showAssembly
  dsimp only
  split_ifs
  · exact .inl rfl
  · refine .inr ⟨_, ?_, ?_, rfl⟩
    · refine h.frame rfl rfl (fun _ ht => ht) le_rfl ?_ ?_ ?_
      all_goals
        simp [Manager.posts, Manager.ends, Manager.closeReplies, Manager.emit, Output.post, Output.ending,
          Output.closeReply]
    · rfl
  · exact .inl rfl

theorem chunk_active (hm : Keyed m) (h : Ledger m) (env : Env) (session : ℕ) {id : Option JString}
    (hvalid : ValidId id) (c : Chunk) :
    (m.chunk env session id c).active = m.active ∨ ∃ a title body, ∃ m₁ : Manager, a.session = session ∧
      Ledger m₁ ∧ m₁.active = m.active ∧ (m.chunk env session id c).active = (m₁.post env a title body).active := by
  obtain ⟨pending, scheduled, due, heq⟩ | ⟨pending, a, title, body, hsession, -, heq⟩ :=
    chunk_cases hm env session hvalid c
  · rw [heq]
    exact .inl rfl
  · have hledger : Ledger { m with pending := pending } := h.frame rfl rfl (fun _ ht => ht) le_rfl rfl rfl rfl
    rw [heq]
    obtain hsame | ⟨m₁, hm₁, hactive, hpost⟩ := showAssembly_active hledger env a title body
    · exact .inl hsame
    · exact .inr ⟨a, title, body, m₁, hsession, hm₁, hactive, hpost⟩

/-- The event closes notifications of its session only, or such as are not shown any more. -/
def Quiet (m m' : Manager) (env : Env) (session : ℕ) : Prop := m'.active.Sub m.active ∧ Spares m m' env session

theorem quiet_of_eq {env : Env} {session : ℕ} (heq : m'.active = m.active) : Quiet m m' env session := by
  refine ⟨?_, fun k e hget _ _ => heq ▸ hget⟩
  rw [heq]
  exact fun _ _ hget => hget

theorem close_quiet (h : Ledger m) {e : Entry} {session : ℕ} (hsession : e.session = session) (env : Env)
    (report : Bool) (cause : Cause) : Quiet m (m.close env e report cause) env session := by
  refine ⟨close_sub, fun k e' hget hother _ => close_keeps h hget ?_⟩
  rintro rfl
  exact hother hsession

theorem closeRequest_quiet (h : Ledger m) (hhomed : Homed m.active) (env : Env) (session : ℕ) (id : JString) :
    Quiet m (m.closeRequest env session id) env session := by
  have hledger : Ledger { m with pending := m.pending.erase (.scope session id) } :=
    h.frame rfl rfl (fun _ ht => ht) le_rfl rfl rfl rfl
  unfold Manager.closeRequest
  dsimp only
  cases hget : m.active.get? (.scope session id) with
  | none => exact quiet_of_eq rfl
  | some e => exact close_quiet hledger (hhomed _ _ hget) env true .clientClose

theorem request_quiet (h : Ledger m) (hhomed : Homed m.active) {session : ℕ} {metadata payload : Bytes} (env : Env)
    (hchunk : chunkOf session metadata payload = none) :
    Quiet m (m.onNotification env session metadata payload) env session := by
  unfold Manager.onNotification
  split_ifs
  · exact quiet_of_eq rfl
  cases hparse : parseRequest metadata with
  | none => exact quiet_of_eq rfl
  | some request =>
    simp only [chunkOf, hparse] at hchunk
    dsimp only
    cases htype : request.type with
    | query =>
      dsimp only
      rw [reply_eq]
      exact quiet_of_eq rfl
    | alive =>
      dsimp only
      rw [reply_eq]
      exact ⟨reconcile_sub m env, fun k e hget _ hshown => reconcile_keeps h hget hshown⟩
    | close =>
      cases request.id with
      | none => exact quiet_of_eq rfl
      | some id => exact closeRequest_quiet h hhomed env session id
    | title | body => simp [htype] at hchunk
    | other => exact quiet_of_eq rfl

theorem closeWhere_quiet (h : Ledger m) (env : Env) (session : ℕ) (entries : List Entry) :
    Quiet m (m.closeWhere env false .sessionClosed (fun e => e.session = session) entries) env session :=
  ⟨closeWhere_sub _ _, fun _ _ hget hother _ => closeWhere_keeps h .sessionClosed _ hget (by simpa using hother)⟩

theorem handleIntent_quiet (h : Ledger m) (env : Env) (intent : Intent) :
    (m.handleIntent env intent).1.active.Sub m.active ∧
    ∀ session, (Event.intent intent).origin m = some session → Spares m (m.handleIntent env intent).1 env session := by
  have hsame : ∀ session, Quiet m m env session := fun session => quiet_of_eq rfl
  unfold Manager.handleIntent
  split_ifs
  · exact ⟨(hsame 0).1, fun session _ => (hsame session).2⟩
  cases htoken : intent.lastPathSegment.bind m.tokens.get? with
  | none => exact ⟨(hsame 0).1, fun session _ => (hsame session).2⟩
  | some e =>
    have horigin : ∀ session, (Event.intent intent).origin m = some session → e.session = session := by
      intro session hsession
      simpa [Event.origin, htoken] using hsession
    dsimp only
    cases intent.authority with
    | activate =>
      have hreply : Quiet m ((m.reply env e.session e.id none [] none).close env e true .activated) env e.session := by
        have hledger := reply_ledger h env e.session e.id none []
        rw [reply_eq] at hledger ⊢
        exact close_quiet hledger rfl env true .activated
      have hclose := close_quiet h rfl env true .activated (e := e)
      dsimp only
      split_ifs
      · exact ⟨hreply.1, fun session hsession => horigin session hsession ▸ hreply.2⟩
      · exact ⟨hclose.1, fun session hsession => horigin session hsession ▸ hclose.2⟩
    | dismiss =>
      have hclose := close_quiet h rfl env true .dismissed (e := e)
      exact ⟨hclose.1, fun session hsession => horigin session hsession ▸ hclose.2⟩
    | other => exact ⟨(hsame 0).1, fun session _ => (hsame session).2⟩

/-- What an event does to the active notifications: it closes some, of its own session
or not shown any more, or posts one. -/
theorem step_active (hm : Keyed m) (h : Ledger m) (hhomed : Homed m.active) (hs : step m act = some m') :
    (m'.active.Sub m.active ∧ ∀ x, act.event.origin m = some x → Spares m m' act.env x) ∨
    ∃ session metadata payload key c a title body, ∃ m₁ : Manager,
      act.event = .notification session metadata payload ∧ chunkOf session metadata payload = some (key, c) ∧
      m.ignores act.env session = false ∧ a.session = session ∧
      Ledger m₁ ∧ m₁.active = m.active ∧ m'.active = (m₁.post act.env a title body).active := by
  cases step_handled hs with
  | @notification session metadata payload event =>
    rw [event]
    have hquiet : ∀ m', Quiet m m' act.env session → m'.active.Sub m.active ∧
        ∀ x, (Event.notification session metadata payload).origin m = some x → Spares m m' act.env x := by
      rintro m' ⟨hsub, hspares⟩
      exact ⟨hsub, fun x hx => Option.some.inj hx ▸ hspares⟩
    cases hchunk : chunkOf session metadata payload with
    | none => exact .inl (hquiet _ (request_quiet h hhomed act.env hchunk))
    | some keyed =>
      obtain ⟨key, c⟩ := keyed
      by_cases hguard : m.ignores act.env session = true
      · exact .inl (hquiet _ (quiet_of_eq (by rw [Manager.onNotification, if_pos hguard])))
      · obtain ⟨request, hparse, -, -, hrun⟩ := chunkOf_eq_some hchunk
        rw [hrun m act.env (by simpa using hguard)]
        obtain hsame | ⟨a, title, body, m₁, hsession, hm₁, hactive, hpost⟩ :=
          chunk_active hm h act.env session (parseRequest_validId hparse) c
        · exact .inl (hquiet _ (quiet_of_eq hsame))
        · exact .inr ⟨session, metadata, payload, key, c, a, title, body, m₁, rfl, hchunk, by simpa using hguard,
            hsession, hm₁, hactive, hpost⟩
  | intent event =>
    rw [event]
    exact .inl (handleIntent_quiet h act.env _)
  | @expiry token e due event timer =>
    have hledger : Ledger { m with timers := m.timers.filter fun t => t.1.token ≠ token } :=
      h.frame rfl rfl (fun _ ht => (List.mem_filter.mp ht).1) le_rfl rfl rfl rfl
    have hquiet : Quiet m (Manager.runExpiry
        { m with timers := m.timers.filter fun t => t.1.token ≠ token } act.env e) act.env e.session := by
      unfold Manager.runExpiry
      split_ifs
      · exact close_quiet hledger rfl act.env true .expired
      · exact quiet_of_eq rfl
    refine .inl ⟨hquiet.1, fun x hx => ?_⟩
    simp only [event, Event.origin, timer, Option.map_some] at hx
    exact Option.some.inj hx ▸ hquiet.2
  | sweep event =>
    have hactive : (Manager.runSweep { m with sweepDue := none } act.env).active = m.active := by
      unfold Manager.runSweep Manager.scheduleSweep
      dsimp only
      split_ifs <;> rfl
    rw [event]
    exact .inl ⟨(quiet_of_eq hactive : Quiet m _ act.env 0).1, fun x hx => by cases hx⟩
  | @sessionClosed session event =>
    have hledger : Ledger { m with pending := m.pending.filter fun p => p.2.session ≠ session } :=
      h.frame rfl rfl (fun _ ht => ht) le_rfl rfl rfl rfl
    have hquiet := closeWhere_quiet hledger act.env session m.entries
    rw [event]
    exact .inl ⟨hquiet.1, fun x hx => Option.some.inj hx ▸ hquiet.2⟩
  | destroy event =>
    rw [event]
    exact .inl ⟨closeWhere_sub _ _, fun x hx => by cases hx⟩

theorem step_limited (hm : Keyed m) (h : Ledger m) (hhomed : Homed m.active) (hlimited : Limited m)
    (hs : step m act = some m') : Limited m' := by
  constructor
  · cases hchunk : act.event.chunk with
    | none =>
      refine hlimited.pending.mono fun k a hget => moves_pending ?_ (step_moves hm hs) hget
      simp [hchunk]
    | some keyed =>
      obtain ⟨key, c⟩ := keyed
      obtain ⟨session, metadata, payload, hevent, hchunkOf⟩ := chunk_eq_some hchunk
      rw [step, hevent] at hs
      obtain rfl := Option.some.inj hs
      by_cases hguard : m.ignores act.env session = true
      · rw [Manager.onNotification, if_pos hguard]
        exact hlimited.pending
      · have hguard' : m.ignores act.env session = false := by simpa using hguard
        obtain ⟨request, hparse, -, -, hrun⟩ := chunkOf_eq_some hchunkOf
        rw [hrun m act.env hguard']
        exact chunk_within hm (accepted_of_not_ignores hevent hparse hguard') c hlimited.pending
  · obtain ⟨hsub, -⟩ | ⟨session, metadata, payload, key, c, a, title, body, m₁, -, -, -, -, h₁, hactive, hpost⟩ :=
      step_active hm h hhomed hs
    · exact hlimited.active.mono hsub
    · rw [hpost]
      exact post_within h₁ (hactive ▸ hhomed) (hactive ▸ hlimited.active) title body

/-- While a chunk is handled, its session is among the holders. -/
theorem handling_chunk (hm : Keyed m) {session : ℕ} {metadata payload : Bytes} {request : Request}
    (hevent : act.event = .notification session metadata payload) (hguard : m.ignores act.env session = false)
    (hparse : parseRequest metadata = some request) (htype : request.type = .title ∨ request.type = .body) :
    m.handling act = { m with pending := (m.pending.assembly act.env.now session request.id).1 } ∧
    session ∈ (m.pending.assembly act.env.now session request.id).1.owners Assembly.session := by
  constructor
  · obtain ht | ht := htype <;> simp [Manager.handling, hevent, hguard, hparse, ht]
  · obtain ⟨ha, hget, -⟩ := assembly_spec m.pending act.env.now session request.id
    refine OrderedMap.mem_owners_iff.mpr ⟨_, _, hget, ?_⟩
    rw [← ha]
    exact (assembly_fields hm (parseRequest_validId hparse) rfl).1

/-- One of few sessions does not evict the assemblies of the others. -/
theorem evicts_eq_false (hlimited : Limited m) {now session : ℕ} {id : Option JString} {k : Key} {a : Assembly}
    (hbefore : m.holders.card ≤ 8)
    (hduring : { m with pending := (m.pending.assembly now session id).1 }.holders.card ≤ 8)
    (hmem : session ∈ (m.pending.assembly now session id).1.owners Assembly.session)
    (hget : m.pending.get? k = some a) (hsession : a.session ≠ session) :
    m.evicts now session id k = false := by
  unfold Manager.evicts
  dsimp only
  cases hnew : (m.pending.sweepPending now).get? (scope session id) with
  | some old => rfl
  | none =>
    cases hswept : (m.pending.sweepPending now).get? k with
    | none => rfl
    | some a' =>
      obtain rfl : a' = a := Option.some.inj ((get?_of_sweepPending hswept).symm.trans hget)
      have hsub := sweepPending_sub m.pending now
      have hassembly : (m.pending.assembly now session id).1 = ((m.pending.sweepPending now).trimPending session).put
          (scope session id) (Assembly.new session id now) := by
        rw [Pending.assembly, hnew]
      rw [hassembly] at hmem hduring
      rw [trimPending_eq] at hmem hduring ⊢
      have hkept := OrderedMap.get?_trim (n := 8) (x := session) (hlimited.pending.mono hsub) (by decide) (by decide)
        ?_ ?_ hsession hswept
      · rw [hkept]
        rfl
      · exact (Finset.card_le_card ((OrderedMap.owners_subset hsub).trans Finset.subset_union_left)).trans hbefore
      · refine (Finset.card_le_card (Finset.insert_subset (Finset.mem_union_left _ hmem) ?_)).trans hduring
        intro x hx
        obtain ⟨k', a', hget', rfl⟩ := OrderedMap.mem_owners_iff.mp hx
        refine Finset.mem_union_left _ (OrderedMap.mem_owners_iff.mpr ⟨k', a', ?_, rfl⟩)
        have hne : k' ≠ scope session id := by
          rintro rfl
          have hold := OrderedMap.trim_sub _ _ _ _ _ _ hget'
          rw [hnew] at hold
          cases hold
        rw [OrderedMap.get?_put, if_neg hne]
        exact hget'

/-- The event is nothing to an assembly of another session that is not expired. -/
theorem undisturbed_of_other (hm : Keyed m) (hlimited : Limited m) (hfew : FewHolders m act) {x : ℕ} {k : Key}
    {a : Assembly} (horigin : act.event.origin m = some x) (hget : m.pending.get? k = some a) (hsession : a.session ≠ x)
    (hfresh : act.env.now - a.created ≤ ASSEMBLY_TTL_MS)
    (htaken : ∀ metadata payload, act.event = .notification x metadata payload → m.ignores act.env x = false) :
    undisturbed k m act = true ∧ ∀ c, act.event.chunk ≠ some (k, c) := by
  have hkey : k.session ≠ x := by
    rw [(hm k a hget).1]
    exact hsession
  have hyoung : ((m.pending.get? k).all fun a => act.env.now - a.created ≤ ASSEMBLY_TTL_MS) = true := by
    simpa [hget] using hfresh
  unfold undisturbed
  rw [hyoung, Bool.true_and]
  cases hevent : act.event with
  | notification session metadata payload =>
    rw [hevent] at horigin
    obtain rfl := Option.some.inj horigin
    have hscope : ∀ id, scope session id ≠ k := by
      rintro id rfl
      exact hkey rfl
    constructor
    · dsimp only
      cases hparse : parseRequest metadata with
      | none => rfl
      | some request =>
        dsimp only
        have hchunk : (request.type = .title ∨ request.type = .body) →
            (if scope session request.id = k then !m.ignores act.env session
              else !m.evicts act.env.now session request.id k) = true := by
          intro htype
          obtain ⟨hhandling, hmem⟩ := handling_chunk hm hevent (htaken metadata payload hevent) hparse htype
          have hduring := hfew.2
          rw [hhandling] at hduring
          rw [if_neg (hscope request.id), evicts_eq_false hlimited hfew.1 hduring hmem hget hsession]
          rfl
        cases htype : request.type with
        | title => exact hchunk (.inl htype)
        | body => exact hchunk (.inr htype)
        | close =>
          cases request.id with
          | none => rfl
          | some id => exact decide_eq_true (hscope (some id))
        | query | alive | other => rfl
    · intro c hc
      obtain ⟨request, -, hk, -, -⟩ := chunkOf_eq_some hc
      exact hscope _ hk.symm
  | intent i => exact ⟨rfl, fun c hc => by cases hc⟩
  | expiry token => exact ⟨rfl, fun c hc => by cases hc⟩
  | sweep | destroy =>
    rw [hevent] at horigin
    cases horigin
  | sessionClosed session =>
    rw [hevent] at horigin
    obtain rfl := Option.some.inj horigin
    exact ⟨decide_eq_true hkey, fun c hc => by cases hc⟩

theorem step_pending_spared (hm : Keyed m) (hlimited : Limited m) (hfew : FewHolders m act) {x : ℕ} {k : Key}
    {a : Assembly} (hs : step m act = some m') (horigin : act.event.origin m = some x)
    (hget : m.pending.get? k = some a) (hsession : a.session ≠ x)
    (hfresh : act.env.now - a.created ≤ ASSEMBLY_TTL_MS) : m'.pending.get? k = some a := by
  by_cases hignored : ∃ metadata payload, act.event = .notification x metadata payload ∧ m.ignores act.env x = true
  · obtain ⟨metadata, payload, hevent, hguard⟩ := hignored
    rw [step, hevent] at hs
    obtain rfl := Option.some.inj hs
    rwa [Manager.onNotification, if_pos hguard]
  · obtain ⟨hok, hchunk⟩ := undisturbed_of_other hm hlimited hfew horigin hget hsession hfresh
      fun metadata payload hevent => by simpa using fun hguard => hignored ⟨metadata, payload, hevent, hguard⟩
    rw [step_other hm hchunk hok hs, hget]

theorem step_active_spared (hm : Keyed m) (h : Ledger m) (hhomed : Homed m.active) (hlimited : Limited m)
    (hfew : FewHolders m act) {x : ℕ} (hs : step m act = some m') (horigin : act.event.origin m = some x) :
    Spares m m' act.env x := by
  obtain ⟨-, hspares⟩ | ⟨session, metadata, payload, key, c, a, title, body, m₁, hevent, hchunk, hguard, ha, h₁,
    hactive, hpost⟩ := step_active hm h hhomed hs
  · exact hspares x horigin
  · rw [hevent] at horigin
    obtain rfl := Option.some.inj horigin
    obtain ⟨request, hparse, -, htype, -⟩ := chunkOf_eq_some hchunk
    obtain ⟨hhandling, hmem⟩ := handling_chunk hm hevent hguard hparse htype
    -- the session of the chunk and the owners of the active entries hold something while it is handled
    have hcard : (insert session (m.active.owners Entry.session)).card ≤ 8 := by
      refine (Finset.card_le_card ?_).trans hfew.2
      rw [hhandling]
      exact Finset.insert_subset (Finset.mem_union_left _ hmem) Finset.subset_union_right
    intro k e hget hsession hshown
    rw [hpost]
    refine post_keeps h₁ (hactive ▸ hhomed) (hactive ▸ hlimited.active) ?_ (hactive ▸ hget) (ha ▸ hsession) hshown
      title body
    rw [hactive, ha]
    exact hcard

end Steps

section Runs

variable {platform : Bool} {acts : List Action} {m : Manager}

theorem run_homed (h : Run (Manager.new platform) step anyStep acts m) : Homed m.active :=
  run_inv_of_moves (fun m => Homed m.active) (fun _ _ he => by cases he) (fun _ _ _ => move_homed) h

theorem run_limited (h : Run (Manager.new platform) step anyStep acts m) : Limited m := by
  induction h with
  | nil => exact ⟨⟨fun _ => Nat.zero_le _, Nat.zero_le _⟩, ⟨fun _ => Nat.zero_le _, Nat.zero_le _⟩⟩
  | snoc hrun _ hs ih => exact step_limited (run_keyed hrun) (run_ledger hrun) (run_homed hrun) ih hs

end Runs

/-- In every state reached a session has at most 8 pending and 8 active entries, and
there are at most 64 of each. An event that comes from a session while at most 8
sessions hold something leaves the assemblies of the other sessions alone, unless
they are older than 30 s, and their notifications, unless they are not shown any more. -/
theorem sessions_apart (platform : Bool) (acts : List Action) (m : Manager)
    (hrun : Run (Manager.new platform) step anyStep acts m) :
    (∀ x, (m.pending.owned Assembly.session x).length ≤ 8 ∧ (m.active.owned Entry.session x).length ≤ 8) ∧
    m.pending.size ≤ 64 ∧ m.active.size ≤ 64 ∧
    ∀ act m' x, FewHolders m act → step m act = some m' → act.event.origin m = some x →
      (∀ k a, m.pending.get? k = some a → a.session ≠ x → act.env.now - a.created ≤ ASSEMBLY_TTL_MS →
        m'.pending.get? k = some a) ∧
      ∀ k e, m.active.get? k = some e → e.session ≠ x → act.env.shown e.key = true →
        m'.active.get? k = some e := by
  have hkeyed := run_keyed hrun
  have hlimited := run_limited hrun
  refine ⟨fun x => ⟨hlimited.pending.each x, hlimited.active.each x⟩, hlimited.pending.all, hlimited.active.all, ?_⟩
  intro act m' x hfew hs horigin
  constructor
  · intro k a hget hsession hfresh
    exact step_pending_spared hkeyed hlimited hfew hs horigin hget hsession hfresh
  · exact step_active_spared hkeyed (run_ledger hrun) (run_homed hrun) hlimited hfew hs horigin

/-- Session 1 has a notification and begins another. -/
def twoOfOne : List Action :=
  [⟨calmEnv 0, .notification 1 (ascii "i=x") (ascii "Hi")⟩, ⟨calmEnv 1, .notification 1 (ascii "i=y:d=0") (ascii "Hi")⟩]

/-- Session 0 posts one. -/
def postOfZero (now : ℕ) : Action := ⟨calmEnv now, .notification 0 (ascii "i=x") (ascii "Hi")⟩

theorem sessions_apart_two : ∃ m m' a e, Run (Manager.new true) step anyStep twoOfOne m ∧
    FewHolders m (postOfZero 2) ∧ step m (postOfZero 2) = some m' ∧
    m.pending.get? (.scope 1 "y".toList) = some a ∧ m.active.get? (.scope 1 "x".toList) = some e ∧
    m'.pending.get? (.scope 1 "y".toList) = some a ∧ m'.active.get? (.scope 1 "x".toList) = some e := by
  have hrun : ∃ m m', Run (Manager.new true) step anyStep twoOfOne m ∧ step m (postOfZero 2) = some m' ∧
      FewHolders m (postOfZero 2) ∧
      (m.pending.get? (.scope 1 "y".toList)).any (fun a => a.session = 1 ∧ a.created = 1) = true ∧
      (m.active.get? (.scope 1 "x".toList)).any (fun e => e.session = 1) = true :=
    exists_step_of_exec (by decide)
  obtain ⟨m, m', hrun, hs, hfew, hpending, hactive⟩ := hrun
  obtain ⟨a, ha, hsession⟩ := (Option.any_eq_true _ _).mp hpending
  obtain ⟨e, he, hsession'⟩ := (Option.any_eq_true _ _).mp hactive
  obtain ⟨hsession, hcreated⟩ := of_decide_eq_true hsession
  have hmain := (sessions_apart true twoOfOne m hrun).2.2.2 (postOfZero 2) m' 0 hfew hs rfl
  refine ⟨m, m', a, e, hrun, hfew, hs, ha, he, hmain.1 _ a ha (by omega) ?_, hmain.2 _ e he ?_ rfl⟩
  · rw [hcreated]
    decide
  · rw [of_decide_eq_true hsession']
    decide

/-- An assembly of session 1, which the sweep finds 30 s old and leaves. -/
def sweptTooEarly : List Action :=
  [⟨calmEnv 0, .notification 1 (ascii "i=y:d=0") (ascii "Hi")⟩, ⟨calmEnv 30000, .sweep⟩]

/-- Then a chunk of session 0 removes it. -/
theorem expired_swept_by_other : ∃ m m', Run (Manager.new true) step FewHolders sweptTooEarly m ∧
    step m (postOfZero 30001) = some m' ∧ FewHolders m (postOfZero 30001) ∧
    (postOfZero 30001).event.origin m = some 0 ∧
    (m.pending.get? (.scope 1 "y".toList)).any (fun a => a.session = 1) = true ∧
    m'.pending.get? (.scope 1 "y".toList) = none :=
  exists_step_of_exec (by decide)

end Tinyhack.Notify
