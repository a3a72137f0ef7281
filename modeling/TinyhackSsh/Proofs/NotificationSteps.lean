import TinyhackSsh.Lib.Runs
import TinyhackSsh.Spec.Notifications
import TinyhackSsh.Proofs.NotificationAssembly

/-! What an event can do to the manager: it is a sequence of the moves below, from
which the invariants of the later modules are derived. -/

namespace Tinyhack.Notify

open Runs

/-- The event is a request of this session, which the manager does not ignore. -/
structure Accepted (act : Action) (session : ℕ) (payload : Bytes) (request : Request) : Prop where
  event : ∃ metadata, act.event = .notification session metadata payload ∧ parseRequest metadata = some request
  running : act.env.running session = true
  listed : act.env.listed session = true

/-- Whether the end of a notification is reported to the program. -/
def Cause.reports : Cause → Bool
  | .clientClose | .activated | .dismissed | .expired | .reconciled | .evicted => true
  | .replaced | .sessionClosed | .destroyed => false

/-- An id that a request may carry. -/
def ValidId (id : Option JString) : Prop := ∀ x ∈ id, isValidId x = true

theorem parseRequest_validId {metadata : Bytes} {request : Request} (h : parseRequest metadata = some request) :
    ValidId request.id := by
  obtain ⟨options, -, h⟩ := Option.bind_eq_some_iff.mp h
  dsimp only at h
  split_ifs at h with hbad
  obtain rfl := Option.some.inj h
  intro x hx
  dsimp only at hx
  rw [Option.mem_def.mp hx] at hbad
  simpa using hbad

theorem Accepted.validId {act : Action} {session : ℕ} {payload : Bytes} {request : Request}
    (h : Accepted act session payload request) : ValidId request.id := by
  obtain ⟨metadata, -, hparse⟩ := h.event
  exact parseRequest_validId hparse

/-- No valid id is empty, so sessions and ids are told apart. -/
theorem scope_inj {session session' : ℕ} {id id' : Option JString} (hid : ValidId id) (hid' : ValidId id')
    (h : scope session id = scope session' id') : session = session' ∧ id = id' := by
  have hne : ∀ x : JString, isValidId x = true → x ≠ [] := by
    rintro x hx rfl
    cases hx
  obtain ⟨hs, hx⟩ := Key.scope.inj h
  refine ⟨hs, ?_⟩
  match id, id' with
  | none, none => rfl
  | none, some y => exact absurd hx.symm (hne y (hid' y rfl))
  | some x, none => exact absurd hx (hne x (hid x rfl))
  | some x, some y => exact congrArg some hx

/-- Assemblies stand under the keys of their ids. -/
def Keyed (m : Manager) : Prop :=
  ∀ k a, m.pending.get? k = some a → k = scope a.session a.id ∧ ValidId a.id

/-- What `close` lets out. -/
def Manager.closeOutputs (m : Manager) (env : Env) (e : Entry) (report : Bool) (cause : Cause) : List Output :=
  .ended e cause (env.answers e.session) :: ((if m.platform then [.cancel e.key e.androidId] else []) ++
    if report && e.closeReport && env.answers e.session then
      [.write e.session (some e.token) (Wire.encodeUtf8 (replyText e.id (some "p=close".toList) []))] else [])

theorem close_live {m : Manager} {e : Entry} (h : m.tokens.get? e.token = some e) (env : Env) (report : Bool)
    (cause : Cause) : m.close env e report cause =
      { m.forget e with out := m.out ++ m.closeOutputs env e report cause } := by
  unfold Manager.close Manager.closeOutputs
  rw [if_neg (not_not.mpr h)]
  cases hp : m.platform <;> cases report <;> cases e.closeReport <;> cases ha : env.answers e.session <;>
    simp [Manager.emit, Manager.reply, Manager.forget, hp, ha]

theorem close_stale {m : Manager} {e : Entry} (h : m.tokens.get? e.token ≠ some e) (env : Env) (report : Bool)
    (cause : Cause) : m.close env e report cause = m := if_pos h

theorem reply_eq (m : Manager) (env : Env) (session : ℕ) (id operation : Option JString) (payload : JString)
    (about : Option ℕ) : m.reply env session id operation payload about =
      { m with out := m.out ++ if env.answers session then
        [Output.write session about (Wire.encodeUtf8 (replyText id operation payload))] else [] } := by
  unfold Manager.reply Manager.emit
  split_ifs
  · rfl
  · rw [List.append_nil]

theorem register_eq (m : Manager) (env : Env) (a : Assembly) (e : Entry) (previous : Option Entry) :
    m.register env a e previous =
      { m with
        active := (previous.elim m.active fun old => m.active.erase old.key).put e.key e
        tokens := (previous.elim m.tokens fun old => m.tokens.erase old.token).put e.token e
        timers := (previous.elim m.timers fun old => m.timers.filter fun t => t.1.token ≠ old.token) ++
          if a.expires > 0 then [(e, env.now + a.expires.toNat)] else []
        out := m.out ++ previous.elim [] fun old => [.ended old .replaced (env.answers old.session)] } := by
  unfold Manager.register Manager.forget Manager.emit
  cases previous <;> dsimp only [Option.elim] <;> split_ifs <;> simp

/-! The parts of an event that only close and answer. -/

inductive Talk (env : Env) (m : Manager) : Manager → Prop
  | close (e : Entry) (report : Bool) (cause : Cause) : Talk env m (m.close env e report cause)
  | reply (session : ℕ) (id operation : Option JString) (payload : JString) (about : Option ℕ) :
      Talk env m (m.reply env session id operation payload about)

abbrev Talks (env : Env) : Manager → Manager → Prop := Relation.ReflTransGen (Talk env)

section Talking

variable {env : Env} {m m' : Manager}

theorem closeWhere_talks (report : Bool) (cause : Cause) (test : Entry → Bool) (entries : List Entry) :
    Talks env m (m.closeWhere env report cause test entries) := by
  induction entries generalizing m with
  | nil => exact .refl
  | cons e entries ih =>
    rw [Manager.closeWhere, List.foldl_cons]
    split_ifs
    · exact .head (.close e report cause) ih
    · exact ih

theorem reconcile_talks : Talks env m (m.reconcile env) := by
  unfold Manager.reconcile
  split_ifs
  · exact .refl
  · exact closeWhere_talks _ _ _ _

theorem closeFirst_talks (cause : Cause) (entries : List Entry) : Talks env m (m.closeFirst env cause entries) := by
  cases entries with
  | nil => exact .refl
  | cons e entries => exact .single (.close e true cause)

theorem trimActive_talks (session : ℕ) : Talks env m (m.trimActive env session) := by
  unfold Manager.trimActive
  dsimp only
  split_ifs
  · exact (closeFirst_talks _ _).trans (closeFirst_talks _ _)
  · exact closeFirst_talks _ _
  · exact closeFirst_talks _ _
  · exact .refl

theorem handleIntent_talks (intent : Intent) : Talks env m (m.handleIntent env intent).1 := by
  unfold Manager.handleIntent
  split_ifs
  · exact .refl
  cases intent.lastPathSegment.bind m.tokens.get? with
  | none => exact .refl
  | some e =>
    dsimp only
    cases intent.authority with
    | activate =>
      dsimp only
      split_ifs
      · exact .tail (.single (.reply e.session e.id none [] none)) (.close e true .activated)
      · exact .single (.close e true .activated)
    | dismiss => exact .single (.close e true .dismissed)
    | other => exact .refl

end Talking

/-- The steps that leave the pending assemblies alone. -/
inductive QuietMove (act : Action) (m : Manager) : Manager → Prop
  | rate (session : ℕ) (payload : Bytes) (request : Request) (rate : Rate)
      (haccepted : Accepted act session payload request) : QuietMove act m { m with rates := m.rates.put session rate }
  | dropRates (rates : OrderedMap ℕ Rate) (hsub : ∀ k r, rates.get? k = some r → m.rates.get? k = some r) :
      QuietMove act m { m with rates := rates }
  | sweepFlags (scheduled : Bool) (due : Option ℕ) :
      QuietMove act m { m with sweepScheduled := scheduled, sweepDue := due }
  | dropTimers (timers : List (Entry × ℕ)) (hsub : ∀ t ∈ timers, t ∈ m.timers) :
      QuietMove act m { m with timers := timers }
  | destroyed : QuietMove act m { m with destroyed := true }
  | query (session : ℕ) (payload : Bytes) (request : Request) (haccepted : Accepted act session payload request) :
      QuietMove act m (m.reply act.env session request.id (some "p=?".toList) CAPABILITIES none)
  | alive (session : ℕ) (payload : Bytes) (request : Request) (haccepted : Accepted act session payload request) :
      QuietMove act m (m.reply act.env session request.id (some "p=alive".toList)
        ([','].intercalate (m.aliveIds session)) none)
  | activated (e : Entry) (token : ℕ) (he : m.tokens.get? token = some e) :
      QuietMove act m (m.reply act.env e.session e.id none [] none)
  | close (e : Entry) (cause : Cause) : QuietMove act m (m.close act.env e cause.reports cause)
  /-- a UUID and an id are drawn, but the post throws -/
  | notPosted (nextId : ℤ) : QuietMove act m { m with uuids := m.uuids + 1, nextId := nextId }
  | posted (payload : Bytes) (request : Request) (a : Assembly) (content : Content) (nextId : ℤ) (e : Entry)
      (haccepted : Accepted act a.session payload request) (hid : a.id = request.id)
      (he : e = m.newEntry act.env a (m.postKey a) (m.active.get? (m.postKey a))) :
      QuietMove act m (({ m with uuids := m.uuids + 1, nextId := nextId }.emit (.notify e content)).register act.env a e
        (m.active.get? (m.postKey a)))

/-- The steps of which the handling of an event is made. -/
inductive Move (act : Action) (m : Manager) : Manager → Prop
  | quiet {m' : Manager} (h : QuietMove act m m') : Move act m m'
  | dropPending (pending : Pending)
      (hsub : ∀ k a, pending.get? k = some a → m.pending.get? k = some a) : Move act m { m with pending := pending }
  | putPending (payload : Bytes) (request : Request) (a : Assembly) (c : Chunk)
      (haccepted : Accepted act a.session payload request) (hid : a.id = request.id)
      (hchunk : act.event.chunk = some (scope a.session a.id, c)) :
      Move act m { m with pending := m.pending.put (scope a.session a.id) a }
  | submit (payload : Bytes) (request : Request) (a : Assembly) (c : Chunk) (title body : JString)
      (haccepted : Accepted act a.session payload request) (hid : a.id = request.id)
      (hchunk : act.event.chunk = some (scope a.session a.id, c)) :
      Move act m (m.emit (.submit a title body))

abbrev QuietMoves (act : Action) : Manager → Manager → Prop := Relation.ReflTransGen (QuietMove act)

abbrev Moves (act : Action) : Manager → Manager → Prop := Relation.ReflTransGen (Move act)

theorem QuietMoves.moves {act : Action} {m m' : Manager} (h : QuietMoves act m m') : Moves act m m' := by
  induction h with
  | refl => exact .refl
  | tail _ hlast ih => exact ih.tail (.quiet hlast)

/-- What every move keeps, moves keep. -/
theorem inv_of_moves {R : Manager → Manager → Prop} {m m' : Manager} (I : Manager → Prop)
    (hmove : ∀ m m', R m m' → I m → I m') (h : Relation.ReflTransGen R m m') (hm : I m) : I m' := by
  induction h with
  | refl => exact hm
  | tail _ hlast ih => exact hmove _ _ hlast ih

section Closing

variable {act : Action} {m : Manager}

theorem closeWhere_moves (report : Bool) (cause : Cause) (hreport : report = cause.reports) (test : Entry → Bool)
    (entries : List Entry) : QuietMoves act m (m.closeWhere act.env report cause test entries) := by
  subst hreport
  induction entries generalizing m with
  | nil => exact .refl
  | cons e entries ih =>
    rw [Manager.closeWhere, List.foldl_cons]
    split_ifs
    · exact .head (.close e cause) ih
    · exact ih

theorem reconcile_moves : QuietMoves act m (m.reconcile act.env) := by
  unfold Manager.reconcile
  split_ifs
  · exact .refl
  · exact closeWhere_moves true .reconciled rfl _ _

theorem closeFirst_moves (entries : List Entry) : QuietMoves act m (m.closeFirst act.env .evicted entries) := by
  cases entries with
  | nil => exact .refl
  | cons e entries => exact .single (.close e .evicted)

theorem trimActive_moves (session : ℕ) : QuietMoves act m (m.trimActive act.env session) := by
  unfold Manager.trimActive
  dsimp only
  split_ifs
  · exact (closeFirst_moves _).trans (closeFirst_moves _)
  · exact closeFirst_moves _
  · exact closeFirst_moves _
  · exact .refl

end Closing

section Active

variable {m : Manager} (env : Env) {k : Key}

/-- Closing erases entries, no more. -/
theorem close_active_none (e : Entry) (report : Bool) (cause : Cause) (h : m.active.get? k = none) :
    (m.close env e report cause).active.get? k = none ∧ (m.close env e report cause).uuids = m.uuids := by
  by_cases hlive : m.tokens.get? e.token = some e
  · rw [close_live hlive]
    refine ⟨?_, rfl⟩
    change (m.active.erase e.key).get? k = none
    rw [OrderedMap.get?_erase, h, ite_self]
  · rw [close_stale hlive]
    exact ⟨h, rfl⟩

theorem talks_active_none {m' : Manager} (h : Talks env m m') (hm : m.active.get? k = none) :
    m'.active.get? k = none ∧ m'.uuids = m.uuids := by
  induction h with
  | refl => exact ⟨hm, rfl⟩
  | tail _ hlast ih =>
    obtain ⟨hnone, huuids⟩ := ih
    cases hlast with
    | close e report cause =>
      obtain ⟨hnone', huuids'⟩ := close_active_none env e report cause hnone
      exact ⟨hnone', huuids'.trans huuids⟩
    | reply session id operation payload about =>
      rw [reply_eq]
      exact ⟨hnone, huuids⟩

theorem trimActive_active_none (session : ℕ) (h : m.active.get? k = none) :
    (m.trimActive env session).active.get? k = none ∧ (m.trimActive env session).uuids = m.uuids :=
  talks_active_none env (trimActive_talks session) h

end Active

section Requests

variable {act : Action} {m : Manager} {payload : Bytes} {request : Request} {a : Assembly}

theorem post_moves (haccepted : Accepted act a.session payload request) (hid : a.id = request.id)
    (title body : JString) : QuietMoves act m (m.post act.env a title body) := by
  unfold Manager.post
  dsimp only
  generalize hm₁ : m.reconcile act.env = m₁
  have hrec : QuietMoves act m m₁ := hm₁ ▸ reconcile_moves
  -- the entry to be replaced is the same after `trimActive`
  generalize hm₂ : (if (m₁.active.get? (m₁.postKey a)).isNone then m₁.trimActive act.env a.session else m₁) = m₂
  obtain ⟨htrim, hprev, huuids⟩ : QuietMoves act m₁ m₂ ∧
      m₂.active.get? (m₁.postKey a) = m₁.active.get? (m₁.postKey a) ∧ m₂.uuids = m₁.uuids := by
    subst hm₂
    split_ifs with hnone
    · rw [Option.isNone_iff_eq_none] at hnone
      obtain ⟨hnone', huuids⟩ := trimActive_active_none act.env a.session hnone
      exact ⟨trimActive_moves _, hnone'.trans hnone.symm, huuids⟩
    · exact ⟨.refl, rfl, rfl⟩
  have hkey : m₂.postKey a = m₁.postKey a := by rw [Manager.postKey, Manager.postKey, huuids]
  refine hrec.trans (htrim.trans (.single ?_))
  rw [← hprev, ← hkey]
  split_ifs
  · exact .notPosted _
  · exact .notPosted _
  · exact .posted payload request a _ _ _ haccepted hid rfl
  · exact .posted payload request a _ _ _ haccepted hid rfl

theorem showAssembly_moves (haccepted : Accepted act a.session payload request) (hid : a.id = request.id) {c : Chunk}
    (hchunk : act.event.chunk = some (scope a.session a.id, c)) (title body : JString) :
    Moves act m (m.showAssembly act.env a title body) := by
  unfold Manager.showAssembly
  generalize hm₁ : m.emit (.submit a title body) = m₁
  have hsubmit : Moves act m m₁ := hm₁ ▸ .single (.submit payload request a c title body haccepted hid hchunk)
  dsimp only
  split_ifs
  · exact hsubmit
  · exact (hsubmit.tail (.quiet (.rate a.session payload request _ haccepted))).trans
      (post_moves haccepted hid title body).moves
  · exact hsubmit.tail (.quiet (.rate a.session payload request _ haccepted))

theorem QuietMove.pending_eq {m m' : Manager} (h : QuietMove act m m') : m'.pending = m.pending := by
  cases h with
  | close e cause =>
    by_cases hlive : m.tokens.get? e.token = some e
    · rw [close_live hlive]
      rfl
    · rw [close_stale hlive]
  | posted =>
    rw [register_eq]
    rfl
  | query | alive | activated => rw [reply_eq]
  | _ => rfl

theorem QuietMoves.pending_eq {m m' : Manager} (h : QuietMoves act m m') : m'.pending = m.pending :=
  inv_of_moves (fun m' => m'.pending = m.pending) (fun _ _ hmove h => hmove.pending_eq.trans h) h rfl

theorem move_keyed {m m' : Manager} (h : Move act m m') (hm : Keyed m) : Keyed m' := by
  cases h with
  | quiet h =>
    intro k a hk
    rw [h.pending_eq] at hk
    exact hm k a hk
  | dropPending pending hsub => exact fun k a hk => hm k a (hsub k a hk)
  | putPending payload request a c haccepted hid =>
    intro k a' hk
    change (m.pending.put _ a).get? k = some a' at hk
    rw [OrderedMap.get?_put] at hk
    split_ifs at hk with hkey
    · obtain rfl := Option.some.inj hk
      exact ⟨hkey, hid ▸ haccepted.validId⟩
    · exact hm k a' hk
  | submit => exact hm

end Requests

/-! What is removed from `pending` is removed; nothing else changes. -/

section Pending

variable {pending : Pending} {k : Key} {a : Assembly}

theorem get?_of_removeFirst {entries : List (Key × Assembly)} (h : (pending.removeFirst entries).get? k = some a) :
    pending.get? k = some a := by
  cases entries with
  | nil => exact h
  | cons oldest entries => exact OrderedMap.get?_of_erase h

theorem get?_of_trimPending {session : ℕ} (h : (pending.trimPending session).get? k = some a) :
    pending.get? k = some a := by
  unfold Pending.trimPending at h
  dsimp only at h
  split_ifs at h
  · exact get?_of_removeFirst (get?_of_removeFirst h)
  · exact get?_of_removeFirst h
  · exact get?_of_removeFirst h
  · exact h

theorem get?_sweepPending (pending : Pending) (now : ℕ) (k : Key) :
    (pending.sweepPending now).get? k = (pending.get? k).filter fun a => now - a.created ≤ ASSEMBLY_TTL_MS :=
  OrderedMap.get?_filter _ _ _

theorem get?_of_sweepPending {now : ℕ} (h : (pending.sweepPending now).get? k = some a) : pending.get? k = some a := by
  rw [get?_sweepPending] at h
  exact (Option.filter_eq_some_iff.mp h).1

end Pending

section Requests

variable {act : Action} {m : Manager} {session : ℕ} {payload : Bytes} {request : Request} {a : Assembly}

/-- The assembly of a chunk has the session and the id of the chunk's request. -/
theorem assembly_fields (hm : Keyed m) {id : Option JString} (hvalid : ValidId id) {now : ℕ} {pending : Pending}
    (h : m.pending.assembly now session id = (pending, a)) : a.session = session ∧ a.id = id := by
  unfold Pending.assembly at h
  dsimp only at h
  cases hget : (m.pending.sweepPending now).get? (scope session id) with
  | some old =>
    rw [hget] at h
    obtain ⟨rfl, rfl⟩ := Prod.mk.inj h
    obtain ⟨hkey, hvalid'⟩ := hm _ _ (get?_of_sweepPending hget)
    obtain ⟨hsession, hid⟩ := scope_inj hvalid hvalid' hkey
    exact ⟨hsession.symm, hid.symm⟩
  | none =>
    rw [hget] at h
    obtain ⟨rfl, rfl⟩ := Prod.mk.inj h
    exact ⟨rfl, rfl⟩

theorem assembly_moves (haccepted : Accepted act session payload request) {c : Chunk}
    (hchunk : act.event.chunk = some (scope session request.id, c)) :
    Moves act m { m with pending := (m.pending.assembly act.env.now session request.id).1 } := by
  unfold Pending.assembly
  dsimp only
  cases hget : (m.pending.sweepPending act.env.now).get? (scope session request.id) with
  | some old => exact .single (.dropPending _ fun _ _ => get?_of_sweepPending)
  | none =>
    have hdrop : Moves act m { m with pending := (m.pending.sweepPending act.env.now).trimPending session } :=
      .single (.dropPending _ fun _ _ h => get?_of_sweepPending (get?_of_trimPending h))
    exact hdrop.tail
      (.putPending payload request (Assembly.new session request.id act.env.now) c haccepted rfl hchunk)

theorem scheduleSweep_moves : QuietMoves act m (m.scheduleSweep act.env) := by
  unfold Manager.scheduleSweep
  split_ifs
  · exact .refl
  · exact .single (.sweepFlags true _)

theorem erasePending_move (key : Key) : Move act m { m with pending := m.pending.erase key } :=
  .dropPending _ fun _ _ => OrderedMap.get?_of_erase

theorem chunk_moves (hm : Keyed m) {c : Chunk} (haccepted : Accepted act session payload request)
    (hchunk : act.event.chunk = some (scope session request.id, c)) :
    Moves act m (m.chunk act.env session request.id c) := by
  have hmoves := assembly_moves (m := m) haccepted hchunk
  unfold Manager.chunk
  generalize hp : m.pending.assembly act.env.now session request.id = r at hmoves ⊢
  obtain ⟨pending, a⟩ := r
  dsimp only at hmoves ⊢
  obtain ⟨rfl, hid⟩ := assembly_fields hm haccepted.validId hp
  rw [← hid] at hchunk ⊢
  have herase := hmoves.tail (erasePending_move (scope a.session a.id))
  by_cases hfailed : a.failed = true
  · rw [if_pos hfailed]
    split_ifs
    · exact herase
    · exact hmoves
  rw [if_neg hfailed]
  cases hadd : a.add c with
  | some a' =>
    obtain ⟨hsession, hid', -, -⟩ := Assembly.add_fields hadd
    rw [← hsession] at haccepted hchunk herase ⊢
    rw [← hid'] at hid hchunk herase ⊢
    dsimp only
    split_ifs
    · exact (hmoves.tail (.putPending payload request a' c haccepted hid hchunk)).trans scheduleSweep_moves.moves
    · cases a'.complete with
      | some texts => exact herase.trans (showAssembly_moves haccepted hid hchunk _ _)
      | none => exact herase
  | none =>
    dsimp only
    split_ifs
    · exact herase
    · exact (hmoves.tail (.putPending payload request { a with failed := true } c haccepted hid hchunk)).trans
        scheduleSweep_moves.moves

/-- A chunk changes `pending` and the sweep, or it is final and its texts are shown. -/
theorem chunk_cases (hm : Keyed m) (env : Env) (session : ℕ) {id : Option JString} (hvalid : ValidId id) (c : Chunk) :
    (∃ pending scheduled due, m.chunk env session id c =
      { m with pending := pending, sweepScheduled := scheduled, sweepDue := due }) ∨
    ∃ pending a title body, a.session = session ∧ a.id = id ∧
      m.chunk env session id c = { m with pending := pending }.showAssembly env a title body := by
  have hsweep : ∀ pending, ∃ scheduled due, { m with pending := pending }.scheduleSweep env =
      { m with pending := pending, sweepScheduled := scheduled, sweepDue := due } := by
    intro pending
    unfold Manager.scheduleSweep
    split_ifs
    · exact ⟨m.sweepScheduled, m.sweepDue, rfl⟩
    · exact ⟨true, _, rfl⟩
  unfold Manager.chunk
  generalize hp : m.pending.assembly env.now session id = r
  obtain ⟨pending, a⟩ := r
  obtain ⟨hsession, hid⟩ := assembly_fields hm hvalid hp
  dsimp only
  by_cases hfailed : a.failed = true
  · rw [if_pos hfailed]
    split_ifs <;> exact .inl ⟨_, m.sweepScheduled, m.sweepDue, rfl⟩
  rw [if_neg hfailed]
  cases hadd : a.add c with
  | none =>
    dsimp only
    split_ifs
    · exact .inl ⟨_, m.sweepScheduled, m.sweepDue, rfl⟩
    · exact .inl ⟨_, hsweep _⟩
  | some a' =>
    obtain ⟨hsession', hid', -, -⟩ := Assembly.add_fields hadd
    dsimp only
    split_ifs
    · exact .inl ⟨_, hsweep _⟩
    · cases a'.complete with
      | none => exact .inl ⟨_, m.sweepScheduled, m.sweepDue, rfl⟩
      | some texts => exact .inr ⟨_, a', texts.1, texts.2, hsession'.trans hsession, hid'.trans hid, rfl⟩

theorem accepted_of_not_ignores {metadata : Bytes} (hevent : act.event = .notification session metadata payload)
    (hparse : parseRequest metadata = some request) (h : m.ignores act.env session = false) :
    Accepted act session payload request := by
  simp only [Manager.ignores, Bool.or_eq_false_iff, Bool.not_eq_false'] at h
  exact ⟨⟨metadata, hevent, hparse⟩, h.1.2, h.2⟩

theorem closeRequest_moves (session : ℕ) (id : JString) : Moves act m (m.closeRequest act.env session id) := by
  unfold Manager.closeRequest
  dsimp only
  split
  · exact .tail (.single (erasePending_move _)) (.quiet (.close _ .clientClose))
  · exact .single (erasePending_move _)

theorem onNotification_moves (hm : Keyed m) {metadata : Bytes}
    (hevent : act.event = .notification session metadata payload) :
    Moves act m (m.onNotification act.env session metadata payload) := by
  unfold Manager.onNotification
  split_ifs with hguard
  · exact .refl
  cases hparse : parseRequest metadata with
  | none => exact .refl
  | some request =>
    have haccepted := accepted_of_not_ignores hevent hparse (by simpa using hguard)
    dsimp only
    cases htype : request.type with
    | query => exact .single (.quiet (.query session payload request haccepted))
    | alive => exact reconcile_moves.moves.tail (.quiet (.alive session payload request haccepted))
    | close =>
      cases request.id with
      | some id => exact closeRequest_moves session id
      | none => exact .refl
    | title => exact chunk_moves hm haccepted (by simp [hevent, Event.chunk, chunkOf, hparse, htype])
    | body => exact chunk_moves hm haccepted (by simp [hevent, Event.chunk, chunkOf, hparse, htype])
    | other => exact .refl

end Requests

section Events

variable {act : Action} {m m' : Manager}

theorem handleIntent_moves (intent : Intent) : QuietMoves act m (m.handleIntent act.env intent).1 := by
  unfold Manager.handleIntent
  split_ifs
  · exact .refl
  cases htoken : intent.lastPathSegment.bind m.tokens.get? with
  | none => exact .refl
  | some e =>
    obtain ⟨token, -, he⟩ := Option.bind_eq_some_iff.mp htoken
    dsimp only
    cases intent.authority with
    | activate =>
      dsimp only
      split_ifs
      · exact .tail (.single (.activated e token he)) (.close e .activated)
      · exact .single (.close e .activated)
    | dismiss => exact .single (.close e .dismissed)
    | other => exact .refl

theorem runExpiry_moves (e : Entry) : QuietMoves act m (m.runExpiry act.env e) := by
  unfold Manager.runExpiry
  split_ifs
  · exact .single (.close e .expired)
  · exact .refl

theorem onSessionClosed_moves (session : ℕ) : Moves act m (m.onSessionClosed act.env session) := by
  unfold Manager.onSessionClosed
  dsimp only
  have hdrop : Move act m { m with pending := m.pending.filter fun p => p.2.session ≠ session } :=
    .dropPending _ fun k a h => (Option.filter_eq_some_iff.mp (OrderedMap.get?_filter _ _ k ▸ h)).1
  exact .tail (.trans (.single hdrop) (closeWhere_moves false .sessionClosed rfl _ _).moves)
    (.quiet (.dropRates _ fun _ _ => OrderedMap.get?_of_erase))

theorem destroy_moves : Moves act m (m.destroy act.env) := by
  unfold Manager.destroy
  dsimp only
  have hstart : Moves act m { m with destroyed := true, timers := [], sweepDue := none } :=
    .tail (.tail (.single (.quiet .destroyed)) (.quiet (.dropTimers [] (by simp))))
      (.quiet (.sweepFlags m.sweepScheduled none))
  have hclosed := hstart.trans (closeWhere_moves false .destroyed rfl (fun _ => true)
    { m with destroyed := true, timers := [], sweepDue := none }.entries).moves
  refine .tail (.tail hclosed (.dropPending OrderedMap.empty ?_)) (.quiet (.dropRates OrderedMap.empty ?_))
  · exact fun k a h => by cases h
  · exact fun k a h => by cases h

/-- The event, and which handler it comes to. -/
inductive Handled (m : Manager) (act : Action) : Manager → Prop
  | notification {session : ℕ} {metadata payload : Bytes} (event : act.event = .notification session metadata payload) :
    Handled m act (m.onNotification act.env session metadata payload)
  | intent {intent : Intent} (event : act.event = .intent intent) : Handled m act (m.handleIntent act.env intent).1
  | expiry {token : ℕ} {e : Entry} {due : ℕ} (event : act.event = .expiry token)
    (timer : (m.timers.find? fun t => t.1.token = token) = some (e, due)) :
    Handled m act ({ m with timers := m.timers.filter fun t => t.1.token ≠ token }.runExpiry act.env e)
  | sweep (event : act.event = .sweep) : Handled m act ({ m with sweepDue := none }.runSweep act.env)
  | sessionClosed {session : ℕ} (event : act.event = .sessionClosed session) :
    Handled m act (m.onSessionClosed act.env session)
  | destroy (event : act.event = .destroy) : Handled m act (m.destroy act.env)

theorem step_handled (hs : step m act = some m') : Handled m act m' := by
  unfold step at hs
  cases hevent : act.event with
  | notification session metadata payload =>
    rw [hevent] at hs
    obtain rfl := Option.some.inj hs
    exact .notification hevent
  | intent intent =>
    rw [hevent] at hs
    obtain rfl := Option.some.inj hs
    exact .intent hevent
  | expiry token =>
    rw [hevent] at hs
    dsimp only at hs
    split at hs
    · split_ifs at hs
      obtain rfl := Option.some.inj hs
      exact .expiry hevent ‹_›
    · cases hs
  | sweep =>
    rw [hevent] at hs
    dsimp only at hs
    split at hs
    · split_ifs at hs
      obtain rfl := Option.some.inj hs
      exact .sweep hevent
    · cases hs
  | sessionClosed session =>
    rw [hevent] at hs
    obtain rfl := Option.some.inj hs
    exact .sessionClosed hevent
  | destroy =>
    rw [hevent] at hs
    obtain rfl := Option.some.inj hs
    exact .destroy hevent

/-- An event is a sequence of moves. -/
theorem step_moves (hm : Keyed m) (hs : step m act = some m') : Moves act m m' := by
  cases step_handled hs with
  | notification event => exact onNotification_moves hm event
  | intent event => exact (handleIntent_moves _).moves
  | expiry event timer =>
    exact .trans (.single (.quiet (.dropTimers _ fun t ht => (List.mem_filter.mp ht).1))) (runExpiry_moves _).moves
  | sweep event =>
    have hstart : Moves act m { m with sweepDue := none, sweepScheduled := false } :=
      .single (.quiet (.sweepFlags false none))
    unfold Manager.runSweep
    dsimp only
    split_ifs
    · exact hstart
    · exact hstart.tail (.dropPending _ fun _ _ => get?_of_sweepPending)
    · exact (hstart.tail (.dropPending _ fun _ _ => get?_of_sweepPending)).trans scheduleSweep_moves.moves
  | sessionClosed event => exact onSessionClosed_moves _
  | destroy event => exact destroy_moves

theorem step_keyed (hm : Keyed m) (hs : step m act = some m') : Keyed m' :=
  inv_of_moves Keyed (fun _ _ => move_keyed) (step_moves hm hs) hm

end Events

section Frames

variable {act : Action} {m m' : Manager}

/-- Only a chunk for a key changes the assembly under it, other than by removing it. -/
theorem moves_pending {k : Key} {a : Assembly} (hother : ∀ c, act.event.chunk ≠ some (k, c)) (h : Moves act m m')
    (hget : m'.pending.get? k = some a) : m.pending.get? k = some a := by
  induction h with
  | refl => exact hget
  | tail _ hlast ih =>
    refine ih ?_
    cases hlast with
    | quiet hquiet => rwa [hquiet.pending_eq] at hget
    | dropPending pending hsub => exact hsub k a hget
    | putPending payload request a' c haccepted hid hchunk =>
      have hk : k ≠ scope a'.session a'.id := by
        rintro rfl
        exact hother c hchunk
      rwa [OrderedMap.get?_put, if_neg hk] at hget
    | submit => exact hget

/-- Closing does not look at the event. -/
theorem closeWhere_pending (m : Manager) (env : Env) (cause : Cause) (test : Entry → Bool) (entries : List Entry) :
    (m.closeWhere env cause.reports cause test entries).pending = m.pending :=
  (closeWhere_moves cause.reports cause rfl test entries : QuietMoves ⟨env, .sweep⟩ m _).pending_eq

theorem onSessionClosed_pending (m : Manager) (env : Env) (session : ℕ) :
    (m.onSessionClosed env session).pending = m.pending.filter fun p => p.2.session ≠ session :=
  closeWhere_pending _ env .sessionClosed _ _

theorem closeRequest_pending (m : Manager) (env : Env) (session : ℕ) (id : JString) :
    (m.closeRequest env session id).pending = m.pending.erase (Key.scope session id) := by
  unfold Manager.closeRequest
  dsimp only
  split
  · exact (QuietMove.close _ .clientClose : QuietMove ⟨env, .sweep⟩ _ _).pending_eq
  · rfl

theorem move_destroyed (h : Move act m m') (hm : m.destroyed = true) : m'.destroyed = true := by
  cases h with
  | quiet hquiet =>
    cases hquiet with
    | destroyed => rfl
    | close e cause =>
      by_cases hlive : m.tokens.get? e.token = some e
      · rwa [close_live hlive]
      · rwa [close_stale hlive]
    | posted => rwa [register_eq]
    | query | alive | activated => rwa [reply_eq]
    | _ => exact hm
  | _ => exact hm

end Frames

section Runs

variable {platform : Bool} {ok : Manager → Action → Prop} {acts : List Action} {m : Manager}

theorem run_keyed (h : Run (Manager.new platform) step ok acts m) : Keyed m :=
  h.inv Keyed (fun _ _ hk => by cases hk) fun _ _ _ hi _ hs => step_keyed hi hs

/-- What every move keeps holds in every state reached. -/
theorem run_inv_of_moves (I : Manager → Prop) (h0 : I (Manager.new platform))
    (hmove : ∀ act m m', Move act m m' → I m → I m') (h : Run (Manager.new platform) step ok acts m) : I m := by
  induction h with
  | nil => exact h0
  | snoc hrun _ hs ih => exact inv_of_moves I (hmove _) (step_moves (run_keyed hrun) hs) ih

end Runs

/-- Everything runs, is allowed and works; the user looks elsewhere. -/
def calmEnv (now : ℕ) : Env where
  now := now
  running := fun _ => true
  listed := fun _ => true
  answers := fun _ => true
  isTerminalFocused := fun _ => false
  isTerminalVisible := fun _ => false
  displayTitle := fun _ => []
  areNotificationsEnabled := true
  channel := fun _ => true
  notifies := true
  shown := fun _ => true

def ascii (s : String) : Bytes := Wire.encodeUtf8 s.toList

end Tinyhack.Notify
