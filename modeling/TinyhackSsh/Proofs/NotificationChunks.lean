import TinyhackSsh.Proofs.NotificationSteps

/-! Chunks that reach the manager. While nothing removes its entry, the pending
assembly of a key is made of the chunks so far, whatever other events come between
them, and the final chunk hands to `show` what the chunks mean together. -/

namespace Tinyhack.Notify

open Runs Wire

section Chunk

variable {act : Action} {m m' : Manager} {session : ℕ} {payload : Bytes} {request : Request} {a : Assembly} {c : Chunk}

theorem QuietMove.submits_eq (h : QuietMove act m m') : m'.submits = m.submits := by
  cases h with
  | close e cause =>
    by_cases hlive : m.tokens.get? e.token = some e
    · rw [close_live hlive]
      simp only [Manager.submits, Manager.closeOutputs, List.filterMap_append]
      split_ifs <;> simp [Output.submitted]
    · rw [close_stale hlive]
  | posted payload request a content nextId e =>
    rw [register_eq]
    simp only [Manager.submits, Manager.emit, List.filterMap_append]
    cases m.active.get? (m.postKey a) <;> simp [Output.submitted]
  | query | alive | activated =>
    rw [reply_eq]
    simp only [Manager.submits, List.filterMap_append]
    split_ifs <;> simp [Output.submitted]
  | _ => rfl

/-- What a move hands to `show` belongs to the chunk of the event. -/
theorem moves_submits (h : Moves act m m') : ∃ new, m'.submits = m.submits ++ new ∧
    ∀ x ∈ new, ∃ c, act.event.chunk = some (scope x.1.session x.1.id, c) := by
  induction h with
  | refl => exact ⟨[], (List.append_nil _).symm, by simp⟩
  | tail _ hlast ih =>
    obtain ⟨new, heq, hnew⟩ := ih
    cases hlast with
    | quiet hquiet => exact ⟨new, hquiet.submits_eq.trans heq, hnew⟩
    | dropPending | putPending => exact ⟨new, heq, hnew⟩
    | submit payload request a c title body haccepted hid hchunk =>
      refine ⟨new ++ [(a, title, body)], ?_, fun x hx => ?_⟩
      · rw [← List.append_assoc, ← heq]
        simp [Manager.submits, Manager.emit, Output.submitted]
      · rcases List.mem_append.mp hx with hx | hx
        · exact hnew x hx
        · rw [List.mem_singleton.mp hx]
          exact ⟨c, hchunk⟩

theorem QuietMoves.frame (h : QuietMoves act m m') : m'.pending = m.pending ∧ m'.submits = m.submits :=
  ⟨h.pending_eq, inv_of_moves (fun m' => m'.submits = m.submits) (fun _ _ hmove h => hmove.submits_eq.trans h) h rfl⟩

theorem showAssembly_spec (haccepted : Accepted act a.session payload request) (hid : a.id = request.id)
    (title body : JString) :
    (m.showAssembly act.env a title body).pending = m.pending ∧
    (m.showAssembly act.env a title body).submits = m.submits ++ [(a, title, body)] := by
  have hsubmit : (m.emit (.submit a title body)).submits = m.submits ++ [(a, title, body)] := by
    simp [Manager.submits, Manager.emit, Output.submitted]
  have hpost : ∀ m₁ : Manager, (m₁.post act.env a title body).pending = m₁.pending ∧
      (m₁.post act.env a title body).submits = m₁.submits := fun _ => (post_moves haccepted hid title body).frame
  unfold Manager.showAssembly
  dsimp only
  split_ifs
  · exact ⟨rfl, hsubmit⟩
  · exact ⟨(hpost _).1, (hpost _).2.trans hsubmit⟩
  · exact ⟨rfl, hsubmit⟩

/-- The assembly that a chunk of this session and id finds or begins. -/
def Pending.current (pending : Pending) (now session : ℕ) (id : Option JString) : Assembly :=
  ((pending.sweepPending now).get? (scope session id)).getD (Assembly.new session id now)

theorem assembly_spec (pending : Pending) (now session : ℕ) (id : Option JString) :
    (pending.assembly now session id).2 = pending.current now session id ∧
    (pending.assembly now session id).1.get? (scope session id) = some (pending.current now session id) ∧
    ∀ k ≠ scope session id, (pending.assembly now session id).1.get? k =
      if ((pending.sweepPending now).get? (scope session id)).isNone then
        ((pending.sweepPending now).trimPending session).get? k
      else (pending.sweepPending now).get? k := by
  unfold Pending.assembly Pending.current
  dsimp only
  cases hget : (pending.sweepPending now).get? (scope session id) with
  | some a => exact ⟨rfl, hget, fun _ _ => rfl⟩
  | none =>
    refine ⟨rfl, ?_, fun k hk => ?_⟩
    · dsimp only
      rw [OrderedMap.get?_put, if_pos rfl]
      rfl
    · dsimp only
      rw [OrderedMap.get?_put, if_neg hk]
      rfl

theorem scheduleSweep_spec (m : Manager) (env : Env) :
    (m.scheduleSweep env).pending = m.pending ∧ (m.scheduleSweep env).submits = m.submits := by
  unfold Manager.scheduleSweep
  split_ifs <;> exact ⟨rfl, rfl⟩

/-- The pending assembly takes the chunk, until the final one; then its outcome is
handed to `show`. -/
theorem chunk_spec (hm : Keyed m) (haccepted : Accepted act session payload request) (c : Chunk) :
    (m.chunk act.env session request.id c).pending.get? (scope session request.id) =
      (if c.isFinal then none else some ((m.pending.current act.env.now session request.id).receive c)) ∧
    (∀ k ≠ scope session request.id, (m.chunk act.env session request.id c).pending.get? k =
      (m.pending.assembly act.env.now session request.id).1.get? k) ∧
    (m.chunk act.env session request.id c).submits = m.submits ++ if c.isFinal then
      (((m.pending.current act.env.now session request.id).receive c).outcome.map fun t =>
        ((m.pending.current act.env.now session request.id).receive c, t)).toList else [] := by
  obtain ⟨ha, hget, -⟩ := assembly_spec m.pending act.env.now session request.id
  rw [← ha] at hget ⊢
  unfold Manager.chunk
  generalize hp : m.pending.assembly act.env.now session request.id = r at hget ⊢
  obtain ⟨pending, a⟩ := r
  obtain ⟨rfl, hid⟩ := assembly_fields hm haccepted.validId hp
  dsimp only at hget ⊢
  have herase : (pending.erase (scope a.session request.id)).get? (scope a.session request.id) = none := by
    rw [OrderedMap.get?_erase, if_pos rfl]
  have herase' : ∀ k ≠ scope a.session request.id,
      (pending.erase (scope a.session request.id)).get? k = pending.get? k :=
    fun k hk => by rw [OrderedMap.get?_erase, if_neg hk]
  have hput : ∀ a', (pending.put (scope a.session request.id) a').get? (scope a.session request.id) = some a' :=
    fun a' => by rw [OrderedMap.get?_put, if_pos rfl]
  have hput' : ∀ a', ∀ k ≠ scope a.session request.id,
      (pending.put (scope a.session request.id) a').get? k = pending.get? k :=
    fun a' k hk => by rw [OrderedMap.get?_put, if_neg hk]
  by_cases hfailed : a.failed = true
  · have hreceive : a.receive c = a := if_pos hfailed
    have houtcome : a.outcome = none := if_pos hfailed
    rw [if_pos hfailed, hreceive, houtcome]
    cases c.isFinal with
    | true => exact ⟨herase, herase', (List.append_nil _).symm⟩
    | false => exact ⟨hget, fun _ _ => rfl, (List.append_nil _).symm⟩
  rw [if_neg hfailed]
  cases hadd : a.add c with
  | none =>
    have hreceive : a.receive c = { a with failed := true } := by rw [Assembly.receive, if_neg hfailed, hadd]; rfl
    rw [hreceive]
    cases c.isFinal with
    | true => exact ⟨herase, herase', (List.append_nil _).symm⟩
    | false =>
      simp only [Bool.false_eq_true, ↓reduceIte]
      rw [(scheduleSweep_spec _ _).1, (scheduleSweep_spec _ _).2]
      exact ⟨hput _, hput' _, (List.append_nil _).symm⟩
  | some a' =>
    have hreceive : a.receive c = a' := by rw [Assembly.receive, if_neg hfailed, hadd]; rfl
    obtain ⟨hsession, hid', -, hfailed'⟩ := Assembly.add_fields hadd
    have houtcome : a'.outcome = a'.complete := if_neg (by rwa [hfailed'])
    rw [hreceive, houtcome]
    cases c.isFinal with
    | false =>
      simp only [Bool.not_false, Bool.false_eq_true, ↓reduceIte]
      rw [(scheduleSweep_spec _ _).1, (scheduleSweep_spec _ _).2]
      exact ⟨hput _, hput' _, (List.append_nil _).symm⟩
    | true =>
      simp only [Bool.not_true, Bool.false_eq_true, ↓reduceIte]
      cases a'.complete with
      | none => exact ⟨herase, herase', (List.append_nil _).symm⟩
      | some texts =>
        have hshow := showAssembly_spec (m := { m with pending := pending.erase (scope a.session request.id) })
          (hsession ▸ haccepted) (hid'.trans hid) texts.1 texts.2
        dsimp only
        rw [hshow.1, hshow.2]
        exact ⟨herase, herase', rfl⟩

end Chunk

/-- A chunk is a request for its key. -/
theorem chunkOf_eq_some {session : ℕ} {metadata payload : Bytes} {k : Key} {c : Chunk}
    (h : chunkOf session metadata payload = some (k, c)) : ∃ request, parseRequest metadata = some request ∧
      k = scope session request.id ∧ (request.type = .title ∨ request.type = .body) ∧
      ∀ (m : Manager) (env : Env), m.ignores env session = false →
        m.onNotification env session metadata payload = m.chunk env session request.id c := by
  unfold chunkOf at h
  cases hparse : parseRequest metadata with
  | none => simp [hparse] at h
  | some request =>
    rw [hparse] at h
    have hrun : ∀ (m : Manager) (env : Env), m.ignores env session = false →
        m.onNotification env session metadata payload = match request.type with
          | .title => m.chunk env session request.id ⟨request.options, false, payload⟩
          | .body => m.chunk env session request.id ⟨request.options, true, payload⟩
          | _ => m.onNotification env session metadata payload := by
      intro m env hguard
      cases htype : request.type <;> simp [Manager.onNotification, hguard, hparse, htype]
    cases htype : request.type with
    | title =>
      simp only [htype] at h hrun
      obtain ⟨rfl, rfl⟩ := Prod.mk.inj (Option.some.inj h)
      exact ⟨request, rfl, rfl, .inl htype, hrun⟩
    | body =>
      simp only [htype] at h hrun
      obtain ⟨rfl, rfl⟩ := Prod.mk.inj (Option.some.inj h)
      exact ⟨request, rfl, rfl, .inr htype, hrun⟩
    | query | alive | close | other => simp [htype] at h

def Key.session : Key → ℕ
  | .scope session _ => session
  | .unnamed session _ => session

/-- The chunk begins a new assembly, for which the one under `key` has to go. -/
def Manager.evicts (m : Manager) (now session : ℕ) (id : Option JString) (key : Key) : Bool :=
  let swept := m.pending.sweepPending now
  (swept.get? (scope session id)).isNone && (swept.get? key).isSome && ((swept.trimPending session).get? key).isNone

/-- The event takes a chunk for the key, or leaves the assembly under the key alone: it
does not find it older than 30 s, does not evict it and does not ask to close it, and
the session is not closed. -/
def undisturbed (key : Key) (m : Manager) (act : Action) : Bool :=
  ((m.pending.get? key).all fun a => act.env.now - a.created ≤ ASSEMBLY_TTL_MS) &&
  match act.event with
  | .notification session metadata _ =>
    match parseRequest metadata with
    | none => true
    | some request =>
      match request.type with
      | .title | .body =>
        if scope session request.id = key then !m.ignores act.env session
        else !m.evicts act.env.now session request.id key
      | .close => request.id.all fun id => Key.scope session id ≠ key
      | .query | .alive | .other => true
  | .sessionClosed session => key.session ≠ session
  | .destroy => false
  | .intent _ | .expiry _ | .sweep => true

section Undisturbed

variable {key : Key} {m m' : Manager} {act : Action} {c : Chunk}

theorem sweepPending_undisturbed (hok : undisturbed key m act = true) :
    (m.pending.sweepPending act.env.now).get? key = m.pending.get? key := by
  have hfresh := (Bool.and_eq_true_iff.mp hok).1
  rw [get?_sweepPending]
  cases hget : m.pending.get? key with
  | none => rfl
  | some a =>
    rw [hget] at hfresh
    simpa using hfresh

theorem chunk_eq_some {event : Event} (h : event.chunk = some (key, c)) : ∃ session metadata payload,
    event = .notification session metadata payload ∧ chunkOf session metadata payload = some (key, c) := by
  cases event with
  | notification session metadata payload => exact ⟨session, metadata, payload, rfl, h⟩
  | _ => cases h

/-- A chunk for the key. -/
theorem step_own (hm : Keyed m) (hchunk : act.event.chunk = some (key, c)) (hok : undisturbed key m act = true)
    (hs : step m act = some m') : ∃ session id, scope session id = key ∧
      m'.pending.get? key = (if c.isFinal then none else
        some (((m.pending.get? key).getD (Assembly.new session id act.env.now)).receive c)) ∧
      m'.submits = m.submits ++ if c.isFinal then
        ((((m.pending.get? key).getD (Assembly.new session id act.env.now)).receive c).outcome.map fun t =>
          (((m.pending.get? key).getD (Assembly.new session id act.env.now)).receive c, t)).toList else [] := by
  obtain ⟨session, metadata, payload, hevent, hchunkOf⟩ := chunk_eq_some hchunk
  obtain ⟨request, hparse, rfl, htype, hrun⟩ := chunkOf_eq_some hchunkOf
  have hguard : m.ignores act.env session = false := by
    have h := (Bool.and_eq_true_iff.mp hok).2
    rw [hevent] at h
    dsimp only at h
    rw [hparse] at h
    obtain ht | ht := htype <;> simpa [ht] using h
  have hm' : m' = m.chunk act.env session request.id c := by
    rw [step, hevent] at hs
    rw [← hrun m act.env hguard]
    exact (Option.some.inj hs).symm
  have hcurrent : m.pending.current act.env.now session request.id =
      (m.pending.get? (scope session request.id)).getD (Assembly.new session request.id act.env.now) := by
    rw [Pending.current, sweepPending_undisturbed hok]
  obtain ⟨hpending, -, hsubmits⟩ := chunk_spec hm (accepted_of_not_ignores hevent hparse hguard) c
  rw [hcurrent] at hpending hsubmits
  exact ⟨session, request.id, rfl, hm' ▸ hpending, hm' ▸ hsubmits⟩

/-- A chunk for another key. -/
theorem chunk_other (hm : Keyed m) {session : ℕ} {payload : Bytes} {request : Request}
    (haccepted : Accepted act session payload request) (hne : scope session request.id ≠ key)
    (hfresh : (m.pending.sweepPending act.env.now).get? key = m.pending.get? key)
    (hkept : m.evicts act.env.now session request.id key = false) (c : Chunk) :
    (m.chunk act.env session request.id c).pending.get? key = m.pending.get? key := by
  obtain ⟨-, hother, -⟩ := chunk_spec hm haccepted c
  obtain ⟨-, -, hassembly⟩ := assembly_spec m.pending act.env.now session request.id
  rw [hother key (Ne.symm hne), hassembly key (Ne.symm hne), ← hfresh]
  split_ifs with hnew
  · cases hget : ((m.pending.sweepPending act.env.now).trimPending session).get? key with
    | some a => exact (get?_of_trimPending hget).symm
    | none =>
      have hnone : ((m.pending.sweepPending act.env.now).get? key).isSome = false := by
        simpa only [Manager.evicts, hnew, hget, Bool.true_and, Option.isNone_none, Bool.and_true] using hkept
      exact (Option.isNone_iff_eq_none.mp (by rwa [← Option.not_isSome, Bool.not_eq_true'])).symm
  · rfl

theorem onNotification_other (hm : Keyed m) {session : ℕ} {metadata payload : Bytes}
    (hevent : act.event = .notification session metadata payload)
    (hchunk : ∀ c, chunkOf session metadata payload ≠ some (key, c)) (hok : undisturbed key m act = true) :
    (m.onNotification act.env session metadata payload).pending.get? key = m.pending.get? key := by
  have hfresh := sweepPending_undisturbed hok
  have hevent' := (Bool.and_eq_true_iff.mp hok).2
  rw [hevent] at hevent'
  unfold Manager.onNotification
  by_cases hguard : m.ignores act.env session = true
  · rw [if_pos hguard]
  rw [if_neg hguard]
  cases hparse : parseRequest metadata with
  | none => rfl
  | some request =>
    have haccepted := accepted_of_not_ignores hevent hparse (by simpa using hguard)
    dsimp only at hevent' ⊢
    simp only [hparse] at hevent'
    simp only [chunkOf, hparse] at hchunk
    cases htype : request.type with
    | query => rw [(QuietMove.query session payload request haccepted).pending_eq]
    | alive => rw [(QuietMove.alive session payload request haccepted).pending_eq, reconcile_moves.pending_eq]
    | other => rfl
    | title | body =>
      simp only [htype] at hevent' hchunk
      have hne : scope session request.id ≠ key := fun h => hchunk _ (by rw [h])
      rw [if_neg hne] at hevent'
      exact chunk_other hm haccepted hne hfresh (by simpa using hevent') _
    | close =>
      simp only [htype] at hevent'
      cases hid : request.id with
      | none => rfl
      | some id =>
        have hne : key ≠ Key.scope session id := by
          rw [hid] at hevent'
          exact Ne.symm (by simpa using hevent')
        rw [closeRequest_pending, OrderedMap.get?_erase, if_neg hne]

/-- Another event. -/
theorem step_other (hm : Keyed m) (hchunk : ∀ c, act.event.chunk ≠ some (key, c)) (hok : undisturbed key m act = true)
    (hs : step m act = some m') : m'.pending.get? key = m.pending.get? key := by
  cases step_handled hs with
  | notification event =>
    rw [event] at hchunk
    exact onNotification_other hm event hchunk hok
  | intent event => rw [(handleIntent_moves _).pending_eq]
  | expiry event timer => rw [(runExpiry_moves _).pending_eq]
  | sweep event =>
    unfold Manager.runSweep
    dsimp only
    split_ifs
    · rfl
    · exact sweepPending_undisturbed hok
    · rw [(scheduleSweep_spec _ _).1]
      exact sweepPending_undisturbed hok
  | @sessionClosed session event =>
    have hsession : key.session ≠ session := by
      have h := (Bool.and_eq_true_iff.mp hok).2
      rw [event] at h
      simpa using h
    rw [onSessionClosed_pending, OrderedMap.get?_filter]
    cases hget : m.pending.get? key with
    | none => rfl
    | some a =>
      have hkey : a.session = key.session := by rw [(hm _ _ hget).1]; rfl
      simp [hkey, hsession]
  | destroy event =>
    have h := (Bool.and_eq_true_iff.mp hok).2
    rw [event] at h
    cases h

end Undisturbed

def Action.chunkFor (key : Key) (act : Action) : Option Chunk :=
  (act.event.chunk.filter fun p => p.1 = key).map Prod.snd

theorem chunkFor_eq_some {key : Key} {act : Action} {c : Chunk} (h : act.chunkFor key = some c) :
    act.event.chunk = some (key, c) := by
  obtain ⟨⟨k, c'⟩, hfilter, rfl⟩ := Option.map_eq_some_iff.mp h
  obtain ⟨hchunk, hk⟩ := Option.filter_eq_some_iff.mp hfilter
  obtain rfl : k = key := by simpa using hk
  exact hchunk

theorem chunkFor_eq_none {key : Key} {act : Action} (h : act.chunkFor key = none) (c : Chunk) :
    act.event.chunk ≠ some (key, c) := by
  intro hchunk
  simp [Action.chunkFor, hchunk] at h

/-- The pending assembly of a key is made of these chunks. -/
def Accumulated (key : Key) (chunks : List Chunk) (o : Option Assembly) : Prop :=
  (chunks = [] ∧ o = none) ∨ (chunks ≠ [] ∧ ∃ session id now, scope session id = key ∧
    o = some (chunks.foldl Assembly.receive (Assembly.new session id now)))

theorem Accumulated.receive {key : Key} {chunks : List Chunk} {o : Option Assembly} (h : Accumulated key chunks o)
    {session : ℕ} {id : Option JString} (hkey : scope session id = key) (now : ℕ) (c : Chunk) :
    ∃ session' id' now', scope session' id' = key ∧ (o.getD (Assembly.new session id now)).receive c =
      (chunks ++ [c]).foldl Assembly.receive (Assembly.new session' id' now') := by
  obtain ⟨rfl, rfl⟩ | ⟨-, session', id', now', hkey', rfl⟩ := h
  · exact ⟨session, id, now, hkey, rfl⟩
  · exact ⟨session', id', now', hkey', by rw [List.foldl_append]; rfl⟩

section Runs

variable {key : Key} {m m' : Manager} {acts : List Action}

/-- Chunks that are not final, with any other events between them. -/
theorem run_accumulated (hm : Keyed m) (hnone : m.pending.get? key = none)
    (hrun : Run m step (fun m act => undisturbed key m act = true) acts m')
    (hopen : ∀ c ∈ acts.filterMap (Action.chunkFor key), c.isFinal = false) :
    Keyed m' ∧ Accumulated key (acts.filterMap (Action.chunkFor key)) (m'.pending.get? key) ∧
    ∀ x ∈ m'.submits, x ∈ m.submits ∨ scope x.1.session x.1.id ≠ key := by
  induction hrun with
  | nil => exact ⟨hm, .inl ⟨rfl, hnone⟩, fun x hx => .inl hx⟩
  | @snoc acts m₁ m₂ act hrun hok hs ih =>
    rw [List.filterMap_append] at hopen ⊢
    obtain ⟨hkeyed, hacc, hsubmits⟩ := ih fun c hc => hopen c (List.mem_append_left _ hc)
    refine ⟨step_keyed hkeyed hs, ?_⟩
    cases hchunk : act.chunkFor key with
    | none =>
      have hother := chunkFor_eq_none hchunk
      rw [step_other hkeyed hother hok hs]
      refine ⟨by simpa [hchunk] using hacc, fun x hx => ?_⟩
      obtain ⟨new, heq, hnew⟩ := moves_submits (step_moves hkeyed hs)
      rw [heq] at hx
      refine (List.mem_append.mp hx).elim (hsubmits x) fun hx => .inr ?_
      rintro rfl
      obtain ⟨c, hc⟩ := hnew x hx
      exact hother c hc
    | some c =>
      have hc : c.isFinal = false := hopen c (List.mem_append_right _ (by simp [hchunk]))
      obtain ⟨session, id, hkey, hpending, hnew⟩ := step_own hkeyed (chunkFor_eq_some hchunk) hok hs
      obtain ⟨session', id', now', hkey', hreceive⟩ := hacc.receive hkey act.env.now c
      rw [hc, hreceive] at hpending
      rw [hc] at hnew
      refine ⟨.inr ⟨by simp [hchunk], session', id', now', hkey', ?_⟩,
        fun x hx => hsubmits x (by simpa [hnew] using hx)⟩
      simpa [hchunk] using hpending

end Runs

/-- What the chunks of a transaction make together: no sound is invalid, the payloads of
each part decode in order, only the last base64 stream of a part is cut short, the
texts are UTF-8, and they are not too large. -/
structure Assembles (chunks : List Chunk) (title body : JString) : Prop where
  sounds : ∀ c ∈ chunks, c.hasBadSound = false
  titleBytes : decodeSegments (joinSegments (partSegments false chunks)) = some (encodeUtf8 title)
  bodyBytes : decodeSegments (joinSegments (partSegments true chunks)) = some (encodeUtf8 body)
  size : (encodeUtf8 title).length + (encodeUtf8 body).length ≤ MAX_TEXT_BYTES

theorem assemble_eq_some_iff {chunks : List Chunk} {title body : JString} :
    assemble chunks = some (title, body) ↔ Assembles chunks title body := by
  unfold assemble
  constructor
  · intro h
    split_ifs at h with hbad
    obtain ⟨titleBytes, htitle, h⟩ := Option.bind_eq_some_iff.mp h
    obtain ⟨bodyBytes, hbody, h⟩ := Option.bind_eq_some_iff.mp h
    unfold texts at h
    split_ifs at h with hsize
    obtain ⟨titleText, htext, h⟩ := Option.bind_eq_some_iff.mp h
    obtain ⟨bodyText, hbtext, h⟩ := Option.map_eq_some_iff.mp h
    obtain ⟨rfl, rfl⟩ := Prod.mk.inj h
    obtain rfl := text_eq_some_iff.mp htext
    obtain rfl := text_eq_some_iff.mp hbtext
    exact ⟨by simpa using hbad, htitle, hbody, by omega⟩
  · intro h
    have hbad : chunks.any Chunk.hasBadSound = false := by simpa using h.sounds
    have hsize : ¬ (encodeUtf8 title).length + (encodeUtf8 body).length > MAX_TEXT_BYTES := by
      have hle := h.size
      omega
    have htitle := text_eq_some_iff.mpr (rfl : encodeUtf8 title = _)
    have hbody := text_eq_some_iff.mpr (rfl : encodeUtf8 body = _)
    rw [hbad, h.titleBytes, h.bodyBytes]
    simp [texts, hsize, htitle, hbody]

/-- From any state that the manager can reach and with no assembly for the key: chunks of
one session and id, not final but the last one, among any events that let the assembly
be. Before the last chunk nothing is submitted for the key. On it the texts are
submitted that the chunks make together, if they do, and no assembly is left. -/
theorem chunks_assemble (platform : Bool) (before acts : List Action) (act : Action) (m m' m'' : Manager)
    (session : ℕ) (id : Option JString) (c : Chunk)
    (hreach : Run (Manager.new platform) step anyStep before m)
    (hnone : m.pending.get? (scope session id) = none)
    (hrun : Run m step (fun m act => undisturbed (scope session id) m act = true) acts m')
    (hopen : ∀ c ∈ acts.filterMap (Action.chunkFor (scope session id)), c.isFinal = false)
    (hchunk : act.chunkFor (scope session id) = some c) (hfinal : c.isFinal = true)
    (hok : undisturbed (scope session id) m' act = true) (hs : step m' act = some m'') :
    (∀ x ∈ m'.submits, x ∈ m.submits ∨ scope x.1.session x.1.id ≠ scope session id) ∧
    (∀ title body, (∃ a, m''.submits = m'.submits ++ [(a, title, body)]) ↔
      Assembles (acts.filterMap (Action.chunkFor (scope session id)) ++ [c]) title body) ∧
    ((∀ title body, ¬ Assembles (acts.filterMap (Action.chunkFor (scope session id)) ++ [c]) title body) →
      m''.submits = m'.submits) ∧
    m''.pending.get? (scope session id) = none := by
  obtain ⟨hkeyed, hacc, hsubmits⟩ := run_accumulated (run_keyed hreach) hnone hrun hopen
  obtain ⟨session', id', hkey, hpending, hnew⟩ := step_own hkeyed (chunkFor_eq_some hchunk) hok hs
  obtain ⟨session'', id'', now', -, hreceive⟩ := hacc.receive hkey act.env.now c
  rw [hfinal, hreceive, Assembly.outcome_eq_assemble] at hnew
  rw [hfinal] at hpending
  refine ⟨hsubmits, fun title body => ?_, fun hno => ?_, hpending⟩
  · rw [← assemble_eq_some_iff, hnew]
    constructor
    · rintro ⟨a, ha⟩
      have htexts := List.append_cancel_left ha
      cases hassemble : assemble (acts.filterMap (Action.chunkFor (scope session id)) ++ [c]) with
      | none => simp [hassemble] at htexts
      | some texts =>
        simp only [hassemble, if_true, Option.map_some, Option.toList_some, List.cons.injEq, Prod.mk.injEq] at htexts
        rw [htexts.1.2]
    · intro hassemble
      rw [hassemble]
      exact ⟨_, rfl⟩
  · cases hassemble : assemble (acts.filterMap (Action.chunkFor (scope session id)) ++ [c]) with
    | none => simpa [hassemble] using hnew
    | some texts => exact absurd (assemble_eq_some_iff.mp hassemble) (hno texts.1 texts.2)

/-- `SGk=`, cut in two. -/
def firstHalf : Action := ⟨calmEnv 0, .notification 0 (ascii "i=x:d=0:e=1") (ascii "SG")⟩
def secondHalf : Action := ⟨calmEnv 5, .notification 0 (ascii "i=x:e=1") (ascii "k=")⟩

theorem chunks_assemble_halves : ∃ m' m'',
    Run (Manager.new true) step (fun m act => undisturbed (scope 0 (some ['x'])) m act = true) [firstHalf] m' ∧
    step m' secondHalf = some m'' ∧ (∃ a, m''.submits = m'.submits ++ [(a, "Hi".toList, [])]) ∧
    m''.pending.get? (scope 0 (some ['x'])) = none := by
  have hrun : ∃ m' m'', Run (Manager.new true) step
      (fun m act => undisturbed (scope 0 (some ['x'])) m act = true) [firstHalf] m' ∧
      step m' secondHalf = some m'' ∧ undisturbed (scope 0 (some ['x'])) m' secondHalf = true :=
    exists_step_of_exec (by decide)
  obtain ⟨m', m'', hrun, hs, hok⟩ := hrun
  have hmain := chunks_assemble true [] [firstHalf] secondHalf (Manager.new true) m' m'' 0 (some ['x'])
    ⟨[('i', ['x']), ('e', ['1'])], false, ascii "k="⟩ .nil rfl hrun (by decide) (by decide)
    (by decide) hok hs
  refine ⟨m', m'', hrun, hs, (hmain.2.1 _ _).mpr (assemble_eq_some_iff.mp ?_), hmain.2.2.2⟩
  decide

end Tinyhack.Notify
