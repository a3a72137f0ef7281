import TinyhackSsh.Proofs.NotificationChunks
import TinyhackSsh.Proofs.NotificationQueue

/-! Transactions on their way from the program to `show`. As long as no chunk of a
transaction is lost behind the back of another, the pending assembly, the queue and
what the program has sent fit together, and a text that is shown is that of a whole
transaction. -/

namespace Tinyhack.Notify

open Runs

theorem claimedRequest_of_parse {bytes : Bytes} {request : Request} (h : parseRequest bytes = some request) :
    claimedRequest bytes = request := by
  obtain ⟨options, hoptions, h⟩ := Option.bind_eq_some_iff.mp h
  dsimp only at h
  split_ifs at h
  unfold metadata at hoptions
  split_ifs at hoptions
  obtain rfl := Option.some.inj hoptions
  exact Option.some.inj h

theorem chunkOf_eq (session : ℕ) (metadata payload : Bytes) :
    chunkOf session metadata payload = (parseRequest metadata).bind fun request =>
      (request.chunk payload).map fun c => (scope session request.id, c) := by
  unfold chunkOf Request.chunk
  cases parseRequest metadata with
  | none => rfl
  | some request =>
    dsimp only [Option.bind_some]
    cases request.type <;> rfl

/-- What a message is for the transactions of a session and id. -/
inductive Effect
  | chunk (c : Chunk) (before : List Chunk)
  | close
  | nothing

def Message.effect (session : ℕ) (id : Option JString) : Message → Effect
  | .request x metadata payload before =>
    match parseRequest metadata with
    | none => .nothing
    | some r =>
      if x = session ∧ r.id = id then
        match r.chunk payload with
        | some c => .chunk c before
        | none => if r.type = .close && r.id.isSome then .close else .nothing
      else .nothing
  | .cleanup _ | .sessionClosed _ => .nothing

/-- The chunks of the unfinished transaction after one more. -/
def advance (chunks : List Chunk) (c : Chunk) : List Chunk := if c.isFinal then [] else chunks ++ [c]

/-- The messages lead from the chunks that are handled to those that were sent. -/
def Follows (session : ℕ) (id : Option JString) : List Chunk → List Message → List Chunk → Prop
  | handled, [], sent => handled = sent
  | handled, message :: queue, sent =>
    match message.effect session id with
    | .chunk c before => before = handled ∧ Follows session id (advance handled c) queue sent
    | .close => Follows session id [] queue sent
    | .nothing => Follows session id handled queue sent

section Follows

variable {session : ℕ} {id : Option JString} {handled sent sent' : List Chunk} {queue : List Message}
  {message : Message}

theorem follows_append (h : Follows session id handled queue sent) (hlast : Follows session id sent [message] sent') :
    Follows session id handled (queue ++ [message]) sent' := by
  induction queue generalizing handled with
  | nil =>
    obtain rfl : handled = sent := h
    exact hlast
  | cons first queue ih =>
    unfold Follows at h
    rw [List.cons_append, Follows]
    cases heffect : first.effect session id with
    | chunk c before =>
      rw [heffect] at h
      exact ⟨h.1, ih h.2⟩
    | close | nothing =>
      rw [heffect] at h
      exact ih h

theorem follows_nothing (h : message.effect session id = .nothing) : Follows session id sent [message] sent := by
  rw [Follows, h]
  rfl

theorem follows_filter {keep : Message → Bool}
    (hkeep : ∀ message, keep message = false → message.effect session id = .nothing)
    (h : Follows session id handled queue sent) : Follows session id handled (queue.filter keep) sent := by
  induction queue generalizing handled with
  | nil => exact h
  | cons first queue ih =>
    unfold Follows at h
    cases hfirst : keep first with
    | true =>
      rw [List.filter_cons_of_pos hfirst, Follows]
      cases heffect : first.effect session id with
      | chunk c before =>
        rw [heffect] at h
        exact ⟨h.1, ih h.2⟩
      | close | nothing =>
        rw [heffect] at h
        exact ih h
    | false =>
      rw [hkeep first hfirst] at h
      rw [List.filter_cons_of_neg (by simp [hfirst])]
      exact ih h

end Follows

/-- The chunks that got through so far. -/
def Transaction.sent (t : Transaction) : List Chunk := if t.dropped then [] else t.chunks

/-- The assembly of a session and id, if there is one, has these chunks. -/
def Holds (m : Manager) (session : ℕ) (id : Option JString) (chunks : List Chunk) : Prop :=
  ∀ a, m.pending.get? (scope session id) = some a →
    chunks ≠ [] ∧ ∃ now, a = chunks.foldl Assembly.receive (Assembly.new session id now)

/-- From the assembly over the queue to what was sent. -/
def Tracked (s : System) (session : ℕ) (id : Option JString) : Prop :=
  ∃ handled, Follows session id handled s.queue (s.transactions session id).sent ∧ Holds s.manager session id handled

theorem current_of_holds {m : Manager} {session now : ℕ} {id : Option JString} {chunks : List Chunk}
    (h : Holds m session id chunks)
    (hfresh : chunks = [] ∨ (m.pending.get? (scope session id)).any fun a => now - a.created ≤ ASSEMBLY_TTL_MS) :
    ∃ t, m.pending.current now session id = chunks.foldl Assembly.receive (Assembly.new session id t) := by
  unfold Pending.current
  rw [get?_sweepPending]
  cases hget : m.pending.get? (scope session id) with
  | none =>
    rw [hget] at hfresh
    obtain rfl := hfresh.resolve_right (by simp)
    exact ⟨now, rfl⟩
  | some a =>
    obtain ⟨hne, t, rfl⟩ := h a hget
    rw [hget] at hfresh
    have hyoung := hfresh.resolve_left hne
    refine ⟨t, ?_⟩
    rw [Option.filter_some, if_pos (by simpa using hyoung)]
    rfl

/-- The chunk joins the chunks of its assembly. Only a final one shows something. -/
theorem chunk_of_holds {m : Manager} {act : Action} {session : ℕ} {payload : Bytes} {request : Request}
    {chunks : List Chunk} (hm : Keyed m) (haccepted : Accepted act session payload request)
    (h : Holds m session request.id chunks) (hfresh : chunks = [] ∨
      (m.pending.get? (scope session request.id)).any fun a => act.env.now - a.created ≤ ASSEMBLY_TTL_MS) (c : Chunk) :
    Holds (m.chunk act.env session request.id c) session request.id (advance chunks c) ∧
    ∃ new, (m.chunk act.env session request.id c).submits = m.submits ++ new ∧
      new.map Prod.snd = if c.isFinal then (assemble (chunks ++ [c])).toList else [] := by
  obtain ⟨t, hcurrent⟩ := current_of_holds h hfresh
  have hreceive : (m.pending.current act.env.now session request.id).receive c =
      (chunks ++ [c]).foldl Assembly.receive (Assembly.new session request.id t) := by
    rw [hcurrent, List.foldl_append]
    rfl
  obtain ⟨hown, -, hsubmits⟩ := chunk_spec hm haccepted c
  rw [hreceive] at hown hsubmits
  rw [Assembly.outcome_eq_assemble] at hsubmits
  refine ⟨fun a ha => ?_, _, hsubmits, ?_⟩
  · rw [hown] at ha
    unfold advance
    split_ifs at ha ⊢
    exact ⟨by simp, t, (Option.some.inj ha).symm⟩
  · split_ifs
    · cases assemble (chunks ++ [c]) <;> rfl
    · rfl

/-- The session has not been started, or is not in the list yet. -/
def TerminalSession.early (t : TerminalSession) : Bool := t.watcher = .unstarted || t.place = .absent

/-- Requests of the session are not accepted any more. -/
def TerminalSession.ended (t : TerminalSession) : Bool :=
  t.isClosed || t.place = .removed || (t.watcher ≠ .unstarted && !t.isRunning)

def System.ended (s : System) (session : ℕ) : Bool := s.manager.destroyed || (s.sessions session).ended

/-- What time does to a session. -/
structure Ages (t t' : TerminalSession) : Prop where
  unstarted : (t.watcher = .unstarted → t.isRunning = false) → t'.watcher = .unstarted → t'.isRunning = false
  early : t'.early = true → t.early = true
  ended : t.ended = true → t'.ended = true

theorem Ages.refl (t : TerminalSession) : Ages t t := ⟨id, id, id⟩

theorem ages_update {s : System} {session : ℕ} {t : TerminalSession} (h : Ages (s.sessions session) t) (x : ℕ) :
    Ages (s.sessions x) (Function.update s.sessions session t x) := by
  by_cases hx : x = session
  · subst hx
    rwa [Function.update_self]
  · rw [Function.update_of_ne hx]
    exact .refl _

/-- A text that is shown is that of all the chunks of a transaction, up to its final one. -/
def Whole (w : Shown) : Prop :=
  (∃ before c, w.transaction = before ++ [c] ∧ c.isFinal = true) ∧ assemble w.transaction = some (w.title, w.body)

theorem whole_of_assemble {α : Type*} {before : List Chunk} {c : Chunk} {new : List (α × JString × JString)}
    (hnew : new.map Prod.snd = if c.isFinal then (assemble (before ++ [c])).toList else []) :
    ∀ w ∈ new.map fun x => (⟨before ++ [c], x.2.1, x.2.2⟩ : Shown), Whole w := by
  intro w hw
  obtain ⟨x, hx, rfl⟩ := List.mem_map.mp hw
  have htexts := List.mem_map_of_mem (f := Prod.snd) hx
  rw [hnew] at htexts
  split_ifs at htexts with hfinal
  · exact ⟨⟨before, c, rfl, hfinal⟩, Option.mem_toList.mp htexts⟩
  · cases htexts

structure Orderly (s : System) : Prop where
  unstarted : ∀ x, (s.sessions x).watcher = .unstarted → (s.sessions x).isRunning = false
  early : ∀ x, (s.sessions x).early = true → ∀ k a, s.manager.pending.get? k = some a → a.session ≠ x
  tracked : ∀ x id, ValidId id → s.ended x = true ∨ Tracked s x id
  whole : ∀ w ∈ s.shown, Whole w
  texts : s.manager.submits.map Prod.snd = s.shown.map fun w => (w.title, w.body)

section Steps

variable {s s' : System}

theorem ended_of_ages {x : ℕ} (hages : Ages (s.sessions x) (s'.sessions x))
    (hdestroyed : s.manager.destroyed = true → s'.manager.destroyed = true) (h : s.ended x = true) :
    s'.ended x = true := by
  rw [System.ended, Bool.or_eq_true] at h ⊢
  exact h.imp hdestroyed hages.ended

/-- No chunk reaches the manager. -/
theorem Orderly.frame (h : Orderly s) (hages : ∀ x, Ages (s.sessions x) (s'.sessions x))
    (hdestroyed : s.manager.destroyed = true → s'.manager.destroyed = true)
    (hpending : ∀ k a, s'.manager.pending.get? k = some a → s.manager.pending.get? k = some a)
    (hsubmits : s'.manager.submits = s.manager.submits) (hshown : s'.shown = s.shown)
    (htracked : ∀ x id, ValidId id → s.ended x = false → Tracked s x id → Tracked s' x id) : Orderly s' where
  unstarted := fun x => (hages x).unstarted (h.unstarted x)
  early := fun x hx k a hk => h.early x ((hages x).early hx) k a (hpending k a hk)
  tracked := fun x id hid => by
    cases hended : s.ended x with
    | true => exact .inl (ended_of_ages (hages x) hdestroyed hended)
    | false => exact .inr (htracked x id hid hended ((h.tracked x id hid).resolve_left (by simp [hended])))
  whole := hshown ▸ h.whole
  texts := by
    rw [hsubmits, hshown]
    exact h.texts

/-- An event that is not a chunk. -/
theorem step_without_chunk {m m' : Manager} {act : Action} (hm : Keyed m) (hs : step m act = some m')
    (hnone : act.event.chunk = none) : (∀ k a, m'.pending.get? k = some a → m.pending.get? k = some a) ∧
      m'.submits = m.submits ∧ (m.destroyed = true → m'.destroyed = true) := by
  have hmoves := step_moves hm hs
  obtain ⟨new, heq, hnew⟩ := moves_submits hmoves
  refine ⟨fun k a => moves_pending (by simp [hnone]) hmoves, ?_,
    inv_of_moves (fun m => m.destroyed = true) (fun _ _ => move_destroyed) hmoves⟩
  cases new with
  | nil => rw [heq, List.append_nil]
  | cons x new =>
    obtain ⟨c, hc⟩ := hnew x (by simp)
    rw [hnone] at hc
    cases hc

theorem Holds.mono {m m' : Manager} {session : ℕ} {id : Option JString} {chunks : List Chunk}
    (h : Holds m session id chunks)
    (hpending : ∀ k a, m'.pending.get? k = some a → m.pending.get? k = some a) : Holds m' session id chunks :=
  fun a ha => h a (hpending _ a ha)

section Effect

variable {session x : ℕ} {id : Option JString} {metadata : Bytes} {request : Request} (payload : Bytes)
  (before : List Chunk)

theorem effect_unreadable (hparse : parseRequest metadata = none) :
    (Message.request session metadata payload before).effect x id = .nothing := by
  simp only [Message.effect, hparse]

theorem effect_other (h : ¬ (x = session ∧ id = (claimedRequest metadata).id)) :
    (Message.request session metadata payload before).effect x id = .nothing := by
  cases hparse : parseRequest metadata with
  | none => exact effect_unreadable payload before hparse
  | some request =>
    rw [claimedRequest_of_parse hparse] at h
    have hne : ¬ (session = x ∧ request.id = id) := by
      rintro ⟨hx, hid⟩
      exact h ⟨hx.symm, hid.symm⟩
    simp only [Message.effect, hparse, if_neg hne]

theorem effect_own (hparse : parseRequest metadata = some request) :
    (Message.request session metadata payload before).effect session request.id =
      match request.chunk payload with
      | some c => .chunk c before
      | none => if request.type = .close && request.id.isSome then .close else .nothing := by
  simp only [Message.effect, hparse, and_self, if_true]

end Effect

/-- The message that a request becomes. -/
def System.message (s : System) (session : ℕ) (metadata payload : Bytes) : Message :=
  .request session metadata payload (s.transactions session (claimedRequest metadata).id).chunks

theorem deliver_frame (s : System) (session : ℕ) (metadata payload : Bytes) (jni writable : Bool) :
    (s.deliver session metadata payload jni writable).transactions = s.transactions ∧
    (s.deliver session metadata payload jni writable).queue = s.queue ++
      (if s.onKittyNotification session metadata payload jni = .queued then [s.message session metadata payload]
        else []) ∧
    ∀ x, Ages (s.sessions x) ((s.deliver session metadata payload jni writable).sessions x) := by
  unfold System.deliver
  dsimp only
  cases s.onKittyNotification session metadata payload jni with
  | reply query =>
    rw [if_neg (by simp), List.append_nil]
    dsimp only
    split_ifs <;> exact ⟨rfl, rfl, fun x => .refl _⟩
  | dropped => exact ⟨rfl, (List.append_nil _).symm, fun x => .refl _⟩
  | queued => exact ⟨rfl, rfl, ages_update ⟨id, id, id⟩⟩

/-- Chunks are lost only as whole transactions: when they arrive, and when they are
handled, where the assembly must still be there. -/
def unbroken (s : System) : SystemAction → Bool
  | .osc session metadata payload jni _ =>
    let t := s.transactions session (claimedRequest metadata).id
    ((claimedRequest metadata).chunk payload).isNone || (s.sessions session).isClosed || t.chunks.isEmpty ||
      t.dropped = !s.keeps session metadata payload jni
  | .looper env =>
    match s.queue with
    | .request session metadata payload before :: _ =>
      match chunkOf session metadata payload with
      | some (key, _) =>
        (s.sessions session).isClosed || s.manager.ignores (s.env env) session || before.isEmpty ||
          (s.manager.pending.get? key).any fun a => env.now - a.created ≤ ASSEMBLY_TTL_MS
      | none => true
    | _ => true
  | _ => true

/-- A chunk meets the fate of the earlier chunks of its transaction. -/
def Transaction.suits (t : Transaction) (request : Request) (payload : Bytes) (kept : Bool) : Prop :=
  (request.chunk payload).isSome = true → t.sent = if kept then t.chunks else []

theorem suits_of_unbroken {session : ℕ} {metadata payload : Bytes} {jni writable : Bool}
    (hok : unbroken s (.osc session metadata payload jni writable) = true)
    (hclosed : (s.sessions session).isClosed = false) :
    (s.transactions session (claimedRequest metadata).id).suits (claimedRequest metadata) payload
      (s.keeps session metadata payload jni) := by
  intro hchunk
  simp only [unbroken, hclosed, Option.isNone_eq_false_iff.mpr hchunk, Bool.false_or, Bool.or_eq_true,
    List.isEmpty_iff, decide_eq_true_eq] at hok
  unfold Transaction.sent
  obtain hempty | hdropped := hok
  · simp [hempty]
  · rw [hdropped]
    cases s.keeps session metadata payload jni <;> rfl

theorem Transaction.next_lost {t : Transaction} {request : Request} {payload : Bytes}
    (h : t.suits request payload false) : (t.next request payload false).sent = t.sent := by
  unfold Transaction.next
  cases hchunk : request.chunk payload with
  | some c =>
    rw [h (by rw [hchunk]; rfl)]
    dsimp only [Transaction.sent]
    cases c.isFinal <;> rfl
  | none =>
    dsimp only
    rw [Bool.and_false, if_neg Bool.false_ne_true]

theorem Transaction.next_kept {t : Transaction} {request : Request} {payload : Bytes}
    (h : t.suits request payload true) : match request.chunk payload with
      | some c => t.chunks = t.sent ∧ advance t.sent c = (t.next request payload true).sent
      | none =>
        (if request.type = .close && request.id.isSome then [] else t.sent) = (t.next request payload true).sent := by
  unfold Transaction.next
  cases hchunk : request.chunk payload with
  | some c =>
    have hsent : t.sent = t.chunks := h (by rw [hchunk]; rfl)
    refine ⟨hsent.symm, ?_⟩
    rw [hsent]
    dsimp only [advance, Transaction.sent]
    cases c.isFinal <;> rfl
  | none =>
    dsimp only
    rw [Bool.and_true]
    split_ifs <;> rfl

/-- What arrives, for its own transaction. -/
theorem osc_follows {session : ℕ} {metadata payload : Bytes} {jni writable : Bool} {handled : List Chunk}
    (hsuits : (s.transactions session (claimedRequest metadata).id).suits (claimedRequest metadata) payload
      (s.keeps session metadata payload jni))
    (h : Follows session (claimedRequest metadata).id handled s.queue
      (s.transactions session (claimedRequest metadata).id).sent) :
    Follows session (claimedRequest metadata).id handled (s.osc session metadata payload jni writable).queue
      ((s.osc session metadata payload jni writable).transactions session (claimedRequest metadata).id).sent := by
  have hnext : (s.osc session metadata payload jni writable).transactions session (claimedRequest metadata).id =
    (s.transactions session (claimedRequest metadata).id).next (claimedRequest metadata) payload
      (s.keeps session metadata payload jni) := if_pos ⟨rfl, rfl⟩
  have hqueue : (s.osc session metadata payload jni writable).queue = _ :=
    (deliver_frame s session metadata payload jni writable).2.1
  rw [hqueue, hnext, System.message]
  generalize hrequest : claimedRequest metadata = request at h hsuits ⊢
  generalize s.transactions session request.id = t at h hsuits ⊢
  cases hkept : s.keeps session metadata payload jni with
  | true =>
    obtain ⟨hqueued, hparse⟩ := Bool.and_eq_true_iff.mp hkept
    obtain ⟨request', hparse⟩ := Option.isSome_iff_exists.mp hparse
    obtain rfl : request' = request := (claimedRequest_of_parse hparse).symm.trans hrequest
    rw [if_pos (of_decide_eq_true hqueued)]
    refine follows_append h ?_
    have hstep := Transaction.next_kept (hkept ▸ hsuits)
    rw [Follows, effect_own payload t.chunks hparse]
    cases hchunk : request'.chunk payload with
    | some c =>
      rw [hchunk] at hstep
      exact hstep
    | none =>
      rw [hchunk] at hstep
      dsimp only at hstep ⊢
      split_ifs at hstep ⊢ <;> exact hstep
  | false =>
    rw [Transaction.next_lost (hkept ▸ hsuits)]
    split_ifs with hqueued
    · refine follows_append h (follows_nothing (effect_unreadable payload t.chunks ?_))
      simpa [System.keeps, hqueued] using hkept
    · rwa [List.append_nil]

theorem osc_orderly (h : Orderly s) {session : ℕ} {metadata payload : Bytes} {jni writable : Bool}
    (hok : unbroken s (.osc session metadata payload jni writable) = true) :
    Orderly (s.osc session metadata payload jni writable) := by
  obtain ⟨hmanager, -, hshown⟩ := osc_frame s session metadata payload jni writable
  obtain ⟨-, hqueue, hages⟩ := deliver_frame s session metadata payload jni writable
  refine h.frame hages (by rw [hmanager]; exact id) (by rw [hmanager]; exact fun _ _ => id) (by rw [hmanager]) hshown
    ?_
  rintro x id hid hended ⟨handled, hfollows, hholds⟩
  refine ⟨handled, ?_, hmanager ▸ hholds⟩
  by_cases hown : x = session ∧ id = (claimedRequest metadata).id
  · obtain ⟨rfl, rfl⟩ := hown
    refine osc_follows (suits_of_unbroken hok ?_) hfollows
    simp only [System.ended, TerminalSession.ended, Bool.or_eq_false_iff] at hended
    exact hended.2.1.1
  · have htransactions : (s.osc session metadata payload jni writable).transactions x id = s.transactions x id := by
      rw [← (deliver_frame s session metadata payload jni writable).1]
      exact if_neg hown
    have hqueue' : (s.osc session metadata payload jni writable).queue = _ := hqueue
    rw [htransactions, hqueue']
    split_ifs
    · exact follows_append hfollows (follows_nothing (effect_other payload _ hown))
    · rwa [List.append_nil]

/-- A request is refused before its session is ready, or after it has ended. -/
theorem early_or_ended {session : ℕ} {env : Env}
    (hno : (s.sessions session).isClosed = true ∨ s.manager.ignores (s.env env) session = true) :
    s.ended session = true ∨ (s.sessions session).early = true := by
  simp only [Manager.ignores, System.env, TerminalSession.running, Bool.or_eq_true, Bool.not_eq_true',
    Bool.and_eq_false_iff, Bool.not_eq_false', decide_eq_false_iff_not] at hno
  simp only [System.ended, TerminalSession.ended, TerminalSession.early, Bool.or_eq_true, decide_eq_true_eq]
  obtain hclosed | (hdestroyed | hstopped | hclosed) | hplace := hno
  · exact .inl (.inr (.inl (.inl hclosed)))
  · exact .inl (.inl hdestroyed)
  · by_cases hwatcher : (s.sessions session).watcher = .unstarted
    · exact .inr (.inl hwatcher)
    · exact .inl (.inr (.inr (by simp [hwatcher, hstopped])))
  · exact .inl (.inr (.inl (.inl hclosed)))
  · cases hp : (s.sessions session).place with
    | absent => exact .inr (.inr rfl)
    | listed => exact absurd hp hplace
    | removed => exact .inl (.inr (.inl (.inr rfl)))

theorem not_ended_of_accepted {session : ℕ} {env : Env} (hclosed : (s.sessions session).isClosed = false)
    (hguard : s.manager.ignores (s.env env) session = false) : s.ended session = false := by
  simp only [Manager.ignores, System.env, TerminalSession.running, Bool.or_eq_false_iff, Bool.not_eq_false',
    Bool.and_eq_true, decide_eq_true_eq] at hguard
  simp [System.ended, TerminalSession.ended, hclosed, hguard]

theorem not_early_of_accepted {session : ℕ} {env : Env} {event : Event} {payload : Bytes} {request : Request}
    (h : Orderly s) (haccepted : Accepted ⟨s.env env, event⟩ session payload request) :
    (s.sessions session).early = false := by
  have hrunning : (s.sessions session).isRunning = true := (Bool.and_eq_true_iff.mp haccepted.running).1
  have hlisted : (s.sessions session).place = .listed := of_decide_eq_true haccepted.listed
  have hstarted : (s.sessions session).watcher ≠ .unstarted := by
    intro hwatcher
    rw [h.unstarted session hwatcher] at hrunning
    cases hrunning
  simp [TerminalSession.early, hlisted, hstarted]

section Request

variable {session : ℕ} {metadata payload : Bytes} {before : List Chunk} {queue : List Message} {env : Env}

theorem run_request (hs : s' = System.run { s with queue := queue } env (.request session metadata payload before)) :
    s'.manager = (if (s.sessions session).isClosed then s.manager
      else s.manager.onNotification (s.env env) session metadata payload) ∧
    s'.queue = queue ∧ s'.transactions = s.transactions ∧ (∀ x, Ages (s.sessions x) (s'.sessions x)) ∧
    s'.shown = s.shown ++ (s'.manager.submits.drop s.manager.submits.length).map fun x =>
      ⟨before ++ ((claimedRequest metadata).chunk payload).toList, x.2.1, x.2.2⟩ := by
  subst hs
  exact ⟨rfl, rfl, rfl, ages_update ⟨id, id, id⟩, rfl⟩

theorem run_refused_orderly (h : Orderly s) (hm : Keyed s.manager)
    (hqueue : s.queue = .request session metadata payload before :: queue)
    (hs : s' = System.run { s with queue := queue } env (.request session metadata payload before))
    (hno : (s.sessions session).isClosed = true ∨ s.manager.ignores (s.env env) session = true) : Orderly s' := by
  obtain ⟨hmanager, hqueue', htransactions, hages, hshown⟩ := run_request hs
  have hsame : s'.manager = s.manager := by
    rw [hmanager]
    by_cases hclosed : (s.sessions session).isClosed = true
    · exact if_pos hclosed
    · exact (if_neg hclosed).trans (if_pos (hno.resolve_left hclosed))
  rw [hsame, List.drop_length, List.map_nil, List.append_nil] at hshown
  refine h.frame hages (by rw [hsame]; exact id) (by rw [hsame]; exact fun _ _ => id) (by rw [hsame]) hshown ?_
  rintro x id hid hended ⟨handled, hfollows, hholds⟩
  rw [hqueue, Follows] at hfollows
  rw [Tracked, hqueue', htransactions, hsame]
  by_cases hown : x = session ∧ id = (claimedRequest metadata).id
  · obtain ⟨rfl, rfl⟩ := hown
    -- nothing of the session is pending yet
    have hearly := (early_or_ended hno).resolve_left (by simp [hended])
    have hnone : ∀ chunks, Holds s.manager x (claimedRequest metadata).id chunks := by
      intro chunks a ha
      exact absurd (Key.scope.inj (hm _ _ ha).1).1.symm (h.early x hearly _ a ha)
    cases heffect : (Message.request x metadata payload before).effect x (claimedRequest metadata).id with
    | chunk c before' =>
      rw [heffect] at hfollows
      exact ⟨_, hfollows.2, hnone _⟩
    | close =>
      rw [heffect] at hfollows
      exact ⟨_, hfollows, hnone _⟩
    | nothing =>
      rw [heffect] at hfollows
      exact ⟨_, hfollows, hholds⟩
  · rw [effect_other payload before hown] at hfollows
    exact ⟨handled, hfollows, hholds⟩

/-- A request that the manager takes, and that is not a chunk. -/
theorem run_other_orderly (h : Orderly s) (hm : Keyed s.manager)
    (hqueue : s.queue = .request session metadata payload before :: queue)
    (hs : s' = System.run { s with queue := queue } env (.request session metadata payload before))
    (hclosed : (s.sessions session).isClosed = false) (hguard : s.manager.ignores (s.env env) session = false)
    (hchunk : chunkOf session metadata payload = none) : Orderly s' := by
  obtain ⟨hmanager, hqueue', htransactions, hages, hshown⟩ := run_request hs
  rw [if_neg (by simp [hclosed])] at hmanager
  have hstep : step s.manager ⟨s.env env, .notification session metadata payload⟩ = some s'.manager :=
    congrArg some hmanager.symm
  obtain ⟨hpending, hsubmits, hdestroyed⟩ := step_without_chunk hm hstep hchunk
  rw [hsubmits, List.drop_length, List.map_nil, List.append_nil] at hshown
  refine h.frame hages hdestroyed hpending hsubmits hshown ?_
  rintro x id hid hended ⟨handled, hfollows, hholds⟩
  rw [hqueue, Follows] at hfollows
  rw [Tracked, hqueue', htransactions]
  by_cases hown : x = session ∧ id = (claimedRequest metadata).id
  · obtain ⟨rfl, rfl⟩ := hown
    cases hparse : parseRequest metadata with
    | none =>
      rw [effect_unreadable payload before hparse] at hfollows
      exact ⟨handled, hfollows, hholds.mono hpending⟩
    | some request =>
      rw [claimedRequest_of_parse hparse] at hfollows hholds ⊢
      have hnone : request.chunk payload = none := by simpa [chunkOf_eq, hparse] using hchunk
      rw [effect_own payload before hparse, hnone] at hfollows
      dsimp only at hfollows
      by_cases hclose : (request.type = .close && request.id.isSome) = true
      · rw [if_pos hclose] at hfollows
        refine ⟨[], hfollows, fun a ha => ?_⟩
        obtain ⟨htype, hid⟩ := Bool.and_eq_true_iff.mp hclose
        obtain ⟨i, hi⟩ := Option.isSome_iff_exists.mp hid
        have hrequest : s'.manager = s.manager.closeRequest (s.env env) x i := by
          rw [hmanager]
          simp [Manager.onNotification, hguard, hparse, of_decide_eq_true htype, hi]
        rw [hrequest, closeRequest_pending, hi] at ha
        change (s.manager.pending.erase (.scope x i)).get? (.scope x i) = some a at ha
        rw [OrderedMap.get?_erase, if_pos rfl] at ha
        cases ha
      · rw [if_neg hclose] at hfollows
        exact ⟨handled, hfollows, hholds.mono hpending⟩
  · rw [effect_other payload before hown] at hfollows
    exact ⟨handled, hfollows, hholds.mono hpending⟩

/-- A chunk that the manager takes. -/
theorem run_chunk_orderly (h : Orderly s) (hm : Keyed s.manager)
    (hqueue : s.queue = .request session metadata payload before :: queue)
    (hs : s' = System.run { s with queue := queue } env (.request session metadata payload before))
    (hclosed : (s.sessions session).isClosed = false) (hguard : s.manager.ignores (s.env env) session = false)
    {key : Key} {c : Chunk} (hchunk : chunkOf session metadata payload = some (key, c))
    (hok : unbroken s (.looper env) = true) : Orderly s' := by
  obtain ⟨hmanager, hqueue', htransactions, hages, hshown⟩ := run_request hs
  rw [if_neg (by simp [hclosed])] at hmanager
  obtain ⟨request, hparse, rfl, -, hrun⟩ := chunkOf_eq_some hchunk
  obtain hcr : request.chunk payload = some c := by
    simpa [chunkOf_eq, hparse] using hchunk
  have haccepted : Accepted ⟨s.env env, .notification session metadata payload⟩ session payload request :=
    accepted_of_not_ignores rfl hparse hguard
  have hmoves := onNotification_moves hm (rfl :
    (⟨s.env env, .notification session metadata payload⟩ : Action).event = .notification session metadata payload)
  rw [← hmanager] at hmoves
  rw [hrun _ _ hguard] at hmanager
  -- the assembly has the earlier chunks of the transaction
  obtain ⟨handled, hfollows, hholds⟩ := (h.tracked session request.id haccepted.validId).resolve_left
    (by simp [not_ended_of_accepted hclosed hguard])
  rw [hqueue, Follows, effect_own payload before hparse, hcr] at hfollows
  obtain ⟨rfl, hfollows⟩ := hfollows
  have hfresh : before = [] ∨ ((s.manager.pending.get? (scope session request.id)).any fun a =>
      env.now - a.created ≤ ASSEMBLY_TTL_MS) = true := by
    simpa [unbroken, hqueue, hchunk, hclosed, hguard] using hok
  obtain ⟨hholds', new, hsubmits, hnew⟩ := chunk_of_holds hm haccepted hholds hfresh c
  rw [← hmanager] at hholds' hsubmits
  rw [hsubmits, List.drop_left, claimedRequest_of_parse hparse, hcr] at hshown
  refine ⟨fun x => (hages x).unstarted (h.unstarted x), fun x hx => ?_, fun x id hid => ?_, fun w hw => ?_, ?_⟩
  · -- the session of the chunk is not early
    refine inv_of_moves (fun m => ∀ k a, m.pending.get? k = some a → a.session ≠ x)
      (fun _ _ => move_pending_cleared ?_) hmoves (h.early x ((hages x).early hx))
    rintro payload' request' haccepted'
    have hearly := (hages x).early hx
    rw [not_early_of_accepted h haccepted'] at hearly
    cases hearly
  · by_cases hown : x = session ∧ id = request.id
    · obtain ⟨rfl, rfl⟩ := hown
      refine .inr ⟨advance before c, ?_, hholds'⟩
      rw [hqueue', htransactions]
      exact hfollows
    · have hkey : scope session request.id ≠ scope x id := by
        intro heq
        obtain ⟨hx, hi⟩ := scope_inj haccepted.validId hid heq
        exact hown ⟨hx.symm, hi.symm⟩
      rcases h.tracked x id hid with hended | ⟨handled, hfollows', hholds⟩
      · exact .inl (ended_of_ages (hages x)
          (inv_of_moves (fun m => m.destroyed = true) (fun _ _ => move_destroyed) hmoves) hended)
      · rw [← claimedRequest_of_parse hparse] at hown
        rw [hqueue, Follows, effect_other payload before hown] at hfollows'
        refine .inr ⟨handled, ?_, fun a ha => hholds a (moves_pending (fun c' hc' => ?_) hmoves ha)⟩
        · rw [hqueue', htransactions]
          exact hfollows'
        · exact hkey (Prod.mk.inj (Option.some.inj (hchunk.symm.trans hc'))).1
  · rw [hshown] at hw
    rcases List.mem_append.mp hw with hw | hw
    · exact h.whole w hw
    · exact whole_of_assemble hnew w hw
  · rw [hsubmits, hshown, List.map_append, List.map_append, h.texts, List.map_map]
    rfl

end Request

/-- A cleanup removes assemblies, no more. -/
theorem runCleanup_orderly (h : Orderly s) (hm : Keyed s.manager) {env : Env} {session : ℕ} {queue : List Message}
    (hfollows : ∀ x id handled sent, Follows x id handled s.queue sent → Follows x id handled queue sent) :
    Orderly (System.runCleanup { s with queue := queue } env session) := by
  obtain ⟨hpending, hsubmits, hdestroyed⟩ := step_without_chunk hm
    (rfl : step s.manager ⟨s.env env, .sessionClosed session⟩ = _) rfl
  refine h.frame (fun x => .refl _) hdestroyed hpending hsubmits rfl ?_
  rintro x id - - ⟨handled, hf, hholds⟩
  exact ⟨handled, hfollows x id handled _ hf, hholds.mono hpending⟩

theorem new_orderly (platform : Bool) (enabled : ℕ → Bool) : Orderly (System.new platform enabled) where
  unstarted := fun _ _ => rfl
  early := fun _ _ k a h => by cases h
  tracked := fun x id _ => .inr ⟨[], rfl, fun a ha => by cases ha⟩
  whole := fun w hw => by cases hw
  texts := rfl

theorem setSession_orderly (h : Orderly s) {session : ℕ} {t : TerminalSession} (hages : Ages (s.sessions session) t) :
    Orderly (s.setSession session t) :=
  h.frame (ages_update hages) id (fun _ _ => id) rfl rfl fun _ _ _ _ => id

theorem post_orderly (h : Orderly s) {message : Message} (hnothing : ∀ x id, message.effect x id = .nothing) :
    Orderly (s.post message) := by
  refine h.frame (fun _ => .refl _) id (fun _ _ => id) rfl rfl ?_
  rintro x id - - ⟨handled, hfollows, hholds⟩
  exact ⟨handled, follows_append hfollows (follows_nothing (hnothing x id)), hholds⟩

theorem step_orderly {act : SystemAction} (h : Orderly s) (hm : Keyed s.manager) (hok : unbroken s act = true)
    (hs : s.step act = some s') : Orderly s' := by
  cases act with
  | started session | listed session | stopped session =>
    simp only [System.step] at hs
    split_ifs at hs with hguard
    obtain rfl := Option.some.inj hs
    refine setSession_orderly h ⟨?_, ?_, ?_⟩ <;> simp [TerminalSession.early, TerminalSession.ended, hguard]
  | closed session =>
    obtain rfl := Option.some.inj hs
    refine setSession_orderly h ⟨?_, ?_, ?_⟩ <;> simp [TerminalSession.early, TerminalSession.ended]
  | exited session =>
    simp only [System.step] at hs
    split_ifs at hs with hguard
    obtain rfl := Option.some.inj hs
    have hages : Ages (s.sessions session) { s.sessions session with watcher := .posted } := by
      refine ⟨?_, ?_, ?_⟩ <;> simp [TerminalSession.early, TerminalSession.ended, hguard]
    exact setSession_orderly (post_orderly h fun _ _ => rfl) hages
  | osc session metadata payload jni writable =>
    obtain rfl := Option.some.inj hs
    exact osc_orderly h hok
  | removed env session onMain =>
    simp only [System.step] at hs
    split_ifs at hs with hguard
    obtain rfl := Option.some.inj hs
    have hages : Ages (s.sessions session) { s.sessions session with place := .removed } := by
      refine ⟨?_, ?_, ?_⟩ <;> simp +contextual [TerminalSession.early, TerminalSession.ended]
    cases onMain with
    | true => exact setSession_orderly (runCleanup_orderly h hm fun _ _ _ _ => id) hages
    | false => exact setSession_orderly (post_orderly h fun _ _ => rfl) hages
  | looper env =>
    obtain ⟨message, queue, hqueue, hrun⟩ := looper_eq_some hs
    cases message with
    | request session metadata payload before =>
      by_cases hno : (s.sessions session).isClosed = true ∨ s.manager.ignores (s.env env) session = true
      · exact run_refused_orderly h hm hqueue hrun hno
      · simp only [not_or, Bool.not_eq_true] at hno
        cases hchunk : chunkOf session metadata payload with
        | none => exact run_other_orderly h hm hqueue hrun hno.1 hno.2 hchunk
        | some chunk => exact run_chunk_orderly h hm hqueue hrun hno.1 hno.2 hchunk hok
    | cleanup session | sessionClosed session =>
      subst hrun
      refine runCleanup_orderly h hm fun x id handled sent hfollows => ?_
      rw [hqueue] at hfollows
      exact hfollows
  | manager a =>
    obtain ⟨hown, m, keep, hm', rfl, hkeep⟩ := manager_eq_some hs
    have hnone : a.event.chunk = none := by
      cases hevent : a.event with
      | notification => rw [hevent] at hown; cases hown
      | _ => rfl
    obtain ⟨hpending, hsubmits, hdestroyed⟩ := step_without_chunk hm hm' hnone
    refine h.frame (fun _ => .refl _) hdestroyed hpending hsubmits rfl ?_
    rintro x id - - ⟨handled, hfollows, hholds⟩
    refine ⟨handled, follows_filter (fun message hdrop => ?_) hfollows, hholds.mono hpending⟩
    obtain ⟨session, rfl⟩ := hkeep message hdrop
    rfl

end Steps

/-- When chunks are lost only as whole transactions, every text handed to `show` is made
of all the chunks that a program has sent from the first to the final one of a
transaction, none of which was rejected. -/
theorem shown_whole (platform : Bool) (enabled : ℕ → Bool) (acts : List SystemAction) (s : System)
    (hrun : Run (System.new platform enabled) System.step (fun s act => unbroken s act = true) acts s) :
    s.manager.submits.map Prod.snd = s.shown.map (fun w => (w.title, w.body)) ∧
    ∀ w ∈ s.shown, (∃ before c, w.transaction = before ++ [c] ∧ c.isFinal = true) ∧
      Assembles w.transaction w.title w.body := by
  have horderly : Orderly s := by
    induction hrun with
    | nil => exact new_orderly platform enabled
    | snoc hrun hok hs ih =>
      obtain ⟨macts, hmanager⟩ := run_manager hrun
      exact step_orderly ih (run_keyed hmanager) hok hs
  refine ⟨horderly.texts, fun w hw => ?_⟩
  obtain ⟨hfinal, htexts⟩ := horderly.whole w hw
  exact ⟨hfinal, assemble_eq_some_iff.mp htexts⟩

/-- `Hello` in two chunks. -/
def hello : List SystemAction :=
  [SystemAction.started 0, .listed 0, .osc 0 (ascii "i=x:d=0") (ascii "Hel") true true,
    .osc 0 (ascii "i=x") (ascii "lo") true true]

theorem shown_whole_hello : ∃ s,
    Run (System.new true fun _ => true) System.step (fun s act => unbroken s act = true)
      (hello ++ [.looper (calmEnv 0), .looper (calmEnv 30000)]) s ∧
    ∃ w ∈ s.shown, w.title = "Hello".toList ∧ Assembles w.transaction w.title w.body := by
  have hrun : ∃ s, Run (System.new true fun _ => true) System.step (fun s act => unbroken s act = true)
      (hello ++ [SystemAction.looper (calmEnv 0), .looper (calmEnv 30000)]) s ∧
      ∃ w ∈ s.shown, w.title = "Hello".toList := exists_run_of_exec (by decide)
  obtain ⟨s, hrun, w, hw, htitle⟩ := hrun
  exact ⟨s, hrun, w, hw, htitle, ((shown_whole true _ _ s hrun).2 w hw).2⟩

/-- In the first run the second chunk is handled when the first has expired; in the other
the payload of the first chunk is too long for the native callback. Only the second
chunk is shown. -/
theorem suffix_shown :
    (∃ s, Run (System.new true fun _ => true) System.step anyStep
        (hello ++ [.looper (calmEnv 0), .looper (calmEnv 30001)]) s ∧
      (∃ w ∈ s.shown, w.title = "lo".toList ∧ assemble w.transaction = some ("Hello".toList, [])) ∧
      s.manager.posts.length = 1) ∧
    ∃ s, Run (System.new true fun _ => true) System.step anyStep
        [.started 0, .listed 0, .osc 0 (ascii "i=x:d=0") (List.replicate 4097 0x48) true true,
          .osc 0 (ascii "i=x") (ascii "lo") true true, .looper (calmEnv 0)] s ∧
      (∃ w ∈ s.shown, w.title = "lo".toList ∧ w.transaction.length = 2) ∧ s.manager.posts.length = 1 :=
  ⟨exists_run_of_exec (by decide), exists_run_of_exec (by decide +kernel)⟩

end Tinyhack.Notify
