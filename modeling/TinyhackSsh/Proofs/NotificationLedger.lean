import TinyhackSsh.Proofs.NotificationSteps

/-! Every notification that is posted ends at most once, and the close replies are those
of the reported ends, in order. `tokens` and `active` list the ones that have not ended. -/

namespace Tinyhack.Notify

open Runs

/-- The end of a posted notification. -/
structure Ending where
  entry : Entry
  cause : Cause
  /-- the session was running then -/
  running : Bool
  deriving DecidableEq

/-- A close reply with the session it is written to and the generation it is about. -/
structure CloseReply where
  session : ℕ
  token : ℕ
  bytes : Bytes
  deriving DecidableEq

/-- The replies that the end of a notification asks for. -/
def Ending.replies (x : Ending) : List CloseReply :=
  if x.cause.reports && x.entry.closeReport && x.running then
    [⟨x.entry.session, x.entry.token, Wire.encodeUtf8 (replyText x.entry.id (some "p=close".toList) [])⟩]
  else []

namespace Output

def post : Output → Option Entry
  | notify e _ => some e
  | _ => none

def ending : Output → Option Ending
  | ended e cause running => some ⟨e, cause, running⟩
  | _ => none

def closeReply : Output → Option CloseReply
  | write session (some token) bytes => some ⟨session, token, bytes⟩
  | _ => none

end Output

namespace Manager

def posts (m : Manager) : List Entry := m.out.filterMap Output.post

def ends (m : Manager) : List Ending := m.out.filterMap Output.ending

def closeReplies (m : Manager) : List CloseReply := m.out.filterMap Output.closeReply

end Manager

theorem mem_entries_iff {m : Manager} {e : Entry} : e ∈ m.entries ↔ ∃ k, m.active.get? k = some e := by
  simp [Manager.entries, OrderedMap.get?_eq_some_iff]

/-- The books of the manager: the posted notifications are the active and the ended ones. -/
structure Ledger (m : Manager) : Prop where
  keyed : ∀ k e, m.active.get? k = some e → e.key = k
  tokens : ∀ t e, m.tokens.get? t = some e ↔ m.active.get? e.key = some e ∧ e.token = t
  timers : ∀ t ∈ m.timers, m.active.get? t.1.key = some t.1
  posts : m.posts.Perm (m.entries ++ m.ends.map Ending.entry)
  distinct : (m.posts.map Entry.token).Nodup
  fresh : ∀ e ∈ m.posts, e.token < m.uuids
  replies : m.closeReplies = m.ends.flatMap Ending.replies

section Moves

variable {m m' : Manager}

theorem Ledger.active_of_token (h : Ledger m) {e : Entry} (he : m.tokens.get? e.token = some e) :
    m.active.get? e.key = some e := ((h.tokens _ _).mp he).1

theorem Ledger.mem_posts_of_active (h : Ledger m) {k : Key} {e : Entry} (he : m.active.get? k = some e) :
    e ∈ m.posts :=
  h.posts.mem_iff.mpr (List.mem_append_left _ (mem_entries_iff.mpr ⟨k, he⟩))

/-- Nothing is posted and nothing ends. -/
theorem Ledger.frame (h : Ledger m) (hactive : m'.active = m.active) (htokens : m'.tokens = m.tokens)
    (htimers : ∀ t ∈ m'.timers, t ∈ m.timers) (huuids : m.uuids ≤ m'.uuids) (hposts : m'.posts = m.posts)
    (hends : m'.ends = m.ends) (hreplies : m'.closeReplies = m.closeReplies) : Ledger m' where
  keyed := hactive ▸ h.keyed
  tokens := by
    rw [hactive, htokens]
    exact h.tokens
  timers := fun t ht => hactive ▸ h.timers t (htimers t ht)
  posts := by
    rw [hposts, hends, Manager.entries, hactive]
    exact h.posts
  distinct := hposts ▸ h.distinct
  fresh := fun e he => (h.fresh e (hposts ▸ he)).trans_le huuids
  replies := by
    rw [hreplies, hends]
    exact h.replies

/-- A notification leaves the maps and its end is logged. -/
theorem Ledger.remove (h : Ledger m) {x : Ending} (hlive : m.tokens.get? x.entry.token = some x.entry)
    (hactive : m'.active = m.active.erase x.entry.key) (htokens : m'.tokens = m.tokens.erase x.entry.token)
    (htimers : ∀ t ∈ m'.timers, t ∈ m.timers ∧ t.1.token ≠ x.entry.token) (huuids : m'.uuids = m.uuids)
    (hposts : m'.posts = m.posts) (hends : m'.ends = m.ends ++ [x])
    (hreplies : m'.closeReplies = m.closeReplies ++ x.replies) : Ledger m' := by
  have hentry := h.active_of_token hlive
  -- another entry of the same key or token would be this one
  have hother : ∀ e, m.active.get? e.key = some e → (e.key = x.entry.key ↔ e.token = x.entry.token) := by
    intro e he
    constructor
    · intro hkey
      rw [hkey, hentry] at he
      rw [Option.some.inj he]
    · intro htoken
      have hget := (h.tokens _ _).mpr ⟨he, htoken⟩
      rw [hlive] at hget
      rw [Option.some.inj hget]
  refine ⟨fun k e he => ?_, fun t e => ?_, fun t ht => ?_, ?_, hposts ▸ h.distinct, ?_, ?_⟩
  · rw [hactive, OrderedMap.get?_erase] at he
    split_ifs at he
    exact h.keyed k e he
  · rw [htokens, hactive, OrderedMap.get?_erase, OrderedMap.get?_erase]
    constructor
    · intro he
      split_ifs at he with ht
      obtain ⟨hget, rfl⟩ := (h.tokens _ _).mp he
      rw [if_neg fun hkey => ht ((hother e hget).mp hkey)]
      exact ⟨hget, rfl⟩
    · rintro ⟨he, rfl⟩
      split_ifs at he with hkey
      rw [if_neg fun ht => hkey ((hother e he).mpr ht)]
      exact (h.tokens _ _).mpr ⟨he, rfl⟩
  · obtain ⟨hmem, htoken⟩ := htimers t ht
    have ht := h.timers t hmem
    rw [hactive, OrderedMap.get?_erase, if_neg fun hkey => htoken ((hother _ ht).mp hkey)]
    exact ht
  · have hperm : m.entries.Perm (x.entry :: m'.entries) := by
      rw [Manager.entries, Manager.entries, hactive]
      exact (OrderedMap.perm_erase hentry).map Prod.snd
    rw [hposts, hends, List.map_append]
    refine h.posts.trans ((hperm.append_right _).trans ?_)
    rw [← List.append_assoc]
    exact (List.perm_append_singleton x.entry _).symm
  · rw [hposts, huuids]
    exact h.fresh
  · rw [hreplies, hends, List.flatMap_append, h.replies]
    simp

/-- A notification with a new token is posted under a key that is free. -/
theorem Ledger.insert (h : Ledger m) {e : Entry} (hkey : m.active.get? e.key = none) (htoken : e.token = m.uuids)
    (hactive : m'.active = m.active.put e.key e) (htokens : m'.tokens = m.tokens.put e.token e)
    (htimers : ∀ t ∈ m'.timers, t ∈ m.timers ∨ t.1 = e) (huuids : m'.uuids = m.uuids + 1)
    (hposts : m'.posts = m.posts ++ [e]) (hends : m'.ends = m.ends)
    (hreplies : m'.closeReplies = m.closeReplies) : Ledger m' := by
  have hold : ∀ k e', m.active.get? k = some e' → e'.token ≠ e.token := by
    intro k e' he'
    have hlt := h.fresh e' (h.mem_posts_of_active he')
    omega
  refine ⟨fun k e' he' => ?_, fun t e' => ?_, fun t ht => ?_, ?_, ?_, ?_, ?_⟩
  · rw [hactive, OrderedMap.get?_put] at he'
    split_ifs at he' with hk
    · obtain rfl := Option.some.inj he'
      exact hk.symm
    · exact h.keyed k e' he'
  · rw [htokens, hactive, OrderedMap.get?_put, OrderedMap.get?_put]
    constructor
    · intro he'
      split_ifs at he' with ht
      · obtain rfl := Option.some.inj he'
        exact ⟨if_pos rfl, ht.symm⟩
      · obtain ⟨hget, rfl⟩ := (h.tokens _ _).mp he'
        have hne : e'.key ≠ e.key := by
          intro heq
          rw [heq, hkey] at hget
          cases hget
        exact ⟨(if_neg hne).trans hget, rfl⟩
    · rintro ⟨he', rfl⟩
      split_ifs at he' with hk
      · obtain rfl := Option.some.inj he'
        exact if_pos rfl
      · rw [if_neg (hold _ _ he')]
        exact (h.tokens _ _).mpr ⟨he', rfl⟩
  · rw [hactive, OrderedMap.get?_put]
    rcases htimers t ht with hmem | rfl
    · have ht := h.timers t hmem
      rw [if_neg, ht]
      intro heq
      rw [heq, hkey] at ht
      cases ht
    · exact if_pos rfl
  · rw [hposts, hends, Manager.entries, hactive, OrderedMap.entries_put_of_get?_eq_none hkey, List.map_append]
    refine (h.posts.append_right [e]).trans ?_
    rw [List.append_assoc, List.append_assoc]
    exact List.perm_append_comm.append_left _
  · rw [hposts, List.map_append]
    refine List.Nodup.append h.distinct (by simp) ?_
    intro t ht hmem
    obtain ⟨e', he', rfl⟩ := List.mem_map.mp ht
    have hlt := h.fresh e' he'
    simp only [List.map_cons, List.map_nil, List.mem_singleton] at hmem
    omega
  · intro e' he'
    rw [hposts] at he'
    rcases List.mem_append.mp he' with hmem | hmem
    · have hlt := h.fresh e' hmem
      omega
    · rw [List.mem_singleton.mp hmem]
      omega
  · rw [hreplies, hends]
    exact h.replies

theorem reply_ledger (h : Ledger m) (env : Env) (session : ℕ) (id operation : Option JString) (payload : JString) :
    Ledger (m.reply env session id operation payload none) := by
  rw [reply_eq]
  refine h.frame rfl rfl (fun _ ht => ht) le_rfl ?_ ?_ ?_
  all_goals
    dsimp only [Manager.posts, Manager.ends, Manager.closeReplies]
    rw [List.filterMap_append]
    split_ifs <;> simp [Output.post, Output.ending, Output.closeReply]

section Closing

variable (env : Env) (e : Entry) (report : Bool) (cause : Cause)

theorem closeOutputs_posts : (m.closeOutputs env e report cause).filterMap Output.post = [] := by
  unfold Manager.closeOutputs
  split_ifs <;> rfl

theorem closeOutputs_ends :
    (m.closeOutputs env e report cause).filterMap Output.ending = [⟨e, cause, env.answers e.session⟩] := by
  unfold Manager.closeOutputs
  split_ifs <;> rfl

theorem closeOutputs_replies :
    (m.closeOutputs env e cause.reports cause).filterMap Output.closeReply =
      Ending.replies ⟨e, cause, env.answers e.session⟩ := by
  unfold Manager.closeOutputs Ending.replies
  split_ifs <;> rfl

end Closing

theorem close_ledger (h : Ledger m) (env : Env) (e : Entry) (cause : Cause) :
    Ledger (m.close env e cause.reports cause) := by
  by_cases hlive : m.tokens.get? e.token = some e
  · rw [close_live hlive]
    refine h.remove (x := ⟨e, cause, env.answers e.session⟩) hlive rfl rfl (fun t ht => ?_) rfl ?_ ?_ ?_
    · simpa [Manager.forget] using ht
    · rw [Manager.posts, List.filterMap_append, closeOutputs_posts, List.append_nil, Manager.posts]
    · rw [Manager.ends, List.filterMap_append, closeOutputs_ends, Manager.ends]
    · rw [Manager.closeReplies, List.filterMap_append, closeOutputs_replies, Manager.closeReplies]
  · rw [close_stale hlive]
    exact h

/-- A post takes the place of the notification under its key, if there is one. -/
theorem posted_ledger (h : Ledger m) (env : Env) (a : Assembly) (content : Content) (nextId : ℤ) {e : Entry}
    (he : e = m.newEntry env a (m.postKey a) (m.active.get? (m.postKey a))) :
    Ledger (({ m with uuids := m.uuids + 1, nextId := nextId }.emit (.notify e content)).register env a e
      (m.active.get? (m.postKey a))) := by
  rw [register_eq]
  have hkey : e.key = m.postKey a := by rw [he]; rfl
  have htoken : e.token = m.uuids := by rw [he]; rfl
  have htimer : ∀ t ∈ (if a.expires > 0 then [(e, env.now + a.expires.toNat)] else []), t.1 = e := by
    intro t ht
    split_ifs at ht
    · rw [List.mem_singleton.mp ht]
    · cases ht
  cases hprevious : m.active.get? (m.postKey a) with
  | none =>
    refine h.insert (hkey ▸ hprevious) htoken rfl rfl (fun t ht => (List.mem_append.mp ht).imp id (htimer t)) rfl
      ?_ ?_ ?_
    all_goals
      simp [Manager.posts, Manager.ends, Manager.closeReplies, Manager.emit, Output.post, Output.ending,
        Output.closeReply, List.filterMap_cons]
  | some old =>
    have hold := h.keyed _ _ hprevious
    have hlive : m.tokens.get? old.token = some old := (h.tokens _ _).mpr ⟨hold ▸ hprevious, rfl⟩
    -- the old notification leaves before the new one comes
    have hremoved : Ledger { m.forget old with
        out := m.out ++ [.ended old .replaced (env.answers old.session)] } := by
      refine h.remove (x := ⟨old, .replaced, env.answers old.session⟩) hlive rfl rfl (fun t ht => ?_) rfl ?_ ?_ ?_
      · simpa [Manager.forget] using ht
      all_goals
        simp [Manager.posts, Manager.ends, Manager.closeReplies, Output.post, Output.ending, Output.closeReply,
          Ending.replies, Cause.reports]
    have hfree : (m.active.erase old.key).get? e.key = none := by
      rw [OrderedMap.get?_erase, if_pos (hkey.trans hold.symm)]
    refine hremoved.insert hfree htoken rfl rfl (fun t ht => (List.mem_append.mp ht).imp id (htimer t)) rfl ?_ ?_ ?_
    all_goals
      simp [Manager.posts, Manager.ends, Manager.closeReplies, Manager.emit, Output.post, Output.ending,
        Output.closeReply, List.filterMap_cons]

theorem move_ledger {act : Action} (hmove : Move act m m') (h : Ledger m) : Ledger m' := by
  cases hmove with
  | quiet hquiet =>
    cases hquiet with
    | rate | dropRates | sweepFlags | destroyed =>
      exact h.frame rfl rfl (fun _ ht => ht) le_rfl rfl rfl rfl
    | dropTimers timers hsub => exact h.frame rfl rfl hsub le_rfl rfl rfl rfl
    | query | alive | activated => exact reply_ledger h _ _ _ _ _
    | close e cause => exact close_ledger h act.env e cause
    | notPosted => exact h.frame rfl rfl (fun _ ht => ht) (Nat.le_succ _) rfl rfl rfl
    | posted payload request a content nextId e haccepted hid he => exact posted_ledger h act.env a content nextId he
  | dropPending | putPending => exact h.frame rfl rfl (fun _ ht => ht) le_rfl rfl rfl rfl
  | submit =>
    refine h.frame rfl rfl (fun _ ht => ht) le_rfl ?_ ?_ ?_
    all_goals
      simp [Manager.posts, Manager.ends, Manager.closeReplies, Manager.emit, Output.post, Output.ending,
        Output.closeReply]

end Moves

theorem new_ledger (platform : Bool) : Ledger (Manager.new platform) where
  keyed := fun k e h => by cases h
  tokens := fun t e => ⟨fun h => (by cases h), fun h => (by cases h.1)⟩
  timers := fun t ht => by cases ht
  posts := .nil
  distinct := .nil
  fresh := fun e he => by cases he
  replies := rfl

theorem run_ledger {platform : Bool} {acts : List Action} {m : Manager}
    (hrun : Run (Manager.new platform) step anyStep acts m) : Ledger m :=
  run_inv_of_moves Ledger (new_ledger platform) (fun _ _ _ => move_ledger) hrun

namespace Manager

/-- The ends of the generation with a token. -/
def endsOf (m : Manager) (token : ℕ) : List Ending := m.ends.filter fun x => x.entry.token = token

/-- The close replies about the generation with a token. -/
def repliesOf (m : Manager) (token : ℕ) : List CloseReply := m.closeReplies.filter fun r => r.token = token

end Manager

theorem filter_eq_singleton {α β : Type*} [DecidableEq β] {l : List α} {f : α → β} (h : (l.map f).Nodup) {x : α}
    (hx : x ∈ l) : l.filter (fun y => f y = f x) = [x] := by
  induction l with
  | nil => cases hx
  | cons y l ih =>
    obtain ⟨hy, hl⟩ := List.nodup_cons.mp h
    rcases List.mem_cons.mp hx with rfl | hmem
    · have hnil : l.filter (fun z => f z = f x) = [] := by
        simpa [List.filter_eq_nil_iff] using hy
      simp [hnil]
    · have hne : f y ≠ f x := fun heq => hy (heq ▸ List.mem_map_of_mem hmem)
      simp [hne, ih hl hmem]

section Ends

variable {m : Manager} {e : Entry}

theorem Ledger.tokens_nodup (h : Ledger m) :
    ((m.entries ++ m.ends.map Ending.entry).map Entry.token).Nodup :=
  (h.posts.map Entry.token).nodup_iff.mp h.distinct

theorem Ledger.endsOf_active (h : Ledger m) (he : e ∈ m.entries) : m.endsOf e.token = [] := by
  have hdisjoint := h.tokens_nodup
  rw [List.map_append] at hdisjoint
  refine List.filter_eq_nil_iff.mpr fun x hx heq => ?_
  refine List.disjoint_of_nodup_append hdisjoint (List.mem_map_of_mem he) ?_
  exact of_decide_eq_true heq ▸ List.mem_map_of_mem (List.mem_map_of_mem hx)

theorem Ledger.endsOf_ended (h : Ledger m) {x : Ending} (hx : x ∈ m.ends) : m.endsOf x.entry.token = [x] := by
  have hnodup := h.tokens_nodup
  rw [List.map_append, List.map_map] at hnodup
  exact filter_eq_singleton hnodup.of_append_right hx

theorem Ledger.repliesOf_eq (h : Ledger m) (token : ℕ) :
    m.repliesOf token = (m.endsOf token).flatMap Ending.replies := by
  rw [Manager.repliesOf, Manager.endsOf, h.replies]
  induction m.ends with
  | nil => rfl
  | cons x ends ih =>
    rw [List.flatMap_cons, List.filter_append, ih, List.filter_cons]
    by_cases htoken : x.entry.token = token
    · have hkeep : x.replies.filter (fun r => r.token = token) = x.replies := by
        unfold Ending.replies
        split_ifs <;> simp [htoken]
      rw [hkeep, if_pos (decide_eq_true htoken), List.flatMap_cons]
    · have hdrop : x.replies.filter (fun r => r.token = token) = [] := by
        unfold Ending.replies
        split_ifs <;> simp [htoken]
      rw [hdrop, if_neg (by simpa using htoken), List.nil_append]

/-- The token of a notification that has ended is in no map. -/
theorem Ledger.tokens_none (h : Ledger m) (hpost : e ∈ m.posts) (hended : e ∉ m.entries) :
    m.tokens.get? e.token = none := by
  refine Option.eq_none_iff_forall_ne_some.mpr fun e' he' => ?_
  obtain ⟨hactive, htoken⟩ := (h.tokens _ _).mp he'
  have heq := List.inj_on_of_nodup_map h.distinct (h.mem_posts_of_active hactive) hpost htoken
  exact hended (heq ▸ mem_entries_iff.mpr ⟨_, hactive⟩)

theorem Ledger.expiry_none (h : Ledger m) (hnone : m.tokens.get? e.token = none) (env : Env) :
    step m ⟨env, .expiry e.token⟩ = none := by
  have hfind : (m.timers.find? fun t => t.1.token = e.token) = none := by
    refine List.find?_eq_none.mpr fun t ht heq => ?_
    have hget := (h.tokens _ _).mpr ⟨h.timers t ht, of_decide_eq_true heq⟩
    rw [hnone] at hget
    cases hget
  simp only [step, hfind]

end Ends

/-- In every state reached, `tokens` maps the tokens of the active notifications to them.
An active notification has not been reported; one that was posted and is not active
has ended once, and is reported once if it ended in a way that is to be reported.
Its token and its timer do nothing any more. -/
theorem generations_end_once (platform : Bool) (acts : List Action) (m : Manager)
    (hrun : Run (Manager.new platform) step anyStep acts m) :
    (∀ t e, m.tokens.get? t = some e ↔ e ∈ m.entries ∧ e.token = t) ∧
    (∀ e ∈ m.entries, e ∈ m.posts ∧ m.endsOf e.token = [] ∧ m.repliesOf e.token = []) ∧
    (∀ e ∈ m.posts, e ∉ m.entries →
      (∃ x : Ending, x.entry = e ∧ m.endsOf e.token = [x] ∧ m.repliesOf e.token = x.replies) ∧
      (∀ env intent, intent.lastPathSegment = some e.token → m.handleIntent env intent = (m, none)) ∧
      ∀ env, step m ⟨env, .expiry e.token⟩ = none ∧ m.runExpiry env e = m) := by
  have h := run_ledger hrun
  refine ⟨fun t e => ?_, fun e he => ?_, fun e hpost hended => ⟨?_, fun env intent hintent => ?_, fun env => ⟨?_, ?_⟩⟩⟩
  · rw [h.tokens, mem_entries_iff]
    constructor
    · rintro ⟨he, ht⟩
      exact ⟨⟨_, he⟩, ht⟩
    · rintro ⟨⟨k, he⟩, ht⟩
      exact ⟨h.keyed k e he ▸ he, ht⟩
  · obtain ⟨k, hk⟩ := mem_entries_iff.mp he
    have hends := h.endsOf_active he
    exact ⟨h.mem_posts_of_active hk, hends, by rw [h.repliesOf_eq, hends, List.flatMap_nil]⟩
  · rcases List.mem_append.mp (h.posts.mem_iff.mp hpost) with hmem | hmem
    · exact absurd hmem hended
    · obtain ⟨x, hx, rfl⟩ := List.mem_map.mp hmem
      have hends := h.endsOf_ended hx
      exact ⟨x, rfl, hends, by rw [h.repliesOf_eq, hends, List.flatMap_singleton]⟩
  · have hnone : intent.lastPathSegment.bind m.tokens.get? = none := by
      rw [hintent, Option.bind_some, h.tokens_none hpost hended]
    unfold Manager.handleIntent
    rw [hnone]
    split_ifs <;> rfl
  · exact h.expiry_none (h.tokens_none hpost hended) env
  · rw [Manager.runExpiry, h.tokens_none hpost hended, if_neg (by simp)]

/-- Posted with `c=1`, then dismissed. -/
def dismissal : List Action :=
  [⟨calmEnv 0, .notification 0 (ascii "i=x:c=1") (ascii "Hi")⟩, ⟨calmEnv 5, .intent ⟨true, .dismiss, some 0⟩⟩]

theorem generations_end_once_dismissed : ∃ m e, Run (Manager.new true) step anyStep dismissal m ∧
    e ∈ m.posts ∧ e ∉ m.entries ∧ e.closeReport = true ∧
    (∃ x : Ending, x.entry = e ∧ m.endsOf e.token = [x] ∧ m.repliesOf e.token = x.replies) := by
  have hrun : ∃ m, Run (Manager.new true) step anyStep dismissal m ∧
      ∃ e ∈ m.posts, e ∉ m.entries ∧ e.closeReport = true := exists_run_of_exec (by decide)
  obtain ⟨m, hrun, e, hpost, hended, hreport⟩ := hrun
  have hmain := (generations_end_once true dismissal m hrun).2.2 e hpost hended
  exact ⟨m, e, hrun, hpost, hended, hreport, hmain.1⟩

end Tinyhack.Notify
