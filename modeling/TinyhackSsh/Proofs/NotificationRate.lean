import TinyhackSsh.Proofs.NotificationLimits

/-! The limit on posts. `show` counts the posts of a session in a window that begins with
a post and ends 10 s later, and forgets the count when the session is closed. The ten
posts of a window may stand at its end and the next ones right after it, so that the
limit holds for every interval only in runs in which the posts that are not counted
any more leave room. -/

namespace Tinyhack.Notify

open Runs

/-- The length of a window and of the intervals that the limit is about. -/
def RATE_WINDOW_MS : ℕ := 10000

/-- The window that a post asked for now falls into. -/
def Rate.current (rate : Rate) (now : ℕ) : Rate := if now - rate.start ≥ RATE_WINDOW_MS then ⟨now, 0⟩ else rate

namespace Manager

/-- What a request hands to `show`. -/
def submission (m : Manager) (act : Action) : Option (Assembly × JString × JString) :=
  match act.event with
  | .notification session metadata payload =>
    if m.ignores act.env session then none
    else (parseRequest metadata).bind fun request => (chunkOf session metadata payload).bind fun keyed =>
      let a := (m.pending.current act.env.now session request.id).receive keyed.2
      if keyed.2.isFinal then a.outcome.map fun texts => (a, texts) else none
  | _ => none

/-- The window of a session. -/
def window (m : Manager) (session now : ℕ) : Rate := ((m.rates.get? session).getD ⟨0, 0⟩).current now

/-- The posts of a session in an interval. -/
def postsWithin (m : Manager) (session first : ℕ) : List Entry :=
  m.posts.filter fun e => e.session = session ∧ first ≤ e.posted ∧ e.posted < first + RATE_WINDOW_MS

/-- Those of the last 10 s. -/
def recent (m : Manager) (session now : ℕ) : List Entry :=
  m.posts.filter fun e => e.session = session ∧ now < e.posted + RATE_WINDOW_MS

/-- Those from a time on. -/
def postsSince (m : Manager) (session first : ℕ) : List Entry :=
  m.posts.filter fun e => e.session = session ∧ first ≤ e.posted

/-- The posts of the last 10 s that are not counted, because they were made before the
window or the count was dropped, leave room for one more. -/
def HasRoom (m : Manager) (session now : ℕ) : Prop :=
  (m.rates.get? session = none → m.recent session now = []) ∧
  ((m.window session now).count < 10 →
    ((m.recent session now).filter fun e => e.posted < (m.window session now).start).length +
      (m.window session now).count < 10)

instance (m : Manager) (session now : ℕ) : Decidable (m.HasRoom session now) :=
  inferInstanceAs (Decidable ((_ → _) ∧ (_ → _)))

end Manager

/-- There is room for the post that the event asks for. -/
def RateOk (m : Manager) (act : Action) : Prop :=
  ∀ x ∈ m.submission act, m.isSuppressed act.env x.1 x.2.1 x.2.2 = false → m.HasRoom x.1.session act.env.now

instance (m : Manager) (act : Action) : Decidable (RateOk m act) :=
  inferInstanceAs (Decidable (∀ x ∈ m.submission act, _))

/-- The books of the limit, at a time. -/
structure Paced (m : Manager) (now : ℕ) : Prop where
  posts : ∀ e ∈ m.posts, e.posted ≤ now
  /-- and no post is later than the window -/
  counted : ∀ x rate, m.rates.get? x = some rate → (m.postsSince x rate.start).length ≤ rate.count ∧
    ∀ e ∈ m.posts, e.session = x → e.posted < rate.start + RATE_WINDOW_MS
  limit : ∀ x first, (m.postsWithin x first).length ≤ 10

/-- Nothing is posted and the rates are the same. -/
structure SameBooks (m m' : Manager) : Prop where
  rates : m'.rates = m.rates
  posts : m'.posts = m.posts

section Closing

variable {m : Manager} (env : Env)

theorem SameBooks.refl (m : Manager) : SameBooks m m := ⟨rfl, rfl⟩

theorem SameBooks.trans {m m₁ m₂ : Manager} (h : SameBooks m m₁) (h' : SameBooks m₁ m₂) : SameBooks m m₂ :=
  ⟨h'.rates.trans h.rates, h'.posts.trans h.posts⟩

theorem SameBooks.after {m m₁ m₂ : Manager} (h : SameBooks m₁ m₂) (hrates : m₁.rates = m.rates)
    (hposts : m₁.posts = m.posts) : SameBooks m m₂ := .trans ⟨hrates, hposts⟩ h

theorem talk_books {m' : Manager} (h : Talk env m m') : SameBooks m m' := by
  cases h with
  | close e report cause =>
    by_cases hlive : m.tokens.get? e.token = some e
    · rw [close_live hlive]
      refine ⟨rfl, ?_⟩
      rw [Manager.posts, List.filterMap_append, closeOutputs_posts, List.append_nil, Manager.posts]
    · rw [close_stale hlive]
      exact .refl m
  | reply session id operation payload about =>
    rw [reply_eq]
    refine ⟨rfl, ?_⟩
    rw [Manager.posts, List.filterMap_append]
    split_ifs <;> simp [Output.post, Manager.posts]

/-- Closing and answering leave the books alone. -/
theorem talks_books {m' : Manager} (h : Talks env m m') : SameBooks m m' := by
  induction h with
  | refl => exact .refl m
  | tail _ hlast ih => exact ih.trans (talk_books env hlast)

theorem request_books {session : ℕ} {metadata payload : Bytes} (hchunk : chunkOf session metadata payload = none) :
    SameBooks m (m.onNotification env session metadata payload) := by
  unfold Manager.onNotification
  split_ifs
  · exact .refl m
  cases hparse : parseRequest metadata with
  | none => exact .refl m
  | some request =>
    simp only [chunkOf, hparse] at hchunk
    dsimp only
    cases htype : request.type with
    | query => exact talk_books env (.reply _ _ _ _ _)
    | alive => exact talks_books env (reconcile_talks.tail (.reply _ _ _ _ _))
    | close =>
      cases request.id with
      | none => exact .refl m
      | some id =>
        dsimp only [Manager.closeRequest]
        split
        · exact (talk_books env (.close _ _ _)).after rfl rfl
        · exact ⟨rfl, rfl⟩
    | title | body => simp [htype] at hchunk
    | other => exact .refl m

end Closing

section Show

variable {m : Manager} {env : Env} {a : Assembly}

/-- A post leaves the rates and adds at most one notification, of now. -/
theorem post_posts (m : Manager) (env : Env) (a : Assembly) (title body : JString) :
    (m.post env a title body).rates = m.rates ∧
    ((m.post env a title body).posts = m.posts ∨ ∃ e, e.session = a.session ∧ e.posted = env.now ∧
      (m.post env a title body).posts = m.posts ++ [e]) := by
  unfold Manager.post
  dsimp only
  have hrec : SameBooks m (m.reconcile env) := talks_books env reconcile_talks
  generalize m.reconcile env = m₁ at hrec ⊢
  generalize hm₂ : (if (m₁.active.get? (m₁.postKey a)).isNone then m₁.trimActive env a.session else m₁) = m₂
  have hbooks : SameBooks m m₂ := by
    subst hm₂
    split_ifs
    · exact hrec.trans (talks_books env (trimActive_talks _))
    · exact hrec
  split_ifs
  · exact ⟨hbooks.rates, .inl hbooks.posts⟩
  · exact ⟨hbooks.rates, .inl hbooks.posts⟩
  all_goals
    rw [register_eq]
    refine ⟨hbooks.rates, .inr ⟨m₂.newEntry env a (m₁.postKey a) (m₁.active.get? (m₁.postKey a)), rfl, rfl, ?_⟩⟩
    rw [← hbooks.posts]
    cases m₁.active.get? (m₁.postKey a) <;>
      simp [Manager.posts, Manager.emit, Output.post, List.filterMap_append]

variable {m' : Manager} {now now' x : ℕ}

/-- Nothing is posted. -/
theorem Paced.frame (h : Paced m now) (hnow : now ≤ now') (hposts : m'.posts = m.posts)
    (hrates : m'.rates.Sub m.rates) : Paced m' now' where
  posts := fun e he => (h.posts e (hposts ▸ he)).trans hnow
  counted := fun x rate hget => by
    rw [Manager.postsSince, hposts]
    exact h.counted x rate (hrates x rate hget)
  limit := fun x first => by
    rw [Manager.postsWithin, hposts]
    exact h.limit x first

theorem Rate.lt_current_end (rate : Rate) (now : ℕ) : now < (rate.current now).start + RATE_WINDOW_MS := by
  unfold Rate.current RATE_WINDOW_MS
  split_ifs
  · exact Nat.lt_add_of_pos_right (by decide)
  · omega

/-- The posts from the beginning of the window on are counted. -/
theorem window_counted (h : Paced m now) (hdropped : m.rates.get? x = none → m.recent x now' = []) :
    (m.postsSince x (m.window x now').start).length ≤ (m.window x now').count := by
  have hnew : ∀ start, (∀ e ∈ m.posts, e.session = x → e.posted < start) →
      (m.postsSince x start).length ≤ 0 := by
    intro start hbefore
    refine (List.length_eq_zero_iff.mpr (List.filter_eq_nil_iff.mpr fun e he hin => ?_)).le
    obtain ⟨hsession, hsince⟩ := of_decide_eq_true hin
    exact (hbefore e he hsession).not_ge hsince
  unfold Manager.window Rate.current
  cases hget : m.rates.get? x with
  | none =>
    have hold : ∀ e ∈ m.posts, e.session = x → e.posted + RATE_WINDOW_MS ≤ now' := by
      intro e he hsession
      have hnot := List.filter_eq_nil_iff.mp (hdropped hget) e he
      simpa [hsession] using hnot
    rw [Option.getD_none]
    split_ifs with hover
    · refine hnew now' fun e he hsession => ?_
      have := hold e he hsession
      unfold RATE_WINDOW_MS at this
      omega
    · refine hnew _ fun e he hsession => ?_
      have := hold e he hsession
      exact absurd (this.trans' (Nat.le_add_left _ _)) hover
  | some rate =>
    obtain ⟨hcount, hinside⟩ := h.counted x rate hget
    rw [Option.getD_some]
    split_ifs with hover
    · refine hnew now' fun e he hsession => ?_
      have := hinside e he hsession
      unfold RATE_WINDOW_MS at *
      omega
    · exact hcount

/-- The posts of an interval that reaches up to now. -/
theorem length_postsWithin_le {first : ℕ} (hfirst : now < first + RATE_WINDOW_MS) (start : ℕ) :
    (m.postsWithin x first).length ≤
      ((m.recent x now).filter fun e => e.posted < start).length + (m.postsSince x start).length := by
  have hrecent : (m.postsWithin x first).length ≤ (m.recent x now).length := by
    refine (List.monotone_filter_right m.posts fun e hin => ?_).length_le
    obtain ⟨hsession, hfrom, hto⟩ := of_decide_eq_true hin
    exact decide_eq_true ⟨hsession, by omega⟩
  have hsince : ((m.recent x now).filter fun e => !decide (e.posted < start)).length ≤
      (m.postsSince x start).length := by
    rw [Manager.recent, List.filter_filter]
    refine (List.monotone_filter_right m.posts fun e hin => ?_).length_le
    obtain ⟨hlate, hin⟩ := Bool.and_eq_true_iff.mp hin
    exact decide_eq_true ⟨(of_decide_eq_true hin).1, by simpa using hlate⟩
  have hsplit := List.length_eq_length_filter_add (l := m.recent x now) fun e => e.posted < start
  omega

/-- One more post is within the limit. -/
theorem limit_snoc (h : Paced m now) (hroom : m.HasRoom x now') (hallowed : (m.window x now').count < 10)
    {e : Entry} (hsession : e.session = x) (hposted : e.posted = now') (hposts : m'.posts = m.posts ++ [e])
    (y first : ℕ) : (m'.postsWithin y first).length ≤ 10 := by
  rw [Manager.postsWithin, hposts, List.filter_append, List.length_append]
  by_cases hin : e.session = y ∧ first ≤ e.posted ∧ e.posted < first + RATE_WINDOW_MS
  · obtain ⟨hy, -, hto⟩ := hin
    obtain rfl : x = y := hsession.symm.trans hy
    have hwithin := length_postsWithin_le (m := m) (x := x) (hposted ▸ hto) (m.window x now').start
    have hcounted := window_counted h hroom.1
    have hlt := hroom.2 hallowed
    have hone : ([e].filter fun e => e.session = x ∧ first ≤ e.posted ∧ e.posted < first + RATE_WINDOW_MS).length ≤ 1 :=
      List.length_filter_le _ _
    unfold Manager.postsWithin at hwithin
    omega
  · rw [List.filter_singleton, decide_eq_false hin]
    exact h.limit y first

/-- A request for a post is counted, whether or not something is posted. -/
theorem Paced.ask (h : Paced m now) (hnow : now ≤ now') (hroom : m.HasRoom x now')
    (hrates : m'.rates = m.rates.put x ⟨(m.window x now').start, (m.window x now').count + 1⟩)
    (hposts : m'.posts = m.posts ∨ (m.window x now').count < 10 ∧ ∃ e : Entry, e.session = x ∧ e.posted = now' ∧
      m'.posts = m.posts ++ [e]) : Paced m' now' := by
  have hcounted := window_counted h hroom.1
  have hend := ((m.rates.get? x).getD ⟨0, 0⟩).lt_current_end now'
  obtain hsame | ⟨hallowed, e, hsession, hposted, hsnoc⟩ := hposts
  · refine ⟨fun e he => (h.posts e (hsame ▸ he)).trans hnow, fun y rate hget => ?_, fun y first => ?_⟩
    · rw [Manager.postsSince, hsame]
      rw [hrates, OrderedMap.get?_put] at hget
      split_ifs at hget with hy
      · obtain rfl := Option.some.inj hget
        subst hy
        exact ⟨hcounted.trans (Nat.le_succ _), fun e he _ => ((h.posts e he).trans hnow).trans_lt hend⟩
      · exact h.counted y rate hget
    · rw [Manager.postsWithin, hsame]
      exact h.limit y first
  · have hmem : ∀ e' ∈ m'.posts, e' ∈ m.posts ∨ e' = e := by
      intro e' he'
      simpa [hsnoc] using he'
    have hbound : ∀ e' ∈ m'.posts, e'.posted ≤ now' := by
      intro e' he'
      obtain hold | rfl := hmem e' he'
      · exact (h.posts e' hold).trans hnow
      · exact hposted.le
    refine ⟨hbound, fun y rate hget => ?_, limit_snoc h hroom hallowed hsession hposted hsnoc⟩
    rw [hrates, OrderedMap.get?_put] at hget
    split_ifs at hget with hy
    · obtain rfl := Option.some.inj hget
      subst hy
      refine ⟨?_, fun e' he' _ => (hbound e' he').trans_lt hend⟩
      rw [Manager.postsSince, hsnoc, List.filter_append, List.length_append]
      exact Nat.add_le_add hcounted (List.length_filter_le _ _)
    · obtain ⟨hcount, hinside⟩ := h.counted y rate hget
      have hother : e.session ≠ y := fun heq => hy (heq.symm.trans hsession)
      constructor
      · rw [Manager.postsSince, hsnoc, List.filter_append, List.filter_singleton,
          decide_eq_false fun hin => hother hin.1, cond_false, List.append_nil]
        exact hcount
      · intro e' he' hy'
        obtain hold | rfl := hmem e' he'
        · exact hinside e' hold hy'
        · exact absurd hy' hother

/-- `show` keeps the books when there is room for the post. -/
theorem showAssembly_paced (h : Paced m now) (hnow : now ≤ env.now) {title body : JString}
    (hroom : m.isSuppressed env a title body = false → m.HasRoom a.session env.now) :
    Paced (m.showAssembly env a title body) env.now := by
  have hsubmit : (m.emit (.submit a title body)).posts = m.posts := by
    simp [Manager.posts, Manager.emit, Output.post]
  unfold Manager.showAssembly
  dsimp only
  rw [show (m.emit (.submit a title body)).isSuppressed env a title body = m.isSuppressed env a title body from rfl]
  split_ifs with hsuppressed hallowed
  · exact h.frame hnow hsubmit fun _ _ hget => hget
  · obtain ⟨hrates, hposts⟩ := post_posts { m.emit (.submit a title body) with
      rates := m.rates.put a.session ⟨(m.window a.session env.now).start, (m.window a.session env.now).count + 1⟩ }
      env a title body
    refine h.ask hnow (hroom (by simpa using hsuppressed)) hrates ?_
    obtain hsame | ⟨e, hsession, hposted, hsnoc⟩ := hposts
    · exact .inl (hsame.trans hsubmit)
    · exact .inr ⟨of_decide_eq_true hallowed, e, hsession, hposted, hsnoc.trans (congrArg (· ++ [e]) hsubmit)⟩
  · exact h.ask hnow (hroom (by simpa using hsuppressed)) rfl (.inl hsubmit)

end Show

section Steps

variable {m m' : Manager} {act : Action} {now : ℕ}

/-- A chunk adds nothing to the books, or hands its submission to `show`. -/
theorem chunk_submission (hm : Keyed m) {session : ℕ} {metadata payload : Bytes} {key : Key} {c : Chunk}
    (hevent : act.event = .notification session metadata payload)
    (hchunk : chunkOf session metadata payload = some (key, c)) (hguard : m.ignores act.env session = false) :
    SameBooks m (m.onNotification act.env session metadata payload) ∨
    ∃ pending a title body, m.submission act = some (a, title, body) ∧
      m.onNotification act.env session metadata payload =
        { m with pending := pending }.showAssembly act.env a title body := by
  obtain ⟨request, hparse, -, -, hrun⟩ := chunkOf_eq_some hchunk
  have haccepted := accepted_of_not_ignores hevent hparse hguard
  rw [hrun m act.env hguard]
  obtain ⟨pending, scheduled, due, heq⟩ | ⟨pending, a, title, body, rfl, hid, heq⟩ :=
    chunk_cases hm act.env session haccepted.validId c
  · rw [heq]
    exact .inl ⟨rfl, rfl⟩
  · refine .inr ⟨pending, a, title, body, ?_, heq⟩
    -- the same text is in what both lemmas say was handed over
    have hsubmits := (chunk_spec hm haccepted c).2.2
    rw [heq, (showAssembly_spec haccepted hid title body).2] at hsubmits
    have hlist := List.append_cancel_left hsubmits
    have hsubmission : m.submission act = if c.isFinal then
        ((m.pending.current act.env.now a.session request.id).receive c).outcome.map fun texts =>
          ((m.pending.current act.env.now a.session request.id).receive c, texts) else none := by
      simp [Manager.submission, hevent, hguard, hparse, hchunk]
    rw [hsubmission]
    split_ifs at hlist ⊢ with hfinal
    · exact Option.toList_eq_singleton_iff.mp hlist.symm

/-- The event leaves the posts and adds no rate, or hands its submission to `show`. -/
theorem step_books (hm : Keyed m) (hs : step m act = some m') :
    (m'.posts = m.posts ∧ m'.rates.Sub m.rates) ∨
    ∃ pending a title body, m.submission act = some (a, title, body) ∧
      m' = { m with pending := pending }.showAssembly act.env a title body := by
  have hsame : ∀ m', SameBooks m m' → m'.posts = m.posts ∧ m'.rates.Sub m.rates := by
    rintro m' ⟨hrates, hposts⟩
    exact ⟨hposts, fun _ _ hget => hrates ▸ hget⟩
  cases step_handled hs with
  | @notification session metadata payload event =>
    by_cases hguard : m.ignores act.env session = true
    · exact .inl (hsame _ (by rw [Manager.onNotification, if_pos hguard]; exact .refl m))
    cases hchunk : chunkOf session metadata payload with
    | none => exact .inl (hsame _ (request_books act.env hchunk))
    | some keyed =>
      obtain ⟨key, c⟩ := keyed
      exact (chunk_submission hm event hchunk (by simpa using hguard)).imp_left (hsame _)
  | intent event => exact .inl (hsame _ (talks_books act.env (handleIntent_talks _)))
  | expiry event timer =>
    refine .inl (hsame _ ?_)
    unfold Manager.runExpiry
    split_ifs
    · exact (talk_books act.env (.close _ _ _)).after rfl rfl
    · exact ⟨rfl, rfl⟩
  | sweep event =>
    refine .inl (hsame _ ?_)
    unfold Manager.runSweep Manager.scheduleSweep
    dsimp only
    split_ifs <;> exact ⟨rfl, rfl⟩
  | @sessionClosed session event =>
    have hbooks : SameBooks m (Manager.closeWhere { m with pending := m.pending.filter fun p => p.2.session ≠ session }
        act.env false .sessionClosed (fun e => e.session = session) m.entries) :=
      (talks_books act.env (closeWhere_talks _ _ _ _)).after rfl rfl
    exact .inl ⟨hbooks.posts, fun x rate hget => hbooks.rates ▸ OrderedMap.get?_of_erase hget⟩
  | destroy event =>
    have hbooks : SameBooks m (Manager.closeWhere { m with destroyed := true, timers := [], sweepDue := none }
        act.env false .destroyed (fun _ => true) m.entries) :=
      (talks_books act.env (closeWhere_talks _ _ _ _)).after rfl rfl
    exact .inl ⟨hbooks.posts, fun x rate hget => by cases hget⟩

/-- One event within the limit. -/
theorem step_paced (hm : Keyed m) (h : Paced m now) (hnow : now ≤ act.env.now) (hok : RateOk m act)
    (hs : step m act = some m') : Paced m' act.env.now := by
  obtain ⟨hposts, hrates⟩ | ⟨pending, a, title, body, hsubmission, rfl⟩ := step_books hm hs
  · exact h.frame hnow hposts hrates
  · have hm₁ : Paced { m with pending := pending } now := h.frame le_rfl rfl fun _ _ hget => hget
    exact showAssembly_paced hm₁ hnow (hok _ hsubmission)

end Steps

/-- The clock does not go back. -/
def ClockOk (acts : List Action) : Prop := acts.Pairwise fun act act' => act.env.now ≤ act'.env.now

instance (acts : List Action) : Decidable (ClockOk acts) := inferInstanceAs (Decidable (acts.Pairwise _))

theorem run_paced {platform : Bool} {acts : List Action} {m : Manager}
    (h : Run (Manager.new platform) step RateOk acts m) (hclock : ClockOk acts) :
    ∃ now, Paced m now ∧ ∀ next : ℕ, (∀ act ∈ acts, act.env.now ≤ next) → now ≤ next := by
  induction h with
  | nil =>
    refine ⟨0, ⟨?_, ?_, ?_⟩, fun next _ => Nat.zero_le next⟩
    · simp [Manager.new, Manager.posts]
    · exact fun x rate hget => by cases hget
    · exact fun x first => Nat.zero_le _
  | snoc hrun hok hs ih =>
    obtain ⟨hclock, -, hlast⟩ := List.pairwise_append.mp hclock
    obtain ⟨now, hpaced, hnow⟩ := ih hclock
    refine ⟨_, step_paced (run_keyed hrun.any) hpaced (hnow _ fun act hact => ?_) hok hs, fun next hnext => ?_⟩
    · exact hlast act hact _ (List.mem_singleton.mpr rfl)
    · exact hnext _ (by simp)

/-- In every run in which there is room for every post that is asked for, no interval of
10 s holds more than 10 posts of a session. -/
theorem posts_within_limit (platform : Bool) (acts : List Action) (m : Manager)
    (hrun : Run (Manager.new platform) step RateOk acts m) (hclock : ClockOk acts) (session first : ℕ) :
    (m.postsWithin session first).length ≤ 10 := by
  obtain ⟨now, hpaced, -⟩ := run_paced hrun hclock
  exact hpaced.limit session first

/-- A notification of session 0 without an id. -/
def postAt (now : ℕ) : Action := ⟨calmEnv now, .notification 0 (ascii "") (ascii "Hi")⟩

theorem posts_within_limit_ten : ∃ m, Run (Manager.new true) step RateOk (List.replicate 11 (postAt 10000)) m ∧
    (m.postsWithin 0 10000).length ≤ 10 ∧ (m.postsWithin 0 10000).length = 10 := by
  obtain ⟨m, hrun, hten⟩ : ∃ m, Run (Manager.new true) step RateOk (List.replicate 11 (postAt 10000)) m ∧
      (m.postsWithin 0 10000).length = 10 := exists_run_of_exec (by decide)
  exact ⟨m, hrun, posts_within_limit true _ m hrun (by decide) 0 10000, hten⟩

/-- A window of ten posts, nine of them at its end, and two posts of the next one. -/
def acrossWindows : List Action := postAt 10000 :: List.replicate 9 (postAt 19999) ++ List.replicate 2 (postAt 20000)

theorem eleven_within_interval : ClockOk acrossWindows ∧
    ∃ m, Run (Manager.new true) step anyStep acrossWindows m ∧ (m.postsWithin 0 19999).length = 11 :=
  ⟨by decide, exists_run_of_exec (by decide)⟩

end Tinyhack.Notify
