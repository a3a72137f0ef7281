import TinyhackSsh.Proofs.AgentIncarnation
import TinyhackSsh.Proofs.AgentLock
import TinyhackSsh.Proofs.AgentRequests

/-! Threads on the key list. Replacing a key is `removeIf`, then `add`; a listing
is `size`, then the iteration. Both are two operations on the list with room for
other threads between them. Blobs are distinct, and listings count right, in every
run in which no thread uses that room for the same blob, or to change the size. -/

namespace Tinyhack.Agent

open Runs Wire

/-- A worker, or a call of `addAndroidSecurityKey`. -/
inductive Thread
  | worker (w : ℕ)
  | ask (i : ℕ)
  deriving DecidableEq

def Server.threads (s : Server) : List Thread :=
  (List.range s.conns).map .worker ++ (List.range s.asks).map .ask

/-- The blob of the entries that a thread has removed and that it is about to add. -/
def Server.adding (s : Server) : Thread → Option Bytes
  | .worker w => match (s.conn w).phase with
    | .addKey key => some key.blob
    | _ => none
  | .ask i => match s.ask i with
    | .addKey key _ => some key.blob
    | _ => none

/-- The operations that write the list. -/
inductive ListOp
  | removeIf (blob : Bytes)
  | add (key : StoredKey)
  | clear

def ListOp.apply (keys : List StoredKey) : Option ListOp → List StoredKey
  | none => keys
  | some (.removeIf blob) => removeBlob keys blob
  | some (.add key) => keys ++ [key]
  | some .clear => []

def workerOp : Phase → WorkerEvent → Option ListOp
  | .replaceKey key, .run => some (.removeIf key.blob)
  | .addKey key, .run => some (.add key)
  | .removeKey blob, .run => some (.removeIf blob)
  | .clearKeys, .run => some .clear
  | _, _ => none

def askOp : AskPhase → Option ListOp
  | .replaceKey key _ => some (.removeIf key.blob)
  | .addKey key _ => some (.add key)
  | _ => none

/-- The operation that an action is about to execute on the list. -/
def listOp (s : Server) : Action → Option ListOp
  | .worker w ev => workerOp (s.conn w).phase ev
  | .askStep i => askOp (s.ask i)
  | .stopStep => if s.stopping = some .clearing then some .clear else none
  | .start _ | .stop | .setLocked _ | .accept _ _ | .ask _ => none

def Action.actor : Action → Option Thread
  | .worker w _ => some (.worker w)
  | .askStep i => some (.ask i)
  | .start _ | .stop | .stopStep | .setLocked _ | .accept _ _ | .ask _ => none

def Phase.hasCounted : Phase → Bool
  | .listKeys _ => true
  | _ => false

/-- No client is between `size` and the iteration. -/
def NoneCounted (s : Server) : Prop := ∀ w < s.conns, (s.conn w).phase.hasCounted = false

instance (s : Server) : Decidable (NoneCounted s) :=
  inferInstanceAs (Decidable (∀ w < s.conns, (s.conn w).phase.hasCounted = false))

/-- An `add` finds no other thread between `removeIf` and `add` of the same blob; an
operation that changes the size of the list finds no client that has counted it. -/
def OpOk (s : Server) (actor : Option Thread) : Option ListOp → Prop
  | none => True
  | some (.removeIf blob) => blob ∈ s.keys.map StoredKey.blob → NoneCounted s
  | some (.add key) => NoneCounted s ∧ ∀ t ∈ s.threads, s.adding t = some key.blob → actor = some t
  | some .clear => s.keys ≠ [] → NoneCounted s

instance (s : Server) (actor : Option Thread) : ∀ op, Decidable (OpOk s actor op)
  | none => isTrue trivial
  | some (.removeIf blob) => inferInstanceAs (Decidable (blob ∈ s.keys.map StoredKey.blob → NoneCounted s))
  | some (.add key) =>
    inferInstanceAs (Decidable (NoneCounted s ∧ ∀ t ∈ s.threads, s.adding t = some key.blob → actor = some t))
  | some .clear => inferInstanceAs (Decidable (s.keys ≠ [] → NoneCounted s))

def ListOk (s : Server) (a : Action) : Prop := OpOk s a.actor (listOp s a)

instance (s : Server) (a : Action) : Decidable (ListOk s a) := inferInstanceAs (Decidable (OpOk s a.actor (listOp s a)))

/-- An IDENTITIES_ANSWER carries the number of the entries that follow. -/
def Counted (payload : Bytes) : Prop :=
  payload.head? = some SSH_AGENT_IDENTITIES_ANSWER → ∃ keys, payload = identitiesAnswer keys.length keys

theorem counted_failure : Counted [SSH_AGENT_FAILURE] := fun h => absurd h (by decide)

theorem counted_success : Counted [SSH_AGENT_SUCCESS] := fun h => absurd h (by decide)

theorem counted_signResponse (blob : Bytes) : Counted (signResponse blob) := fun h =>
  absurd (Option.some.inj h) (by decide)

/-- A worker that holds nothing it has read from the list or written to it. -/
def Phase.Plain : Phase → Prop
  | .addKey _ | .listKeys _ => False
  | .reply payload => Counted payload
  | _ => True

theorem dispatch_plain (prov : Provider) (message : Bytes) : (dispatch prov message).Plain := by
  unfold dispatch
  dsimp only
  split_ifs
  · trivial
  · cases addIdentity prov message false <;> trivial
  · cases addIdentity prov message true <;> trivial
  · cases parseRemove message <;> trivial
  · trivial
  · cases parseSign message <;> trivial
  · exact counted_failure

section Worker

variable {prov : Provider} {s : Server} {born : ℕ} {p : Phase} {ev : WorkerEvent} {e : Effect}

/-- What a worker takes along: a count, an answer made of the count, or a blob that
is not in the list any more. -/
theorem WorkerMove.phase_cases (h : WorkerMove prov s born p ev e) :
    e.phase.Plain ∨ (workerOp p ev = none ∧ e.phase = .listKeys s.keys.length) ∨
    (∃ n, p = .listKeys n ∧ e.phase = .reply (identitiesAnswer n s.keys)) ∨
    (∃ key, workerOp p ev = some (.removeIf key.blob) ∧ e.phase = .addKey key) := by
  cases h with
  | counted => exact .inr (.inl ⟨rfl, rfl⟩)
  | listed count => exact .inr (.inr (.inl ⟨count, rfl, rfl⟩))
  | replaced key => exact .inr (.inr (.inr ⟨key, rfl, rfl⟩))
  | dispatched message hl => exact .inl (dispatch_plain prov message)
  | refused message hl => exact .inl counted_failure
  | added key => exact .inl counted_success
  | removed blob => exact .inl counted_success
  | cleared => exact .inl counted_success
  | signed key data flags payload hs =>
    obtain ⟨blob, rfl⟩ := signWithPrivateKey_signResponse hs
    exact .inl (counted_signResponse blob)
  | skSigned key data attempt count der payload hs =>
    obtain ⟨blob, rfl⟩ := skSignResponse_signResponse hs
    exact .inl (counted_signResponse blob)
  | _ => exact .inl trivial

theorem WorkerMove.keys_eq (h : WorkerMove prov s born p ev e) : e.keys = ListOp.apply s.keys (workerOp p ev) := by
  cases h <;> rfl

theorem WorkerMove.sent_cases (h : WorkerMove prov s born p ev e) {payload : Bytes} (hp : e.sent = some payload) :
    p = .reply payload ∨ payload = [SSH_AGENT_FAILURE] := by
  cases h with
  | sent payload' => exact .inl (congrArg Phase.reply (Option.some.inj hp))
  | failureSent => exact .inr (Option.some.inj hp).symm
  | _ => cases hp

end Worker

/-- What a step does to the list, to what threads know of it, and to the answers. -/
structure ListStep (s : Server) (a : Action) (s' : Server) : Prop where
  keys : s'.keys = ListOp.apply s.keys (listOp s a)
  adding : ∀ t b, s'.adding t = some b →
    (s.adding t = some b ∧ a.actor ≠ some t) ∨ listOp s a = some (.removeIf b)
  counting : ∀ w n, (s'.conn w).phase = .listKeys n →
    (s.conn w).phase = .listKeys n ∨ (n = s.keys.length ∧ listOp s a = none)
  reply : ∀ w payload, (s'.conn w).phase = .reply payload → (s.conn w).phase = .reply payload ∨ Counted payload ∨
    ∃ n, (s.conn w).phase = .listKeys n ∧ payload = identitiesAnswer n s.keys
  sent : ∀ m ∈ s'.sent, m ∈ s.sent ∨ Counted m.2 ∨ (s.conn m.1).phase = .reply m.2

/-- Steps of other threads leave the workers alone, or start one. -/
theorem ListStep.of_asks {s s' : Server} {a : Action}
    (hphase : ∀ w, (s'.conn w).phase = (s.conn w).phase ∨ (s'.conn w).phase = .loop) (hsent : s'.sent = s.sent)
    (hkeys : s'.keys = ListOp.apply s.keys (listOp s a)) (hactor : ∀ w, a.actor ≠ some (.worker w))
    (hask : ∀ i b, s'.adding (.ask i) = some b →
      (s.adding (.ask i) = some b ∧ a.actor ≠ some (.ask i)) ∨ listOp s a = some (.removeIf b)) :
    ListStep s a s' := by
  refine ⟨hkeys, fun t b ht => ?_, fun w n hw => ?_, fun w payload hw => ?_, fun m hm => .inl (hsent ▸ hm)⟩
  · cases t with
    | worker w =>
      refine .inl ⟨?_, hactor w⟩
      obtain hsame | hloop := hphase w
      · rwa [Server.adding, hsame] at ht
      · rw [Server.adding, hloop] at ht
        cases ht
    | ask i => exact hask i b ht
  · obtain hsame | hloop := hphase w
    · exact .inl (hsame ▸ hw)
    · rw [hloop] at hw
      cases hw
  · obtain hsame | hloop := hphase w
    · exact .inl (hsame ▸ hw)
    · rw [hloop] at hw
      cases hw

theorem workerStep_list {prov : Provider} {s s' : Server} {w : ℕ} {ev : WorkerEvent}
    (hs : workerStep prov s w ev = some s') : ListStep s (.worker w ev) s' := by
  obtain ⟨e, he, rfl⟩ := workerStep_cases hs
  have hm := advance_move he
  have hself : ((s.commit w e).conn w).phase = e.phase := by simp [Server.commit]
  have hother : ∀ v, v ≠ w → ((s.commit w e).conn v).phase = (s.conn v).phase := fun v hv => by
    simp [Server.commit, hv]
  refine ⟨hm.keys_eq, fun t b ht => ?_, fun v n hv => ?_, fun v payload hv => ?_, fun m hmem => ?_⟩
  · cases t with
    | ask i => exact .inl ⟨ht, by simp [Action.actor]⟩
    | worker v =>
      by_cases hvw : v = w
      · subst hvw
        rw [Server.adding, hself] at ht
        obtain hplain | ⟨-, hp⟩ | ⟨n, -, hp⟩ | ⟨key, hop, hp⟩ := hm.phase_cases
        · cases hp : e.phase with
          | addKey key => exact absurd hplain (by simp [hp, Phase.Plain])
          | _ => simp [hp] at ht
        · simp [hp] at ht
        · simp [hp] at ht
        · rw [hp] at ht
          obtain rfl := Option.some.inj ht
          exact .inr hop
      · rw [Server.adding, hother v hvw] at ht
        exact .inl ⟨ht, by simpa [Action.actor] using Ne.symm hvw⟩
  · by_cases hvw : v = w
    · subst hvw
      rw [hself] at hv
      obtain hplain | ⟨hop, hp⟩ | ⟨n, -, hp⟩ | ⟨key, -, hp⟩ := hm.phase_cases
      · exact absurd hplain (by simp [hv, Phase.Plain])
      · exact .inr ⟨Phase.listKeys.inj (hv.symm.trans hp), hop⟩
      · cases hv.symm.trans hp
      · cases hv.symm.trans hp
    · exact .inl (hother v hvw ▸ hv)
  · by_cases hvw : v = w
    · subst hvw
      rw [hself] at hv
      obtain hplain | ⟨-, hp⟩ | ⟨n, hn, hp⟩ | ⟨key, -, hp⟩ := hm.phase_cases
      · exact .inr (.inl (by simpa [hv, Phase.Plain] using hplain))
      · cases hv.symm.trans hp
      · exact .inr (.inr ⟨n, hn, Phase.reply.inj (hv.symm.trans hp)⟩)
      · cases hv.symm.trans hp
    · exact .inl (hother v hvw ▸ hv)
  · obtain hold | ⟨payload, hp, rfl⟩ : m ∈ s.sent ∨ ∃ payload, e.sent = some payload ∧ (w, payload) = m := by
      simpa [Server.commit] using hmem
    · exact .inl hold
    · obtain hreply | rfl := hm.sent_cases hp
      · exact .inr (.inr hreply)
      · exact .inr (.inl counted_failure)

theorem step_list {prov : Provider} {s s' : Server} {a : Action} (hs : step prov s a = some s') : ListStep s a s' := by
  by_cases hw : ∃ w ev, a = .worker w ev
  · obtain ⟨w, ev, rfl⟩ := hw
    exact workerStep_list hs
  have hother : ∀ w ev, a ≠ .worker w ev := fun w ev h => hw ⟨w, ev, h⟩
  have hphase : ∀ w, (s'.conn w).phase = (s.conn w).phase ∨ (s'.conn w).phase = .loop := fun w =>
    (step_phase hother hs w).imp_right And.right
  have hsent := step_sent hother hs
  -- a step that is no ask's leaves the calls of `addAndroidSecurityKey` alone
  have hquiet : a.actor = none → s'.ask = s.ask → s'.keys = ListOp.apply s.keys (listOp s a) → ListStep s a s' := by
    intro hactor hask hkeys
    refine .of_asks hphase hsent hkeys (fun w => by simp [hactor]) fun i b hi => .inl ⟨?_, by simp [hactor]⟩
    rwa [Server.adding, hask] at hi
  cases a with
  | start bound => rcases step_start_cases hs with ⟨-, rfl⟩ | ⟨-, -, rfl⟩ | ⟨-, -, rfl⟩ <;> exact hquiet rfl rfl rfl
  | stop => obtain rfl := step_stop_eq hs; exact hquiet rfl rfl rfl
  | stopStep =>
    rcases stopStep_cases hs with ⟨hp, rfl⟩ | ⟨hp, rfl⟩ | ⟨hp, rfl⟩ <;>
      exact hquiet rfl rfl (by simp [listOp, hp, ListOp.apply])
  | setLocked locked => obtain rfl := Option.some.inj hs; exact hquiet rfl rfl rfl
  | accept i ev => rcases acceptStep_cases hs with ⟨p, -, rfl, -⟩ | ⟨k, -, rfl⟩ <;> exact hquiet rfl rfl rfl
  | worker w ev => exact absurd rfl (hother w ev)
  | ask key =>
    obtain rfl := Option.some.inj hs
    refine .of_asks hphase hsent rfl (fun w => by simp [Action.actor]) fun i b hi => .inl ⟨?_, by simp [Action.actor]⟩
    by_cases his : i = s.asks
    · subst his
      simp [Server.adding] at hi
    · simpa [Server.adding, his] using hi
  | askStep i =>
    rcases askStep_cases hs with ⟨key, born, hi, rfl⟩ | ⟨key, born, hi, rfl⟩
    · refine .of_asks hphase hsent (by simp [listOp, hi, askOp, ListOp.apply]) (fun w => by simp [Action.actor])
        fun j b hj => ?_
      by_cases hji : j = i
      · subst hji
        obtain rfl : key.blob = b := by simpa [Server.adding] using hj
        exact .inr (by simp [listOp, hi, askOp])
      · exact .inl ⟨by simpa [Server.adding, hji] using hj, by simpa [Action.actor] using Ne.symm hji⟩
    · refine .of_asks hphase hsent (by simp [listOp, hi, askOp, ListOp.apply]) (fun w => by simp [Action.actor])
        fun j b hj => ?_
      by_cases hji : j = i
      · subst hji
        simp [Server.adding] at hj
      · exact .inl ⟨by simpa [Server.adding, hji] using hj, by simpa [Action.actor] using Ne.symm hji⟩

/-- The thread that adds a key has removed the entries with its blob. -/
theorem listOp_add {s : Server} {a : Action} {key : StoredKey} (h : listOp s a = some (.add key)) :
    ∃ t, a.actor = some t ∧ s.adding t = some key.blob := by
  cases a with
  | worker w ev =>
    refine ⟨.worker w, rfl, ?_⟩
    change workerOp (s.conn w).phase ev = _ at h
    unfold workerOp at h
    split at h <;> cases h
    rename_i hp
    simp [Server.adding, hp]
  | askStep i =>
    refine ⟨.ask i, rfl, ?_⟩
    change askOp (s.ask i) = _ at h
    unfold askOp at h
    split at h <;> cases h
    rename_i hp
    simp [Server.adding, hp]
  | stopStep =>
    unfold listOp at h
    split_ifs at h
    cases h
  | _ => cases h

theorem Allocated.mem_threads {s : Server} (h : Allocated s) {t : Thread} {b : Bytes} (ht : s.adding t = some b) :
    t ∈ s.threads := by
  cases t with
  | worker w =>
    have hlt : w < s.conns := by
      by_contra hge
      simp [Server.adding, h.conn w (by omega)] at ht
    simp [Server.threads, hlt]
  | ask i =>
    have hlt : i < s.asks := by
      by_contra hge
      simp [Server.adding, h.ask i (by omega)] at ht
    simp [Server.threads, hlt]

/-- While a client has counted the list, no operation changes it. -/
theorem OpOk.apply_eq {s : Server} {actor : Option Thread} {op : Option ListOp} (h : OpOk s actor op)
    (hcounted : ¬ NoneCounted s) : ListOp.apply s.keys op = s.keys := by
  match op, h with
  | none, _ => rfl
  | some (.removeIf blob), h =>
    have hblob : blob ∉ s.keys.map StoredKey.blob := fun hmem => hcounted (h hmem)
    refine List.filter_eq_self.mpr fun key hkey => ?_
    simpa using fun heq : key.blob = blob => hblob (heq ▸ List.mem_map_of_mem hkey)
  | some (.add key), h => exact absurd h.1 hcounted
  | some .clear, h =>
    by_contra hne
    exact hcounted (h (Ne.symm hne))

/-- What holds of the list in every state. -/
structure Listed (s : Server) : Prop where
  nodup : (s.keys.map StoredKey.blob).Nodup
  removed : ∀ t b, s.adding t = some b → b ∉ s.keys.map StoredKey.blob
  counting : ∀ w n, (s.conn w).phase = .listKeys n → n = s.keys.length
  reply : ∀ w payload, (s.conn w).phase = .reply payload → Counted payload
  sent : ∀ m ∈ s.sent, Counted m.2

theorem mem_apply {keys : List StoredKey} {op : Option ListOp} {b : Bytes}
    (h : b ∈ (ListOp.apply keys op).map StoredKey.blob) :
    b ∈ keys.map StoredKey.blob ∨ ∃ key, op = some (.add key) ∧ key.blob = b := by
  obtain ⟨key, hkey, rfl⟩ := List.mem_map.mp h
  match op, hkey with
  | none, hkey => exact .inl (List.mem_map_of_mem hkey)
  | some (.removeIf blob), hkey => exact .inl (List.mem_map_of_mem (List.mem_filter.mp hkey).1)
  | some (.add added), hkey =>
    obtain hold | hnew := List.mem_append.mp hkey
    · exact .inl (List.mem_map_of_mem hold)
    · exact .inr ⟨added, rfl, by rw [List.mem_singleton.mp hnew]⟩
  | some .clear, hkey => cases hkey

theorem nodup_apply {keys : List StoredKey} {op : Option ListOp} (h : (keys.map StoredKey.blob).Nodup)
    (hadd : ∀ key, op = some (.add key) → key.blob ∉ keys.map StoredKey.blob) :
    ((ListOp.apply keys op).map StoredKey.blob).Nodup := by
  match op, hadd with
  | none, _ => exact h
  | some (.removeIf blob), _ => exact h.sublist (List.filter_sublist.map _)
  | some (.add key), hadd =>
    rw [ListOp.apply, List.map_append]
    exact h.append (List.nodup_singleton _) (List.disjoint_singleton.mpr (hadd key rfl))
  | some .clear, _ => exact List.nodup_nil

theorem step_listed {prov : Provider} {s s' : Server} {a : Action} (halloc : Allocated s) (h : Listed s)
    (hok : ListOk s a) (hs : step prov s a = some s') : Listed s' := by
  have hl := step_list hs
  refine ⟨?_, fun t b ht => ?_, fun w n hw => ?_, fun w payload hw => ?_, fun m hm => ?_⟩
  · rw [hl.keys]
    refine nodup_apply h.nodup fun key hop => ?_
    obtain ⟨t, -, ht⟩ := listOp_add hop
    exact h.removed t key.blob ht
  · rw [hl.keys]
    obtain ⟨hold, hactor⟩ | hop := hl.adding t b ht
    · intro hmem
      obtain hmem | ⟨key, hop, rfl⟩ := mem_apply hmem
      · exact h.removed t b hold hmem
      · -- another thread adds the blob that `t` has removed
        rw [ListOk, hop] at hok
        exact hactor (hok.2 t (halloc.mem_threads hold) hold)
    · rw [hop]
      simp [ListOp.apply, removeBlob]
  · obtain hold | ⟨rfl, hop⟩ := hl.counting w n hw
    · have hcounted : ¬ NoneCounted s := by
        intro hnone
        have hlt : w < s.conns := by
          by_contra hge
          rw [halloc.conn w (by omega)] at hold
          cases hold
        have hno := hnone w hlt
        rw [hold] at hno
        cases hno
      rw [hl.keys, OpOk.apply_eq hok hcounted]
      exact h.counting w n hold
    · rw [hl.keys, hop]
      rfl
  · obtain hold | hnew | ⟨n, hn, rfl⟩ := hl.reply w payload hw
    · exact h.reply w payload hold
    · exact hnew
    · rw [h.counting w n hn]
      exact fun _ => ⟨s.keys, rfl⟩
  · obtain hold | hnew | hreply := hl.sent m hm
    · exact h.sent m hold
    · exact hnew
    · exact h.reply m.1 m.2 hreply

theorem run_listed {prov : Provider} {counters : JString → ℤ} {acts : List Action} {s : Server}
    (h : Run (Server.init counters) (step prov) ListOk acts s) : Listed s := by
  induction h with
  | nil =>
    refine ⟨List.nodup_nil, fun t b ht => ?_, fun w n hw => ?_, fun w payload hw => ?_, fun m hm => ?_⟩
    · cases t <;> cases ht
    · cases hw
    · cases hw
    · cases hm
  | snoc hrun hok hs ih => exact step_listed (run_allocated hrun) ih hok hs

/-- In every run whose steps meet the condition, in every state: blobs are distinct
and every IDENTITIES_ANSWER written carries the number of its entries. -/
theorem listing_consistent (prov : Provider) (counters : JString → ℤ) (acts : List Action) (s : Server)
    (h : Run (Server.init counters) (step prov) ListOk acts s) :
    (s.keys.map StoredKey.blob).Nodup ∧ ∀ m ∈ s.sent, Counted m.2 :=
  ⟨(run_listed h).nodup, (run_listed h).sent⟩

/-- A client adds a key and lists the keys. -/
def addThenList : List Action :=
  connectOne ++ [Action.worker 0 (.recv addEd25519), .worker 0 .run, .worker 0 .run, .worker 0 .run,
    .worker 0 (.write true), .worker 0 .run, .worker 0 (.recv [SSH_AGENTC_REQUEST_IDENTITIES]), .worker 0 .run,
    .worker 0 .run, .worker 0 .run, .worker 0 (.write true)]

theorem listing_consistent_added : ∃ s, Run (Server.init fun _ => 0) (step laxProvider) ListOk addThenList s ∧
    (s.keys.length = 1 ∧ s.sent = [(0, [SSH_AGENT_SUCCESS]), (0, identitiesAnswer 1 s.keys)]) ∧
    (s.keys.map StoredKey.blob).Nodup ∧ ∀ m ∈ s.sent, Counted m.2 := by
  have hrun : ∃ s, Run (Server.init fun _ => 0) (step laxProvider) ListOk addThenList s ∧
      s.keys.length = 1 ∧ s.sent = [(0, [SSH_AGENT_SUCCESS]), (0, identitiesAnswer 1 s.keys)] :=
    exists_run_of_exec (by decide)
  obtain ⟨s, hrun, hkeys⟩ := hrun
  exact ⟨s, hrun, hkeys, listing_consistent _ _ _ _ hrun⟩

theorem not_counted_one : ¬ Counted (identitiesAnswer 1 []) := by
  intro h
  obtain ⟨keys, hkeys⟩ := h rfl
  cases keys with
  | nil => exact absurd hkeys (by decide)
  | cons key keys =>
    have hlen := congrArg List.length hkeys
    simp [identitiesAnswer, writeString] at hlen

def connectTwo : List Action :=
  connectOne ++ [Action.accept 0 .run, .accept 0 .run, .accept 0 (.accept true), .accept 0 .run, .worker 1 .run]

/-- Two clients add the same key: both remove, then both add. -/
def addTwice : List Action :=
  connectTwo ++ [Action.worker 0 (.recv addEd25519), .worker 1 (.recv addEd25519), .worker 0 .run, .worker 1 .run,
    .worker 0 .run, .worker 1 .run, .worker 0 .run, .worker 1 .run]

/-- One client counts a stored key, the other removes it before the iteration. -/
def clearWhileListing : List Action :=
  connectTwo ++ [Action.ask phoneKey, .askStep 0, .askStep 0,
    .worker 0 (.recv [SSH_AGENTC_REQUEST_IDENTITIES]), .worker 0 .run, .worker 0 .run,
    .worker 1 (.recv [SSH_AGENTC_REMOVE_ALL_IDENTITIES]), .worker 1 .run, .worker 1 .run,
    .worker 0 .run, .worker 0 (.write true)]

theorem clients_break_listing :
    (∃ s, Run (Server.init fun _ => 0) (step laxProvider) anyStep addTwice s ∧
      ¬ (s.keys.map StoredKey.blob).Nodup) ∧
    (∃ s, Run (Server.init fun _ => 0) (step laxProvider) anyStep clearWhileListing s ∧
      ∃ m ∈ s.sent, ¬ Counted m.2) := by
  refine ⟨exists_run_of_exec (by decide), ?_⟩
  have hrun : ∃ s, Run (Server.init fun _ => 0) (step laxProvider) anyStep clearWhileListing s ∧
      (0, identitiesAnswer 1 []) ∈ s.sent := exists_run_of_exec (by decide)
  obtain ⟨s, hrun, hsent⟩ := hrun
  exact ⟨s, hrun, _, hsent, not_counted_one⟩

end Tinyhack.Agent
