import TinyhackSsh.Proofs.NotificationQueue

/-! What is written to a PTY about notifications. The ids that a program chooses are
stored and sent back later, so that their alphabet is an invariant of the manager. -/

namespace Tinyhack.Notify

open Runs Wire

/-- One OSC 99 sequence, with printable ASCII between its ends. -/
def IsSequence (bytes : Bytes) : Prop :=
  ∃ interior, bytes = [0x1b, 0x5d, 0x39, 0x39, 0x3b] ++ interior ++ [0x1b, 0x5c] ∧ ∀ b ∈ interior, 0x20 ≤ b ∧ b ≤ 0x7e

def Printable (text : JString) : Prop := ∀ c ∈ text, 0x20 ≤ c.toNat ∧ c.toNat ≤ 0x7e

section Printable

variable {s t : JString}

theorem Printable.append (hs : Printable s) (ht : Printable t) : Printable (s ++ t) :=
  fun c hc => (List.mem_append.mp hc).elim (hs c) (ht c)

theorem Printable.cons {c : Char} (hc : 0x20 ≤ c.toNat ∧ c.toNat ≤ 0x7e) (ht : Printable t) : Printable (c :: t) :=
  fun d hd => (List.mem_cons.mp hd).elim (fun h => h ▸ hc) (ht d)

theorem printable_intercalate {ids : List JString} (h : ∀ id ∈ ids, Printable id) :
    Printable ([','].intercalate ids) := by
  induction ids with
  | nil => exact fun c hc => by cases hc
  | cons id rest ih =>
    have hid := h id (by simp)
    cases rest with
    | nil => simpa [List.intercalate] using hid
    | cons id' rest =>
      have hrest := ih fun x hx => h x (List.mem_cons_of_mem _ hx)
      have heq : [','].intercalate (id :: id' :: rest) = id ++ ',' :: [','].intercalate (id' :: rest) := by
        simp [List.intercalate]
      rw [heq]
      exact hid.append (.cons (by decide) hrest)

theorem printable_id {id : JString} (h : isValidId id = true) : Printable id := by
  intro c hc
  have hchar : isIdChar c = true := by
    simp only [isValidId, Bool.and_eq_true, List.all_eq_true] at h
    exact h.2 c hc
  simp only [isIdChar, isLetter, isDigit, Bool.or_eq_true, Bool.and_eq_true, decide_eq_true_eq] at hchar
  obtain (((((⟨h₁, h₂⟩ | ⟨h₁, h₂⟩) | ⟨h₁, h₂⟩) | rfl) | rfl) | rfl) | rfl := hchar
  · exact ⟨le_trans (by decide) h₁, le_trans h₂ (by decide)⟩
  · exact ⟨le_trans (by decide) h₁, le_trans h₂ (by decide)⟩
  · exact ⟨le_trans (by decide) h₁, le_trans h₂ (by decide)⟩
  all_goals decide

theorem encodeUtf8_printable (h : Printable s) : ∀ b ∈ encodeUtf8 s, (0x20 : UInt8) ≤ b ∧ b ≤ 0x7e := by
  intro b hb
  obtain ⟨c, hc, hb⟩ := List.mem_flatMap.mp hb
  obtain ⟨hlow, hhigh⟩ := h c hc
  rw [utf8EncodeChar_of_le (by omega), List.mem_singleton] at hb
  have hbyte : b.toNat = c.toNat := by
    rw [hb, UInt8.toNat_ofNat_of_lt' (by simp [UInt8.size]; omega)]
  rw [UInt8.le_iff_toNat_le, UInt8.le_iff_toNat_le, hbyte]
  exact ⟨hlow, hhigh⟩

theorem reply_interior (id operation payload last : JString) :
    "\x1b]99;i=".toList ++ id ++ operation ++ ';' :: payload ++ last =
      "\x1b]99;".toList ++ ('i' :: '=' :: id ++ operation ++ ';' :: payload) ++ last := by
  have hstart : "\x1b]99;i=".toList = "\x1b]99;".toList ++ ['i', '='] := by decide
  rw [hstart]
  generalize "\x1b]99;".toList = start
  simp only [List.append_assoc, List.cons_append, List.nil_append]

theorem isSequence_reply {id operation : Option JString} {payload : JString} (hid : ValidId id)
    (hoperation : ∀ x ∈ operation, Printable x) (hpayload : Printable payload) :
    IsSequence (encodeUtf8 (replyText id operation payload)) := by
  have hid' : Printable (id.getD "0".toList) := by
    cases id with
    | none => exact fun c hc => by obtain rfl := List.mem_singleton.mp hc; decide
    | some x => exact printable_id (hid x rfl)
  have hoperation' : Printable (operation.elim [] fun operation => ':' :: operation) := by
    cases operation with
    | none => exact fun c hc => by cases hc
    | some x => exact .cons (by decide) (hoperation x rfl)
  unfold replyText
  rw [reply_interior, encodeUtf8_append, encodeUtf8_append]
  refine ⟨_, rfl, encodeUtf8_printable ?_⟩
  exact ((Printable.cons (by decide) (.cons (by decide) hid')).append hoperation').append (.cons (by decide) hpayload)

end Printable

theorem printable_of_forall {text : JString} (h : text.all (fun c => 0x20 ≤ c.toNat && c.toNat ≤ 0x7e) = true) :
    Printable text := by
  intro c hc
  simpa using List.all_eq_true.mp h c hc

theorem capabilities_printable : Printable CAPABILITIES := by
  refine printable_of_forall ?_
  unfold CAPABILITIES
  rw [String.toList_ofList]
  decide

theorem isSequence_capabilityReply {metadata query : Bytes} (h : capabilityReply metadata = some query)
    (hne : 0 < query.length) : IsSequence query := by
  unfold capabilityReply at h
  split at h
  · cases h
  · split_ifs at h with htype hvalid
    · obtain rfl := Option.some.inj h
      cases hne
    · obtain rfl := Option.some.inj h
      refine isSequence_reply (fun x hx => ?_) (fun x hx => ?_) capabilities_printable
      · rw [Option.mem_def.mp hx] at hvalid
        simpa using hvalid
      · obtain rfl := Option.some.inj hx
        exact printable_of_forall (by decide)

/-- Ids that are stored are valid, and what was written are sequences. -/
structure Proper (m : Manager) : Prop where
  active : ∀ k e, m.active.get? k = some e → ValidId e.id
  tokens : ∀ t e, m.tokens.get? t = some e → ValidId e.id
  writes : ∀ session about bytes, .write session about bytes ∈ m.out → IsSequence bytes

section Moves

variable {m m' : Manager} {act : Action}

theorem Proper.emits (h : Proper m) {new : List Output} (hactive : m'.active = m.active)
    (htokens : m'.tokens = m.tokens)
    (hout : m'.out = m.out ++ new) (hnew : ∀ session about bytes, .write session about bytes ∈ new → IsSequence bytes) :
    Proper m' where
  active := hactive ▸ h.active
  tokens := htokens ▸ h.tokens
  writes := fun session about bytes hmem => by
    rw [hout] at hmem
    exact (List.mem_append.mp hmem).elim (h.writes session about bytes) (hnew session about bytes)

theorem reply_proper (h : Proper m) {id operation : Option JString} {payload : JString} (hid : ValidId id)
    (hoperation : ∀ x ∈ operation, Printable x) (hpayload : Printable payload) (env : Env) (session : ℕ)
    (about : Option ℕ) : Proper (m.reply env session id operation payload about) := by
  rw [reply_eq]
  refine h.emits rfl rfl rfl fun session' about' bytes hmem => ?_
  split_ifs at hmem
  · obtain ⟨-, -, rfl⟩ := Output.write.inj (List.mem_singleton.mp hmem)
    exact isSequence_reply hid hoperation hpayload
  · cases hmem

theorem printable_operation {operation : JString}
    (h : operation.all (fun c => 0x20 ≤ c.toNat && c.toNat ≤ 0x7e) = true) : ∀ x ∈ some operation, Printable x := by
  intro x hx
  obtain rfl := Option.some.inj hx
  exact printable_of_forall h

theorem aliveIds_printable (h : Proper m) (session : ℕ) : ∀ id ∈ m.aliveIds session, Printable id := by
  intro id hid
  obtain ⟨e, he, hid⟩ := List.mem_filterMap.mp hid
  obtain ⟨k, hk⟩ := mem_entries_iff.mp (List.mem_filter.mp he).1
  exact printable_id (h.active k e hk id hid)

theorem closeOutputs_writes {env : Env} {e : Entry} {report : Bool} {cause : Cause} (hid : ValidId e.id) {session : ℕ}
    {about : Option ℕ} {bytes : Bytes} (h : .write session about bytes ∈ m.closeOutputs env e report cause) :
    IsSequence bytes := by
  have hbytes : bytes = encodeUtf8 (replyText e.id (some "p=close".toList) []) := by
    unfold Manager.closeOutputs at h
    generalize encodeUtf8 (replyText e.id (some "p=close".toList) []) = reply at h ⊢
    split_ifs at h <;> simp at h
    · exact h.2.2
    · exact h.2.2
  rw [hbytes]
  exact isSequence_reply hid (printable_operation (by decide)) fun c hc => by cases hc

theorem move_proper (hmove : Move act m m') (h : Proper m) : Proper m' := by
  cases hmove with
  | quiet hquiet =>
    cases hquiet with
    | rate | dropRates | sweepFlags | dropTimers | destroyed | notPosted => exact ⟨h.active, h.tokens, h.writes⟩
    | query session payload request haccepted =>
      exact reply_proper h haccepted.validId (printable_operation (by decide)) capabilities_printable _ _ _
    | alive session payload request haccepted =>
      exact reply_proper h haccepted.validId (printable_operation (by decide))
        (printable_intercalate (aliveIds_printable h session)) _ _ _
    | activated e token he =>
      exact reply_proper h (h.tokens token e he) (fun x hx => by cases hx) (fun c hc => by cases hc) _ _ _
    | close e cause =>
      by_cases hlive : m.tokens.get? e.token = some e
      · have hid := h.tokens _ _ hlive
        rw [close_live hlive]
        refine ⟨fun k e' he' => h.active k e' (OrderedMap.get?_of_erase he'),
          fun t e' he' => h.tokens t e' (OrderedMap.get?_of_erase he'), fun session about bytes hmem => ?_⟩
        rcases List.mem_append.mp hmem with hmem | hmem
        · exact h.writes session about bytes hmem
        · exact closeOutputs_writes hid hmem
      · rw [close_stale hlive]
        exact h
    | posted payload request a content nextId e haccepted hid he =>
      have hvalid : ValidId e.id := by
        have heq : e.id = request.id := by
          rw [he, ← hid]
          rfl
        exact heq ▸ haccepted.validId
      have hput : ∀ {κ : Type} [DecidableEq κ] {map map' : OrderedMap κ Entry} {k : κ},
          (∀ k e, map.get? k = some e → ValidId e.id) → (∀ k e, map'.get? k = some e → map.get? k = some e) →
          ∀ k' e', (map'.put k e).get? k' = some e' → ValidId e'.id := by
        intro κ _ map map' k hmap hsub k' e' he'
        rw [OrderedMap.get?_put] at he'
        split_ifs at he'
        · exact Option.some.inj he' ▸ hvalid
        · exact hmap k' e' (hsub k' e' he')
      rw [register_eq]
      generalize m.active.get? (m.postKey a) = previous
      cases previous with
      | none =>
        refine ⟨hput h.active fun _ _ => id, hput h.tokens fun _ _ => id, fun session about bytes hmem => ?_⟩
        exact h.writes session about bytes (by simpa [Manager.emit] using hmem)
      | some old =>
        refine ⟨hput h.active fun _ _ => OrderedMap.get?_of_erase, hput h.tokens fun _ _ => OrderedMap.get?_of_erase,
          fun session about bytes hmem => ?_⟩
        exact h.writes session about bytes (by simpa [Manager.emit] using hmem)
  | dropPending | putPending => exact ⟨h.active, h.tokens, h.writes⟩
  | submit => exact h.emits rfl rfl rfl fun _ _ _ hmem => by simp at hmem

end Moves

theorem new_proper (platform : Bool) : Proper (Manager.new platform) :=
  ⟨fun k e h => (by cases h), fun t e h => (by cases h), fun session about bytes h => (by cases h)⟩

theorem capabilityReply_of_reply {s : System} {session : ℕ} {metadata payload query : Bytes} {jni : Bool}
    (h : s.onKittyNotification session metadata payload jni = .reply query) :
    capabilityReply metadata = some query := by
  unfold System.onKittyNotification TerminalSession.onKittyNotification at h
  cases hquery : capabilityReply metadata with
  | none =>
    rw [hquery] at h
    dsimp only at h
    split_ifs at h
  | some query' =>
    rw [hquery] at h
    dsimp only at h
    split_ifs at h
    exact congrArg some (Answer.reply.inj h)

/-- The replies of the native callback. -/
theorem deliver_pty {s : System} {session : ℕ} {metadata payload : Bytes} {jni writable : Bool}
    (h : ∀ x bytes, (x, bytes) ∈ s.pty → IsSequence bytes) (x : ℕ) (bytes : Bytes)
    (hmem : (x, bytes) ∈ (s.deliver session metadata payload jni writable).pty) : IsSequence bytes := by
  unfold System.deliver at hmem
  dsimp only at hmem
  cases hanswer : s.onKittyNotification session metadata payload jni with
  | dropped | queued =>
    rw [hanswer] at hmem
    exact h x bytes hmem
  | reply query =>
    rw [hanswer] at hmem
    dsimp only at hmem
    split_ifs at hmem with hlength
    · rcases List.mem_append.mp hmem with hmem | hmem
      · exact h x bytes hmem
      · obtain ⟨-, rfl⟩ := Prod.mk.inj (List.mem_singleton.mp hmem)
        simp only [Bool.and_eq_true, decide_eq_true_eq] at hlength
        exact isSequence_capabilityReply (capabilityReply_of_reply hanswer) hlength.1.1
    · exact h x bytes hmem

theorem step_pty {s s' : System} {act : SystemAction} (hs : s.step act = some s')
    (h : ∀ x bytes, (x, bytes) ∈ s.pty → IsSequence bytes) : ∀ x bytes, (x, bytes) ∈ s'.pty → IsSequence bytes := by
  cases step_systemMove hs with
  | aside | cleanup | request | own => exact h
  | osc => exact deliver_pty h

/-- Whatever programs send and whatever happens in between, all that is written to a PTY
about notifications are OSC 99 sequences without control bytes inside. -/
theorem replies_are_sequences (platform : Bool) (enabled : ℕ → Bool) (acts : List SystemAction) (s : System)
    (hrun : Run (System.new platform enabled) System.step anyStep acts s) :
    (∀ session bytes, (session, bytes) ∈ s.pty → IsSequence bytes) ∧
    ∀ session about bytes, .write session about bytes ∈ s.manager.out → IsSequence bytes := by
  refine ⟨?_, ?_⟩
  · exact hrun.inv (fun s => ∀ x bytes, (x, bytes) ∈ s.pty → IsSequence bytes) (fun _ _ h => by cases h)
      fun s act s' h _ hs => step_pty hs h
  · obtain ⟨macts, hmanager⟩ := run_manager hrun
    exact (run_inv_of_moves Proper (new_proper platform) (fun _ _ _ => move_proper) hmanager).writes

/-- A query is answered at once; then a notification is posted and asked for. -/
def queries : List SystemAction :=
  [SystemAction.started 0, .listed 0, .osc 0 (ascii "i=q:p=?") [] true true,
    .osc 0 (ascii "i=x") (ascii "Hi") true true, .osc 0 (ascii "i=y:p=alive") [] true true,
    .looper (calmEnv 0), .looper (calmEnv 0)]

theorem replies_are_sequences_queries : ∃ s, Run (System.new true fun _ => true) System.step anyStep queries s ∧
    (∃ bytes, (0, bytes) ∈ s.pty ∧ IsSequence bytes) ∧
    ∃ bytes, .write 0 none bytes ∈ s.manager.out ∧ IsSequence bytes := by
  have hrun : ∃ s, Run (System.new true fun _ => true) System.step anyStep queries s ∧
      (∃ p ∈ s.pty, p.1 = 0) ∧ .write 0 none (ascii "\x1b]99;i=y:p=alive;x\x1b\\") ∈ s.manager.out :=
    exists_run_of_exec (by set_option maxRecDepth 1000 in decide)
  obtain ⟨s, hrun, ⟨⟨x, bytes⟩, hmem, rfl⟩, hwrite⟩ := hrun
  have hmain := replies_are_sequences true _ _ s hrun
  exact ⟨s, hrun, ⟨bytes, hmem, hmain.1 0 bytes hmem⟩, _, hwrite, hmain.2 0 none _ hwrite⟩

end Tinyhack.Notify
