import TinyhackSsh.Proofs.AgentRequests
import TinyhackSsh.Spec.AgentMap

/-! The key list refines the map of identities, request by request, and the blob
under which an identity is listed is made of the public part that was sent. A key
that is there may still refuse to sign: plain `ssh-rsa` by design. -/

namespace Tinyhack.Agent

open Wire

/-- The list holds the entries of the map, in order. -/
def Represents (keys : List StoredKey) (m : IdentityMap) : Prop :=
  keys = m.entries.map fun e => e.2.stored e.1

section Represents

variable {keys : List StoredKey} {m : IdentityMap}

theorem Represents.erase (h : Represents keys m) (blob : Bytes) :
    Represents (removeBlob keys blob) (m.erase blob) := by
  rw [Represents, h, removeBlob, List.filter_map]
  rfl

/-- `removeIf` and `add` move the entry to the end. -/
theorem Represents.add (h : Represents keys m) (key : StoredKey) :
    Represents (removeBlob keys key.blob ++ [key]) ((m.erase key.blob).put key.blob key.identity) := by
  have hnone : (m.erase key.blob).get? key.blob = none := by simp [OrderedMap.get?_erase]
  rw [Represents, OrderedMap.entries_put_of_get?_eq_none hnone, List.map_append, ← h.erase key.blob]
  rfl

theorem Represents.find (h : Represents keys m) (blob : Bytes) :
    (keys.find? fun key => key.blob = blob) = (m.get? blob).map fun identity => identity.stored blob := by
  have hsame : (m.entries.find? ((fun key : StoredKey => decide (key.blob = blob)) ∘ fun e => e.2.stored e.1)) =
      m.entries.find? fun e => e.1 = blob := rfl
  rw [h, List.find?_map, hsame, OrderedMap.get?]
  cases hfind : m.entries.find? fun e => e.1 = blob with
  | none => rfl
  | some e =>
    obtain rfl : e.1 = blob := by simpa using List.find?_some hfind
    rfl

theorem Represents.listing (h : Represents keys m) : identitiesAnswer keys.length keys = m.listing := by
  rw [h, identitiesAnswer, IdentityMap.listing, List.flatMap_map, List.length_map]
  rfl

end Represents

/-- One request: the reply is the map's, and the list still represents the map. -/
theorem handleRequest_refines (prov : Provider) (outside : Outside) {store : Store} {m : IdentityMap}
    (h : Represents store.keys m) (message : Bytes) :
    (handleRequest prov outside store message).1 =
      m.reply prov outside store.counters (Request.ofMessage prov message) ∧
    Represents (handleRequest prov outside store message).2.keys (m.update (Request.ofMessage prov message)) ∧
    (handleRequest prov outside store message).2.counters =
      m.counters prov outside store.counters (Request.ofMessage prov message) := by
  unfold handleRequest Request.ofMessage
  dsimp only
  split_ifs
  · exact ⟨h.listing, h, rfl⟩
  · cases addIdentity prov message (message.headD 0 = SSH_AGENTC_ADD_ID_CONSTRAINED) with
    | none => exact ⟨rfl, h, rfl⟩
    | some key => exact ⟨rfl, h.add key, rfl⟩
  · cases parseRemove message with
    | none => exact ⟨rfl, h, rfl⟩
    | some blob => exact ⟨rfl, h.erase blob, rfl⟩
  · exact ⟨rfl, rfl, rfl⟩
  · unfold sign
    cases hparse : parseSign message with
    | none => exact ⟨rfl, h, rfl⟩
    | some args =>
      obtain ⟨blob, data, flags⟩ := args
      simp only [h.find blob, IdentityMap.reply, IdentityMap.counters, IdentityMap.update]
      cases m.get? blob with
      | none => exact ⟨rfl, h, rfl⟩
      | some identity => exact ⟨rfl, h, rfl⟩
  · exact ⟨rfl, h, rfl⟩

theorem handleRequests_refines (prov : Provider) (outside : ℕ → Outside) (messages : List Bytes) (k : ℕ)
    (store : Store) (m : IdentityMap) (h : Represents store.keys m) :
    (handleRequests prov outside k store messages).1 =
      (IdentityMap.run prov outside k m store.counters (messages.map (Request.ofMessage prov))).1 ∧
    Represents (handleRequests prov outside k store messages).2.keys
      (IdentityMap.run prov outside k m store.counters (messages.map (Request.ofMessage prov))).2 := by
  induction messages generalizing k store m with
  | nil => exact ⟨rfl, h⟩
  | cons message messages ih =>
    obtain ⟨hreply, hkeys, hcounters⟩ := handleRequest_refines prov (outside k) h message
    obtain ⟨hreplies, hfinal⟩ := ih (k + 1) (handleRequest prov (outside k) store message).2 _ hkeys
    rw [hcounters] at hreplies hfinal
    simp only [handleRequests, IdentityMap.run, List.map_cons]
    exact ⟨by rw [hreply, hreplies], hfinal⟩

/-! The public part. -/

theorem readString_eq_some {bs value rest : Bytes} (h : readString bs = some (value, rest)) :
    bs = writeString value ++ rest := by
  obtain ⟨⟨length, tail⟩, hread, hcut⟩ := Option.bind_eq_some_iff.mp h
  obtain ⟨rfl, -, -⟩ := readInt_eq_some hread
  dsimp only at hcut
  split_ifs at hcut with hbad
  obtain ⟨rfl, rfl⟩ := Prod.mk.inj (Option.some.inj hcut)
  obtain ⟨hneg, -, hlong⟩ : ¬ length < 0 ∧ ¬ length > MAX_MESSAGE_SIZE ∧ ¬ length > tail.length := by
    simpa [not_or] using hbad
  have hlen : (tail.take length.toNat).length = length.toNat := by
    rw [List.length_take]
    omega
  rw [writeString, hlen, Int.toNat_of_nonneg (by omega), List.append_assoc, List.take_append_drop]

theorem readStringUtf8_eq_some {bs rest : Bytes} {value : JString} (h : readStringUtf8 bs = some (value, rest)) :
    ∃ bytes, decodeUtf8 bytes = value ∧ bs = writeString bytes ++ rest := by
  obtain ⟨⟨bytes, tail⟩, hread, hval⟩ := Option.bind_eq_some_iff.mp h
  obtain ⟨rfl, rfl⟩ := Prod.mk.inj (Option.some.inj hval)
  exact ⟨bytes, rfl, readString_eq_some hread⟩

theorem readMpInt_eq_some {bs rest : Bytes} {n : ℤ} (h : readMpInt bs = some (n, rest)) :
    ∃ bytes, mpintValue bytes = n ∧ bs = writeString bytes ++ rest := by
  obtain ⟨⟨bytes, tail⟩, hread, hval⟩ := Option.bind_eq_some_iff.mp h
  obtain ⟨rfl, rfl⟩ := Prod.mk.inj (Option.some.inj hval)
  refine ⟨bytes, ?_, readString_eq_some hread⟩
  simp only [mpintValue, List.length_eq_zero_iff]

/-- `BigInteger.toByteArray` is the canonical `mpint`, but for zero. -/
theorem listedMpint_toByteArray (n : ℤ) : ListedMpint n (toByteArray n) := by
  refine ⟨fun hn => ⟨?_, fun bs hbs => ?_⟩, fun hn => by rw [hn]; decide⟩
  · have hne : toByteArray n ≠ [] := List.ne_nil_of_length_pos (by simp [toByteArray])
    rw [mpintValue, if_neg hne]
    exact ofByteArray_toByteArray n
  · have hne : bs ≠ [] := by
      rintro rfl
      exact hn hbs.symm
    rw [mpintValue, if_neg hne] at hbs
    rw [← hbs]
    exact length_toByteArray_le hne

/-- The blob of an added identity is the public part of the request. -/
theorem parseIdentity_publicPart {prov : Provider} {message rest : Bytes} {key : StoredKey}
    (h : parseIdentity prov message = some (key, rest)) : PublicPart message key.blob := by
  obtain ⟨⟨type, r₁⟩, htype, h⟩ := Option.bind_eq_some_iff.mp h
  obtain ⟨typeBytes, htypeBytes, hmessage⟩ := readStringUtf8_eq_some htype
  dsimp only at h
  split_ifs at h with hed hrsa
  · obtain ⟨⟨publicKey, r₂⟩, hpub, h⟩ := Option.bind_eq_some_iff.mp h
    obtain ⟨⟨priv, r₃⟩, -, h⟩ := Option.bind_eq_some_iff.mp h
    dsimp only at h
    split_ifs at h
    obtain ⟨⟨comment, r₄⟩, -, h⟩ := Option.bind_eq_some_iff.mp h
    obtain ⟨rfl, -⟩ := Prod.mk.inj (Option.some.inj h)
    refine .ed25519 typeBytes publicKey r₂ (htypeBytes.trans hed) ?_ (by rw [hed]; rfl)
    rw [hmessage, readString_eq_some hpub, List.append_assoc]
  · obtain ⟨⟨n, r₂⟩, hn, h⟩ := Option.bind_eq_some_iff.mp h
    obtain ⟨⟨e, r₃⟩, he, h⟩ := Option.bind_eq_some_iff.mp h
    obtain ⟨⟨d, r₄⟩, -, h⟩ := Option.bind_eq_some_iff.mp h
    obtain ⟨⟨iqmp, r₅⟩, -, h⟩ := Option.bind_eq_some_iff.mp h
    obtain ⟨⟨p, r₆⟩, -, h⟩ := Option.bind_eq_some_iff.mp h
    obtain ⟨⟨q, r₇⟩, -, h⟩ := Option.bind_eq_some_iff.mp h
    obtain ⟨⟨comment, r₈⟩, -, h⟩ := Option.bind_eq_some_iff.mp h
    dsimp only at h
    split_ifs at h
    obtain ⟨rfl, -⟩ := Prod.mk.inj (Option.some.inj h)
    obtain ⟨nSent, rfl, hnSent⟩ := readMpInt_eq_some hn
    obtain ⟨eSent, rfl, heSent⟩ := readMpInt_eq_some he
    refine .rsa typeBytes nSent eSent r₃ _ _ (htypeBytes.trans hrsa) ?_ (by rw [hrsa]; rfl)
      (listedMpint_toByteArray _) (listedMpint_toByteArray _)
    dsimp only at hnSent heSent
    rw [hmessage, hnSent, heSent]
    simp only [List.append_assoc]

theorem ofMessage_add {prov : Provider} {message blob : Bytes} {identity : Identity}
    (h : Request.ofMessage prov message = .add blob identity) : PublicPart message blob := by
  have hadd : ∃ key constrained, addIdentity prov message constrained = some key ∧ key.blob = blob := by
    unfold Request.ofMessage at h
    dsimp only at h
    split_ifs at h
    · cases hkey : addIdentity prov message (message.headD 0 = SSH_AGENTC_ADD_ID_CONSTRAINED) with
      | none =>
        rw [hkey] at h
        cases h
      | some key =>
        rw [hkey] at h
        exact ⟨key, _, hkey, (Request.add.inj h).1⟩
    · cases hblob : parseRemove message <;> simp [hblob] at h
    · cases hsign : parseSign message <;> simp [hsign] at h
  obtain ⟨key, constrained, hkey, rfl⟩ := hadd
  obtain ⟨⟨parsed, rest⟩, hparse, hend⟩ := Option.bind_eq_some_iff.mp hkey
  dsimp only at hend
  split_ifs at hend
  obtain rfl := Option.some.inj hend
  exact parseIdentity_publicPart hparse

/-! Signatures. -/

theorem skSignResponse_isSome {counter : ℤ} {der payload : Bytes} (h : skSignResponse counter der = some payload)
    (counter' : ℤ) : ∃ payload', skSignResponse counter' der = some payload' := by
  obtain ⟨ecdsaBlob, hblob, -⟩ := Option.bind_eq_some_iff.mp h
  exact ⟨_, by rw [skSignResponse, hblob]; rfl⟩

theorem signAttempts_isSome {outside : Outside} {key : StoredKey} {last : ℕ} {counter : ℤ} {der payload : Bytes}
    (hder : outside.keystore last = .signature der) (hpayload : skSignResponse counter der = some payload)
    (attempts attempt : ℕ) (counters : JString → ℤ) (hle : attempt ≤ last) (hlt : last < attempt + attempts)
    (hbefore : ∀ i, attempt ≤ i → i < last → outside.keystore i = .userNotAuthenticated) :
    ∃ payload', (signAttempts outside key attempts attempt counters).1 = some payload' := by
  induction attempts generalizing attempt counters with
  | zero => omega
  | succ attempts ih =>
    rw [signAttempts]
    obtain rfl | hne := hle.eq_or_lt
    · rw [hder]
      exact skSignResponse_isSome hpayload _
    · rw [hbefore attempt le_rfl hne]
      exact ih (attempt + 1) _ hne (by omega) fun i h₁ h₂ => hbefore i (by omega) h₂

section Signatures

variable {prov : Provider} {outside : Outside} {identity : Identity} {data payload : Bytes} {flags : ℤ}

theorem signedBy_of_signWith {blob : Bytes} {counters : JString → ℤ}
    (h : (signWith prov outside (identity.stored blob) data flags counters).1 = some payload) :
    SignedBy prov outside identity data flags payload := by
  unfold signWith signSecurityKey at h
  split_ifs at h with htype hauth
  · obtain ⟨last, counter, der, -, hlt, hbefore, hder, hpayload⟩ := signAttempts_eq_some 5 0 counters h
    exact .securityKey last counter der payload htype hauth (by omega) (fun i hi => hbefore i (by omega) hi) hder
      hpayload
  · obtain ⟨⟨sshAlgorithm, javaAlgorithm⟩, halg, h⟩ := Option.bind_eq_some_iff.mp h
    obtain ⟨privateKey, hkey, h⟩ := Option.bind_eq_some_iff.mp h
    obtain ⟨signature, hsig, h⟩ := Option.bind_eq_some_iff.mp h
    obtain rfl := Option.some.inj h
    exact .software sshAlgorithm javaAlgorithm privateKey signature halg hkey hsig

theorem SignedBy.signWith (h : SignedBy prov outside identity data flags payload) (blob : Bytes)
    (counters : JString → ℤ) :
    ∃ payload', (signWith prov outside (identity.stored blob) data flags counters).1 = some payload' := by
  cases h with
  | software sshAlgorithm javaAlgorithm privateKey signature halg hkey hsig =>
    have htype : (identity.stored blob).keyType ≠ .skEcdsa := by
      intro htype
      change identity.keyType = .skEcdsa at htype
      rw [htype] at halg
      cases halg
    rw [Agent.signWith, if_neg htype]
    refine ⟨signResponse (wireBlob sshAlgorithm signature), ?_⟩
    simp [signWithPrivateKey, Identity.stored, halg, hkey, hsig]
  | securityKey attempt counter der _ htype hauth hattempt hretry hder hpayload =>
    rw [Agent.signWith, if_pos (show (identity.stored blob).keyType = .skEcdsa from htype), signSecurityKey,
      if_pos hauth]
    exact signAttempts_isSome hder hpayload 5 0 counters (by omega) (by omega) fun i _ hi => hretry i hi

theorem reply_signAnswer (m : IdentityMap) (counters : JString → ℤ) (blob : Bytes) :
    SignAnswer prov outside m blob data flags (m.reply prov outside counters (.sign blob data flags)) := by
  rw [SignAnswer, IdentityMap.reply]
  cases m.get? blob with
  | none => rfl
  | some identity =>
    dsimp only
    cases hsign : (Agent.signWith prov outside (identity.stored blob) data flags counters).1 with
    | some payload => exact .inl (signedBy_of_signWith hsign)
    | none =>
      refine .inr ⟨rfl, fun payload hby => ?_⟩
      obtain ⟨payload', hpayload⟩ := hby.signWith blob counters
      rw [hsign] at hpayload
      cases hpayload

end Signatures

/-- A provider that accepts every key and signs with it. -/
def signingProvider : Provider := ⟨fun _ => true, fun _ _ data => some data⟩

def nobodyThere : ℕ → Outside := fun _ => ⟨false, fun _ => .failed⟩

/-- `e = 0`, `n = 6`, `p = 3`, `q = 2`. -/
def rsaZeroExponent : Bytes :=
  SSH_AGENTC_ADD_IDENTITY :: writeString (encodeUtf8 "ssh-rsa".toList) ++ writeString [6] ++ writeString [] ++
    writeString [1] ++ writeString [1] ++ writeString [3] ++ writeString [2] ++ writeString []

def rsaBlob (e : Bytes) : Bytes := writeString (encodeUtf8 "ssh-rsa".toList) ++ writeString e ++ writeString [6]

/-- A SIGN request without a SHA-2 flag. -/
def signPlainRsa : Bytes :=
  SSH_AGENTC_SIGN_REQUEST :: writeString (rsaBlob [0]) ++ writeString [1, 2, 3] ++ writeInt 0

end Tinyhack.Agent
