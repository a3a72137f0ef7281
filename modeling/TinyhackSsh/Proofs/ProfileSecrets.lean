import TinyhackSsh.Spec.Profiles
import TinyhackSsh.Proofs.Utf8

/-! What an operation of the manager does to the secrets of the profiles it is
not about. The whole list is decrypted and encrypted again; a Keystore call that
fails on the way stores "no password" for the secret it was made for, and for
that secret only. -/

namespace Tinyhack.Profiles

open Wire

theorem splitColon_encode (first second : Bytes) :
    splitColon (Base64.encode first ++ ':' :: Base64.encode second) =
      some (Base64.encode first, Base64.encode second) := by
  have hne : ∀ c ∈ Base64.encode first, decide (c ≠ ':') = true := by
    intro c hc
    have hcolon := Base64.colon_notMem_encode first
    simp only [decide_eq_true_eq]
    rintro rfl
    exact hcolon hc
  have hdrop : (Base64.encode first ++ ':' :: Base64.encode second).dropWhile (fun c => decide (c ≠ ':')) =
      ':' :: Base64.encode second := by
    rw [List.dropWhile_append_of_pos hne]
    rfl
  have htake : (Base64.encode first ++ ':' :: Base64.encode second).takeWhile (fun c => decide (c ≠ ':')) =
      Base64.encode first := by
    rw [List.takeWhile_append_of_pos hne]
    simp
  unfold splitColon
  rw [hdrop, htake]

/-- A working Keystore decrypts what `encrypt` stored. -/
theorem decrypt_encrypt {plat : Platform} {call : EncryptCall} {plain e : JString}
    (h : encrypt plat call (some plain) = some e) : decrypt plat false e = some plain := by
  simp only [encrypt] at h
  split_ifs at h
  obtain rfl := Option.some.inj h
  have hpre : isEncrypted (PREFIX ++ Base64.encode call.iv ++ ':' ::
      Base64.encode (plat.gcmEncrypt call.iv (encodeUtf8 plain))) = true := by
    rw [isEncrypted, List.append_assoc]
    simp
  simp only [decrypt, hpre]
  rw [List.append_assoc, List.drop_left]
  simp [splitColon_encode, Base64.decode_encode, call.iv.2, plat.gcmDecrypt_gcmEncrypt, decodeUtf8_encodeUtf8]

/-- The field names of a secret: encrypted, and legacy plain text. -/
def Secret.encName : Secret → String
  | .password => "passwordEnc"
  | .serviceToken => "cloudflaredServiceTokenSecretEnc"

def Secret.plainName : Secret → String
  | .password => "password"
  | .serviceToken => "cloudflaredServiceTokenSecret"

theorem secret_fromJson (plat : Platform) (call : LoadCall) (o : JObject) (f : Secret) :
    (fromJson plat call o).secret f = optSecret plat (call.fails f) o f.encName f.plainName := by
  cases f <;> rfl

/-- The secret a stored object holds, read with a working Keystore. -/
def storedSecret (plat : Platform) (o : JObject) (f : Secret) : Option JString :=
  optSecret plat false o f.encName f.plainName

def storedEncrypted (o : JObject) (f : Secret) : Bool := !(optString o f.encName []).isEmpty

theorem decrypt_fails (plat : Platform) (value : JString) : decrypt plat true value = none := by
  unfold decrypt
  split_ifs
  · rfl
  · cases splitColon (value.drop PREFIX.length) with
    | none => rfl
    | some parts => cases Base64.decode parts.1 <;> cases Base64.decode parts.2 <;> simp

/-- Loading with a failing Keystore loses the secrets stored encrypted. -/
theorem secret_fromJson_eq (plat : Platform) (call : LoadCall) (o : JObject) (f : Secret) :
    (fromJson plat call o).secret f =
      if storedEncrypted o f && call.fails f then none else storedSecret plat o f := by
  rw [secret_fromJson]
  unfold storedSecret storedEncrypted optSecret
  cases hempty : (optString o f.encName []).isEmpty with
  | true => simp [hempty]
  | false => cases call.fails f <;> simp [hempty, decrypt_fails]

theorem encName_toJson (plat : Platform) (calls : Secret → EncryptCall) (p : ConnectionProfile) (f : Secret) :
    optString (toJson plat calls p) f.encName [] = (encrypt plat (calls f) (p.secret f)).getD [] := by
  cases f <;> rfl

theorem plainName_toJson (plat : Platform) (calls : Secret → EncryptCall) (p : ConnectionProfile) (f : Secret) :
    optNonEmpty (toJson plat calls p) f.plainName = none := by
  cases f <;> rfl

theorem encrypt_ne_nil {plat : Platform} {call : EncryptCall} {plain : Option JString} {e : JString}
    (h : encrypt plat call plain = some e) : e.isEmpty = false := by
  cases plain with
  | none => cases h
  | some plain =>
    simp only [encrypt] at h
    split_ifs at h
    obtain rfl := Option.some.inj h
    rfl

/-- Saving with a failing Keystore loses the secret; with a working one only the
empty secret becomes "no secret". -/
theorem storedSecret_toJson (plat : Platform) (calls : Secret → EncryptCall) (p : ConnectionProfile) (f : Secret) :
    storedSecret plat (toJson plat calls p) f =
      if (calls f).fails then none else (p.secret f).filter fun v => !v.isEmpty := by
  unfold storedSecret optSecret
  rw [encName_toJson, plainName_toJson]
  cases hp : p.secret f with
  | none => simp [encrypt]
  | some plain =>
    cases he : encrypt plat (calls f) (some plain) with
    | some e =>
      have hok : plain.isEmpty = false ∧ (calls f).fails = false := by
        simp only [encrypt] at he
        split_ifs at he with hbad
        simpa using hbad
      simp [encrypt_ne_nil he, decrypt_encrypt he, hok.1, hok.2, Option.filter]
    | none =>
      have hbad : plain.isEmpty = true ∨ (calls f).fails = true := by
        simp only [encrypt] at he
        split_ifs at he with hbad
        simpa using hbad
      rcases hbad with hbad | hbad <;> simp [hbad, Option.filter]

/-! The list on its way through load, change and save. -/

theorem objects_mapIdx {β : Type*} (l : List β) (g : ℕ → β → JObject) :
    objects (l.mapIdx fun i x => .object (g i x)) = some (l.mapIdx g) := by
  induction l generalizing g with
  | nil => rfl
  | cons x l ih =>
    simp only [List.mapIdx_cons, objects]
    rw [ih fun i x => g (i + 1) x]
    rfl

theorem objects_saveProfiles (plat : Platform) (call : SaveCall) (profiles : List ConnectionProfile) :
    (saveProfiles plat call profiles).objects = some (profiles.mapIdx fun i p => toJson plat (call.encrypts i) p) :=
  objects_mapIdx profiles fun i p => toJson plat (call.encrypts i) p

inductive Op
  | add (profile : ConnectionProfile)
  | update (profile : ConnectionProfile)
  | delete (id : JString)

def Op.run (plat : Platform) (call : OpCall) (st : Store) : Op → Store
  | .add profile => addProfile plat call profile st
  | .update profile => updateProfile plat call profile st
  | .delete id => (deleteProfile plat call id st).2

/-- The ids the stored objects are loaded with. -/
def loadedIds (call : OpCall) (objs : List JObject) : List JString :=
  objs.mapIdx fun i o => optString o "id" (call.load i).uuid

/-- The position the operation is about. -/
def Op.target (ids : List JString) : Op → Option ℕ
  | .add _ => none
  | .update profile => ids.findIdx? fun id => id = profile.id
  | .delete id => ids.findIdx? fun id' => id' = id

/-- Where another profile stands afterwards. -/
def Op.newIndex (ids : List JString) (op : Op) (i : ℕ) : Option ℕ :=
  match op.target ids with
  | none => some i
  | some k =>
    if i = k then none
    else match op with
      | .delete _ => some (if i < k then i else i - 1)
      | _ => some i

def Op.saves (ids : List JString) : Op → Bool
  | .delete id => (ids.findIdx? fun id' => id' = id).isSome
  | _ => true

def loaded (plat : Platform) (call : OpCall) (objs : List JObject) : List ConnectionProfile :=
  objs.mapIdx fun i o => fromJson plat (call.load i) o

theorem loadProfiles_of_objects {plat : Platform} {call : OpCall} {st : Store} {objs : List JObject} {i : ℕ}
    {o : JObject} (h : st.objects = some objs) (ho : objs[i]? = some o) :
    loadProfiles plat call st = (loaded plat call objs, st) := by
  cases objs with
  | nil => simp at ho
  | cons o os => simp [loadProfiles, h, loaded]

theorem loadedIds_eq (plat : Platform) (call : OpCall) (objs : List JObject) :
    loadedIds call objs = (loaded plat call objs).map ConnectionProfile.id := by
  apply List.ext_getElem?
  intro i
  simp only [loadedIds, loaded, List.getElem?_mapIdx, List.getElem?_map, Option.map_map]
  rfl

theorem findIdx_loaded (plat : Platform) (call : OpCall) (objs : List JObject) (id : JString) :
    (loaded plat call objs).findIdx? (fun p => p.id = id) = (loadedIds call objs).findIdx? fun id' => id' = id := by
  rw [loadedIds_eq plat, List.findIdx?_map]
  rfl

theorem getElem?_loaded {plat : Platform} {call : OpCall} {objs : List JObject} {i : ℕ} {o : JObject}
    (ho : objs[i]? = some o) : (loaded plat call objs)[i]? = some (fromJson plat (call.load i) o) := by
  simp [loaded, ho]

/-- The secret of a profile at `i` after it was loaded from `o` and saved at `j`. -/
def secretAfter (plat : Platform) (call : OpCall) (i j : ℕ) (o : JObject) (f : Secret) : Option JString :=
  if (storedEncrypted o f && (call.load i).fails f) || (call.save.encrypts j f).fails then none
  else (storedSecret plat o f).filter fun v => !v.isEmpty

theorem secretAfter_eq (plat : Platform) (call : OpCall) (i j : ℕ) (o : JObject) (f : Secret) :
    storedSecret plat (toJson plat (call.save.encrypts j) (fromJson plat (call.load i) o)) f =
      secretAfter plat call i j o f := by
  rw [storedSecret_toJson, secret_fromJson_eq, secretAfter]
  cases (call.save.encrypts j f).fails with
  | true => simp
  | false => cases storedEncrypted o f && (call.load i).fails f <;> simp

/-- Saving a list that has the loaded profile at `j`. -/
theorem saved_secret {plat : Platform} {call : OpCall} {list : List ConnectionProfile} {i j : ℕ} {o : JObject}
    (hj : list[j]? = some (fromJson plat (call.load i) o)) :
    ∃ objs' o', (saveProfiles plat call.save list).objects = some objs' ∧ objs'[j]? = some o' ∧
      ∀ f, storedSecret plat o' f = secretAfter plat call i j o f := by
  refine ⟨_, _, objects_saveProfiles plat call.save list, ?_, secretAfter_eq plat call i j o⟩
  simp [hj]

private theorem getElem?_eraseIdx_shift {β : Type*} (l : List β) {i k : ℕ} (h : i ≠ k) :
    (l.eraseIdx k)[if i < k then i else i - 1]? = l[i]? := by
  rw [List.getElem?_eraseIdx]
  by_cases hlt : i < k
  · simp [hlt]
  · have hge : ¬ i - 1 < k := by omega
    rw [if_neg hlt, if_neg hge, show i - 1 + 1 = i by omega]

section Operations

variable {plat : Platform} {call : OpCall} {st : Store} {objs : List JObject} {i j : ℕ} {o : JObject}

theorem update_list {profile : ConnectionProfile}
    (hi : (loaded plat call objs)[i]? = some (fromJson plat (call.load i) o))
    (happend : (loaded plat call objs ++ [profile])[i]? = some (fromJson plat (call.load i) o))
    (hload : loadProfiles plat call st = (loaded plat call objs, st))
    (hj : (Op.update profile).newIndex (loadedIds call objs) i = some j) :
    ∃ list, (Op.update profile).run plat call st = saveProfiles plat call.save list ∧
      list[j]? = some (fromJson plat (call.load i) o) := by
  simp only [Op.run, updateProfile, hload, findIdx_loaded]
  simp only [Op.newIndex, Op.target] at hj
  cases hk : (loadedIds call objs).findIdx? fun id => id = profile.id with
  | none =>
    simp only [hk, Option.some.injEq] at hj
    subst hj
    exact ⟨_, rfl, happend⟩
  | some k =>
    simp only [hk] at hj
    split_ifs at hj with hik
    obtain rfl := Option.some.inj hj
    refine ⟨_, rfl, ?_⟩
    rw [List.getElem?_set_ne (Ne.symm hik), hi]

theorem delete_list {id : JString} {k : ℕ} (hi : (loaded plat call objs)[i]? = some (fromJson plat (call.load i) o))
    (hload : loadProfiles plat call st = (loaded plat call objs, st))
    (hk : ((loadedIds call objs).findIdx? fun id' => id' = id) = some k)
    (hj : (Op.delete id).newIndex (loadedIds call objs) i = some j) :
    ∃ list, (Op.delete id).run plat call st = saveProfiles plat call.save list ∧
      list[j]? = some (fromJson plat (call.load i) o) := by
  simp only [Op.newIndex, Op.target, hk] at hj
  have hik : i ≠ k := by
    rintro rfl
    simp at hj
  rw [if_neg hik] at hj
  obtain rfl := Option.some.inj hj
  have herase := (getElem?_eraseIdx_shift (loaded plat call objs) hik).trans hi
  -- profile `i` is left, so the defaults are not saved in place of an empty list
  have hne : ((loaded plat call objs).eraseIdx k).isEmpty = false := by
    cases hl : (loaded plat call objs).eraseIdx k with
    | nil => simp [hl] at herase
    | cons => rfl
  exact ⟨_, by simp [Op.run, deleteProfile, hload, findIdx_loaded, hk, hne], herase⟩

/-- An operation leaves the store alone, or saves a list with the loaded profile at its new index. -/
theorem run_cases (plat : Platform) {op : Op} (hst : st.objects = some objs) (ho : objs[i]? = some o)
    (hj : op.newIndex (loadedIds call objs) i = some j) :
    (op.saves (loadedIds call objs) = false ∧ op.run plat call st = st ∧ j = i) ∨
    (op.saves (loadedIds call objs) = true ∧ ∃ list, op.run plat call st = saveProfiles plat call.save list ∧
      list[j]? = some (fromJson plat (call.load i) o)) := by
  have hload : loadProfiles plat call st = (loaded plat call objs, st) := loadProfiles_of_objects hst ho
  have hi : (loaded plat call objs)[i]? = some (fromJson plat (call.load i) o) := getElem?_loaded ho
  have happend : ∀ p, (loaded plat call objs ++ [p])[i]? = some (fromJson plat (call.load i) o) := by
    intro p
    rw [List.getElem?_append_left (List.getElem?_eq_some_iff.mp hi).1, hi]
  cases op with
  | add profile =>
    obtain rfl : i = j := Option.some.inj hj
    exact Or.inr ⟨rfl, _, by simp [Op.run, addProfile, hload], happend profile⟩
  | update profile => exact Or.inr ⟨rfl, update_list hi (happend profile) hload hj⟩
  | delete id =>
    cases hk : (loadedIds call objs).findIdx? fun id' => id' = id with
    | none =>
      simp only [Op.newIndex, Op.target, hk, Option.some.injEq] at hj
      refine Or.inl ⟨by simp [Op.saves, hk], ?_, hj.symm⟩
      simp [Op.run, deleteProfile, hload, findIdx_loaded, hk]
    | some k => exact Or.inr ⟨by simp [Op.saves, hk], delete_list hi hload hk hj⟩

end Operations

/-- After an operation a profile it was not about holds the secrets it held before,
except those whose own decryption or encryption failed: they are gone. Nothing
else is lost by a failing Keystore. -/
theorem other_secrets (plat : Platform) (call : OpCall) (op : Op) (st : Store) (objs : List JObject)
    (i j : ℕ) (o : JObject) (hst : st.objects = some objs) (ho : objs[i]? = some o)
    (hj : op.newIndex (loadedIds call objs) i = some j) :
    ∃ objs' o', (op.run plat call st).objects = some objs' ∧ objs'[j]? = some o' ∧
      ∀ f, storedSecret plat o' f =
        if op.saves (loadedIds call objs) then secretAfter plat call i j o f else storedSecret plat o f := by
  rcases run_cases plat hst ho hj with ⟨hsaves, hrun, rfl⟩ | ⟨hsaves, list, hrun, hlist⟩
  · exact ⟨objs, o, by rw [hrun, hst], ho, fun f => by simp [hsaves]⟩
  · rw [hrun]
    simp only [hsaves, if_true]
    exact saved_secret hlist

/-- A key stream of zeros, with the 16 bytes of the tag. -/
def samplePlatform : Platform where
  gcmEncrypt _ plain := plain ++ List.replicate 16 0
  gcmDecrypt _ ct := if 16 ≤ ct.length then some (ct.take (ct.length - 16)) else none
  gcmDecrypt_gcmEncrypt := by simp
  parseInt _ := none
  parseLong _ := none

def sampleEncrypt (fails : Bool) : EncryptCall := ⟨fails, List.replicate 12 7, rfl⟩

def sampleSave : SaveCall := ⟨fun _ _ => sampleEncrypt false, none⟩

/-- All calls succeed except, if `fails`, the decryptions. -/
def sampleCall (fails : Bool) : OpCall where
  load _ := ⟨fun _ => fails, [], 0, 0⟩
  loadDefaults := ⟨[], 0, sampleSave⟩
  touchNow := 0
  save := sampleSave
  deleteDefaults := ⟨[], 0, sampleSave⟩

def profileA : ConnectionProfile := newProfile "a".toList "A".toList .SSH 0

def profileB : ConnectionProfile := { newProfile "b".toList "B".toList .SSH 0 with password := some "pw".toList }

def objectOf (p : ConnectionProfile) : JObject := toJson samplePlatform (fun _ => sampleEncrypt false) p

def sampleStore : Store := ⟨some (.array [.object (objectOf profileA), .object (objectOf profileB)]), none⟩

theorem objectOf_profileB : storedSecret samplePlatform (objectOf profileB) .password = some "pw".toList := by
  rw [objectOf, storedSecret_toJson]
  rfl

/-- Deleting the first profile keeps the password of the second. -/
theorem other_secrets_delete : ∃ objs' o',
    ((Op.delete "a".toList).run samplePlatform (sampleCall false) sampleStore).objects = some objs' ∧
    objs'[0]? = some o' ∧ storedSecret samplePlatform o' .password = some "pw".toList := by
  obtain ⟨objs', o', hobjs, ho', hsecret⟩ := other_secrets samplePlatform (sampleCall false) (.delete "a".toList)
    sampleStore [objectOf profileA, objectOf profileB] 1 0 (objectOf profileB) rfl rfl (by decide)
  refine ⟨objs', o', hobjs, ho', ?_⟩
  rw [hsecret, secretAfter, objectOf_profileB]
  decide

/-- Adding a profile while the Keystore does not decrypt loses the password of another. -/
theorem add_loses_other_password :
    sampleStore.objects = some [objectOf profileA, objectOf profileB] ∧
    storedSecret samplePlatform (objectOf profileB) .password = some "pw".toList ∧
    ∃ objs' o', ((Op.add profileA).run samplePlatform (sampleCall true) sampleStore).objects = some objs' ∧
      objs'[1]? = some o' ∧ storedSecret samplePlatform o' .password = none := by
  refine ⟨rfl, objectOf_profileB, ?_⟩
  have hsaved : ∃ objs' o', (saveProfiles samplePlatform (sampleCall true).save
      (loaded samplePlatform (sampleCall true) [objectOf profileA, objectOf profileB] ++ [profileA])).objects =
        some objs' ∧ objs'[1]? = some o' ∧
      ∀ f, storedSecret samplePlatform o' f =
        secretAfter samplePlatform (sampleCall true) 1 1 (objectOf profileB) f := saved_secret rfl
  obtain ⟨objs', o', hobjs, ho', hsecret⟩ := hsaved
  refine ⟨objs', o', hobjs, ho', ?_⟩
  rw [hsecret, secretAfter]
  decide

end Tinyhack.Profiles
