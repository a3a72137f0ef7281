import TinyhackSsh.Lib.Runs
import TinyhackSsh.Spec.ProfileEndpoints
import TinyhackSsh.Proofs.ProfileSecrets

/-! The ids of the stored profiles. They stay different as long as no profile is added
under an id that is taken; `/profiles/create` takes any id its caller sends. -/

namespace Tinyhack.Profiles

open Runs

def storedId (o : JObject) : Option JString := (o.lookup "id".toList).map JValue.text

/-- The ids in the stored objects; an object without one gets a new id whenever it is loaded. -/
def Store.ids (st : Store) : List JString := (st.objects.getD []).filterMap storedId

/-- `UUID.randomUUID` gives new ids in this call. -/
structure Fresh (call : OpCall) (used : List JString) : Prop where
  load : ∀ i, (call.load i).uuid ∉ used
  load_inj : ∀ i j, (call.load i).uuid = (call.load j).uuid → i = j
  deleteDefaults : call.deleteDefaults.uuid ∉ used

def profileIds (list : List ConnectionProfile) : List JString := list.map ConnectionProfile.id

theorem filterMap_mapIdx {α β γ : Type*} {g : β → Option γ} {h : α → γ} (l : List α) (f : ℕ → α → β)
    (hf : ∀ i x, g (f i x) = some (h x)) : (l.mapIdx f).filterMap g = l.map h := by
  induction l generalizing f with
  | nil => rfl
  | cons x l ih =>
    rw [List.mapIdx_cons, List.filterMap_cons, hf, List.map_cons]
    dsimp only
    rw [ih (fun i => f (i + 1)) fun i => hf (i + 1)]

theorem ids_saveProfiles (plat : Platform) (call : SaveCall) (list : List ConnectionProfile) :
    (saveProfiles plat call list).ids = profileIds list := by
  unfold Store.ids
  rw [objects_saveProfiles]
  exact filterMap_mapIdx list _ fun _ _ => rfl

/-! Loading. -/

section Load

variable {plat : Platform} {call : OpCall} {st : Store}

theorem optString_id (o : JObject) (fallback : JString) : optString o "id" fallback = (storedId o).getD fallback := by
  unfold optString storedId
  cases o.lookup "id".toList <;> rfl

theorem loadedIds_nodup {objs : List JObject} (hu : (objs.filterMap storedId).Nodup)
    (hfresh : Fresh call (objs.filterMap storedId)) : (loadedIds call objs).Nodup := by
  have hpair := List.pairwise_iff_getElem.mp (List.pairwise_filterMap.mp hu)
  have hnew : ∀ i (hi : i < objs.length) k, storedId objs[i] ≠ some (call.load k).uuid := by
    intro i hi k h
    exact hfresh.load k (List.mem_filterMap.mpr ⟨objs[i], List.getElem_mem hi, h⟩)
  refine List.pairwise_iff_getElem.mpr fun i j hi hj hij => ?_
  simp only [loadedIds, List.length_mapIdx] at hi hj
  simp only [loadedIds, List.getElem_mapIdx, optString_id]
  cases h1 : storedId objs[i] with
  | none =>
    cases h2 : storedId objs[j] with
    | none => exact fun h => absurd (hfresh.load_inj i j h) hij.ne
    | some b => exact fun h => hnew j hj i (by rw [h2]; exact congrArg some h.symm)
  | some a =>
    cases h2 : storedId objs[j] with
    | none => exact fun h => hnew i hi j (by rw [h1]; exact congrArg some h)
    | some b => exact hpair i j hi hj hij a h1 b h2

theorem loadProfiles_cases (plat : Platform) (call : OpCall) (st : Store) :
    (∃ objs, st.objects = some objs ∧ objs ≠ [] ∧ loadProfiles plat call st = (loaded plat call objs, st)) ∨
    loadProfiles plat call st = createDefaultProfiles plat call.loadDefaults := by
  unfold loadProfiles
  cases hobjs : st.objects with
  | none => exact Or.inr rfl
  | some objs =>
    cases objs with
    | nil => exact Or.inr rfl
    | cons o os => exact Or.inl ⟨o :: os, rfl, List.cons_ne_nil o os, rfl⟩

theorem loadProfiles_nodup (hu : st.ids.Nodup) (hfresh : Fresh call st.ids) :
    (profileIds (loadProfiles plat call st).1).Nodup := by
  rcases loadProfiles_cases plat call st with ⟨objs, hobjs, -, hload⟩ | hload
  · have hids : st.ids = objs.filterMap storedId := by rw [Store.ids, hobjs]; rfl
    rw [hids] at hu hfresh
    rw [hload, profileIds, ← loadedIds_eq]
    exact loadedIds_nodup hu hfresh
  · rw [hload]
    exact List.nodup_singleton _

theorem loadProfiles_ne_nil (plat : Platform) (call : OpCall) (st : Store) : (loadProfiles plat call st).1 ≠ [] := by
  rcases loadProfiles_cases plat call st with ⟨objs, -, hne, hload⟩ | hload
  · rw [hload]
    intro h
    exact hne (List.length_eq_zero_iff.mp (by simpa [loaded] using congrArg List.length h))
  · rw [hload]
    exact List.cons_ne_nil _ _

/-- Loading leaves unique ids in the store. -/
theorem loadProfiles_store (hu : st.ids.Nodup) : (loadProfiles plat call st).2.ids.Nodup := by
  rcases loadProfiles_cases plat call st with ⟨objs, -, -, hload⟩ | hload
  · rw [hload]
    exact hu
  · rw [hload]
    exact (ids_saveProfiles plat _ _).symm ▸ List.nodup_singleton _

/-- What was saved is loaded with its ids. -/
theorem profileIds_saved {list : List ConnectionProfile} (hne : list ≠ []) (save : SaveCall) :
    profileIds (loadProfiles plat call (saveProfiles plat save list)).1 = profileIds list := by
  have hobjs := objects_saveProfiles plat save list
  obtain ⟨p, hp⟩ := List.exists_mem_of_ne_nil list hne
  obtain ⟨i, hi, -⟩ := List.getElem_of_mem hp
  have hload : loadProfiles plat call _ = _ :=
    loadProfiles_of_objects hobjs (List.getElem?_eq_getElem (by simpa using hi))
  rw [hload, profileIds, ← loadedIds_eq]
  apply List.ext_getElem?
  intro k
  simp only [profileIds, loadedIds, List.getElem?_mapIdx, List.getElem?_map, Option.map_map]
  rfl

end Load

/-! The operations. -/

section Operations

variable {plat : Platform} {call : OpCall} {st : Store}

theorem addProfile_ids (profile : ConnectionProfile) :
    (addProfile plat call profile st).ids = profileIds (loadProfiles plat call st).1 ++ [profile.id] := by
  rw [addProfile, ids_saveProfiles, profileIds, List.map_append]
  rfl

theorem notMem_of_findIdx {list : List ConnectionProfile} {id : JString}
    (h : (list.findIdx? fun p => p.id = id) = none) : id ∉ profileIds list := by
  rw [List.findIdx?_eq_none_iff] at h
  intro hmem
  obtain ⟨p, hp, rfl⟩ := List.mem_map.mp hmem
  exact absurd (h p hp) (by simp)

theorem getElem?_of_findIdx {list : List ConnectionProfile} {id : JString} {i : ℕ}
    (h : (list.findIdx? fun p => p.id = id) = some i) : (profileIds list)[i]? = some id := by
  obtain ⟨hi, hid, -⟩ := List.findIdx?_eq_some_iff_getElem.mp h
  rw [profileIds, List.getElem?_map, List.getElem?_eq_getElem hi]
  exact congrArg some (of_decide_eq_true hid)

/-- An update keeps the ids, or adds one that is not there. -/
theorem updateProfile_ids (plat : Platform) (call : OpCall) (st : Store) (profile : ConnectionProfile) :
    (updateProfile plat call profile st).ids = profileIds (loadProfiles plat call st).1 ∨
    (profile.id ∉ profileIds (loadProfiles plat call st).1 ∧
      (updateProfile plat call profile st).ids = profileIds (loadProfiles plat call st).1 ++ [profile.id]) := by
  unfold updateProfile
  dsimp only
  cases hfind : (loadProfiles plat call st).1.findIdx? fun p => p.id = profile.id with
  | some i =>
    left
    dsimp only
    rw [ids_saveProfiles, profileIds, List.map_set]
    obtain ⟨hi, hid⟩ := List.getElem?_eq_some_iff.mp (getElem?_of_findIdx hfind)
    rw [← hid]
    exact List.set_getElem_self hi
  | none =>
    right
    refine ⟨notMem_of_findIdx hfind, ?_⟩
    dsimp only
    rw [ids_saveProfiles, profileIds, List.map_append]
    rfl

theorem notMem_eraseIdx {ids : List JString} {id : JString} {i : ℕ} (hu : ids.Nodup) (hi : ids[i]? = some id) :
    id ∉ ids.eraseIdx i := by
  intro hmem
  obtain ⟨j, hj, hji, hid⟩ := List.mem_eraseIdx_iff_getElem.mp hmem
  obtain ⟨hi', hid'⟩ := List.getElem?_eq_some_iff.mp hi
  exact hji ((hu.getElem_inj_iff).mp (hid.trans hid'.symm))

/-- Where a profile is found, the ids lose one entry, which was its id. -/
theorem deleteProfile_cases (plat : Platform) (call : OpCall) (st : Store) (id : JString) :
    deleteProfile plat call id st = (false, (loadProfiles plat call st).2) ∨
    (∃ list, list ≠ [] ∧ (profileIds list).Sublist (profileIds (loadProfiles plat call st).1) ∧
      ((profileIds (loadProfiles plat call st).1).Nodup → id ∉ profileIds list) ∧
      deleteProfile plat call id st = (true, saveProfiles plat call.save list)) ∨
    deleteProfile plat call id st = (true, (createDefaultProfiles plat call.deleteDefaults).2) := by
  unfold deleteProfile
  dsimp only
  cases hfind : (loadProfiles plat call st).1.findIdx? fun p => p.id = id with
  | none => exact Or.inl rfl
  | some i =>
    dsimp only
    right
    have hids : profileIds ((loadProfiles plat call st).1.eraseIdx i) =
        (profileIds (loadProfiles plat call st).1).eraseIdx i := (List.eraseIdx_map _ _ _).symm
    split_ifs with hempty
    · exact Or.inr rfl
    · refine Or.inl ⟨_, by simpa using hempty, ?_, ?_, rfl⟩
      · rw [hids]
        exact List.eraseIdx_sublist _ _
      · intro hu
        rw [hids]
        exact notMem_eraseIdx hu (getElem?_of_findIdx hfind)

theorem nodup_snoc {ids : List JString} {id : JString} (hu : ids.Nodup) : (ids ++ [id]).Nodup ↔ id ∉ ids := by
  rw [List.nodup_append', List.disjoint_singleton]
  exact ⟨fun h => h.2.2, fun h => ⟨hu, List.nodup_singleton id, h⟩⟩

/-- An operation keeps the ids different, unless it adds a profile under an id that is taken. -/
theorem run_ids {op : Op} (hu : st.ids.Nodup) (hfresh : Fresh call st.ids)
    (hadd : ∀ profile, op = .add profile → profile.id ∉ profileIds (loadProfiles plat call st).1) :
    (op.run plat call st).ids.Nodup := by
  have hload : (profileIds (loadProfiles plat call st).1).Nodup := loadProfiles_nodup hu hfresh
  cases op with
  | add profile =>
    rw [Op.run, addProfile_ids, nodup_snoc hload]
    exact hadd profile rfl
  | update profile =>
    rw [Op.run]
    rcases updateProfile_ids plat call st profile with h | ⟨hnew, h⟩
    · rwa [h]
    · rwa [h, nodup_snoc hload]
  | delete id =>
    rw [Op.run]
    rcases deleteProfile_cases plat call st id with h | ⟨list, -, hsub, -, h⟩ | h
    · rw [h]
      exact loadProfiles_store hu
    · rw [h, ids_saveProfiles]
      exact hload.sublist hsub
    · rw [h]
      exact (ids_saveProfiles plat _ _).symm ▸ List.nodup_singleton _

theorem getProfile_eq_none {id : JString} (h : id ∉ profileIds (loadProfiles plat call st).1) :
    (getProfile plat call id st).1 = none := by
  rw [getProfile, List.find?_eq_none]
  intro p hp hid
  exact h (List.mem_map.mpr ⟨p, hp, of_decide_eq_true hid⟩)

/-- A profile that was deleted is not found again. -/
theorem getProfile_deleted {id : JString} (hu : st.ids.Nodup) (hfresh : Fresh call (id :: st.ids))
    (hdel : (deleteProfile plat call id st).1 = true) (call' : OpCall) :
    (getProfile plat call' id (deleteProfile plat call id st).2).1 = none := by
  have hload : Fresh call st.ids :=
    ⟨fun i h => hfresh.load i (List.mem_cons_of_mem id h), hfresh.load_inj,
      fun h => hfresh.deleteDefaults (List.mem_cons_of_mem id h)⟩
  apply getProfile_eq_none
  rcases deleteProfile_cases plat call st id with h | ⟨list, hne, -, hgone, h⟩ | h
  · rw [h] at hdel
    cases hdel
  · rw [h]
    dsimp only
    rw [profileIds_saved hne]
    exact hgone (loadProfiles_nodup hu hload)
  · rw [h]
    dsimp only [createDefaultProfiles]
    rw [profileIds_saved (List.cons_ne_nil _ _)]
    intro hmem
    have hid : id = call.deleteDefaults.uuid := List.mem_singleton.mp hmem
    exact hfresh.deleteDefaults (List.mem_cons.mpr (Or.inl hid.symm))

end Operations

/-! Whole runs. -/

/-- The operation of the manager that a call makes, if it makes one. -/
def Action.op (plat : Platform) (digit : Char → Option ℕ) : Action → Option Op
  | .addProfile profile => some (.add profile)
  | .updateProfile profile => some (.update profile)
  | .deleteProfile id => some (.delete id)
  | .createRequest call req => some (.add (createdProfile plat digit call req))
  | .updateRequest call req => req.object.map fun jo => .update (fromJson plat call jo)
  | .deleteRequest req => req.id.map .delete

/-- A request that makes no call of the manager leaves the store as it is. -/
theorem step_op (plat : Platform) (digit : Char → Option ℕ) (st : Store) (call : OpCall) (a : Action) :
    step plat digit st (call, a) = some ((a.op plat digit).elim st fun op => op.run plat call st) := by
  cases a with
  | addProfile profile => rfl
  | updateProfile profile => rfl
  | deleteProfile id => rfl
  | createRequest create req => rfl
  | updateRequest load req =>
    simp only [step, Action.op]
    cases req.object <;> rfl
  | deleteRequest req =>
    simp only [step, Action.op]
    cases req.id <;> rfl

/-- New ids are new, and a profile is added only under an id that no profile has. -/
def IdsOk (plat : Platform) (digit : Char → Option ℕ) (st : Store) (a : OpCall × Action) : Prop :=
  Fresh a.1 st.ids ∧
  ∀ profile, a.2.op plat digit = some (.add profile) → profile.id ∉ profileIds (loadProfiles plat a.1 st).1

theorem run_unique {plat : Platform} {digit : Char → Option ℕ} {init st : Store} {acts : List (OpCall × Action)}
    (h0 : init.ids.Nodup) (h : Run init (step plat digit) (IdsOk plat digit) acts st) : st.ids.Nodup := by
  refine h.inv (fun st => st.ids.Nodup) h0 ?_
  intro s a s' hu hok hstep
  obtain ⟨call, a⟩ := a
  rw [step_op] at hstep
  obtain rfl := Option.some.inj hstep
  cases hop : a.op plat digit with
  | none => exact hu
  | some op =>
    refine run_ids hu hok.1 ?_
    rintro profile rfl
    exact hok.2 profile hop

/-- In every store reached: the profiles have different ids, there is at least one, and a
profile whose deletion succeeds is not found afterwards. Adding a profile keeps the ids
different just when its id is not taken. -/
theorem profiles_consistent (plat : Platform) (digit : Char → Option ℕ) (init st : Store)
    (acts : List (OpCall × Action)) (h0 : init.ids.Nodup)
    (h : Run init (step plat digit) (IdsOk plat digit) acts st) :
    (∀ call, Fresh call st.ids → (profileIds (loadProfiles plat call st).1).Nodup) ∧
    (∀ call, (loadProfiles plat call st).1 ≠ []) ∧
    (∀ call id, Fresh call (id :: st.ids) → (deleteProfile plat call id st).1 = true →
      ∀ call', (getProfile plat call' id (deleteProfile plat call id st).2).1 = none) ∧
    ∀ call profile, Fresh call st.ids →
      ((addProfile plat call profile st).ids.Nodup ↔ profile.id ∉ profileIds (loadProfiles plat call st).1) := by
  have hu : st.ids.Nodup := run_unique h0 h
  refine ⟨?_, ?_, ?_, ?_⟩
  · intro call hfresh
    exact loadProfiles_nodup hu hfresh
  · intro call
    exact loadProfiles_ne_nil plat call st
  · intro call id hfresh hdel call'
    exact getProfile_deleted hu hfresh hdel call'
  · intro call profile hfresh
    rw [addProfile_ids, nodup_snoc (loadProfiles_nodup hu hfresh)]

/-- New ids begin with a u. -/
def freshCall : OpCall :=
  { sampleCall false with
    load := fun i => ⟨fun _ => false, 'u' :: List.replicate i 'x', 0, 0⟩
    deleteDefaults := ⟨"u".toList, 0, sampleSave⟩ }

theorem freshCall_fresh (used : List JString) (h : ∀ id ∈ used, id.head? ≠ some 'u') : Fresh freshCall used where
  load i hmem := h _ hmem rfl
  load_inj i j hij := by
    have hlength := congrArg List.length hij
    simpa [freshCall] using hlength
  deleteDefaults hmem := h _ hmem rfl

/-- A store with one profile, `a`. -/
def storeA : Store := saveProfiles samplePlatform sampleSave [profileA]

theorem storeA_ids : storeA.ids = ["a".toList] := ids_saveProfiles _ _ _

/-- `/profiles/create` with a chosen id. -/
def createWith (id : String) : OpCall × Action :=
  (freshCall, .createRequest ⟨⟨fun _ => false, "u".toList, 0, 0⟩, "u".toList, 0⟩
    ⟨fun _ => none, some [("id".toList, .str id.toList)], none⟩)

theorem profiles_consistent_create : ∃ st, step samplePlatform (fun _ => none) storeA (createWith "c") = some st ∧
    ∀ call, (loadProfiles samplePlatform call st).1 ≠ [] := by
  refine ⟨_, rfl, (profiles_consistent samplePlatform (fun _ => none) storeA _ [createWith "c"] ?_
    (Run.nil.snoc ⟨?_, ?_⟩ rfl)).2.1⟩
  · rw [storeA_ids]
    exact List.nodup_singleton _
  · rw [storeA_ids]
    exact freshCall_fresh _ (by decide)
  · intro profile hop
    have hid : profile.id = "c".toList := by
      rw [← Op.add.inj (Option.some.inj hop)]
      rfl
    have hids : profileIds (loadProfiles samplePlatform freshCall storeA).1 = ["a".toList] :=
      profileIds_saved (List.cons_ne_nil _ _) sampleSave
    change profile.id ∉ profileIds (loadProfiles samplePlatform freshCall storeA).1
    rw [hids, hid]
    decide

/-- Creating a second profile `a`: the ids are not unique, and one is left after a deletion. -/
theorem create_taken_id : ∃ st, step samplePlatform (fun _ => none) storeA (createWith "a") = some st ∧
    profileIds (loadProfiles samplePlatform freshCall st).1 = ["a".toList, "a".toList] ∧
    (deleteProfile samplePlatform freshCall "a".toList st).1 = true ∧
    (getProfile samplePlatform freshCall "a".toList
      (deleteProfile samplePlatform freshCall "a".toList st).2).1.isSome := by
  refine ⟨_, rfl, ?_, ?_, ?_⟩
  · decide
  · decide
  · decide

end Tinyhack.Profiles
