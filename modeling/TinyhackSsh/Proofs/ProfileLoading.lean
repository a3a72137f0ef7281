import TinyhackSsh.Proofs.ProfileSecrets

/-! Loading an array in which not every element is an object. -/

namespace Tinyhack.Profiles

/-- The elements that `fromJson` can read: it takes every object. -/
def readable : List Element → List JObject
  | [] => []
  | .object o :: elements => o :: readable elements
  | .other :: elements => readable elements

/-- The profiles of the elements that can be read, each read at its place in the array. -/
def readableFrom (plat : Platform) (load : ℕ → LoadCall) : ℕ → List Element → List ConnectionProfile
  | _, [] => []
  | i, .object o :: elements => fromJson plat (load i) o :: readableFrom plat load (i + 1) elements
  | i, .other :: elements => readableFrom plat load (i + 1) elements

section Arrays

variable {elements : List Element}

theorem objects_of_all (h : Element.other ∉ elements) : objects elements = some (readable elements) := by
  induction elements with
  | nil => rfl
  | cons e elements ih =>
    cases e with
    | other => exact absurd List.mem_cons_self h
    | object o => rw [objects, ih fun hmem => h (List.mem_cons_of_mem _ hmem), readable, Option.map_some]

theorem objects_of_other (h : Element.other ∈ elements) : objects elements = none := by
  induction elements with
  | nil => exact absurd h List.not_mem_nil
  | cons e elements ih =>
    cases e with
    | other => rfl
    | object o =>
      have hrest : Element.other ∈ elements := by simpa using h
      rw [objects, ih hrest, Option.map_none]

theorem readableFrom_of_all (plat : Platform) (load : ℕ → LoadCall) (h : Element.other ∉ elements) (i : ℕ) :
    readableFrom plat load i elements = (readable elements).mapIdx fun j o => fromJson plat (load (i + j)) o := by
  induction elements generalizing i with
  | nil => rfl
  | cons e elements ih =>
    cases e with
    | other => exact absurd List.mem_cons_self h
    | object o =>
      rw [readableFrom, readable, List.mapIdx_cons, ih fun hmem => h (List.mem_cons_of_mem _ hmem)]
      simp only [Nat.add_zero, Nat.add_assoc, Nat.add_comm 1]

end Arrays

section Loading

variable {plat : Platform} {call : OpCall} {st : Store} {elements : List Element}

theorem objects_of_array (h : st.prefs.or st.file = some (.array elements)) : st.objects = objects elements := by
  unfold Store.objects
  rw [h]

theorem loadProfiles_all (h : st.prefs.or st.file = some (.array elements)) (hall : Element.other ∉ elements)
    (hsome : readable elements ≠ []) :
    loadProfiles plat call st = (readableFrom plat call.load 0 elements, st) := by
  have hobjects : st.objects = some (readable elements) := (objects_of_array h).trans (objects_of_all hall)
  rw [readableFrom_of_all plat call.load hall]
  unfold loadProfiles
  rw [hobjects]
  cases hread : readable elements with
  | nil => exact absurd hread hsome
  | cons o os => simp

theorem loadProfiles_other (h : st.prefs.or st.file = some (.array elements)) (hother : Element.other ∈ elements) :
    loadProfiles plat call st = createDefaultProfiles plat call.loadDefaults := by
  unfold loadProfiles
  rw [(objects_of_array h).trans (objects_of_other hother)]

/-- A new default profile is not what the array holds: the store it is saved in holds an
array of one object. -/
theorem defaults_ne (h : st.prefs.or st.file = some (.array elements)) (hother : Element.other ∈ elements) :
    (createDefaultProfiles plat call.loadDefaults).2 ≠ st := by
  intro hsame
  have hprefs : st.prefs = some (.array [.object (toJson plat (call.loadDefaults.save.encrypts 0)
      (newProfile call.loadDefaults.uuid "Local shell".toList .LOCAL call.loadDefaults.now))]) := by
    rw [← hsame]
    rfl
  rw [hprefs, Option.some_or, Option.some.injEq, Text.array.injEq] at h
  rw [← h] at hother
  simp at hother

end Loading

end Tinyhack.Profiles
