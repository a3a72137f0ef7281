import Mathlib.Tactic

/-! Finite maps that list their entries in the order of insertion. `put` keeps
the place of a key that is there, as `LinkedHashMap` does; after `erase` it goes
to the end. -/

structure OrderedMap (κ α : Type*) where
  entries : List (κ × α)
  nodup : (entries.map Prod.fst).Nodup

namespace OrderedMap

variable {κ α : Type*}

@[ext] theorem ext {m m' : OrderedMap κ α} (h : m.entries = m'.entries) : m = m' := by
  cases m
  cases m'
  congr

def empty : OrderedMap κ α := ⟨[], by simp⟩

def filter (m : OrderedMap κ α) (p : κ × α → Bool) : OrderedMap κ α :=
  ⟨m.entries.filter p, m.nodup.sublist (List.filter_sublist.map _)⟩

def size (m : OrderedMap κ α) : ℕ := m.entries.length

/-- A key has one entry. -/
theorem eq_of_mem {m : OrderedMap κ α} {k : κ} {v v' : α} (h : (k, v) ∈ m.entries) (h' : (k, v') ∈ m.entries) :
    v = v' :=
  (Prod.mk.inj (List.inj_on_of_nodup_map m.nodup h h' rfl)).2

variable [DecidableEq κ]

def get? (m : OrderedMap κ α) (k : κ) : Option α := (m.entries.find? fun e => e.1 = k).map Prod.snd

def erase (m : OrderedMap κ α) (k : κ) : OrderedMap κ α := m.filter fun e => e.1 ≠ k

theorem get?_eq_some_iff {m : OrderedMap κ α} {k : κ} {v : α} : m.get? k = some v ↔ (k, v) ∈ m.entries := by
  constructor
  · intro h
    obtain ⟨⟨k', v'⟩, hfind, rfl⟩ := Option.map_eq_some_iff.mp h
    have hk : k' = k := by simpa using List.find?_some hfind
    exact hk ▸ List.mem_of_find?_eq_some hfind
  · intro h
    cases hfind : m.entries.find? fun e => e.1 = k with
    | none => simpa using List.find?_eq_none.mp hfind _ h
    | some e =>
      obtain ⟨k', v'⟩ := e
      obtain rfl : k' = k := by simpa using List.find?_some hfind
      simp [get?, hfind, eq_of_mem (List.mem_of_find?_eq_some hfind) h]

theorem get?_eq_none_iff {m : OrderedMap κ α} {k : κ} : m.get? k = none ↔ ∀ v, (k, v) ∉ m.entries := by
  simp only [Option.eq_none_iff_forall_ne_some, ne_eq, get?_eq_some_iff]

theorem get?_filter (m : OrderedMap κ α) (p : κ × α → Bool) (k : κ) :
    (m.filter p).get? k = (m.get? k).filter fun v => p (k, v) := by
  apply Option.ext
  intro v
  rw [get?_eq_some_iff, Option.filter_eq_some_iff, get?_eq_some_iff]
  exact List.mem_filter

theorem get?_erase (m : OrderedMap κ α) (k k' : κ) :
    (m.erase k).get? k' = if k' = k then none else m.get? k' := by
  rw [erase, get?_filter]
  split_ifs with h <;> cases m.get? k' <;> simp [h]

theorem get?_of_erase {m : OrderedMap κ α} {k k' : κ} {v : α} (h : (m.erase k).get? k' = some v) :
    m.get? k' = some v := by
  rw [get?_erase] at h
  split_ifs at h
  exact h

theorem erase_of_get?_eq_none {m : OrderedMap κ α} {k : κ} (h : m.get? k = none) : m.erase k = m := by
  refine ext (List.filter_eq_self.mpr fun e he => ?_)
  have hne : e.1 ≠ k := by
    rintro rfl
    exact get?_eq_none_iff.mp h e.2 he
  simpa using hne

theorem perm_erase {m : OrderedMap κ α} {k : κ} {v : α} (h : m.get? k = some v) :
    m.entries.Perm ((k, v) :: (m.erase k).entries) := by
  have hmem := get?_eq_some_iff.mp h
  have hnodup : ((k, v) :: (m.erase k).entries).Nodup := by
    refine List.nodup_cons.mpr ⟨fun hmem => ?_, (m.erase k).nodup.of_map⟩
    simpa using (List.mem_filter.mp hmem).2
  refine (List.perm_ext_iff_of_nodup m.nodup.of_map hnodup).mpr fun e => ?_
  rw [List.mem_cons]
  constructor
  · intro he
    by_cases hk : e.1 = k
    · subst hk
      exact .inl (Prod.ext rfl (eq_of_mem he hmem))
    · exact .inr (List.mem_filter.mpr ⟨he, by simpa using hk⟩)
  · rintro (rfl | he)
    · exact hmem
    · exact (List.mem_filter.mp he).1

/-- Replace the value of a key that is there, or add an entry at the end. -/
def put (m : OrderedMap κ α) (k : κ) (v : α) : OrderedMap κ α where
  entries :=
    if k ∈ m.entries.map Prod.fst then m.entries.map fun e => if e.1 = k then (k, v) else e
    else m.entries ++ [(k, v)]
  nodup := by
    split_ifs with hk
    · have hkeys : (m.entries.map fun e => if e.1 = k then (k, v) else e).map Prod.fst = m.entries.map Prod.fst := by
        rw [List.map_map]
        refine List.map_congr_left fun e _ => ?_
        by_cases he : e.1 = k <;> simp [he]
      rw [hkeys]
      exact m.nodup
    · rw [List.map_append]
      exact List.Nodup.append m.nodup (by simp) (by simpa using hk)

theorem entries_put_of_get?_eq_none {m : OrderedMap κ α} {k : κ} (h : m.get? k = none) (v : α) :
    (m.put k v).entries = m.entries ++ [(k, v)] := by
  have hk : k ∉ m.entries.map Prod.fst := by simpa using get?_eq_none_iff.mp h
  simp only [put, if_neg hk]

theorem get?_put (m : OrderedMap κ α) (k k' : κ) (v : α) :
    (m.put k v).get? k' = if k' = k then some v else m.get? k' := by
  apply Option.ext
  intro v'
  rw [get?_eq_some_iff]
  simp only [put]
  split_ifs with hk hkk' hkk'
  · subst hkk'
    obtain ⟨⟨k'', old⟩, hmem, rfl⟩ := List.mem_map.mp hk
    constructor
    · intro h
      obtain ⟨⟨a, b⟩, -, hab⟩ := List.mem_map.mp h
      by_cases ha : a = k'' <;> simp [ha] at hab
      · simp [hab]
    · intro h
      obtain rfl := Option.some.inj h
      exact List.mem_map.mpr ⟨_, hmem, by simp⟩
  · rw [get?_eq_some_iff, List.mem_map]
    constructor
    · rintro ⟨⟨a, b⟩, hab, he⟩
      by_cases ha : a = k
      · simp only [ha, if_true, Prod.mk.injEq] at he
        exact absurd he.1.symm hkk'
      · simp only [ha, if_false] at he
        exact he ▸ hab
    · intro h
      exact ⟨(k', v'), h, by simp [hkk']⟩
  · subst hkk'
    have hnone : (k', v') ∉ m.entries := fun h => hk (List.mem_map.mpr ⟨_, h, rfl⟩)
    simp [hnone, eq_comm]
  · simp [hkk', get?_eq_some_iff]

/-! Many puts, one after another. -/

def putAll (m : OrderedMap κ α) (l : List (κ × α)) : OrderedMap κ α := l.foldl (fun m e => m.put e.1 e.2) m

/-- The value of the last pair with a key. -/
def lastValue (l : List (κ × α)) (k : κ) : Option α := (l.filter fun e => e.1 = k).getLast?.map Prod.snd

theorem lastValue_append (l l' : List (κ × α)) (k : κ) :
    lastValue (l ++ l') k = (lastValue l' k).or (lastValue l k) := by
  simp only [lastValue, List.filter_append, List.getLast?_append]
  cases (l'.filter fun e => e.1 = k).getLast? <;> rfl

theorem lastValue_eq_none {l : List (κ × α)} {k : κ} (h : k ∉ l.map Prod.fst) : lastValue l k = none := by
  have hnil : (l.filter fun e => e.1 = k) = [] := by
    apply List.filter_eq_nil_iff.mpr
    intro e he heq
    exact h (List.mem_map.mpr ⟨e, he, of_decide_eq_true heq⟩)
  rw [lastValue, hnil]
  rfl

/-- A key that stands once has the value it stands with. -/
theorem lastValue_of_nodup {l : List (κ × α)} (hl : (l.map Prod.fst).Nodup) {k : κ} {v : α} (h : (k, v) ∈ l) :
    lastValue l k = some v := by
  obtain ⟨before, after, rfl⟩ := List.append_of_mem h
  have hafter : k ∉ after.map Prod.fst := by
    rw [List.map_append, List.map_cons] at hl
    exact (List.nodup_cons.mp hl.of_append_right).1
  rw [List.append_cons, lastValue_append, lastValue_eq_none hafter, lastValue_append]
  simp [lastValue]

/-- The last put of a key decides. -/
theorem get?_putAll (m : OrderedMap κ α) (l : List (κ × α)) (k : κ) :
    (m.putAll l).get? k = (lastValue l k).or (m.get? k) := by
  induction l using List.reverseRecOn with
  | nil => rfl
  | append_singleton l e ih =>
    have hput : m.putAll (l ++ [e]) = (m.putAll l).put e.1 e.2 := by simp [putAll]
    rw [hput, get?_put, lastValue_append, ih]
    by_cases he : k = e.1
    · simp [lastValue, he]
    · simp [lastValue, he, Ne.symm he]

end OrderedMap
