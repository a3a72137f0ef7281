import TinyhackSsh.Lib.OrderedMap

/-! Ordered maps whose entries belong to owners, with a limit for each owner and one for
all. `trim` makes room for one entry: the owner's oldest entry goes if the owner is at
the limit, then the oldest of all if the map is full. With few owners the second never
happens. -/

namespace OrderedMap

variable {κ α ω : Type*} [DecidableEq ω] (owner : α → ω)

/-- The entries of one owner, oldest first. -/
def owned (m : OrderedMap κ α) (x : ω) : List (κ × α) := m.entries.filter fun e => owner e.2 = x

def owners (m : OrderedMap κ α) : Finset ω := (m.entries.map fun e => owner e.2).toFinset

/-- The limits are kept. -/
structure Within (m : OrderedMap κ α) (each all : ℕ) : Prop where
  each : ∀ x, (m.owned owner x).length ≤ each
  all : m.size ≤ all

section Counting

variable {owner} {m : OrderedMap κ α} {x : ω} {each all : ℕ}

theorem length_owned (m : OrderedMap κ α) (x : ω) :
    (m.owned owner x).length = (m.entries.map fun e => owner e.2).count x := by
  rw [owned, List.count_eq_countP, List.countP_map, List.countP_eq_length_filter]
  rfl

/-- At most `each` entries for each of the owners. -/
theorem size_le (h : ∀ x, (m.owned owner x).length ≤ each) : m.size ≤ (m.owners owner).card * each := by
  calc m.size = (m.entries.map fun e => owner e.2).length := (List.length_map _).symm
    _ = ∑ x ∈ m.owners owner, (m.entries.map fun e => owner e.2).count x :=
        (List.sum_toFinset_count_eq_length _).symm
    _ ≤ (m.owners owner).card • each := Finset.sum_le_card_nsmul _ _ _ fun x _ => length_owned m x ▸ h x

theorem size_lt (h : ∀ y, (m.owned owner y).length ≤ each) (hx : (m.owned owner x).length < each)
    (hmem : x ∈ m.owners owner) : m.size < (m.owners owner).card * each := by
  calc m.size = (m.entries.map fun e => owner e.2).length := (List.length_map _).symm
    _ = ∑ y ∈ m.owners owner, (m.entries.map fun e => owner e.2).count y :=
        (List.sum_toFinset_count_eq_length _).symm
    _ < ∑ _ ∈ m.owners owner, each :=
        Finset.sum_lt_sum (fun y _ => length_owned m y ▸ h y) ⟨x, hmem, length_owned m x ▸ hx⟩
    _ = (m.owners owner).card * each := Finset.sum_const_nat fun _ _ => rfl

end Counting

variable [DecidableEq κ]

/-- Remove the first of these entries. -/
def dropFirst (m : OrderedMap κ α) : List (κ × α) → OrderedMap κ α
  | [] => m
  | oldest :: _ => m.erase oldest.1

def trimOwner (m : OrderedMap κ α) (x : ω) (each : ℕ) : OrderedMap κ α :=
  if (m.owned owner x).length ≥ each then m.dropFirst (m.owned owner x) else m

def trimAll (m : OrderedMap κ α) (all : ℕ) : OrderedMap κ α :=
  if m.size ≥ all then m.dropFirst m.entries else m

/-- Room for one entry of `x`. -/
def trim (m : OrderedMap κ α) (x : ω) (each all : ℕ) : OrderedMap κ α := (m.trimOwner owner x each).trimAll all

variable {owner} {m : OrderedMap κ α} {k : κ} {v : α} {x : ω} {each all : ℕ}

theorem mem_owners_iff : x ∈ m.owners owner ↔ ∃ k v, m.get? k = some v ∧ owner v = x := by
  simp [owners, get?_eq_some_iff]

/-- The entries of one map are entries of the other. -/
def Sub (m' m : OrderedMap κ α) : Prop := ∀ k v, m'.get? k = some v → m.get? k = some v

section Sub

variable {m' : OrderedMap κ α}

theorem Sub.trans {m'' : OrderedMap κ α} (h : m''.Sub m') (h' : m'.Sub m) : m''.Sub m :=
  fun k v hget => h' k v (h k v hget)

theorem Sub.subperm (h : m'.Sub m) : m'.entries.Subperm m.entries :=
  List.subperm_of_subset m'.nodup.of_map fun _ he => get?_eq_some_iff.mp (h _ _ (get?_eq_some_iff.mpr he))

theorem Sub.length_owned_le (h : m'.Sub m) (x : ω) : (m'.owned owner x).length ≤ (m.owned owner x).length :=
  (h.subperm.filter _).length_le

theorem Within.mono (hm : m.Within owner each all) (h : m'.Sub m) : m'.Within owner each all where
  each := fun x => (h.length_owned_le x).trans (hm.each x)
  all := h.subperm.length_le.trans hm.all

theorem owners_subset (h : m'.Sub m) : m'.owners owner ⊆ m.owners owner := by
  intro x hx
  obtain ⟨k, v, hget, rfl⟩ := mem_owners_iff.mp hx
  exact mem_owners_iff.mpr ⟨k, v, h k v hget, rfl⟩

theorem erase_sub (m : OrderedMap κ α) (k : κ) : (m.erase k).Sub m := fun _ _ => get?_of_erase

theorem dropFirst_sub (m : OrderedMap κ α) (l : List (κ × α)) : (m.dropFirst l).Sub m := by
  cases l with
  | nil => exact fun _ _ h => h
  | cons oldest l => exact m.erase_sub oldest.1

theorem trimOwner_sub (m : OrderedMap κ α) (x : ω) (each : ℕ) : (m.trimOwner owner x each).Sub m := by
  unfold trimOwner
  split_ifs
  · exact m.dropFirst_sub _
  · exact fun _ _ h => h

theorem trimAll_sub (m : OrderedMap κ α) (all : ℕ) : (m.trimAll all).Sub m := by
  unfold trimAll
  split_ifs
  · exact m.dropFirst_sub _
  · exact fun _ _ h => h

theorem trim_sub (m : OrderedMap κ α) (x : ω) (each all : ℕ) : (m.trim owner x each all).Sub m :=
  (trimAll_sub _ all).trans (m.trimOwner_sub x each)

end Sub

section Trimming

/-- Removing the first of the owner's entries leaves one less. -/
theorem length_owned_dropFirst (hpos : 0 < (m.owned owner x).length) :
    ((m.dropFirst (m.owned owner x)).owned owner x).length + 1 = (m.owned owner x).length := by
  obtain ⟨e, rest, howned⟩ := List.exists_cons_of_length_pos hpos
  obtain ⟨hentry, howner⟩ := List.mem_filter.mp (howned ▸ List.mem_cons_self : e ∈ m.owned owner x)
  have hperm := (perm_erase (get?_eq_some_iff.mpr hentry)).filter fun e => owner e.2 = x
  rw [List.filter_cons_of_pos (by simpa using howner)] at hperm
  have hdrop : m.dropFirst (m.owned owner x) = m.erase e.1 := by rw [howned, dropFirst]
  rw [hdrop]
  exact hperm.length_eq.symm

theorem size_dropFirst (hpos : 0 < m.size) : (m.dropFirst m.entries).size + 1 = m.size := by
  obtain ⟨e, rest, hentries⟩ := List.exists_cons_of_length_pos hpos
  have hentry : e ∈ m.entries := hentries ▸ List.mem_cons_self
  have hdrop : m.dropFirst m.entries = m.erase e.1 := by rw [hentries, dropFirst]
  rw [hdrop]
  exact (perm_erase (get?_eq_some_iff.mpr hentry)).length_eq.symm

theorem trimOwner_room (h : (m.owned owner x).length ≤ each) (hpos : 0 < each) :
    ((m.trimOwner owner x each).owned owner x).length < each := by
  unfold trimOwner
  split_ifs with hfull
  · have hdrop := length_owned_dropFirst (hpos.trans_le hfull)
    omega
  · omega

theorem trimAll_room (h : m.size ≤ all) (hpos : 0 < all) : (m.trimAll all).size < all := by
  unfold trimAll
  split_ifs with hfull
  · have hdrop := size_dropFirst (hpos.trans_le hfull)
    omega
  · omega

/-- An entry of another owner is not among those of `x`. -/
theorem get?_trimOwner (hv : owner v ≠ x) (h : m.get? k = some v) : (m.trimOwner owner x each).get? k = some v := by
  unfold trimOwner
  split_ifs
  · cases howned : m.owned owner x with
    | nil => exact h
    | cons e rest =>
      obtain ⟨hentry, howner⟩ := List.mem_filter.mp (howned ▸ List.mem_cons_self : e ∈ m.owned owner x)
      have hk : k ≠ e.1 := by
        rintro rfl
        rw [get?_eq_some_iff] at h
        exact hv ((eq_of_mem h hentry) ▸ of_decide_eq_true howner)
      rw [dropFirst, get?_erase, if_neg hk]
      exact h
  · exact h

end Trimming

/-- If `x` and the other owners are at most `n`, before and after, then the map is not full. -/
theorem trimAll_eq {n : ℕ} (h : ∀ y, (m.owned owner y).length ≤ each) (hx : (m.owned owner x).length < each)
    (heach : 1 < each) (hall : n * each ≤ all) (hbefore : (m.owners owner).card ≤ n)
    (hafter : (insert x ((m.trimAll all).owners owner)).card ≤ n) : m.trimAll all = m := by
  refine if_neg fun hfull => ?_
  have hmany : n * each ≤ m.size := hall.trans hfull
  have hcard : (m.owners owner).card * each ≤ n * each := Nat.mul_le_mul_right each hbefore
  have hnone : x ∉ m.owners owner := by
    intro hmem
    have hlt := size_lt h hx hmem
    omega
  -- one entry less does not remove an owner
  rw [trimAll, if_pos hfull] at hafter
  have hsub := m.dropFirst_sub m.entries
  rw [Finset.card_insert_of_notMem fun hmem => hnone (owners_subset hsub hmem)] at hafter
  have hn : 0 < n := by omega
  have hpos : 0 < m.size := (Nat.mul_pos hn (by omega)).trans_le hmany
  have hdrop := size_dropFirst hpos
  have hsize := size_le fun y => (hsub.length_owned_le y).trans (h y)
  have hfew : ((m.dropFirst m.entries).owners owner).card * each ≤ (n - 1) * each :=
    Nat.mul_le_mul_right each (by omega)
  rw [Nat.sub_mul, Nat.one_mul] at hfew
  have hle : each ≤ n * each := Nat.le_mul_of_pos_left each hn
  omega

/-- Making room for `x` then leaves the other owners alone. -/
theorem get?_trim {n : ℕ} (h : m.Within owner each all) (heach : 1 < each) (hall : n * each ≤ all)
    (hbefore : (m.owners owner).card ≤ n) (hafter : (insert x ((m.trim owner x each all).owners owner)).card ≤ n)
    (hv : owner v ≠ x) (hget : m.get? k = some v) : (m.trim owner x each all).get? k = some v := by
  have hsub : (m.trimOwner owner x each).Sub m := m.trimOwner_sub x each
  have heq : m.trim owner x each all = m.trimOwner owner x each := by
    refine trimAll_eq (x := x) (h.mono hsub).each (trimOwner_room (h.each x) (by omega)) heach hall ?_ hafter
    exact (Finset.card_le_card (owners_subset hsub)).trans hbefore
  rw [heq]
  exact get?_trimOwner hv hget

theorem trim_room (h : m.Within owner each all) (heach : 0 < each) (hall : 0 < all) (x : ω) :
    ((m.trim owner x each all).owned owner x).length < each ∧ (m.trim owner x each all).size < all := by
  refine ⟨lt_of_le_of_lt ?_ (trimOwner_room (h.each x) heach), trimAll_room ?_ hall⟩
  · exact ((m.trimOwner owner x each).trimAll_sub all).length_owned_le x
  · exact (h.mono (m.trimOwner_sub x each)).all

section Put

/-- An entry that is taken out leaves room. -/
theorem erase_room (h : m.Within owner each all) (hget : m.get? k = some v) :
    ((m.erase k).owned owner (owner v)).length < each ∧ (m.erase k).size < all := by
  have hperm := perm_erase hget
  have howned := (hperm.filter fun e => owner e.2 = owner v).length_eq
  rw [List.filter_cons_of_pos (by simp), List.length_cons] at howned
  have heach := h.each (owner v)
  have hall := h.all
  rw [owned, howned] at heach
  rw [size, hperm.length_eq] at hall
  exact ⟨heach, hall⟩

/-- There is room for an entry. -/
theorem Within.put_new (h : m.Within owner each all) (hget : m.get? k = none)
    (heach : (m.owned owner (owner v)).length < each) (hall : m.size < all) :
    (m.put k v).Within owner each all := by
  have hentries := entries_put_of_get?_eq_none hget v
  constructor
  · intro x
    rw [owned, hentries, List.filter_append, List.length_append]
    by_cases hx : owner v = x
    · subst hx
      rw [List.filter_cons_of_pos (by simp)]
      exact heach
    · rw [List.filter_cons_of_neg (by simpa using hx)]
      exact h.each x
  · rw [size, hentries, List.length_append]
    exact hall

omit [DecidableEq ω] in
/-- The owner of a key does not change. -/
theorem map_owner_put {old : α} (hget : m.get? k = some old) (hv : owner v = owner old) :
    (m.put k v).entries.map (fun e => owner e.2) = m.entries.map fun e => owner e.2 := by
  have hmem := get?_eq_some_iff.mp hget
  simp only [put, if_pos (List.mem_map_of_mem hmem : k ∈ m.entries.map Prod.fst), List.map_map]
  refine List.map_congr_left fun e he => ?_
  by_cases hk : e.1 = k
  · have hold : e.2 = old := eq_of_mem (hk ▸ he : (k, e.2) ∈ m.entries) hmem
    simp [hk, hv, hold]
  · simp [hk]

theorem Within.put_old (h : m.Within owner each all) {old : α} (hget : m.get? k = some old)
    (hv : owner v = owner old) : (m.put k v).Within owner each all := by
  have hmap := map_owner_put hget hv
  constructor
  · intro x
    rw [length_owned, hmap, ← length_owned]
    exact h.each x
  · have hlength := congrArg List.length hmap
    rw [List.length_map, List.length_map] at hlength
    exact hlength.trans_le h.all

end Put

end OrderedMap
