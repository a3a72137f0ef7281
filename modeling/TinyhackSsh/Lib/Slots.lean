import Mathlib.Tactic

/-! A row of slots that is filled piece by piece, in any order, with the pieces of one
list. The row grows as needed; the pieces are all there as soon as their number is. -/

namespace Slots

variable {α : Type*}

/-- The row with at least `n` slots. -/
def grow (slots : List (Option α)) (n : ℕ) : List (Option α) := slots ++ List.replicate (n - slots.length) none

/-- Piece `i`. -/
def put (slots : List (Option α)) (i : ℕ) (x : α) : List (Option α) := (grow slots (i + 1)).set i (some x)

def filled (slots : List (Option α)) : ℕ := slots.countP Option.isSome

/-- The slots hold pieces of `pieces`, each at its place. -/
structure Of (pieces : List α) (slots : List (Option α)) : Prop where
  length_le : slots.length ≤ pieces.length
  piece : ∀ (i : ℕ) (x : α), slots[i]? = some (some x) → pieces[i]? = some x

variable {pieces : List α} {slots : List (Option α)} {i n : ℕ} {x : α}

theorem length_grow : (grow slots n).length = max slots.length n := by
  rw [grow, List.length_append, List.length_replicate]
  omega

theorem length_put : (put slots i x).length = max slots.length (i + 1) := by
  rw [put, List.length_set, length_grow]

theorem getElem?_grow_some {y : α} (h : (grow slots n)[i]? = some (some y)) : slots[i]? = some (some y) := by
  rw [grow, List.getElem?_append] at h
  split_ifs at h with hlt
  · exact h
  · rw [List.getElem?_replicate] at h
    split_ifs at h
    cases h

theorem getElem?_grow_of_some {y : α} (h : slots[i]? = some (some y)) : (grow slots n)[i]? = some (some y) := by
  rw [grow, List.getElem?_append_left (List.getElem?_eq_some_iff.mp h).1, h]

theorem getElem?_put_self : (put slots i x)[i]? = some (some x) := by
  rw [put, List.getElem?_set_self]
  rw [length_grow]
  omega

/-- The other pieces stay. -/
theorem getElem?_put_of_some {j : ℕ} {y : α} (hi : (slots[i]?).join = none) (h : slots[j]? = some (some y)) :
    (put slots i x)[j]? = some (some y) := by
  rcases eq_or_ne i j with rfl | hij
  · rw [h] at hi
    cases hi
  · rw [put, List.getElem?_set_ne hij]
    exact getElem?_grow_of_some h

theorem Of.nil : Of pieces [] := ⟨Nat.zero_le _, fun i x h => by cases h⟩

theorem Of.grow (h : Of pieces slots) (hn : n ≤ pieces.length) : Of pieces (grow slots n) where
  length_le := by
    rw [length_grow]
    exact max_le h.length_le hn
  piece i x hx := h.piece i x (getElem?_grow_some hx)

theorem Of.put (h : Of pieces slots) (hx : pieces[i]? = some x) : Of pieces (put slots i x) where
  length_le := by
    have hi := (List.getElem?_eq_some_iff.mp hx).1
    rw [length_put]
    exact max_le h.length_le hi
  piece j y hy := by
    rw [Slots.put, List.getElem?_set] at hy
    split_ifs at hy with hij hlt
    · subst hij
      rwa [← Option.some.inj (Option.some.inj hy)]
    · exact h.piece j y (getElem?_grow_some hy)

theorem filled_grow : filled (grow slots n) = filled slots := by
  rw [filled, grow, List.countP_append, List.countP_replicate]
  simp [filled]

theorem filled_set {slots : List (Option α)} (h : slots[i]? = some none) :
    filled (slots.set i (some x)) = filled slots + 1 := by
  induction slots generalizing i with
  | nil => cases h
  | cons a slots ih =>
    cases i with
    | zero =>
      obtain rfl : a = none := Option.some.inj h
      simp [filled]
    | succ i =>
      have hrest := ih (i := i) (by simpa using h)
      simp only [filled] at hrest ⊢
      rw [List.set_cons_succ, List.countP_cons, List.countP_cons, hrest]
      omega

/-- A piece that was missing counts. -/
theorem filled_put (h : (slots[i]?).join = none) : filled (put slots i x) = filled slots + 1 := by
  rw [put, filled_set, filled_grow]
  have hlt : i < (grow slots (i + 1)).length := by
    rw [length_grow]
    omega
  rw [List.getElem?_eq_getElem hlt]
  cases hget : (grow slots (i + 1)).get ⟨i, hlt⟩ with
  | none => exact congrArg some hget
  | some y =>
    have hsome : (grow slots (i + 1))[i]? = some (some y) := by
      rw [List.getElem?_eq_getElem hlt]
      exact congrArg some hget
    rw [getElem?_grow_some hsome] at h
    cases h

theorem filled_le : filled slots ≤ slots.length := List.countP_le_length

/-- All pieces are there. -/
theorem Of.filled_eq (h : Of pieces slots) (hall : ∀ i < pieces.length, ∃ y, slots[i]? = some (some y)) :
    filled slots = pieces.length := by
  have hlen : slots.length = pieces.length := by
    refine le_antisymm h.length_le (not_lt.mp fun hlt => ?_)
    obtain ⟨y, hy⟩ := hall _ hlt
    rw [List.getElem?_eq_none le_rfl] at hy
    cases hy
  rw [filled, ← hlen, List.countP_eq_length]
  intro o ho
  obtain ⟨i, hi⟩ := List.mem_iff_getElem?.mp ho
  obtain ⟨y, hy⟩ := hall i (hlen ▸ (List.getElem?_eq_some_iff.mp hi).1)
  obtain rfl := Option.some.inj (hi.symm.trans hy)
  rfl

/-- As many pieces as there are: all of them. -/
theorem Of.complete (h : Of pieces slots) (hall : filled slots = pieces.length) : slots = pieces.map some := by
  have hlen : slots.length = pieces.length := le_antisymm h.length_le (hall ▸ filled_le)
  have hsome : ∀ y ∈ slots, y.isSome = true := List.countP_eq_length.mp (hall.trans hlen.symm)
  apply List.ext_getElem?
  intro i
  rcases lt_or_ge i slots.length with hi | hi
  · obtain ⟨x, hx⟩ := Option.isSome_iff_exists.mp (hsome _ (List.getElem_mem hi))
    have hget : slots[i]? = some (some x) := by rw [List.getElem?_eq_getElem hi, hx]
    rw [hget, List.getElem?_map, h.piece i x hget, Option.map_some]
  · rw [List.getElem?_eq_none hi, List.getElem?_map, List.getElem?_eq_none (hlen ▸ hi), Option.map_none]

end Slots
