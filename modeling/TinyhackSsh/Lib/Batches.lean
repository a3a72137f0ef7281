import Mathlib.Data.List.Range
import Mathlib.Tactic

/-! A scan that joins neighbouring positions with the same key into batches. Reading a
position fails (`none`), finds the end of the data (`some none`), or finds a key. A
batch takes the positions after its first as long as their key is the first's. -/

namespace Batches

variable {κ : Type*}

structure Batch (κ : Type*) where
  start : ℕ
  stop : ℕ
  key : κ
  lt : start < stop
  deriving DecidableEq

namespace Batch

def length (b : Batch κ) : ℕ := b.stop - b.start

def positions (b : Batch κ) : List ℕ := List.range' b.start b.length

theorem mem_positions {b : Batch κ} {i : ℕ} : i ∈ b.positions ↔ b.start ≤ i ∧ i < b.stop := by
  have hlt := b.lt
  rw [positions, List.mem_range'_1, length]
  omega

/-- The batch of one position. -/
def single (i : ℕ) (k : κ) : Batch κ := ⟨i, i + 1, k, Nat.lt_succ_self i⟩

theorem mem_positions_single {i j : ℕ} {k : κ} : j ∈ (single i k).positions ↔ j = i := by
  rw [mem_positions]
  dsimp only [single]
  omega

end Batch

variable [DecidableEq κ] (read : ℕ → Option (Option κ))

/-- The inner loop: where the batch with key `k` ends, from `i` on and with `n` positions left. -/
def batchEnd (k : κ) : (n i : ℕ) → Option {e : ℕ // i ≤ e}
  | 0, i => some ⟨i, le_rfl⟩
  | n + 1, i => (read i).bind fun next =>
    if next = some k then (batchEnd k n (i + 1)).map fun e => ⟨e.1, Nat.le_of_succ_le e.2⟩
    else some ⟨i, le_rfl⟩

/-- The outer loop, from `i` to `n`. -/
def batches (n i : ℕ) : Option (List (Batch κ)) :=
  if i < n then
    (read i).bind fun first => first.elim (some []) fun k =>
      (batchEnd read k (n - (i + 1)) (i + 1)).bind fun e =>
        (batches n e.1).map fun rest => ⟨i, e.1, k, e.2⟩ :: rest
  else some []
termination_by n - i
decreasing_by
  have := e.2
  omega

section Spec

variable {read} {n m : ℕ}

/-- The data end at `m`, and every position before has a key. -/
structure Readable (read : ℕ → Option (Option κ)) (n m : ℕ) : Prop where
  le : m ≤ n
  key : ∀ i < m, ∃ k, read i = some (some k)
  stop : ∀ i, m ≤ i → i < n → read i = some none

/-- The inner loop ends within the data, and what it passes has the batch's key. -/
theorem Readable.batchEnd (h : Readable read n m) (k : κ) {left i : ℕ} (hi : i ≤ m) (hleft : i + left = n) :
    ∃ e, Batches.batchEnd read k left i = some e ∧ e.1 ≤ m ∧ ∀ j, i ≤ j → j < e.1 → read j = some (some k) := by
  induction left generalizing i with
  | zero => exact ⟨⟨i, le_rfl⟩, rfl, hi, fun j hij hj => absurd hij (Nat.not_le.mpr hj)⟩
  | succ left ih =>
    have hstays : ∃ e : {e : ℕ // i ≤ e}, some ⟨i, le_rfl⟩ = some e ∧ e.1 ≤ m ∧
        ∀ j, i ≤ j → j < e.1 → read j = some (some k) :=
      ⟨⟨i, le_rfl⟩, rfl, hi, fun j hij hj => absurd hij (Nat.not_le.mpr hj)⟩
    rcases hi.lt_or_eq with hlt | heq
    · obtain ⟨k', hread⟩ := h.key i hlt
      rw [Batches.batchEnd, hread, Option.bind_some]
      by_cases hk : some k' = some k
      · obtain ⟨e, he, hem, hkeys⟩ := ih hlt (by omega)
        rw [if_pos hk, he, Option.map_some]
        refine ⟨_, rfl, hem, fun j hij hj => ?_⟩
        rcases hij.lt_or_eq with hij | rfl
        · exact hkeys j hij hj
        · rw [hread, hk]
      · rw [if_neg hk]
        exact hstays
    · have hread := h.stop i heq.ge (by omega)
      rw [Batches.batchEnd, hread, Option.bind_some, if_neg (by simp)]
      exact hstays

/-- The batches follow each other from the start to the end of the data, and each
position has the key of its batch. -/
theorem Readable.batches (h : Readable read n m) {i : ℕ} (hi : i ≤ m) :
    ∃ bs, Batches.batches read n i = some bs ∧ bs.flatMap Batch.positions = List.range' i (m - i) ∧
      ∀ b ∈ bs, ∀ j ∈ b.positions, read j = some (some b.key) := by
  -- on what is left of the data; the inner loop takes at least one position
  induction hleft : m - i using Nat.strong_induction_on generalizing i with
  | _ left ih =>
    have hle := h.le
    rw [Batches.batches]
    rcases hi.lt_or_eq with hlt | rfl
    · obtain ⟨k, hread⟩ := h.key i hlt
      obtain ⟨e, he, hem, hkeys⟩ := h.batchEnd k (Nat.succ_le_of_lt hlt) (by omega : i + 1 + (n - (i + 1)) = n)
      have hie := e.2
      obtain ⟨bs, hbs, hpositions, hall⟩ := ih (m - e.1) (by omega) hem rfl
      rw [if_pos (by omega), hread, Option.bind_some, Option.elim_some, he, Option.bind_some, hbs, Option.map_some]
      refine ⟨_, rfl, ?_, ?_⟩
      · rw [List.flatMap_cons, hpositions, Batch.positions, Batch.length]
        have hstop : e.1 = i + (e.1 - i) := by omega
        rw [show left = (e.1 - i) + (m - e.1) by omega, ← List.range'_append_1, ← hstop]
      · rw [List.forall_mem_cons]
        refine ⟨fun j hj => ?_, hall⟩
        obtain ⟨hij, hj⟩ := Batch.mem_positions.mp hj
        rcases hij.lt_or_eq with hij | rfl
        · exact hkeys j hij hj
        · exact hread
    · have hnil : left = 0 := by omega
      rw [hnil, List.range'_zero]
      split_ifs with hin
      · rw [h.stop i le_rfl hin, Option.bind_some, Option.elim_none]
        exact ⟨[], rfl, rfl, List.forall_mem_nil _⟩
      · exact ⟨[], rfl, rfl, List.forall_mem_nil _⟩

end Spec

/-! What every batch contributes to the one position it holds. -/

section Contribution

omit [DecidableEq κ]

variable {α ι : Type*} [DecidableEq ι]

theorem flatMap_of_not_mem {l : List ι} {i : ι} (h : i ∉ l) (x : List α) :
    (l.flatMap fun j => if j = i then x else []) = [] := by
  apply List.flatMap_eq_nil_iff.mpr
  intro j hj
  apply if_neg
  rintro rfl
  exact h hj

/-- Of the members of a list without repetitions, one contributes. -/
theorem flatMap_of_mem {l : List ι} (h : l.Nodup) {i : ι} (hi : i ∈ l) (x : List α) :
    (l.flatMap fun j => if j = i then x else []) = x := by
  obtain ⟨before, after, rfl⟩ := List.append_of_mem hi
  have hnot := (List.nodup_cons.mp (List.nodup_middle.mp h)).1
  obtain ⟨hbefore, hafter⟩ := not_or.mp (mt List.mem_append.mpr hnot)
  rw [List.flatMap_append, List.flatMap_cons, flatMap_of_not_mem hbefore, flatMap_of_not_mem hafter, if_pos rfl,
    List.nil_append, List.append_nil]

/-- If the batches cover each position once, exactly one of them contributes to it. -/
theorem flatMap_batches_at {bs : List (Batch κ)} {n i : ℕ} (h : bs.flatMap Batch.positions = List.range n) (hi : i < n)
    (x : List α) : (bs.flatMap fun b => if i ∈ b.positions then x else []) = x := by
  have hone : ∀ b : Batch κ,
      (if i ∈ b.positions then x else []) = b.positions.flatMap fun j => if j = i then x else [] := by
    intro b
    split_ifs with hb
    · exact (flatMap_of_mem List.nodup_range' hb x).symm
    · exact (flatMap_of_not_mem hb x).symm
  simp only [hone]
  rw [← List.flatMap_assoc, h, flatMap_of_mem List.nodup_range (List.mem_range.mpr hi)]

end Contribution

end Batches
