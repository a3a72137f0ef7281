import Mathlib.Tactic

/-! Memory after a list of writes, each to one index. -/

namespace IndexedWrites

variable {ι α : Type*} [DecidableEq ι]

def apply (mem : ι → α) (writes : List (ι × α)) : ι → α :=
  writes.foldl (fun m w => Function.update m w.1 w.2) mem

variable {mem : ι → α} {writes : List (ι × α)} {i : ι} {v : α}

theorem apply_append (first second : List (ι × α)) :
    apply mem (first ++ second) = apply (apply mem first) second := List.foldl_append

/-- Writes to one index that all agree leave their value there. -/
theorem apply_of_agree (hw : (i, v) ∈ writes) (h : ∀ w ∈ writes, w.1 = i → w.2 = v) : apply mem writes i = v := by
  induction writes using List.reverseRecOn with
  | nil => exact absurd hw List.not_mem_nil
  | append_singleton writes w ih =>
    rw [apply_append]
    change Function.update (apply mem writes) w.1 w.2 i = v
    by_cases hi : w.1 = i
    · rw [← hi, Function.update_self]
      exact h w (List.mem_append_right _ List.mem_cons_self) hi
    · rw [Function.update_of_ne (Ne.symm hi)]
      have hne : (i, v) ≠ w := fun heq => hi (congrArg Prod.fst heq).symm
      have hmem : (i, v) ∈ writes := by simpa [hne] using hw
      exact ih hmem fun w' hw' => h w' (List.mem_append_left _ hw')

end IndexedWrites
