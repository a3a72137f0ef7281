import Mathlib.Tactic

/-! A file written through an offset that may lie behind its end: what was
skipped reads as zeros. -/

namespace SparseFile

variable {α : Type*} [Zero α]

/-- The content up to length `n`, with zeros where nothing was written. -/
def pad (content : List α) (n : ℕ) : List α := content ++ List.replicate (n - content.length) 0

/-- `write` at an offset. -/
def writeAt (content : List α) (offset : ℕ) (data : List α) : List α :=
  (pad content offset).take offset ++ data ++ content.drop (offset + data.length)

/-- `ftruncate`. -/
def truncate (content : List α) (n : ℕ) : List α := (pad content n).take n

variable {content data : List α} {offset n : ℕ}

theorem length_pad (h : content.length ≤ n) : (pad content n).length = n := by
  simp only [pad, List.length_append, List.length_replicate]
  omega

theorem pad_length (content : List α) : pad content content.length = content := by
  simp [pad]

/-- Behind the end, a write fills the hole and appends. -/
theorem writeAt_end (h : content.length ≤ offset) : writeAt content offset data = pad content offset ++ data := by
  rw [writeAt, List.take_of_length_le (length_pad h).le, List.drop_of_length_le (by omega), List.append_nil]

theorem pad_writeAt_end (h : content.length ≤ offset) :
    pad (writeAt content offset data) (offset + data.length) = pad content offset ++ data := by
  have hlen : (writeAt content offset data).length = offset + data.length := by
    rw [writeAt_end h, List.length_append, length_pad h]
  rw [← hlen, pad_length, writeAt_end h]

/-- Skipping zeros is writing them. -/
theorem pad_append_zeros (h : content.length ≤ offset) (hdata : ∀ b ∈ data, b = 0) :
    pad content (offset + data.length) = pad content offset ++ data := by
  rw [List.eq_replicate_iff.mpr ⟨rfl, hdata⟩, pad, pad, List.append_assoc, List.replicate_append_replicate,
    List.length_replicate]
  congr 2
  omega

theorem truncate_pad (h : content.length ≤ n) : truncate content n = pad content n := by
  rw [truncate, List.take_of_length_le (length_pad h).le]

theorem pad_pad (h : content.length ≤ offset) (hn : offset ≤ n) : pad (pad content offset) n = pad content n := by
  rw [pad, length_pad h, pad, pad, List.append_assoc, List.replicate_append_replicate]
  congr 2
  omega

end SparseFile
