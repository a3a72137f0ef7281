import Mathlib.Tactic

/-! `write(2)` without hard errors: a call is interrupted before it takes anything, or it
takes at least one and at most all of what it is given. -/

namespace PosixWrite

/-- What each call does, in order: `none` is `EINTR`, and `some k` takes up to `k + 1` elements. -/
abbrev Outcomes := ℕ → Option ℕ

/-- Signals do not interrupt every call from some point on. -/
def Fair (o : Outcomes) : Prop := ∀ n, ∃ m, n ≤ m ∧ (o m).isSome = true

structure Channel (α : Type) where
  received : List α
  /-- the number of calls so far -/
  calls : ℕ
  deriving DecidableEq

/-- The count is `none` for `EINTR`. -/
def write {α : Type} (o : Outcomes) (c : Channel α) (data : List α) : Channel α × Option ℕ :=
  match o c.calls with
  | none => (⟨c.received, c.calls + 1⟩, none)
  | some k => (⟨c.received ++ data.take (k + 1), c.calls + 1⟩, some (min (k + 1) data.length))

/-- One call for each block, whatever the counts. -/
def writeEach {α : Type} (o : Outcomes) (c : Channel α) (blocks : List (List α)) : Channel α :=
  blocks.foldl (fun c data => (write o c data).1) c

/-- The call takes all of a block of `n` elements. -/
def Whole (outcome : Option ℕ) (n : ℕ) : Prop := ∃ k, outcome = some k ∧ n ≤ k + 1

section Writes

variable {α : Type} {o : Outcomes} {c : Channel α} {data : List α}

@[simp] theorem calls_write (o : Outcomes) (c : Channel α) (data : List α) :
    (write o c data).1.calls = c.calls + 1 := by
  unfold write
  cases o c.calls <;> rfl

theorem write_interrupted (h : o c.calls = none) (data : List α) :
    write o c data = (⟨c.received, c.calls + 1⟩, none) := by
  unfold write
  rw [h]

theorem write_taken {k : ℕ} (h : o c.calls = some k) (data : List α) :
    write o c data = (⟨c.received ++ data.take (k + 1), c.calls + 1⟩, some (min (k + 1) data.length)) := by
  unfold write
  rw [h]

theorem received_write (h : Whole (o c.calls) data.length) : (write o c data).1.received = c.received ++ data := by
  obtain ⟨k, hk, hle⟩ := h
  rw [write_taken hk, List.take_of_length_le hle]

theorem length_received_write_le (o : Outcomes) (c : Channel α) (data : List α) :
    (write o c data).1.received.length ≤ c.received.length + data.length := by
  unfold write
  cases o c.calls with
  | none => simp
  | some k => simp

/-- A short or interrupted call loses something. -/
theorem length_received_write_lt (hne : data ≠ []) (h : ¬ Whole (o c.calls) data.length) :
    (write o c data).1.received.length < c.received.length + data.length := by
  have hpos : 0 < data.length := List.length_pos_iff.mpr hne
  unfold write
  cases ho : o c.calls with
  | none => simpa using hpos
  | some k =>
    have hk : k + 1 < data.length := by
      by_contra hle
      exact h ⟨k, ho, Nat.le_of_not_lt hle⟩
    simp only [List.length_append, List.length_take]
    omega

end Writes

section Blocks

variable {α : Type} {o : Outcomes}

theorem length_received_writeEach_le (blocks : List (List α)) (c : Channel α) :
    (writeEach o c blocks).received.length ≤ c.received.length + blocks.flatten.length := by
  induction blocks generalizing c with
  | nil => simp [writeEach]
  | cons data blocks ih =>
    have hrest := ih (write o c data).1
    have hfirst := length_received_write_le o c data
    rw [List.flatten_cons, List.length_append]
    change (writeEach o (write o c data).1 blocks).received.length ≤ _
    omega

/-- Blocks sent by one call each arrive together if and only if every call takes its whole block. -/
theorem received_writeEach_iff (blocks : List (List α)) (hne : ∀ data ∈ blocks, data ≠ []) (c : Channel α) :
    (writeEach o c blocks).received = c.received ++ blocks.flatten ↔
      ∀ i data, blocks[i]? = some data → Whole (o (c.calls + i)) data.length := by
  induction blocks generalizing c with
  | nil => simp [writeEach]
  | cons data blocks ih =>
    have hstep : writeEach o c (data :: blocks) = writeEach o (write o c data).1 blocks := rfl
    have hrest := ih (fun d hd => hne d (List.mem_cons_of_mem _ hd)) (write o c data).1
    rw [calls_write] at hrest
    rw [hstep, List.flatten_cons, ← List.append_assoc]
    constructor
    · intro h
      have hwhole : Whole (o c.calls) data.length := by
        by_contra hshort
        have hlt := length_received_write_lt (hne data List.mem_cons_self) hshort
        have hle := length_received_writeEach_le (o := o) blocks (write o c data).1
        rw [h] at hle
        simp only [List.length_append] at hle
        omega
      intro i d hi
      rw [← received_write hwhole] at h
      cases i with
      | zero =>
        obtain rfl : data = d := by simpa using hi
        exact hwhole
      | succ i =>
        rw [← Nat.add_assoc, Nat.add_right_comm]
        exact hrest.mp h i d (by simpa using hi)
    · intro h
      rw [← received_write (h 0 data rfl)]
      refine hrest.mpr fun i d hi => ?_
      rw [Nat.add_assoc, Nat.add_comm 1]
      exact h (i + 1) d (by simpa using hi)

end Blocks

end PosixWrite
