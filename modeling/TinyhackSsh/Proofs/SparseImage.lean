import Mathlib.Data.List.TakeWhile
import TinyhackSsh.Spec.SparseImage

/-! What `uml-sparse-image` leaves behind, however its reads and writes are cut. -/

namespace Tinyhack.SparseImage

open SparseFile PosixWrite

/-- The new file holds `done` up to the offset. -/
structure Copied (done : Bytes) (s : State) : Prop where
  exists_content : ∃ content, s.file = some content ∧ content.length ≤ s.offset ∧ pad content s.offset = done

theorem Copied.offset_eq {done : Bytes} {s : State} (h : Copied done s) : s.offset = done.length := by
  obtain ⟨content, -, hle, rfl⟩ := h.exists_content
  exact (length_pad hle).symm

/-- How far the copy of `data` into a file of `size` bytes has come. -/
inductive Progress (data : Bytes) (size : ℕ) : State → Prop
  | reading {s : State} {block : Bytes} (done : Bytes) (hpc : s.pc = .reading block) (hsize : s.requested = size)
      (hcopied : Copied done s) (hdata : data = done ++ block ++ s.input) (htotal : s.total = done.length)
      (hle : s.total ≤ size) (hblock : block.length < BLOCK) : Progress data size s
  | writing {s : State} {block : Bytes} {written : ℕ} (done : Bytes) (hpc : s.pc = .writing block written)
      (hsize : s.requested = size) (hcopied : Copied (done ++ block.take written) s)
      (hdata : data = done ++ block ++ s.input) (htotal : s.total = done.length + block.length) (hle : s.total ≤ size)
      (hwritten : written < block.length) (hlast : block.length < BLOCK → s.input = []) : Progress data size s
  | complete {s : State} (hpc : s.pc = .exited 0) (hlen : 0 < data.length ∧ data.length ≤ size)
      (hfile : s.file = some (pad data size)) : Progress data size s
  | failed {s : State} (hpc : s.pc = .exited 1) (hlen : ¬ (0 < data.length ∧ data.length ≤ size)) : Progress data size s

section Steps

variable {data block : Bytes} {size : ℕ} {s : State}

theorem progress_finish (hsize : s.requested = size) (hcopied : Copied data s) (htotal : s.total = data.length)
    (hle : s.total ≤ size) : Progress data size s.finish := by
  unfold State.finish
  split_ifs with hzero
  · exact .failed rfl (by omega)
  · refine .complete rfl (by omega) ?_
    obtain ⟨content, hfile, hlen, hpad⟩ := hcopied.exists_content
    have hoffset := hcopied.offset_eq
    simp only [State.exit, hfile, Option.map_some, hsize]
    rw [truncate_pad (by omega), ← hpad, pad_pad hlen (by omega)]

theorem progress_nextBlock {used : ℕ} (done : Bytes) (hsize : s.requested = size) (hcopied : Copied done s)
    (hdata : data = done ++ s.input) (htotal : s.total = done.length) (hle : s.total ≤ size)
    (hlast : used < BLOCK → s.input = []) : Progress data size (s.nextBlock used) := by
  unfold State.nextBlock
  split_ifs with hused
  · rw [hlast hused, List.append_nil] at hdata
    subst hdata
    exact progress_finish hsize hcopied htotal hle
  · exact .reading done rfl hsize ⟨hcopied.exists_content⟩ (by simpa using hdata) htotal hle (by decide)

theorem progress_blockRead (done : Bytes) (hsize : s.requested = size) (hcopied : Copied done s)
    (hdata : data = done ++ block ++ s.input) (htotal : s.total = done.length) (hle : s.total ≤ size)
    (hlast : block.length < BLOCK → s.input = []) : Progress data size (s.blockRead block) := by
  unfold State.blockRead
  split_ifs with hempty hfits hzeros
  · -- the end of the input on a block boundary
    subst hempty
    rw [hlast (by decide), List.append_nil, List.append_nil] at hdata
    subst hdata
    exact progress_finish hsize hcopied htotal hle
  · refine .failed rfl ?_
    rw [hdata, List.length_append, List.length_append]
    omega
  · -- a zero block is skipped
    have hall : ∀ b ∈ block, b = 0 := by simpa using hzeros
    refine progress_nextBlock (done ++ block) hsize ⟨?_⟩ hdata ?_ ?_ hlast
    · obtain ⟨content, hfile, hlen, hpad⟩ := hcopied.exists_content
      exact ⟨content, hfile, by simp only; omega, by rw [← hpad]; exact pad_append_zeros hlen hall⟩
    · simp [htotal]
    · simp only
      omega
  · refine .writing done rfl hsize ⟨?_⟩ hdata ?_ ?_ (List.length_pos_iff.mpr hempty) hlast
    · simpa using hcopied.exists_content
    · simp [htotal]
    · simp only
      omega

theorem step_exited {status : ℕ} (hpc : s.pc = .exited status) (outcome : Option ℕ) : step s outcome = s := by
  cases outcome with
  | none => rfl
  | some k => simp only [step, hpc]

theorem progress_read {k : ℕ} (done : Bytes) (hpc : s.pc = .reading block) (hsize : s.requested = size)
    (hcopied : Copied done s) (hdata : data = done ++ block ++ s.input) (htotal : s.total = done.length)
    (hle : s.total ≤ size) (hblock : block.length < BLOCK) : Progress data size (step s (some k)) := by
  simp only [step, hpc]
  generalize hn : min (k + 1) (BLOCK - block.length) = n
  have hsplit : data = done ++ (block ++ s.input.take n) ++ s.input.drop n := by
    rw [hdata, List.append_assoc done (block ++ _), List.append_assoc block, List.take_append_drop, List.append_assoc]
  have hpos : 0 < n := by omega
  split_ifs with hgot hmore
  · -- `read` returns 0 at the end of the input only
    have hnil : s.input = [] := by
      rcases List.take_eq_nil_iff.mp hgot with h | h
      · omega
      · exact h
    rw [hgot, List.append_nil] at hsplit
    exact progress_blockRead done hsize ⟨hcopied.exists_content⟩ hsplit htotal hle fun _ => by simp [hnil]
  · exact .reading done rfl hsize ⟨hcopied.exists_content⟩ hsplit htotal hle hmore
  · exact progress_blockRead done hsize ⟨hcopied.exists_content⟩ hsplit htotal hle fun h => absurd h hmore

theorem progress_write {k written : ℕ} (done : Bytes) (hpc : s.pc = .writing block written) (hsize : s.requested = size)
    (hcopied : Copied (done ++ block.take written) s) (hdata : data = done ++ block ++ s.input)
    (htotal : s.total = done.length + block.length) (hle : s.total ≤ size)
    (hlast : block.length < BLOCK → s.input = []) : Progress data size (step s (some k)) := by
  simp only [step, hpc]
  generalize hpart : (block.drop written).take (k + 1) = part
  have hcopied' : ∃ content, s.file.map (writeAt · s.offset part) = some content ∧
      content.length ≤ s.offset + part.length ∧
      pad content (s.offset + part.length) = done ++ block.take (written + part.length) := by
    obtain ⟨content, hfile, hlen, hpad⟩ := hcopied.exists_content
    refine ⟨writeAt content s.offset part, by rw [hfile, Option.map_some], ?_, ?_⟩
    · rw [writeAt_end hlen, List.length_append, length_pad hlen]
    · have hprefix : part = (block.drop written).take part.length := by
        rw [← hpart, List.length_take, ← List.take_take, List.take_length]
      rw [pad_writeAt_end hlen, hpad, List.append_assoc, List.take_add, ← hprefix]
  split_ifs with hmore
  · exact .writing done rfl hsize ⟨hcopied'⟩ hdata htotal hle hmore hlast
  · rw [List.take_of_length_le (by omega)] at hcopied'
    exact progress_nextBlock (done ++ block) hsize ⟨hcopied'⟩ hdata (by simp [htotal]) hle hlast

theorem progress_step (h : Progress data size s) (outcome : Option ℕ) : Progress data size (step s outcome) := by
  cases outcome with
  | none => exact h
  | some k =>
    cases h with
    | reading done hpc hsize hcopied hdata htotal hle hblock =>
      exact progress_read done hpc hsize hcopied hdata htotal hle hblock
    | writing done hpc hsize hcopied hdata htotal hle hwritten hlast =>
      exact progress_write done hpc hsize hcopied hdata htotal hle hlast
    | complete hpc hlen hfile =>
      rw [step_exited hpc]
      exact .complete hpc hlen hfile
    | failed hpc hlen =>
      rw [step_exited hpc]
      exact .failed hpc hlen

end Steps

/-! The loop ends. -/

def Exited (s : State) : Prop := ∃ status, s.pc = .exited status

/-- Unread bytes, bytes of an unfinished block and unwritten bytes, so weighted that each call counts. -/
def remaining (s : State) : ℕ :=
  match s.pc with
  | .reading block => 3 * s.input.length + 2 * block.length + 2
  | .writing block written => 3 * s.input.length + (block.length - written) + 2
  | .exited _ => 0

section Measure

variable {block : Bytes} {s : State}

theorem remaining_finish (s : State) : remaining s.finish = 0 := by
  unfold State.finish
  split_ifs <;> rfl

theorem remaining_nextBlock_le (s : State) (used : ℕ) : remaining (s.nextBlock used) ≤ 3 * s.input.length + 2 := by
  unfold State.nextBlock
  split_ifs
  · rw [remaining_finish]
    omega
  · simp [remaining]

theorem remaining_blockRead_le (s : State) (block : Bytes) :
    remaining (s.blockRead block) ≤ 3 * s.input.length + block.length + 2 := by
  unfold State.blockRead
  split_ifs
  · rw [remaining_finish]
    omega
  · simp [remaining, State.exit]
  · refine (remaining_nextBlock_le _ _).trans ?_
    simp only
    omega
  · simp [remaining]

theorem remaining_read (k : ℕ) (hpc : s.pc = .reading block) :
    remaining (step s (some k)) < remaining s := by
  have hbefore : remaining s = 3 * s.input.length + 2 * block.length + 2 := by rw [remaining, hpc]
  rw [hbefore]
  simp only [step, hpc]
  generalize hn : min (k + 1) (BLOCK - block.length) = n
  have hlen : (s.input.take n).length + (s.input.drop n).length = s.input.length := by
    rw [← List.length_append, List.take_append_drop]
  split_ifs with hgot hmore
  · by_cases hempty : block = []
    · rw [State.blockRead, if_pos hempty, remaining_finish]
      omega
    · have hpos := List.length_pos_iff.mpr hempty
      refine lt_of_le_of_lt (remaining_blockRead_le _ _) ?_
      simp only
      omega
  · have hpos := List.length_pos_iff.mpr hgot
    simp only [remaining, List.length_append]
    omega
  · have hpos := List.length_pos_iff.mpr hgot
    refine lt_of_le_of_lt (remaining_blockRead_le _ _) ?_
    simp only [List.length_append]
    omega

theorem remaining_write {written : ℕ} (k : ℕ) (hpc : s.pc = .writing block written)
    (hwritten : written < block.length) :
    remaining (step s (some k)) < remaining s := by
  have hbefore : remaining s = 3 * s.input.length + (block.length - written) + 2 := by rw [remaining, hpc]
  rw [hbefore]
  have hpart : ((block.drop written).take (k + 1)).length = min (k + 1) (block.length - written) := by
    rw [List.length_take, List.length_drop]
  simp only [step, hpc]
  split_ifs with hmore
  · simp only [remaining]
    omega
  · refine lt_of_le_of_lt (remaining_nextBlock_le _ _) ?_
    simp only
    omega

theorem exited_or_remaining_lt {data : Bytes} {size : ℕ} (h : Progress data size s) (hrunning : ¬ Exited s) (k : ℕ) :
    remaining (step s (some k)) < remaining s := by
  cases h with
  | reading done hpc hsize hcopied hdata htotal hle hblock => exact remaining_read k hpc
  | writing done hpc hsize hcopied hdata htotal hle hwritten hlast => exact remaining_write k hpc hwritten
  | complete hpc hlen hfile => exact absurd ⟨0, hpc⟩ hrunning
  | failed hpc hlen => exact absurd ⟨1, hpc⟩ hrunning

end Measure

/-! The size argument. -/

theorem isDigit_iff {c : Char} : c.isDigit = true ↔ 48 ≤ c.toNat ∧ c.toNat ≤ 57 := by
  simp only [Char.isDigit, Bool.and_eq_true, decide_eq_true_eq, UInt32.le_iff_toNat_le]
  rfl

theorem isSpace_of_isDigit {c : Char} (h : c.isDigit = true) : isSpace c = false := by
  obtain ⟨hlo, hhi⟩ := isDigit_iff.mp h
  have hne : c ≠ ' ' := by
    rintro rfl
    exact absurd hlo (by decide)
  have hgt : ¬ c ≤ '\r' := by
    intro hle
    have : c.toNat ≤ 13 := hle
    omega
  simp [isSpace, hne, hgt]

theorem strtoll_digits {size : JString} (hne : size ≠ []) (hdigits : ∀ c ∈ size, c.isDigit = true) :
    strtoll size = if LLONG_MAX < digitsValue size then ⟨LLONG_MAX, true, []⟩ else ⟨digitsValue size, false, []⟩ := by
  have htake : size.takeWhile Char.isDigit = size := List.takeWhile_eq_self_iff.mpr hdigits
  have hdrop : size.dropWhile Char.isDigit = [] := List.dropWhile_eq_nil_iff.mpr hdigits
  obtain ⟨c, cs, rfl⟩ := List.exists_cons_of_ne_nil hne
  have hc := hdigits c List.mem_cons_self
  have hspace : (c :: cs).dropWhile isSpace = c :: cs := by
    rw [List.dropWhile_cons_of_neg]
    simp [isSpace_of_isDigit hc]
  have hminus : c ≠ '-' := by
    rintro rfl
    exact absurd hc (by decide)
  have hplus : c ≠ '+' := by
    rintro rfl
    exact absurd hc (by decide)
  have hlow : ¬ (digitsValue (c :: cs) : ℤ) < -LLONG_MAX - 1 := by omega
  simp [strtoll, hspace, hminus, hplus, htake, hdrop, hlow]

theorem requestedSize_digits {size : JString} (hne : size ≠ []) (hdigits : ∀ c ∈ size, c.isDigit = true) :
    requestedSize size =
      if 0 < digitsValue size ∧ digitsValue size ≤ LLONG_MAX then some (digitsValue size) else none := by
  simp only [requestedSize, strtoll_digits hne hdigits]
  by_cases hmax : LLONG_MAX < digitsValue size
  · rw [if_pos hmax, if_pos (.inl rfl), if_neg (by omega)]
  · rw [if_neg hmax]
    by_cases hpos : 0 < digitsValue size
    · rw [if_neg (by simp [hne]; omega), if_pos ⟨hpos, by omega⟩]
      rfl
    · rw [if_pos (by simp; omega), if_neg (by omega)]

/-! Whole runs. -/

section Runs

variable {o : Outcomes} {size : JString} {input : Bytes}

/-- `O_EXCL`: an existing file ends the program. -/
theorem run_existing (o : Outcomes) (content : Bytes) (size : JString) (input : Bytes) (n : ℕ) :
    (∃ status, status ≠ 0 ∧ (run o (some content) size input n).pc = .exited status) ∧
      (run o (some content) size input n).file = some content := by
  have hstart : ∃ status, status ≠ 0 ∧ (start (some content) size input).pc = .exited status := by
    unfold start
    cases requestedSize size with
    | none => exact ⟨2, by decide, rfl⟩
    | some requested => exact ⟨1, by decide, rfl⟩
  have hfile : (start (some content) size input).file = some content := by
    unfold start
    cases requestedSize size <;> rfl
  refine drive_inv (fun s : State => (∃ status, status ≠ 0 ∧ s.pc = .exited status) ∧ s.file = some content)
    ⟨hstart, hfile⟩ ?_ n
  rintro s outcome ⟨⟨status, hstatus, hpc⟩, hs⟩
  rw [step_exited hpc]
  exact ⟨⟨status, hstatus, hpc⟩, hs⟩

theorem progress_run {requested : ℕ} (hsize : requestedSize size = some requested) (n : ℕ) :
    Progress input requested (run o none size input n) := by
  refine drive_inv (Progress input requested) ?_ (fun s outcome h => progress_step h outcome) n
  simp only [start, hsize, if_true]
  exact .reading [] rfl rfl ⟨[], rfl, le_rfl, rfl⟩ rfl rfl (Nat.zero_le _) (by decide)

theorem run_exits {requested : ℕ} (hfair : Fair o) (hsize : requestedSize size = some requested) (input : Bytes) :
    ∃ n, Exited (run o none size input n) :=
  hfair.exists_final (fun _ => rfl) (Progress input requested) Exited remaining (progress_run (o := o) hsize 0)
    (fun _ outcome h => progress_step h outcome)
    fun _ k h hrunning => .inr (exited_or_remaining_lt h hrunning k)

end Runs

/-- For a size that fits `long long`, and unless signals interrupt every call from some point on: success if and only if
the output is new and the input not empty nor too long; then the image is the input followed by zeros. -/
theorem sparseImage_correct (o : Outcomes) (hfair : Fair o) (output : Option Bytes) (size : JString) (hne : size ≠ [])
    (hdigits : ∀ c ∈ size, c.isDigit = true) (hpos : 0 < digitsValue size) (hmax : digitsValue size ≤ LLONG_MAX)
    (input : Bytes) :
    ((∃ n, (run o output size input n).pc = .exited 0) ↔
      output = none ∧ 0 < input.length ∧ input.length ≤ digitsValue size) ∧
    (∀ n, (run o output size input n).pc = .exited 0 → (run o output size input n).file =
      some (input ++ List.replicate (digitsValue size - input.length) 0)) ∧
    (∀ content, output = some content → ∀ n, (run o output size input n).file = some content) := by
  have hsize : requestedSize size = some (digitsValue size) := by
    rw [requestedSize_digits hne hdigits, if_pos ⟨hpos, hmax⟩]
  cases output with
  | some content =>
    have hrun := run_existing o content size input
    refine ⟨⟨?_, fun h => absurd h.1 (Option.some_ne_none _)⟩, ?_, ?_⟩
    · rintro ⟨n, hn⟩
      obtain ⟨⟨status, hstatus, hpc⟩, -⟩ := hrun n
      rw [hpc] at hn
      exact absurd (Pc.exited.inj hn) hstatus
    · intro n hn
      obtain ⟨⟨status, hstatus, hpc⟩, -⟩ := hrun n
      rw [hpc] at hn
      exact absurd (Pc.exited.inj hn) hstatus
    · rintro content' ⟨rfl⟩ n
      exact (hrun n).2
  | none =>
    have hprogress : ∀ n, Progress input (digitsValue size) (run o none size input n) := progress_run hsize
    have hdone : ∀ n, (run o none size input n).pc = .exited 0 → (0 < input.length ∧ input.length ≤ digitsValue size) ∧
        (run o none size input n).file = some (pad input (digitsValue size)) := by
      intro n hn
      cases hprogress n with
      | reading done hpc => exact absurd (hpc.symm.trans hn) Pc.noConfusion
      | writing done hpc => exact absurd (hpc.symm.trans hn) Pc.noConfusion
      | complete hpc hlen hfile => exact ⟨hlen, hfile⟩
      | failed hpc => exact absurd (Pc.exited.inj (hpc.symm.trans hn)) Nat.one_ne_zero
    refine ⟨⟨fun ⟨n, hn⟩ => ⟨rfl, (hdone n hn).1⟩, ?_⟩, fun n hn => (hdone n hn).2, fun content h => ?_⟩
    · rintro ⟨-, hlen⟩
      obtain ⟨n, status, hn⟩ := run_exits hfair hsize input
      cases hprogress n with
      | reading done hpc => exact absurd (hpc.symm.trans hn) Pc.noConfusion
      | writing done hpc => exact absurd (hpc.symm.trans hn) Pc.noConfusion
      | complete hpc => exact ⟨n, hpc⟩
      | failed hpc hnot => exact absurd hlen hnot
    · exact absurd h.symm (Option.some_ne_none _)

theorem sparseImage_correct_short :
    (∃ n, (run (fun _ => some 0) none "3".toList [1, 0] n).pc = .exited 0) ∧
    ∀ n, (run (fun _ => some 0) none "3".toList [1, 0] n).pc = .exited 0 →
      (run (fun _ => some 0) none "3".toList [1, 0] n).file = some [1, 0, 0] := by
  have h := sparseImage_correct (fun _ => some 0) (fun n => ⟨n, le_rfl, rfl⟩) none "3".toList (by decide)
    (List.all_eq_true.mp (by decide)) (by decide) (by decide) [1, 0]
  exact ⟨h.1.mpr (by decide), h.2.1⟩

/-- A size of 2^63 bytes is refused, and endless signals keep the program in its first `read`. -/
theorem sparseImage_refuses :
    (digitsValue "9223372036854775808".toList = 2 ^ 63 ∧ Fair (fun _ => some 0) ∧
      ∀ n, (run (fun _ => some 0) none "9223372036854775808".toList [1] n).pc = .exited 2) ∧
    ∀ n, (run (fun _ => none) none "1".toList [1] n).pc = .reading [] := by
  refine ⟨⟨by decide, fun n => ⟨n, le_rfl, rfl⟩, fun n => ?_⟩, fun n => ?_⟩
  · refine drive_inv (fun s : State => s.pc = .exited 2) (by decide) (fun s outcome h => ?_) n
    rw [step_exited h]
    exact h
  · induction n with
    | zero => decide
    | succ n ih => exact ih

end Tinyhack.SparseImage
