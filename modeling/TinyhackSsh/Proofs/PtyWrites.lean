import TinyhackSsh.Proofs.NativeText

/-! What reaches the PTY when calls of `write` are short or interrupted. The loop for
pastes sends the rest again; raw input, keys and replies go out by calls whose counts
nobody reads. -/

namespace Tinyhack.Native

open PosixWrite Input

inductive Handed
  | raw (data : Bytes) (offset length : ℤ)
  | key (ghosttyKey mods : ℕ) (text : Option JString)
  | reply (data : Bytes)
  | paste (data : Bytes) (bracketed : Bool)

/-- What is to reach the PTY. -/
def Handed.bytes (lib : Library) : Handed → Bytes
  | .raw data offset length => region data offset length
  | .key ghosttyKey mods text => (keyWrites lib ghosttyKey mods text).flatten
  | .reply data => data
  | .paste data bracketed => if data.isEmpty then [] else lib.pasteEncode data bracketed

/-- The loop for a paste may go around so many times; the other calls return at once. -/
def Handed.perform (o : Outcomes) (lib : Library) (fuel : ℕ) (pty : Pty) : Handed → Option Pty
  | .raw data offset length => some (nativeWritePty o pty data offset length)
  | .key ghosttyKey mods text => some (nativeWriteKey o lib pty ghosttyKey mods text)
  | .reply data => some (onWritePty o pty data)
  | .paste data bracketed => nativeWritePaste o lib fuel pty data bracketed

/-- The blocks that are given to one call each, whose count is not read. -/
def Handed.unchecked (lib : Library) : Handed → List Bytes
  | .raw data offset length => textWrites (region data offset length)
  | .key ghosttyKey mods text => keyWrites lib ghosttyKey mods text
  | .reply data => textWrites data
  | .paste _ _ => []

/-- The call returns, and all bytes have arrived after what was there. -/
def Arrives (o : Outcomes) (lib : Library) (pty : Pty) (h : Handed) : Prop :=
  ∃ fuel pty', h.perform o lib fuel pty = some pty' ∧ pty'.received = pty.received ++ h.bytes lib

/-! The loop. -/

section Loop

variable {o : Outcomes}

@[simp] theorem writeLoop_nil (o : Outcomes) (fuel : ℕ) (pty : Pty) : writeLoop o fuel pty [] = some pty := by
  cases fuel <;> rfl

theorem writeLoop_interrupted {pty : Pty} {b : UInt8} {data : Bytes} (h : o pty.calls = none) (fuel : ℕ) :
    writeLoop o (fuel + 1) pty (b :: data) = writeLoop o fuel ⟨pty.received, pty.calls + 1⟩ (b :: data) := by
  rw [writeLoop, write_interrupted h]

theorem writeLoop_taken {pty : Pty} {b : UInt8} {data : Bytes} {k : ℕ} (h : o pty.calls = some k) (fuel : ℕ) :
    writeLoop o (fuel + 1) pty (b :: data) =
      writeLoop o fuel ⟨pty.received ++ (b :: data).take (k + 1), pty.calls + 1⟩ ((b :: data).drop (k + 1)) := by
  have hpos : min (k + 1) (b :: data).length ≠ 0 := by simp
  rw [writeLoop, write_taken h]
  dsimp only
  rw [if_neg hpos]
  congr 1
  rcases Nat.le_total (k + 1) (b :: data).length with hle | hle
  · rw [Nat.min_eq_left hle]
  · rw [Nat.min_eq_right hle, List.drop_of_length_le hle, List.drop_length]

/-- Interrupted calls only delay the loop: if it completes after the next call that takes something, it completes. -/
theorem writeLoop_after_interrupts {pty : Pty} {data : Bytes} (d : ℕ) (htaken : (o (pty.calls + d)).isSome = true)
    (hnext : ∀ p : Pty, p.received = pty.received → (o p.calls).isSome = true →
      ∃ fuel p', writeLoop o fuel p data = some p' ∧ p'.received = p.received ++ data) :
    ∃ fuel p', writeLoop o fuel pty data = some p' ∧ p'.received = pty.received ++ data := by
  induction d generalizing pty with
  | zero => exact hnext pty rfl htaken
  | succ d ih =>
    cases data with
    | nil => exact ⟨0, pty, writeLoop_nil o 0 pty, (List.append_nil _).symm⟩
    | cons b data =>
      cases hcall : o pty.calls with
      | some k => exact hnext pty rfl (by rw [hcall]; rfl)
      | none =>
        have hlater : (o ((⟨pty.received, pty.calls + 1⟩ : Pty).calls + d)).isSome = true := by
          rw [show pty.calls + 1 + d = pty.calls + (d + 1) by omega]
          exact htaken
        obtain ⟨fuel, p', hloop, hreceived⟩ := ih hlater hnext
        exact ⟨fuel + 1, p', (writeLoop_interrupted hcall fuel).trans hloop, hreceived⟩

/-- The loop ends with everything sent, in order and once. -/
theorem writeLoop_completes (hfair : Fair o) (data : Bytes) (pty : Pty) :
    ∃ fuel pty', writeLoop o fuel pty data = some pty' ∧ pty'.received = pty.received ++ data := by
  -- each call that takes something leaves less to send
  induction hn : data.length using Nat.strong_induction_on generalizing data pty with
  | _ n ih =>
    obtain ⟨m, hm, htaken⟩ := hfair pty.calls
    refine writeLoop_after_interrupts (m - pty.calls) (by rwa [Nat.add_sub_cancel' hm]) ?_
    intro p hp hcall
    cases data with
    | nil => exact ⟨0, p, writeLoop_nil o 0 p, (List.append_nil _).symm⟩
    | cons b data =>
      obtain ⟨k, hk⟩ := Option.isSome_iff_exists.mp hcall
      have hless : ((b :: data).drop (k + 1)).length < n := by
        rw [← hn, List.length_drop]
        simp only [List.length_cons]
        omega
      obtain ⟨fuel, p', hloop, hreceived⟩ :=
        ih _ hless ((b :: data).drop (k + 1)) ⟨p.received ++ (b :: data).take (k + 1), p.calls + 1⟩ rfl
      refine ⟨fuel + 1, p', (writeLoop_taken hk fuel).trans hloop, ?_⟩
      rw [hreceived, List.append_assoc, List.take_append_drop]

end Loop

/-! The calls whose counts nobody reads. -/

section Unchecked

variable {lib : Library}

theorem ne_nil_of_mem_textWrites {data utf8 : Bytes} (h : data ∈ textWrites utf8) : data ≠ [] := by
  unfold textWrites at h
  split_ifs at h with hempty
  · exact absurd h List.not_mem_nil
  · obtain rfl := List.mem_singleton.mp h
    exact fun hnil => hempty (List.isEmpty_iff.mpr hnil)

theorem ne_nil_of_mem_encodedWrites {data : Bytes} {event : GhosttyKeyEvent} (h : data ∈ encodedWrites lib event) :
    data ≠ [] := by
  unfold encodedWrites at h
  split at h
  · split_ifs at h with hout
    · obtain rfl := List.mem_singleton.mp h
      exact hout.1
    · exact ne_nil_of_mem_textWrites h
  · exact ne_nil_of_mem_textWrites h

theorem ne_nil_of_mem_directWrites {data utf8 : Bytes} {mods : ℕ} {blocks : List Bytes}
    (h : directWrites mods utf8 = some blocks) (hmem : data ∈ blocks) : data ≠ [] := by
  unfold directWrites at h
  split at h
  · dsimp only at h
    split_ifs at h
    all_goals
      obtain rfl := Option.some.inj h
      rintro rfl
      simp at hmem
  · exact absurd h.symm (Option.some_ne_none blocks)

theorem ne_nil_of_mem_keyWrites {data : Bytes} {ghosttyKey mods : ℕ} {text : Option JString}
    (h : data ∈ keyWrites lib ghosttyKey mods text) : data ≠ [] := by
  unfold keyWrites at h
  dsimp only at h
  split_ifs at h
  · obtain rfl := List.mem_singleton.mp h
    exact List.cons_ne_nil _ _
  · cases hdirect : directWrites mods ((text.map getStringUTFChars).getD []) with
    | none =>
      rw [hdirect] at h
      exact ne_nil_of_mem_encodedWrites h
    | some blocks =>
      rw [hdirect] at h
      exact ne_nil_of_mem_directWrites hdirect h

theorem ne_nil_of_mem_unchecked {data : Bytes} (h : Handed) (hmem : data ∈ h.unchecked lib) : data ≠ [] := by
  cases h with
  | raw d offset length => exact ne_nil_of_mem_textWrites hmem
  | key ghosttyKey mods text => exact ne_nil_of_mem_keyWrites hmem
  | reply d => exact ne_nil_of_mem_textWrites hmem
  | paste d bracketed => exact absurd hmem List.not_mem_nil

/-- One call for a block, and none for an empty one. -/
theorem writeEach_textWrites (o : Outcomes) (pty : Pty) (data : Bytes) :
    writeEach o pty (textWrites data) = if data = [] then pty else (write o pty data).1 := by
  cases data with
  | nil => rfl
  | cons b data => rfl

theorem arrives_unchecked_iff {o : Outcomes} {pty : Pty} {h : Handed}
    (hperform : ∀ fuel, h.perform o lib fuel pty = some (writeEach o pty (h.unchecked lib)))
    (hbytes : h.bytes lib = (h.unchecked lib).flatten) :
    Arrives o lib pty h ↔
      ∀ i data, (h.unchecked lib)[i]? = some data → Whole (o (pty.calls + i)) data.length := by
  rw [← received_writeEach_iff _ (fun _ => ne_nil_of_mem_unchecked h) pty, ← hbytes]
  constructor
  · rintro ⟨fuel, pty', hrun, hreceived⟩
    obtain rfl := Option.some.inj ((hperform fuel).symm.trans hrun)
    exact hreceived
  · intro hreceived
    exact ⟨0, _, hperform 0, hreceived⟩

end Unchecked

theorem arrives_paste {o : Outcomes} (hfair : Fair o) (lib : Library) (pty : Pty) (data : Bytes) (bracketed : Bool) :
    Arrives o lib pty (.paste data bracketed) := by
  unfold Arrives Handed.perform Handed.bytes nativeWritePaste
  dsimp only
  split_ifs with hempty hroom
  · exact ⟨0, pty, rfl, (List.append_nil _).symm⟩
  · exact writeLoop_completes hfair _ pty
  · exact absurd (lib.length_pasteEncode data bracketed) hroom

/-- All bytes arrive if and only if every call whose count is not read takes its whole
block. A paste makes no such call. -/
theorem handed_bytes_arrive_iff (o : Outcomes) (hfair : Fair o) (lib : Library) (pty : Pty) (h : Handed) :
    Arrives o lib pty h ↔
      ∀ i data, (h.unchecked lib)[i]? = some data → Whole (o (pty.calls + i)) data.length := by
  cases h with
  | raw data offset length =>
    refine arrives_unchecked_iff (fun _ => ?_) (flatten_textWrites _).symm
    exact congrArg some (writeEach_textWrites o pty _).symm
  | key ghosttyKey mods text => exact arrives_unchecked_iff (fun _ => rfl) rfl
  | reply data =>
    refine arrives_unchecked_iff (fun _ => ?_) (flatten_textWrites _).symm
    exact congrArg some (writeEach_textWrites o pty _).symm
  | paste data bracketed =>
    constructor
    · intro _ i block hblock
      simp [Handed.unchecked] at hblock
    · intro _
      exact arrives_paste hfair lib pty data bracketed

/-- Every call takes one byte. -/
def oneByte : Outcomes := fun _ => some 0

theorem handed_bytes_arrive_one_byte :
    Arrives oneByte passingLibrary ⟨[], 0⟩ (.key GHOSTTY_KEY_A (MODS_CTRL ||| MODS_ALT) (some ['a'])) :=
  (handed_bytes_arrive_iff oneByte (fun n => ⟨n, le_rfl, rfl⟩) passingLibrary ⟨[], 0⟩ _).mpr fun i data h => by
    have hmem : data ∈ ([[0x1b], [0x01]] : List Bytes) := List.mem_of_getElem? h
    exact ⟨0, rfl, by fin_cases hmem <;> decide⟩

/-- After a short count or an interrupted call, the rest is not sent. -/
theorem handed_bytes_lost :
    (nativeWritePty oneByte ⟨[], 0⟩ [0x6c, 0x73] 0 2).received = [0x6c] ∧
    (onWritePty oneByte ⟨[], 0⟩ [0x1b, 0x5b, 0x63]).received = [0x1b] ∧
    (nativeWriteKey oneByte passingLibrary ⟨[], 0⟩ GHOSTTY_KEY_UNIDENTIFIED 0 (some ['é'])).received = [0xc3] ∧
    (nativeWritePty (fun n => if n = 0 then none else some 9) ⟨[], 0⟩ [0x6c, 0x73] 0 2).received = [] := by
  decide

end Tinyhack.Native
