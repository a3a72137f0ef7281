import TinyhackSsh.Lib.JoinedLines
import TinyhackSsh.Lib.WrappedText
import TinyhackSsh.Proofs.NativeText
import TinyhackSsh.Proofs.Utf8
import TinyhackSsh.Spec.JavaStrings

/-! The bytes that are collected for the last command are the UTF-8 of a text, in which
every character takes one UTF-16 unit. -/

namespace Tinyhack.Prompts

open Wire WrappedText

/-- The characters that are collected from a cell. -/
def cellText (cell : Cell) : JString :=
  match cell.graphemes with
  | [] => [' ']
  | c :: extra =>
    if extra.length < 4 then (if c.toNat < 0x10000 then c else '?') :: extra.filter fun c2 => c2.toNat < 0x80
    else [' ']

/-- The output cells of a row that belongs to no prompt. -/
def Row.shownCells (row : Row) : List Cell := if row.semantic = .NONE then row.outputCells else []

/-- The text that is collected from a row. -/
def collected (row : Row) : JString := trim ' ' (row.shownCells.flatMap cellText)

section Utf8

variable {c : Char} {s : JString}

theorem utf8_cases (c : Char) :
    c.toNat < 0x80 ∧ String.utf8EncodeChar c = [UInt8.ofNat c.toNat] ∨
    ∃ start v, String.utf8EncodeChar c = start ++ [UInt8.ofNat (v % 0x40 + 0x80)] ∧ 0x80 ≤ c.toNat := by
  have hval : c.val.toNat = c.toNat := rfl
  rw [String.utf8EncodeChar, hval]
  split_ifs with h1 h2 h3
  · exact Or.inl ⟨by omega, rfl⟩
  · exact Or.inr ⟨[_], c.toNat, rfl, by omega⟩
  · exact Or.inr ⟨[_, _], c.toNat, rfl, by omega⟩
  · exact Or.inr ⟨[_, _, _], c.toNat, rfl, by omega⟩

theorem encodeUtf8_eq_nil : encodeUtf8 s = [] ↔ s = [] := by
  constructor
  · intro h
    cases s with
    | nil => rfl
    | cons c s =>
      have hc : String.utf8EncodeChar c = [] := (List.append_eq_nil_iff.mp h).1
      obtain ⟨-, hone⟩ | ⟨start, v, hmany, -⟩ := utf8_cases c
      · rw [hone] at hc
        exact absurd hc (List.cons_ne_nil _ _)
      · rw [hmany] at hc
        exact absurd hc (by simp)
  · rintro rfl
    rfl

/-- A byte 0x20 at the end is a space. -/
theorem last_byte (hc : c ≠ ' ') : ∃ start b, String.utf8EncodeChar c = start ++ [b] ∧ b ≠ 0x20 := by
  obtain ⟨hlt, hone⟩ | ⟨start, v, hmany, -⟩ := utf8_cases c
  · refine ⟨[], _, hone, fun h => hc ?_⟩
    have hcode := congrArg UInt8.toNat h
    rw [ModifiedUtf8.toNat_byte (by omega)] at hcode
    exact Char.toNat_inj.mp hcode
  · refine ⟨start, _, hmany, fun h => ?_⟩
    have hcode := congrArg UInt8.toNat h
    rw [ModifiedUtf8.toNat_byte (by omega)] at hcode
    simp at hcode

theorem trim_encodeUtf8 (s : JString) : (encodeUtf8 s).rdropWhile (· = 0x20) = encodeUtf8 (trim ' ' s) := by
  induction s using List.reverseRecOn with
  | nil => rfl
  | append_singleton s c ih =>
    have hsingle : encodeUtf8 [c] = String.utf8EncodeChar c := List.flatMap_singleton _ _
    rw [encodeUtf8_append, hsingle]
    by_cases hc : c = ' '
    · subst hc
      have hspace : String.utf8EncodeChar ' ' = [0x20] := by decide
      rw [hspace, List.rdropWhile_concat_pos _ _ _ (by simp), ih, trim_concat_blank]
    · obtain ⟨start, b, hbytes, hb⟩ := last_byte hc
      rw [hbytes, ← List.append_assoc, List.rdropWhile_concat_neg _ _ _ (by simpa using hb), trim_concat hc,
        encodeUtf8_append, hsingle, hbytes, List.append_assoc]

theorem encodeFirst_eq (h : c.toNat < 0x10000) : encodeFirst c = String.utf8EncodeChar c := by
  have hval : c.val.toNat = c.toNat := rfl
  simp only [encodeFirst]
  rw [String.utf8EncodeChar, hval]
  by_cases h1 : c.toNat < 0x80
  · rw [if_pos h1, if_pos (by omega)]
  · by_cases h2 : c.toNat < 0x800
    · rw [if_neg h1, if_pos h2, if_neg (by omega), if_pos (by omega)]
      rw [Nat.add_comm 0xC0, Nat.add_comm 0x80, Nat.mod_eq_of_lt (by omega : c.toNat / 64 < 0x20)]
    · rw [if_neg h1, if_neg h2, if_pos h, if_neg (by omega), if_neg (by omega), if_pos (by omega)]
      rw [Nat.add_comm 0xE0, Nat.add_comm 0x80, Nat.add_comm 0x80,
        Nat.mod_eq_of_lt (by omega : c.toNat / 4096 < 0x10)]

end Utf8

section Collected

theorem encodeUtf8_filter_ascii (extra : JString) :
    (extra.filter fun c2 => c2.toNat < 0x80).map (fun c2 => UInt8.ofNat c2.toNat) =
      encodeUtf8 (extra.filter fun c2 => c2.toNat < 0x80) := by
  induction extra with
  | nil => rfl
  | cons c extra ih =>
    by_cases hc : c.toNat < 0x80
    · have hone : String.utf8EncodeChar c = [UInt8.ofNat c.toNat] := by
        obtain ⟨-, hone⟩ | ⟨-, -, -, hlong⟩ := utf8_cases c
        · exact hone
        · omega
      rw [List.filter_cons_of_pos (by simpa using hc), List.map_cons, ih]
      change _ = String.utf8EncodeChar c ++ _
      rw [hone]
      rfl
    · rw [List.filter_cons_of_neg (by simpa using hc), ih]

theorem cellBytes_eq (cell : Cell) : cellBytes cell = encodeUtf8 (cellText cell) := by
  unfold cellBytes cellText
  cases cell.graphemes with
  | nil => decide
  | cons c extra =>
    dsimp only
    split_ifs with hlength hbasic
    · rw [encodeFirst_eq hbasic, encodeUtf8_filter_ascii]
      rfl
    · have hmark : encodeFirst c = [0x3f] := by
        simp only [encodeFirst]
        rw [if_neg (by omega), if_neg (by omega), if_neg hbasic]
      have hquestion : String.utf8EncodeChar '?' = [0x3f] := by decide
      rw [hmark, encodeUtf8_filter_ascii, ← hquestion]
      rfl
    · decide

theorem rowLine_eq (row : Row) : rowLine row = encodeUtf8 (trim ' ' (row.outputCells.flatMap cellText)) := by
  have hcells : row.outputCells.flatMap cellBytes = encodeUtf8 (row.outputCells.flatMap cellText) := by
    rw [encodeUtf8, List.flatMap_assoc]
    exact List.flatMap_congr fun cell _ => cellBytes_eq cell
  rw [rowLine, hcells, trim_encodeUtf8]

/-- The text that is collected from rows. -/
def collectedText (rows : List Row) : JString :=
  rows.foldl (JoinedLines.addRow '\n' Row.wrapContinuation collected) []

theorem appendRow_eq (s : JString) (row : Row) :
    appendRow (encodeUtf8 s) row = encodeUtf8 (JoinedLines.addRow '\n' Row.wrapContinuation collected s row) := by
  have hnewline : encodeUtf8 ['\n'] = [0x0a] := by decide
  unfold appendRow JoinedLines.addRow collected Row.shownCells
  by_cases hrow : row.semantic = .NONE
  · rw [if_neg (not_not.mpr hrow), if_pos hrow, rowLine_eq]
    simp only [ne_eq, encodeUtf8_eq_nil]
    split_ifs
    · rfl
    · rw [encodeUtf8_append, encodeUtf8_append, hnewline]
    · rw [encodeUtf8_append, encodeUtf8_append]
      rfl
  · rw [if_pos hrow, if_neg hrow]
    rfl

theorem foldl_appendRow (rows : List Row) : rows.foldl appendRow [] = encodeUtf8 (collectedText rows) := by
  have hgeneral : ∀ s : JString, rows.foldl appendRow (encodeUtf8 s) =
      encodeUtf8 (rows.foldl (JoinedLines.addRow '\n' Row.wrapContinuation collected) s) := by
    induction rows with
    | nil => exact fun _ => rfl
    | cons row rows ih =>
      intro s
      rw [List.foldl_cons, List.foldl_cons, appendRow_eq, ih]
  exact hgeneral []

/-- What `nativeGetLastCommandOutput` passes on. -/
theorem nativeGetLastCommandOutput_eq (format : List Row → Bytes) (screen : Screen) :
    nativeGetLastCommandOutput format screen =
      if collectedText (outputRows screen) = [] ∧ outputRows screen ≠ [] then format (outputRows screen)
      else encodeUtf8 (collectedText (outputRows screen)) := by
  unfold nativeGetLastCommandOutput
  simp only [foldl_appendRow, encodeUtf8_eq_nil]

/-! The characters. -/

theorem cellText_range (cell : Cell) : ∀ c ∈ cellText cell, ' ' ≤ c ∧ c.toNat < 0x10000 := by
  have hcell := cell.noControl
  unfold cellText
  cases hgraphemes : cell.graphemes with
  | nil => exact List.forall_mem_singleton.mpr (by decide)
  | cons c extra =>
    rw [hgraphemes] at hcell
    have hextra : ∀ d ∈ extra.filter (fun c2 => c2.toNat < 0x80), ' ' ≤ d ∧ d.toNat < 0x10000 := by
      intro d hd
      obtain ⟨hmem, hascii⟩ := List.mem_filter.mp hd
      have hlt : d.toNat < 0x80 := by simpa using hascii
      exact ⟨hcell d (List.mem_cons_of_mem _ hmem), by omega⟩
    dsimp only
    intro d hd
    split_ifs at hd with hlength hbasic
    · obtain rfl | hd := List.mem_cons.mp hd
      · exact ⟨hcell _ List.mem_cons_self, hbasic⟩
      · exact hextra d hd
    · obtain rfl | hd := List.mem_cons.mp hd
      · decide
      · exact hextra d hd
    · obtain rfl := List.mem_singleton.mp hd
      decide

theorem plain_of_range {c : Char} (h : ' ' ≤ c ∧ c.toNat < 0x10000) : ModifiedUtf8.plain c = true := by
  have hlo : (' '.toNat : ℕ) ≤ c.toNat := h.1
  have hspace : ' '.toNat = 32 := rfl
  simp only [ModifiedUtf8.plain, Bool.and_eq_true, decide_eq_true_eq]
  omega

theorem mem_trim {c : Char} {s : JString} (h : c ∈ trim ' ' s) : c ∈ s := (List.rdropWhile_prefix _ _).subset h

theorem collected_range (row : Row) : ∀ c ∈ collected row, ' ' ≤ c ∧ c.toNat < 0x10000 := by
  intro c hc
  obtain ⟨cell, -, hcell⟩ := List.mem_flatMap.mp (mem_trim hc)
  exact cellText_range cell c hcell

theorem mem_addRow {c : Char} {s : JString} {row : Row}
    (h : c ∈ JoinedLines.addRow '\n' Row.wrapContinuation collected s row) :
    c ∈ s ∨ c = '\n' ∨ c ∈ collected row := by
  unfold JoinedLines.addRow at h
  split_ifs at h
  · exact Or.inl h
  · simpa [or_assoc] using h
  · rw [List.append_nil, List.mem_append] at h
    exact h.imp_right Or.inr

theorem collectedText_basic (rows : List Row) : ∀ c ∈ collectedText rows, ModifiedUtf8.plain c = true := by
  have hgeneral : ∀ s : JString, (∀ c ∈ s, ModifiedUtf8.plain c = true) →
      ∀ c ∈ rows.foldl (JoinedLines.addRow '\n' Row.wrapContinuation collected) s, ModifiedUtf8.plain c = true := by
    induction rows with
    | nil => exact fun s hs => hs
    | cons row rows ih =>
      intro s hs
      apply ih
      intro c hc
      obtain hc | rfl | hc := mem_addRow hc
      · exact hs c hc
      · decide
      · exact plain_of_range (collected_range row c hc)
  exact hgeneral [] (fun c hc => absurd hc List.not_mem_nil)

/-- Some character other than a space is collected. -/
def Shows (rows : List Row) : Prop := ∃ row ∈ rows, ∃ cell ∈ row.shownCells, Visible ' ' (cellText cell)

instance (rows : List Row) : Decidable (Shows rows) :=
  inferInstanceAs (Decidable (∃ row ∈ rows, ∃ cell ∈ row.shownCells, Visible ' ' (cellText cell)))

theorem collected_eq_nil (row : Row) : collected row = [] ↔ ∀ cell ∈ row.shownCells, ¬ Visible ' ' (cellText cell) := by
  rw [collected, trim_eq_nil]
  simp only [Visible, List.mem_flatMap]
  constructor
  · rintro h cell hcell ⟨c, hc, hne⟩
    exact h ⟨c, ⟨cell, hcell, hc⟩, hne⟩
  · rintro h ⟨c, ⟨cell, hcell, hc⟩, hne⟩
    exact h cell hcell ⟨c, hc, hne⟩

theorem collectedText_eq_nil (rows : List Row) : collectedText rows = [] ↔ ¬ Shows rows := by
  have hgeneral : ∀ s : JString, rows.foldl (JoinedLines.addRow '\n' Row.wrapContinuation collected) s = [] ↔
      s = [] ∧ ∀ row ∈ rows, collected row = [] := by
    induction rows with
    | nil => simp
    | cons row rows ih =>
      intro s
      rw [List.foldl_cons, ih, List.forall_mem_cons, ← and_assoc]
      refine and_congr_left fun _ => ?_
      unfold JoinedLines.addRow
      by_cases hrow : collected row = []
      · simp [hrow]
      · simp [hrow]
  rw [collectedText, hgeneral []]
  simp only [collected_eq_nil, Shows, not_exists, not_and, true_and]

end Collected

end Tinyhack.Prompts

namespace Tinyhack.Native

open Wire ModifiedUtf8

/-- Plain characters pass `NewStringUTF`. -/
theorem newStringUTF_encodeUtf8 {s : JString} (h : ∀ c ∈ s, plain c = true) :
    newStringUTF (encodeUtf8 s) = some (utf16 s) := by
  have hbytes : encodeUtf8 s = encode (utf16 s) := (encode_utf16 h).symm
  have hwhole : cString (encode (utf16 s)) = encode (utf16 s) := getStringUTFChars_eq s
  rw [newStringUTF, hbytes, hwhole, decode_encode]

end Tinyhack.Native
