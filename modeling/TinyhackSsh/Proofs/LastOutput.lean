import TinyhackSsh.Proofs.CommandOutput

/-! What `nativeGetLastCommandOutput` returns, with the formatted selection for rows from
which nothing is collected. The formatter is taken as its header describes it: it joins
wrapped rows and leaves out the spaces at the end of a line and the blank lines at the end. -/

namespace Tinyhack.Prompts

open Wire WrappedText ModifiedUtf8 Native

/-! The selection. It has all cells of the rows. -/

def fullText (row : Row) : JString := row.cells.flatMap Cell.text

def fullLine (line : List Row) : JString := trim ' ' (line.flatMap fullText)

def selectionLines (rows : List Row) : List JString :=
  ((JoinedLines.lines Row.wrapContinuation rows).map fullLine).rdropWhile (· = [])

def selectionString (rows : List Row) : JString := ['\n'].intercalate (selectionLines rows)

/-- The bytes of the formatter. -/
def formatSelection (rows : List Row) : Bytes := encodeUtf8 (selectionString rows)

/-! The cells of a line that are no output, as fillers. -/

section Others

variable {row : Row} {rows : List Row} {line : List Row}

def Row.isShown (row : Row) (cell : Cell) : Bool := row.semantic = .NONE && cell.semantic = .OUTPUT

def otherTokens (row : Row) (cell : Cell) : List (Option Char) :=
  if row.isShown cell then cell.text.map some else cell.text.map fun _ => none

def lineTokens (line : List Row) : List (Option Char) := line.flatMap fun row => row.cells.flatMap (otherTokens row)

/-- No cell but those of the output has text. -/
def OthersBlank (rows : List Row) : Prop :=
  ∀ row ∈ rows, ∀ cell ∈ row.cells, row.isShown cell = false → ¬ Visible ' ' cell.text

theorem shownCells_eq (row : Row) : row.shownCells = row.cells.filter row.isShown := by
  unfold Row.shownCells Row.outputCells Row.isShown
  split_ifs with hrow
  · simp [hrow]
  · simp [hrow]

theorem reduceOption_map_none (s : JString) : (s.map fun _ => (none : Option Char)).reduceOption = [] := by
  induction s with
  | nil => rfl
  | cons c s ih => rw [List.map_cons, List.reduceOption_cons_of_none, ih]

theorem reduceOption_others (row : Row) (cells : List Cell) :
    (cells.flatMap (otherTokens row)).reduceOption = (cells.filter row.isShown).flatMap Cell.text := by
  induction cells with
  | nil => rfl
  | cons cell cells ih =>
    rw [List.flatMap_cons, List.reduceOption_append, ih, otherTokens]
    cases hshown : row.isShown cell with
    | true => rw [if_pos rfl, reduceOption_map_some, List.filter_cons_of_pos hshown, List.flatMap_cons]
    | false =>
      rw [if_neg Bool.false_ne_true, reduceOption_map_none, List.filter_cons_of_neg (by simp [hshown]), List.nil_append]

theorem reduceOption_lineTokens (line : List Row) : (lineTokens line).reduceOption = line.flatMap rowText := by
  induction line with
  | nil => rfl
  | cons row line ih =>
    change (row.cells.flatMap (otherTokens row) ++ lineTokens line).reduceOption = rowText row ++ line.flatMap rowText
    rw [List.reduceOption_append, ih, reduceOption_others, ← shownCells_eq]
    rfl

theorem pad_lineTokens (h : OthersBlank line) : pad ' ' (lineTokens line) = line.flatMap fullText := by
  rw [pad, lineTokens, List.map_flatMap]
  refine List.flatMap_congr fun row hrow => ?_
  rw [fullText, List.map_flatMap]
  refine List.flatMap_congr fun cell hcell => ?_
  rw [otherTokens]
  cases hshown : row.isShown cell with
  | true => exact pad_map_some cell.text
  | false =>
    -- the text is all spaces
    have hblank := h row hrow cell hcell hshown
    rw [if_neg Bool.false_ne_true, List.map_map]
    refine (List.map_congr_left fun c hc => ?_).trans (List.map_id _)
    by_contra hne
    exact hblank ⟨c, hc, fun heq => hne heq.symm⟩

/-- A line is formatted right if and only if no other cell has output after it. -/
theorem fullLine_eq_iff (h : OthersBlank line) : fullLine line = lineText line ↔ Tight ' ' (lineTokens line) := by
  rw [fullLine, lineText, ← pad_lineTokens h, ← reduceOption_lineTokens, trim_pad_iff]

theorem fullLine_eq_nil (h : OthersBlank line) : fullLine line = [] ↔ ¬ Visible ' ' (line.flatMap rowText) := by
  rw [fullLine, trim_eq_nil, ← pad_lineTokens h, visible_pad, reduceOption_lineTokens]

theorem othersBlank_line (h : OthersBlank rows) (hline : line ∈ JoinedLines.lines Row.wrapContinuation rows) :
    OthersBlank line := by
  intro row hrow
  have hflatten : (JoinedLines.lines Row.wrapContinuation rows).flatten = rows := List.flatten_splitBy _ _
  apply h row
  rw [← hflatten]
  exact List.mem_flatten.mpr ⟨line, hline, hrow⟩

end Others

/-! What can be seen of the selection. -/

section Seen

variable {rows : List Row}

theorem flatten_rdropWhile (ts : List JString) : (ts.rdropWhile (· = [])).flatten = ts.flatten := by
  induction ts using List.reverseRecOn with
  | nil => rfl
  | append_singleton ts t ih =>
    by_cases ht : t = []
    · rw [List.rdropWhile_concat_pos _ _ _ (by simpa using ht), ih, ht]
      simp
    · rw [List.rdropWhile_concat_neg _ _ _ (by simpa using ht)]

theorem filter_selectionString (rows : List Row) :
    (selectionString rows).filter isInk = (rows.flatMap fullText).filter isInk := by
  have hlines : ∀ ls : List (List Row), (ls.map fullLine).flatten.filter isInk =
      (ls.flatten.flatMap fullText).filter isInk := by
    intro ls
    induction ls with
    | nil => rfl
    | cons line ls ih =>
      rw [List.map_cons, List.flatten_cons, List.filter_append, ih, fullLine, filter_isInk_trim, List.flatten_cons,
        List.flatMap_append, List.filter_append]
  have hflatten : (JoinedLines.lines Row.wrapContinuation rows).flatten = rows := List.flatten_splitBy _ _
  rw [selectionString, filter_intercalate, selectionLines, flatten_rdropWhile, hlines, hflatten]

theorem visible_iff_isInk (cell : Cell) : Visible ' ' cell.text ↔ 0 < cell.text.countP isInk := by
  rw [List.countP_pos_iff]
  constructor
  · rintro ⟨c, hc, hne⟩
    refine ⟨c, hc, ?_⟩
    have hnewline : c ≠ '\n' := by
      rintro rfl
      exact newline_notMem_text cell hc
    simp [isInk, hne, hnewline]
  · rintro ⟨c, hc, hink⟩
    exact ⟨c, hc, by rintro rfl; exact absurd hink (by decide)⟩

theorem count_others (row : Row) (cells : List Cell) :
    (cells.flatMap Cell.text).countP isInk = ((cells.filter row.isShown).flatMap Cell.text).countP isInk +
      ((cells.filter fun cell => !row.isShown cell).flatMap Cell.text).countP isInk := by
  induction cells with
  | nil => rfl
  | cons cell cells ih =>
    rw [List.flatMap_cons, List.countP_append, ih]
    cases hshown : row.isShown cell with
    | true =>
      rw [List.filter_cons_of_pos hshown, List.filter_cons_of_neg (by simp [hshown]), List.flatMap_cons,
        List.countP_append]
      omega
    | false =>
      rw [List.filter_cons_of_neg (by simp [hshown]), List.filter_cons_of_pos (by simp [hshown]), List.flatMap_cons,
        List.countP_append]
      omega

theorem count_rowText_le (row : Row) : (rowText row).countP isInk ≤ (fullText row).countP isInk := by
  rw [rowText, fullText, shownCells_eq, count_others row row.cells]
  exact Nat.le_add_right _ _

theorem othersBlank_of_count (h : (rows.flatMap fullText).countP isInk ≤ (rows.flatMap rowText).countP isInk) :
    OthersBlank rows := by
  induction rows with
  | nil => exact fun row hrow => absurd hrow List.not_mem_nil
  | cons row rows ih =>
    rw [List.flatMap_cons, List.flatMap_cons, List.countP_append, List.countP_append] at h
    have hrow := count_rowText_le row
    have hrows : (rows.flatMap rowText).countP isInk ≤ (rows.flatMap fullText).countP isInk := by
      rw [List.countP_flatMap, List.countP_flatMap]
      exact List.sum_le_sum fun row _ => count_rowText_le row
    have hothers : ((row.cells.filter fun cell => !row.isShown cell).flatMap Cell.text).countP isInk = 0 := by
      have hsplit := count_others row row.cells
      rw [← shownCells_eq] at hsplit
      change (fullText row).countP isInk = (rowText row).countP isInk + _ at hsplit
      omega
    intro row' hrow' cell hcell hshown hvisible
    obtain rfl | hrow' := List.mem_cons.mp hrow'
    · rw [visible_iff_isInk, List.countP_pos_iff] at hvisible
      obtain ⟨c, hc, hink⟩ := hvisible
      refine List.countP_eq_zero.mp hothers c (List.mem_flatMap.mpr ⟨cell, ?_, hc⟩) hink
      exact List.mem_filter.mpr ⟨hcell, by simp [hshown]⟩
    · exact ih (by omega) row' hrow' cell hcell hshown hvisible

theorem flatMap_rowText (rows : List Row) : (rows.flatMap Row.shownCells).flatMap Cell.text = rows.flatMap rowText := by
  rw [List.flatMap_assoc]
  rfl

theorem othersBlank_of_eq (h : selectionString rows = expectedText rows) : OthersBlank rows := by
  apply othersBlank_of_count
  rw [List.countP_eq_length_filter, List.countP_eq_length_filter, ← filter_selectionString, h, filter_expectedText,
    flatMap_rowText]

end Seen

/-! The lines of the selection. -/

section SelectionLines

variable {rows : List Row}

def isBlankLine (line : List Row) : Bool := ¬ Visible ' ' (line.flatMap rowText)

/-- The lines up to the last one with text. -/
def writtenLines (rows : List Row) : List (List Row) :=
  (JoinedLines.lines Row.wrapContinuation rows).rdropWhile isBlankLine

/-- Where the formatted rows are the text of the output. -/
structure Formatted (rows : List Row) : Prop where
  /-- no cell but those of the output has text -/
  others : OthersBlank rows
  /-- no other cell has output after it in its line -/
  tight : ∀ line ∈ JoinedLines.lines Row.wrapContinuation rows, Tight ' ' (lineTokens line)
  /-- the output ends in a line with text and has no other lines in it, or it is one blank line at most -/
  lines : writtenLines rows = outputLines rows ∨ writtenLines rows = [] ∧ (outputLines rows).length ≤ 1
  /-- the characters are in the basic plane -/
  basic : ∀ row ∈ rows, ∀ cell ∈ row.shownCells, ∀ c ∈ cell.text, c.toNat < 0x10000

theorem selectionLines_eq (h : OthersBlank rows) : selectionLines rows = (writtenLines rows).map fullLine := by
  have hgeneral : ∀ ls : List (List Row), (∀ line ∈ ls, OthersBlank line) →
      (ls.map fullLine).rdropWhile (· = []) = (ls.rdropWhile isBlankLine).map fullLine := by
    intro ls
    induction ls using List.reverseRecOn with
    | nil => exact fun _ => rfl
    | append_singleton ls line ih =>
      intro hls
      have hline : fullLine line = [] ↔ isBlankLine line = true := by
        rw [fullLine_eq_nil (hls line (by simp)), isBlankLine, decide_eq_true_eq]
      rw [List.map_append, List.map_singleton]
      by_cases hblank : fullLine line = []
      · rw [List.rdropWhile_concat_pos _ _ _ (by simpa using hblank),
          List.rdropWhile_concat_pos _ _ _ (hline.mp hblank)]
        exact ih fun l hl => hls l (List.mem_append_left _ hl)
      · rw [List.rdropWhile_concat_neg _ _ _ (by simpa using hblank),
          List.rdropWhile_concat_neg _ _ _ (mt hline.mpr hblank), List.map_append, List.map_singleton]
  exact hgeneral _ fun line hline => othersBlank_line h hline

theorem lineText_eq_nil (line : List Row) : lineText line = [] ↔ isBlankLine line = true := by
  rw [lineText, trim_eq_nil, isBlankLine, decide_eq_true_eq]

theorem mem_writtenLines {line : List Row} (h : line ∈ writtenLines rows) :
    line ∈ JoinedLines.lines Row.wrapContinuation rows := (List.rdropWhile_prefix _ _).subset h

/-- After the last line with text all lines are blank. -/
theorem exists_blank_rest (rows : List Row) : ∃ rest,
    JoinedLines.lines Row.wrapContinuation rows = writtenLines rows ++ rest ∧ ∀ line ∈ rest, isBlankLine line = true :=
  ⟨_, List.rdropWhile_append_rtakeWhile.symm, fun _ hline => List.mem_rtakeWhile_imp hline⟩

theorem getLast_writtenLines {line : List Row} (h : (writtenLines rows).getLast? = some line) :
    isBlankLine line = false := by
  have hne : writtenLines rows ≠ [] := List.ne_nil_of_mem (List.mem_of_getLast? h)
  have hlast := List.rdropWhile_last_not isBlankLine (JoinedLines.lines Row.wrapContinuation rows) hne
  rw [List.getLast?_eq_some_getLast hne, Option.some_inj] at h
  rw [← h]
  exact Bool.eq_false_iff.mpr hlast

theorem newline_notMem_fullLine (line : List Row) : '\n' ∉ fullLine line := by
  intro h
  obtain ⟨row, -, hrow⟩ := List.mem_flatMap.mp (mem_trim h)
  obtain ⟨cell, -, hcell⟩ := List.mem_flatMap.mp hrow
  exact newline_notMem_text cell hcell

/-- If the texts of the written lines are those of the output lines, the lines are the same. -/
theorem writtenLines_eq (hothers : OthersBlank rows)
    (h : (writtenLines rows).map fullLine = (outputLines rows).map lineText) :
    writtenLines rows = outputLines rows := by
  obtain ⟨rest, hsplit, hrest⟩ := exists_blank_rest rows
  have houtput : outputLines rows = (writtenLines rows).filter hasOutput ++ rest.filter hasOutput := by
    rw [outputLines, hsplit, List.filter_append]
  have hempty : rest.filter hasOutput = [] := by
    by_contra hne
    -- the last line of the output would be blank, and the last written line is not
    have hlast : (outputLines rows).getLast? = (rest.filter hasOutput).getLast? := by
      rw [houtput, List.getLast?_append_of_ne_nil _ hne]
    obtain ⟨line, hline⟩ : ∃ line, (rest.filter hasOutput).getLast? = some line :=
      ⟨_, List.getLast?_eq_some_getLast hne⟩
    have hblank := hrest line (List.mem_filter.mp (List.mem_of_getLast? hline)).1
    have htext := congrArg List.getLast? h
    rw [List.getLast?_map, List.getLast?_map, hlast, hline, Option.map_some, (lineText_eq_nil line).mpr hblank] at htext
    obtain ⟨written, hwritten, hnil⟩ := Option.map_eq_some_iff.mp htext
    have hvisible := getLast_writtenLines hwritten
    rw [fullLine_eq_nil (othersBlank_line hothers (mem_writtenLines (List.mem_of_getLast? hwritten)))] at hnil
    simp [isBlankLine, hnil] at hvisible
  rw [hempty, List.append_nil] at houtput
  have hlength := congrArg List.length h
  rw [List.length_map, List.length_map, houtput] at hlength
  rw [houtput]
  exact (List.filter_sublist.eq_of_length hlength.symm).symm

theorem mem_outputLines {line : List Row} (hline : line ∈ JoinedLines.lines Row.wrapContinuation rows)
    (h : isBlankLine line = false) : line ∈ outputLines rows := by
  refine List.mem_filter.mpr ⟨hline, ?_⟩
  obtain ⟨c, hc, -⟩ : Visible ' ' (line.flatMap rowText) := by simpa [isBlankLine] using h
  obtain ⟨row, hrow, hcell⟩ := List.mem_flatMap.mp hc
  obtain ⟨cell, hcell, -⟩ := List.mem_flatMap.mp hcell
  exact List.any_eq_true.mpr ⟨row, hrow, by simpa using List.ne_nil_of_mem hcell⟩

theorem tight_of_isBlankLine {line : List Row} (h : isBlankLine line = true) : Tight ' ' (lineTokens line) := by
  apply tight_of_blank
  rw [reduceOption_lineTokens]
  simpa [isBlankLine] using h

theorem selectionString_of_blank (hothers : OthersBlank rows) (h : writtenLines rows = []) :
    selectionString rows = [] := by
  rw [selectionString, selectionLines_eq hothers, h]
  rfl

theorem isBlankLine_of_nil (h : writtenLines rows = []) :
    ∀ line ∈ JoinedLines.lines Row.wrapContinuation rows, isBlankLine line = true := by
  obtain ⟨rest, hsplit, hrest⟩ := exists_blank_rest rows
  rw [hsplit, h]
  exact hrest

/-- A single blank line at most makes no text. -/
theorem expectedText_eq_nil (hblank : ∀ line ∈ outputLines rows, isBlankLine line = true) :
    expectedText rows = [] ↔ (outputLines rows).length ≤ 1 := by
  unfold expectedText
  cases houtput : outputLines rows with
  | nil => simp
  | cons line ls =>
    rw [houtput] at hblank
    have hline := (lineText_eq_nil line).mpr (hblank line List.mem_cons_self)
    rw [List.map_cons, JoinedLines.intercalate_eq, hline, List.nil_append]
    cases ls with
    | nil => simp
    | cons line' ls => simp

theorem selectionString_eq_iff : selectionString rows = expectedText rows ↔
    OthersBlank rows ∧ (∀ line ∈ JoinedLines.lines Row.wrapContinuation rows, Tight ' ' (lineTokens line)) ∧
      (writtenLines rows = outputLines rows ∨ writtenLines rows = [] ∧ (outputLines rows).length ≤ 1) := by
  have hoblank (hnil : writtenLines rows = []) : ∀ line ∈ outputLines rows, isBlankLine line = true :=
    fun line hline => isBlankLine_of_nil hnil line (List.mem_filter.mp hline).1
  constructor
  · intro h
    have hothers := othersBlank_of_eq h
    refine ⟨hothers, ?_⟩
    by_cases hnil : writtenLines rows = []
    · refine ⟨fun line hline => tight_of_isBlankLine (isBlankLine_of_nil hnil line hline), Or.inr ⟨hnil, ?_⟩⟩
      rw [← expectedText_eq_nil (hoblank hnil), ← h, selectionString_of_blank hothers hnil]
    · have houtput : outputLines rows ≠ [] := by
        intro hno
        obtain ⟨line, hline⟩ : ∃ line, (writtenLines rows).getLast? = some line :=
          ⟨_, List.getLast?_eq_some_getLast hnil⟩
        have hin := mem_outputLines (mem_writtenLines (List.mem_of_getLast? hline)) (getLast_writtenLines hline)
        rw [hno] at hin
        exact absurd hin List.not_mem_nil
      have hmap : (writtenLines rows).map fullLine = (outputLines rows).map lineText := by
        rw [selectionString, selectionLines_eq hothers, expectedText] at h
        refine JoinedLines.intercalate_inj ?_ ?_ (by simpa using hnil) (by simpa using houtput) h
        · exact List.forall_mem_map.mpr fun line _ => newline_notMem_fullLine line
        · exact List.forall_mem_map.mpr fun line _ => newline_notMem_lineText line
      have hsame := writtenLines_eq hothers hmap
      refine ⟨fun line hline => ?_, Or.inl hsame⟩
      obtain ⟨rest, hsplit, hrest⟩ := exists_blank_rest rows
      rw [hsplit, List.mem_append] at hline
      obtain hline | hline := hline
      · rw [← hsame, List.map_inj_left] at hmap
        exact (fullLine_eq_iff (othersBlank_line hothers (mem_writtenLines hline))).mp (hmap line hline)
      · exact tight_of_isBlankLine (hrest line hline)
  · rintro ⟨hothers, htight, hlines | ⟨hnil, hone⟩⟩
    · have hsame : (writtenLines rows).map fullLine = (writtenLines rows).map lineText := by
        rw [List.map_inj_left]
        intro line hline
        have hmem := mem_writtenLines hline
        exact (fullLine_eq_iff (othersBlank_line hothers hmem)).mpr (htight line hmem)
      rw [selectionString, selectionLines_eq hothers, hsame, hlines, expectedText]
    · rw [selectionString_of_blank hothers hnil, (expectedText_eq_nil (hoblank hnil)).mpr hone]

end SelectionLines

/-! The string for Java. -/

section Returned

variable {rows : List Row} {c : Char}

theorem toNat_pos_of_mem (h : c ∈ selectionString rows) : 0 < c.toNat := by
  cases hink : isInk c with
  | true =>
    have hmem : c ∈ (selectionString rows).filter isInk := List.mem_filter.mpr ⟨h, hink⟩
    rw [filter_selectionString] at hmem
    obtain ⟨row, -, hrow⟩ := List.mem_flatMap.mp (List.mem_filter.mp hmem).1
    obtain ⟨cell, -, hcell⟩ := List.mem_flatMap.mp hrow
    exact Nat.lt_of_lt_of_le (by decide : 0 < ' '.toNat) (noControl_text cell c hcell)
  | false =>
    have hcases : c = ' ' ∨ c = '\n' := by
      by_contra hne
      rw [not_or] at hne
      simp [isInk, hne.1, hne.2] at hink
    obtain rfl | rfl := hcases
    · decide
    · decide

theorem zero_notMem_encodeUtf8 {t : JString} (hpos : ∀ c ∈ t, 0 < c.toNat) : ∀ b ∈ encodeUtf8 t, b ≠ 0 := by
  rintro b hb rfl
  obtain ⟨c, hc, hmem⟩ := List.mem_flatMap.mp hb
  have hlt := hpos c hc
  have hval : c.val.toNat = c.toNat := rfl
  rw [String.utf8EncodeChar, hval] at hmem
  have hbyte : ∀ v, v < 256 → 0 < v → (0 : UInt8) ≠ UInt8.ofNat v := by
    intro v hv hpos hzero
    have htoNat := congrArg UInt8.toNat hzero
    rw [ModifiedUtf8.toNat_byte hv] at htoNat
    exact hpos.ne htoNat
  split_ifs at hmem
  all_goals
    simp only [List.mem_cons, List.not_mem_nil, or_false] at hmem
  · exact hbyte _ (by omega) hlt hmem
  · rcases hmem with hmem | hmem <;> exact hbyte _ (by omega) (by omega) hmem
  · rcases hmem with hmem | hmem | hmem <;> exact hbyte _ (by omega) (by omega) hmem
  · rcases hmem with hmem | hmem | hmem | hmem <;> exact hbyte _ (by omega) (by omega) hmem

/-- A text without NUL arrives if and only if it stays in the basic plane. -/
theorem newStringUTF_encodeUtf8_iff {s t : JString} (hpos : ∀ c ∈ t, 0 < c.toNat) :
    newStringUTF (encodeUtf8 t) = some (utf16 s) ↔ t = s ∧ ∀ c ∈ t, c.toNat < 0x10000 := by
  have hplain (hbasic : ∀ c ∈ t, c.toNat < 0x10000) : ∀ c ∈ t, plain c = true := by
    intro c hc
    simp [plain, hpos c hc, hbasic c hc]
  constructor
  · intro h
    have hzero : ∀ b ∈ encodeUtf8 t, b ≠ 0 := zero_notMem_encodeUtf8 hpos
    have hwhole : cString (encodeUtf8 t) = encodeUtf8 t := by
      unfold cString
      rw [List.takeWhile_eq_self_iff]
      exact fun b hb => by simpa using hzero b hb
    have hread := encode_of_decode h
    rw [hwhole] at hread
    have hbasic := lt_of_encode_eq hread
    rw [newStringUTF_encodeUtf8 (hplain hbasic), Option.some_inj, utf16_injective.eq_iff] at h
    exact ⟨h, hbasic⟩
  · rintro ⟨rfl, hbasic⟩
    exact newStringUTF_encodeUtf8 (hplain hbasic)

theorem basic_iff (h : selectionString rows = expectedText rows) :
    (∀ c ∈ selectionString rows, c.toNat < 0x10000) ↔
      ∀ row ∈ rows, ∀ cell ∈ row.shownCells, ∀ c ∈ cell.text, c.toNat < 0x10000 := by
  have hseen : ∀ c, isInk c = true →
      (c ∈ selectionString rows ↔ ∃ row ∈ rows, ∃ cell ∈ row.shownCells, c ∈ cell.text) := by
    intro c hink
    have hfilter : c ∈ selectionString rows ↔ c ∈ (selectionString rows).filter isInk := by
      simp [List.mem_filter, hink]
    rw [hfilter, h, filter_expectedText, flatMap_rowText]
    simp [List.mem_filter, hink, rowText]
  constructor
  · intro hall row hrow cell hcell c hc
    by_contra hlong
    exact hlong (hall c ((hseen c (isInk_of_le (by omega))).mpr ⟨row, hrow, cell, hcell, hc⟩))
  · intro hall c hc
    by_contra hlong
    obtain ⟨row, hrow, cell, hcell, hmem⟩ := (hseen c (isInk_of_le (by omega))).mp hc
    exact hlong (hall row hrow cell hcell c hmem)

theorem formatted_iff : newStringUTF (formatSelection rows) = some (utf16 (expectedText rows)) ↔ Formatted rows := by
  rw [formatSelection, newStringUTF_encodeUtf8_iff fun _ => toNat_pos_of_mem]
  constructor
  · rintro ⟨heq, hbasic⟩
    obtain ⟨hothers, htight, hlines⟩ := selectionString_eq_iff.mp heq
    exact ⟨hothers, htight, hlines, (basic_iff heq).mp hbasic⟩
  · intro h
    have heq := selectionString_eq_iff.mpr ⟨h.others, h.tight, h.lines⟩
    exact ⟨heq, (basic_iff heq).mpr h.basic⟩

end Returned

/-- A character, with a spacer after it if it is wide. -/
def character (c : Char) (h : ' ' ≤ c) : Cell :=
  ⟨.OUTPUT, false, [c], fun h => absurd h Bool.false_ne_true, fun h => absurd h (by simp), by simpa using h⟩

def spacer : Cell :=
  ⟨.OUTPUT, true, [], fun _ => rfl, fun h => absurd h (by simp), fun _ h => absurd h List.not_mem_nil⟩

def outputRow (wrapContinuation : Bool) (cells : List Cell) (h : spacersPlaced none cells = true) : Row :=
  ⟨.NONE, wrapContinuation, cells, h⟩

def promptRow : Row := ⟨.PROMPT, false, [], rfl⟩

def commandScreen (rows : List Row) : Screen := ⟨false, promptRow :: (rows ++ [promptRow])⟩

def shortOutput : Screen := commandScreen [outputRow false [character 'o' (by decide), character 'k' (by decide)] rfl]

/-- A line that wraps after a space, a blank line, a wide character with text after it, and
a character beyond the basic plane. -/
def longOutput : Screen :=
  commandScreen
    [outputRow false [character 'a' (by decide), character ' ' (by decide)] rfl,
      outputRow true [character 'b' (by decide)] rfl,
      outputRow false [character ' ' (by decide)] rfl,
      outputRow false [character '漢' (by decide), spacer, character 'x' (by decide)] rfl,
      outputRow false [character '😀' (by decide), spacer] rfl]

end Tinyhack.Prompts
