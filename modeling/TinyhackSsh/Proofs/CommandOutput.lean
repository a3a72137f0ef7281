import TinyhackSsh.Proofs.OutputText

/-! The output of the last command, and the text that is collected for it row by row. This
is the text of the output if and only if its cells are whole, its rows join without a seam
and no line is blank. -/

namespace Tinyhack.Prompts

open Wire WrappedText ModifiedUtf8 Native

/-! What the output is. -/

/-- The rows between the block of the second to last prompt and the last prompt. -/
structure LastOutput (screen : Screen) (rows : List Row) : Prop where
  primary : screen.isAlternate = false
  split : ∃ before start block last after,
    screen.rows = before ++ start :: (block ++ (rows ++ last :: after)) ∧
    start.semantic = .PROMPT ∧ (∀ row ∈ block, row.semantic = .PROMPT_CONTINUATION) ∧
    (∀ row ∈ rows.head?, row.semantic ≠ .PROMPT_CONTINUATION) ∧ (∀ row ∈ rows, row.semantic ≠ .PROMPT) ∧
    last.semantic = .PROMPT ∧ ∀ row ∈ after, row.semantic ≠ .PROMPT

/-- The text of a cell: nothing for a spacer, and a space for a cell that was not written. -/
def Cell.text (cell : Cell) : JString :=
  if cell.isSpacer then [] else if cell.graphemes = [] then [' '] else cell.graphemes

def rowText (row : Row) : JString := row.shownCells.flatMap Cell.text

/-- A line is a group of wrapped rows. The spaces at its end are not part of its text. -/
def lineText (line : List Row) : JString := trim ' ' (line.flatMap rowText)

def hasOutput (line : List Row) : Bool := line.any fun row => !row.shownCells.isEmpty

def outputLines (rows : List Row) : List (List Row) :=
  (JoinedLines.lines Row.wrapContinuation rows).filter hasOutput

def expectedText (rows : List Row) : JString := ['\n'].intercalate ((outputLines rows).map lineText)

/-! Where the rows are. -/

section Range

variable {screen : Screen} {s e : ℕ}

theorem mem_collectPromptRows {y : ℕ} : y ∈ collectPromptRows screen ↔
    screen.isAlternate = false ∧ ∃ row : Row, screen.rows[y]? = some row ∧ row.semantic = .PROMPT := by
  unfold collectPromptRows
  cases screen.isAlternate with
  | true => simp
  | false =>
    simp only [Bool.false_eq_true, if_false, true_and, List.mem_filter, List.mem_range, Option.any_eq_true,
      decide_eq_true_eq]
    constructor
    · exact fun h => h.2
    · rintro ⟨row, hrow, hsem⟩
      exact ⟨(List.getElem?_eq_some_iff.mp hrow).1, row, hrow, hsem⟩

theorem last_prompts {ps : List ℕ} (h : collectPromptRows screen = ps ++ [s, e]) :
    s < e ∧ ∀ y ∈ collectPromptRows screen, y ≤ s ∨ y = e := by
  have hsorted := collectPromptRows_sorted screen
  rw [h, List.pairwise_append] at hsorted
  obtain ⟨-, hpair, hbefore⟩ := hsorted
  refine ⟨(List.pairwise_cons.mp hpair).1 e (by simp), ?_⟩
  intro y hy
  rw [h, List.mem_append] at hy
  obtain hy | hy := hy
  · exact Or.inl (hbefore y hy s (by simp)).le
  · simp only [List.mem_cons, List.not_mem_nil, or_false] at hy
    exact hy.imp_left fun h => h.le

theorem drop_takeWhile (p : Row → Bool) (rows : List Row) :
    rows.drop (rows.takeWhile p).length = rows.dropWhile p := by
  induction rows with
  | nil => rfl
  | cons row rows ih =>
    cases hrow : p row with
    | true => simpa [hrow] using ih
    | false => simp [hrow]

theorem outputRows_eq {ps : List ℕ} (h : collectPromptRows screen = ps ++ [s, e]) :
    outputRows screen =
      ((screen.rows.take e).drop (s + 1)).dropWhile fun row : Row => row.semantic = .PROMPT_CONTINUATION := by
  unfold outputRows
  rw [h, List.reverse_append]
  change (screen.rows.take e).drop (s + _ + 1) = _
  rw [← drop_takeWhile, List.drop_drop]
  congr 1
  omega

/-- The rows are those between the prompts. -/
theorem lastOutput_outputRows (h : 2 ≤ (collectPromptRows screen).length) :
    LastOutput screen (outputRows screen) := by
  obtain ⟨ps, s, e, hprompts⟩ : ∃ ps s e, collectPromptRows screen = ps ++ [s, e] := by
    refine ⟨(collectPromptRows screen).take ((collectPromptRows screen).length - 2), ?_⟩
    obtain ⟨s, e, hlast⟩ := List.length_eq_two.mp
      (by rw [List.length_drop]; omega :
        ((collectPromptRows screen).drop ((collectPromptRows screen).length - 2)).length = 2)
    exact ⟨s, e, by rw [← hlast, List.take_append_drop]⟩
  obtain ⟨hlt, honly⟩ := last_prompts hprompts
  obtain ⟨hprimary, start, hstart, hstartPrompt⟩ :=
    mem_collectPromptRows.mp (by rw [hprompts]; simp : s ∈ collectPromptRows screen)
  obtain ⟨-, last, hlast, hlastPrompt⟩ :=
    mem_collectPromptRows.mp (by rw [hprompts]; simp : e ∈ collectPromptRows screen)
  have hnone : ∀ y (row : Row), screen.rows[y]? = some row → s < y → y ≠ e → row.semantic ≠ .PROMPT := by
    intro y row hrow hy hne hprompt
    have hmem := honly y (mem_collectPromptRows.mpr ⟨hprimary, row, hrow, hprompt⟩)
    omega
  obtain ⟨he, hlastGet⟩ := List.getElem?_eq_some_iff.mp hlast
  obtain ⟨hs, hstartGet⟩ := List.getElem?_eq_some_iff.mp hstart
  rw [outputRows_eq hprompts]
  refine ⟨hprimary, screen.rows.take s, start,
    ((screen.rows.take e).drop (s + 1)).takeWhile fun row : Row => row.semantic = .PROMPT_CONTINUATION,
    last, screen.rows.drop (e + 1), ?_, hstartPrompt, ?_, ?_, ?_, hlastPrompt, ?_⟩
  · have hbefore : screen.rows.take e = screen.rows.take s ++ start :: (screen.rows.take e).drop (s + 1) := by
      conv_lhs => rw [← List.take_append_drop s (screen.rows.take e)]
      have hs' : s < (screen.rows.take e).length := by rw [List.length_take]; omega
      rw [List.take_take, Nat.min_eq_left hlt.le, List.drop_eq_getElem_cons hs', List.getElem_take, hstartGet]
    rw [← List.append_assoc (List.takeWhile _ _), List.takeWhile_append_dropWhile, ← List.cons_append,
      ← List.append_assoc, ← hbefore]
    conv_lhs => rw [← List.take_append_drop e screen.rows, List.drop_eq_getElem_cons he, hlastGet]
  · intro row hrow
    simpa using List.mem_takeWhile_imp hrow
  · intro row hrow
    have hhead := List.head?_dropWhile_not (fun row : Row => decide (row.semantic = .PROMPT_CONTINUATION))
      ((screen.rows.take e).drop (s + 1))
    rw [Option.mem_def.mp hrow] at hhead
    simpa using hhead
  · intro row hrow
    obtain ⟨j, hj, hget⟩ := List.mem_drop_iff_getElem.mp ((List.dropWhile_sublist _).subset hrow)
    rw [List.length_take] at hj
    rw [List.getElem_take] at hget
    exact hnone (s + 1 + j) row (List.getElem?_eq_some_iff.mpr ⟨by omega, hget⟩) (by omega) (by omega)
  · intro row hrow
    obtain ⟨j, hj, hget⟩ := List.mem_drop_iff_getElem.mp hrow
    exact hnone (e + 1 + j) row (List.getElem?_eq_some_iff.mpr ⟨by omega, hget⟩) (by omega) (by omega)

end Range

/-! Cells as elements and fillers of a row. -/

section Tokens

variable {cell : Cell}

def Cell.tokens (cell : Cell) : List (Option Char) :=
  if cell.isSpacer then [none] else if cell.graphemes = [] then [some ' '] else cell.graphemes.map some

def rowTokens (row : Row) : List (Option Char) := row.shownCells.flatMap Cell.tokens

theorem reduceOption_map_some (s : JString) : (s.map some).reduceOption = s := by
  induction s with
  | nil => rfl
  | cons c s ih => rw [List.map_cons, List.reduceOption_cons_of_some, ih]

theorem reduceOption_tokens (cell : Cell) : cell.tokens.reduceOption = cell.text := by
  unfold Cell.tokens Cell.text
  split_ifs
  · rfl
  · rfl
  · exact reduceOption_map_some _

theorem reduceOption_cells (cells : List Cell) :
    (cells.flatMap Cell.tokens).reduceOption = cells.flatMap Cell.text := by
  induction cells with
  | nil => rfl
  | cons cell cells ih => rw [List.flatMap_cons, List.reduceOption_append, reduceOption_tokens, ih, List.flatMap_cons]

theorem reduceOption_rowTokens (row : Row) : (rowTokens row).reduceOption = rowText row :=
  reduceOption_cells row.shownCells

theorem joined_rowTokens (line : List Row) : joined (line.map rowTokens) = line.flatMap rowText := by
  rw [joined, List.flatMap_map]
  exact List.flatMap_congr fun row _ => reduceOption_rowTokens row

theorem visible_text (h : cell.isVisible = true) : Visible ' ' cell.text := by
  obtain ⟨c, hc, hne⟩ := List.any_eq_true.mp h
  have hne : c ≠ ' ' := by simpa using hne
  have hsome : cell.graphemes ≠ [] := List.ne_nil_of_mem hc
  have hspacer : ¬ cell.isSpacer = true := fun hs => hsome (cell.blank_of_spacer hs)
  rw [Cell.text, if_neg hspacer, if_neg hsome]
  exact ⟨c, hc, hne⟩

/-- A filler does not stand in the text of a cell. -/
theorem split_after_text {s : JString} {rest a b : List (Option Char)} (h : s.map some ++ rest = a ++ none :: b) :
    ∃ a', a = s.map some ++ a' ∧ rest = a' ++ none :: b := by
  induction s generalizing a with
  | nil => exact ⟨a, rfl, h⟩
  | cons c s ih =>
    cases a with
    | nil => exact absurd (List.cons.inj h).1 (by simp)
    | cons d a =>
      obtain ⟨rfl, htail⟩ := List.cons.inj h
      obtain ⟨a', rfl, hrest⟩ := ih htail
      exact ⟨a', rfl, hrest⟩

theorem tokens_of_not_spacer (h : cell.isSpacer = false) : cell.tokens = cell.text.map some := by
  have hspacer : ¬ cell.isSpacer = true := by simp [h]
  rw [Cell.tokens, Cell.text, if_neg hspacer, if_neg hspacer]
  split_ifs
  · rfl
  · rfl

/-- Text after a spacer has its wide character before it. -/
theorem visible_before {before : Option Cell} {cells : List Cell} (h : spacersPlaced before cells = true)
    {a b : List (Option Char)}
    (hsplit : (cells.filter fun cell => cell.semantic = .OUTPUT).flatMap Cell.tokens = a ++ none :: b)
    (hb : Visible ' ' b.reduceOption) :
    Visible ' ' a.reduceOption ∨ ∃ wide ∈ before, wide.isVisible = true ∧ wide.semantic = .OUTPUT := by
  induction cells generalizing before a with
  | nil => exact absurd hsplit (by simp)
  | cons cell cells ih =>
    obtain ⟨hcell, hrest⟩ := Bool.and_eq_true_iff.mp h
    by_cases hsem : cell.semantic = .OUTPUT
    · rw [List.filter_cons_of_pos (by simpa using hsem), List.flatMap_cons] at hsplit
      cases hspacer : cell.isSpacer with
      | true =>
        have htokens : cell.tokens = [none] := by rw [Cell.tokens, if_pos hspacer]
        rw [htokens, List.singleton_append] at hsplit
        cases a with
        | nil =>
          obtain ⟨-, rfl⟩ := List.cons.inj hsplit
          right
          simp only [hspacer, hsem, Bool.not_true, Bool.false_or, Bool.or_eq_true, List.isEmpty_iff,
            Option.any_eq_true, Bool.and_eq_true, decide_eq_true_eq] at hcell
          obtain rfl | ⟨wide, hwide, hvisible, hsame⟩ := hcell
          · exact absurd hb (by simp [Visible])
          · exact ⟨wide, hwide, hvisible, hsame⟩
        | cons d a =>
          obtain ⟨rfl, htail⟩ := List.cons.inj hsplit
          obtain ha | ⟨wide, hwide, hvisible, -⟩ := ih hrest htail
          · exact Or.inl ha
          · obtain rfl := Option.mem_some_iff.mp hwide
            rw [Cell.isVisible, cell.blank_of_spacer hspacer] at hvisible
            exact absurd hvisible (by simp)
      | false =>
        rw [tokens_of_not_spacer hspacer] at hsplit
        obtain ⟨a', rfl, htail⟩ := split_after_text hsplit
        left
        rw [List.reduceOption_append, reduceOption_map_some, visible_append]
        obtain ha | ⟨wide, hwide, hvisible, -⟩ := ih hrest htail
        · exact Or.inr ha
        · obtain rfl := Option.mem_some_iff.mp hwide
          exact Or.inl (visible_text hvisible)
    · rw [List.filter_cons_of_neg (by simpa using hsem)] at hsplit
      obtain ha | ⟨wide, hwide, -, houtput⟩ := ih hrest hsplit
      · exact Or.inl ha
      · obtain rfl := Option.mem_some_iff.mp hwide
        exact absurd houtput hsem

theorem placed_rowTokens (row : Row) : Placed ' ' (rowTokens row) := by
  intro a b hsplit hb
  unfold rowTokens Row.shownCells at hsplit
  split_ifs at hsplit with hrow
  · obtain ha | ⟨wide, hwide, -⟩ := visible_before row.spacers hsplit hb
    · exact ha
    · exact absurd hwide (by simp)
  · exact absurd hsplit (by simp)

end Tokens

/-! Cells that are collected whole. -/

section Whole

variable {cell : Cell} {c : Char}

/-- At most four code points, the first in the basic plane and the others in ASCII. -/
def Cell.whole (cell : Cell) : Bool :=
  match cell.graphemes with
  | [] => true
  | c :: extra => extra.length < 4 && c.toNat < 0x10000 && extra.all fun c2 => c2.toNat < 0x80

theorem text_of_cons {extra : JString} (h : cell.graphemes = c :: extra) : cell.text = c :: extra := by
  have hspacer : ¬ cell.isSpacer = true := by
    intro hs
    rw [cell.blank_of_spacer hs] at h
    exact absurd h (by simp)
  rw [Cell.text, if_neg hspacer, if_neg (by rw [h]; simp), h]

theorem pad_map_some (s : JString) : pad ' ' (s.map some) = s := by
  rw [pad, List.map_map]
  exact List.map_id s

theorem cellText_of_whole (h : cell.whole = true) : cellText cell = pad ' ' cell.tokens := by
  unfold Cell.whole at h
  unfold cellText
  cases hgraphemes : cell.graphemes with
  | nil =>
    rw [Cell.tokens, if_pos hgraphemes]
    split_ifs
    · rfl
    · rfl
  | cons c extra =>
    rw [hgraphemes] at h
    simp only [Bool.and_eq_true, decide_eq_true_eq] at h
    obtain ⟨⟨hlength, hbasic⟩, hascii⟩ := h
    have hspacer : cell.isSpacer = false := by
      by_contra hs
      rw [cell.blank_of_spacer (by simpa using hs)] at hgraphemes
      exact absurd hgraphemes (by simp)
    rw [tokens_of_not_spacer hspacer, pad_map_some, text_of_cons hgraphemes]
    dsimp only
    rw [if_pos hlength, if_pos hbasic, List.filter_eq_self.mpr fun d hd => List.all_eq_true.mp hascii d hd]

/-- Neither a space nor a line break. -/
def isInk (c : Char) : Bool := c ≠ ' ' && c ≠ '\n'

theorem isInk_of_le (h : 0x80 ≤ c.toNat) : isInk c = true := by
  have hspace : c ≠ ' ' := by
    rintro rfl
    exact absurd h (by decide)
  have hnewline : c ≠ '\n' := by
    rintro rfl
    exact absurd h (by decide)
  simp [isInk, hspace, hnewline]

theorem all_ascii_of_count {extra : JString}
    (h : extra.countP isInk ≤ (extra.filter fun c2 => c2.toNat < 0x80).countP isInk) :
    extra.all (fun c2 => c2.toNat < 0x80) = true := by
  induction extra with
  | nil => rfl
  | cons c extra ih =>
    have hsub : (extra.filter fun c2 => c2.toNat < 0x80).countP isInk ≤ extra.countP isInk :=
      List.filter_sublist.countP_le
    by_cases hc : c.toNat < 0x80
    · rw [List.filter_cons_of_pos (by simpa using hc), List.countP_cons, List.countP_cons] at h
      rw [List.all_cons, ih (by omega)]
      simpa using hc
    · rw [List.filter_cons_of_neg (by simpa using hc), List.countP_cons, if_pos (isInk_of_le (by omega))] at h
      omega

theorem count_cellText_le (cell : Cell) (hbasic : ∀ c ∈ cell.text, c.toNat < 0x10000) :
    (cellText cell).countP isInk ≤ cell.text.countP isInk := by
  unfold cellText
  cases hgraphemes : cell.graphemes with
  | nil => exact Nat.zero_le _
  | cons c extra =>
    rw [text_of_cons hgraphemes] at hbasic ⊢
    dsimp only
    split_ifs with hlength hc
    · rw [List.countP_cons, List.countP_cons]
      exact Nat.add_le_add_right List.filter_sublist.countP_le _
    · exact absurd (hbasic c List.mem_cons_self) hc
    · exact Nat.zero_le _

/-- A cell that is not whole loses something that can be seen. -/
theorem whole_of_count (hbasic : ∀ c ∈ cell.text, c.toNat < 0x10000)
    (h : cell.text.countP isInk ≤ (cellText cell).countP isInk) : cell.whole = true := by
  unfold cellText at h
  unfold Cell.whole
  cases hgraphemes : cell.graphemes with
  | nil => rfl
  | cons c extra =>
    rw [text_of_cons hgraphemes] at hbasic h
    rw [hgraphemes] at h
    dsimp only at h ⊢
    have hc := hbasic c List.mem_cons_self
    split_ifs at h with hlength
    · rw [List.countP_cons, List.countP_cons] at h
      rw [all_ascii_of_count (by omega)]
      simp [hlength, hc]
    · obtain ⟨d, hd, hne⟩ := cell.visible_of_cluster (by rw [hgraphemes, List.length_cons]; omega)
      have hcontrol := cell.noControl d hd
      rw [hgraphemes] at hd
      have hnewline : d ≠ '\n' := by
        rintro rfl
        exact absurd hcontrol (by decide)
      have hpos : 0 < (c :: extra).countP isInk :=
        List.countP_pos_iff.mpr ⟨d, hd, by simp [isInk, hne, hnewline]⟩
      have hblank : [' '].countP isInk = 0 := by decide
      omega

theorem whole_of_cells {cells : List Cell}
    (h : (cells.flatMap cellText).filter isInk = (cells.flatMap Cell.text).filter isInk) :
    ∀ cell ∈ cells, cell.whole = true := by
  have hbasic : ∀ cell ∈ cells, ∀ c ∈ cell.text, c.toNat < 0x10000 := by
    intro cell hcell c hc
    by_contra hlong
    have hmem : c ∈ (cells.flatMap Cell.text).filter isInk :=
      List.mem_filter.mpr ⟨List.mem_flatMap.mpr ⟨cell, hcell, hc⟩, isInk_of_le (by omega)⟩
    rw [← h] at hmem
    obtain ⟨cell', -, hc'⟩ := List.mem_flatMap.mp (List.mem_filter.mp hmem).1
    exact hlong (cellText_range cell' c hc').2
  have hcount : (cells.flatMap Cell.text).countP isInk ≤ (cells.flatMap cellText).countP isInk := by
    rw [List.countP_eq_length_filter, List.countP_eq_length_filter, h]
  clear h
  induction cells with
  | nil => exact fun cell hcell => absurd hcell List.not_mem_nil
  | cons cell cells ih =>
    have hrest : (cells.flatMap cellText).countP isInk ≤ (cells.flatMap Cell.text).countP isInk := by
      rw [List.countP_flatMap, List.countP_flatMap]
      exact List.sum_le_sum fun d hd => count_cellText_le d (hbasic d (List.mem_cons_of_mem _ hd))
    have hcell := count_cellText_le cell (hbasic cell List.mem_cons_self)
    rw [List.flatMap_cons, List.flatMap_cons, List.countP_append, List.countP_append] at hcount
    intro d hd
    obtain rfl | hd := List.mem_cons.mp hd
    · exact whole_of_count (hbasic _ List.mem_cons_self) (by omega)
    · exact ih (fun d hd => hbasic d (List.mem_cons_of_mem _ hd)) (by omega) d hd

end Whole

/-! What can be seen of the two texts. -/

section Ink

theorem filter_isInk_trim (s : JString) : (trim ' ' s).filter isInk = s.filter isInk := by
  obtain ⟨t, hs, ht⟩ := exists_trim ' ' s
  have hnone : t.filter isInk = [] := by
    rw [List.filter_eq_nil_iff]
    intro c hc
    simp [isInk, ht c hc]
  conv_rhs => rw [hs, List.filter_append, hnone, List.append_nil]

theorem filter_collectedText (rows : List Row) :
    (collectedText rows).filter isInk = ((rows.flatMap Row.shownCells).flatMap cellText).filter isInk := by
  have hgeneral : ∀ s : JString,
      (rows.foldl (JoinedLines.addRow '\n' Row.wrapContinuation collected) s).filter isInk =
        s.filter isInk ++ ((rows.flatMap Row.shownCells).flatMap cellText).filter isInk := by
    induction rows with
    | nil => simp
    | cons row rows ih =>
      intro s
      have hrow : (JoinedLines.addRow '\n' Row.wrapContinuation collected s row).filter isInk =
          s.filter isInk ++ (row.shownCells.flatMap cellText).filter isInk := by
        have hnewline : ['\n'].filter isInk = [] := by decide
        rw [← filter_isInk_trim (row.shownCells.flatMap cellText), JoinedLines.addRow]
        change _ = _ ++ (collected row).filter isInk
        split_ifs with hempty
        · rw [hempty, List.filter_nil, List.append_nil]
        · rw [List.filter_append, List.filter_append, hnewline, List.append_nil]
        · rw [List.append_nil, List.filter_append]
      rw [List.foldl_cons, ih, hrow, List.flatMap_cons, List.flatMap_append, List.filter_append, List.append_assoc]
  exact hgeneral []

theorem filter_intercalate (ts : List JString) : (['\n'].intercalate ts).filter isInk = ts.flatten.filter isInk := by
  have hnewline : isInk '\n' = false := by decide
  cases ts with
  | nil => rfl
  | cons t ts =>
    rw [JoinedLines.intercalate_eq, List.filter_append, List.flatten_cons, List.filter_append]
    congr 1
    induction ts with
    | nil => rfl
    | cons u ts ih =>
      rw [List.flatMap_cons, List.filter_append, List.flatten_cons, List.filter_append, ih,
        List.filter_cons_of_neg (by simp [hnewline])]

theorem filter_expectedText (rows : List Row) :
    (expectedText rows).filter isInk = ((rows.flatMap Row.shownCells).flatMap Cell.text).filter isInk := by
  have hlines : ∀ ls : List (List Row), ((ls.filter hasOutput).map lineText).flatten.filter isInk =
      ((ls.flatten.flatMap Row.shownCells).flatMap Cell.text).filter isInk := by
    intro ls
    induction ls with
    | nil => rfl
    | cons line ls ih =>
      have hline : (lineText line).filter isInk = ((line.flatMap Row.shownCells).flatMap Cell.text).filter isInk := by
        rw [lineText, filter_isInk_trim, List.flatMap_assoc]
        rfl
      rw [List.flatten_cons, List.flatMap_append, List.flatMap_append, List.filter_append, ← ih, ← hline]
      cases hshown : hasOutput line with
      | true => rw [List.filter_cons_of_pos hshown, List.map_cons, List.flatten_cons, List.filter_append]
      | false =>
        have hnone : line.flatMap Row.shownCells = [] := by
          rw [List.flatMap_eq_nil_iff]
          intro row hrow
          simpa using List.any_eq_false.mp hshown row hrow
        rw [List.filter_cons_of_neg (by simp [hshown]), hline, hnone]
        rfl
  have hflatten : (JoinedLines.lines Row.wrapContinuation rows).flatten = rows := List.flatten_splitBy _ _
  rw [expectedText, filter_intercalate, outputLines, hlines, hflatten]

end Ink

/-! The lines. -/

section Lines

variable {rows : List Row} {line : List Row}

/-- Where the rows, read one by one, give the text of the output. -/
structure Faithful (rows : List Row) : Prop where
  whole : ∀ row ∈ rows, ∀ cell ∈ row.shownCells, cell.whole = true
  /-- no spacer has text after it in its row, and no row that text follows ends in a space -/
  seamless : ∀ line ∈ outputLines rows, Seamless ' ' (line.map rowTokens)
  /-- no line is blank -/
  visible : ∀ line ∈ outputLines rows, Visible ' ' (line.flatMap rowText)
  /-- a line that follows another does not begin with a blank row -/
  starts : ∀ line ∈ (outputLines rows).tail, ∀ row ∈ line.head?, Visible ' ' (rowText row)

theorem newline_notMem_collected (line : List Row) : '\n' ∉ line.flatMap collected := by
  intro h
  obtain ⟨row, -, hrow⟩ := List.mem_flatMap.mp h
  exact absurd (collected_range row _ hrow).1 (by decide)

theorem noControl_text (cell : Cell) : ∀ c ∈ cell.text, ' ' ≤ c := by
  intro c hc
  unfold Cell.text at hc
  split_ifs at hc
  · exact absurd hc List.not_mem_nil
  · obtain rfl := List.mem_singleton.mp hc
    decide
  · exact cell.noControl c hc

theorem newline_notMem_text (cell : Cell) : '\n' ∉ cell.text := fun h => absurd (noControl_text cell _ h) (by decide)

theorem newline_notMem_lineText (line : List Row) : '\n' ∉ lineText line := by
  intro h
  obtain ⟨row, -, hrow⟩ := List.mem_flatMap.mp (mem_trim h)
  obtain ⟨cell, -, hcell⟩ := List.mem_flatMap.mp hrow
  exact newline_notMem_text cell hcell

theorem starts_iff (text : Row → JString) (hline : line ≠ []) :
    JoinedLines.starts text line = true ↔ ∀ row ∈ line.head?, text row ≠ [] := by
  cases line with
  | nil => exact absurd rfl hline
  | cons row line => simp [JoinedLines.starts]

theorem ne_nil_of_starts (h : JoinedLines.starts collected line = true) : line.flatMap collected ≠ [] := by
  cases line with
  | nil => exact absurd h (by simp [JoinedLines.starts])
  | cons row line =>
    have hrow := (starts_iff collected (List.cons_ne_nil row line)).mp h row rfl
    rw [List.flatMap_cons]
    exact List.append_ne_nil_of_left_ne_nil hrow _

/-- The collected text, line by line. -/
theorem collectedText_lines (rows : List Row) : collectedText rows =
    (outputLines rows).foldl
      (JoinedLines.addLine '\n' (JoinedLines.starts collected) (List.flatMap collected)) [] := by
  rw [collectedText, JoinedLines.foldl_addRow_eq]
  refine JoinedLines.foldl_addLine_filter (fun line hline => ?_) _ _
  have hempty : ∀ row ∈ line, collected row = [] := by
    intro row hrow
    have hcells : row.shownCells = [] := by simpa using List.any_eq_false.mp hline row hrow
    rw [collected, hcells]
    rfl
  refine ⟨List.flatMap_eq_nil_iff.mpr hempty, ?_⟩
  cases line with
  | nil => rfl
  | cons row line => simp [JoinedLines.starts, hempty row List.mem_cons_self]

theorem mem_of_mem_line (hline : line ∈ outputLines rows) : line ≠ [] ∧ ∀ row ∈ line, row ∈ rows := by
  have hmem := (List.mem_filter.mp hline).1
  refine ⟨fun h => List.nil_notMem_splitBy _ _ (h ▸ hmem), fun row hrow => ?_⟩
  have hflatten : (JoinedLines.lines Row.wrapContinuation rows).flatten = rows := List.flatten_splitBy _ _
  rw [← hflatten]
  exact List.mem_flatten.mpr ⟨line, hmem, hrow⟩

theorem collected_of_whole {row : Row} (h : ∀ cell ∈ row.shownCells, cell.whole = true) :
    collected row = trim ' ' (pad ' ' (rowTokens row)) := by
  have hcells : row.shownCells.flatMap cellText = pad ' ' (rowTokens row) := by
    rw [pad, rowTokens, List.map_flatMap]
    exact List.flatMap_congr fun cell hcell => cellText_of_whole (h cell hcell)
  rw [collected, hcells]

theorem collected_line (h : ∀ row ∈ line, ∀ cell ∈ row.shownCells, cell.whole = true) :
    line.flatMap collected = byRows ' ' (line.map rowTokens) := by
  rw [byRows, List.flatMap_map]
  exact List.flatMap_congr fun row hrow => collected_of_whole (h row hrow)

theorem collected_ne_nil {row : Row} (h : ∀ cell ∈ row.shownCells, cell.whole = true) :
    collected row ≠ [] ↔ Visible ' ' (rowText row) := by
  rw [collected_of_whole h, ne_eq, trim_eq_nil, not_not, visible_pad, reduceOption_rowTokens]

/-- One line of whole cells. -/
theorem collected_line_iff (h : ∀ row ∈ line, ∀ cell ∈ row.shownCells, cell.whole = true) :
    (line.flatMap collected = lineText line ∧ line.flatMap collected ≠ []) ↔
      Seamless ' ' (line.map rowTokens) ∧ Visible ' ' (line.flatMap rowText) := by
  have hplaced : ∀ row ∈ line.map rowTokens, Placed ' ' row := by
    intro tokens htokens
    obtain ⟨row, -, rfl⟩ := List.mem_map.mp htokens
    exact placed_rowTokens row
  rw [collected_line h, lineText, ← joined_rowTokens, byRows_eq_iff hplaced, ne_eq, byRows_eq_nil, not_not]

/-- The collected text is the text of the output if and only if the rows are faithful. -/
theorem collectedText_eq_iff (hshows : Shows rows) : collectedText rows = expectedText rows ↔ Faithful rows := by
  have hsome : collectedText rows ≠ [] := fun h => (collectedText_eq_nil rows).mp h hshows
  have hlines := JoinedLines.foldl_addLine_eq_iff newline_notMem_collected newline_notMem_lineText
    (fun _ => ne_nil_of_starts) (by rwa [← collectedText_lines])
  rw [← collectedText_lines] at hlines
  constructor
  · intro h
    have hcells : ∀ cell ∈ rows.flatMap Row.shownCells, cell.whole = true := by
      apply whole_of_cells
      rw [← filter_collectedText, h, filter_expectedText]
    have hwhole : ∀ row ∈ rows, ∀ cell ∈ row.shownCells, cell.whole = true := fun row hrow cell hcell =>
      hcells cell (List.mem_flatMap.mpr ⟨row, hrow, hcell⟩)
    obtain ⟨hall, hstarts⟩ := hlines.mp h
    have hline : ∀ line ∈ outputLines rows, _ := fun line hline =>
      (collected_line_iff fun row hrow => hwhole row ((mem_of_mem_line hline).2 row hrow)).mp (hall line hline)
    refine ⟨hwhole, fun line hl => (hline line hl).1, fun line hl => (hline line hl).2, ?_⟩
    intro line hl row hrow
    obtain ⟨hne, hmem⟩ := mem_of_mem_line (List.mem_of_mem_tail hl)
    rw [← collected_ne_nil (hwhole row (hmem row (List.mem_of_mem_head? hrow)))]
    exact (starts_iff collected hne).mp (hstarts line hl) row hrow
  · intro h
    refine hlines.mpr ⟨fun line hl => ?_, fun line hl => ?_⟩
    · exact (collected_line_iff fun row hrow => h.whole row ((mem_of_mem_line hl).2 row hrow)).mpr
        ⟨h.seamless line hl, h.visible line hl⟩
    · obtain ⟨hne, hmem⟩ := mem_of_mem_line (List.mem_of_mem_tail hl)
      rw [starts_iff collected hne]
      intro row hrow
      rw [collected_ne_nil (h.whole row (hmem row (List.mem_of_mem_head? hrow)))]
      exact h.starts line hl row hrow

end Lines

end Tinyhack.Prompts
