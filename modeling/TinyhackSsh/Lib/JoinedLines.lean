import Mathlib.Data.List.SplitBy
import Mathlib.Tactic

/-! Lines that are put together from rows: as a list of lines with a separator between
them, or in one pass over the rows, with a separator in front of each row that has text
and does not continue the row before. -/

namespace JoinedLines

variable {α ρ : Type}

/-- The rows of each line. -/
def lines (cont : ρ → Bool) (rows : List ρ) : List (List ρ) := rows.splitBy fun _ row => cont row

/-- One step of the pass over the rows. -/
def addRow [DecidableEq α] (sep : α) (cont : ρ → Bool) (text : ρ → List α) (result : List α) (row : ρ) : List α :=
  if text row = [] then result
  else result ++ (if result ≠ [] ∧ cont row = false then [sep] else []) ++ text row

/-- The same for a line, given whether its first row has text. -/
def addLine {ℓ : Type} [DecidableEq α] (sep : α) (starts : ℓ → Bool) (text : ℓ → List α) (result : List α) (line : ℓ) :
    List α :=
  result ++ (if result ≠ [] ∧ starts line = true then [sep] else []) ++ text line

section Rows

variable [DecidableEq α] {sep : α} {cont : ρ → Bool} {text : ρ → List α}

theorem foldl_addRow_cont (rows : List ρ) (h : ∀ row ∈ rows, cont row = true) (result : List α) :
    rows.foldl (addRow sep cont text) result = result ++ rows.flatMap text := by
  induction rows generalizing result with
  | nil => simp
  | cons row rows ih =>
    have hrow : addRow sep cont text result row = result ++ text row := by
      unfold addRow
      by_cases hempty : text row = []
      · simp [hempty]
      · simp [hempty, h row List.mem_cons_self]
    rw [List.foldl_cons, hrow, ih fun r hr => h r (List.mem_cons_of_mem _ hr), List.flatMap_cons, List.append_assoc]

/-- The first row of a line has text. -/
def starts (text : ρ → List α) (line : List ρ) : Bool := line.head?.any fun row => !(text row).isEmpty

theorem foldl_addRow_line {row : ρ} {rows : List ρ} {result : List α} (hfirst : result = [] ∨ cont row = false)
    (hrest : ∀ r ∈ rows, cont r = true) :
    (row :: rows).foldl (addRow sep cont text) result =
      addLine sep (starts text) (List.flatMap text) result (row :: rows) := by
  rw [List.foldl_cons, foldl_addRow_cont rows hrest]
  unfold addRow addLine starts
  by_cases hempty : text row = []
  · simp [hempty]
  · obtain rfl | hcont := hfirst
    · simp [hempty]
    · simp [hempty, hcont]

theorem cont_of_isChain {row : ρ} {rows : List ρ} (h : (row :: rows).IsChain fun _ r => cont r = true) :
    ∀ r ∈ rows, cont r = true := by
  induction rows generalizing row with
  | nil => exact fun r hr => absurd hr List.not_mem_nil
  | cons r rows ih =>
    obtain ⟨hr, hrest⟩ := List.isChain_cons_cons.mp h
    intro q hq
    obtain rfl | hq := List.mem_cons.mp hq
    · exact hr
    · exact ih hrest q hq

/-- The pass over the rows is a pass over the lines. -/
theorem foldl_addRow_eq (rows : List ρ) :
    rows.foldl (addRow sep cont text) [] =
      (lines cont rows).foldl (addLine sep (starts text) (List.flatMap text)) [] := by
  have hlines : ∀ (ls : List (List ρ)) (result : List α), [] ∉ ls →
      (∀ l ∈ ls, l.IsChain fun _ r => cont r = true) →
      (result = [] ∨ ∀ l ∈ ls.head?, ∀ row ∈ l.head?, cont row = false) →
      (ls.IsChain fun _ l => ∀ row ∈ l.head?, cont row = false) →
      ls.flatten.foldl (addRow sep cont text) result =
        ls.foldl (addLine sep (starts text) (List.flatMap text)) result := by
    intro ls
    induction ls with
    | nil => exact fun _ _ _ _ _ => rfl
    | cons l ls ih =>
      intro result hnil hchain hfirst hheads
      cases l with
      | nil => exact absurd List.mem_cons_self hnil
      | cons row rest =>
        have hline : (row :: rest).foldl (addRow sep cont text) result =
            addLine sep (starts text) (List.flatMap text) result (row :: rest) := by
          refine foldl_addRow_line (hfirst.imp_right fun h => h _ rfl _ rfl) ?_
          exact cont_of_isChain (hchain _ List.mem_cons_self)
        rw [List.flatten_cons, List.foldl_append, hline, List.foldl_cons]
        refine ih _ (fun h => hnil (List.mem_cons_of_mem _ h)) (fun l hl => hchain l (List.mem_cons_of_mem _ hl))
          (Or.inr ?_) hheads.tail
        intro l hl
        cases ls with
        | nil => exact absurd hl (by simp)
        | cons l' ls =>
          obtain rfl : l' = l := by simpa using hl
          exact (List.isChain_cons_cons.mp hheads).1
  have hheads : (lines cont rows).IsChain fun _ l => ∀ row ∈ l.head?, cont row = false := by
    refine (List.isChain_getLast_head_splitBy (fun _ row => cont row) rows).imp ?_
    rintro a b ⟨-, hb, hcont⟩ row hrow
    rw [List.head?_eq_some_head hb, Option.mem_some_iff] at hrow
    rwa [← hrow]
  have hflatten : (lines cont rows).flatten = rows := List.flatten_splitBy _ _
  conv_lhs => rw [← hflatten]
  exact hlines _ [] (List.nil_notMem_splitBy _ _) (fun l hl => List.isChain_of_mem_splitBy hl) (Or.inl rfl) hheads

end Rows

/-! The pass over the lines, and the lines with separators. -/

section Separators

variable {sep : α}

theorem intercalate_eq (t : List α) (ts : List (List α)) :
    [sep].intercalate (t :: ts) = t ++ ts.flatMap fun s => sep :: s := by
  induction ts generalizing t with
  | nil => simp
  | cons s ts ih => rw [List.intercalate_cons_cons, ih, List.flatMap_cons]; simp

/-- Lines without separators in them can be told from the text. -/
theorem intercalate_inj {ts us : List (List α)} (hts : ∀ t ∈ ts, sep ∉ t) (hus : ∀ u ∈ us, sep ∉ u)
    (hne : ts ≠ []) (hne' : us ≠ []) (h : [sep].intercalate ts = [sep].intercalate us) : ts = us := by
  classical
  rw [← List.splitOn_intercalate sep hts hne, h, List.splitOn_intercalate sep hus hne']

end Separators

section Lines

variable {ℓ : Type} [DecidableEq α] {sep : α} {starts : ℓ → Bool} {text spec : ℓ → List α}

theorem foldl_addLine (ls : List ℓ) {result : List α} (h : result ≠ []) :
    ls.foldl (addLine sep starts text) result =
      result ++ ls.flatMap fun l => (if starts l = true then [sep] else []) ++ text l := by
  induction ls generalizing result with
  | nil => simp
  | cons l ls ih =>
    have hstep : addLine sep starts text result l = result ++ ((if starts l = true then [sep] else []) ++ text l) := by
      unfold addLine
      simp [h]
    rw [List.foldl_cons, hstep, ih (by simp [h]), List.flatMap_cons, List.append_assoc]

theorem addLine_empty {l : ℓ} (htext : text l = []) (hstarts : starts l = false) (result : List α) :
    addLine sep starts text result l = result := by
  simp [addLine, htext, hstarts]

theorem foldl_addLine_cons_empty {l : ℓ} (htext : text l = []) (hstarts : starts l = true → text l ≠ []) (ls : List ℓ) :
    (l :: ls).foldl (addLine sep starts text) [] = ls.foldl (addLine sep starts text) [] := by
  have hno : starts l = false := by
    by_contra h
    exact hstarts (by simpa using h) htext
  rw [List.foldl_cons, addLine_empty htext hno]

theorem foldl_addLine_cons {l : ℓ} (htext : text l ≠ []) (ls : List ℓ) :
    (l :: ls).foldl (addLine sep starts text) [] =
      text l ++ ls.flatMap fun l => (if starts l = true then [sep] else []) ++ text l := by
  have hfirst : addLine sep starts text [] l = text l := by simp [addLine]
  rw [List.foldl_cons, hfirst, foldl_addLine ls htext]

/-- Lines without text do not matter. -/
theorem foldl_addLine_filter {shown : ℓ → Bool} (h : ∀ l, shown l = false → text l = [] ∧ starts l = false)
    (ls : List ℓ) (result : List α) :
    ls.foldl (addLine sep starts text) result = (ls.filter shown).foldl (addLine sep starts text) result := by
  induction ls generalizing result with
  | nil => rfl
  | cons l ls ih =>
    cases hl : shown l with
    | true => rw [List.filter_cons_of_pos hl, List.foldl_cons, List.foldl_cons, ih]
    | false =>
      rw [List.filter_cons_of_neg (by simp [hl]), List.foldl_cons, addLine_empty (h l hl).1 (h l hl).2, ih]

theorem count_flatMap_le (hsep : ∀ l, sep ∉ text l) (ls : List ℓ) :
    (ls.flatMap fun l => (if starts l = true then [sep] else []) ++ text l).count sep = ls.countP starts := by
  induction ls with
  | nil => rfl
  | cons l ls ih =>
    rw [List.flatMap_cons, List.count_append, List.count_append, ih, List.count_eq_zero.mpr (hsep l), List.countP_cons]
    cases starts l <;> simp [Nat.add_comm]

/-- One separator less than lines. -/
theorem count_foldl_addLine_le (hsep : ∀ l, sep ∉ text l) (hstarts : ∀ l, starts l = true → text l ≠ [])
    (l : ℓ) (ls : List ℓ) : ((l :: ls).foldl (addLine sep starts text) []).count sep ≤ ls.length := by
  induction ls generalizing l with
  | nil =>
    have hnone : (text l).count sep = 0 := List.count_eq_zero.mpr (hsep l)
    simp [addLine, hnone]
  | cons l' ls ih =>
    by_cases hl : text l = []
    · rw [foldl_addLine_cons_empty hl (hstarts l)]
      exact (ih l').trans (Nat.le_succ _)
    · rw [foldl_addLine_cons hl, List.count_append, List.count_eq_zero.mpr (hsep l), Nat.zero_add,
        count_flatMap_le hsep]
      exact List.countP_le_length

theorem count_intercalate (hsep : ∀ l, sep ∉ spec l) (l : ℓ) (ls : List ℓ) :
    ([sep].intercalate ((l :: ls).map spec)).count sep = ls.length := by
  rw [List.map_cons, intercalate_eq, List.count_append, List.count_eq_zero.mpr (hsep l), Nat.zero_add]
  induction ls with
  | nil => rfl
  | cons l' ls ih =>
    rw [List.map_cons, List.flatMap_cons, List.cons_append, List.count_cons_self, List.count_append,
      List.count_eq_zero.mpr (hsep l'), ih, List.length_cons]
    omega

/-- The pass gives the lines with separators if and only if every line is right and not
empty, and the first row of every line but the first has text. -/
theorem foldl_addLine_eq_iff (htext : ∀ l, sep ∉ text l) (hspec : ∀ l, sep ∉ spec l)
    (hstarts : ∀ l, starts l = true → text l ≠ []) {ls : List ℓ}
    (hsome : ls.foldl (addLine sep starts text) [] ≠ []) :
    ls.foldl (addLine sep starts text) [] = [sep].intercalate (ls.map spec) ↔
      (∀ l ∈ ls, text l = spec l ∧ text l ≠ []) ∧ ∀ l ∈ ls.tail, starts l = true := by
  cases ls with
  | nil => exact absurd rfl hsome
  | cons l ls =>
    have hjoin (h : ∀ l ∈ ls, starts l = true) :
        (ls.flatMap fun l => (if starts l = true then [sep] else []) ++ text l) =
          ls.flatMap fun l => sep :: text l := by
      refine List.flatMap_congr fun l hl => ?_
      rw [if_pos (h l hl), List.singleton_append]
    constructor
    · intro h
      have hcount := congrArg (List.count sep) h
      rw [count_intercalate hspec] at hcount
      have hl : text l ≠ [] := by
        intro hl
        rw [foldl_addLine_cons_empty hl (hstarts l)] at hcount hsome
        cases ls with
        | nil => exact hsome rfl
        | cons l₂ ls =>
          have hle := count_foldl_addLine_le htext hstarts l₂ ls
          rw [List.length_cons] at hcount
          omega
      rw [foldl_addLine_cons hl, List.count_append, List.count_eq_zero.mpr (htext l), Nat.zero_add,
        count_flatMap_le htext, List.countP_eq_length] at hcount
      have htexts : [sep].intercalate ((l :: ls).map text) = [sep].intercalate ((l :: ls).map spec) := by
        rw [← h, foldl_addLine_cons hl, hjoin hcount, List.map_cons, intercalate_eq, List.flatMap_map]
      have hsame : ∀ l' ∈ l :: ls, text l' = spec l' := by
        rw [← List.map_inj_left]
        refine intercalate_inj ?_ ?_ (by simp) (by simp) htexts
        · exact List.forall_mem_map.mpr fun l' _ => htext l'
        · exact List.forall_mem_map.mpr fun l' _ => hspec l'
      refine ⟨fun l' hl' => ⟨hsame l' hl', ?_⟩, hcount⟩
      obtain rfl | hl' := List.mem_cons.mp hl'
      · exact hl
      · exact hstarts l' (hcount l' hl')
    · rintro ⟨hsame, hall⟩
      rw [foldl_addLine_cons (hsame l List.mem_cons_self).2, hjoin hall, List.map_cons, intercalate_eq,
        (hsame l List.mem_cons_self).1, List.flatMap_map]
      congr 1
      exact List.flatMap_congr fun l' hl' => by rw [(hsame l' (List.mem_cons_of_mem _ hl')).1]

end Lines

end JoinedLines
