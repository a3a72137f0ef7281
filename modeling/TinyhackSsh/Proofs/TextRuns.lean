import TinyhackSsh.Proofs.Wire
import TinyhackSsh.Proofs.Drawing
import TinyhackSsh.Spec.TextRuns

/-! The runs of a row take every column once, and drawing by runs shows every cell as it
would be shown alone. What a cell shows is told from the canvas: the text drawn over it
with its paint, and the underlines. -/

namespace Tinyhack.TextRuns

open Batches

/-! What a cell is to look like, from the arrays. -/

/-- The contents of the arrays at a cell. -/
structure Cell where
  char : BitVec 16
  fg : BitVec 32
  bg : BitVec 32
  flags : BitVec 32
  ulStyle : BitVec 32
  ulColor : BitVec 32

namespace Cell

variable (x : Cell)

/-- Swapped for inverse. -/
def foreground : BitVec 32 := if flag x.flags INVERSE then x.bg else x.fg

def color : BitVec 32 := if flag x.flags DIM then Grid.dimmed x.foreground else x.foreground

def paint : TextPaint where
  typeface := Grid.typeface (flag x.flags BOLD) (flag x.flags ITALIC)
  color := x.color
  underlineText := false
  strikeThruText := flag x.flags STRIKE

def attrs : Attrs := ⟨x.foreground, x.flags, linkUnderline x.flags x.ulStyle, x.ulColor⟩

/-- The text over the cell. -/
def text : List (BitVec 16 × TextPaint) := if flag x.flags INVISIBLE then [] else [(x.char, x.paint)]

/-- The underline below the cell, its style and colour. -/
def underline : List (BitVec 32 × BitVec 32) :=
  if flag x.flags INVISIBLE then []
  else if flag x.flags HYPERLINK ∧ x.ulStyle = 0 then [(1, if x.ulColor = 0 then x.color else x.ulColor)]
  else if x.ulStyle = 0 then []
  else [(x.ulStyle, if x.ulColor = 0 then x.color else x.ulColor)]

end Cell

/-- The character and paint that a call puts on a cell. -/
def Call.textAt (row col : ℕ) : Call → Option (BitVec 16 × TextPaint)
  | .text r c chars _ paint => if r = row ∧ c ≤ col then (chars[col - c]?).map fun char => (char, paint) else none
  | _ => none

/-- The style and colour of the underline that a call puts on a cell. -/
def Call.underlineAt (row col : ℕ) : Call → Option (BitVec 32 × BitVec 32)
  | .underline r first last style color => if r = row ∧ first ≤ col ∧ col < last then some (style, color) else none
  | _ => none

/-- All that a list of calls puts on a cell. -/
def textAt (calls : List Call) (row col : ℕ) : List (BitVec 16 × TextPaint) := calls.filterMap (Call.textAt row col)

def underlineAt (calls : List Call) (row col : ℕ) : List (BitVec 32 × BitVec 32) :=
  calls.filterMap (Call.underlineAt row col)

namespace Grid

variable (g : Grid)

def cell (i : ℕ) : Cell where
  char := g.chars.values.getD i 0
  fg := g.fgColors.values.getD i 0
  bg := g.bgColors.values.getD i 0
  flags := g.styleFlags.values.getD i 0
  ulStyle := orZero g.underlineStyles i
  ulColor := orZero g.underlineColors i

/-- One cell drawn on its own: a run of one column. -/
def drawCell (m : Metrics) (paint : TextPaint) (r c : ℕ) : Option (List Call) :=
  (g.attrs (g.index r c)).map fun a => (g.drawRun m r paint (.single c a)).2

/-- The arrays without which nothing is drawn hold the cells of all rows. -/
structure Holds : Prop where
  chars : g.rows * g.cols ≤ g.chars.length
  fgColors : g.rows * g.cols ≤ g.fgColors.length
  bgColors : g.rows * g.cols ≤ g.bgColors.length
  styleFlags : g.rows * g.cols ≤ g.styleFlags.length

end Grid

/-! Reading the arrays. -/

section Read

theorem JArray.get_of_lt {α : Type} {a : JArray α} {i : ℕ} (d : α) (h : i < a.length) :
    a.get i = some (a.values.getD i d) := by
  rw [JArray.get, if_pos (Int.natCast_nonneg i), Int.toNat_natCast, List.getD_eq_getElem?_getD,
    List.getElem?_eq_getElem h, Option.getD_some]

variable {g : Grid} {r c : ℕ}

/-- Inside the arrays the index is the product; it does not wrap. -/
theorem index_eq (h : r * g.cols.toNat + c < 2 ^ 31) (hcols : 0 ≤ g.cols) :
    g.index r c = (r * g.cols.toNat + c : ℕ) := by
  have hcast : ((r * g.cols.toNat + c : ℕ) : ℤ) = r * g.cols + c := by
    push_cast
    rw [Int.toNat_of_nonneg hcols]
  rw [Grid.index, ← hcast]
  exact wrap32_eq (by omega) (by exact_mod_cast h)

/-- The four arrays have a cell at `i`. -/
structure Grid.Has (g : Grid) (i : ℕ) : Prop where
  chars : i < g.chars.length
  fgColors : i < g.fgColors.length
  bgColors : i < g.bgColors.length
  styleFlags : i < g.styleFlags.length

theorem Grid.Holds.has (h : g.Holds) (hr : (r : ℤ) < g.rows) (hc : (c : ℤ) < g.cols) :
    g.Has (r * g.cols.toNat + c) := by
  have hlt : r * g.cols.toNat + c < g.rows.toNat * g.cols.toNat := Views.index_lt (by omega) (by omega)
  have hprod : ((g.rows.toNat * g.cols.toNat : ℕ) : ℤ) = g.rows * g.cols := by
    push_cast
    rw [Int.toNat_of_nonneg (by omega), Int.toNat_of_nonneg (by omega)]
  have hle : ∀ n : ℕ, g.rows * g.cols ≤ n → r * g.cols.toNat + c < n := by
    intro n hn
    rw [← hprod] at hn
    exact hlt.trans_le (by exact_mod_cast hn)
  exact ⟨hle _ h.chars, hle _ h.fgColors, hle _ h.bgColors, hle _ h.styleFlags⟩

theorem attrs_of_has {i : ℕ} (h : g.Has i) : g.attrs i = some (g.cell i).attrs := by
  rw [Grid.attrs, JArray.get_of_lt 0 h.fgColors, JArray.get_of_lt 0 h.bgColors, JArray.get_of_lt 0 h.styleFlags,
    Option.bind_some, Option.bind_some, ← apply_ite some, Option.map_some]
  rfl

theorem index_of_has (h : g.Has (r * g.cols.toNat + c)) (hcols : 0 ≤ g.cols) :
    g.index r c = (r * g.cols.toNat + c : ℕ) := index_eq (h.chars.trans g.chars.length_lt) hcols

theorem read_of_has (h : g.Has (r * g.cols.toNat + c)) (hcols : 0 ≤ g.cols) :
    g.read r c = some (some (g.cell (r * g.cols.toNat + c)).attrs) := by
  rw [Grid.read, index_of_has h hcols, if_neg (by exact_mod_cast Nat.not_le.mpr h.chars), attrs_of_has h,
    Option.map_some]

end Read

/-! Drawing a run. -/

section Runs

variable {g : Grid} {r c : ℕ}

/-- The colour of a run's text. -/
def inkOf (a : Attrs) : BitVec 32 := if flag a.flags DIM then Grid.dimmed a.fg else a.fg

def paintOf (a : Attrs) : TextPaint where
  typeface := Grid.typeface (flag a.flags BOLD) (flag a.flags ITALIC)
  color := inkOf a
  underlineText := false
  strikeThruText := flag a.flags STRIKE

theorem linkUnderline_idem (flags ulStyle : BitVec 32) :
    linkUnderline flags (linkUnderline flags ulStyle) = linkUnderline flags ulStyle := by
  unfold linkUnderline
  split_ifs <;> rfl

def underlineColorOf (a : Attrs) : BitVec 32 := if a.ulColor ≠ 0 then a.ulColor else inkOf a

/-- The underline of a run. -/
def underlineOf (r : ℕ) (run : Batch Attrs) : List Call :=
  if linkUnderline run.key.flags run.key.ulStyle ≠ 0 then
    [.underline r run.start run.stop (linkUnderline run.key.flags run.key.ulStyle) (underlineColorOf run.key)]
  else []

theorem mem_underlineOf {run : Batch Attrs} {call : Call} (h : call ∈ underlineOf r run) :
    ∃ style color, call = .underline r run.start run.stop style color := by
  unfold underlineOf at h
  split_ifs at h
  · exact ⟨_, _, List.mem_singleton.mp h⟩
  · cases h

theorem drawRun_invisible (m : Metrics) (paint : TextPaint) {run : Batch Attrs}
    (h : flag run.key.flags INVISIBLE = true) : g.drawRun m r paint run = (paint, []) := if_pos h

/-- The calls for a visible run do not depend on the paint before. -/
theorem drawRun_visible (m : Metrics) (paint : TextPaint) {run : Batch Attrs}
    (h : flag run.key.flags INVISIBLE = false) : ∃ scale, (g.drawRun m r paint run).2 =
      .text r run.start ((g.chars.values.drop (g.index r run.start).toNat).take run.length) scale (paintOf run.key) ::
        underlineOf r run := by
  unfold Grid.drawRun
  dsimp only
  rw [if_neg (by simp [h])]
  exact ⟨_, rfl⟩

/-- The cells of a run are in the arrays and have what the run has. -/
def Grid.Alike (g : Grid) (r : ℕ) (run : Batch Attrs) : Prop :=
  ∀ c ∈ run.positions, g.Has (r * g.cols.toNat + c) ∧ run.key = (g.cell (r * g.cols.toNat + c)).attrs

/-- The character over a column of a run. -/
theorem char_of_run (hcols : 0 ≤ g.cols) {run : Batch Attrs} (h : g.Alike r run) (hc : run.start ≤ c) :
    ((g.chars.values.drop (g.index r run.start).toNat).take run.length)[c - run.start]? =
      if c ∈ run.positions then some (g.cell (r * g.cols.toNat + c)).char else none := by
  have hstart := (h run.start (Batch.mem_positions.mpr ⟨le_rfl, run.lt⟩)).1
  rw [index_of_has hstart hcols, Int.toNat_natCast, List.getElem?_take, List.getElem?_drop]
  by_cases hmem : c ∈ run.positions
  · have hlt : c - run.start < run.length := by
      have hstop := (Batch.mem_positions.mp hmem).2
      unfold Batch.length
      omega
    have hi : r * g.cols.toNat + run.start + (c - run.start) = r * g.cols.toNat + c := by omega
    have hget := List.getElem?_eq_getElem (h c hmem).1.chars
    rw [if_pos hlt, if_pos hmem, hi, Grid.cell, List.getD_eq_getElem?_getD, hget, Option.getD_some]
  · have hge : ¬ c - run.start < run.length := by
      intro hlt
      unfold Batch.length at hlt
      exact hmem (Batch.mem_positions.mpr ⟨hc, by omega⟩)
    rw [if_neg hge, if_neg hmem]

/-- What `f` sees of a drawing is `x`, from the run that holds column `c` of row `r`. -/
structure Observes (g : Grid) (r c : ℕ) {β : Type} (f : Call → Option β) (x : List β) : Prop where
  background : ∀ r' c' color, f (.background r' c' color) = none
  selection : ∀ r' c', f (.selection r' c') = none
  otherRow : ∀ m r' paint run, r' ≠ r → (g.drawRun m r' paint run).2.filterMap f = []
  run : ∀ m paint run, g.Alike r run →
    (g.drawRun m r paint run).2.filterMap f = if c ∈ run.positions then x else []

theorem filterMap_underlineOf {β : Type} {f : Call → Option β} {r : ℕ} (run : Batch Attrs)
    (h : ∀ first last style color, f (.underline r first last style color) = none) :
    (underlineOf r run).filterMap f = [] := by
  apply List.filterMap_eq_nil_iff.mpr
  intro call hcall
  obtain ⟨style, color, rfl⟩ := mem_underlineOf hcall
  exact h _ _ _ _

theorem filterMap_drawRun {β : Type} {f : Call → Option β} (m : Metrics) (r : ℕ) (paint : TextPaint)
    (run : Batch Attrs) (htext : ∀ col chars scale p, f (.text r col chars scale p) = none)
    (hunderline : ∀ first last style color, f (.underline r first last style color) = none) :
    (g.drawRun m r paint run).2.filterMap f = [] := by
  cases hvisible : flag run.key.flags INVISIBLE with
  | true =>
    rw [drawRun_invisible m paint hvisible]
    rfl
  | false =>
    obtain ⟨scale, hcalls⟩ := drawRun_visible m paint hvisible
    rw [hcalls, List.filterMap_cons_none (htext _ _ _ _)]
    exact filterMap_underlineOf run hunderline

theorem text_of_attrs {x : Cell} {a : Attrs} (h : a = x.attrs) :
    x.text = if flag a.flags INVISIBLE then [] else [(x.char, paintOf a)] := by
  subst h
  rfl

theorem observes_text (hcols : 0 ≤ g.cols) (r c : ℕ) :
    Observes g r c (Call.textAt r c) (g.cell (r * g.cols.toNat + c)).text where
  background _ _ _ := rfl
  selection _ _ := rfl
  otherRow m r' paint run hne := filterMap_drawRun m r' paint run (fun _ _ _ _ => if_neg fun h => hne h.1)
    fun _ _ _ _ => rfl
  run m paint run h := by
    cases hvisible : flag run.key.flags INVISIBLE with
    | true =>
      rw [drawRun_invisible m paint hvisible]
      split_ifs with hmem
      · rw [text_of_attrs (h c hmem).2, hvisible]
        rfl
      · rfl
    | false =>
      obtain ⟨scale, hcalls⟩ := drawRun_visible m paint hvisible
      rw [hcalls, List.filterMap_cons, filterMap_underlineOf run fun _ _ _ _ => rfl, Call.textAt]
      by_cases hstart : run.start ≤ c
      · rw [if_pos ⟨rfl, hstart⟩, char_of_run hcols h hstart]
        split_ifs with hmem
        · rw [text_of_attrs (h c hmem).2, hvisible]
          rfl
        · rfl
      · have hmem : c ∉ run.positions := fun hmem => hstart (Batch.mem_positions.mp hmem).1
        rw [if_neg fun h => hstart h.2, if_neg hmem]

theorem underline_of_attrs {x : Cell} {a : Attrs} (h : a = x.attrs) :
    x.underline = if flag a.flags INVISIBLE then []
      else if linkUnderline a.flags a.ulStyle ≠ 0 then [(linkUnderline a.flags a.ulStyle, underlineColorOf a)]
      else [] := by
  subst h
  have hcolor : underlineColorOf x.attrs = if x.ulColor = 0 then x.color else x.ulColor := by
    by_cases hzero : x.ulColor = 0
    · rw [if_pos hzero]
      exact if_neg (not_not.mpr hzero)
    · rw [if_neg hzero]
      exact if_pos hzero
  have hflags : x.attrs.flags = x.flags := rfl
  have hstyle : linkUnderline x.flags x.attrs.ulStyle = linkUnderline x.flags x.ulStyle := linkUnderline_idem _ _
  rw [hflags, hstyle, hcolor, Cell.underline]
  split_ifs <;> simp_all [linkUnderline]

theorem observes_underline (r c : ℕ) :
    Observes g r c (Call.underlineAt r c) (g.cell (r * g.cols.toNat + c)).underline where
  background _ _ _ := rfl
  selection _ _ := rfl
  otherRow m r' paint run hne := filterMap_drawRun m r' paint run (fun _ _ _ _ => rfl)
    fun _ _ _ _ => if_neg fun h => hne h.1
  run m paint run h := by
    cases hvisible : flag run.key.flags INVISIBLE with
    | true =>
      rw [drawRun_invisible m paint hvisible]
      split_ifs with hmem
      · rw [underline_of_attrs (h c hmem).2, hvisible]
        rfl
      · rfl
    | false =>
      obtain ⟨scale, hcalls⟩ := drawRun_visible m paint hvisible
      rw [hcalls, List.filterMap_cons_none rfl]
      by_cases hmem : c ∈ run.positions
      · have hat : ∀ style color,
            Call.underlineAt r c (.underline r run.start run.stop style color) = some (style, color) :=
          fun style color => if_pos ⟨rfl, Batch.mem_positions.mp hmem⟩
        rw [if_pos hmem, underline_of_attrs (h c hmem).2, hvisible, if_neg Bool.false_ne_true, underlineOf]
        split_ifs
        · exact List.filterMap_cons_some (hat _ _)
        · rfl
      · rw [if_neg hmem]
        apply List.filterMap_eq_nil_iff.mpr
        intro call hcall
        obtain ⟨style, color, rfl⟩ := mem_underlineOf hcall
        exact if_neg fun hin => hmem (Batch.mem_positions.mpr hin.2)

end Runs

/-! Drawing the rows. -/

section Rows

variable {g : Grid} {r c : ℕ}

theorem readable_of_holds (h : g.Holds) (hr : (r : ℤ) < g.rows) : Readable (g.read r) g.cols.toNat g.cols.toNat where
  le := le_rfl
  key c hc := by
    have hcols : (c : ℤ) < g.cols := by omega
    exact ⟨_, read_of_has (h.has hr hcols) (by omega)⟩
  stop c hle hlt := absurd hle (Nat.not_le.mpr hlt)

/-- The runs of a row cover its columns, one after the other, and the cells of a run are alike. -/
theorem textRuns_covers (h : g.Holds) (hr : (r : ℤ) < g.rows) : ∃ runs, g.textRuns r = some runs ∧
    runs.flatMap Batch.positions = List.range g.cols.toNat ∧ ∀ run ∈ runs, g.Alike r run := by
  obtain ⟨runs, hruns, hcovers, hkeys⟩ := (readable_of_holds h hr).batches (Nat.zero_le _)
  have hrange : runs.flatMap Batch.positions = List.range g.cols.toNat := by
    rw [hcovers, Nat.sub_zero, List.range_eq_range']
  refine ⟨runs, hruns, hrange, fun run hrun c hc => ?_⟩
  have hmem : c ∈ List.range g.cols.toNat := hrange ▸ List.mem_flatMap.mpr ⟨run, hrun, hc⟩
  have hcols : (c : ℤ) < g.cols := by
    have := List.mem_range.mp hmem
    omega
  have hhas := h.has hr hcols
  have hread := read_of_has hhas (by omega)
  rw [hkeys run hrun c hc] at hread
  exact ⟨hhas, Option.some.inj (Option.some.inj hread)⟩

theorem drawBackgrounds_some (h : g.Holds) (hr : (r : ℤ) < g.rows) {n : ℕ} (hn : c + n = g.cols.toNat) :
    ∃ calls, g.drawBackgrounds r n c = some calls := by
  induction n generalizing c with
  | zero => exact ⟨[], rfl⟩
  | succ n ih =>
    have hcols : (c : ℤ) < g.cols := by omega
    have hhas := h.has hr hcols
    obtain ⟨rest, hrest⟩ := ih (c := c + 1) (by omega)
    rw [Grid.drawBackgrounds, index_of_has hhas (by omega), if_neg (by exact_mod_cast Nat.not_le.mpr hhas.bgColors),
      JArray.get_of_lt 0 hhas.bgColors, JArray.get_of_lt 0 hhas.styleFlags, JArray.get_of_lt 0 hhas.fgColors,
      Option.bind_some, Option.bind_some, ← apply_ite some, Option.bind_some, hrest, Option.map_some]
    exact ⟨_, rfl⟩

theorem mem_drawBackgrounds {n : ℕ} {calls : List Call} (h : g.drawBackgrounds r n c = some calls) {call : Call}
    (hcall : call ∈ calls) : (∃ c' color, call = .background r c' color) ∨ ∃ c', call = .selection r c' := by
  induction n generalizing c calls with
  | zero =>
    obtain rfl := Option.some.inj h
    cases hcall
  | succ n ih =>
    rw [Grid.drawBackgrounds] at h
    split at h
    · obtain rfl := Option.some.inj h
      cases hcall
    · obtain ⟨bg, -, h⟩ := Option.bind_eq_some_iff.mp h
      obtain ⟨flags, -, h⟩ := Option.bind_eq_some_iff.mp h
      obtain ⟨color, -, h⟩ := Option.bind_eq_some_iff.mp h
      obtain ⟨rest, hrest, rfl⟩ := Option.map_eq_some_iff.mp h
      rcases List.mem_append.mp hcall with hcall | hcall
      · rcases List.mem_append.mp hcall with hcall | hcall
        · exact Or.inl ⟨c, color, List.mem_singleton.mp (List.mem_ite_nil_right.mp hcall).2⟩
        · exact Or.inr ⟨c, List.mem_singleton.mp (List.mem_ite_nil_right.mp hcall).2⟩
      · exact ih hrest hcall

variable {β : Type} {f : Call → Option β} {x : List β}

theorem Observes.backgrounds (ho : Observes g r c f x) {r' n c' : ℕ} {calls : List Call}
    (h : g.drawBackgrounds r' n c' = some calls) : calls.filterMap f = [] := by
  apply List.filterMap_eq_nil_iff.mpr
  intro call hcall
  rcases mem_drawBackgrounds h hcall with ⟨c'', color, rfl⟩ | ⟨c'', rfl⟩
  · exact ho.background _ _ _
  · exact ho.selection _ _

theorem Observes.runs (ho : Observes g r c f x) (m : Metrics) (r' : ℕ) (paint : TextPaint) {runs : List (Batch Attrs)}
    (h : ∀ run ∈ runs, g.Alike r' run) : (g.drawRuns m r' paint runs).2.filterMap f =
      runs.flatMap fun run => if r' = r ∧ c ∈ run.positions then x else [] := by
  induction runs generalizing paint with
  | nil => rfl
  | cons run runs ih =>
    obtain ⟨hrun, hruns⟩ := List.forall_mem_cons.mp h
    rw [Grid.drawRuns, List.filterMap_append, ih _ hruns, List.flatMap_cons]
    congr 1
    rcases eq_or_ne r' r with rfl | hne
    · rw [ho.run m paint run hrun]
      exact if_congr (and_iff_right rfl).symm rfl rfl
    · rw [ho.otherRow m r' paint run hne, if_neg fun hin => hne hin.1]

/-- A row is drawn, and what is seen of it comes from the one run that holds the column. -/
theorem drawRow_some (h : g.Holds) (m : Metrics) (paint : TextPaint) {r' : ℕ} (hr' : (r' : ℤ) < g.rows) :
    ∃ p calls, g.drawRow m paint r' = some (p, calls) ∧ ∀ {r c : ℕ} {β : Type} {f : Call → Option β} {x : List β},
      Observes g r c f x → (c : ℤ) < g.cols → calls.filterMap f = if r' = r then x else [] := by
  obtain ⟨backgrounds, hbackgrounds⟩ := drawBackgrounds_some h hr' (Nat.zero_add g.cols.toNat)
  obtain ⟨runs, hruns, hcovers, halike⟩ := textRuns_covers h hr'
  rw [Grid.drawRow, hbackgrounds, Option.bind_some, hruns, Option.map_some]
  refine ⟨_, _, rfl, fun {r c β f x} ho hc => ?_⟩
  rw [List.filterMap_append, ho.backgrounds hbackgrounds, List.nil_append, ho.runs m r' paint halike]
  split_ifs with heq
  · simp only [heq, true_and]
    exact flatMap_batches_at hcovers (by omega) x
  · apply List.flatMap_eq_nil_iff.mpr
    intro run _
    exact if_neg fun hin => heq hin.1

theorem drawRows_some (h : g.Holds) (m : Metrics) (paint : TextPaint) (rows : List ℕ)
    (hrows : ∀ r' ∈ rows, (r' : ℤ) < g.rows) :
    ∃ p calls, g.drawRows m paint rows = some (p, calls) ∧
      ∀ {r c : ℕ} {β : Type} {f : Call → Option β} {x : List β}, Observes g r c f x → (c : ℤ) < g.cols →
        calls.filterMap f = rows.flatMap fun r' => if r' = r then x else [] := by
  induction rows generalizing paint with
  | nil => exact ⟨paint, [], rfl, fun _ _ => rfl⟩
  | cons r' rows ih =>
    obtain ⟨hr', hrest⟩ := List.forall_mem_cons.mp hrows
    obtain ⟨p, calls, hrow, hseen⟩ := drawRow_some h m paint hr'
    obtain ⟨p', calls', hrows', hseen'⟩ := ih p hrest
    rw [Grid.drawRows, hrow, Option.bind_some, hrows', Option.map_some]
    refine ⟨_, _, rfl, fun ho hc => ?_⟩
    rw [List.filterMap_append, hseen ho hc, hseen' ho hc, List.flatMap_cons]

/-- A cell drawn on its own shows what it is to show. -/
theorem drawCell_some (h : g.Has (r * g.cols.toNat + c)) (hcols : 0 ≤ g.cols) (m : Metrics) (paint : TextPaint) :
    ∃ own, g.drawCell m paint r c = some own ∧ textAt own r c = (g.cell (r * g.cols.toNat + c)).text ∧
      underlineAt own r c = (g.cell (r * g.cols.toNat + c)).underline := by
  have halike : g.Alike r (.single c (g.cell (r * g.cols.toNat + c)).attrs) := by
    intro c' hc'
    obtain rfl := Batch.mem_positions_single.mp hc'
    exact ⟨h, rfl⟩
  have hmem : c ∈ (Batch.single c (g.cell (r * g.cols.toNat + c)).attrs).positions := Batch.mem_positions_single.mpr rfl
  rw [Grid.drawCell, index_of_has h hcols, attrs_of_has h, Option.map_some]
  refine ⟨_, rfl, ?_, ?_⟩
  · exact ((observes_text hcols r c).run m paint _ halike).trans (if_pos hmem)
  · exact ((observes_underline r c).run m paint _ halike).trans (if_pos hmem)

end Rows

theorem grid_cols {f : Frame} {g : Grid} (h : f.grid = some g) : g.cols = f.cols ∧ g.rows = f.rows := by
  obtain ⟨chars, -, h⟩ := Option.bind_eq_some_iff.mp h
  obtain ⟨fgColors, -, h⟩ := Option.bind_eq_some_iff.mp h
  obtain ⟨bgColors, -, h⟩ := Option.bind_eq_some_iff.mp h
  obtain ⟨styleFlags, -, rfl⟩ := Option.map_eq_some_iff.mp h
  exact ⟨rfl, rfl⟩

/-- For every frame whose arrays hold its cells: the runs of a row take its columns one
after the other and each once; and `onDraw` puts on every cell, once, the text and the
underline that the cell gets when it is drawn on its own, with the foreground swapped for
inverse, the typeface, the strike and dim of its flags, nothing if it is invisible, and
a hyperlink's underline. -/
theorem text_runs_draw_cells (m : Metrics) (paint : TextPaint) (f : Frame) (g : Grid) (hg : f.grid = some g)
    (h : g.Holds) :
    ∃ p calls, f.drawCells m paint = some (p, calls) ∧ ∀ r : ℕ, (r : ℤ) < f.rows →
      (∃ runs, g.textRuns r = some runs ∧ runs.flatMap Batch.positions = List.range f.cols.toNat) ∧
      ∀ c : ℕ, (c : ℤ) < f.cols → ∀ before, ∃ own, g.drawCell m before r c = some own ∧
        textAt calls r c = textAt own r c ∧ textAt own r c = (g.cell (r * f.cols.toNat + c)).text ∧
        underlineAt calls r c = underlineAt own r c ∧
        underlineAt own r c = (g.cell (r * f.cols.toNat + c)).underline := by
  obtain ⟨hcols, hrows⟩ := grid_cols hg
  rw [← hcols, ← hrows]
  have hruns : ∀ r : ℕ, (r : ℤ) < g.rows →
      ∃ runs, g.textRuns r = some runs ∧ runs.flatMap Batch.positions = List.range g.cols.toNat := by
    intro r hr
    obtain ⟨runs, hruns, hcovers, -⟩ := textRuns_covers h hr
    exact ⟨runs, hruns, hcovers⟩
  unfold Frame.drawCells
  rw [← hcols, ← hrows, hg, Option.elim_some]
  split_ifs with hempty
  · refine ⟨paint, [], rfl, fun r hr => ⟨hruns r hr, fun c hc => ?_⟩⟩
    omega
  · have hlt : ∀ r' ∈ List.range g.rows.toNat, (r' : ℤ) < g.rows := by
      intro r' hr'
      have := List.mem_range.mp hr'
      omega
    obtain ⟨p, calls, hdraws, hseen⟩ := drawRows_some h m paint (List.range g.rows.toNat) hlt
    refine ⟨p, calls, hdraws, fun r hr => ⟨hruns r hr, fun c hc before => ?_⟩⟩
    obtain ⟨own, hown, htext, hunderline⟩ := drawCell_some (h.has hr hc) (by omega) m before
    have hmem : r ∈ List.range g.rows.toNat := List.mem_range.mpr (by omega)
    have htextAt : textAt calls r c = (g.cell (r * g.cols.toNat + c)).text :=
      (hseen (observes_text (by omega) r c) hc).trans (flatMap_of_mem List.nodup_range hmem _)
    have hunderlineAt : underlineAt calls r c = (g.cell (r * g.cols.toNat + c)).underline :=
      (hseen (observes_underline r c) hc).trans (flatMap_of_mem List.nodup_range hmem _)
    exact ⟨own, hown, htextAt.trans htext.symm, htext, hunderlineAt.trans hunderline.symm, hunderline⟩

/-- Three cells: two of a hyperlink, without an underline of its own and with a single
one, which make one run, and an inverse cell. -/
def linkFrame : Frame where
  cols := 3
  rows := 1
  defaultBgColor := 0xFF181818
  chars := some ⟨[0x61, 0x62, 0x63], by decide⟩
  fgColors := some ⟨[0xFFFFFFFF, 0xFFFFFFFF, 0xFF00FF00], by decide⟩
  bgColors := some ⟨[0xFF181818, 0xFF181818, 0xFFFFFFFF], by decide⟩
  styleFlags := some ⟨[512, 512, 32], by decide⟩
  underlineStyles := some ⟨[0, 1, 0], by decide⟩
  underlineColors := none

/-- Every character is as wide as a cell. -/
def monospace : Metrics := ⟨10, fun _ chars => 10 * Float32.ofNat chars.length⟩

theorem text_runs_draw_cells_link : ∃ g p calls, linkFrame.grid = some g ∧ g.Holds ∧
    linkFrame.drawCells monospace ⟨.regular, 0, false, false⟩ = some (p, calls) ∧
    (∃ runs, g.textRuns 0 = some runs ∧ runs.flatMap Batch.positions = [0, 1, 2]) ∧
    underlineAt calls 0 0 = [(1, 0xFFFFFFFF)] ∧ underlineAt calls 0 1 = [(1, 0xFFFFFFFF)] ∧
    textAt calls 0 2 = [(0x63, ⟨.regular, 0xFFFFFFFF, false, false⟩)] := by
  have hgrid : ∃ g, linkFrame.grid = some g ∧ g.Holds ∧ (g.cell 0).underline = [(1, 0xFFFFFFFF)] ∧
      (g.cell 1).underline = [(1, 0xFFFFFFFF)] ∧
      (g.cell 2).text = [(0x63, ⟨.regular, 0xFFFFFFFF, false, false⟩)] :=
    ⟨_, rfl, ⟨by decide, by decide, by decide, by decide⟩, by decide, by decide, by decide⟩
  obtain ⟨g, hg, hholds, hfirst, hsecond, hthird⟩ := hgrid
  obtain ⟨p, calls, hdraws, hrows⟩ :=
    text_runs_draw_cells monospace ⟨.regular, 0, false, false⟩ linkFrame g hg hholds
  obtain ⟨hruns, hcells⟩ := hrows 0 (by decide)
  obtain ⟨own₀, -, -, -, heq₀, hunderline₀⟩ := hcells 0 (by decide) ⟨.regular, 0, false, false⟩
  obtain ⟨own₁, -, -, -, heq₁, hunderline₁⟩ := hcells 1 (by decide) ⟨.regular, 0, false, false⟩
  obtain ⟨own₂, -, heq₂, htext₂, -, -⟩ := hcells 2 (by decide) ⟨.regular, 0, false, false⟩
  exact ⟨g, p, calls, hg, hholds, hdraws, hruns, heq₀.trans (hunderline₀.trans hfirst),
    heq₁.trans (hunderline₁.trans hsecond), heq₂.trans (htext₂.trans hthird)⟩

/-! The frame of `Spec.TerminalView`: the cells that a row paints are those of its runs. -/

section Views

open Views (RenderFrame paintedTargets)
open Render (Target)

variable {f : RenderFrame}

/-- The cells of an array, as the view's model has them. -/
def cellArray (f : RenderFrame) (h : f.size.cells < 2 ^ 31) (w : ℕ) (t : Target) : JArray (BitVec w) where
  values := (List.range f.size.cells).map fun i => BitVec.ofInt w (((f.cell t i).map Prod.snd).getD 0)
  length_lt := by rwa [List.length_map, List.length_range]

def gridOf (f : RenderFrame) (h : f.size.cells < 2 ^ 31) : Grid where
  cols := f.size.cols
  rows := f.size.rows
  defaultBgColor := BitVec.ofInt 32 f.header.defaultBgColor
  chars := cellArray f h 16 .chars
  fgColors := cellArray f h 32 .fgColors
  bgColors := cellArray f h 32 .bgColors
  styleFlags := cellArray f h 32 .styleFlags
  underlineStyles := some (cellArray f h 32 .underlineStyles)
  underlineColors := some (cellArray f h 32 .underlineColors)

theorem length_cellArray (h : f.size.cells < 2 ^ 31) (w : ℕ) (t : Target) :
    (cellArray f h w t).length = f.size.cells := by
  rw [JArray.length, cellArray, List.length_map, List.length_range]

theorem gridOf_has (h : f.size.cells < 2 ^ 31) {i : ℕ} (hi : i < f.size.cells) : (gridOf f h).Has i := by
  constructor <;> exact hi.trans_eq (length_cellArray h _ _).symm

/-- Up to the end of the arrays. -/
theorem readable_gridOf (h : f.size.cells < 2 ^ 31) (r : ℕ)
    (hr : r * f.size.cols.toNat + f.size.cols.toNat ≤ 2 ^ 31)
    (hcols : 0 ≤ f.size.cols) :
    Readable ((gridOf f h).read r) f.size.cols.toNat
      (min f.size.cols.toNat (f.size.cells - r * f.size.cols.toNat)) where
  le := min_le_left _ _
  key c hc := ⟨_, read_of_has (gridOf_has h (show r * f.size.cols.toNat + c < f.size.cells by omega)) hcols⟩
  stop c hle hlt := by
    have hindex : (gridOf f h).index r c = (r * f.size.cols.toNat + c : ℕ) :=
      index_eq (show r * f.size.cols.toNat + c < 2 ^ 31 by omega) hcols
    have hlength : (gridOf f h).chars.length = f.size.cells := length_cellArray h _ _
    rw [Grid.read, hindex, hlength, if_pos (by exact_mod_cast (by omega))]

/-- The columns of a row that are inside the arrays. -/
theorem takeWhile_columns (n a b : ℕ) :
    ((List.range n).map fun c => a + c).takeWhile (fun i => decide (i < b)) =
      (List.range (min n (b - a))).map fun c => a + c := by
  rw [List.takeWhile_map]
  congr 1
  induction n with
  | zero => rw [Nat.zero_min, List.range_zero, List.takeWhile_nil]
  | succ n ih =>
    rw [List.range_succ, List.takeWhile_append, ih, List.length_range, List.length_range]
    by_cases hin : a + n < b
    · have hmin : min n (b - a) = n := by omega
      have hmin' : min (n + 1) (b - a) = n + 1 := by omega
      rw [if_pos hmin, hmin', List.takeWhile_cons_of_pos (by simpa using hin), List.takeWhile_nil, List.range_succ]
    · have hmin : min (n + 1) (b - a) = min n (b - a) := by omega
      rw [hmin, List.takeWhile_cons_of_neg (by simpa using hin), List.append_nil]
      split_ifs with hall
      · rw [hall]
      · rfl

/-- A row of the view's model reads the cells of the runs, in their order. -/
theorem paintRow_eq_runs (h : f.size.cells < 2 ^ 31) (r : ℕ)
    (hr : r * f.size.cols.toNat + f.size.cols.toNat ≤ 2 ^ 31) (hcols : 0 ≤ f.size.cols) :
    ∃ runs, (gridOf f h).textRuns r = some runs ∧ f.paintRow r = (runs.flatMap Batch.positions).flatMap fun c =>
      paintedTargets.map fun t => f.paintCell t (r * f.size.cols.toNat + c) := by
  obtain ⟨runs, hruns, hcovers, -⟩ := (readable_gridOf h r hr hcols).batches (Nat.zero_le _)
  refine ⟨runs, hruns, ?_⟩
  rw [hcovers, Nat.sub_zero, ← List.range_eq_range', RenderFrame.paintRow, takeWhile_columns, List.flatMap_map]

end Views

end Tinyhack.TextRuns
