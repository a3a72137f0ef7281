import TinyhackSsh.Spec.Render
import TinyhackSsh.Proofs.Wire

/-! Which indices an export writes. Whatever the iterators yield, the loops write
each row index below `rows` and each cell index below `rows * cols`, and nothing
else; so an export stays inside the arrays iff the size the terminal reports
fits them. -/

namespace Tinyhack.Render

open Runs

def Target.isRow : Target → Bool
  | .rowSemanticPrompt | .dirtyRows => true
  | _ => false

/-- The array is written by this export. -/
def Input.active (inp : Input) : Target → Bool
  | .underlineStyles => inp.pinned .underlineStyles
  | .underlineColors => inp.pinned .underlineColors
  | .cellSemantic => inp.pinned .cellSemantic
  | .rowSemanticPrompt => inp.pinned .rowSemanticPrompt
  | _ => true

def Wrote (es : List Effect) (t : Target) (i : ℕ) : Prop := ∃ v, Effect.write t i v ∈ es

section Wrote

variable {inp : Input} {es es' : List Effect} {t t' : Target} {i j : ℕ} {v : ℤ}

theorem not_wrote_nil : ¬ Wrote [] t i := by
  rintro ⟨v, hv⟩
  simp at hv

theorem wrote_append : Wrote (es ++ es') t i ↔ Wrote es t i ∨ Wrote es' t i := by
  simp only [Wrote, List.mem_append, exists_or]

theorem wrote_cons_write : Wrote (.write t' j v :: es) t i ↔ (t = t' ∧ i = j) ∨ Wrote es t i := by
  constructor
  · rintro ⟨w, hw⟩
    rcases List.mem_cons.mp hw with heq | hmem
    · injection heq with h1 h2
      exact Or.inl ⟨h1, h2⟩
    · exact Or.inr ⟨w, hmem⟩
  · rintro (⟨rfl, rfl⟩ | ⟨w, hw⟩)
    · exact ⟨v, by simp⟩
    · exact ⟨w, List.mem_cons_of_mem _ hw⟩

theorem wrote_optional : Wrote (inp.optional t' j v) t i ↔ (inp.pinned t' = true ∧ t = t') ∧ i = j := by
  unfold Input.optional
  split_ifs with hp
  · simp [wrote_cons_write, not_wrote_nil, hp]
  · simp [not_wrote_nil, hp]

theorem wrote_flatMap {l : List ℕ} {f : ℕ → List Effect} :
    Wrote (l.flatMap f) t i ↔ ∃ c ∈ l, Wrote (f c) t i := by
  simp only [Wrote, List.mem_flatMap]
  constructor
  · rintro ⟨w, c, hc, hw⟩
    exact ⟨c, hc, w, hw⟩
  · rintro ⟨c, hc, w, hw⟩
    exact ⟨w, c, hc, hw⟩

end Wrote

section Loops

variable {inp : Input} {t : Target} {i : ℕ}

/-- One cell is one index of each active cell array. -/
theorem wrote_blankEffects (idx : ℕ) :
    Wrote (inp.blankEffects idx) t i ↔ inp.active t = true ∧ t.isRow = false ∧ i = idx := by
  simp only [Input.blankEffects, List.cons_append, List.nil_append, wrote_cons_write, wrote_append, wrote_optional]
  cases t <;> simp [Input.active, Target.isRow]

theorem wrote_cellEffects (idx : ℕ) (cell : Cell) :
    Wrote (inp.cellEffects idx cell) t i ↔ inp.active t = true ∧ t.isRow = false ∧ i = idx := by
  have hbuf : ¬ Wrote (if cell.graphemes.length > 0 then [.graphemesBuf cell.graphemes.length] else []) t i := by
    split_ifs
    · rintro ⟨v, hv⟩
      simp at hv
    · exact not_wrote_nil
  simp only [Input.cellEffects, List.append_assoc, List.cons_append, List.nil_append, wrote_cons_write, wrote_append,
    wrote_optional, hbuf, false_or]
  cases t <;> simp [Input.active, Target.isRow]

theorem wrote_blankFrom {r cols c : ℕ} (hc : c ≤ cols) :
    Wrote (inp.blankFrom r cols c) t i ↔
      inp.active t = true ∧ t.isRow = false ∧ r * cols + c ≤ i ∧ i < r * cols + cols := by
  simp only [Input.blankFrom, wrote_flatMap, wrote_blankEffects, List.mem_range'_1]
  constructor
  · rintro ⟨k, ⟨hk, hk'⟩, hact, hrow, rfl⟩
    exact ⟨hact, hrow, by omega, by omega⟩
  · rintro ⟨hact, hrow, hle, hlt⟩
    exact ⟨i - r * cols, ⟨by omega, by omega⟩, hact, hrow, by omega⟩

/-- The cells of a row: from column `c` on, each index once. -/
theorem wrote_cellsFrom {r cols c : ℕ} (cells : List Cell) (hc : c ≤ cols) :
    Wrote (inp.cellsFrom r cols c cells) t i ↔
      inp.active t = true ∧ t.isRow = false ∧ r * cols + c ≤ i ∧ i < r * cols + cols := by
  induction cells generalizing c with
  | nil => exact wrote_blankFrom hc
  | cons cell cells ih =>
    simp only [Input.cellsFrom]
    split_ifs with hlt
    · rw [wrote_append, wrote_cellEffects, ih (by omega)]
      constructor
      · rintro (⟨hact, hrow, rfl⟩ | ⟨hact, hrow, hle, hi⟩)
        · exact ⟨hact, hrow, by omega, by omega⟩
        · exact ⟨hact, hrow, by omega, hi⟩
      · rintro ⟨hact, hrow, hle, hi⟩
        by_cases heq : i = r * cols + c
        · exact Or.inl ⟨hact, hrow, heq⟩
        · exact Or.inr ⟨hact, hrow, by omega, hi⟩
    · exact wrote_blankFrom hc

/-- The first index that row `r` has in an array. -/
def Target.first (t : Target) (cols r : ℕ) : ℕ := if t.isRow then r else r * cols

theorem Target.first_mono (t : Target) (cols : ℕ) {r r' : ℕ} (h : r ≤ r') : t.first cols r ≤ t.first cols r' := by
  unfold Target.first
  split_ifs
  · exact h
  · exact Nat.mul_le_mul_right cols h

/-- A whole row, whatever its cells are. -/
theorem wrote_row {cols r : ℕ} {v w : ℤ} {es : List Effect}
    (hes : Wrote es t i ↔ inp.active t = true ∧ t.isRow = false ∧ r * cols + 0 ≤ i ∧ i < r * cols + cols) :
    Wrote (.write .dirtyRows r v :: inp.optional .rowSemanticPrompt r w ++ es) t i ↔
      inp.active t = true ∧ t.first cols r ≤ i ∧ i < t.first cols (r + 1) := by
  simp only [List.cons_append, wrote_cons_write, wrote_append, wrote_optional, hes, Target.first, Nat.add_mul,
    Nat.add_zero, Nat.one_mul]
  cases t <;> simp [Input.active, Target.isRow] <;> omega

/-- Consecutive stretches of rows. -/
theorem Target.first_glue (t : Target) {cols a b c : ℕ} (hab : a ≤ b) (hbc : b ≤ c) (i : ℕ) :
    (t.first cols a ≤ i ∧ i < t.first cols b) ∨ (t.first cols b ≤ i ∧ i < t.first cols c) ↔
      t.first cols a ≤ i ∧ i < t.first cols c := by
  have h1 := t.first_mono cols hab
  have h2 := t.first_mono cols hbc
  omega

theorem wrote_blankRows {cols r : ℕ} (n : ℕ) :
    Wrote ((List.range' r n).flatMap fun r =>
        .write .dirtyRows r 0 :: inp.optional .rowSemanticPrompt r 0 ++ inp.blankFrom r cols 0) t i ↔
      inp.active t = true ∧ t.first cols r ≤ i ∧ i < t.first cols (r + n) := by
  induction n generalizing r with
  | zero =>
    constructor
    · intro h
      exact absurd h not_wrote_nil
    · rintro ⟨-, hle, hlt⟩
      exact absurd hlt (Nat.not_lt.mpr hle)
  | succ n ih =>
    rw [List.range'_succ, List.flatMap_cons, wrote_append, ih, wrote_row (wrote_blankFrom (Nat.zero_le cols)),
      ← and_or_left, t.first_glue (Nat.le_succ r) (by omega), show r + (n + 1) = r + 1 + n by omega]

theorem wrote_blankRowsFrom {rows cols r : ℕ} (hr : r ≤ rows) :
    Wrote (inp.blankRowsFrom rows cols r) t i ↔
      inp.active t = true ∧ t.first cols r ≤ i ∧ i < t.first cols rows := by
  rw [Input.blankRowsFrom, wrote_blankRows, show r + (rows - r) = rows by omega]

theorem wrote_rowsFrom {rows cols r : ℕ} (grid : List Row) (hr : r ≤ rows) :
    Wrote (inp.rowsFrom rows cols r grid) t i ↔
      inp.active t = true ∧ t.first cols r ≤ i ∧ i < t.first cols rows := by
  induction grid generalizing r with
  | nil => exact wrote_blankRowsFrom hr
  | cons row rest ih =>
    by_cases hlt : r < rows
    · have hrest : Wrote (inp.rowsFrom rows cols (r + 1) rest) t i ↔
          inp.active t = true ∧ t.first cols (r + 1) ≤ i ∧ i < t.first cols rows := ih hlt
      rw [Input.rowsFrom, if_pos hlt, wrote_append, wrote_row (wrote_cellsFrom row.cells (Nat.zero_le cols)), hrest,
        ← and_or_left, t.first_glue (Nat.le_succ r) hlt]
    · rw [Input.rowsFrom, if_neg hlt]
      exact wrote_blankRowsFrom hr

/-- An export writes each index below `rows` of the row arrays and each index below
`rows * cols` of the cell arrays, and no other. -/
theorem wrote_effects (rows cols : ℕ) :
    Wrote (inp.effects rows cols) t i ↔ inp.active t = true ∧ i < t.first cols rows := by
  rw [Input.effects, wrote_rowsFrom inp.grid (Nat.zero_le rows)]
  have hzero : t.first cols 0 = 0 := by
    unfold Target.first
    split_ifs <;> simp
  simp [hzero]

end Loops

theorem mem_outside {f : Frame} {es : List Effect} {t : Target} {i : ℕ} :
    (t, i) ∈ outside f es ↔ Wrote es t i ∧ f.length t ≤ i := by
  unfold outside
  rw [List.mem_filterMap]
  constructor
  · rintro ⟨e, he, heq⟩
    cases e with
    | write t' i' v =>
      simp only at heq
      split_ifs at heq with hlt
      obtain ⟨rfl, rfl⟩ := Prod.mk.inj (Option.some.inj heq)
      exact ⟨⟨v, he⟩, Nat.le_of_not_lt hlt⟩
    | graphemesBuf len => cases heq
  · rintro ⟨⟨v, hv⟩, hle⟩
    exact ⟨_, hv, if_neg (Nat.not_lt.mpr hle)⟩

theorem outside_eq_nil (f : Frame) (es : List Effect) :
    outside f es = [] ↔ ∀ t i, Wrote es t i → i < f.length t := by
  rw [List.eq_nil_iff_forall_not_mem]
  constructor
  · intro h t i hw
    by_contra hge
    exact h (t, i) (mem_outside.mpr ⟨hw, Nat.le_of_not_lt hge⟩)
  · rintro h ⟨t, i⟩ hmem
    obtain ⟨hw, hle⟩ := mem_outside.mp hmem
    exact absurd (h t i hw) (Nat.not_lt.mpr hle)

/-- The size the terminal reports fits the frame's arrays. -/
def Fits (f : Frame) (inp : Input) (rows cols : ℕ) : Prop :=
  rows ≤ f.dirtyRows ∧ (inp.pinned .rowSemanticPrompt = true → rows ≤ f.rowSemanticPrompt) ∧
  rows * cols ≤ f.cells

instance (f : Frame) (inp : Input) (rows cols : ℕ) : Decidable (Fits f inp rows cols) :=
  inferInstanceAs (Decidable (rows ≤ f.dirtyRows ∧ _))

theorem outside_effects_eq_nil (f : Frame) (inp : Input) (rows cols : ℕ) :
    outside f (inp.effects rows cols) = [] ↔ Fits f inp rows cols := by
  have hbounds : (∀ t i, Wrote (inp.effects rows cols) t i → i < f.length t) ↔
      ∀ t, inp.active t = true → t.first cols rows ≤ f.length t := by
    constructor
    · intro h t hact
      by_contra hgt
      have hlt := h t (f.length t) ((wrote_effects rows cols).mpr ⟨hact, by omega⟩)
      omega
    · intro h t i hw
      obtain ⟨hact, hi⟩ := (wrote_effects rows cols).mp hw
      exact hi.trans_le (h t hact)
  rw [outside_eq_nil, hbounds]
  constructor
  · intro h
    exact ⟨h .dirtyRows rfl, fun hp => h .rowSemanticPrompt hp, h .chars rfl⟩
  · rintro ⟨hdirty, hsem, hcells⟩ t hact
    cases t with
    | dirtyRows => exact hdirty
    | rowSemanticPrompt => exact hsem hact
    | _ => exact hcells

/-- Each export finds the terminal's size within the frame it was given. -/
def FitOk (s : Session) (a : Action) : Prop :=
  match a, s.drawing with
  | .exportFrame (.exported inp), some i => Fits (s.frame i) inp s.termRows s.termCols
  | _, _ => True

instance (s : Session) (a : Action) : Decidable (FitOk s a) := by
  unfold FitOk; split <;> infer_instance

theorem step_faults {s s' : Session} {a : Action} (hs : step s a = some s') :
    s'.faults = [] ↔ s.faults = [] ∧ FitOk s a := by
  cases a with
  | resize rows cols cellWidth cellHeight ok =>
    simp only [step] at hs
    split_ifs at hs
    obtain rfl := Option.some.inj hs
    have hsame : (resize s rows cols cellWidth cellHeight ok).faults = s.faults := by
      unfold resize
      split_ifs <;> rfl
    simp [hsame, FitOk]
  | output cols => obtain rfl := Option.some.inj hs; simp [FitOk]
  | beginFrame i =>
    simp only [step] at hs
    split_ifs at hs
    obtain rfl := Option.some.inj hs
    simp [FitOk]
  | exportFrame outcome =>
    cases hd : s.drawing with
    | none => simp [step, hd] at hs
    | some i =>
      cases outcome with
      | suspended =>
        simp only [step, hd] at hs
        obtain rfl := Option.some.inj hs
        simp [FitOk]
      | notPinned =>
        simp only [step, hd] at hs
        obtain rfl := Option.some.inj hs
        simp [FitOk]
      | exported inp =>
        simp only [step, hd] at hs
        obtain rfl := Option.some.inj hs
        simp [FitOk, hd, outside_effects_eq_nil]
  | otherSession i cols rows =>
    simp only [step] at hs
    split_ifs at hs
    obtain rfl := Option.some.inj hs
    simp [FitOk]

/-- In every run, all writes of all exports stay inside the arrays iff each export
found the terminal's size within the arrays of its frame. -/
theorem render_writes_inside (rows cols cellWidth cellHeight : ℤ) (acts : List Action) (s : Session)
    (h : Run (Session.new rows cols cellWidth cellHeight) step anyStep acts s) :
    s.faults = [] ↔ Run (Session.new rows cols cellWidth cellHeight) step FitOk acts s := by
  constructor
  · intro hf
    induction h with
    | nil => exact Run.nil
    | snoc hrun _ hs ih =>
      obtain ⟨hprev, hok⟩ := (step_faults hs).mp hf
      exact (ih hprev).snoc hok hs
  · intro hrun
    exact hrun.inv (fun s => s.faults = []) rfl fun _ _ _ hi hok hs => (step_faults hs).mpr ⟨hi, hok⟩

def blankInput : Input := ⟨⟨⟨0, 0, 0⟩, ⟨255, 255, 255⟩, fun _ => ⟨0, 0, 0⟩⟩, [], fun _ => true⟩

/-- One frame of a session with 24 rows and 80 columns. -/
def oneFrame : List Action := [.beginFrame 1, .exportFrame (.exported blankInput)]

theorem render_writes_inside_frame : ∃ s, Run (Session.new 24 80 10 20) step anyStep oneFrame s ∧ s.faults = [] := by
  have hrun : ∃ s, Run (Session.new 24 80 10 20) step FitOk oneFrame s ∧ s.drawing = none :=
    exists_run_of_exec (by decide)
  obtain ⟨s, hrun, -⟩ := hrun
  exact ⟨s, hrun.any, (render_writes_inside _ _ _ _ _ _ hrun.any).mpr hrun⟩

/-- Output switches the terminal to 132 columns between `ensureCapacity` and the export. -/
def wideFrame : List Action := [.beginFrame 1, .output (some 132)]

/-- The export of 24 rows of 132 columns runs over the end of arrays for 24 rows of 80. -/
theorem wide_export_overruns : ∃ s s',
    Run (Session.new 24 80 10 20) step anyStep wideFrame s ∧
    step s (.exportFrame (.exported blankInput)) = some s' ∧ (Target.chars, 80 * 24) ∈ s'.faults := by
  have hrun : ∃ s s', Run (Session.new 24 80 10 20) step anyStep wideFrame s ∧
      step s (.exportFrame (.exported blankInput)) = some s' ∧
      s.drawing = some 1 ∧ s.termRows = 24 ∧ s.termCols = 132 ∧ (s.frame 1).cells = 80 * 24 :=
    exists_step_of_exec (by decide)
  obtain ⟨s, s', hrun, hs, hd, hrows, hcols, hlen⟩ := hrun
  refine ⟨s, s', hrun, hs, ?_⟩
  simp only [step, hd, hrows, hcols] at hs
  obtain rfl := Option.some.inj hs
  refine List.mem_append_right _ (mem_outside.mpr ⟨?_, hlen.le⟩)
  rw [wrote_effects]
  exact ⟨rfl, by simp [Target.first, Target.isRow]⟩

/-! When the condition holds: the terminal follows the session. -/

/-- Resizes succeed within 16 bits and a product below `2 ^ 31`, and output leaves
the terminal at most as wide as the session. -/
def CalmOk (s : Session) : Action → Prop
  | .resize rows cols _ _ ok => ok = true ∧ max 1 rows < 65536 ∧ max 1 cols < 65536 ∧
      max 1 cols * max 1 rows < 2 ^ 31
  | .output (some cols) => (cols.toNat : ℤ) ≤ s.cols
  | _ => True

/-- The terminal is no larger than the session, and the frame being drawn holds the session. -/
structure Calm (s : Session) : Prop where
  rows : (s.termRows : ℤ) ≤ s.rows
  cols : (s.termCols : ℤ) ≤ s.cols
  total : s.cols * s.rows < 2 ^ 31
  drawing : ∀ i, s.drawing = some i → s.rows ≤ (s.frame i).dirtyRows ∧
    s.rows ≤ (s.frame i).rowSemanticPrompt ∧ s.cols * s.rows ≤ (s.frame i).cells

theorem le_grow (length : ℕ) (wanted : ℤ) : wanted ≤ grow length wanted := by
  unfold grow
  split_ifs with h
  · rw [Int.toNat_of_nonneg (by omega)]
  · omega

theorem uint16_eq {n : ℤ} (h0 : 0 ≤ n) (h : n < 65536) : (uint16 n : ℤ) = n := by
  unfold uint16
  omega

theorem calm_new {rows cols cellWidth cellHeight : ℤ} (hr : max 1 rows < 65536) (hc : max 1 cols < 65536)
    (ht : max 1 cols * max 1 rows < 2 ^ 31) : Calm (Session.new rows cols cellWidth cellHeight) := by
  refine ⟨?_, ?_, ht, by simp [Session.new]⟩
  · exact (uint16_eq (by omega) hr).le
  · exact (uint16_eq (by omega) hc).le

theorem calm_resize {s : Session} {rows cols cellWidth cellHeight : ℤ} {ok : Bool} (h : Calm s)
    (hd : s.drawing = none) (hok : CalmOk s (.resize rows cols cellWidth cellHeight ok)) :
    Calm (resize s rows cols cellWidth cellHeight ok) := by
  obtain ⟨rfl, hr, hc, ht⟩ := hok
  simp only [resize, if_true]
  split_ifs
  · exact h
  · refine ⟨?_, ?_, ht, by simp [hd]⟩
    · exact (uint16_eq (by omega) hr).le
    · exact (uint16_eq (by omega) hc).le

theorem calm_step {s s' : Session} {a : Action} (h : Calm s) (hok : CalmOk s a) (hs : step s a = some s') :
    Calm s' := by
  cases a with
  | resize rows cols cellWidth cellHeight ok =>
    simp only [step] at hs
    split_ifs at hs with hd
    obtain rfl := Option.some.inj hs
    exact calm_resize h hd hok
  | output cols =>
    obtain rfl := Option.some.inj hs
    cases cols with
    | none => exact ⟨h.rows, h.cols, h.total, h.drawing⟩
    | some cols => exact ⟨h.rows, hok, h.total, h.drawing⟩
  | beginFrame i =>
    simp only [step] at hs
    split_ifs at hs
    obtain rfl := Option.some.inj hs
    refine ⟨h.rows, h.cols, h.total, fun j hj => ?_⟩
    obtain rfl := Option.some.inj hj
    have hpos : 0 ≤ s.cols * s.rows := by
      have h1 := h.rows
      have h2 := h.cols
      exact mul_nonneg (by omega) (by omega)
    have hwrap : wrap32 (s.cols * s.rows) = s.cols * s.rows := wrap32_eq (by omega) h.total
    have hcells := le_grow (s.frame i).cells (wrap32 (s.cols * s.rows))
    rw [hwrap] at hcells
    simp only [Function.update_self, ensureCapacity]
    refine ⟨le_grow _ _, le_grow _ _, ?_⟩
    rw [hwrap]
    exact hcells
  | exportFrame outcome =>
    cases hd : s.drawing with
    | none => simp [step, hd] at hs
    | some i =>
      cases outcome <;> simp only [step, hd] at hs <;> obtain rfl := Option.some.inj hs <;>
        exact ⟨h.rows, h.cols, h.total, by simp⟩
  | otherSession i cols rows =>
    simp only [step] at hs
    split_ifs at hs with hd
    obtain rfl := Option.some.inj hs
    refine ⟨h.rows, h.cols, h.total, fun j hj => ?_⟩
    have hne : j ≠ i := fun hji => hd (hji ▸ hj)
    simpa [hne] using h.drawing j hj

theorem Calm.fits {s : Session} {a : Action} (h : Calm s) : FitOk s a := by
  unfold FitOk
  split
  · rename_i inp i hd
    obtain ⟨hdirty, hsem, hcells⟩ := h.drawing i hd
    have hr := h.rows
    have hc := h.cols
    refine ⟨by omega, fun _ => by omega, ?_⟩
    have hmul : (s.termRows : ℤ) * s.termCols ≤ s.rows * s.cols :=
      mul_le_mul hr hc (by omega) (by omega)
    rw [mul_comm s.rows] at hmul
    exact_mod_cast hmul.trans hcells
  · trivial

/-- A session whose resizes succeed and whose output does not widen the terminal
exports inside its arrays. -/
theorem calm_run_inside {rows cols cellWidth cellHeight : ℤ} {acts : List Action} {s : Session}
    (hr : max 1 rows < 65536) (hc : max 1 cols < 65536) (ht : max 1 cols * max 1 rows < 2 ^ 31)
    (h : Run (Session.new rows cols cellWidth cellHeight) step CalmOk acts s) : s.faults = [] := by
  have hinv : Calm s ∧ s.faults = [] :=
    h.inv (fun s => Calm s ∧ s.faults = []) ⟨calm_new hr hc ht, rfl⟩ fun _ _ _ hi hok hs =>
      ⟨calm_step hi.1 hok hs, (step_faults hs).mpr ⟨hi.2, hi.1.fits⟩⟩
  exact hinv.2

/-! The reads of grapheme clusters into the local buffer. -/

section Graphemes

variable {inp : Input} {n : ℕ}

theorem graphemesBuf_notMem_optional {t : Target} {i : ℕ} {v : ℤ} : .graphemesBuf n ∉ inp.optional t i v := by
  unfold Input.optional
  split_ifs <;> simp

theorem graphemesBuf_notMem_blankFrom {r cols c : ℕ} : .graphemesBuf n ∉ inp.blankFrom r cols c := by
  simp [Input.blankFrom, Input.blankEffects, graphemesBuf_notMem_optional]

theorem graphemesBuf_notMem_blankRowsFrom {rows cols r : ℕ} : .graphemesBuf n ∉ inp.blankRowsFrom rows cols r := by
  simp [Input.blankRowsFrom, graphemesBuf_notMem_optional, graphemesBuf_notMem_blankFrom]

theorem graphemesBuf_mem_cellEffects {idx : ℕ} {cell : Cell} :
    .graphemesBuf n ∈ inp.cellEffects idx cell ↔ cell.graphemes.length = n ∧ 0 < n := by
  have hif : .graphemesBuf n ∈ (if cell.graphemes.length > 0 then
      [Effect.graphemesBuf cell.graphemes.length] else []) ↔ cell.graphemes.length = n ∧ 0 < n := by
    split_ifs with h
    · constructor
      · intro hmem
        obtain rfl : n = cell.graphemes.length := by simpa using hmem
        exact ⟨rfl, h⟩
      · rintro ⟨rfl, -⟩
        simp
    · simp only [List.not_mem_nil, false_iff]
      omega
  simp only [Input.cellEffects, List.mem_append, hif]
  simp [graphemesBuf_notMem_optional]

/-- The loop over a row reads the clusters of the cells in front of column `cols`. -/
theorem graphemesBuf_mem_cellsFrom {r cols c : ℕ} (cells : List Cell) :
    .graphemesBuf n ∈ inp.cellsFrom r cols c cells ↔
      ∃ k cell, c + k < cols ∧ cells[k]? = some cell ∧ cell.graphemes.length = n ∧ 0 < n := by
  induction cells generalizing c with
  | nil => simp [Input.cellsFrom, graphemesBuf_notMem_blankFrom]
  | cons cell cells ih =>
    by_cases hc : c < cols
    · rw [Input.cellsFrom, if_pos hc, List.mem_append, graphemesBuf_mem_cellEffects, ih]
      constructor
      · rintro (hcell | ⟨k, cell', hk, hget, hlen⟩)
        · exact ⟨0, cell, hc, rfl, hcell⟩
        · exact ⟨k + 1, cell', by omega, hget, hlen⟩
      · rintro ⟨k, cell', hk, hget, hlen⟩
        cases k with
        | zero =>
          obtain rfl := Option.some.inj hget
          exact Or.inl hlen
        | succ k => exact Or.inr ⟨k, cell', by omega, hget, hlen⟩
    · rw [Input.cellsFrom, if_neg hc]
      constructor
      · intro hmem
        exact absurd hmem graphemesBuf_notMem_blankFrom
      · rintro ⟨k, cell', hk, -⟩
        omega

theorem graphemesBuf_mem_rowsFrom {rows cols r : ℕ} (grid : List Row) :
    .graphemesBuf n ∈ inp.rowsFrom rows cols r grid ↔
      ∃ k row, r + k < rows ∧ grid[k]? = some row ∧
        ∃ c cell, c < cols ∧ row.cells[c]? = some cell ∧ cell.graphemes.length = n ∧ 0 < n := by
  induction grid generalizing r with
  | nil => simp [Input.rowsFrom, graphemesBuf_notMem_blankRowsFrom]
  | cons row rest ih =>
    by_cases hr : r < rows
    · have hhead : .graphemesBuf n ∉ Effect.write .dirtyRows r (if row.dirty then 1 else 0) ::
          inp.optional .rowSemanticPrompt r row.prompt := by simp [graphemesBuf_notMem_optional]
      rw [Input.rowsFrom, if_pos hr, List.mem_append, List.mem_append, or_iff_right hhead,
        graphemesBuf_mem_cellsFrom, ih]
      constructor
      · rintro (⟨c, cell, hc, hcell⟩ | ⟨k, row', hk, hget, hrow⟩)
        · exact ⟨0, row, hr, rfl, c, cell, by omega, hcell⟩
        · exact ⟨k + 1, row', by omega, hget, hrow⟩
      · rintro ⟨k, row', hk, hget, c, cell, hc, hcell⟩
        cases k with
        | zero =>
          obtain rfl := Option.some.inj hget
          exact Or.inl ⟨c, cell, by omega, hcell⟩
        | succ k => exact Or.inr ⟨k, row', by omega, hget, c, cell, hc, hcell⟩
    · rw [Input.rowsFrom, if_neg hr]
      constructor
      · intro hmem
        exact absurd hmem graphemesBuf_notMem_blankRowsFrom
      · rintro ⟨k, row', hk, -⟩
        omega

end Graphemes

/-- Every cluster read of an export fits the buffer of four iff every exported cell
holds at most four code points. -/
theorem grapheme_reads_fit (inp : Input) (rows cols : ℕ) :
    (∀ len, .graphemesBuf len ∈ inp.effects rows cols → len ≤ GRAPHEMES_BUF_SIZE) ↔
      ∀ r c row cell, r < rows → c < cols → inp.grid[r]? = some row → row.cells[c]? = some cell →
        cell.graphemes.length ≤ 4 := by
  unfold Input.effects
  simp only [graphemesBuf_mem_rowsFrom, Nat.zero_add]
  constructor
  · intro h r c row cell hr hc hrow hcell
    by_cases hpos : 0 < cell.graphemes.length
    · exact h _ ⟨r, row, hr, hrow, c, cell, hc, hcell, rfl, hpos⟩
    · omega
  · rintro h len ⟨r, row, hr, hrow, c, cell, hc, hcell, rfl, -⟩
    exact h r c row cell hr hc hrow hcell

/-- The letter e with four combining marks. -/
def clusterInput : Input :=
  { blankInput with grid := [⟨true, 0, [⟨[0x65, 0x301, 0x302, 0x303, 0x304], none, none, none, false, none⟩]⟩] }

theorem five_codepoints_overrun : ¬ ∀ len, .graphemesBuf len ∈ clusterInput.effects 1 1 → len ≤ GRAPHEMES_BUF_SIZE := by
  intro h
  have hmem : .graphemesBuf 5 ∈ clusterInput.effects 1 1 := by decide
  have hle := h 5 hmem
  simp [GRAPHEMES_BUF_SIZE] at hle

end Tinyhack.Render
