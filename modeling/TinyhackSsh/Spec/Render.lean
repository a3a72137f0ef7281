import TinyhackSsh.Lib.Runs
import TinyhackSsh.Spec.Wire

/-! `RenderFrame.ensureCapacity`, the export loops of `nativeUpdateRender`, and
the three copies of the geometry: the session's `cols` and `rows`, the
terminal's, and the lengths of a frame's arrays. An export is the list of what it
does to memory; what Ghostty's render state holds is its input. -/

namespace Tinyhack.Render

structure Rgb where
  r : UInt8
  g : UInt8
  b : UInt8
  deriving DecidableEq

/-- `0xFF000000 | (r << 16) | (g << 8) | b`. -/
def argb (c : Rgb) : ℤ := wrap32 (0xFF000000 + c.r.toNat * 65536 + c.g.toNat * 256 + c.b.toNat)

inductive UnderlineColor
  | none
  | palette (index : UInt8)
  | rgb (c : Rgb)
  deriving DecidableEq

structure Style where
  bold : Bool
  italic : Bool
  underline : ℕ
  strikethrough : Bool
  faint : Bool
  inverse : Bool
  blink : Bool
  invisible : Bool
  underlineColor : UnderlineColor
  deriving DecidableEq

structure Cell where
  /-- base code point and the rest of its cluster; empty without text -/
  graphemes : List ℕ
  fg : Option Rgb
  bg : Option Rgb
  style : Option Style
  selected : Bool
  /-- hyperlink and semantic content, if the raw cell can be read -/
  raw : Option (Bool × ℤ)
  deriving DecidableEq

structure Row where
  dirty : Bool
  prompt : ℤ
  cells : List Cell
  deriving DecidableEq

structure Colors where
  background : Rgb
  foreground : Rgb
  palette : UInt8 → Rgb

/-- The Java arrays the export fills. -/
inductive Target
  | chars
  | fgColors
  | bgColors
  | styleFlags
  | underlineStyles
  | underlineColors
  | cellSemantic
  | rowSemanticPrompt
  | dirtyRows
  deriving DecidableEq

inductive Effect
  | write (target : Target) (index : ℕ) (value : ℤ)
  /-- a GRAPHEMES_BUF read of so many code points into `uint32_t buf[4]` -/
  | graphemesBuf (len : ℕ)
  deriving DecidableEq

def GRAPHEMES_BUF_SIZE : ℕ := 4

/-- What one export is given: the render state, and which of the optional arrays
were pinned. -/
structure Input where
  colors : Colors
  grid : List Row
  pinned : Target → Bool

namespace Input

variable (inp : Input)

/-- `default_fg` and `default_bg`. -/
def defaults : ℤ × ℤ :=
  let bg := argb inp.colors.background
  let fg := argb inp.colors.foreground
  if fg = bg ∨ inp.colors.foreground = ⟨0, 0, 0⟩ then (wrap32 0xFFE0E0E0, wrap32 0xFF181818) else (fg, bg)

/-- A write to an array that may be missing. -/
def optional (target : Target) (index : ℕ) (value : ℤ) : List Effect :=
  if inp.pinned target then [.write target index value] else []

/-- The code point exported for a cell. -/
def codepoint (cell : Cell) : ℤ :=
  let cp := cell.graphemes.headD 0x20
  if cp ≤ 0xFFFF then cp else 0x3F

def flag (set : Bool) (bit : ℕ) : ℤ := if set then 2 ^ bit else 0

def styleFlags (cell : Cell) : ℤ :=
  (match cell.style with
    | some st => flag st.bold 0 + flag st.italic 1 + flag (st.underline ≠ 0) 2 + flag st.strikethrough 3 +
        flag st.faint 4 + flag st.inverse 5 + flag st.blink 6 + flag st.invisible 7
    | none => 0) +
  flag cell.selected 8 + flag (cell.raw.any Prod.fst) 9

def underlineColor (cell : Cell) : ℤ :=
  match cell.style.map Style.underlineColor with
  | some (.palette index) => argb (inp.colors.palette index)
  | some (.rgb c) => argb c
  | _ => 0

/-- The body of the loop over `row_cells`. -/
def cellEffects (idx : ℕ) (cell : Cell) : List Effect :=
  (if cell.graphemes.length > 0 then [Effect.graphemesBuf cell.graphemes.length] else []) ++
  [Effect.write .chars idx (codepoint cell),
   .write .fgColors idx ((cell.fg.map argb).getD inp.defaults.1),
   .write .bgColors idx ((cell.bg.map argb).getD inp.defaults.2)] ++
  inp.optional .cellSemantic idx ((cell.raw.map Prod.snd).getD 0) ++
  [Effect.write .styleFlags idx (styleFlags cell)] ++
  inp.optional .underlineStyles idx ((cell.style.map fun st => (st.underline : ℤ)).getD 0) ++
  inp.optional .underlineColors idx (inp.underlineColor cell)

/-- The body of the loops that fill the remainder of a row and of the screen. -/
def blankEffects (idx : ℕ) : List Effect :=
  [Effect.write .chars idx 0x20,
   .write .fgColors idx inp.defaults.1,
   .write .bgColors idx inp.defaults.2,
   .write .styleFlags idx 0] ++
  inp.optional .underlineStyles idx 0 ++
  inp.optional .underlineColors idx 0 ++
  inp.optional .cellSemantic idx 0

/-- `for (; c < cols; c++)`. -/
def blankFrom (r cols c : ℕ) : List Effect :=
  (List.range' c (cols - c)).flatMap fun c => inp.blankEffects (r * cols + c)

/-- The loop over the cells of row `r`, from column `c`. -/
def cellsFrom (r cols : ℕ) : ℕ → List Cell → List Effect
  | c, [] => inp.blankFrom r cols c
  | c, cell :: cells =>
    if c < cols then inp.cellEffects (r * cols + c) cell ++ cellsFrom r cols (c + 1) cells
    else inp.blankFrom r cols c

/-- `for (; r < rows; r++)`. -/
def blankRowsFrom (rows cols r : ℕ) : List Effect :=
  (List.range' r (rows - r)).flatMap fun r =>
    .write .dirtyRows r 0 :: inp.optional .rowSemanticPrompt r 0 ++ inp.blankFrom r cols 0

/-- The loop over the row iterator, from row `r`. -/
def rowsFrom (rows cols : ℕ) : ℕ → List Row → List Effect
  | r, [] => inp.blankRowsFrom rows cols r
  | r, row :: rest =>
    if r < rows then
      .write .dirtyRows r (if row.dirty then 1 else 0) :: inp.optional .rowSemanticPrompt r row.prompt ++
        inp.cellsFrom r cols 0 row.cells ++ rowsFrom rows cols (r + 1) rest
    else inp.blankRowsFrom rows cols r

/-- "Populate cell arrays". -/
def effects (rows cols : ℕ) : List Effect := inp.rowsFrom rows cols 0 inp.grid

end Input

/-- The lengths of a frame's arrays; the seven cell arrays are allocated together. -/
structure Frame where
  cols : ℤ
  rows : ℤ
  cells : ℕ
  dirtyRows : ℕ
  rowSemanticPrompt : ℕ
  deriving DecidableEq

def Frame.new : Frame := ⟨80, 24, 80 * 24, 24, 24⟩

def Frame.length (f : Frame) : Target → ℕ
  | .dirtyRows => f.dirtyRows
  | .rowSemanticPrompt => f.rowSemanticPrompt
  | _ => f.cells

/-- `if (array.length < wanted) array = new T[wanted]`. -/
def grow (length : ℕ) (wanted : ℤ) : ℕ := if (length : ℤ) < wanted then wanted.toNat else length

def ensureCapacity (f : Frame) (newCols newRows : ℤ) : Frame :=
  { cols := newCols
    rows := newRows
    cells := grow f.cells (wrap32 (newCols * newRows))
    dirtyRows := grow f.dirtyRows newRows
    rowSemanticPrompt := grow f.rowSemanticPrompt newRows }

/-- `static_cast<uint16_t>`. -/
def uint16 (n : ℤ) : ℕ := (n % 65536).toNat

structure Session where
  rows : ℤ
  cols : ℤ
  cellWidth : ℤ
  cellHeight : ℤ
  /-- the size of the Ghostty terminal, which the render state reports -/
  termRows : ℕ
  termCols : ℕ
  /-- frame 0 is the session's own `renderFrame` -/
  frame : ℕ → Frame
  /-- the frame `updateRenderFrame` has sized and not yet exported, under the monitor -/
  drawing : Option ℕ
  /-- writes outside an array so far -/
  faults : List (Target × ℕ)

def Session.new (rows cols cellWidth cellHeight : ℤ) : Session where
  rows := max 1 rows
  cols := max 1 cols
  cellWidth := max 1 cellWidth
  cellHeight := max 1 cellHeight
  termRows := uint16 (max 1 rows)
  termCols := uint16 (max 1 cols)
  frame i := if i = 0 then ensureCapacity Frame.new (max 1 cols) (max 1 rows) else Frame.new
  drawing := none
  faults := []

/-- `resize`; `ok` is the outcome of `ghostty_terminal_resize`. -/
def resize (s : Session) (newRows newCols newCellWidth newCellHeight : ℤ) (ok : Bool) : Session :=
  if newRows = s.rows ∧ newCols = s.cols ∧ newCellWidth = s.cellWidth ∧ newCellHeight = s.cellHeight then s
  else
    { s with
      rows := max 1 newRows
      cols := max 1 newCols
      cellWidth := max 1 newCellWidth
      cellHeight := max 1 newCellHeight
      frame := Function.update s.frame 0 (ensureCapacity (s.frame 0) (max 1 newCols) (max 1 newRows))
      termRows := if ok then uint16 (max 1 newRows) else s.termRows
      termCols := if ok then uint16 (max 1 newCols) else s.termCols }

/-- The writes of an export that miss their array. -/
def outside (f : Frame) (effects : List Effect) : List (Target × ℕ) :=
  effects.filterMap fun e => match e with
    | .write target index _ => if index < f.length target then none else some (target, index)
    | .graphemesBuf _ => none

inductive Outcome
  /-- synchronized output, a closed session or a failed update: returns false -/
  | suspended
  /-- an array could not be pinned -/
  | notPinned
  | exported (input : Input)

inductive Action
  | resize (rows cols cellWidth cellHeight : ℤ) (ok : Bool)
  /-- terminal output; DECCOLM and the like set the terminal's own column count -/
  | output (cols : Option UInt16)
  /-- `updateRenderFrame` up to the native call -/
  | beginFrame (i : ℕ)
  /-- the native call -/
  | exportFrame (outcome : Outcome)
  /-- another session draws into the same frame -/
  | otherSession (i : ℕ) (cols rows : ℤ)

def step (s : Session) : Action → Option Session
  | .resize rows cols cellWidth cellHeight ok =>
    if s.drawing = none then some (resize s rows cols cellWidth cellHeight ok) else none
  | .output cols => some { s with termCols := (cols.map UInt16.toNat).getD s.termCols }
  | .beginFrame i =>
    if s.drawing = none then
      some { s with
        frame := Function.update s.frame i (ensureCapacity (s.frame i) s.cols s.rows)
        drawing := some i }
    else none
  | .exportFrame outcome =>
    match s.drawing, outcome with
    | none, _ => none
    | some _, .suspended => some { s with drawing := none }
    | some i, .notPinned => some { s with
        frame := Function.update s.frame i { s.frame i with cols := s.termCols, rows := s.termRows }
        drawing := none }
    | some i, .exported inp => some { s with
        frame := Function.update s.frame i { s.frame i with cols := s.termCols, rows := s.termRows }
        drawing := none
        faults := s.faults ++ outside (s.frame i) (inp.effects s.termRows s.termCols) }
  | .otherSession i cols rows =>
    if s.drawing = some i then none
    else some { s with frame := Function.update s.frame i (ensureCapacity (s.frame i) cols rows) }

end Tinyhack.Render
