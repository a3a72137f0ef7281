import TinyhackSsh.Lib.Batches
import TinyhackSsh.Spec.Wire

/-! How `TerminalView.onDraw` draws the cells of a frame: the backgrounds of a row cell
by cell, then its text in runs of cells that look the same. Coordinates are cells:
column `c` of row `r` stands at `c * cellWidth`, `r * cellHeight`. -/

namespace Tinyhack.TextRuns

open Batches

/-- A Java array. -/
structure JArray (α : Type) where
  values : List α
  length_lt : values.length < 2 ^ 31

namespace JArray

variable {α : Type}

def length (a : JArray α) : ℕ := a.values.length

/-- `a[i]`, unless it throws. -/
def get (a : JArray α) (i : ℤ) : Option α := if 0 ≤ i then a.values[i.toNat]? else none

end JArray

/-- The fields of a `RenderFrame` that the loops over its cells read; arrays may be null. -/
structure Frame where
  cols : ℤ
  rows : ℤ
  defaultBgColor : BitVec 32
  chars : Option (JArray (BitVec 16))
  fgColors : Option (JArray (BitVec 32))
  bgColors : Option (JArray (BitVec 32))
  styleFlags : Option (JArray (BitVec 32))
  underlineStyles : Option (JArray (BitVec 32))
  underlineColors : Option (JArray (BitVec 32))

/-- The same, past the check for null. -/
structure Grid where
  cols : ℤ
  rows : ℤ
  defaultBgColor : BitVec 32
  chars : JArray (BitVec 16)
  fgColors : JArray (BitVec 32)
  bgColors : JArray (BitVec 32)
  styleFlags : JArray (BitVec 32)
  underlineStyles : Option (JArray (BitVec 32))
  underlineColors : Option (JArray (BitVec 32))

/-- `(flags & (1 << bit)) != 0`. -/
def flag (flags : BitVec 32) (bit : ℕ) : Bool := decide (flags &&& (1 <<< bit) ≠ 0)

def BOLD : ℕ := 0
def ITALIC : ℕ := 1
def STRIKE : ℕ := 3
def DIM : ℕ := 4
def INVERSE : ℕ := 5
def INVISIBLE : ℕ := 7
def SELECTED : ℕ := 8
/-- the bit of `STYLE_HYPERLINK` -/
def HYPERLINK : ℕ := 9

/-- What the loops compare: the colour of the text, with inverse applied, the flags, and
the underline, with a hyperlink's applied. -/
structure Attrs where
  fg : BitVec 32
  flags : BitVec 32
  ulStyle : BitVec 32
  ulColor : BitVec 32
  deriving DecidableEq

/-- A hyperlink forces a single underline. -/
def linkUnderline (flags ulStyle : BitVec 32) : BitVec 32 := if flag flags HYPERLINK && ulStyle = 0 then 1 else ulStyle

inductive Typeface
  | regular
  | bold
  | italic
  | boldItalic
  deriving DecidableEq

/-- What is set on `textPaint`. -/
structure TextPaint where
  typeface : Typeface
  color : BitVec 32
  underlineText : Bool
  strikeThruText : Bool
  deriving DecidableEq

/-- The width of a cell and of text. -/
structure Metrics where
  cellWidth : Float32
  measureText : TextPaint → List (BitVec 16) → Float32

/-- What is called on the canvas. -/
inductive Call
  | background (row col : ℕ) (color : BitVec 32)
  | selection (row col : ℕ)
  /-- `drawText`, stretched by `scale` if there is one -/
  | text (row col : ℕ) (chars : List (BitVec 16)) (scale : Option Float32) (paint : TextPaint)
  /-- `drawStyledUnderline` from column `first` to column `last` -/
  | underline (row first last : ℕ) (style color : BitVec 32)

namespace Grid

variable (g : Grid)

/-- `r * cols + c`. -/
def index (r c : ℕ) : ℤ := wrap32 (r * g.cols + c)

/-- `array != null && idx < array.length ? array[idx] : 0`, for an index that is not negative. -/
def orZero (array : Option (JArray (BitVec 32))) (idx : ℤ) : BitVec 32 := (array.bind fun a => a.get idx).getD 0

/-- What is read of a cell, at the start of a run and for each cell after it. -/
def attrs (idx : ℤ) : Option Attrs :=
  (g.fgColors.get idx).bind fun fg => (g.styleFlags.get idx).bind fun flags =>
    (if flag flags INVERSE then g.bgColors.get idx else some fg).map fun fg =>
      ⟨fg, flags, linkUnderline flags (orZero g.underlineStyles idx), orZero g.underlineColors idx⟩

/-- Column `c` of the row, `some none` behind the end of `chars`. -/
def read (r c : ℕ) : Option (Option Attrs) :=
  if g.chars.length ≤ g.index r c then some none else (g.attrs (g.index r c)).map some

/-- The runs of a row: `runStart`, `runEnd` and what all their cells have in common. -/
def textRuns (r : ℕ) : Option (List (Batch Attrs)) := batches (g.read r) g.cols.toNat 0

/-- `(a << 24) | (color & 0x00FFFFFF)` with half of the alpha. -/
def dimmed (color : BitVec 32) : BitVec 32 := (((color >>> 24) / 2) <<< 24) ||| (color &&& 0x00FFFFFF)

def typeface (bold italic : Bool) : Typeface :=
  if bold && italic then .boldItalic else if bold then .bold else if italic then .italic else .regular

/-- "Apply styles to paint" and the drawing of a run. -/
def drawRun (m : Metrics) (r : ℕ) (paint : TextPaint) (run : Batch Attrs) : TextPaint × List Call :=
  let flags := run.key.flags
  let effectiveUlStyle := linkUnderline flags run.key.ulStyle
  if flag flags INVISIBLE then (paint, [])
  else
    let color := if flag flags DIM then dimmed run.key.fg else run.key.fg
    let paint := { paint with
      typeface := typeface (flag flags BOLD) (flag flags ITALIC)
      color := color
      underlineText := false
      strikeThruText := flag flags STRIKE }
    let text := (g.chars.values.drop (g.index r run.start).toNat).take run.length
    let expectedWidth := Float32.ofNat run.length * m.cellWidth
    let actualWidth := m.measureText paint text
    let scale := if (actualWidth - expectedWidth).abs > 0.5 && actualWidth > 0 then some (expectedWidth / actualWidth)
      else none
    (paint, .text r run.start text scale paint ::
      if effectiveUlStyle ≠ 0 then
        [.underline r run.start run.stop effectiveUlStyle (if run.key.ulColor ≠ 0 then run.key.ulColor else color)]
      else [])

def drawRuns (m : Metrics) (r : ℕ) : TextPaint → List (Batch Attrs) → TextPaint × List Call
  | paint, [] => (paint, [])
  | paint, run :: runs =>
    let first := g.drawRun m r paint run
    let rest := drawRuns m r first.1 runs
    (rest.1, first.2 ++ rest.2)

/-- The first pass, from column `c` with `n` columns left. -/
def drawBackgrounds (r : ℕ) : (n c : ℕ) → Option (List Call)
  | 0, _ => some []
  | n + 1, c =>
    let idx := g.index r c
    if g.bgColors.length ≤ idx then some []
    else
      (g.bgColors.get idx).bind fun bg => (g.styleFlags.get idx).bind fun flags =>
        (if flag flags INVERSE then g.fgColors.get idx else some bg).bind fun bg =>
          (drawBackgrounds r n (c + 1)).map fun rest =>
            (if bg ≠ g.defaultBgColor then [.background r c bg] else []) ++
              (if flag flags SELECTED then [.selection r c] else []) ++ rest

def drawRow (m : Metrics) (paint : TextPaint) (r : ℕ) : Option (TextPaint × List Call) :=
  (g.drawBackgrounds r g.cols.toNat 0).bind fun backgrounds => (g.textRuns r).map fun runs =>
    ((g.drawRuns m r paint runs).1, backgrounds ++ (g.drawRuns m r paint runs).2)

def drawRows (m : Metrics) : TextPaint → List ℕ → Option (TextPaint × List Call)
  | paint, [] => some (paint, [])
  | paint, r :: rows => (g.drawRow m paint r).bind fun first =>
    (drawRows m first.1 rows).map fun rest => (rest.1, first.2 ++ rest.2)

end Grid

namespace Frame

def grid (f : Frame) : Option Grid :=
  f.chars.bind fun chars => f.fgColors.bind fun fgColors => f.bgColors.bind fun bgColors =>
    f.styleFlags.map fun styleFlags =>
      ⟨f.cols, f.rows, f.defaultBgColor, chars, fgColors, bgColors, styleFlags, f.underlineStyles, f.underlineColors⟩

/-- The loops over the cells in `onDraw`. -/
def drawCells (f : Frame) (m : Metrics) (paint : TextPaint) : Option (TextPaint × List Call) :=
  if f.cols ≤ 0 ∨ f.rows ≤ 0 then some (paint, [])
  else f.grid.elim (some (paint, [])) fun g => g.drawRows m paint (List.range f.rows.toNat)

end Frame

end Tinyhack.TextRuns
