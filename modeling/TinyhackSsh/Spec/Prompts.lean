import TinyhackSsh.Spec.Wire
import Mathlib.Data.List.DropRight

/-! Shell prompts on the screen, as `OSC 133` marks them: scrolling from prompt to prompt,
and the text of the last command. Calls of the Ghostty library succeed. -/

namespace Tinyhack.Prompts

/-! The screen. -/

inductive CellSemantic
  | OUTPUT
  | INPUT
  | PROMPT
  deriving DecidableEq

inductive RowSemantic
  | NONE
  | PROMPT
  | PROMPT_CONTINUATION
  deriving DecidableEq

/-- A cell with its grapheme cluster. A cluster of several code points is not made of
spaces only, and control characters are not kept in cells. -/
structure Cell where
  semantic : CellSemantic
  /-- the second column of a wide character, or the column left over before one that wraps -/
  isSpacer : Bool
  graphemes : List Char
  blank_of_spacer : isSpacer = true → graphemes = []
  visible_of_cluster : 1 < graphemes.length → ∃ c ∈ graphemes, c ≠ ' '
  noControl : ∀ c ∈ graphemes, ' ' ≤ c
  deriving DecidableEq

def Cell.isVisible (cell : Cell) : Bool := cell.graphemes.any (· ≠ ' ')

/-- Each spacer follows its wide character, or is the last cell. -/
def spacersPlaced : Option Cell → List Cell → Bool
  | _, [] => true
  | before, cell :: cells =>
    (!cell.isSpacer || cells.isEmpty || before.any fun wide => wide.isVisible && wide.semantic = cell.semantic) &&
      spacersPlaced (some cell) cells

structure Row where
  semantic : RowSemantic
  /-- the row continues the one before, which has wrapped -/
  wrapContinuation : Bool
  cells : List Cell
  spacers : spacersPlaced none cells = true
  deriving DecidableEq

structure Screen where
  isAlternate : Bool
  /-- the scrollback and the active area -/
  rows : List Row
  deriving DecidableEq

def collectPromptRows (screen : Screen) : List ℕ :=
  if screen.isAlternate then []
  else (List.range screen.rows.length).filter fun y => screen.rows[y]?.any fun row => row.semantic = .PROMPT

/-! `nativeScrollToPreviousPrompt` and `nativeScrollToNextPrompt`. -/

/-- The prompts and the scrollbar. -/
structure Viewport where
  prompts : List ℕ
  /-- the row at the top of the view -/
  top : ℕ
  len : ℕ
  total : ℕ
  sorted : prompts.Pairwise (· < ·)
  prompts_lt : ∀ p ∈ prompts, p < total
  top_le : top + len ≤ total

theorem collectPromptRows_sorted (screen : Screen) : (collectPromptRows screen).Pairwise (· < ·) := by
  unfold collectPromptRows
  split_ifs
  · exact List.Pairwise.nil
  · exact List.pairwise_lt_range.filter _

theorem collectPromptRows_lt (screen : Screen) : ∀ p ∈ collectPromptRows screen, p < screen.rows.length := by
  unfold collectPromptRows
  split_ifs
  · exact fun p hp => absurd hp List.not_mem_nil
  · exact fun p hp => List.mem_range.mp (List.mem_filter.mp hp).1

/-- A view of the screen that shows `len` rows from `top` on. -/
def Screen.viewport (screen : Screen) (top len : ℕ) (h : top + len ≤ screen.rows.length) : Viewport where
  prompts := collectPromptRows screen
  top := top
  len := len
  total := screen.rows.length
  sorted := collectPromptRows_sorted screen
  prompts_lt := collectPromptRows_lt screen
  top_le := h

/-- The first row of the active area. -/
def Viewport.bottom (v : Viewport) : ℕ := v.total - v.len

/-- `GHOSTTY_SCROLL_VIEWPORT_ROW`. -/
def Viewport.scrollToRow (v : Viewport) (row : ℕ) : Viewport :=
  { v with
    top := min row v.bottom
    top_le := by
      have hle := v.top_le
      unfold Viewport.bottom
      omega }

def previousTarget (v : Viewport) : Option ℕ :=
  (v.prompts.reverse.find? (· < v.top)).or
    (if 2 ≤ v.prompts.length then v.prompts[v.prompts.length - 2]?
    else if 0 < v.top then v.prompts[0]?
    else none)

def nextTarget (v : Viewport) : Option ℕ := v.prompts.find? (v.top < ·)

def scrollTo (v : Viewport) (target : Option ℕ) : Viewport × Bool :=
  match target with
  | some row => (v.scrollToRow row, true)
  | none => (v, false)

def nativeScrollToPreviousPrompt (v : Viewport) : Viewport × Bool := scrollTo v (previousTarget v)

def nativeScrollToNextPrompt (v : Viewport) : Viewport × Bool := scrollTo v (nextTarget v)

/-! `nativeGetLastCommandOutput`. -/

/-- The code point in UTF-8, if it has at most three bytes. -/
def encodeFirst (c : Char) : Bytes :=
  let cp := c.toNat
  if cp < 0x80 then [UInt8.ofNat cp]
  else if cp < 0x800 then [UInt8.ofNat (0xC0 + cp / 64), UInt8.ofNat (0x80 + cp % 64)]
  else if cp < 0x10000 then
    [UInt8.ofNat (0xE0 + cp / 4096), UInt8.ofNat (0x80 + cp / 64 % 64), UInt8.ofNat (0x80 + cp % 64)]
  else [0x3f]

/-- The buffer has room for four code points. -/
def cellBytes (cell : Cell) : Bytes :=
  match cell.graphemes with
  | [] => [0x20]
  | c :: extra =>
    if extra.length < 4 then
      encodeFirst c ++ (extra.filter fun c2 => c2.toNat < 0x80).map fun c2 => UInt8.ofNat c2.toNat
    else [0x20]

def Row.outputCells (row : Row) : List Cell := row.cells.filter fun cell => cell.semantic = .OUTPUT

def rowLine (row : Row) : Bytes := (row.outputCells.flatMap cellBytes).rdropWhile (· = 0x20)

def appendRow (result : Bytes) (row : Row) : Bytes :=
  if row.semantic ≠ .NONE then result
  else if rowLine row = [] then result
  else result ++ (if result ≠ [] ∧ row.wrapContinuation = false then [0x0a] else []) ++ rowLine row

/-- The rows after the block of the second to last prompt and before the last one. -/
def outputRows (screen : Screen) : List Row :=
  match (collectPromptRows screen).reverse with
  | endPrompt :: startPrompt :: _ =>
    let before := screen.rows.take endPrompt
    let block := (before.drop (startPrompt + 1)).takeWhile fun row => row.semantic = .PROMPT_CONTINUATION
    before.drop (startPrompt + block.length + 1)
  | _ => []

/-- The bytes for `NewStringUTF`. If nothing is collected, they are the selection of the
rows as `ghostty_terminal_selection_format_alloc` formats it. -/
def nativeGetLastCommandOutput (format : List Row → Bytes) (screen : Screen) : Bytes :=
  let rows := outputRows screen
  let result := rows.foldl appendRow []
  if result = [] ∧ rows ≠ [] then format rows else result

end Tinyhack.Prompts
