import TinyhackSsh.Spec.SelectionPin

/-! Dragging a selection handle in `TerminalView`, and the native calls it makes. The
selection is kept by the terminal at absolute positions of the scrollback; the view reads
and writes it in viewport coordinates. Pixels are exact here. -/

namespace Tinyhack.Selection

/-- A cell, by its column and its row from the top of the scrollback. -/
structure Point where
  x : UInt16
  y : ℕ
  deriving DecidableEq

/-- `p` is `q` or stands before it in the text. -/
def Point.le (p q : Point) : Bool := p.y < q.y || (p.y = q.y && p.x.toNat ≤ q.x.toNat)

/-- The two endpoints of `GhosttySelection`, in either order. -/
structure Range where
  start : Point
  stop : Point
  deriving DecidableEq

/-- `ghostty_terminal_selection_ordered` with `GHOSTTY_SELECTION_ORDER_FORWARD`. -/
def Range.ordered (r : Range) : Range := if r.start.le r.stop then r else ⟨r.stop, r.start⟩

inductive Handle
  | start
  | stop
  deriving DecidableEq

/-- The size of the view and its cells, and what the last frame says. -/
structure Metrics where
  cellWidth : Rat
  cellHeight : Rat
  width : ℕ
  height : ℕ
  frameCols : ℕ
  frameRows : ℕ
  altScreenActive : Bool
  deriving DecidableEq

structure Drag where
  view : View
  /-- columns of the terminal -/
  cols : ℕ
  /-- the selection of the terminal, while it has one -/
  selection : Range
  metrics : Metrics
  /-- `selStartHandleX`, `selStartHandleY`, `selEndHandleX` and `selEndHandleY` -/
  startHandle : Rat × Rat
  stopHandle : Rat × Rat
  draggingHandle : Option Handle
  handleGrabOffset : Rat × Rat
  handleDrag : Rat × Rat
  lastHandleAutoScrollMs : ℕ
  deriving DecidableEq

/-! ### The native side -/

/-- `nativeScroll` with type DELTA. -/
def Terminal.scrollDelta (t : Terminal) (delta : ℤ) : Terminal := t.scrollToRow (t.top + delta)

/-- A row in the viewport, the nearest one for a row outside. -/
def Terminal.viewportRow (t : Terminal) (y : ℕ) : ℕ :=
  if y < t.top then 0 else if y < t.top + t.len then y - t.top else t.len - 1

def Terminal.isVisible (t : Terminal) (y : ℕ) : Bool := t.top ≤ y && y < t.top + t.len

/-- The array of `nativeGetSelectionViewport`. -/
structure Bounds where
  startCol : ℕ
  startRow : ℕ
  endCol : ℕ
  endRow : ℕ
  startVisible : Bool
  endVisible : Bool
  deriving DecidableEq

def Drag.getSelectionViewport (d : Drag) : Option Bounds :=
  let t := d.view.terminal
  let sel := d.selection.ordered
  if t.hasSelection then
    some ⟨sel.start.x.toNat, t.viewportRow sel.start.y, sel.stop.x.toNat, t.viewportRow sel.stop.y,
      t.isVisible sel.start.y, t.isVisible sel.stop.y⟩
  else none

/-- The first row that a point's tag counts from. -/
inductive Tag
  | viewport
  | active
  deriving DecidableEq

def Terminal.origin (t : Terminal) : Tag → ℕ
  | .viewport => t.top
  | .active => t.total - t.len

/-- `ghostty_terminal_grid_ref`. -/
def Drag.gridRef (d : Drag) (tag : Tag) (col row : ℕ) : Option Point :=
  let x := UInt16.ofNat col
  let y := d.view.terminal.origin tag + row
  if x.toNat < d.cols ∧ y < d.view.terminal.total then some ⟨x, y⟩ else none

def Drag.gridRefs (d : Drag) (tag : Tag) (startCol startRow endCol endRow : ℕ) : Option Range :=
  (d.gridRef tag startCol startRow).bind fun s => (d.gridRef tag endCol endRow).map fun e => ⟨s, e⟩

/-- `nativeSetSelection`; the active tag is tried if the viewport has no such cells. -/
def Drag.setSelection (d : Drag) (startCol startRow endCol endRow : ℕ) : Drag :=
  match (d.gridRefs .viewport startCol startRow endCol endRow).or
      (d.gridRefs .active startCol startRow endCol endRow) with
  | some sel =>
    { d with selection := sel, view := { d.view with terminal := { d.view.terminal with hasSelection := true } } }
  | none => d

/-! ### The view -/

def handleAutoScrollIntervalMs : ℕ := 50

def handleAutoScrollStepRows : ℤ := 3

/-- The cell that a pixel is in, as an index from 0. -/
def cellIndex (pixel size : Rat) : ℕ := (pixel / size).floor.toNat

/-- `clampCol` and `clampRow`; `frame` is the count of the last frame, 0 before the first one. -/
def clampCell (frame extent : ℕ) (size pixel : Rat) : ℕ :=
  let count := if 0 < frame then frame else cellIndex extent size
  let c := cellIndex pixel size
  if 0 < count ∧ count ≤ c then count - 1 else c

def Metrics.clampCol (m : Metrics) (x : Rat) : ℕ := clampCell m.frameCols m.width m.cellWidth x

def Metrics.clampRow (m : Metrics) (y : Rat) : ℕ := clampCell m.frameRows m.height m.cellHeight y

def Drag.stopHandleDrag (d : Drag) : Drag := { d with draggingHandle := none }

/-- `setSelectionActive(false)`. -/
def Drag.deactivate (d : Drag) : Drag :=
  { d.stopHandleDrag with view := { d.view with selectionActive := false } }

def Drag.startHandleDrag (d : Drag) (handle : Handle) (x y : Rat) : Drag :=
  let c := match handle with
    | .start => d.startHandle
    | .stop => d.stopHandle
  { d with
    draggingHandle := some handle
    handleGrabOffset := (x - c.1, y - c.2)
    handleDrag := (x, y)
    lastHandleAutoScrollMs := 0 }

/-- The center of the dragged handle. -/
def Drag.center (d : Drag) : Rat × Rat :=
  (d.handleDrag.1 - d.handleGrabOffset.1, d.handleDrag.2 - d.handleGrabOffset.2)

/-- The scroll at the upper and the lower edge, on the primary screen. -/
def Drag.autoScroll (d : Drag) (now : ℕ) : Drag :=
  let cy := d.center.2
  let topEdge := d.metrics.cellHeight * (3 / 2)
  let bottomEdge := d.metrics.height - d.metrics.cellHeight * (3 / 2)
  if !d.metrics.altScreenActive ∧ (cy < topEdge ∨ bottomEdge < cy) ∧
      d.lastHandleAutoScrollMs + handleAutoScrollIntervalMs ≤ now then
    let delta := if cy < topEdge then -handleAutoScrollStepRows else handleAutoScrollStepRows
    { d with
      lastHandleAutoScrollMs := now
      view := { d.view with terminal := d.view.terminal.scrollDelta delta } }
  else d

/-- The cell the dragged endpoint goes to. -/
def Drag.target (d : Drag) (handle : Handle) : ℕ × ℕ :=
  let nudge := d.metrics.cellWidth / 2
  let x := match handle with
    | .start => d.center.1 + nudge
    | .stop => d.center.1 - nudge
  (d.metrics.clampCol x, d.metrics.clampRow (d.center.2 - d.metrics.cellHeight / 2))

def Drag.applyHandleDrag (d : Drag) (now : ℕ) : Drag :=
  match d.draggingHandle with
  | none => d
  | some handle =>
    let d := d.autoScroll now
    let (col, row) := d.target handle
    match d.getSelectionViewport with
    | none => d.deactivate
    | some sel =>
      match handle with
      | .start => d.setSelection col row sel.endCol sel.endRow
      | .stop => d.setSelection sel.startCol sel.startRow col row

/-- The handles after a frame, and the end of the drag if the selection is gone. -/
def Drag.refresh (d : Drag) : Drag :=
  match d.getSelectionViewport with
  | none => d.deactivate
  | some sel =>
    { d with
      startHandle := (sel.startCol * d.metrics.cellWidth, (sel.startRow + 1) * d.metrics.cellHeight)
      stopHandle := ((sel.endCol + 1) * d.metrics.cellWidth, (sel.endRow + 1) * d.metrics.cellHeight) }

/-- The rest of `updateSelectionState`, and nothing after the other actions of the view. -/
def Drag.afterView (d : Drag) (a : Action) (v : View) : Drag :=
  match a with
  | .updateSelectionState =>
    if v.selectionActive then ({ d with view := v } : Drag).refresh else ({ d with view := v } : Drag).deactivate
  | .output _ _ _ | .updateRenderFrame _ => { d with view := v }

inductive DragAction
  | move (x y : Rat) (now : ℕ)
  | up (x y : Rat) (now : ℕ)
  | cancel
  /-- `handleAutoScrollRunnable` -/
  | autoScroll (now : ℕ)
  /-- another size of the view or of the frame -/
  | layout (metrics : Metrics)
  /-- output from the reader thread, and the parts of a frame -/
  | view (a : Action)
  deriving DecidableEq

/-- While a handle is dragged. Touch events and runnables do not come in the middle of a frame. -/
def dragStep (d : Drag) (a : DragAction) : Option Drag :=
  if d.draggingHandle.isNone then none
  else match a with
    | .view a => (step d.view a).map (d.afterView a)
    | .move x y now => if d.view.drawing then none else some ({ d with handleDrag := (x, y) }.applyHandleDrag now)
    | .up x y now =>
      if d.view.drawing then none else some ({ d with handleDrag := (x, y) }.applyHandleDrag now).stopHandleDrag
    | .cancel => if d.view.drawing then none else some d.stopHandleDrag
    | .autoScroll now => if d.view.drawing then none else some (d.applyHandleDrag now)
    | .layout metrics => some { d with metrics := metrics }

end Tinyhack.Selection
