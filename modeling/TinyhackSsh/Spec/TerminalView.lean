import TinyhackSsh.Spec.Sessions
import TinyhackSsh.Spec.Render
import TinyhackSsh.Spec.KittyCache

/-! `TerminalView.attachSession` and `onDraw`. One `RenderFrame` belongs to the view and
serves every session that is attached to it. What the frame holds is kept together
with the session it was exported from. -/

namespace Tinyhack.Views

open Sessions (SessionRef)
open Render (Target)

/-- The fields of a frame that are set before the cell arrays and that `onDraw` reads. -/
structure Header where
  cursorX : ℕ
  cursorY : ℕ
  cursorStyle : ℕ
  cursorVisible : Bool
  cursorBlinking : Bool
  defaultBgColor : ℤ
  cursorColor : ℤ
  altScreenActive : Bool
  kittyKeyboardFlags : ℕ
  deriving DecidableEq

def Header.new : Header := ⟨0, 0, 1, true, false, wrap32 0xFF181818, wrap32 0xFFFFFFFF, false, 0⟩

structure RenderFrame where
  size : Render.Frame
  header : Header
  headerOf : Option SessionRef
  /-- `none` is the 0 of a new array -/
  cell : Target → ℕ → Option (SessionRef × ℤ)
  placements : List Kitty.Placed
  placementsOf : Option SessionRef
  /-- the last export that filled the cell arrays, and of how many cells; only recorded -/
  exportOf : Option (SessionRef × ℕ)

namespace RenderFrame

def new : RenderFrame := ⟨.new, .new, none, fun _ _ => none, [], none, none⟩

/-- The arrays that are too short are replaced by new ones. -/
def ensureCapacity (f : RenderFrame) (newCols newRows : ℤ) : RenderFrame :=
  let size := Render.ensureCapacity f.size newCols newRows
  { f with
    size := size
    cell := fun t => if size.length t = f.size.length t then f.cell t else fun _ => none
    exportOf := if size.cells = f.size.cells then f.exportOf else none }

/-- A write through the pinned pointer; what falls outside an array does not reach the frame. -/
def apply (f : RenderFrame) (s : SessionRef) : Render.Effect → RenderFrame
  | .write target index value =>
    if index < f.size.length target then
      { f with cell := Function.update f.cell target (Function.update (f.cell target) index (some (s, value))) }
    else f
  | .graphemesBuf _ => f

end RenderFrame

/-- What the native session's terminal and render state answer. -/
structure Terminal where
  /-- DEC mode 2026 -/
  syncOutput : Bool
  cols : ℕ
  rows : ℕ
  /-- the cursor's place in the viewport -/
  cursor : Option (ℕ × ℕ)
  cursorStyle : ℕ
  cursorVisible : Bool
  cursorBlinking : Bool
  cursorColor : Option Render.Rgb
  colors : Render.Colors
  altScreenActive : Bool
  kittyKeyboardFlags : ℕ
  grid : List Render.Row
  /-- there is a Kitty graphics store and its placements can be iterated -/
  graphics : Bool
  images : ℕ → Option Kitty.Image
  placements : List Kitty.Placement
  lastPtyActivityMs : ℕ

structure Session where
  isClosed : Bool
  rows : ℤ
  cols : ℤ
  cellWidth : ℤ
  cellHeight : ℤ
  terminal : Terminal
  native : Kitty.Native

/-- What a call of `nativeUpdateRender` finds. -/
structure Export where
  monotonicMillis : ℕ
  /-- `ghostty_render_state_update` succeeds -/
  updates : Bool
  /-- the arrays that `GetPrimitiveArrayCritical` could pin -/
  pinned : Target → Bool

namespace Session

/-- As `TerminalService` constructs it. -/
def new (terminal : Terminal) : Session := ⟨false, 24, 80, 10, 20, terminal, .init⟩

def input (s : Session) (x : Export) : Render.Input := ⟨s.terminal.colors, s.terminal.grid, x.pinned⟩

def header (s : Session) (x : Export) : Header where
  cursorX := (s.terminal.cursor.map Prod.fst).getD 0
  cursorY := (s.terminal.cursor.map Prod.snd).getD 0
  cursorStyle := s.terminal.cursorStyle
  cursorVisible := s.terminal.cursorVisible
  cursorBlinking := s.terminal.cursorBlinking
  defaultBgColor := (s.input x).defaults.2
  cursorColor := (s.terminal.cursorColor.map Render.argb).getD (s.input x).defaults.1
  altScreenActive := s.terminal.altScreenActive
  kittyKeyboardFlags := s.terminal.kittyKeyboardFlags

/-- What `update_kitty_graphics` reads; a frame has room for 16 placements. -/
def call (s : Session) (x : Export) (f : RenderFrame) : Kitty.Call where
  graphics := s.terminal.graphics
  capacity := 16
  cellWidth := s.cellWidth
  cellHeight := s.cellHeight
  images := s.terminal.images
  placements := s.terminal.placements
  previousCount := f.placements.length
  receiving := x.monotonicMillis - s.terminal.lastPtyActivityMs < 1500

/-- The arrays without which no cell is exported. -/
def pinsCells (x : Export) : Bool :=
  x.pinned .chars && x.pinned .fgColors && x.pinned .bgColors && x.pinned .styleFlags && x.pinned .dirtyRows

/-- All arrays that are painted from are filled. -/
def pinsAll (x : Export) : Bool := pinsCells x && x.pinned .underlineStyles && x.pinned .underlineColors

/-- "Update fields in jFrame". -/
def exportHeader (s : Session) (ref : SessionRef) (x : Export) (f : RenderFrame) : RenderFrame :=
  { f with
    size := { f.size with cols := s.terminal.cols, rows := s.terminal.rows }
    header := s.header x
    headerOf := some ref
    exportOf := if pinsAll x then some (ref, min (s.terminal.rows * s.terminal.cols) f.size.cells) else none }

/-- "Populate cell arrays". -/
def exportCells (s : Session) (ref : SessionRef) (x : Export) (f : RenderFrame) : RenderFrame :=
  if pinsCells x then
    ((s.input x).effects s.terminal.rows s.terminal.cols).foldl (fun f e => f.apply ref e) f
  else f

/-- `update_kitty_graphics` into the frame. -/
def exportPlacements (s : Session) (ref : SessionRef) (x : Export) (f : RenderFrame) : Session × RenderFrame :=
  match Kitty.updateKittyGraphics s.native (s.call x f) with
  | (native, none) => ({ s with native := native }, f)
  | (native, some placed) =>
    ({ s with native := native }, { f with placements := placed, placementsOf := some ref })

/-- `nativeUpdateRender` into the frame, for the session with this identity. -/
def nativeUpdateRender (s : Session) (ref : SessionRef) (x : Export) (f : RenderFrame) : Session × RenderFrame :=
  if s.isClosed || s.terminal.syncOutput || !x.updates then (s, f)
  else s.exportPlacements ref x (s.exportCells ref x (s.exportHeader ref x f))

def updateRenderFrame (s : Session) (ref : SessionRef) (x : Export) (f : RenderFrame) : Session × RenderFrame :=
  if s.isClosed then (s, f) else s.nativeUpdateRender ref x (f.ensureCapacity s.cols s.rows)

/-- What `nativeUpdateRender` returns. -/
def nativeUpdateRenderResult (s : Session) (x : Export) : Bool :=
  if s.isClosed || s.terminal.syncOutput || !x.updates then false else true

/-- What `updateRenderFrame` returns. -/
def updateRenderFrameResult (s : Session) (x : Export) : Bool :=
  if s.isClosed then false else s.nativeUpdateRenderResult x

/-- `resize`; `ok` is the outcome of `ghostty_terminal_resize`. -/
def resize (s : Session) (newRows newCols newCellWidth newCellHeight : ℤ) (ok : Bool) : Session :=
  if s.isClosed then s
  else if newRows = s.rows ∧ newCols = s.cols ∧ newCellWidth = s.cellWidth ∧ newCellHeight = s.cellHeight then s
  else
    { s with
      rows := max 1 newRows
      cols := max 1 newCols
      cellWidth := max 1 newCellWidth
      cellHeight := max 1 newCellHeight
      terminal := if ok then
        { s.terminal with rows := Render.uint16 (max 1 newRows), cols := Render.uint16 (max 1 newCols) }
        else s.terminal }

end Session

structure TerminalView where
  session : Option SessionRef
  renderFrame : RenderFrame
  lastAltScreenActive : Bool
  cursorBlinkState : Bool

def TerminalView.new : TerminalView := ⟨none, .new, false, true⟩

/-- `attachSession`: of the fields here it sets the session only. -/
def TerminalView.attachSession (v : TerminalView) (newSession : Option SessionRef) : TerminalView :=
  { v with session := newSession }

/-- Something that is drawn on the canvas. -/
inductive Item
  | background (color : ℤ)
  | cell (target : Target) (index : ℕ) (value : ℤ)
  | placement (placed : Kitty.Placed)
  | cursor (x y style : ℕ) (color : ℤ)
  deriving DecidableEq

/-- With the session whose export it shows. -/
structure Painted where
  item : Item
  origin : Option SessionRef
  deriving DecidableEq

/-- The arrays that the two passes over a row read. -/
def paintedTargets : List Target :=
  [.bgColors, .styleFlags, .fgColors, .chars, .underlineStyles, .underlineColors]

namespace RenderFrame

def paintCell (f : RenderFrame) (target : Target) (index : ℕ) : Painted :=
  ⟨.cell target index (((f.cell target index).map Prod.snd).getD 0), (f.cell target index).map Prod.fst⟩

/-- The cells of a row, up to the end of the arrays. -/
def paintRow (f : RenderFrame) (r : ℕ) : List Painted :=
  (((List.range f.size.cols.toNat).map fun c => r * f.size.cols.toNat + c).takeWhile (· < f.size.cells)).flatMap
    fun index => paintedTargets.map fun target => f.paintCell target index

/-- `drawKittyPlacements` -/
def drawKittyPlacements (f : RenderFrame) (negativeZ : Bool) : List Painted :=
  ((f.placements.take 16).filter fun p => decide (p.z < 0) = negativeZ ∧
    0 < p.srcWidth ∧ 0 < p.srcHeight ∧ 0 < p.dstWidth ∧ 0 < p.dstHeight).map
      fun p => ⟨.placement p, f.placementsOf⟩

/-- A block cursor shows the character under it. -/
def drawCursor (f : RenderFrame) (blinkState : Bool) : List Painted :=
  let h := f.header
  if h.cursorVisible && (!h.cursorBlinking || blinkState) &&
      decide ((h.cursorX : ℤ) < f.size.cols ∧ (h.cursorY : ℤ) < f.size.rows) then
    let index := h.cursorY * f.size.cols.toNat + h.cursorX
    ⟨.cursor h.cursorX h.cursorY h.cursorStyle h.cursorColor, f.headerOf⟩ ::
      if h.cursorStyle ≠ 0 ∧ h.cursorStyle ≠ 2 ∧ h.cursorStyle ≠ 3 ∧ index < f.size.cells ∧
          ((f.cell .chars index).map Prod.snd).getD 0 ≠ 0x20 ∧ ((f.cell .chars index).map Prod.snd).getD 0 ≠ 0 then
        [f.paintCell .chars index]
      else []
  else []

/-- What `onDraw` takes from the frame. -/
def paint (f : RenderFrame) (blinkState : Bool) : List Painted :=
  if f.size.cols ≤ 0 ∨ f.size.rows ≤ 0 then []
  else
    ⟨.background f.header.defaultBgColor, f.headerOf⟩ :: f.drawKittyPlacements true ++
      (List.range f.size.rows.toNat).flatMap f.paintRow ++ f.drawKittyPlacements false ++ f.drawCursor blinkState

end RenderFrame

/-- The view, the sessions, and what each draw painted while a session was attached. -/
structure Screen where
  view : TerminalView
  sessions : SessionRef → Session
  drawn : List (SessionRef × List Painted)

namespace Screen

def new (terminals : SessionRef → Terminal) : Screen := ⟨.new, fun ref => .new (terminals ref), []⟩

def setSession (st : Screen) (ref : SessionRef) (s : Session) : Screen :=
  { st with sessions := Function.update st.sessions ref s }

/-- `feedVt` of `CSI = 0 ; 1 u` -/
def resetKittyKeyboard (s : Session) : Session := { s with terminal := { s.terminal with kittyKeyboardFlags := 0 } }

def onDraw (st : Screen) (x : Export) : Screen :=
  match st.view.session with
  | none => st
  | some ref =>
    let (s, f) := (st.sessions ref).updateRenderFrame ref x st.view.renderFrame
    let leftAlt := st.view.lastAltScreenActive && !f.header.altScreenActive && f.header.kittyKeyboardFlags ≠ 0
    { st.setSession ref (if leftAlt then resetKittyKeyboard s else s) with
      view := { st.view with renderFrame := f, lastAltScreenActive := f.header.altScreenActive }
      drawn := st.drawn ++ [(ref, f.paint st.view.cursorBlinkState)] }

/-- The size of a view in cells and pixels, if it has been laid out. -/
structure Layout where
  cols : ℤ
  rows : ℤ
  cellWidth : ℤ
  cellHeight : ℤ
  ok : Bool

def resizeTo (st : Screen) (ref : SessionRef) (l : Layout) : Screen :=
  st.setSession ref ((st.sessions ref).resize (max 4 l.rows) (max 10 l.cols) l.cellWidth l.cellHeight l.ok)

def attachSession (st : Screen) (newSession : Option SessionRef) (layout : Option Layout) : Screen :=
  let st := { st with view := st.view.attachSession newSession }
  match newSession, layout with
  | some ref, some l => st.resizeTo ref l
  | _, _ => st

end Screen

inductive Action
  | attachSession (newSession : Option SessionRef) (layout : Option Screen.Layout)
  | onDraw (x : Export)
  /-- the cursor's blink runnable -/
  | blink (state : Bool)
  /-- `onSizeChanged` -/
  | sizeChanged (l : Screen.Layout)
  /-- output of the program, or anything else that changes the session's terminal -/
  | output (ref : SessionRef) (terminal : Terminal)
  /-- an export of the session into another frame -/
  | exportElsewhere (ref : SessionRef) (call : Kitty.Call)
  | close (ref : SessionRef)

def step (st : Screen) : Action → Option Screen
  | .attachSession newSession layout => some (st.attachSession newSession layout)
  | .onDraw x => some (st.onDraw x)
  | .blink state => some { st with view := { st.view with cursorBlinkState := state } }
  | .sizeChanged l => some ((st.view.session.map fun ref => st.resizeTo ref l).getD st)
  | .output ref terminal => some (st.setSession ref { st.sessions ref with terminal := terminal })
  | .exportElsewhere ref call =>
    some (st.setSession ref
      { st.sessions ref with native := (Kitty.updateKittyGraphics (st.sessions ref).native call).1 })
  | .close ref => some (st.setSession ref { st.sessions ref with isClosed := true })

end Tinyhack.Views
