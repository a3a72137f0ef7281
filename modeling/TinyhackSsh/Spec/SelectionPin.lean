import TinyhackSsh.Spec.Wire

/-! `TerminalView.updateSelectionState` while a selection is active: the viewport is pinned
with scrollbar values saved from earlier frames. Output comes from the reader thread, so
it may arrive between frames and also within one, after `updateRenderFrame` and before
`updateSelectionState`. -/

namespace Tinyhack.Selection

/-- The scrollback of the attached session, and the part of it that is the viewport. -/
structure Terminal where
  total : ℕ
  len : ℕ
  top : ℕ
  /-- DEC mode 2026 -/
  syncOutput : Bool
  hasSelection : Bool
  len_pos : 0 < len
  fits : top + len ≤ total
  deriving DecidableEq

namespace Terminal

def atBottom (t : Terminal) : Prop := t.top + t.len = t.total

instance (t : Terminal) : Decidable t.atBottom := inferInstanceAs (Decidable (_ = _))

/-- `n` rows go into the scrollback. A viewport at the bottom stays on the active area, any
other one keeps its top row. -/
def output (t : Terminal) (n : ℕ) (syncOutput keepsSelection : Bool) : Terminal where
  total := t.total + n
  len := t.len
  top := if t.atBottom then t.top + n else t.top
  syncOutput := syncOutput
  hasSelection := t.hasSelection && keepsSelection
  len_pos := t.len_pos
  fits := by
    have hfits := t.fits
    split_ifs <;> omega

/-- `nativeScroll` with type ROW. -/
def scrollToRow (t : Terminal) (row : ℤ) : Terminal where
  total := t.total
  len := t.len
  top := min row.toNat (t.total - t.len)
  syncOutput := t.syncOutput
  hasSelection := t.hasSelection
  len_pos := t.len_pos
  fits := by
    have hfits := t.fits
    omega

end Terminal

/-- `scrollTotal`, `scrollOffset` and `scrollLen` of a frame, or the values saved from one. -/
structure Scrollbar where
  total : ℤ
  offset : ℤ
  len : ℤ
  deriving DecidableEq

/-- The scrollbar that `nativeUpdateRender` exports. -/
def Terminal.scrollbar (t : Terminal) : Scrollbar := ⟨t.total, t.top, t.len⟩

structure View where
  terminal : Terminal
  renderFrame : Scrollbar
  /-- `prevScrollTotal`, `prevScrollOffset` and `prevScrollLen` -/
  prevScroll : Scrollbar
  selectionActive : Bool
  /-- `onDraw` is between `updateRenderFrame` and `updateSelectionState` -/
  drawing : Bool
  deriving DecidableEq

def startTextSelection (v : View) : View :=
  { v with terminal := { v.terminal with hasSelection := true }, selectionActive := true }

/-- The frame is left as it is in synchronized output and when the render state cannot be updated. -/
def updateRenderFrame (v : View) (updates : Bool) : View :=
  { v with
    renderFrame := if v.terminal.syncOutput || !updates then v.renderFrame else v.terminal.scrollbar
    drawing := true }

/-- The viewport was following the output, and there is more of it. -/
def View.pins (v : View) : Bool :=
  0 < v.prevScroll.total && v.prevScroll.total < v.renderFrame.total &&
    v.prevScroll.total ≤ v.prevScroll.offset + v.prevScroll.len

def View.target (v : View) : ℤ := min v.prevScroll.offset (max 0 (v.renderFrame.total - v.renderFrame.len))

def updateSelectionState (v : View) : View :=
  let terminal := if v.selectionActive && v.pins then v.terminal.scrollToRow (wrap32 v.target) else v.terminal
  { v with
    terminal := terminal
    selectionActive := v.selectionActive && terminal.hasSelection
    prevScroll := v.renderFrame
    drawing := false }

inductive Action
  /-- rows added to the scrollback, the mode after that, and whether the selection is still there -/
  | output (n : ℕ) (syncOutput keepsSelection : Bool)
  | updateRenderFrame (updates : Bool)
  | updateSelectionState
  deriving DecidableEq

def step (v : View) : Action → Option View
  | .output n syncOutput keepsSelection => some { v with terminal := v.terminal.output n syncOutput keepsSelection }
  | .updateRenderFrame updates => if v.drawing then none else some (updateRenderFrame v updates)
  | .updateSelectionState => if v.drawing then some (updateSelectionState v) else none

end Tinyhack.Selection
