import TinyhackSsh.Lib.Runs
import TinyhackSsh.Spec.SelectionDrag

/-! The endpoint of a selection that is not dragged. Each move reads it back in viewport
coordinates, where an endpoint outside is moved to the edge, and in text order, where the
dragged endpoint takes its place once it has passed it. -/

namespace Tinyhack.Selection

open Runs

def Range.has (r : Range) (p : Point) : Prop := p = r.start ∨ p = r.stop

/-- The endpoint that stays when a handle is dragged. -/
def fixedEnd (handle : Handle) (r : Range) : Point :=
  match handle with
  | .start => r.ordered.stop
  | .stop => r.ordered.start

/-- No endpoint lies beyond `p`, seen from the handle. -/
def notPast (handle : Handle) (p : Point) (r : Range) : Bool :=
  match handle with
  | .start => r.start.le p && r.stop.le p
  | .stop => p.le r.start && p.le r.stop

/-- The states and times at which an action calls `applyHandleDrag`. -/
def DragAction.applies (d : Drag) : DragAction → Option (Drag × ℕ)
  | .move x y now | .up x y now => some ({ d with handleDrag := (x, y) }, now)
  | .autoScroll now => some (d, now)
  | .cancel | .layout _ | .view _ => none

/-- At every move, `p` is in the viewport once the move has scrolled it, and the dragged endpoint has not
passed `p`. -/
def Steady (handle : Handle) (p : Point) (d : Drag) (a : DragAction) : Prop :=
  (a.applies d).all (fun (d', now) =>
    (d'.autoScroll now).view.terminal.isVisible p.y && notPast handle p d.selection) = true

instance (handle : Handle) (p : Point) (d : Drag) (a : DragAction) : Decidable (Steady handle p d a) :=
  inferInstanceAs (Decidable (_ = true))

/-! ### Text order -/

theorem Point.le_iff {p q : Point} : p.le q = true ↔ p.y < q.y ∨ p.y = q.y ∧ p.x.toNat ≤ q.x.toNat := by
  simp [Point.le]

theorem Point.le_antisymm {p q : Point} (hpq : p.le q = true) (hqp : q.le p = true) : p = q := by
  rw [Point.le_iff] at hpq hqp
  have hy : p.y = q.y := by omega
  have hx : p.x = q.x := UInt16.toNat_inj.mp (by omega)
  cases p
  cases q
  simp_all

/-- An endpoint that no endpoint lies beyond is the one that stays. -/
theorem fixedEnd_eq {handle : Handle} {p : Point} {r : Range} (hp : r.has p) (hpast : notPast handle p r = true) :
    fixedEnd handle r = p := by
  cases handle with
  | start =>
    obtain ⟨hstart, hstop⟩ := Bool.and_eq_true .. ▸ hpast
    unfold fixedEnd Range.ordered
    dsimp only
    rcases hp with rfl | rfl
    · split_ifs with hle
      · exact Point.le_antisymm hstop hle
      · rfl
    · rw [if_pos hstart]
  | stop =>
    obtain ⟨hstart, hstop⟩ := Bool.and_eq_true .. ▸ hpast
    unfold fixedEnd Range.ordered
    dsimp only
    rcases hp with rfl | rfl
    · rw [if_pos hstop]
    · split_ifs with hle
      · exact Point.le_antisymm hle hstart
      · rfl

theorem has_fixedEnd (handle : Handle) (r : Range) : r.has (fixedEnd handle r) := by
  unfold Range.has fixedEnd Range.ordered
  cases handle <;> dsimp only <;> split_ifs <;> simp

/-! ### Viewport coordinates -/

theorem gridRef_eq_some {d : Drag} {tag : Tag} {col row : ℕ} {q : Point} :
    d.gridRef tag col row = some q ↔
      (UInt16.ofNat col).toNat < d.cols ∧ d.view.terminal.origin tag + row < d.view.terminal.total ∧
        ⟨UInt16.ofNat col, d.view.terminal.origin tag + row⟩ = q := by
  unfold Drag.gridRef
  dsimp only
  split_ifs with h
  · rw [Option.some.injEq, and_iff_right h.1, and_iff_right h.2]
  · constructor
    · intro hnone
      cases hnone
    · rintro ⟨hx, hy, -⟩
      exact absurd ⟨hx, hy⟩ h

/-- A cell of the viewport is read back as it was written. -/
theorem gridRef_visible {d : Drag} {p q : Point} (hp : d.view.terminal.isVisible p.y = true)
    (h : d.gridRef .viewport p.x.toNat (d.view.terminal.viewportRow p.y) = some q) : q = p := by
  simp only [Terminal.isVisible, Bool.and_eq_true, decide_eq_true_eq] at hp
  have hrow : d.view.terminal.viewportRow p.y = p.y - d.view.terminal.top := by
    rw [Terminal.viewportRow, if_neg (by omega), if_pos hp.2]
  have hy : d.view.terminal.origin .viewport + (p.y - d.view.terminal.top) = p.y := Nat.add_sub_cancel' hp.1
  obtain ⟨-, -, rfl⟩ := gridRef_eq_some.mp h
  rw [hrow, hy, UInt16.ofNat_toNat]

/-- The active area begins at the viewport or below it. -/
theorem gridRef_active {d : Drag} {col row : ℕ} (h : d.gridRef .viewport col row = none) :
    d.gridRef .active col row = none := by
  have hfits := d.view.terminal.fits
  rw [Option.eq_none_iff_forall_ne_some] at h ⊢
  intro q hq
  obtain ⟨hx, hy, -⟩ := gridRef_eq_some.mp hq
  refine h _ (gridRef_eq_some.mpr ⟨hx, ?_, rfl⟩)
  simp only [Terminal.origin] at hy ⊢
  omega

theorem setSelection_cases (d : Drag) (startCol startRow endCol endRow : ℕ) :
    (d.setSelection startCol startRow endCol endRow).selection = d.selection ∨
      ∃ s e, d.gridRef .viewport startCol startRow = some s ∧ d.gridRef .viewport endCol endRow = some e ∧
        (d.setSelection startCol startRow endCol endRow).selection = ⟨s, e⟩ := by
  cases hs : d.gridRef .viewport startCol startRow with
  | none =>
    left
    simp [Drag.setSelection, Drag.gridRefs, hs, gridRef_active hs]
  | some s =>
    cases he : d.gridRef .viewport endCol endRow with
    | none =>
      left
      simp [Drag.setSelection, Drag.gridRefs, hs, he, gridRef_active he]
    | some e =>
      right
      exact ⟨s, e, rfl, rfl, by simp [Drag.setSelection, Drag.gridRefs, hs, he]⟩

@[simp]
theorem setSelection_draggingHandle (d : Drag) (startCol startRow endCol endRow : ℕ) :
    (d.setSelection startCol startRow endCol endRow).draggingHandle = d.draggingHandle := by
  unfold Drag.setSelection
  split <;> rfl

@[simp]
theorem autoScroll_selection (d : Drag) (now : ℕ) : (d.autoScroll now).selection = d.selection := by
  unfold Drag.autoScroll
  dsimp only
  split_ifs <;> rfl

@[simp]
theorem autoScroll_draggingHandle (d : Drag) (now : ℕ) : (d.autoScroll now).draggingHandle = d.draggingHandle := by
  unfold Drag.autoScroll
  dsimp only
  split_ifs <;> rfl

/-! ### Moves -/

theorem getSelectionViewport_eq {d : Drag} {sel : Bounds} (h : d.getSelectionViewport = some sel) :
    sel.startCol = d.selection.ordered.start.x.toNat ∧
      sel.startRow = d.view.terminal.viewportRow d.selection.ordered.start.y ∧
      sel.endCol = d.selection.ordered.stop.x.toNat ∧
      sel.endRow = d.view.terminal.viewportRow d.selection.ordered.stop.y := by
  unfold Drag.getSelectionViewport at h
  dsimp only at h
  split_ifs at h
  obtain rfl := Option.some.inj h
  exact ⟨rfl, rfl, rfl, rfl⟩

theorem applyHandleDrag_has {d : Drag} {handle : Handle} {p : Point} {now : ℕ}
    (hhandle : d.draggingHandle = some handle) (hp : d.selection.has p)
    (hvisible : (d.autoScroll now).view.terminal.isVisible p.y = true)
    (hpast : notPast handle p d.selection = true) : (d.applyHandleDrag now).selection.has p := by
  have hfixed := fixedEnd_eq hp hpast
  simp only [Drag.applyHandleDrag, hhandle]
  have hsel := autoScroll_selection d now
  generalize d.autoScroll now = d₁ at hvisible hsel ⊢
  split
  · change d₁.selection.has p
    rwa [hsel]
  · rename_i sel hget
    obtain ⟨hsc, hsr, hec, her⟩ := getSelectionViewport_eq hget
    rw [hsel] at hsc hsr hec her
    cases handle with
    | start =>
      rw [show d.selection.ordered.stop = p from hfixed] at hec her
      dsimp only
      rw [hec, her]
      rcases setSelection_cases d₁ (d₁.target .start).1 (d₁.target .start).2 p.x.toNat
          (d₁.view.terminal.viewportRow p.y) with hsame | ⟨s, e, -, he, hset⟩
      · rw [hsame, hsel]
        exact hp
      · rw [hset]
        exact .inr (gridRef_visible hvisible he).symm
    | stop =>
      rw [show d.selection.ordered.start = p from hfixed] at hsc hsr
      dsimp only
      rw [hsc, hsr]
      rcases setSelection_cases d₁ p.x.toNat (d₁.view.terminal.viewportRow p.y) (d₁.target .stop).1
          (d₁.target .stop).2 with hsame | ⟨s, e, hs, -, hset⟩
      · rw [hsame, hsel]
        exact hp
      · rw [hset]
        exact .inl (gridRef_visible hvisible hs).symm

theorem applyHandleDrag_handle (d : Drag) (now : ℕ) :
    (d.applyHandleDrag now).draggingHandle = none ∨ (d.applyHandleDrag now).draggingHandle = d.draggingHandle := by
  unfold Drag.applyHandleDrag
  split
  · exact .inr rfl
  · dsimp only
    split
    · exact .inl rfl
    · right
      split <;> simp

/-! ### The drag -/

/-- What a drag of `handle` keeps. -/
structure Keeps (handle : Handle) (p : Point) (d : Drag) : Prop where
  handle : d.draggingHandle = none ∨ d.draggingHandle = some handle
  has : d.selection.has p

theorem Keeps.at {handle : Handle} {p : Point} {d : Drag} (hk : Keeps handle p d) (x y : Rat) :
    Keeps handle p { d with handleDrag := (x, y) } := ⟨hk.handle, hk.has⟩

theorem keeps_apply {d : Drag} {handle : Handle} {p : Point} {now : ℕ} (hk : Keeps handle p d)
    (hvisible : (d.autoScroll now).view.terminal.isVisible p.y = true)
    (hpast : notPast handle p d.selection = true) : Keeps handle p (d.applyHandleDrag now) := by
  rcases hk.handle with hnone | hsome
  · have hsame : d.applyHandleDrag now = d := by simp only [Drag.applyHandleDrag, hnone]
    rwa [hsame]
  · refine ⟨?_, applyHandleDrag_has hsome hk.has hvisible hpast⟩
    rw [← hsome]
    exact applyHandleDrag_handle d now

theorem keeps_refresh {d : Drag} {handle : Handle} {p : Point} (hk : Keeps handle p d) : Keeps handle p d.refresh := by
  unfold Drag.refresh
  split
  · exact ⟨.inl rfl, hk.has⟩
  · exact ⟨hk.handle, hk.has⟩

theorem keeps_afterView {d : Drag} {handle : Handle} {p : Point} (hk : Keeps handle p d) (a : Action) (v : View) :
    Keeps handle p (d.afterView a v) := by
  have hview : Keeps handle p { d with view := v } := ⟨hk.handle, hk.has⟩
  unfold Drag.afterView
  split
  · split_ifs
    · exact keeps_refresh hview
    · exact ⟨.inl rfl, hk.has⟩
  · exact hview
  · exact hview

theorem keeps_step {d d' : Drag} {handle : Handle} {p : Point} {a : DragAction} (hk : Keeps handle p d)
    (hsteady : Steady handle p d a) (h : dragStep d a = some d') : Keeps handle p d' := by
  have hmove : ∀ d₁ now, a.applies d = some (d₁, now) →
      (d₁.autoScroll now).view.terminal.isVisible p.y = true ∧ notPast handle p d.selection = true := by
    intro d₁ now happlies
    rw [Steady, happlies] at hsteady
    exact Bool.and_eq_true_iff.mp hsteady
  cases a with
  | move x y now =>
    simp only [dragStep] at h
    split_ifs at h
    obtain rfl := Option.some.inj h
    obtain ⟨hvisible, hpast⟩ := hmove _ _ rfl
    exact keeps_apply (hk.at x y) hvisible hpast
  | up x y now =>
    simp only [dragStep] at h
    split_ifs at h
    obtain rfl := Option.some.inj h
    obtain ⟨hvisible, hpast⟩ := hmove _ _ rfl
    exact ⟨.inl rfl, (keeps_apply (hk.at x y) hvisible hpast).has⟩
  | cancel =>
    simp only [dragStep] at h
    split_ifs at h
    obtain rfl := Option.some.inj h
    exact ⟨.inl rfl, hk.has⟩
  | autoScroll now =>
    simp only [dragStep] at h
    split_ifs at h
    obtain rfl := Option.some.inj h
    obtain ⟨hvisible, hpast⟩ := hmove _ _ rfl
    exact keeps_apply hk hvisible hpast
  | layout metrics =>
    simp only [dragStep] at h
    split_ifs at h
    obtain rfl := Option.some.inj h
    exact ⟨hk.handle, hk.has⟩
  | view a =>
    simp only [dragStep] at h
    split_ifs at h
    obtain ⟨v, -, rfl⟩ := Option.map_eq_some_iff.mp h
    exact keeps_afterView hk a v

/-- Ten rows of scrollback, the last four of them in the viewport, and a selection in row 7. -/
def dragSample : Drag where
  view :=
    { terminal := ⟨10, 4, 6, false, true, by decide, by decide⟩
      renderFrame := ⟨10, 6, 4⟩
      prevScroll := ⟨10, 6, 4⟩
      selectionActive := true
      drawing := false }
  cols := 80
  selection := ⟨⟨2, 7⟩, ⟨9, 7⟩⟩
  metrics := ⟨10, 20, 800, 80, 80, 4, false⟩
  startHandle := (20, 40)
  stopHandle := (100, 40)
  draggingHandle := none
  handleGrabOffset := (0, 0)
  handleDrag := (0, 0)
  lastHandleAutoScrollMs := 0

instance (r : Range) (p : Point) : Decidable (r.has p) := inferInstanceAs (Decidable (_ ∨ _))

end Tinyhack.Selection
