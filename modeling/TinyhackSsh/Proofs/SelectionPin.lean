import TinyhackSsh.Lib.Runs
import TinyhackSsh.Spec.SelectionPin
import TinyhackSsh.Proofs.Wire

/-! Where the viewport is while text is selected. A frame that pins the viewport saves the
scrollbar from before the pin, which says that the viewport follows the output; rows that
arrive before the next frame then move it away. -/

namespace Tinyhack.Selection

open Runs

/-- The values say that the viewport was at the bottom. -/
def Scrollbar.follows (b : Scrollbar) : Prop := 0 < b.total ∧ b.total ≤ b.offset + b.len

instance (b : Scrollbar) : Decidable b.follows := inferInstanceAs (Decidable (_ ∧ _))

/-- The values that the next `updateSelectionState` but the current one goes by. -/
def View.saved (v : View) : Scrollbar := if v.drawing then v.renderFrame else v.prevScroll

/-- The last frame shows the viewport as it is when the selection is made. Away from the
bottom it is enough that the frame does not say otherwise, or that no row came since. -/
structure UpToDate (v : View) : Prop where
  drawn : v.drawing = false ∧ v.renderFrame = v.prevScroll
  bottom : v.terminal.atBottom → v.prevScroll = v.terminal.scrollbar ∧ v.terminal.top < 2 ^ 31
  history : ¬ v.terminal.atBottom → v.prevScroll.follows → v.prevScroll.total = v.terminal.total

/-- Rows arrive only while the saved values are right about the viewport being at the
bottom, and within a frame only if it is not; and no frame is held back while rows that
moved the viewport have not been seen. -/
def InTime (v : View) : Action → Prop
  | .output n _ _ => n = 0 ∨
      ((v.saved.follows ↔ v.terminal.atBottom) ∧ (v.drawing = true → ¬ v.terminal.atBottom))
  | .updateRenderFrame updates =>
      (v.terminal.syncOutput || !updates) = true → v.terminal.atBottom → v.renderFrame.total = v.terminal.total
  | .updateSelectionState => True

/-- Where the view stands with the row `R` that was on top. -/
inductive Phase (R : ℕ) (v : View) : Prop
  /-- away from the bottom, and known to be -/
  | held (top : v.terminal.top = R) (away : ¬ v.terminal.atBottom) (prev : ¬ v.prevScroll.follows)
      (frame : ¬ v.renderFrame.follows)
  /-- at the bottom, as last seen -/
  | fresh (top : v.terminal.top = R) (bottom : v.terminal.atBottom) (prev : v.prevScroll = v.terminal.scrollbar)
      (frame : v.renderFrame = v.terminal.scrollbar) (small : R < 2 ^ 31)
  /-- carried on by rows that came since -/
  | late (bottom : v.terminal.atBottom) (prev : v.prevScroll = ⟨R + v.terminal.len, R, v.terminal.len⟩)
      (moved : R + v.terminal.len < v.terminal.total)
      (frame : v.renderFrame = if v.drawing then v.terminal.scrollbar else v.prevScroll) (small : R < 2 ^ 31)
  /-- pinned, with values from before the pin -/
  | pinned (top : v.terminal.top = R) (away : ¬ v.terminal.atBottom) (frame : v.renderFrame = v.prevScroll)
      (total : v.prevScroll.total = v.terminal.total)
  /-- pinned, in the frame that sees it -/
  | seen (top : v.terminal.top = R) (away : ¬ v.terminal.atBottom) (drawing : v.drawing = true)
      (total : v.renderFrame.total = v.prevScroll.total) (frame : ¬ v.renderFrame.follows)

section Phases

variable {R : ℕ} {v : View}

theorem follows_scrollbar (t : Terminal) : t.scrollbar.follows ↔ t.atBottom := by
  have hlen := t.len_pos
  have hfits := t.fits
  simp only [Scrollbar.follows, Terminal.scrollbar, Terminal.atBottom]
  omega

theorem atBottom_output (t : Terminal) (n : ℕ) (sync keeps : Bool) :
    (t.output n sync keeps).atBottom ↔ t.atBottom := by
  by_cases h : t.atBottom
  · have htop : (t.output n sync keeps).top = t.top + n := if_pos h
    refine iff_of_true ?_ h
    change (t.output n sync keeps).top + t.len = t.total + n
    rw [htop, ← h]
    omega
  · have htop : (t.output n sync keeps).top = t.top := if_neg h
    refine iff_of_false ?_ h
    have hfits := t.fits
    unfold Terminal.atBottom at h
    change ¬ (t.output n sync keeps).top + t.len = t.total + n
    omega

/-- A viewport that is away from the bottom stays where it is. -/
theorem top_output {t : Terminal} (h : ¬ t.atBottom) (n : ℕ) (sync keeps : Bool) :
    (t.output n sync keeps).top = t.top := if_neg h

theorem scrollbar_output_zero (t : Terminal) (sync keeps : Bool) :
    (t.output 0 sync keeps).scrollbar = t.scrollbar := by
  simp [Terminal.output, Terminal.scrollbar]

theorem start_phase (h : UpToDate v) : Phase v.terminal.top (startTextSelection v) := by
  obtain ⟨⟨hdrawing, hframe⟩, hbottom, hhistory⟩ := h
  by_cases hb : v.terminal.atBottom
  · obtain ⟨hprev, hsmall⟩ := hbottom hb
    exact .fresh rfl hb hprev (hframe.trans hprev) hsmall
  · by_cases hf : v.prevScroll.follows
    · exact .pinned rfl hb hframe (hhistory hb hf)
    · exact .held rfl hb hf (hframe.symm ▸ hf)

/-- Output without new rows. -/
theorem Phase.output_zero (h : Phase R v) (sync keeps : Bool) :
    Phase R { v with terminal := v.terminal.output 0 sync keeps } := by
  have hbar := scrollbar_output_zero v.terminal sync keeps
  have htop : (v.terminal.output 0 sync keeps).top = v.terminal.top := by simp [Terminal.output]
  have hat := atBottom_output v.terminal 0 sync keeps
  cases h with
  | held top away prev frame => exact .held (htop.trans top) (hat.not.mpr away) prev frame
  | fresh top bottom prev frame small =>
    exact .fresh (htop.trans top) (hat.mpr bottom) (prev.trans hbar.symm) (frame.trans hbar.symm) small
  | late bottom prev moved frame small =>
    refine .late (hat.mpr bottom) prev moved ?_ small
    rw [hbar]
    exact frame
  | pinned top away frame total => exact .pinned (htop.trans top) (hat.not.mpr away) frame total
  | seen top away drawing total frame => exact .seen (htop.trans top) (hat.not.mpr away) drawing total frame

theorem Phase.output (h : Phase R v) {n : ℕ} {sync keeps : Bool} (hok : InTime v (.output n sync keeps)) :
    Phase R { v with terminal := v.terminal.output n sync keeps } := by
  rcases hok with rfl | ⟨hagree, hdraw⟩
  · exact h.output_zero sync keeps
  have hat := atBottom_output v.terminal n sync keeps
  have htop := fun away => top_output (t := v.terminal) away n sync keeps
  cases h with
  | held top away prev frame => exact .held ((htop away).trans top) (hat.not.mpr away) prev frame
  | fresh top bottom prev frame small =>
    have hdrawing : v.drawing = false := Bool.eq_false_iff.mpr fun hd => hdraw hd bottom
    have htotal : R + v.terminal.len = v.terminal.total := top ▸ bottom
    obtain rfl | hpos := Nat.eq_zero_or_pos n
    · exact (Phase.fresh top bottom prev frame small).output_zero sync keeps
    · refine .late (hat.mpr bottom) ?_ ?_ ?_ small
      · rw [prev]
        change Scrollbar.mk v.terminal.total v.terminal.top v.terminal.len = ⟨R + v.terminal.len, R, v.terminal.len⟩
        rw [top, ← htotal, Nat.cast_add]
      · change R + v.terminal.len < v.terminal.total + n
        omega
      · simp only [hdrawing, Bool.false_eq_true, if_false]
        exact frame.trans prev.symm
  | late bottom prev moved frame small =>
    have hdrawing : v.drawing = false := Bool.eq_false_iff.mpr fun hd => hdraw hd bottom
    refine .late (hat.mpr bottom) prev (moved.trans_le (Nat.le_add_right _ n)) ?_ small
    simpa [hdrawing] using frame
  | pinned top away frame total =>
    -- the saved values are the frame's, within a frame or not
    have hsaved : v.saved = v.prevScroll := by
      unfold View.saved
      split_ifs
      · exact frame
      · rfl
    have hprev : ¬ v.prevScroll.follows := hsaved ▸ hagree.not.mpr away
    exact .held ((htop away).trans top) (hat.not.mpr away) hprev (frame.symm ▸ hprev)
  | seen top away drawing total frame => exact .seen ((htop away).trans top) (hat.not.mpr away) drawing total frame

theorem Phase.updateRenderFrame (h : Phase R v) {updates : Bool} (hdrawing : v.drawing = false)
    (hok : InTime v (.updateRenderFrame updates)) : Phase R (updateRenderFrame v updates) := by
  unfold Selection.updateRenderFrame
  cases hheld : v.terminal.syncOutput || !updates with
  | true =>
    rw [if_pos rfl]
    cases h with
    | held top away prev frame => exact .held top away prev frame
    | fresh top bottom prev frame small => exact .fresh top bottom prev frame small
    | late bottom prev moved frame small =>
      have htotal := hok hheld bottom
      rw [frame, hdrawing, if_neg (by decide), prev] at htotal
      dsimp only at htotal
      omega
    | pinned top away frame total => exact .pinned top away frame total
    | seen top away drawing total frame => exact absurd (hdrawing.symm.trans drawing) (by decide)
  | false =>
    rw [if_neg (by decide)]
    cases h with
    | held top away prev frame => exact .held top away prev ((follows_scrollbar _).not.mpr away)
    | fresh top bottom prev frame small => exact .fresh top bottom prev rfl small
    | late bottom prev moved frame small => exact .late bottom prev moved rfl small
    | pinned top away frame total => exact .seen top away rfl total.symm ((follows_scrollbar _).not.mpr away)
    | seen top away drawing total frame => exact absurd (hdrawing.symm.trans drawing) (by decide)

/-- A frame that does not pin. -/
theorem update_stays (h : v.pins = false) : (updateSelectionState v).terminal = v.terminal := by
  simp [updateSelectionState, h]

theorem pins_of_not_follows (h : ¬ v.prevScroll.follows) : v.pins = false := by
  simp only [View.pins, Scrollbar.follows] at h ⊢
  grind

theorem pins_of_total (h : v.renderFrame.total = v.prevScroll.total) : v.pins = false := by
  simp [View.pins, h]

/-- Rows that came between two frames: the viewport goes back to where it was. -/
theorem update_late (hactive : v.selectionActive = true)
    (hprev : v.prevScroll = ⟨R + v.terminal.len, R, v.terminal.len⟩) (hframe : v.renderFrame = v.terminal.scrollbar)
    (hmoved : R + v.terminal.len < v.terminal.total) (hsmall : R < 2 ^ 31) :
    (updateSelectionState v).terminal = v.terminal.scrollToRow R := by
  have hlen := v.terminal.len_pos
  have hpins : v.pins = true := by
    simp only [View.pins, hprev, hframe, Terminal.scrollbar, Bool.and_eq_true, decide_eq_true_eq]
    omega
  have htarget : v.target = R := by
    simp only [View.target, hprev, hframe, Terminal.scrollbar]
    omega
  simp only [updateSelectionState, hactive, hpins, Bool.and_true, if_true, htarget]
  rw [wrap32_eq (by omega) (by omega)]

/-- After every frame the row is on top. -/
theorem Phase.update (h : Phase R v) (hactive : v.selectionActive = true) (hdrawing : v.drawing = true) :
    (updateSelectionState v).terminal.top = R ∧ Phase R (updateSelectionState v) := by
  cases h with
  | held top away prev frame =>
    have hstay := update_stays (pins_of_not_follows prev)
    refine ⟨hstay ▸ top, .held (hstay ▸ top) (hstay ▸ away) frame frame⟩
  | fresh top bottom prev frame small =>
    have hstay := update_stays (pins_of_total (congrArg Scrollbar.total (frame.trans prev.symm)))
    exact ⟨hstay ▸ top, .fresh (hstay ▸ top) (hstay ▸ bottom) (hstay ▸ frame) (hstay ▸ frame) small⟩
  | late bottom prev moved frame small =>
    rw [hdrawing, if_pos rfl] at frame
    have hpin := update_late hactive prev frame moved small
    have htop : (v.terminal.scrollToRow R).top = R := by
      simp only [Terminal.scrollToRow, Int.toNat_natCast]
      omega
    have haway : ¬ (v.terminal.scrollToRow R).atBottom := by
      unfold Terminal.atBottom
      rw [htop]
      exact moved.ne
    refine ⟨hpin ▸ htop, .pinned (hpin ▸ htop) (hpin ▸ haway) rfl ?_⟩
    rw [hpin]
    exact congrArg Scrollbar.total frame
  | pinned top away frame total =>
    have hstay := update_stays (pins_of_total (congrArg Scrollbar.total frame))
    refine ⟨hstay ▸ top, .pinned (hstay ▸ top) (hstay ▸ away) rfl ?_⟩
    rw [hstay, ← total]
    exact congrArg Scrollbar.total frame
  | seen top away drawing total frame =>
    have hstay := update_stays (pins_of_total total)
    exact ⟨hstay ▸ top, .held (hstay ▸ top) (hstay ▸ away) frame frame⟩

end Phases

section Runs

variable {R : ℕ} {v v' : View} {a : Action}

theorem step_phase (h : v.selectionActive = true → Phase R v) (hok : InTime v a) (hstep : step v a = some v') :
    v'.selectionActive = true → Phase R v' := by
  intro hactive
  cases a with
  | output n sync keeps =>
    obtain rfl := Option.some.inj hstep
    exact (h hactive).output hok
  | updateRenderFrame updates =>
    simp only [step] at hstep
    split_ifs at hstep with hdrawing
    obtain rfl := Option.some.inj hstep
    exact (h hactive).updateRenderFrame (Bool.eq_false_iff.mpr hdrawing) hok
  | updateSelectionState =>
    simp only [step] at hstep
    split_ifs at hstep with hdrawing
    obtain rfl := Option.some.inj hstep
    have hbefore : v.selectionActive = true := (Bool.and_eq_true_iff.mp hactive).1
    exact ((h hbefore).update hbefore hdrawing).2

end Runs

/-- While the selection is active and rows arrive in time, the viewport is after every frame
on the row that was on top when the selection was made. -/
theorem selection_stays_on_top (v u u' : View) (acts : List Action) (hdate : UpToDate v)
    (hrun : Run (startTextSelection v) step InTime acts u) (hactive : u.selectionActive = true)
    (hframe : step u .updateSelectionState = some u') : u'.terminal.top = v.terminal.top := by
  have hphase : u.selectionActive = true → Phase v.terminal.top u :=
    hrun.inv (fun u => u.selectionActive = true → Phase v.terminal.top u) (fun _ => start_phase hdate)
      fun _ _ _ h hok hstep => step_phase h hok hstep
  simp only [step] at hframe
  split_ifs at hframe with hdrawing
  obtain rfl := Option.some.inj hframe
  exact ((hphase hactive).update hactive hdrawing).1

instance (v : View) (a : Action) : Decidable (InTime v a) :=
  match a with
  | .output _ _ _ => inferInstanceAs (Decidable (_ ∨ _))
  | .updateRenderFrame _ => inferInstanceAs (Decidable (_ → _))
  | .updateSelectionState => inferInstanceAs (Decidable True)

/-- 24 rows at the bottom of 100, as in the last frame. -/
def sampleView : View where
  terminal := ⟨100, 24, 76, false, false, by decide, by decide⟩
  renderFrame := ⟨100, 76, 24⟩
  prevScroll := ⟨100, 76, 24⟩
  selectionActive := false
  drawing := false

theorem sampleView_upToDate : UpToDate sampleView where
  drawn := ⟨rfl, rfl⟩
  bottom _ := ⟨rfl, by decide⟩
  history h := absurd (by decide) h

/-- Output, a frame, a second frame, and then as much output as may come. -/
theorem selection_stays_on_top_frames : ∃ u u',
    Run (startTextSelection sampleView) step InTime
      [.output 1 false true, .updateRenderFrame true, .updateSelectionState, .updateRenderFrame true,
        .updateSelectionState, .output 5 false true, .updateRenderFrame true] u ∧
    step u .updateSelectionState = some u' ∧ u'.terminal.top = 76 := by
  obtain ⟨u, u', hrun, hstep, hactive⟩ : ∃ u u', Run (startTextSelection sampleView) step InTime
      [.output 1 false true, .updateRenderFrame true, .updateSelectionState, .updateRenderFrame true,
        .updateSelectionState, .output 5 false true, .updateRenderFrame true] u ∧
      step u .updateSelectionState = some u' ∧ u.selectionActive = true := exists_step_of_exec (by decide)
  exact ⟨u, u', hrun, hstep, selection_stays_on_top sampleView u u' _ sampleView_upToDate hrun hactive hstep⟩

/-- Output before each of two frames: the second frame moves the viewport a row down. -/
theorem output_after_pin_moves : ∃ u u',
    Run (startTextSelection sampleView) step anyStep
      [.output 1 false true, .updateRenderFrame true, .updateSelectionState, .output 1 false true,
        .updateRenderFrame true] u ∧
    step u .updateSelectionState = some u' ∧ u'.selectionActive = true ∧ sampleView.terminal.top = 76 ∧
      u'.terminal.top = 77 :=
  exists_step_of_exec (by decide)

end Tinyhack.Selection
