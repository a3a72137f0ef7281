import TinyhackSsh.Proofs.Drawing

/-! Which session the keyboard reset of `onDraw` is fed into. The view remembers in
`lastAltScreenActive` whether the frame before showed an alternate screen, but not of
which session, and `attachSession` does not clear it. -/

namespace Tinyhack.Views

open Runs
open Sessions (SessionRef)

/-- The draw finds the flag set, and the frame on a primary screen with keyboard flags. -/
def Screen.seesLeave (st : Screen) (x : Export) (ref : SessionRef) : Bool :=
  let f := ((st.sessions ref).updateRenderFrame ref x st.view.renderFrame).2
  st.view.lastAltScreenActive && !f.header.altScreenActive && f.header.kittyKeyboardFlags ≠ 0

/-- The session that this draw feeds `CSI = 0 ; 1 u` into. -/
def Screen.fedReset (st : Screen) (x : Export) : Option SessionRef := st.view.session.filter (st.seesLeave x)

/-- The screen, together with the sessions that went from the alternate to the primary
screen since a draw last looked at them, and the resets: into which session, and whether
it was one of these. -/
structure Watched where
  screen : Screen
  left : SessionRef → Bool
  resets : List (SessionRef × Bool)

namespace Watched

def new (terminals : SessionRef → Terminal) : Watched := ⟨.new terminals, fun _ => false, []⟩

/-- A draw looks at the attached session when it exports it. -/
def looksAt (w : Watched) (x : Export) (ref : SessionRef) : Bool :=
  w.screen.view.session = some ref && !(w.screen.sessions ref).suspended x

/-- What the action adds to the record. -/
def record (w : Watched) (st : Screen) : Action → Watched
  | .output ref terminal =>
    ⟨st, Function.update w.left ref
      (w.left ref || (w.screen.sessions ref).terminal.altScreenActive && !terminal.altScreenActive), w.resets⟩
  | .onDraw x =>
    ⟨st, fun ref => w.left ref && !w.looksAt x ref,
      w.resets ++ ((w.screen.fedReset x).map fun ref => (ref, w.left ref)).toList⟩
  | _ => { w with screen := st }

def step (w : Watched) (a : Action) : Option Watched := (Views.step w.screen a).map fun st => w.record st a

end Watched

/-- A draw that finds `lastAltScreenActive` set and exports a session that is on its primary
screen with keyboard flags: the export before was that session's, too. -/
def AltOfAttached (w : Watched) : Action → Prop
  | .onDraw x => w.screen.view.lastAltScreenActive = true → ∀ ref ∈ w.screen.view.session,
      (w.screen.sessions ref).suspended x = true ∨
      (w.screen.sessions ref).terminal.altScreenActive = true ∨
      (w.screen.sessions ref).terminal.kittyKeyboardFlags = 0 ∨
      w.screen.view.renderFrame.headerOf = some ref
  | _ => True

instance (w : Watched) : ∀ a, Decidable (AltOfAttached w a)
  | .onDraw _ => inferInstanceAs (Decidable (_ → ∀ ref ∈ w.screen.view.session, _))
  | .attachSession _ _ | .blink _ | .sizeChanged _ | .output _ _ | .exportElsewhere _ _ | .close _ => isTrue trivial

section Draws

variable {s : Session} {ref : SessionRef} {x : Export} {f : RenderFrame}

theorem header_suspended (h : s.suspended x = true) :
    (s.updateRenderFrame ref x f).2.header = f.header ∧ (s.updateRenderFrame ref x f).2.headerOf = f.headerOf := by
  unfold Session.updateRenderFrame
  split_ifs
  · exact ⟨rfl, rfl⟩
  · rw [nativeUpdateRender_suspended h]
    exact ⟨rfl, rfl⟩

theorem header_exported (h : s.suspended x = false) :
    (s.updateRenderFrame ref x f).2.header = s.header x ∧ (s.updateRenderFrame ref x f).2.headerOf = some ref := by
  have hopen : s.isClosed = false := (Bool.or_eq_false_iff.mp (Bool.or_eq_false_iff.mp h).1).1
  rw [Session.updateRenderFrame, if_neg (by simp [hopen]), nativeUpdateRender_exports h]
  obtain ⟨cell, hcells, -⟩ := exportCells_eq s ref x (s.exportHeader ref x (f.ensureCapacity s.cols s.rows))
  rw [hcells]
  obtain ⟨-, ⟨-, heq⟩ | ⟨placed, heq⟩⟩ := exportPlacements_eq s ref x
    { s.exportHeader ref x (f.ensureCapacity s.cols s.rows) with cell := cell }
  all_goals
    rw [heq]
    exact ⟨rfl, rfl⟩

/-- An export changes nothing in the terminal. -/
theorem terminal_updateRenderFrame : (s.updateRenderFrame ref x f).1.terminal = s.terminal := by
  unfold Session.updateRenderFrame
  split_ifs
  · rfl
  cases hs : s.suspended x with
  | true => rw [nativeUpdateRender_suspended hs]
  | false => rw [nativeUpdateRender_exports hs, (exportPlacements_eq _ _ _ _).1]

end Draws

/-- What the record says about the view: a set flag is from the session last exported, which
is still on its alternate screen or has left it. -/
structure Recorded (w : Watched) : Prop where
  last : w.screen.view.lastAltScreenActive = w.screen.view.renderFrame.header.altScreenActive
  alt : w.screen.view.lastAltScreenActive = true → ∀ ref, w.screen.view.renderFrame.headerOf = some ref →
    (w.screen.sessions ref).terminal.altScreenActive = true ∨ w.left ref = true

section Steps

variable {w w' : Watched} {st : Screen} {a : Action} {x : Export} {ref : SessionRef}

theorem fedReset_eq_some :
    st.fedReset x = some ref ↔ st.view.session = some ref ∧ st.seesLeave x ref = true := Option.filter_eq_some_iff

/-- When a draw feeds the reset it has exported the session, which is on its primary screen
with keyboard flags. -/
theorem exported_of_fedReset (h : Recorded w) (hfed : w.screen.fedReset x = some ref) :
    w.screen.view.session = some ref ∧ w.screen.view.lastAltScreenActive = true ∧
    (w.screen.sessions ref).suspended x = false ∧ (w.screen.sessions ref).terminal.altScreenActive = false ∧
    (w.screen.sessions ref).terminal.kittyKeyboardFlags ≠ 0 := by
  obtain ⟨hsession, hsees⟩ := fedReset_eq_some.mp hfed
  simp only [Screen.seesLeave, Bool.and_eq_true, Bool.not_eq_true', decide_eq_true_eq] at hsees
  obtain ⟨⟨hlast, halt⟩, hflags⟩ := hsees
  cases hs : (w.screen.sessions ref).suspended x with
  | true =>
    -- the frame is the one that the flag was taken from
    rw [(header_suspended hs).1, ← h.last, hlast] at halt
    cases halt
  | false =>
    rw [(header_exported hs).1] at halt hflags
    exact ⟨hsession, hlast, rfl, halt, hflags⟩

theorem sessions_setSession (st : Screen) (ref ref' : SessionRef) (s : Session) :
    (st.setSession ref s).sessions ref' = if ref' = ref then s else st.sessions ref' := Function.update_apply ..

theorem onDraw_attached (h : st.view.session = some ref) : st.onDraw x =
    { st.setSession ref (if st.seesLeave x ref then
          Screen.resetKittyKeyboard ((st.sessions ref).updateRenderFrame ref x st.view.renderFrame).1
        else ((st.sessions ref).updateRenderFrame ref x st.view.renderFrame).1) with
      view := { st.view with
        renderFrame := ((st.sessions ref).updateRenderFrame ref x st.view.renderFrame).2
        lastAltScreenActive :=
          ((st.sessions ref).updateRenderFrame ref x st.view.renderFrame).2.header.altScreenActive }
      drawn := st.drawn ++ [(ref, ((st.sessions ref).updateRenderFrame ref x st.view.renderFrame).2.paint
        st.view.cursorBlinkState)] } := by
  unfold Screen.onDraw
  rw [h]
  rfl

/-- A draw leaves every terminal as it is, up to the reset. -/
theorem terminal_onDraw (st : Screen) (x : Export) (ref : SessionRef) :
    ((st.onDraw x).sessions ref).terminal =
      if st.fedReset x = some ref then { (st.sessions ref).terminal with kittyKeyboardFlags := 0 }
      else (st.sessions ref).terminal := by
  cases hsession : st.view.session with
  | none =>
    rw [if_neg (by simp [fedReset_eq_some, hsession]), Screen.onDraw, hsession]
  | some ref' =>
    rw [onDraw_attached hsession]
    change ((st.setSession ref' _).sessions ref).terminal = _
    rw [sessions_setSession]
    by_cases hr : ref = ref'
    · subst hr
      cases hsees : st.seesLeave x ref with
      | true =>
        rw [if_pos rfl, if_pos rfl, if_pos (fedReset_eq_some.mpr ⟨hsession, hsees⟩), Screen.resetKittyKeyboard,
          terminal_updateRenderFrame]
      | false =>
        rw [if_pos rfl, if_neg nofun, if_neg (by simp [fedReset_eq_some, hsees]), terminal_updateRenderFrame]
    · rw [if_neg hr, if_neg]
      rw [fedReset_eq_some, hsession]
      exact fun h => hr (Option.some.inj h.1).symm

theorem resize_terminal (s : Session) (rows cols cellWidth cellHeight : ℤ) (ok : Bool) :
    (s.resize rows cols cellWidth cellHeight ok).terminal.altScreenActive = s.terminal.altScreenActive ∧
    (s.resize rows cols cellWidth cellHeight ok).terminal.kittyKeyboardFlags = s.terminal.kittyKeyboardFlags := by
  unfold Session.resize
  split_ifs
  · exact ⟨rfl, rfl⟩
  · exact ⟨rfl, rfl⟩
  all_goals
    cases ok <;> exact ⟨rfl, rfl⟩

/-- A step that neither draws nor changes a terminal's screen or keyboard flags. -/
structure Quiet (st st' : Screen) : Prop where
  last : st'.view.lastAltScreenActive = st.view.lastAltScreenActive
  frame : st'.view.renderFrame = st.view.renderFrame
  alt : ∀ ref, (st'.sessions ref).terminal.altScreenActive = (st.sessions ref).terminal.altScreenActive
  flags : ∀ ref, (st'.sessions ref).terminal.kittyKeyboardFlags = (st.sessions ref).terminal.kittyKeyboardFlags

theorem quiet_setSession {s : Session} (halt : s.terminal.altScreenActive = (st.sessions ref).terminal.altScreenActive)
    (hflags : s.terminal.kittyKeyboardFlags = (st.sessions ref).terminal.kittyKeyboardFlags) :
    Quiet st (st.setSession ref s) := by
  refine ⟨rfl, rfl, fun ref' => ?_, fun ref' => ?_⟩
  all_goals
    rw [sessions_setSession]
    split_ifs with hr
  · rw [hr, halt]
  · rfl
  · rw [hr, hflags]
  · rfl

theorem quiet_resizeTo (st : Screen) (ref : SessionRef) (l : Screen.Layout) : Quiet st (st.resizeTo ref l) :=
  quiet_setSession (resize_terminal ..).1 (resize_terminal ..).2

theorem quiet_attachSession (st : Screen) (newSession : Option SessionRef) (layout : Option Screen.Layout) :
    Quiet st (st.attachSession newSession layout) := by
  cases newSession with
  | none => exact ⟨rfl, rfl, fun _ => rfl, fun _ => rfl⟩
  | some ref =>
    cases layout with
    | none => exact ⟨rfl, rfl, fun _ => rfl, fun _ => rfl⟩
    | some l =>
      have hq := quiet_resizeTo { st with view := st.view.attachSession (some ref) } ref l
      exact ⟨hq.last, hq.frame, hq.alt, hq.flags⟩

/-- What a step does, as far as the reset is concerned. -/
theorem Watched.step_cases (h : w.step a = some w') :
    (∃ x, a = .onDraw x ∧ w' = w.record (w.screen.onDraw x) (.onDraw x)) ∨
    (∃ ref terminal, a = .output ref terminal ∧
      w' = w.record (w.screen.setSession ref { w.screen.sessions ref with terminal := terminal })
        (.output ref terminal)) ∨
    (Quiet w.screen w'.screen ∧ w'.left = w.left ∧ w'.resets = w.resets) := by
  obtain ⟨st, hst, rfl⟩ := Option.map_eq_some_iff.mp h
  cases a with
  | onDraw x =>
    obtain rfl := Option.some.inj hst
    exact .inl ⟨x, rfl, rfl⟩
  | output ref terminal =>
    obtain rfl := Option.some.inj hst
    exact .inr (.inl ⟨ref, terminal, rfl, rfl⟩)
  | attachSession newSession layout =>
    obtain rfl := Option.some.inj hst
    exact .inr (.inr ⟨quiet_attachSession _ _ _, rfl, rfl⟩)
  | blink state =>
    obtain rfl := Option.some.inj hst
    exact .inr (.inr ⟨⟨rfl, rfl, fun _ => rfl, fun _ => rfl⟩, rfl, rfl⟩)
  | sizeChanged l =>
    obtain rfl := Option.some.inj hst
    refine .inr (.inr ⟨?_, rfl, rfl⟩)
    dsimp only [Watched.record]
    cases w.screen.view.session with
    | none => exact ⟨rfl, rfl, fun _ => rfl, fun _ => rfl⟩
    | some ref => exact quiet_resizeTo _ ref l
  | exportElsewhere ref call =>
    obtain rfl := Option.some.inj hst
    exact .inr (.inr ⟨quiet_setSession rfl rfl, rfl, rfl⟩)
  | close ref =>
    obtain rfl := Option.some.inj hst
    exact .inr (.inr ⟨quiet_setSession rfl rfl, rfl, rfl⟩)

/-- A draw that feeds the reset under the condition feeds it into a session that has left its
alternate screen. -/
theorem left_of_fedReset (h : Recorded w) (hok : AltOfAttached w (.onDraw x))
    (hfed : w.screen.fedReset x = some ref) : w.left ref = true := by
  obtain ⟨hsession, hlast, hs, halt, hflags⟩ := exported_of_fedReset h hfed
  obtain hsusp | hon | hzero | hof := hok hlast ref hsession
  · rw [hs] at hsusp
    cases hsusp
  · rw [halt] at hon
    cases hon
  · exact absurd hzero hflags
  · refine (h.alt hlast ref hof).resolve_left fun hon => ?_
    rw [halt] at hon
    cases hon

theorem Recorded.new (terminals : SessionRef → Terminal) : Recorded (.new terminals) := ⟨rfl, nofun⟩

theorem Recorded.onDraw (h : Recorded w) (x : Export) : Recorded (w.record (w.screen.onDraw x) (.onDraw x)) := by
  cases hsession : w.screen.view.session with
  | none =>
    have hsame : w.screen.onDraw x = w.screen := by rw [Screen.onDraw, hsession]
    refine ⟨?_, fun hlast ref hof => ?_⟩
    · rw [Watched.record, hsame]
      exact h.last
    · rw [Watched.record, hsame] at hlast hof ⊢
      refine (h.alt hlast ref hof).imp_right fun hleft => ?_
      simp [hleft, Watched.looksAt, hsession]
  | some ref =>
    have halt : ∀ ref', ((w.screen.onDraw x).sessions ref').terminal.altScreenActive =
        (w.screen.sessions ref').terminal.altScreenActive := by
      intro ref'
      rw [terminal_onDraw]
      split_ifs <;> rfl
    refine ⟨?_, fun hlast ref' hof => ?_⟩
    · rw [Watched.record, onDraw_attached hsession]
    · change ((w.screen.onDraw x).sessions ref').terminal.altScreenActive = true ∨
        (w.left ref' && !w.looksAt x ref') = true
      rw [halt]
      rw [Watched.record, onDraw_attached hsession] at hlast hof
      dsimp only at hlast hof
      cases hs : (w.screen.sessions ref).suspended x with
      | true =>
        rw [(header_suspended hs).1, ← h.last] at hlast
        rw [(header_suspended hs).2] at hof
        refine (h.alt hlast ref' hof).imp_right fun hleft => ?_
        have hno : w.looksAt x ref' = false := by
          unfold Watched.looksAt
          rw [hsession]
          by_cases hr : ref = ref'
          · simp [← hr, hs]
          · simp [hr]
        simp [hleft, hno]
      | false =>
        rw [(header_exported hs).2] at hof
        obtain rfl := Option.some.inj hof
        rw [(header_exported hs).1] at hlast
        exact .inl hlast

theorem Recorded.output (h : Recorded w) (ref : SessionRef) (terminal : Terminal) :
    Recorded (w.record (w.screen.setSession ref { w.screen.sessions ref with terminal := terminal })
      (.output ref terminal)) := by
  refine ⟨h.last, fun hlast ref' hof => ?_⟩
  have hbefore := h.alt hlast ref' hof
  change ((w.screen.setSession ref _).sessions ref').terminal.altScreenActive = true ∨
    Function.update w.left ref _ ref' = true
  rw [sessions_setSession]
  by_cases hr : ref' = ref
  · subst hr
    rw [if_pos rfl, Function.update_self]
    dsimp only
    cases hbefore with
    | inl hon =>
      rw [hon]
      cases terminal.altScreenActive <;> simp
    | inr hleft => simp [hleft]
  · rwa [if_neg hr, Function.update_of_ne hr]

theorem Recorded.quiet (h : Recorded w) (hq : Quiet w.screen w'.screen) (hleft : w'.left = w.left) : Recorded w' := by
  refine ⟨by rw [hq.last, hq.frame, h.last], fun hlast ref hof => ?_⟩
  rw [hq.last] at hlast
  rw [hq.frame] at hof
  rw [hq.alt, hleft]
  exact h.alt hlast ref hof

theorem Recorded.step (h : Recorded w) (hs : w.step a = some w') : Recorded w' := by
  obtain ⟨x, -, rfl⟩ | ⟨ref, terminal, -, rfl⟩ | ⟨hq, hleft, -⟩ := Watched.step_cases hs
  · exact h.onDraw x
  · exact h.output ref terminal
  · exact h.quiet hq hleft

/-- Every reset so far went into a session that had left its alternate screen. -/
def Justified (w : Watched) : Prop := ∀ r ∈ w.resets, r.2 = true

theorem Justified.step (hj : Justified w) (h : Recorded w) (hok : AltOfAttached w a) (hs : w.step a = some w') :
    Justified w' := by
  obtain ⟨x, rfl, rfl⟩ | ⟨ref, terminal, -, rfl⟩ | ⟨-, -, hresets⟩ := Watched.step_cases hs
  · intro r hr
    obtain hr | hr := List.mem_append.mp hr
    · exact hj r hr
    · obtain ⟨ref, hfed, rfl⟩ := Option.map_eq_some_iff.mp (Option.mem_toList.mp hr)
      exact left_of_fedReset h hok hfed
  · exact hj
  · rw [Justified, hresets]
    exact hj

/-- The keyboard flags change by output of the session, or by a reset. -/
theorem flags_step (hs : w.step a = some w') (hne : (w'.screen.sessions ref).terminal.kittyKeyboardFlags ≠
      (w.screen.sessions ref).terminal.kittyKeyboardFlags) :
    (∃ terminal, a = .output ref terminal) ∨ ∃ x, a = .onDraw x ∧ w.screen.fedReset x = some ref := by
  obtain ⟨x, rfl, rfl⟩ | ⟨ref', terminal, rfl, rfl⟩ | ⟨hq, -, -⟩ := Watched.step_cases hs
  · refine .inr ⟨x, rfl, by_contra fun hfed => hne ?_⟩
    change ((w.screen.onDraw x).sessions ref).terminal.kittyKeyboardFlags = _
    rw [terminal_onDraw, if_neg hfed]
  · by_cases hr : ref = ref'
    · subst hr
      exact .inl ⟨terminal, rfl⟩
    · refine absurd ?_ hne
      change ((w.screen.setSession ref' _).sessions ref).terminal.kittyKeyboardFlags = _
      rw [sessions_setSession, if_neg hr]
  · exact absurd (hq.flags ref) hne

end Steps

/-- The reset goes only into sessions that have left their alternate screen since a draw last
looked at them, and apart from it only a session's own output changes its keyboard flags. -/
theorem reset_only_after_leave {terminals : SessionRef → Terminal} {acts : List Action} {w : Watched}
    (h : Run (.new terminals) Watched.step AltOfAttached acts w) :
    (∀ r ∈ w.resets, r.2 = true) ∧
    ∀ a w', AltOfAttached w a → w.step a = some w' → ∀ ref,
      (w'.screen.sessions ref).terminal.kittyKeyboardFlags ≠ (w.screen.sessions ref).terminal.kittyKeyboardFlags →
      (∃ terminal, a = .output ref terminal) ∨
      ∃ x, a = .onDraw x ∧ w.screen.fedReset x = some ref ∧ w.left ref = true := by
  have hinv : Recorded w ∧ Justified w := by
    refine h.inv (fun w => Recorded w ∧ Justified w) ⟨Recorded.new terminals, nofun⟩ ?_
    intro w a w' hw hok hs
    exact ⟨hw.1.step hs, hw.2.step hw.1 hok hs⟩
  refine ⟨hinv.2, fun a w' hok hs ref hne => ?_⟩
  refine (flags_step hs hne).imp_right fun hdraw => ?_
  obtain ⟨x, rfl, hfed⟩ := hdraw
  exact ⟨x, rfl, hfed, left_of_fedReset hinv.1 hok hfed⟩

/-- A terminal with the keyboard flags of a program that reports escape codes unambiguously. -/
def keyboardTerminal (altScreenActive : Bool) : Terminal :=
  { blankTerminal false with altScreenActive := altScreenActive, kittyKeyboardFlags := 1 }

/-- No array could be pinned: the header is exported, and no cell. -/
def headerExport : Export := ⟨2000, true, fun _ => false⟩

def leaveEditor : List Action :=
  [.attachSession (some 0) (some smallLayout), .onDraw headerExport, .output 0 (keyboardTerminal false),
    .onDraw headerExport]

theorem reset_only_after_leave_editor :
    ∃ w, Run (.new fun _ => keyboardTerminal true) Watched.step AltOfAttached leaveEditor w ∧
    w.resets = [(0, true)] ∧ ∀ r ∈ w.resets, r.2 = true := by
  obtain ⟨w, hrun, hresets⟩ : ∃ w,
      Run (.new fun _ => keyboardTerminal true) Watched.step AltOfAttached leaveEditor w ∧ w.resets = [(0, true)] :=
    exists_run_of_exec (by decide)
  exact ⟨w, hrun, hresets, (reset_only_after_leave hrun).1⟩

/-- After a switch from a session on its alternate screen, the flags of the other session are
reset, which was on its primary screen all the time. -/
theorem switch_resets_flags :
    ∃ w, Run (.new fun ref => keyboardTerminal (ref = 0)) Watched.step anyStep switchSessions w ∧
    w.resets = [(1, false)] ∧ (w.screen.sessions 1).terminal.kittyKeyboardFlags = 0 :=
  exists_run_of_exec (by set_option maxRecDepth 20000 in decide)

end Tinyhack.Views
