import TinyhackSsh.Proofs.Drawing

/-! The frame after an `updateRenderFrame` that returns false. The frame is given the
session's size before the native side decides whether to export into it. -/

namespace Tinyhack.Views

open Runs
open Sessions (SessionRef)

/-- The frame has the session's size already, and room for it. -/
def Session.Fits (s : Session) (f : RenderFrame) : Prop :=
  f.size.cols = s.cols ∧ f.size.rows = s.rows ∧ wrap32 (s.cols * s.rows) ≤ f.size.cells ∧
    s.rows ≤ f.size.dirtyRows ∧ s.rows ≤ f.size.rowSemanticPrompt

theorem grow_eq_self {length : ℕ} {wanted : ℤ} : Render.grow length wanted = length ↔ wanted ≤ length := by
  unfold Render.grow
  split_ifs <;> omega

theorem ensureCapacity_size (s : Session) (f : RenderFrame) :
    Render.ensureCapacity f.size s.cols s.rows = f.size ↔ s.Fits f := by
  obtain ⟨⟨cols, rows, cells, dirtyRows, rowSemanticPrompt⟩, _⟩ := f
  simp only [Render.ensureCapacity, Render.Frame.mk.injEq, grow_eq_self, Session.Fits]
  rw [eq_comm (a := s.cols), eq_comm (a := s.rows)]

/-- A frame is left as it is exactly if its size is. -/
theorem ensureCapacity_eq_self (s : Session) (f : RenderFrame) : f.ensureCapacity s.cols s.rows = f ↔ s.Fits f := by
  rw [← ensureCapacity_size]
  constructor
  · intro h
    exact congrArg RenderFrame.size h
  · intro h
    unfold RenderFrame.ensureCapacity
    simp only [h, if_true]

theorem updateRenderFrameResult_eq (s : Session) (x : Export) : s.updateRenderFrameResult x = !s.suspended x := by
  unfold Session.updateRenderFrameResult Session.nativeUpdateRenderResult Session.suspended
  cases s.isClosed <;> cases s.terminal.syncOutput <;> cases x.updates <;> rfl

/-- The frame after a call that returns false. -/
theorem updateRenderFrame_false {s : Session} {ref : SessionRef} {x : Export} {f : RenderFrame}
    (h : s.updateRenderFrameResult x = false) :
    (s.updateRenderFrame ref x f).2 = if s.isClosed then f else f.ensureCapacity s.cols s.rows := by
  have hs : s.suspended x = true := by simpa [updateRenderFrameResult_eq] using h
  unfold Session.updateRenderFrame
  split_ifs
  · rfl
  · rw [nativeUpdateRender_suspended hs]

theorem updateRenderFrame_unchanged {s : Session} (ref : SessionRef) {x : Export} {f : RenderFrame}
    (h : s.updateRenderFrameResult x = false) (hfits : s.isClosed = true ∨ s.Fits f) :
    (s.updateRenderFrame ref x f).2 = f := by
  rw [updateRenderFrame_false h]
  split_ifs with hclosed
  · rfl
  · exact (ensureCapacity_eq_self s f).mpr (hfits.resolve_left hclosed)

/-- A call that returns false leaves the frame as it is exactly if the session is closed, or the frame
fits the session; and a call in which nothing holds back the export does not return false. -/
theorem updateRenderFrame_unchanged_iff (s : Session) (ref : SessionRef) (x : Export) (f : RenderFrame) :
    (s.updateRenderFrameResult x = false → (s.updateRenderFrame ref x f).2 = f) ↔
      s.isClosed = true ∨ (s.terminal.syncOutput = false ∧ x.updates = true) ∨ s.Fits f := by
  cases hresult : s.updateRenderFrameResult x with
  | true =>
    have hopen : s.suspended x = false := by simpa [updateRenderFrameResult_eq] using hresult
    simp only [Session.suspended, Bool.or_eq_false_iff, Bool.not_eq_false'] at hopen
    exact iff_of_true (by simp) (.inr (.inl ⟨hopen.1.2, hopen.2⟩))
  | false =>
    have hheld : s.suspended x = true := by simpa [updateRenderFrameResult_eq] using hresult
    rw [updateRenderFrame_false hresult]
    by_cases hclosed : s.isClosed = true
    · exact iff_of_true (fun _ => if_pos hclosed) (.inl hclosed)
    · have hnot : ¬(s.terminal.syncOutput = false ∧ x.updates = true) := by
        rintro ⟨hsync, hupdates⟩
        simp [Session.suspended, hclosed, hsync, hupdates] at hheld
      rw [if_neg hclosed, ensureCapacity_eq_self, or_iff_right hclosed, or_iff_right hnot]
      exact ⟨fun h => h rfl, fun h _ => h⟩

/-- A session made one column narrower in synchronized output. -/
def narrowedSession : Session := (Session.new (blankTerminal true)).resize 24 79 10 20 true

/-- The call returns false, and rows of 80 cells are now read as rows of 79. -/
theorem updateRenderFrame_resizes :
    narrowedSession.updateRenderFrameResult plainExport = false ∧ RenderFrame.new.size.cols = 80 ∧
      (narrowedSession.updateRenderFrame 0 plainExport .new).2.size.cols = 79 := by
  decide

/-! ### Draws in a row -/

/-- A screen, with the frame as the last export into it left it. -/
structure Tracked where
  screen : Screen
  exported : Option RenderFrame

/-- The action is a draw that exports. -/
def exports (st : Screen) : Action → Bool
  | .onDraw x => st.view.session.any fun ref => (st.sessions ref).updateRenderFrameResult x
  | _ => false

def trackStep (t : Tracked) (act : Action) : Option Tracked :=
  (step t.screen act).map fun st => ⟨st, if exports t.screen act then some st.view.renderFrame else t.exported⟩

/-- A draw that does not export finds a closed session, or a frame that fits. -/
def FitsHeldBack (t : Tracked) : Action → Prop
  | .onDraw x => ∀ ref ∈ t.screen.view.session, (t.screen.sessions ref).updateRenderFrameResult x = false →
      (t.screen.sessions ref).isClosed = true ∨ (t.screen.sessions ref).Fits t.screen.view.renderFrame
  | _ => True

theorem step_renderFrame {st st' : Screen} {act : Action} (hdraw : ∀ x, act ≠ .onDraw x) (hs : step st act = some st') :
    st'.view.renderFrame = st.view.renderFrame := by
  cases act with
  | onDraw x => exact absurd rfl (hdraw x)
  | attachSession newSession layout =>
    obtain rfl := Option.some.inj hs
    unfold Screen.attachSession
    cases newSession <;> cases layout <;> rfl
  | sizeChanged l =>
    obtain rfl := Option.some.inj hs
    cases st.view.session <;> rfl
  | blink | output | exportElsewhere | close =>
    obtain rfl := Option.some.inj hs
    rfl

theorem onDraw_renderFrame (st : Screen) (x : Export) (ref : SessionRef) (h : st.view.session = some ref) :
    (st.onDraw x).view.renderFrame = ((st.sessions ref).updateRenderFrame ref x st.view.renderFrame).2 := by
  simp only [Screen.onDraw, h]

/-- While no draw is held back with a frame of another size, the frame is the one last exported. -/
theorem run_shows_last_export (terminals : SessionRef → Terminal) (acts : List Action) (t : Tracked)
    (hrun : Run ⟨Screen.new terminals, none⟩ trackStep FitsHeldBack acts t) :
    ∀ f, t.exported = some f → t.screen.view.renderFrame = f := by
  apply hrun.inv (fun t => ∀ f, t.exported = some f → t.screen.view.renderFrame = f)
  · intro f hf
    cases hf
  · intro t act t' ih hok hstep
    obtain ⟨st, hs, rfl⟩ := Option.map_eq_some_iff.mp hstep
    intro f hf
    dsimp only at hf ⊢
    split_ifs at hf with hexports
    · exact Option.some.inj hf
    · rw [← ih f hf]
      by_cases hdraw : ∃ x, act = .onDraw x
      · obtain ⟨x, rfl⟩ := hdraw
        obtain rfl := Option.some.inj hs
        cases hsession : t.screen.view.session with
        | none => simp only [Screen.onDraw, hsession]
        | some ref =>
          have hfalse : (t.screen.sessions ref).updateRenderFrameResult x = false := by
            simpa [exports, hsession] using hexports
          rw [onDraw_renderFrame _ _ ref hsession]
          refine (updateRenderFrame_unchanged ref hfalse ?_)
          exact hok ref hsession hfalse
      · exact step_renderFrame (fun x hx => hdraw ⟨x, hx⟩) hs

end Tinyhack.Views
