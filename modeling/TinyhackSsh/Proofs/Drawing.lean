import TinyhackSsh.Spec.TerminalView
import TinyhackSsh.Proofs.RenderBounds
import TinyhackSsh.Proofs.KittyExport

/-! What a draw shows. A complete export replaces all that is painted. A draw without an
export shows what is left in the frame, of whichever session that is; `attachSession`
does not clear it. -/

namespace Tinyhack.Views

open Runs
open Sessions (SessionRef)
open Render (Target Effect Wrote)

/-- No frame is exported: the session is closed, holds back its output, or the update fails. -/
def Session.suspended (s : Session) (x : Export) : Bool := s.isClosed || s.terminal.syncOutput || !x.updates

/-- The size that a draw without an export gives the frame. -/
def Session.region (s : Session) (f : RenderFrame) : ℕ :=
  if s.isClosed then f.size.rows.toNat * f.size.cols.toNat else s.rows.toNat * s.cols.toNat

/-- The cells are exported, or the last cells exported were the session's and cover the frame. -/
def Session.CellsOk (s : Session) (ref : SessionRef) (x : Export) (f : RenderFrame) : Prop :=
  (s.suspended x = false ∧ Session.pinsAll x = true) ∨
  (s.suspended x = true ∧ f.exportOf.any fun e => decide (e.1 = ref ∧ s.region f ≤ e.2))

/-- The placements are exported, or there are none of another session. -/
def Session.PlacementsOk (s : Session) (ref : SessionRef) (x : Export) (f : RenderFrame) : Prop :=
  f.placements = [] ∨ f.placementsOf = some ref ∨
  (s.suspended x = false ∧ s.terminal.graphics = true ∧ (s.call x f).complete = true ∧
    ((s.terminal.placements.any fun p => ((s.call x f).visible p).isSome) = true ∨ (s.call x f).receiving = false))

/-- The draw shows the attached session. -/
def DrawOk (st : Screen) : Action → Prop
  | .onDraw x => ∀ ref ∈ st.view.session,
    (st.sessions ref).CellsOk ref x st.view.renderFrame ∧ (st.sessions ref).PlacementsOk ref x st.view.renderFrame
  | _ => True

instance (s : Session) (ref : SessionRef) (x : Export) (f : RenderFrame) : Decidable (s.CellsOk ref x f) :=
  inferInstanceAs (Decidable (_ ∨ _))

instance (s : Session) (ref : SessionRef) (x : Export) (f : RenderFrame) : Decidable (s.PlacementsOk ref x f) :=
  inferInstanceAs (Decidable (_ ∨ _ ∨ _))

instance (st : Screen) : ∀ act, Decidable (DrawOk st act)
  | .onDraw _ => inferInstanceAs (Decidable (∀ ref ∈ st.view.session, _))
  | .attachSession _ _ | .blink _ | .sizeChanged _ | .output _ _ | .exportElsewhere _ _ | .close _ => isTrue trivial

/-- The frame's records are right. -/
structure Sound (f : RenderFrame) : Prop where
  header : ∀ ref n, f.exportOf = some (ref, n) → f.headerOf = some ref
  fits : ∀ ref n, f.exportOf = some (ref, n) → n ≤ f.size.cells
  cells : ∀ ref n, f.exportOf = some (ref, n) → ∀ t ∈ paintedTargets, ∀ i < n, (f.cell t i).map Prod.fst = some ref

/-- All that is painted is the session's. -/
structure Own (f : RenderFrame) (ref : SessionRef) : Prop where
  header : f.headerOf = some ref
  cells : ∀ t ∈ paintedTargets, ∀ i < f.size.rows.toNat * f.size.cols.toNat, i < f.size.cells →
    (f.cell t i).map Prod.fst = some ref
  placements : f.placements = [] ∨ f.placementsOf = some ref

theorem length_of_painted {t : Target} (ht : t ∈ paintedTargets) (size : Render.Frame) :
    size.length t = size.cells := by
  cases t <;> first | rfl | simp [paintedTargets] at ht

section Paint

variable {f : RenderFrame} {ref : SessionRef}

theorem paintCell_own (h : Own f ref) {t : Target} {i : ℕ} (ht : t ∈ paintedTargets)
    (hi : i < f.size.rows.toNat * f.size.cols.toNat) (hlt : i < f.size.cells) :
    (f.paintCell t i).origin = some ref := h.cells t ht i hi hlt

theorem index_lt {r c rows cols : ℕ} (hr : r < rows) (hc : c < cols) : r * cols + c < rows * cols :=
  calc r * cols + c < r * cols + cols := Nat.add_lt_add_left hc _
    _ = (r + 1) * cols := (Nat.succ_mul r cols).symm
    _ ≤ rows * cols := Nat.mul_le_mul_right cols hr

theorem paintRow_own (h : Own f ref) {r : ℕ} (hr : r < f.size.rows.toNat) {x : Painted} (hx : x ∈ f.paintRow r) :
    x.origin = some ref := by
  obtain ⟨i, hi, hx⟩ := List.mem_flatMap.mp hx
  obtain ⟨t, ht, rfl⟩ := List.mem_map.mp hx
  have hlt : i < f.size.cells := of_decide_eq_true (List.all_eq_true.mp List.all_takeWhile i hi)
  obtain ⟨c, hc, rfl⟩ := List.mem_map.mp ((List.takeWhile_sublist _).subset hi)
  exact paintCell_own h ht (index_lt hr (List.mem_range.mp hc)) hlt

theorem drawKittyPlacements_own (h : Own f ref) {negativeZ : Bool} {x : Painted}
    (hx : x ∈ f.drawKittyPlacements negativeZ) : x.origin = some ref := by
  obtain ⟨p, hp, rfl⟩ := List.mem_map.mp hx
  obtain hnone | hof := h.placements
  · rw [hnone] at hp
    cases hp
  · exact hof

theorem drawCursor_own (h : Own f ref) {blinkState : Bool} {x : Painted} (hx : x ∈ f.drawCursor blinkState) :
    x.origin = some ref := by
  unfold RenderFrame.drawCursor at hx
  dsimp only at hx
  split_ifs at hx with hshown hblock
  · obtain rfl | hx := List.mem_cons.mp hx
    · exact h.header
    · rw [List.mem_singleton.mp hx]
      obtain ⟨hcol, hrow⟩ := of_decide_eq_true (Bool.and_eq_true_iff.mp hshown).2
      exact paintCell_own h (by simp [paintedTargets]) (index_lt (by omega) (by omega)) hblock.2.2.2.1
  · rw [List.mem_singleton.mp hx]
    exact h.header
  · cases hx

theorem paint_own (h : 0 < f.size.cols → 0 < f.size.rows → Own f ref) (blinkState : Bool) :
    ∀ x ∈ f.paint blinkState, x.origin = some ref := by
  intro x hx
  unfold RenderFrame.paint at hx
  split_ifs at hx with hempty
  · cases hx
  obtain ⟨hcols, hrows⟩ := not_or.mp hempty
  have hown := h (not_le.mp hcols) (not_le.mp hrows)
  simp only [List.cons_append, List.mem_cons, List.mem_append, List.mem_flatMap, List.mem_range] at hx
  obtain rfl | ((hx | ⟨r, hr, hx⟩) | hx) | hx := hx
  · exact hown.header
  · exact drawKittyPlacements_own hown hx
  · exact paintRow_own hown hr hx
  · exact drawKittyPlacements_own hown hx
  · exact drawCursor_own hown hx

end Paint

section Export

variable {f : RenderFrame} {ref : SessionRef}

/-- The effects of an export change the cells that they write, and nothing else. -/
theorem foldl_apply (ref : SessionRef) (f : RenderFrame) (es : List Effect) :
    ∃ cell, es.foldl (fun f e => f.apply ref e) f = { f with cell := cell } ∧
    ∀ t i, i < f.size.length t → (Wrote es t i ∨ (f.cell t i).map Prod.fst = some ref) →
      (cell t i).map Prod.fst = some ref := by
  induction es generalizing f with
  | nil =>
    refine ⟨f.cell, rfl, fun t i _ h => ?_⟩
    exact h.resolve_left Render.not_wrote_nil
  | cons e es ih =>
    rw [List.foldl_cons]
    cases e with
    | graphemesBuf len =>
      obtain ⟨cell, heq, hcell⟩ := ih (f := f)
      refine ⟨cell, heq, fun t i hi h => hcell t i hi (h.imp_left ?_)⟩
      rintro ⟨v, hv⟩
      exact ⟨v, by simpa using hv⟩
    | write target index value =>
      unfold RenderFrame.apply
      dsimp only
      split_ifs with hlt
      · obtain ⟨cell, heq, hcell⟩ := ih (f := { f with
          cell := Function.update f.cell target (Function.update (f.cell target) index (some (ref, value))) })
        refine ⟨cell, heq, fun t i hi h => hcell t i hi ?_⟩
        by_cases hhere : t = target ∧ i = index
        · obtain ⟨rfl, rfl⟩ := hhere
          exact .inr (by simp)
        · rw [Render.wrote_cons_write] at h
          refine (h.imp_left fun h => h.resolve_left hhere).imp_right fun h => ?_
          rw [← h]
          by_cases ht : t = target
          · subst ht
            simp only [Function.update_self]
            rw [Function.update_of_ne fun hi => hhere ⟨rfl, hi⟩]
          · simp only [Function.update_of_ne ht]
      · obtain ⟨cell, heq, hcell⟩ := ih (f := f)
        refine ⟨cell, heq, fun t i hi h => hcell t i hi (h.imp_left fun h => ?_)⟩
        rw [Render.wrote_cons_write] at h
        refine h.resolve_left ?_
        rintro ⟨rfl, rfl⟩
        exact hlt hi

theorem ensureCapacity_sound (h : Sound f) (cols rows : ℤ) : Sound (f.ensureCapacity cols rows) := by
  have hsame : ∀ e, (f.ensureCapacity cols rows).exportOf = some e →
      (f.ensureCapacity cols rows).size.cells = f.size.cells ∧ f.exportOf = some e := by
    intro e he
    unfold RenderFrame.ensureCapacity at he ⊢
    dsimp only at he ⊢
    split_ifs at he with hcells
    exact ⟨hcells, he⟩
  refine ⟨fun ref n he => h.header ref n (hsame _ he).2, fun ref n he => ?_, fun ref n he t ht i hi => ?_⟩
  · rw [(hsame _ he).1]
    exact h.fits ref n (hsame _ he).2
  · obtain ⟨hcells, he⟩ := hsame _ he
    rw [← h.cells ref n he t ht i hi]
    unfold RenderFrame.ensureCapacity at hcells ⊢
    dsimp only at hcells ⊢
    rw [length_of_painted ht, length_of_painted ht, if_pos hcells]

theorem wrap32_le {n : ℤ} (h : 0 ≤ n) : wrap32 n ≤ n := by
  unfold wrap32
  omega

/-- A frame that is large enough keeps its arrays. -/
theorem ensureCapacity_kept {cols rows : ℤ} (hcols : 0 ≤ cols) (hrows : 0 ≤ rows)
    (hfits : rows.toNat * cols.toNat ≤ f.size.cells) : (f.ensureCapacity cols rows).size.cells = f.size.cells := by
  have hprod : cols * rows = ((rows.toNat * cols.toNat : ℕ) : ℤ) := by
    rw [Nat.cast_mul, Int.toNat_of_nonneg hrows, Int.toNat_of_nonneg hcols, mul_comm]
  have hle : wrap32 (cols * rows) ≤ f.size.cells := by
    refine (wrap32_le (mul_nonneg hcols hrows)).trans ?_
    rw [hprod]
    exact_mod_cast hfits
  exact if_neg (not_lt.mpr hle)

variable {s : Session} {x : Export}

theorem nativeUpdateRender_suspended (h : s.suspended x = true) : s.nativeUpdateRender ref x f = (s, f) := if_pos h

theorem nativeUpdateRender_exports (h : s.suspended x = false) : s.nativeUpdateRender ref x f =
    s.exportPlacements ref x (s.exportCells ref x (s.exportHeader ref x f)) :=
  if_neg (by simpa [Session.suspended] using h)

/-- The cells are exported to wherever they are painted from. -/
theorem exportCells_eq (s : Session) (ref : SessionRef) (x : Export) (f : RenderFrame) :
    ∃ cell, s.exportCells ref x f = { f with cell := cell } ∧
    (Session.pinsAll x = true → ∀ t ∈ paintedTargets, ∀ i < s.terminal.rows * s.terminal.cols, i < f.size.cells →
      (cell t i).map Prod.fst = some ref) := by
  unfold Session.exportCells
  split_ifs with hcells
  · obtain ⟨cell, heq, hcell⟩ := foldl_apply ref f ((s.input x).effects s.terminal.rows s.terminal.cols)
    refine ⟨cell, heq, fun hpins t ht i hi hlt => hcell t i ?_ (.inl ((Render.wrote_effects _ _).mpr ?_))⟩
    · rwa [length_of_painted ht]
    · rw [Session.pinsAll, Bool.and_eq_true_iff, Bool.and_eq_true_iff] at hpins
      obtain ⟨⟨-, hstyles⟩, hcolors⟩ := hpins
      have hactive : (s.input x).active t = true := by
        cases t <;> first | rfl | exact hstyles | exact hcolors | simp [paintedTargets] at ht
      have hrow : t.isRow = false := by
        cases t <;> first | rfl | simp [paintedTargets] at ht
      refine ⟨hactive, ?_⟩
      rw [Target.first, hrow]
      exact hi
  · refine ⟨f.cell, rfl, fun hpins => absurd ?_ hcells⟩
    exact (Bool.and_eq_true_iff.mp (Bool.and_eq_true_iff.mp hpins).1).1

/-- The placements are left, or replaced. -/
theorem exportPlacements_eq (s : Session) (ref : SessionRef) (x : Export) (f : RenderFrame) :
    (s.exportPlacements ref x f).1 = { s with native := (Kitty.updateKittyGraphics s.native (s.call x f)).1 } ∧
    ((Kitty.updateKittyGraphics s.native (s.call x f)).2 = none ∧ (s.exportPlacements ref x f).2 = f ∨
      ∃ placed, (s.exportPlacements ref x f).2 = { f with placements := placed, placementsOf := some ref }) := by
  unfold Session.exportPlacements
  cases Kitty.updateKittyGraphics s.native (s.call x f) with
  | mk native stored =>
    cases stored with
    | none => exact ⟨rfl, .inl ⟨rfl, rfl⟩⟩
    | some placed => exact ⟨rfl, .inr ⟨placed, rfl⟩⟩

/-- The cells and the header are the session's. -/
theorem exportCells_sound : Sound (s.exportCells ref x (s.exportHeader ref x f)) := by
  obtain ⟨cell, heq, hcell⟩ := exportCells_eq s ref x (s.exportHeader ref x f)
  rw [heq]
  have hexport : ∀ ref' n, (s.exportHeader ref x f).exportOf = some (ref', n) →
      Session.pinsAll x = true ∧ ref' = ref ∧ n = min (s.terminal.rows * s.terminal.cols) f.size.cells := by
    intro ref' n he
    unfold Session.exportHeader at he
    dsimp only at he
    split_ifs at he with hpins
    obtain ⟨rfl, rfl⟩ := Prod.mk.inj (Option.some.inj he)
    exact ⟨hpins, rfl, rfl⟩
  refine ⟨fun ref' n he => ?_, fun ref' n he => ?_, fun ref' n he t ht i hi => ?_⟩
  all_goals obtain ⟨hpins, rfl, rfl⟩ := hexport _ _ he
  · rfl
  · exact min_le_right _ _
  · exact hcell hpins t ht i (hi.trans_le (min_le_left _ _)) (hi.trans_le (min_le_right _ _))

theorem Sound.placements (h : Sound f) (placed : List Kitty.Placed) (of : Option SessionRef) :
    Sound { f with placements := placed, placementsOf := of } := ⟨h.header, h.fits, h.cells⟩

theorem nativeUpdateRender_sound (h : Sound f) : Sound (s.nativeUpdateRender ref x f).2 := by
  cases hs : s.suspended x with
  | true =>
    rw [nativeUpdateRender_suspended hs]
    exact h
  | false =>
    rw [nativeUpdateRender_exports hs]
    obtain ⟨-, ⟨-, heq⟩ | ⟨placed, heq⟩⟩ := exportPlacements_eq s ref x
      (s.exportCells ref x (s.exportHeader ref x f))
    · rw [heq]
      exact exportCells_sound
    · rw [heq]
      exact exportCells_sound.placements placed _

theorem updateRenderFrame_sound (s : Session) (ref : SessionRef) (x : Export) (h : Sound f) :
    Sound (s.updateRenderFrame ref x f).2 := by
  unfold Session.updateRenderFrame
  split_ifs
  · exact h
  · exact nativeUpdateRender_sound (ensureCapacity_sound h _ _)

/-- A frame without an export, when the cells in it are the session's. -/
theorem own_of_suspended (h : Sound f) (hs : s.suspended x = true)
    (hexport : f.exportOf.any (fun e => decide (e.1 = ref ∧ s.region f ≤ e.2)) = true)
    (hplacements : f.placements = [] ∨ f.placementsOf = some ref) :
    0 < (s.updateRenderFrame ref x f).2.size.cols → 0 < (s.updateRenderFrame ref x f).2.size.rows →
      Own (s.updateRenderFrame ref x f).2 ref := by
  obtain ⟨⟨ref', n⟩, he, hcover⟩ := (Option.any_eq_true _ _).mp hexport
  obtain ⟨rfl, hregion⟩ := of_decide_eq_true hcover
  have hfits := h.fits _ _ he
  unfold Session.updateRenderFrame Session.region at *
  split_ifs with hclosed
  · rw [if_pos hclosed] at hregion
    exact fun _ _ => ⟨h.header _ _ he, fun t ht i hi _ => h.cells _ _ he t ht i (hi.trans_le hregion), hplacements⟩
  · rw [if_neg hclosed] at hregion
    rw [nativeUpdateRender_suspended hs]
    intro hcols hrows
    have hcols : 0 < s.cols := hcols
    have hrows : 0 < s.rows := hrows
    have hkept := ensureCapacity_kept (f := f) hcols.le hrows.le (hregion.trans hfits)
    refine ⟨h.header _ _ he, fun t ht i hi _ => ?_, hplacements⟩
    have hcell : (f.ensureCapacity s.cols s.rows).cell t = f.cell t := by
      have hlength : (f.ensureCapacity s.cols s.rows).size.length t = f.size.length t := by
        rw [length_of_painted ht, length_of_painted ht, hkept]
      exact if_pos hlength
    rw [hcell]
    exact h.cells _ _ he t ht i (hi.trans_le hregion)

theorem exportPlacements_own (howns : Kitty.Owns s.native) (hsized : Kitty.Sized s.native)
    (hplacements : s.PlacementsOk ref x f) :
    (s.exportPlacements ref x f).2.placements = [] ∨ (s.exportPlacements ref x f).2.placementsOf = some ref := by
  obtain ⟨-, ⟨hleft, heq⟩ | ⟨placed, heq⟩⟩ := exportPlacements_eq s ref x f
  · rw [heq]
    obtain hnone | hof | ⟨-, hgraphics, hcomplete, hquiet⟩ := hplacements
    · exact .inl hnone
    · exact .inr hof
    · have hquiet' : (∃ p ∈ (s.call x f).placements, (s.call x f).visible p ≠ none) ∨
          (s.call x f).receiving = false := by
        refine hquiet.imp_left fun hany => ?_
        obtain ⟨p, hp, hvisible⟩ := List.any_eq_true.mp hany
        exact ⟨p, hp, fun hnone => by simp [hnone] at hvisible⟩
      obtain ⟨placed, hstored⟩ :=
        Kitty.update_complete hsized howns hcomplete hgraphics (by decide : 0 < 16) hquiet'
      rw [hleft] at hstored
      cases hstored
  · rw [heq]
    exact .inr rfl

/-- A frame after a whole export. -/
theorem own_of_export (howns : Kitty.Owns s.native) (hsized : Kitty.Sized s.native) (hs : s.suspended x = false)
    (hpins : Session.pinsAll x = true) (hplacements : s.PlacementsOk ref x f) :
    Own (s.updateRenderFrame ref x f).2 ref := by
  have hopen : s.isClosed = false := (Bool.or_eq_false_iff.mp (Bool.or_eq_false_iff.mp hs).1).1
  have hcall : ∀ f', f'.placements = f.placements → f'.placementsOf = f.placementsOf → s.PlacementsOk ref x f' := by
    intro f' hsame hof
    unfold Session.PlacementsOk Session.call at hplacements ⊢
    rwa [hsame, hof]
  rw [Session.updateRenderFrame, if_neg (by simp [hopen]), nativeUpdateRender_exports hs]
  obtain ⟨cell, heq, hcell⟩ := exportCells_eq s ref x
    (s.exportHeader ref x (f.ensureCapacity s.cols s.rows))
  rw [heq]
  have hown := exportPlacements_own howns hsized (hcall
    { s.exportHeader ref x (f.ensureCapacity s.cols s.rows) with cell := cell } rfl rfl)
  obtain ⟨-, ⟨-, heq'⟩ | ⟨placed, heq'⟩⟩ := exportPlacements_eq s ref x
    { s.exportHeader ref x (f.ensureCapacity s.cols s.rows) with cell := cell }
  all_goals
    rw [heq'] at hown ⊢
    exact ⟨rfl, hcell hpins, hown⟩

end Export

section Runs

variable {st st' : Screen} {act : Action} {terminals : SessionRef → Terminal} {acts : List Action}

/-- The frame's records are right, and so are the sessions' bitmap caches. -/
structure Inv (st : Screen) : Prop where
  sound : Sound st.view.renderFrame
  owns : ∀ ref, Kitty.Owns (st.sessions ref).native
  sized : ∀ ref, Kitty.Sized (st.sessions ref).native

theorem inv_new (terminals : SessionRef → Terminal) : Inv (Screen.new terminals) where
  sound := by
    constructor
    all_goals
      intro ref n he
      cases he
  owns := fun _ => Kitty.owns_init
  sized := fun _ => Kitty.sized_init

/-- A session is replaced by one whose cache is as good. -/
theorem Inv.setSession (h : Inv st) {ref : SessionRef} {s : Session} (howns : Kitty.Owns s.native)
    (hsized : Kitty.Sized s.native) : Inv (st.setSession ref s) := by
  refine ⟨h.sound, fun ref' => ?_, fun ref' => ?_⟩
  all_goals
    unfold Screen.setSession
    dsimp only
    by_cases heq : ref' = ref
    · subst heq
      rwa [Function.update_self]
  · rw [Function.update_of_ne heq]
    exact h.owns ref'
  · rw [Function.update_of_ne heq]
    exact h.sized ref'

theorem resize_native (s : Session) (rows cols cellWidth cellHeight : ℤ) (ok : Bool) :
    (s.resize rows cols cellWidth cellHeight ok).native = s.native := by
  unfold Session.resize
  split_ifs <;> rfl

theorem Inv.resizeTo (h : Inv st) (ref : SessionRef) (l : Screen.Layout) : Inv (st.resizeTo ref l) := by
  refine h.setSession ?_ ?_
  · rw [resize_native]
    exact h.owns ref
  · rw [resize_native]
    exact h.sized ref

theorem updateRenderFrame_native (s : Session) (ref : SessionRef) (x : Export) (f : RenderFrame) :
    (s.updateRenderFrame ref x f).1.native = s.native ∨
    ∃ call, (s.updateRenderFrame ref x f).1.native = (Kitty.updateKittyGraphics s.native call).1 := by
  unfold Session.updateRenderFrame
  split_ifs
  · exact .inl rfl
  cases hs : s.suspended x with
  | true =>
    rw [nativeUpdateRender_suspended hs]
    exact .inl rfl
  | false =>
    rw [nativeUpdateRender_exports hs, (exportPlacements_eq _ _ _ _).1]
    exact .inr ⟨_, rfl⟩

theorem onDraw_inv (h : Inv st) (x : Export) : Inv (st.onDraw x) := by
  unfold Screen.onDraw
  cases hsession : st.view.session with
  | none => exact h
  | some ref =>
    have hsound := updateRenderFrame_sound (st.sessions ref) ref x h.sound
    have hnative : Kitty.Owns ((st.sessions ref).updateRenderFrame ref x st.view.renderFrame).1.native ∧
        Kitty.Sized ((st.sessions ref).updateRenderFrame ref x st.view.renderFrame).1.native := by
      obtain heq | ⟨call, heq⟩ := updateRenderFrame_native (st.sessions ref) ref x st.view.renderFrame
      · rw [heq]
        exact ⟨h.owns ref, h.sized ref⟩
      · rw [heq]
        exact ⟨(Kitty.update_keeps (h.owns ref) call).1, Kitty.update_sized (h.sized ref) (h.owns ref) call⟩
    dsimp only
    refine ⟨hsound, ?_, ?_⟩
    · refine (h.setSession ?_ ?_).owns
      all_goals split_ifs
      · exact hnative.1
      · exact hnative.1
      · exact hnative.2
      · exact hnative.2
    · refine (h.setSession ?_ ?_).sized
      all_goals split_ifs
      · exact hnative.1
      · exact hnative.1
      · exact hnative.2
      · exact hnative.2

theorem step_inv (h : Inv st) (hs : step st act = some st') : Inv st' := by
  cases act with
  | attachSession newSession layout =>
    obtain rfl := Option.some.inj hs
    have hview : Inv { st with view := st.view.attachSession newSession } := ⟨h.sound, h.owns, h.sized⟩
    unfold Screen.attachSession
    cases newSession with
    | none => exact hview
    | some ref =>
      cases layout with
      | none => exact hview
      | some l => exact hview.resizeTo ref l
  | onDraw x =>
    obtain rfl := Option.some.inj hs
    exact onDraw_inv h x
  | blink state =>
    obtain rfl := Option.some.inj hs
    exact ⟨h.sound, h.owns, h.sized⟩
  | sizeChanged l =>
    obtain rfl := Option.some.inj hs
    cases st.view.session with
    | none => exact h
    | some ref => exact h.resizeTo ref l
  | output ref terminal =>
    obtain rfl := Option.some.inj hs
    exact h.setSession (h.owns ref) (h.sized ref)
  | exportElsewhere ref call =>
    obtain rfl := Option.some.inj hs
    exact h.setSession (Kitty.update_keeps (h.owns ref) call).1 (Kitty.update_sized (h.sized ref) (h.owns ref) call)
  | close ref =>
    obtain rfl := Option.some.inj hs
    exact h.setSession (h.owns ref) (h.sized ref)

/-- Each draw so far showed the session that was attached. -/
def ShowsAttached (st : Screen) : Prop := ∀ d ∈ st.drawn, ∀ x ∈ d.2, x.origin = some d.1

theorem onDraw_shows (h : Inv st) (hshows : ShowsAttached st) {x : Export} (hok : DrawOk st (.onDraw x)) :
    ShowsAttached (st.onDraw x) := by
  unfold Screen.onDraw
  cases hsession : st.view.session with
  | none => exact hshows
  | some ref =>
    obtain ⟨hcells, hplacements⟩ := hok ref hsession
    intro d hd
    obtain hd | hd := List.mem_append.mp hd
    · exact hshows d hd
    rw [List.mem_singleton.mp hd]
    refine paint_own ?_ _
    obtain ⟨hs, hpins⟩ | ⟨hs, hexport⟩ := hcells
    · exact fun _ _ => own_of_export (h.owns ref) (h.sized ref) hs hpins hplacements
    · refine own_of_suspended h.sound hs hexport ?_
      obtain hnone | hof | ⟨hs', -⟩ := hplacements
      · exact .inl hnone
      · exact .inr hof
      · rw [hs] at hs'
        cases hs'

theorem step_shows (h : Inv st) (hshows : ShowsAttached st) (hok : DrawOk st act) (hs : step st act = some st') :
    ShowsAttached st' := by
  cases act with
  | onDraw x =>
    obtain rfl := Option.some.inj hs
    exact onDraw_shows h hshows hok
  | attachSession newSession layout =>
    obtain rfl := Option.some.inj hs
    unfold Screen.attachSession
    cases newSession <;> cases layout <;> exact hshows
  | sizeChanged l =>
    obtain rfl := Option.some.inj hs
    cases st.view.session <;> exact hshows
  | blink | output | exportElsewhere | close =>
    obtain rfl := Option.some.inj hs
    exact hshows

theorem run_inv (h : Run (Screen.new terminals) step anyStep acts st) : Inv st :=
  h.inv Inv (inv_new terminals) fun _ _ _ hinv _ hs => step_inv hinv hs

end Runs

/-- If each draw exports the attached session's cells and placements, or finds those that
it exported last, all that is painted while a session is attached is its own. -/
theorem drawn_from_attached (terminals : SessionRef → Terminal) (acts : List Action) (st : Screen)
    (hrun : Run (Screen.new terminals) step DrawOk acts st) : ShowsAttached st := by
  induction hrun with
  | nil => exact fun d hd => by cases hd
  | snoc hrun hok hs ih => exact step_shows (run_inv hrun.any) ih hok hs

/-- A terminal with an empty screen. -/
def blankTerminal (syncOutput : Bool) : Terminal where
  syncOutput := syncOutput
  cols := 80
  rows := 24
  cursor := some (0, 0)
  cursorStyle := 1
  cursorVisible := true
  cursorBlinking := false
  cursorColor := none
  colors := ⟨⟨0, 0, 0⟩, ⟨255, 255, 255⟩, fun _ => ⟨0, 0, 0⟩⟩
  altScreenActive := false
  kittyKeyboardFlags := 0
  grid := []
  graphics := true
  images := fun _ => none
  placements := []
  lastPtyActivityMs := 0

/-- A draw that finds everything it needs. -/
def plainExport : Export := ⟨2000, true, fun _ => true⟩

def smallLayout : Screen.Layout := ⟨10, 4, 10, 20, true⟩

/-- Two sessions are shown one after the other. -/
def switchSessions : List Action :=
  [.attachSession (some 0) (some smallLayout), .onDraw plainExport,
    .attachSession (some 1) (some smallLayout), .onDraw plainExport]

theorem drawn_from_attached_two : ∃ st, Run (Screen.new fun _ => blankTerminal false) step DrawOk switchSessions st ∧
    ShowsAttached st ∧ st.drawn.map Prod.fst = [0, 1] ∧ (∀ d ∈ st.drawn, d.2 ≠ []) := by
  obtain ⟨st, hrun, hdrawn⟩ : ∃ st, Run (Screen.new fun _ => blankTerminal false) step DrawOk switchSessions st ∧
      (st.drawn.map Prod.fst = [0, 1] ∧ ∀ d ∈ st.drawn, d.2 ≠ []) :=
    exists_run_of_exec (by set_option maxRecDepth 20000 in decide)
  exact ⟨st, hrun, drawn_from_attached _ _ st hrun, hdrawn⟩

/-- The second session holds back its output, so that the first one's screen is painted
while the second is attached. -/
theorem held_back_shows_previous :
    ∃ st, Run (Screen.new fun ref => blankTerminal (ref = 1)) step anyStep switchSessions st ∧
      ∃ d ∈ st.drawn, d.1 = 1 ∧ ∃ x ∈ d.2, x.origin = some 0 :=
  exists_run_of_exec (by set_option maxRecDepth 20000 in decide)

end Tinyhack.Views
