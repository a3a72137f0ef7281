import TinyhackSsh.Lib.Runs
import TinyhackSsh.Spec.Clipboard

/-! Only the session that a view shows has that view, or its activity, as its listener. So
the permission that is checked when a queued text is delivered is that of the session
which sent it. -/

namespace Tinyhack.Osc52

open Runs
open Sessions (SessionRef Service)

/-- A session with a listener is the one that the listener's view shows. -/
def Attached (ui : Ui) : Prop := ∀ s l, ui.listener s = some l → (ui.views l.target).session = some s

/-- The change keeps this, no session's permission and nothing on the clipboard changes. -/
structure Keeps (ui ui' : Ui) : Prop where
  attached : Attached ui → Attached ui'
  created : ui.osc52ClipboardEnabled <+: ui'.osc52ClipboardEnabled
  clipboard : ui'.clipboard = ui.clipboard

section Keeps

variable {ui ui₁ ui₂ : Ui} {a : ActivityRef} {s : SessionRef}

theorem Keeps.refl (ui : Ui) : Keeps ui ui := ⟨id, List.prefix_refl _, rfl⟩

theorem Keeps.trans (h : Keeps ui ui₁) (h' : Keeps ui₁ ui₂) : Keeps ui ui₂ :=
  ⟨h'.attached ∘ h.attached, h.created.trans h'.created, h'.clipboard.trans h.clipboard⟩

/-- No listener and no view changes. -/
theorem Keeps.frame (hlistener : ui₁.listener = ui.listener) (hviews : ui₁.views = ui.views)
    (hcreated : ui.osc52ClipboardEnabled <+: ui₁.osc52ClipboardEnabled) (hclipboard : ui₁.clipboard = ui.clipboard) :
    Keeps ui ui₁ :=
  ⟨fun h s l hl => hviews ▸ h s l (hlistener ▸ hl), hcreated, hclipboard⟩

theorem Keeps.after (h : Keeps ui₁ ui₂) (hlistener : ui₁.listener = ui.listener) (hviews : ui₁.views = ui.views)
    (hcreated : ui.osc52ClipboardEnabled <+: ui₁.osc52ClipboardEnabled) (hclipboard : ui₁.clipboard = ui.clipboard) :
    Keeps ui ui₂ := (Keeps.frame hlistener hviews hcreated hclipboard).trans h

theorem foldl_keeps {α : Type} {f : Ui → α → Ui} (hf : ∀ ui x, Keeps ui (f ui x)) (l : List α) :
    Keeps ui (l.foldl f ui) := by
  induction l generalizing ui with
  | nil => exact .refl ui
  | cons x l ih => exact (hf ui x).trans ih

theorem listener_setListener (ui : Ui) (s s' : SessionRef) (l : Option Listener) :
    (ui.setListener s l).listener s' = if s' = s then l else ui.listener s' := Function.update_apply ..

theorem listener_dropListener (ui : Ui) (o : Option SessionRef) (s' : SessionRef) :
    (ui.dropListener o).listener s' = if o = some s' then none else ui.listener s' := by
  cases o with
  | none => rfl
  | some s => simp [Ui.dropListener, listener_setListener, eq_comm]

theorem views_dropListener (ui : Ui) (o : Option SessionRef) : (ui.dropListener o).views = ui.views := by
  cases o <;> rfl

theorem dropListener_keeps (ui : Ui) (o : Option SessionRef) : Keeps ui (ui.dropListener o) := by
  refine ⟨fun h s l hl => ?_, ?_, ?_⟩
  · rw [listener_dropListener] at hl
    split_ifs at hl
    rw [views_dropListener]
    exact h s l hl
  · cases o <;> exact List.prefix_refl _
  · cases o <;> rfl

theorem listener_attachSession (ui : Ui) (a : ActivityRef) (s s' : SessionRef) :
    (ui.attachSession a s).listener s' =
      if s' = s then some (.view a) else if (ui.views a).session = some s' then none else ui.listener s' := by
  unfold Ui.attachSession
  rw [listener_setListener]
  split_ifs with hs hold
  · rfl
  · exact (listener_dropListener ui _ s').trans (if_pos hold)
  · exact (listener_dropListener ui _ s').trans (if_neg hold)

theorem session_attachSession (ui : Ui) (a a' : ActivityRef) (s : SessionRef) :
    ((ui.attachSession a s).views a').session = if a' = a then some s else (ui.views a').session := by
  change (Function.update (ui.dropListener _).views a _ a').session = _
  rw [Function.update_apply, views_dropListener]
  split_ifs <;> rfl

/-- Only the session that is attached may have had a wrong listener. -/
theorem attachSession_attached
    (h : ∀ s' ≠ s, ∀ l, ui.listener s' = some l → (ui.views l.target).session = some s') :
    Attached (ui.attachSession a s) := by
  intro s' l hl
  rw [listener_attachSession] at hl
  rw [session_attachSession]
  split_ifs at hl with hs hold
  · obtain rfl := Option.some.inj hl
    rw [hs]
    exact if_pos rfl
  · have hview := h s' hs l hl
    -- the session that the view showed before has lost its listener
    have hother : l.target ≠ a := by
      rintro rfl
      exact hold hview
    rwa [if_neg hother]

theorem setListener_attach_keeps (ui : Ui) (a : ActivityRef) (s : SessionRef) (l : Option Listener) :
    Keeps ui ((ui.setListener s l).attachSession a s) := by
  refine ⟨fun h => attachSession_attached fun s' hs' l' hl' => ?_, ?_, ?_⟩
  · rw [listener_setListener, if_neg hs'] at hl'
    exact h s' l' hl'
  · exact (dropListener_keeps (ui.setListener s l) (ui.views a).session).created
  · exact (dropListener_keeps (ui.setListener s l) (ui.views a).session).clipboard

theorem showSession_keeps (ui : Ui) (a : ActivityRef) (s : SessionRef) : Keeps ui (ui.showSession a s) :=
  setListener_attach_keeps ui a s _

theorem currentSessionChanged_keeps (ui : Ui) (a : ActivityRef) (o : Option SessionRef) :
    Keeps ui (ui.currentSessionChanged a o) := by
  cases o with
  | none => exact .refl ui
  | some s => exact showSession_keeps ui a s

theorem callService_keeps (ui : Ui) (onMain : Bool) (call : Service → Service) :
    Keeps ui (ui.callService onMain call) := by
  unfold Ui.callService
  dsimp only
  refine (foldl_keeps (fun ui d => foldl_keeps (fun ui a => ?_) _) _).after rfl rfl (List.prefix_refl _) rfl
  split_ifs
  · exact currentSessionChanged_keeps ui a _
  · exact .frame rfl rfl (List.prefix_refl _) rfl

theorem createSession_keeps (ui : Ui) (onMain osc52 constructed : Bool) :
    Keeps ui (ui.createSession onMain osc52 constructed).1 := by
  unfold Ui.createSession
  split_ifs
  · exact (callService_keeps _ _ _).after rfl rfl (List.prefix_append _ _) rfl
  · exact .refl ui

theorem getCurrentSession_keeps (ui : Ui) : Keeps ui ui.getCurrentSession.1 :=
  .frame rfl rfl (List.prefix_refl _) rfl

theorem pickSession_keeps (ui : Ui) (constructed : Bool) : Keeps ui (ui.pickSession constructed).1 := by
  unfold Ui.pickSession
  dsimp only
  split_ifs
  · exact getCurrentSession_keeps ui
  · exact (getCurrentSession_keeps ui).trans (createSession_keeps _ _ _ _)
  · exact (getCurrentSession_keeps ui).trans (getCurrentSession_keeps _)

theorem setupSession_keeps (ui : Ui) (a : ActivityRef) (constructed : Bool) :
    Keeps ui (ui.setupSession a constructed) := by
  have hpick := pickSession_keeps ui constructed
  unfold Ui.setupSession
  split_ifs
  · exact .refl ui
  cases hpicked : ui.pickSession constructed with
  | mk ui' session =>
    rw [hpicked] at hpick
    cases session with
    | none => exact hpick
    | some s => exact hpick.trans ((showSession_keeps _ a s).trans (callService_keeps _ _ _))

theorem switchToSession_keeps (ui : Ui) (a : ActivityRef) (index : ℤ) : Keeps ui (ui.switchToSession a index) := by
  unfold Ui.switchToSession
  split_ifs
  · exact .refl ui
  · exact (dropListener_keeps ui _).trans ((callService_keeps _ _ _).trans
      ((getCurrentSession_keeps _).trans (currentSessionChanged_keeps _ a _)))

theorem openSession_keeps (ui : Ui) (a : ActivityRef) (osc52 constructed : Bool) :
    Keeps ui (ui.openSession a osc52 constructed) := by
  unfold Ui.openSession
  split_ifs
  · exact .refl ui
  have hcreate := createSession_keeps (ui.dropListener (ui.views a).session) true osc52 constructed
  dsimp only
  cases hcreated : (ui.dropListener (ui.views a).session).createSession true osc52 constructed with
  | mk ui' session =>
    rw [hcreated] at hcreate
    cases session with
    | none => exact (dropListener_keeps ui _).trans hcreate
    | some s => exact (dropListener_keeps ui _).trans (hcreate.trans (showSession_keeps _ a s))

/-- The dead session is taken off before another one is shown. -/
theorem removeDead_keeps (ui : Ui) (cur : SessionRef) : Keeps ui ((ui.setListener cur none).removeSession true cur) :=
  (dropListener_keeps ui (some cur)).trans (callService_keeps _ _ _)

theorem closeDeadCurrentSession_keeps (ui : Ui) (a : ActivityRef) (constructed : Bool) :
    Keeps ui (ui.closeDeadCurrentSession a constructed) := by
  unfold Ui.closeDeadCurrentSession
  cases ui.deadSession a with
  | none => exact .refl ui
  | some cur => exact (removeDead_keeps ui cur).trans (setupSession_keeps _ a constructed)

theorem reopenDeadSession_keeps (ui : Ui) (a : ActivityRef) (profile : Option Bool) (constructed : Bool) :
    Keeps ui (ui.reopenDeadSession a profile constructed) := by
  unfold Ui.reopenDeadSession
  cases ui.deadSession a with
  | none => exact .refl ui
  | some cur =>
    cases profile with
    | none => exact (removeDead_keeps ui cur).trans (openSession_keeps _ a false constructed)
    | some osc52 => exact (removeDead_keeps ui cur).trans (openSession_keeps _ a osc52 constructed)

theorem handleNotificationIntent_keeps (ui : Ui) (a : ActivityRef) (session : Option SessionRef) (constructed : Bool) :
    Keeps ui (ui.handleNotificationIntent a session constructed) := by
  unfold Ui.handleNotificationIntent
  cases session with
  | none => exact .refl ui
  | some s =>
    dsimp only
    split_ifs
    · exact (callService_keeps _ _ _).trans (setupSession_keeps _ a constructed)
    · exact .refl ui

theorem closeSession_keeps (ui : Ui) (a : ActivityRef) (s : SessionRef) (intent : Option SessionRef)
    (constructed constructed' : Bool) : Keeps ui (ui.closeSession a s intent constructed constructed') := by
  unfold Ui.closeSession
  dsimp only
  split_ifs
  · exact (callService_keeps _ _ _).trans ((setupSession_keeps _ a constructed).trans
      (handleNotificationIntent_keeps _ a intent constructed'))
  · exact callService_keeps _ _ _

theorem onServiceConnected_keeps (ui : Ui) (a : ActivityRef) (intent : Option SessionRef) (pending : Option Bool)
    (constructed constructed' constructed'' : Bool) :
    Keeps ui (ui.onServiceConnected a intent pending constructed constructed' constructed'') := by
  have hsetup : Keeps ui ((((ui.setActivity a ⟨true, true⟩).addSessionsListener a).setupSession
      a constructed).handleNotificationIntent a intent constructed') :=
    ((setupSession_keeps _ a constructed).trans (handleNotificationIntent_keeps _ a intent constructed')).after
      rfl rfl (List.prefix_refl _) rfl
  unfold Ui.onServiceConnected
  cases pending with
  | none => exact hsetup
  | some osc52 => exact hsetup.trans (openSession_keeps _ a osc52 constructed'')

end Keeps

section Runs

variable {ui ui' : Ui} {act : Action} {stayConnected : Bool} {acts : List Action}

/-- What is on the clipboard comes from sessions that may write to it. -/
structure Inv (ui : Ui) : Prop where
  attached : Attached ui
  permitted : ∀ x ∈ ui.clipboard, ui.osc52ClipboardEnabled[x.1]? = some true

theorem inv_new (stayConnected : Bool) : Inv (Ui.new stayConnected) where
  attached := fun s l hl => by cases hl
  permitted := fun x hx => by cases hx

theorem Keeps.inv (h : Keeps ui ui') (hinv : Inv ui) : Inv ui' where
  attached := h.attached hinv.attached
  permitted := fun x hx => by
    have hold := hinv.permitted x (h.clipboard ▸ hx)
    obtain ⟨rest, hrest⟩ := h.created
    obtain ⟨hlt, -⟩ := List.getElem?_eq_some_iff.mp hold
    rw [← hrest, List.getElem?_append_left hlt]
    exact hold

/-- The delivery: the view that is asked shows the session that sent the text. -/
theorem clipboardWrite_inv (hinv : Inv ui) (s : SessionRef) (text : Option JString) :
    Inv (ui.run (.clipboardWrite s text)) := by
  unfold Ui.run
  dsimp only
  cases hl : ui.listener s with
  | none => exact hinv
  | some l =>
    dsimp only
    unfold Ui.onClipboardWrite
    rw [hinv.attached s l hl]
    dsimp only
    split_ifs with hdenied
    · exact hinv
    cases text with
    | none => exact hinv
    | some text =>
      dsimp only
      split_ifs
      · refine ⟨hinv.attached, fun x hx => ?_⟩
        obtain hx | hx := List.mem_append.mp hx
        · exact hinv.permitted x hx
        · rw [List.mem_singleton.mp hx]
          exact not_not.mp hdenied
      · exact hinv

theorem debugAttach_keeps (ui : Ui) (s : SessionRef) : Keeps ui (ui.run (.debugAttach s)) := by
  unfold Ui.run
  dsimp only
  cases ui.debugTerminalView with
  | none => exact .refl ui
  | some a => exact (dropListener_keeps ui _).trans (setListener_attach_keeps _ a s _)

theorem step_inv (hinv : Inv ui) (hs : step ui act = some ui') : Inv ui' := by
  cases act with
  | looper =>
    unfold step at hs
    cases hqueue : ui.queue with
    | nil => simp [hqueue] at hs
    | cons message queue =>
      simp only [hqueue] at hs
      obtain rfl := Option.some.inj hs
      have htaken : Inv { ui with queue := queue } := ⟨hinv.attached, hinv.permitted⟩
      cases message with
      | clipboardWrite s text => exact clipboardWrite_inv htaken s text
      | currentSessionChanged a o => exact (currentSessionChanged_keeps _ a o).inv htaken
      | debugAttach s => exact (debugAttach_keeps _ s).inv htaken
  | osc52 | exit | onCreate | onServiceDisconnected =>
    obtain rfl := Option.some.inj hs
    exact ⟨hinv.attached, hinv.permitted⟩
  | onDestroy a =>
    unfold step at hs
    dsimp only at hs
    split_ifs at hs
    all_goals
      obtain rfl := Option.some.inj hs
      exact ⟨hinv.attached, hinv.permitted⟩
  | onServiceConnected a intent pending =>
    obtain rfl := Option.some.inj hs
    exact (onServiceConnected_keeps ui a intent pending _ _ _).inv hinv
  | setupSession a =>
    obtain rfl := Option.some.inj hs
    exact (setupSession_keeps ui a _).inv hinv
  | switchToSession a index =>
    obtain rfl := Option.some.inj hs
    exact (switchToSession_keeps ui a index).inv hinv
  | createNewLocalSession a =>
    obtain rfl := Option.some.inj hs
    exact (openSession_keeps ui a false _).inv hinv
  | connectProfile a osc52 =>
    obtain rfl := Option.some.inj hs
    exact (openSession_keeps ui a osc52 _).inv hinv
  | closeDeadCurrentSession a =>
    obtain rfl := Option.some.inj hs
    exact (closeDeadCurrentSession_keeps ui a _).inv hinv
  | reopenDeadSession a profile =>
    obtain rfl := Option.some.inj hs
    exact (reopenDeadSession_keeps ui a profile _).inv hinv
  | handleNotificationIntent a session =>
    obtain rfl := Option.some.inj hs
    exact (handleNotificationIntent_keeps ui a session _).inv hinv
  | closeSession a session intent =>
    obtain rfl := Option.some.inj hs
    exact (closeSession_keeps ui a session intent _ _).inv hinv
  | debugCreate osc52 constructed =>
    obtain rfl := Option.some.inj hs
    exact (createSession_keeps ui false osc52 constructed).inv hinv
  | debugConnect osc52 constructed =>
    have hcreate := (createSession_keeps ui false osc52 constructed).inv hinv
    unfold step at hs
    dsimp only at hs
    split at hs
    all_goals
      obtain rfl := Option.some.inj hs
      exact ⟨hcreate.attached, hcreate.permitted⟩
  | debugRemove session =>
    obtain rfl := Option.some.inj hs
    exact (callService_keeps ui false _).inv hinv
  | debugSetCurrent index =>
    obtain rfl := Option.some.inj hs
    exact (callService_keeps ui false _).inv hinv

theorem run_inv (h : Run (Ui.new stayConnected) step anyStep acts ui) : Inv ui :=
  h.inv Inv (inv_new stayConnected) fun _ _ _ hinv _ hs => step_inv hinv hs

end Runs

/-- No text of a session without the permission is placed on the clipboard. -/
theorem clipboard_only_permitted (stayConnected : Bool) (acts : List Action) (ui : Ui)
    (hrun : Run (Ui.new stayConnected) step anyStep acts ui) (session : SessionRef) (text : JString)
    (hdenied : ui.osc52ClipboardEnabled[session]? = some false) : (session, text) ∉ ui.clipboard := by
  intro hmem
  have hpermitted := (run_inv hrun).permitted _ hmem
  rw [hdenied] at hpermitted
  cases hpermitted

/-- A session without the permission sends a text and one with it is shown before the
text is delivered; then that one sends a text of its own. -/
def switchBeforeDelivery : List Action :=
  [.onServiceConnected 0 none none true true true, .osc52 0 (some ['x']), .connectProfile 0 true true, .looper,
    .osc52 1 (some ['y']), .looper]

theorem clipboard_only_permitted_switch : ∃ ui, Run (Ui.new true) step anyStep switchBeforeDelivery ui ∧
    ui.osc52ClipboardEnabled = [false, true] ∧ ui.clipboard = [(1, ['y'])] ∧ (0, ['x']) ∉ ui.clipboard := by
  obtain ⟨ui, hrun, hcreated, hclipboard⟩ : ∃ ui, Run (Ui.new true) step anyStep switchBeforeDelivery ui ∧
      ui.osc52ClipboardEnabled = [false, true] ∧ ui.clipboard = [(1, ['y'])] := exists_run_of_exec (by decide)
  refine ⟨ui, hrun, hcreated, hclipboard, clipboard_only_permitted true _ ui hrun 0 ['x'] ?_⟩
  rw [hcreated]
  rfl

end Tinyhack.Osc52
