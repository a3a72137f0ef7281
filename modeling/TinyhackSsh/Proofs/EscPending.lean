import TinyhackSsh.Lib.Runs
import TinyhackSsh.Spec.TerminalInput

/-! The ESC byte of every ESC press. A press waits for its byte until the next key, the
next text or the timeout; raw bytes, pastes and the mouse write past it, and a switch of
the session or a detached window leaves it behind. -/

namespace Tinyhack.Input

open Runs Sessions

/-- Every press is followed at once by its ESC byte, to the session of the press. -/
inductive Paired : List Entry → Prop
  | nil : Paired []
  | output {l : List Entry} (s : SessionRef) (o : Output) : Paired l → Paired (l ++ [.output s o])
  | press {l : List Entry} (s : SessionRef) : Paired l → Paired (l ++ [.press s, .esc s])

/-- All presses have their ESC byte. -/
def Settled (v : View) : Prop := v.isEscActive = false ∧ Paired v.history

/-- The last press waits for its ESC byte: the timeout is posted, and the session of the
press is attached. -/
def Waiting (v : View) (s : SessionRef) : Prop :=
  v.isEscActive = true ∧ v.escTimeout = true ∧ v.session = some s ∧
  ∃ l, v.history = l ++ [.press s] ∧ Paired l

def EscOk (v : View) : Prop := Settled v ∨ ∃ s, Waiting v s

section Writes

variable {v : View} {s : SessionRef}

theorem Settled.write (h : Settled v) (o : Output) : Settled (v.write o) := by
  unfold View.write
  cases v.session with
  | none => exact h
  | some s => exact ⟨h.1, h.2.output s o⟩

theorem Waiting.writeEsc (h : Waiting v s) (text : Option JString) : Settled (v.cancelEsc.writeEsc text) := by
  obtain ⟨-, -, hs, l, hl, hpaired⟩ := h
  have hesc : Paired (v.history ++ [Entry.esc s]) := by
    rw [hl, List.append_assoc]
    exact hpaired.press s
  have hsession : v.cancelEsc.session = some s := hs
  unfold View.writeEsc
  rw [hsession]
  cases text with
  | none => exact ⟨rfl, hesc⟩
  | some t =>
    refine ⟨rfl, ?_⟩
    change Paired (v.history ++ ([Entry.esc s] ++ [Entry.output s (.text t)]))
    rw [← List.append_assoc]
    exact hesc.output s (.text t)

theorem Settled.startEsc (h : Settled v) (hs : v.session = some s) : Waiting v.recordPress.startEsc s := by
  unfold View.recordPress
  rw [hs]
  exact ⟨rfl, rfl, hs, v.history, rfl, h.2⟩

theorem session_writeEsc (text : Option JString) : (v.writeEsc text).session = v.session := by
  unfold View.writeEsc
  cases hs : v.session <;> simp [View.record, hs]

theorem Settled.resetModifiers (h : Settled v) : Settled v.resetModifiers := by
  unfold View.resetModifiers
  dsimp only
  rw [h.1]
  exact ⟨rfl, h.2⟩

theorem Waiting.resetModifiers (h : Waiting v s) (text : Option JString) :
    Settled (v.resetModifiers.writeEsc text) := by
  have hplain : Waiting { v with isCtrlActive := false, isAltActive := false } s := h
  unfold View.resetModifiers
  dsimp only
  rw [h.1]
  exact hplain.writeEsc text

end Writes

/-! Input that uses up a pending ESC. -/

section Inputs

variable {v : View}

theorem handleEscPress_ok (h : EscOk v) (hs : v.session.isNone = false) : EscOk (handleEscPress v) := by
  unfold handleEscPress
  rcases h with h | ⟨s, h⟩
  · obtain ⟨s, hs⟩ := Option.isSome_iff_exists.mp (Option.isNone_eq_false_iff.mp hs)
    rw [h.1]
    exact Or.inr ⟨s, h.startEsc hs⟩
  · rw [h.1]
    exact Or.inr ⟨s, (h.writeEsc none).startEsc ((session_writeEsc none).trans h.2.2.1)⟩

theorem writeAfterEsc_ok (h : EscOk v) (text : Option JString) (o : Output) : EscOk (writeAfterEsc v text o) := by
  unfold writeAfterEsc
  left
  rcases h with h | ⟨s, h⟩
  · rw [h.1]
    exact h.resetModifiers.write o
  · rw [h.1]
    cases nonEmpty text with
    | none => exact (h.resetModifiers none).write o
    | some t => exact h.resetModifiers (some t)

theorem onKeyDown_ok (h : EscOk v) (event : KeyEvent) (promptFound : Bool) : EscOk (onKeyDown v event promptFound) := by
  unfold onKeyDown
  dsimp only
  split_ifs with hnone hsystem hprompt hesc
  · exact h
  · exact h
  · exact h
  · exact handleEscPress_ok h (Bool.eq_false_iff.mpr hnone)
  · exact writeAfterEsc_ok h _ _
  · exact writeAfterEsc_ok h _ _

theorem sendSpecialKey_ok (h : EscOk v) (ghosttyKey keyMods : ℕ) (text : Option JString) :
    EscOk (sendSpecialKey v ghosttyKey keyMods text) := by
  unfold sendSpecialKey
  split_ifs with hnone hesc
  · exact h
  · exact handleEscPress_ok h (Bool.eq_false_iff.mpr hnone)
  · exact writeAfterEsc_ok h _ _

theorem sendText_ok (h : EscOk v) (text : JString) : EscOk (sendText v text) := by
  unfold sendText
  dsimp only
  split_ifs with hskip hesc
  · exact h
  · rcases h with h | ⟨s, h⟩
    · rw [h.1] at hesc
      cases hesc
    · exact Or.inl (h.resetModifiers _)
  · rcases h with h | ⟨s, h⟩
    · exact Or.inl (h.resetModifiers.write _)
    · exact absurd h.1 hesc

theorem foldl_ok {β : Type*} {f : View → β → View} (hf : ∀ v x, EscOk v → EscOk (f v x)) (l : List β) (h : EscOk v) :
    EscOk (l.foldl f v) := by
  induction l generalizing v with
  | nil => exact h
  | cons x l ih => exact ih (hf v x h)

theorem commitText_ok (h : EscOk v) (text : JString) : EscOk (commitText v text) := by
  unfold commitText
  split_ifs
  · refine foldl_ok ?_ text h
    intro v c hv
    have hplain : EscOk { v with isCtrlActive := false, isAltActive := false } := hv
    exact sendSpecialKey_ok hplain _ _ _
  · exact sendText_ok h _

theorem deleteSurroundingText_ok (h : EscOk v) (beforeLength : ℕ) : EscOk (deleteSurroundingText v beforeLength) :=
  foldl_ok (fun _ _ hv => sendSpecialKey_ok hv _ _ _) _ h

theorem escTimeoutRun_ok (h : EscOk v) : EscOk (escTimeoutRun v) := by
  unfold escTimeoutRun
  left
  rcases h with h | ⟨s, h⟩
  · rw [h.1]
    exact ⟨rfl, h.2⟩
  · rw [h.1]
    exact h.writeEsc none

end Inputs

/-- The step writes past a pending ESC, or leaves it without its session or its timeout. -/
def leavesEsc (v : View) : Action → Bool
  | .sendRawBytes data => !data.isEmpty
  | .pasteText text => !text.isEmpty && !requiresConfirmation text
  | .answerPaste index paste => paste && (v.dialogs[index]?.map Prod.fst) = v.session
  | .mouse => true
  | .attachSession newSession => newSession ≠ v.session
  | .onDetachedFromWindow => true
  | _ => false

section Leaving

variable (v : View)

@[simp] theorem leavesEsc_sendRawBytes (data : Bytes) : leavesEsc v (.sendRawBytes data) = !data.isEmpty := rfl

@[simp] theorem leavesEsc_pasteText (text : JString) :
    leavesEsc v (.pasteText text) = (!text.isEmpty && !requiresConfirmation text) := rfl

@[simp] theorem leavesEsc_answerPaste (index : ℕ) (paste : Bool) :
    leavesEsc v (.answerPaste index paste) = (paste && (v.dialogs[index]?.map Prod.fst) = v.session) := rfl

@[simp] theorem leavesEsc_mouse : leavesEsc v .mouse = true := rfl

@[simp] theorem leavesEsc_attachSession (newSession : Option SessionRef) :
    leavesEsc v (.attachSession newSession) = decide (newSession ≠ v.session) := rfl

@[simp] theorem leavesEsc_onDetachedFromWindow : leavesEsc v .onDetachedFromWindow = true := rfl

end Leaving

/-- No ESC is pending when one of the inputs comes that do not use it up. -/
def EscFirst (v : View) (a : Action) : Prop := v.isEscActive = true → leavesEsc v a = false

section Steps

variable {v v' : View} {a : Action}

theorem sendRawBytes_ok (h : EscOk v) {data : Bytes} (hok : EscFirst v (.sendRawBytes data)) :
    EscOk (sendRawBytes v data) := by
  unfold sendRawBytes
  split_ifs with hempty
  · exact h
  · rcases h with h | ⟨s, h⟩
    · exact Or.inl (h.write _)
    · exact absurd (hok h.1) (by simp [hempty])

theorem pasteText_ok (h : EscOk v) {text : JString} (hok : EscFirst v (.pasteText text)) :
    EscOk (pasteText v text) := by
  unfold pasteText
  cases v.session with
  | none => exact h
  | some target =>
    dsimp only
    split_ifs with hempty hconfirm
    · exact h
    · exact h
    · rcases h with h | ⟨s, h⟩
      · exact Or.inl (h.write _)
      · exact absurd (hok h.1) (by simp [hempty, hconfirm])

theorem answerPaste_ok (h : EscOk v) {index : ℕ} {paste : Bool} (hok : EscFirst v (.answerPaste index paste))
    (hstep : step v (.answerPaste index paste) = some v') : EscOk v' := by
  obtain ⟨dialog, hdialog, rfl⟩ := Option.map_eq_some_iff.mp hstep
  have hclosed : EscOk { v with dialogs := v.dialogs.eraseIdx index } := h
  dsimp only
  split_ifs with hpaste
  · unfold confirmPaste
    split_ifs with htarget
    · rcases h with h | ⟨s, h⟩
      · have hsettled : Settled { v with dialogs := v.dialogs.eraseIdx index } := h
        exact Or.inl (hsettled.write _)
      · have hsession : v.session = some dialog.1 := htarget
        exact absurd (hok h.1) (by simp [hpaste, hdialog, hsession])
    · exact hclosed
  · exact hclosed

theorem attachSession_ok (h : EscOk v) {newSession : Option SessionRef} (hok : EscFirst v (.attachSession newSession)) :
    EscOk (attachSession v newSession) := by
  rcases h with h | ⟨s, h⟩
  · exact Or.inl h
  · have hsame : newSession = v.session := by simpa using hok h.1
    rw [hsame]
    exact Or.inr ⟨s, h⟩

theorem step_ok (h : EscOk v) (hok : EscFirst v a) (hstep : step v a = some v') : EscOk v' := by
  cases a with
  | onKeyDown event promptFound => exact Option.some.inj hstep ▸ onKeyDown_ok h event promptFound
  | sendSpecialKey ghosttyKey keyMods text => exact Option.some.inj hstep ▸ sendSpecialKey_ok h ghosttyKey keyMods text
  | sendRawBytes data => exact Option.some.inj hstep ▸ sendRawBytes_ok h hok
  | sendText text => exact Option.some.inj hstep ▸ sendText_ok h text
  | commitText text => exact Option.some.inj hstep ▸ commitText_ok h text
  | deleteSurroundingText beforeLength => exact Option.some.inj hstep ▸ deleteSurroundingText_ok h beforeLength
  | pasteText text => exact Option.some.inj hstep ▸ pasteText_ok h hok
  | answerPaste index paste => exact answerPaste_ok h hok hstep
  | setCtrlActive active =>
    obtain rfl := Option.some.inj hstep
    exact h
  | setAltActive active =>
    obtain rfl := Option.some.inj hstep
    exact h
  | mouse =>
    obtain rfl := Option.some.inj hstep
    rcases h with h | ⟨s, h⟩
    · exact Or.inl (h.write _)
    · exact absurd (hok h.1) (by simp)
  | escTimeout =>
    simp only [step] at hstep
    split_ifs at hstep
    exact Option.some.inj hstep ▸ escTimeoutRun_ok h
  | attachSession newSession => exact Option.some.inj hstep ▸ attachSession_ok h hok
  | onDetachedFromWindow =>
    obtain rfl := Option.some.inj hstep
    rcases h with h | ⟨s, h⟩
    · exact Or.inl h
    · exact absurd (hok h.1) (by simp)

/-! The other inputs, with an ESC pending. -/

/-- A view with a pending ESC and something written after its press. -/
theorem not_escOk_of_output {s : SessionRef} {o : Output} (hactive : v.isEscActive = true)
    (hlast : v.history.getLast? = some (.output s o)) : ¬ EscOk v := by
  rintro (h | ⟨s', h⟩)
  · rw [h.1] at hactive
    cases hactive
  · obtain ⟨-, -, -, l, hl, -⟩ := h
    rw [hl, List.getLast?_concat] at hlast
    cases hlast

theorem Waiting.write {s : SessionRef} (h : Waiting v s) (o : Output) : ¬ EscOk (v.write o) := by
  have hwrite : v.write o = v.record [.output s o] := by rw [View.write, h.2.2.1]
  rw [hwrite]
  exact not_escOk_of_output h.1 List.getLast?_concat

theorem answerPaste_not_ok {s : SessionRef} {index : ℕ} {paste : Bool} (h : Waiting v s)
    (hleaves : leavesEsc v (.answerPaste index paste) = true) (hstep : step v (.answerPaste index paste) = some v') :
    ¬ EscOk v' := by
  obtain ⟨dialog, hdialog, rfl⟩ := Option.map_eq_some_iff.mp hstep
  have hclosed : Waiting { v with dialogs := v.dialogs.eraseIdx index } s := h
  obtain ⟨hpaste, htarget⟩ : paste = true ∧ some dialog.1 = v.session := by
    simpa [hdialog] using hleaves
  dsimp only
  rw [if_pos hpaste, confirmPaste, if_pos htarget.symm]
  exact hclosed.write _

/-- They leave a press without its ESC byte, or with a byte of theirs before it. -/
theorem step_not_ok {s : SessionRef} (h : Waiting v s) (hleaves : leavesEsc v a = true) (hstep : step v a = some v') :
    ¬ EscOk v' := by
  cases a with
  | sendRawBytes data =>
    obtain rfl := Option.some.inj hstep
    have hdata : ¬ data.isEmpty = true := by simpa using hleaves
    rw [sendRawBytes, if_neg hdata]
    exact h.write _
  | pasteText text =>
    obtain rfl := Option.some.inj hstep
    obtain ⟨hempty, hconfirm⟩ : ¬ text.isEmpty = true ∧ ¬ requiresConfirmation text = true := by
      simpa using hleaves
    rw [pasteText, h.2.2.1]
    dsimp only
    rw [if_neg hempty, if_neg hconfirm]
    exact h.write _
  | answerPaste index paste => exact answerPaste_not_ok h hleaves hstep
  | mouse =>
    obtain rfl := Option.some.inj hstep
    exact h.write _
  | attachSession newSession =>
    obtain rfl := Option.some.inj hstep
    have hother : newSession ≠ v.session := by simpa using hleaves
    obtain ⟨hactive, -, hs, l, hl, -⟩ := h
    rintro (h' | ⟨s', -, -, hs', l', hl', -⟩)
    · exact absurd (h'.1.symm.trans hactive) (by decide)
    · -- the last press is still that of the session before
      have hlast : some (Entry.press s) = some (.press s') := by
        rw [← List.getLast?_concat (l := l), ← List.getLast?_concat (l := l'), ← hl, ← hl']
        rfl
      obtain rfl := Entry.press.inj (Option.some.inj hlast)
      exact hother (hs'.trans hs.symm)
  | onDetachedFromWindow =>
    obtain rfl := Option.some.inj hstep
    rintro (h' | ⟨s', -, htimeout, -⟩)
    · exact absurd (h'.1.symm.trans h.1) (by decide)
    · cases htimeout
  | onKeyDown event promptFound => cases hleaves
  | sendSpecialKey ghosttyKey keyMods text => cases hleaves
  | sendText text => cases hleaves
  | commitText text => cases hleaves
  | deleteSurroundingText beforeLength => cases hleaves
  | setCtrlActive active => cases hleaves
  | setAltActive active => cases hleaves
  | escTimeout => cases hleaves

theorem step_ok_iff (h : EscOk v) (hstep : step v a = some v') : EscOk v' ↔ EscFirst v a := by
  refine ⟨?_, fun hok => step_ok h hok hstep⟩
  intro hv' hactive
  rcases h with h | ⟨s, h⟩
  · rw [h.1] at hactive
    cases hactive
  · cases hleaves : leavesEsc v a with
    | false => rfl
    | true => exact absurd hv' (step_not_ok h hleaves hstep)

end Steps

/-- The timeout gives a waiting press its ESC byte. -/
theorem Waiting.escTimeout {v : View} {s : SessionRef} (h : Waiting v s) :
    ∃ v', step v .escTimeout = some v' ∧ v'.history = v.history ++ [Entry.esc s] := by
  have hstep : step v .escTimeout = some (v.cancelEsc.writeEsc none) := by
    rw [step, if_pos h.2.1, escTimeoutRun, if_pos h.1]
  have hsession : v.cancelEsc.session = some s := h.2.2.1
  refine ⟨_, hstep, ?_⟩
  rw [View.writeEsc, hsession]
  rfl

/-- In every state reached each ESC press has had its ESC byte at once, to its own session,
or is the last entry and waits, with the timeout posted that will write the byte there.
A step keeps this just when no ESC is pending or the step does not pass it by. -/
theorem esc_presses_paired (acts : List Action) (v : View) (h : Run View.initial step EscFirst acts v) :
    EscOk v ∧
    (∀ s, Waiting v s → ∃ v', step v .escTimeout = some v' ∧ v'.history = v.history ++ [.esc s]) ∧
    ∀ a v', step v a = some v' → (EscOk v' ↔ EscFirst v a) := by
  have hok : EscOk v := by
    refine h.inv EscOk (Or.inl ⟨rfl, Paired.nil⟩) ?_
    intro s a s' hs hfirst hstep
    exact step_ok hs hfirst hstep
  refine ⟨hok, ?_, ?_⟩
  · intro s hwaiting
    exact hwaiting.escTimeout
  · intro a v' hstep
    exact step_ok_iff hok hstep

instance (v : View) (a : Action) : Decidable (EscFirst v a) := inferInstanceAs (Decidable (_ → _))

/-- The ESC button. -/
def pressEsc : Action := .sendSpecialKey GHOSTTY_KEY_ESCAPE 0 (some ['\x1b'])

theorem esc_presses_paired_text : ∃ v,
    Run View.initial step EscFirst
      [.attachSession (some 0), pressEsc, .sendText ['x'], pressEsc, .escTimeout, .sendRawBytes [0x18]] v ∧
    v.history = [.press 0, .esc 0, .output 0 (.text ['x']), .press 0, .esc 0, .output 0 (.bytes [0x18])] ∧ EscOk v := by
  obtain ⟨v, hrun, hhistory⟩ : ∃ v, Run View.initial step EscFirst
      [.attachSession (some 0), pressEsc, .sendText ['x'], pressEsc, .escTimeout, .sendRawBytes [0x18]] v ∧
      v.history = [.press 0, .esc 0, .output 0 (.text ['x']), .press 0, .esc 0, .output 0 (.bytes [0x18])] :=
    exists_run_of_exec (by decide)
  exact ⟨v, hrun, hhistory, (esc_presses_paired _ v hrun).1⟩

/-- The ESC byte goes to the session attached after the press, and raw bytes overtake it. -/
theorem esc_misplaced :
    (∃ v, Run View.initial step anyStep [.attachSession (some 0), pressEsc, .attachSession (some 1), .escTimeout] v ∧
      v.history = [.press 0, .esc 1]) ∧
    ∃ v, Run View.initial step anyStep [.attachSession (some 0), pressEsc, .sendRawBytes [0x18], .escTimeout] v ∧
      v.history = [.press 0, .output 0 (.bytes [0x18]), .esc 0] :=
  ⟨exists_run_of_exec (by decide), exists_run_of_exec (by decide)⟩

end Tinyhack.Input
