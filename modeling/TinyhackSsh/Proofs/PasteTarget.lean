import TinyhackSsh.Lib.Runs
import TinyhackSsh.Spec.TerminalInput

/-! Where a paste goes, and which pastes are confirmed. A confirmation belongs to the session
that was attached when `pasteText` was called. `hasControlCharacters` looks for C0 controls
and DEL, but not for the C1 controls. -/

namespace Tinyhack.Input

open Runs Sessions

/-- General category Cc. -/
def isControl (c : Char) : Bool := c.toNat < 0x20 || (0x7f ≤ c.toNat && c.toNat ≤ 0x9f)

/-- U+0080 to U+009F. -/
def isC1 (c : Char) : Bool := 0x80 ≤ c.toNat && c.toNat ≤ 0x9f

/-- A text that needs no confirmation. -/
def Harmless (text : JString) : Prop :=
  Notify.utf16Length text ≤ PASTE_LIMIT ∧ ∀ c ∈ text, isControl c = true → c = '\t'

theorem harmless_iff {text : JString} (h : requiresConfirmation text = false) :
    Harmless text ↔ ∀ c ∈ text, isC1 c = false := by
  simp only [requiresConfirmation, hasControlCharacters, Bool.or_eq_false_iff, decide_eq_false_iff_not, not_lt,
    List.any_eq_false, Bool.or_eq_true, Bool.and_eq_true, decide_eq_true_eq, not_or, not_and] at h
  obtain ⟨hlength, hcontrol⟩ := h
  have hsplit : ∀ c ∈ text, (isControl c = true → c = '\t') ↔ isC1 c = false := by
    intro c hc
    obtain ⟨hlow, hdel⟩ := hcontrol c hc
    by_cases htab : c = '\t'
    · subst htab
      decide
    · have hge : ¬ c.toNat < 0x20 := fun hlt => hlow hlt htab
      simp only [isControl, isC1, htab, imp_false, Bool.not_eq_true, Bool.or_eq_false_iff, Bool.and_eq_false_iff,
        decide_eq_false_iff_not]
      omega
  constructor
  · intro hharmless c hc
    exact (hsplit c hc).mp (hharmless.2 c hc)
  · intro hc1
    exact ⟨hlength, fun c hc => (hsplit c hc).mpr (hc1 c hc)⟩

def Entry.pasted : Entry → Option (SessionRef × JString)
  | .output s (.paste text) => some (s, text)
  | _ => none

/-- What has been pasted, and where. -/
def View.pastes (v : View) : List (SessionRef × JString) := v.history.filterMap Entry.pasted

/-- Nothing is pasted and no confirmation comes or goes. -/
structure Kept (v v' : View) : Prop where
  dialogs : v'.dialogs = v.dialogs
  pastes : v'.pastes = v.pastes

section Inputs

variable {v v' v'' : View}

theorem Kept.refl (v : View) : Kept v v := ⟨rfl, rfl⟩

theorem Kept.trans (h : Kept v v') (h' : Kept v' v'') : Kept v v'' :=
  ⟨h'.dialogs.trans h.dialogs, h'.pastes.trans h.pastes⟩

theorem pastes_record (v : View) (entries : List Entry) :
    (v.record entries).pastes = v.pastes ++ entries.filterMap Entry.pasted := List.filterMap_append

theorem kept_record {entries : List Entry} (h : entries.filterMap Entry.pasted = []) : Kept v (v.record entries) := by
  refine ⟨rfl, ?_⟩
  rw [pastes_record, h, List.append_nil]

theorem kept_writeEsc (v : View) (text : Option JString) : Kept v (v.writeEsc text) := by
  unfold View.writeEsc
  cases v.session with
  | none => exact .refl v
  | some s => cases text <;> exact kept_record rfl

theorem kept_write (v : View) {o : Output} (ho : ∀ text, o ≠ .paste text) : Kept v (v.write o) := by
  unfold View.write
  cases v.session with
  | none => exact .refl v
  | some s =>
    cases o with
    | paste text => exact absurd rfl (ho text)
    | _ => exact kept_record rfl

theorem kept_recordPress (v : View) : Kept v v.recordPress := by
  unfold View.recordPress
  cases v.session with
  | none => exact .refl v
  | some s => exact kept_record rfl

theorem kept_handleEscPress (v : View) : Kept v (handleEscPress v) := by
  have hstart : ∀ v : View, Kept v v.recordPress.startEsc := fun v => (kept_recordPress v).trans ⟨rfl, rfl⟩
  unfold handleEscPress
  split_ifs
  · have hcancel : Kept v v.cancelEsc := ⟨rfl, rfl⟩
    exact (hcancel.trans (kept_writeEsc _ none)).trans (hstart _)
  · exact hstart v

theorem kept_resetModifiers (v : View) : Kept v v.resetModifiers := by
  unfold View.resetModifiers
  dsimp only
  split_ifs <;> exact ⟨rfl, rfl⟩

theorem kept_writeAfterEsc (v : View) (text : Option JString) {o : Output} (ho : ∀ text, o ≠ .paste text) :
    Kept v (writeAfterEsc v text o) := by
  have hreset := kept_resetModifiers v
  unfold writeAfterEsc
  split_ifs
  · cases nonEmpty text with
    | none => exact (hreset.trans (kept_writeEsc _ none)).trans (kept_write _ ho)
    | some t => exact hreset.trans (kept_writeEsc _ (some t))
  · exact hreset.trans (kept_write _ ho)

theorem kept_onKeyDown (v : View) (event : KeyEvent) (promptFound : Bool) : Kept v (onKeyDown v event promptFound) := by
  unfold onKeyDown
  dsimp only
  split_ifs
  · exact .refl v
  · exact .refl v
  · exact .refl v
  · exact kept_handleEscPress v
  · exact kept_writeAfterEsc v _ nofun
  · exact kept_writeAfterEsc v _ nofun

theorem kept_sendSpecialKey (v : View) (ghosttyKey keyMods : ℕ) (text : Option JString) :
    Kept v (sendSpecialKey v ghosttyKey keyMods text) := by
  unfold sendSpecialKey
  split_ifs
  · exact .refl v
  · exact kept_handleEscPress v
  · exact kept_writeAfterEsc v _ nofun

theorem kept_sendText (v : View) (text : JString) : Kept v (sendText v text) := by
  have hreset := kept_resetModifiers v
  unfold sendText
  dsimp only
  split_ifs
  · exact .refl v
  · exact hreset.trans (kept_writeEsc _ _)
  · exact hreset.trans (kept_write _ nofun)

theorem kept_foldl {β : Type*} {f : View → β → View} (hf : ∀ v x, Kept v (f v x)) (l : List β) (v : View) :
    Kept v (l.foldl f v) := by
  induction l generalizing v with
  | nil => exact .refl v
  | cons x l ih => exact (hf v x).trans (ih (f v x))

theorem kept_commitText (v : View) (text : JString) : Kept v (commitText v text) := by
  unfold commitText
  split_ifs
  · refine kept_foldl (fun v c => ?_) text v
    have hplain : Kept v { v with isCtrlActive := false, isAltActive := false } := ⟨rfl, rfl⟩
    exact hplain.trans (kept_sendSpecialKey _ _ _ _)
  · exact kept_sendText v _

theorem kept_escTimeoutRun (v : View) : Kept v (escTimeoutRun v) := by
  unfold escTimeoutRun
  split_ifs
  · have hcancel : Kept v v.cancelEsc := ⟨rfl, rfl⟩
    exact hcancel.trans (kept_writeEsc _ none)
  · exact ⟨rfl, rfl⟩

end Inputs

section Steps

variable {v v' : View} {a : Action} {acts : List Action}

/-- A text that is pasted without a confirmation has no C1 control. -/
def NoC1 (v : View) : Action → Prop
  | .pasteText text => v.session = none ∨ requiresConfirmation text = true ∨ ∀ c ∈ text, isC1 c = false
  | _ => True

/-- Everything a step can do to pastes and confirmations. -/
theorem step_cases (h : step v a = some v') :
    Kept v v' ∧ NoC1 v a ∨
    (∃ text s, a = .pasteText text ∧ v.session = some s ∧ requiresConfirmation text = true ∧
      v' = v.showDialog s text) ∨
    (∃ text s, a = .pasteText text ∧ v.session = some s ∧ requiresConfirmation text = false ∧
      v'.dialogs = v.dialogs ∧ v'.pastes = v.pastes ++ [(s, text)]) ∨
    ∃ index dialog, (∃ paste, a = .answerPaste index paste) ∧ v.dialogs[index]? = some dialog ∧
      v'.dialogs = v.dialogs.eraseIdx index ∧
      (v'.pastes = v.pastes ∨
        a = .answerPaste index true ∧ v.session = some dialog.1 ∧ v'.pastes = v.pastes ++ [dialog]) := by
  cases a with
  | onKeyDown event promptFound => exact .inl ⟨Option.some.inj h ▸ kept_onKeyDown v event promptFound, trivial⟩
  | sendSpecialKey ghosttyKey keyMods text =>
    exact .inl ⟨Option.some.inj h ▸ kept_sendSpecialKey v ghosttyKey keyMods text, trivial⟩
  | sendRawBytes data =>
    refine .inl ⟨Option.some.inj h ▸ ?_, trivial⟩
    unfold sendRawBytes
    split_ifs
    · exact .refl v
    · exact kept_write v nofun
  | sendText text => exact .inl ⟨Option.some.inj h ▸ kept_sendText v text, trivial⟩
  | commitText text => exact .inl ⟨Option.some.inj h ▸ kept_commitText v text, trivial⟩
  | deleteSurroundingText beforeLength =>
    exact .inl ⟨Option.some.inj h ▸ kept_foldl (fun v _ => kept_sendSpecialKey v _ _ _) _ v, trivial⟩
  | setCtrlActive active => exact .inl ⟨Option.some.inj h ▸ ⟨rfl, rfl⟩, trivial⟩
  | setAltActive active => exact .inl ⟨Option.some.inj h ▸ ⟨rfl, rfl⟩, trivial⟩
  | mouse => exact .inl ⟨Option.some.inj h ▸ kept_write v nofun, trivial⟩
  | escTimeout =>
    simp only [step] at h
    split_ifs at h
    exact .inl ⟨Option.some.inj h ▸ kept_escTimeoutRun v, trivial⟩
  | attachSession newSession => exact .inl ⟨Option.some.inj h ▸ ⟨rfl, rfl⟩, trivial⟩
  | onDetachedFromWindow => exact .inl ⟨Option.some.inj h ▸ ⟨rfl, rfl⟩, trivial⟩
  | pasteText text =>
    obtain rfl := Option.some.inj h
    cases hs : v.session with
    | none =>
      rw [pasteText, hs]
      exact .inl ⟨.refl v, .inl hs⟩
    | some s =>
      rw [pasteText, hs]
      dsimp only
      split_ifs with hempty hconfirm
      · refine .inl ⟨.refl v, .inr (.inr ?_)⟩
        rw [List.isEmpty_iff.mp hempty]
        nofun
      · exact .inr (.inl ⟨text, s, rfl, rfl, hconfirm, rfl⟩)
      · refine .inr (.inr (.inl ⟨text, s, rfl, rfl, Bool.eq_false_iff.mpr hconfirm, ?_⟩))
        rw [View.write, hs]
        exact ⟨rfl, pastes_record v _⟩
  | answerPaste index paste =>
    obtain ⟨dialog, hdialog, rfl⟩ := Option.map_eq_some_iff.mp h
    refine .inr (.inr (.inr ⟨index, dialog, ⟨paste, rfl⟩, hdialog, ?_⟩))
    dsimp only
    split_ifs with hpaste
    · subst hpaste
      unfold confirmPaste
      split_ifs with htarget
      · rw [View.write, htarget]
        exact ⟨rfl, .inr ⟨rfl, rfl, pastes_record v _⟩⟩
      · exact ⟨rfl, .inl rfl⟩
    · exact ⟨rfl, .inl rfl⟩

/-- A call `pasteText(text)` among these calls, with this session attached. -/
def CalledFor (acts : List Action) (s : SessionRef) (text : JString) : Prop :=
  ∃ acts₁ acts₂ v₁, acts = acts₁ ++ .pasteText text :: acts₂ ∧ Run View.initial step anyStep acts₁ v₁ ∧
    v₁.session = some s

theorem CalledFor.snoc {s : SessionRef} {text : JString} (h : CalledFor acts s text) (a : Action) :
    CalledFor (acts ++ [a]) s text := by
  obtain ⟨acts₁, acts₂, v₁, rfl, hrun, hs⟩ := h
  exact ⟨acts₁, acts₂ ++ [a], v₁, by simp, hrun, hs⟩

/-- Every confirmation shown is for the session that was attached at the call. -/
theorem dialogs_calledFor (h : Run View.initial step anyStep acts v) :
    ∀ dialog ∈ v.dialogs, CalledFor acts dialog.1 dialog.2 := by
  induction h with
  | nil => nofun
  | @snoc acts v v' a hrun _ hs ih =>
    intro dialog hdialog
    obtain ⟨hkept, -⟩ | ⟨text, s, rfl, hsession, -, rfl⟩ | ⟨text, s, -, -, -, hsame, -⟩ | ⟨index, -, -, -, herase, -⟩ :=
      step_cases hs
    · rw [hkept.dialogs] at hdialog
      exact (ih dialog hdialog).snoc a
    · obtain hdialog | hdialog := List.mem_append.mp hdialog
      · exact (ih dialog hdialog).snoc _
      · rw [List.mem_singleton.mp hdialog]
        exact ⟨acts, [], v, rfl, hrun, hsession⟩
    · rw [hsame] at hdialog
      exact (ih dialog hdialog).snoc a
    · rw [herase] at hdialog
      exact (ih dialog (List.mem_of_mem_eraseIdx hdialog)).snoc a

/-- The step pastes to the session of the `pasteText` call only, and without a confirmation
only a harmless text. -/
def PastesOk (acts : List Action) (v : View) (a : Action) (v' : View) : Prop :=
  ∃ written, v'.pastes = v.pastes ++ written ∧ ∀ paste ∈ written,
    (a = .pasteText paste.2 ∧ v.session = some paste.1 ∧ Harmless paste.2) ∨
    (∃ index, a = .answerPaste index true ∧ v.dialogs[index]? = some paste ∧ CalledFor acts paste.1 paste.2)

theorem pastesOk_of_kept (h : v'.pastes = v.pastes) : PastesOk acts v a v' := ⟨[], by simp [h], nofun⟩

end Steps

/-- In every run, a step pastes as it should exactly when it pastes no C1 control directly. -/
theorem pastesOk_iff {acts : List Action} {v v' : View} {a : Action} (h : Run View.initial step anyStep acts v)
    (hs : step v a = some v') : PastesOk acts v a v' ↔ NoC1 v a := by
  obtain ⟨hkept, hno⟩ | ⟨text, s, rfl, hsession, hconfirm, rfl⟩ | ⟨text, s, rfl, hsession, hconfirm, -, hpastes⟩ |
    ⟨index, dialog, ⟨paste, rfl⟩, hdialog, -, hpastes⟩ := step_cases hs
  · exact iff_of_true (pastesOk_of_kept hkept.pastes) hno
  · exact iff_of_true (pastesOk_of_kept rfl) (.inr (.inl hconfirm))
  · constructor
    · rintro ⟨written, hwritten, hok⟩
      rw [hpastes] at hwritten
      obtain rfl := List.append_cancel_left hwritten
      obtain ⟨-, -, hharmless⟩ | ⟨index, hanswer, -⟩ := hok _ List.mem_cons_self
      · exact .inr (.inr ((harmless_iff hconfirm).mp hharmless))
      · cases hanswer
    · rintro (hnone | hrequires | hc1)
      · rw [hsession] at hnone
        cases hnone
      · rw [hconfirm] at hrequires
        cases hrequires
      · refine ⟨_, hpastes, fun paste hpaste => .inl ?_⟩
        rw [List.mem_singleton.mp hpaste]
        exact ⟨rfl, hsession, (harmless_iff hconfirm).mpr hc1⟩
  · refine iff_of_true ?_ trivial
    obtain hsame | ⟨hanswer, -, hpastes⟩ := hpastes
    · exact pastesOk_of_kept hsame
    · refine ⟨_, hpastes, fun paste hpaste => .inr ⟨index, hanswer, ?_⟩⟩
      rw [List.mem_singleton.mp hpaste]
      exact ⟨hdialog, dialogs_calledFor h dialog (List.mem_of_getElem? hdialog)⟩

/-- A command with a line break. The first confirmation is answered no after a switch; the
second is left open. -/
def pasteTwice : List Action :=
  [.attachSession (some 0), .pasteText ['l', 's', '\n'], .attachSession (some 1), .answerPaste 0 false,
    .attachSession (some 0), .pasteText ['l', 's', '\n']]

theorem pastesOk_command :
    ∃ v v', Run View.initial step anyStep pasteTwice v ∧ step v (.answerPaste 0 true) = some v' ∧
    v'.pastes = [(0, ['l', 's', '\n'])] ∧
    (PastesOk pasteTwice v (.answerPaste 0 true) v' ↔ NoC1 v (.answerPaste 0 true)) := by
  obtain ⟨v, v', hrun, hstep, hpastes⟩ : ∃ v v', Run View.initial step anyStep pasteTwice v ∧
      step v (.answerPaste 0 true) = some v' ∧ v'.pastes = [(0, ['l', 's', '\n'])] := exists_step_of_exec (by decide)
  exact ⟨v, v', hrun, hstep, hpastes, pastesOk_iff hrun hstep⟩

/-- CSI as one character goes through without a confirmation. -/
theorem c1_pasted_unconfirmed :
    ∃ v v', Run View.initial step anyStep [.attachSession (some 0)] v ∧
    step v (.pasteText ['\u009b', '6', 'n']) = some v' ∧
    v.pastes = [] ∧ v'.pastes = [(0, ['\u009b', '6', 'n'])] ∧ v'.dialogs = [] ∧ isControl '\u009b' = true :=
  exists_step_of_exec (by decide)

end Tinyhack.Input
