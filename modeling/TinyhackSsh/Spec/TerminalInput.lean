import TinyhackSsh.Spec.Sessions
import TinyhackSsh.Spec.Notifications

/-! Input to a `TerminalView`: hardware keys, the key bar, committed text, pastes, and the
pending ESC with its timeout. All of it runs on the main looper, so each call is one step.
The view keeps a history of the ESC presses it handled and of what it wrote to sessions. -/

namespace Tinyhack.Input

open Sessions

/-! `KeyCodes` and the key codes of Android. -/

def MODS_SHIFT : ℕ := 1
def MODS_CTRL : ℕ := 2
def MODS_ALT : ℕ := 4
def MODS_SUPER : ℕ := 8

def GHOSTTY_KEY_UNIDENTIFIED : ℕ := 0
def GHOSTTY_KEY_DIGIT_0 : ℕ := 6
def GHOSTTY_KEY_A : ℕ := 20
def GHOSTTY_KEY_BACKSPACE : ℕ := 53
def GHOSTTY_KEY_ESCAPE : ℕ := 120
def GHOSTTY_KEY_F1 : ℕ := 121

def KEYCODE_HOME : ℕ := 3
def KEYCODE_BACK : ℕ := 4
def KEYCODE_DPAD_UP : ℕ := 19
def KEYCODE_DPAD_DOWN : ℕ := 20
def KEYCODE_DEL : ℕ := 67
def KEYCODE_PAGE_UP : ℕ := 92
def KEYCODE_PAGE_DOWN : ℕ := 93
def KEYCODE_ESCAPE : ℕ := 111
def KEYCODE_APP_SWITCH : ℕ := 187

def mapAndroidKeyCode (keyCode : ℕ) : ℕ :=
  if 7 ≤ keyCode ∧ keyCode ≤ 16 then GHOSTTY_KEY_DIGIT_0 + (keyCode - 7)
  else if 29 ≤ keyCode ∧ keyCode ≤ 54 then GHOSTTY_KEY_A + (keyCode - 29)
  else if 131 ≤ keyCode ∧ keyCode ≤ 142 then GHOSTTY_KEY_F1 + (keyCode - 131)
  else
    -- enter, tab, backspace, delete, escape, space, the arrows, the page keys, home, end and insert
    ([(66, 58), (61, 64), (67, 53), (112, 68), (111, 120), (62, 63), (19, 78), (20, 75), (21, 76), (22, 77), (92, 74),
      (93, 73), (122, 71), (123, 69), (124, 72)].lookup keyCode).getD GHOSTTY_KEY_UNIDENTIFIED

structure KeyEvent where
  keyCode : ℕ
  isShiftPressed : Bool
  isCtrlPressed : Bool
  isAltPressed : Bool
  isMetaPressed : Bool
  unicodeChar : ℤ
  deriving DecidableEq

/-- The text of a key: one character that is not a control character. -/
def KeyEvent.text (event : KeyEvent) : Option JString :=
  let isISOControl := event.unicodeChar ≤ 0x9F ∧ (event.unicodeChar ≥ 0x7F ∨ event.unicodeChar ≤ 0x1F)
  if event.unicodeChar > 0 ∧ event.unicodeChar < 0x10000 ∧ ¬ isISOControl then
    some [Char.ofNat event.unicodeChar.toNat]
  else none

/-! The view. -/

inductive Output
  | text (s : JString)
  | bytes (data : Bytes)
  | key (ghosttyKey mods : ℕ) (text : Option JString)
  | paste (text : JString)
  | mouse
  deriving DecidableEq

inductive Entry
  /-- an ESC press, with the attached session -/
  | press (session : SessionRef)
  /-- the ESC byte of a press -/
  | esc (session : SessionRef)
  | output (session : SessionRef) (output : Output)
  deriving DecidableEq

structure View where
  session : Option SessionRef
  isEscActive : Bool
  /-- `escTimeoutRunnable` is posted -/
  escTimeout : Bool
  isCtrlActive : Bool
  isAltActive : Bool
  /-- confirmations shown: the session at the time, and the text -/
  dialogs : List (SessionRef × JString)
  history : List Entry
  deriving DecidableEq

def View.initial : View := ⟨none, false, false, false, false, [], []⟩

def View.record (v : View) (entries : List Entry) : View := { v with history := v.history ++ entries }

/-- `session.write("\u001b")` and `session.write("\u001b" + text)` for a pending ESC. -/
def View.writeEsc (v : View) (text : Option JString) : View :=
  match v.session with
  | none => v
  | some s => v.record (.esc s :: (text.map fun t => Entry.output s (.text t)).toList)

/-- Any other write to the attached session. -/
def View.write (v : View) (output : Output) : View :=
  match v.session with
  | none => v
  | some s => v.record [.output s output]

def View.recordPress (v : View) : View :=
  match v.session with
  | none => v
  | some s => v.record [.press s]

def View.startEsc (v : View) : View := { v with isEscActive := true, escTimeout := true }

def View.cancelEsc (v : View) : View := { v with isEscActive := false, escTimeout := false }

def handleEscPress (v : View) : View :=
  if v.isEscActive then ((v.cancelEsc.writeEsc none).recordPress).startEsc else v.recordPress.startEsc

/-- `escTimeoutRunnable.run`. -/
def escTimeoutRun (v : View) : View :=
  if v.isEscActive then v.cancelEsc.writeEsc none else { v with escTimeout := false }

/-- Sticky modifiers and a pending ESC are used up by the next input. -/
def View.resetModifiers (v : View) : View :=
  let v := { v with isCtrlActive := false, isAltActive := false }
  if v.isEscActive then v.cancelEsc else v

def mods (shift ctrl alt super : Bool) : ℕ :=
  (if shift then MODS_SHIFT else 0) ||| (if ctrl then MODS_CTRL else 0) ||| (if alt then MODS_ALT else 0) |||
    (if super then MODS_SUPER else 0)

def nonEmpty (text : Option JString) : Option JString := text.filter fun t => !t.isEmpty

/-- The end of `onKeyDown` and `sendSpecialKey`: ESC and the text in one write, or ESC if it
was pending and then the key. -/
def writeAfterEsc (v : View) (text : Option JString) (output : Output) : View :=
  if v.isEscActive then
    match nonEmpty text with
    | some t => v.resetModifiers.writeEsc (some t)
    | none => (v.resetModifiers.writeEsc none).write output
  else v.resetModifiers.write output

/-- `promptFound` is what `scrollToPreviousPrompt` or `scrollToNextPrompt` returns. -/
def onKeyDown (v : View) (event : KeyEvent) (promptFound : Bool) : View :=
  let keyCode := event.keyCode
  let isPromptKey := keyCode = KEYCODE_DPAD_UP ∨ keyCode = KEYCODE_PAGE_UP ∨ keyCode = KEYCODE_DPAD_DOWN ∨
    keyCode = KEYCODE_PAGE_DOWN
  if v.session.isNone then v
  else if keyCode = KEYCODE_BACK ∨ keyCode = KEYCODE_HOME ∨ keyCode = KEYCODE_APP_SWITCH then v
  else if event.isCtrlPressed ∧ event.isShiftPressed ∧ isPromptKey ∧ promptFound then v
  else if keyCode = KEYCODE_ESCAPE then handleEscPress v
  else
    let mods := mods event.isShiftPressed (event.isCtrlPressed || v.isCtrlActive) (event.isAltPressed || v.isAltActive)
      event.isMetaPressed
    let output := if keyCode = KEYCODE_DEL ∧ mods = 0 then Output.text ['\x7f']
      else .key (mapAndroidKeyCode keyCode) mods event.text
    writeAfterEsc v event.text output

def sendSpecialKey (v : View) (ghosttyKey keyMods : ℕ) (text : Option JString) : View :=
  if v.session.isNone then v
  else if ghosttyKey = GHOSTTY_KEY_ESCAPE ∧ keyMods = 0 then handleEscPress v
  else writeAfterEsc v text (.key ghosttyKey (keyMods ||| mods false v.isCtrlActive v.isAltActive false) text)

def sendRawBytes (v : View) (data : Bytes) : View := if data.isEmpty then v else v.write (.bytes data)

/-- `Character.toLowerCase`, of the characters whose lower case is an ASCII letter. -/
def lowerChar (c : Char) : Char := if c = '\u212A' then 'k' else if c = '\u0130' then 'i' else c.toLower

def controlCharOf (c : Char) : Option ℕ :=
  if '@' ≤ c ∧ c ≤ '_' then some (c.toNat - '@'.toNat)
  else if 'a' ≤ lowerChar c ∧ lowerChar c ≤ 'z' then some ((lowerChar c).toNat - 'a'.toNat + 1)
  else if c = ' ' then some 0
  else if c = '?' then some 127
  else if c = '/' then some 31
  else none

def applyModifiers (text : JString) (ctrl alt : Bool) : JString :=
  (if alt then ['\x1b'] else []) ++
    text.map fun ch => if ctrl then ((controlCharOf ch).map Char.ofNat).getD ch else ch

def sendText (v : View) (text : JString) : View :=
  if v.session.isNone || text.isEmpty then v
  else
    let out := applyModifiers text v.isCtrlActive v.isAltActive
    if v.isEscActive then v.resetModifiers.writeEsc (some out) else v.resetModifiers.write (.text out)

def PASTE_LIMIT : ℕ := 128

def hasControlCharacters (text : JString) : Bool := text.any fun c => (c.toNat < 0x20 && c ≠ '\t') || c.toNat = 0x7f

def requiresConfirmation (text : JString) : Bool :=
  Notify.utf16Length text > PASTE_LIMIT || hasControlCharacters text

def View.showDialog (v : View) (target : SessionRef) (text : JString) : View :=
  { v with dialogs := v.dialogs ++ [(target, text)] }

def pasteText (v : View) (text : JString) : View :=
  match v.session with
  | none => v
  | some target =>
    if text.isEmpty then v
    else if requiresConfirmation text then v.showDialog target text
    else v.write (.paste text)

/-- The button of a confirmation for `target`. -/
def confirmPaste (v : View) (target : SessionRef) (text : JString) : View :=
  if v.session = some target then v.write (.paste text) else v

/-! `TerminalInputConnection`. -/

/-- The Ghostty key of a character typed with a sticky modifier. -/
def keyOfChar (c : Char) : ℕ :=
  if 'a' ≤ c ∧ c ≤ 'z' then GHOSTTY_KEY_A + (c.toNat - 'a'.toNat)
  else if 'A' ≤ c ∧ c ≤ 'Z' then GHOSTTY_KEY_A + (c.toNat - 'A'.toNat)
  else if '0' ≤ c ∧ c ≤ '9' then GHOSTTY_KEY_DIGIT_0 + (c.toNat - '0'.toNat)
  else GHOSTTY_KEY_UNIDENTIFIED

def commitChar (v : View) (c : Char) : View :=
  let keyMods := mods false v.isCtrlActive v.isAltActive false
  sendSpecialKey { v with isCtrlActive := false, isAltActive := false } (keyOfChar c) keyMods (some [c])

def commitText (v : View) (text : JString) : View :=
  if v.isCtrlActive || v.isAltActive then text.foldl commitChar v
  else sendText v (text.map fun c => if c = '\n' then '\r' else c)

def deleteSurroundingText (v : View) (beforeLength : ℕ) : View :=
  (List.range beforeLength).foldl (fun v _ => sendSpecialKey v GHOSTTY_KEY_BACKSPACE 0 (some ['\x7f'])) v

/-- The part of `attachSession` and `onDetachedFromWindow` that input depends on. -/
def attachSession (v : View) (newSession : Option SessionRef) : View := { v with session := newSession }

def onDetachedFromWindow (v : View) : View := { v with escTimeout := false }

inductive Action
  | onKeyDown (event : KeyEvent) (promptFound : Bool)
  | sendSpecialKey (ghosttyKey keyMods : ℕ) (text : Option JString)
  | sendRawBytes (data : Bytes)
  | sendText (text : JString)
  | commitText (text : JString)
  | deleteSurroundingText (beforeLength : ℕ)
  | pasteText (text : JString)
  /-- a button of a confirmation that is shown -/
  | answerPaste (index : ℕ) (paste : Bool)
  | setCtrlActive (active : Bool)
  | setAltActive (active : Bool)
  /-- a click or wheel event for a program that reads the mouse -/
  | mouse
  | escTimeout
  | attachSession (newSession : Option SessionRef)
  | onDetachedFromWindow

def step (v : View) : Action → Option View
  | .onKeyDown event promptFound => some (onKeyDown v event promptFound)
  | .sendSpecialKey ghosttyKey keyMods text => some (sendSpecialKey v ghosttyKey keyMods text)
  | .sendRawBytes data => some (sendRawBytes v data)
  | .sendText text => some (sendText v text)
  | .commitText text => some (commitText v text)
  | .deleteSurroundingText beforeLength => some (deleteSurroundingText v beforeLength)
  | .pasteText text => some (pasteText v text)
  | .answerPaste index paste =>
    v.dialogs[index]?.map fun dialog =>
      let v := { v with dialogs := v.dialogs.eraseIdx index }
      if paste then confirmPaste v dialog.1 dialog.2 else v
  | .setCtrlActive active => some { v with isCtrlActive := active }
  | .setAltActive active => some { v with isAltActive := active }
  | .mouse => some (v.write .mouse)
  | .escTimeout => if v.escTimeout then some (escTimeoutRun v) else none
  | .attachSession newSession => some (attachSession v newSession)
  | .onDetachedFromWindow => some (onDetachedFromWindow v)

end Tinyhack.Input
