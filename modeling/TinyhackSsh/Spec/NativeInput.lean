import TinyhackSsh.Lib.ModifiedUtf8
import TinyhackSsh.Lib.PosixWrite
import TinyhackSsh.Spec.ChildEnvironment
import TinyhackSsh.Spec.TerminalInput

/-! What the native layer makes of strings and bytes from Java: the command that a session
runs, and the writes to its PTY. The session is open. -/

namespace Tinyhack.Native

open Input PosixWrite

/-- A C string: the bytes before the first zero. -/
def cString (bs : Bytes) : Bytes := bs.takeWhile (· ≠ 0)

def getStringUTFChars (s : JString) : Bytes := cString (ModifiedUtf8.encode (ModifiedUtf8.utf16 s))

/-! `nativeCreateSession`. -/

/-- The arguments of `execve`. -/
structure Execve where
  path : Bytes
  argv : List Bytes
  environ : List Bytes
  deriving DecidableEq

/-- The name in a string of the environment: all before the `=`. -/
def nameOf (entry : Bytes) : Bytes := entry.takeWhile (· ≠ 0x3d)

/-- `putenv` keeps the string itself. Without a `=` it removes the name. -/
def putenv (environ : List Bytes) (entry : Bytes) : List Bytes :=
  if 0x3d ∉ entry then environ.filter fun e => nameOf e ≠ entry
  else if environ.any fun e => nameOf e = nameOf entry then
    environ.map fun e => if nameOf e = nameOf entry then entry else e
  else environ ++ [entry]

def argvList (session : Launch.TerminalSession) : List Bytes :=
  let argv := (session.arguments.getD []).map getStringUTFChars
  if argv.isEmpty then [getStringUTFChars session.command] else argv

/-- The strings of the session and the base variables, for `putenv`. -/
def envpList (app : Launch.App) (session : Launch.TerminalSession) : List Bytes :=
  (Launch.envpList app session).map getStringUTFChars

/-- The child clears its environment, puts each string and runs the command. -/
def nativeCreateSession (app : Launch.App) (session : Launch.TerminalSession) : Execve where
  path := getStringUTFChars session.command
  argv := argvList session
  environ := (envpList app session).foldl putenv []

/-! Writes to the PTY. -/

structure GhosttyKeyEvent where
  key : ℕ
  mods : ℕ
  utf8 : Bytes
  deriving DecidableEq

/-- The functions of the Ghostty library, for the state that its terminal is in. -/
structure Library where
  /-- `ghostty_key_encoder_encode` into a large buffer, if the session has an encoder -/
  keyEncoder : Option (GhosttyKeyEvent → Option Bytes)
  /-- `ghostty_paste_encode`, given whether pastes are bracketed -/
  pasteEncode : Bytes → Bool → Bytes
  /-- the two brackets are of six bytes each -/
  length_pasteEncode : ∀ data bracketed, (pasteEncode data bracketed).length ≤ data.length + 12

/-- The control code of a single byte. -/
def controlCode (c : UInt8) : Option UInt8 :=
  if 0x40 ≤ c ∧ c ≤ 0x5f then some (c - 0x40)
  else if 0x61 ≤ c ∧ c ≤ 0x7a then some (c - 0x61 + 1)
  else if c = 0x20 then some 0
  else if c = 0x3f then some 127
  else if c = 0x2f then some 31
  else none

/-- CTRL or ALT with a single byte, past the encoder. -/
def directWrites (mods : ℕ) (utf8 : Bytes) : Option (List Bytes) :=
  match utf8 with
  | [c] =>
    let alt := mods &&& MODS_ALT ≠ 0
    let ctrl := mods &&& MODS_CTRL ≠ 0
    let code := if ctrl then controlCode c else none
    if code.isSome ∨ alt ∧ ¬ ctrl then some ((if alt then [[0x1b]] else []) ++ [[code.getD c]]) else none
  | _ => none

def textWrites (utf8 : Bytes) : List Bytes := if utf8.isEmpty then [] else [utf8]

/-- What the encoder makes of the event if it fits in the buffer, and the text otherwise. -/
def encodedWrites (lib : Library) (event : GhosttyKeyEvent) : List Bytes :=
  match lib.keyEncoder.bind fun encode => encode event with
  | some out => if out ≠ [] ∧ out.length ≤ 128 then [out] else textWrites event.utf8
  | none => textWrites event.utf8

/-- The blocks that `nativeWriteKey` writes for a key press, one call each. -/
def keyWrites (lib : Library) (ghosttyKey mods : ℕ) (text : Option JString) : List Bytes :=
  let utf8 := (text.map getStringUTFChars).getD []
  if ghosttyKey = GHOSTTY_KEY_BACKSPACE ∧ mods = 0 then [[0x7f]]
  else (directWrites mods utf8).getD (encodedWrites lib ⟨ghosttyKey, mods, utf8⟩)

abbrev Pty := Channel UInt8

def nativeWriteKey (o : Outcomes) (lib : Library) (pty : Pty) (ghosttyKey mods : ℕ) (text : Option JString) : Pty :=
  writeEach o pty (keyWrites lib ghosttyKey mods text)

/-- The part of the array that `nativeWritePty` writes, if it is one. -/
def region (data : Bytes) (offset length : ℤ) : Bytes :=
  if length ≤ 0 ∨ offset < 0 ∨ length > data.length ∨ offset > data.length - length then []
  else (data.drop offset.toNat).take length.toNat

def nativeWritePty (o : Outcomes) (pty : Pty) (data : Bytes) (offset length : ℤ) : Pty :=
  if region data offset length = [] then pty else (write o pty (region data offset length)).1

/-- `on_write_pty`, for the replies of the terminal. -/
def onWritePty (o : Outcomes) (pty : Pty) (data : Bytes) : Pty := if data = [] then pty else (write o pty data).1

/-- The loop of `nativeWritePaste`, for so many rounds: `none` if it still runs after them. -/
def writeLoop (o : Outcomes) : ℕ → Pty → Bytes → Option Pty
  | _, pty, [] => some pty
  | 0, _, _ :: _ => none
  | fuel + 1, pty, b :: data =>
    let next := (write o pty (b :: data)).1
    match (write o pty (b :: data)).2 with
    | none => writeLoop o fuel next (b :: data)
    | some count => if count = 0 then some next else writeLoop o fuel next ((b :: data).drop count)

/-- The buffer has room for twelve bytes more than the text. -/
def nativeWritePaste (o : Outcomes) (lib : Library) (fuel : ℕ) (pty : Pty) (data : Bytes) (bracketed : Bool) :
    Option Pty :=
  if data.isEmpty then some pty
  else if (lib.pasteEncode data bracketed).length ≤ data.length + 12 then
    writeLoop o fuel pty (lib.pasteEncode data bracketed)
  else some pty

end Tinyhack.Native
