import TinyhackSsh.Spec.NativeInput
import TinyhackSsh.Spec.Prompts

/-! The strings that the native layer makes for Java from bytes of the library. The
session is open and has a callback. -/

namespace Tinyhack.Native

open Prompts

/-- `NewStringUTF` reads a C string. It is defined on modified UTF-8 only. -/
def newStringUTF (bytes : Bytes) : Option (List UInt16) := ModifiedUtf8.decode (cString bytes)

/-! The bytes that each function passes to `NewStringUTF`, if it calls it. What the library
returns is given, with `none` for a failed call. -/

def onTitleChanged (title : Bytes) : Option Bytes := some title

def onClipboardWrite (contents : List Bytes) : Option Bytes := contents.head?

/-- `nativeFormatTerminal`. -/
def formatTerminal (text : Option Bytes) : Option Bytes := some (text.getD [])

/-- `nativeGetSelectionText`. The way over a byte array is for a null result only. -/
def getSelectionText (text : Option Bytes) : Option Bytes := some (text.getD [])

/-- `nativeGetHyperlinkUri`. -/
def getHyperlinkUri (uri : Option Bytes) : Option Bytes := uri.filter fun url => url ≠ []

/-- What the library returns to these functions. -/
structure TerminalData where
  title : Bytes
  /-- of an `OSC 52` request -/
  contents : List Bytes
  formatted : Option Bytes
  selection : Option Bytes
  hyperlink : Option Bytes
  screen : Screen
  /-- rows of the screen, formatted as a selection -/
  format : List Row → Bytes

inductive CallSite
  | title
  | clipboard
  | formatted
  | selection
  | hyperlink
  | lastCommandOutput
  deriving DecidableEq

def passed (t : TerminalData) : CallSite → Option Bytes
  | .title => onTitleChanged t.title
  | .clipboard => onClipboardWrite t.contents
  | .formatted => formatTerminal t.formatted
  | .selection => getSelectionText t.selection
  | .hyperlink => getHyperlinkUri t.hyperlink
  | .lastCommandOutput => some (nativeGetLastCommandOutput t.format t.screen)

end Tinyhack.Native
