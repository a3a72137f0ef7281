import TinyhackSsh.Spec.Launch
import TinyhackSsh.Spec.AgentServer
import TinyhackSsh.Lib.Base64

/-! The key files of `SshKeyManager`: importing, deleting and generating (security key) a key
in `~/.ssh`. What the file system, ssh-keygen and the Keystore do in one call is given with
the call; file modes are left out. -/

namespace Tinyhack.KeyFiles

open Wire
open Launch (trim trimOrEmpty isSpace)

def isAlphanumeric (c : Char) : Bool := ('A' ≤ c && c ≤ 'Z') || ('a' ≤ c && c ≤ 'z') || ('0' ≤ c && c ≤ '9')

/-- `[A-Za-z0-9][A-Za-z0-9._+-]*`, at most 128 characters. -/
def isSafeKeyName : JString → Bool
  | [] => false
  | c :: cs =>
    decide (cs.length < 128) && isAlphanumeric c &&
      cs.all fun c => isAlphanumeric c || c = '.' || c = '_' || c = '+' || c = '-'

/-! The directory. -/

inductive Node
  | file (content : Bytes)
  | directory
  deriving DecidableEq

abbrev Dir := JString → Option Node

/-- How writing a file ends. -/
inductive Write
  /-- it cannot be opened -/
  | refused
  /-- an exception after this many bytes -/
  | failed (written : ℕ)
  | done
  deriving DecidableEq

/-- What an opened file holds afterwards. -/
def Write.leaves (content : Bytes) : Write → Option Bytes
  | .refused => none
  | .failed written => some (content.take written)
  | .done => some content

/-- `new FileOutputStream(file)` and the writes; `false` is an exception. -/
def write (dir : Dir) (name : JString) (content : Bytes) (w : Write) : Dir × Bool :=
  if dir name = some .directory then (dir, false)
  else
    match w.leaves content with
    | none => (dir, false)
    | some bytes => (Function.update dir name (some (.file bytes)), w = .done)

/-- `File.delete`; an empty directory is deleted, too. -/
def delete (dir : Dir) (name : JString) (deletes : Bool) : Dir :=
  if deletes then Function.update dir name none else dir

def pubName (name : JString) : JString := name ++ ".pub".toList

/-- A key as one line. -/
def keyLine (text : JString) : Bytes := encodeUtf8 text ++ [0x0a]

/-! `importKey`. -/

/-- `ssh-keygen -y`: it cannot be run or read, or exits after printing lines. -/
inductive Keygen
  | throws
  | exits (status : ℤ) (lines : List JString)

structure ImportIo where
  writePriv : Write
  keygen : Keygen
  writePub : Write
  /-- `privFile.delete()` -/
  deletes : Bool

def derivedText (lines : List JString) : JString := trim (lines.flatMap (· ++ ['\n']))

/-- `none` is the exception when the derived key has one part only. -/
def matchesDerived (provided derived : JString) : Option Bool :=
  let derivedParts := Words.words isSpace derived
  match Words.words isSpace provided with
  | type :: blob :: _ => if derivedParts[0]? = some type then derivedParts[1]?.map (· = blob) else some false
  | _ => some false

/-- The end of a failed import. -/
def removePriv (dir : Dir) (name : JString) (io : ImportIo) : Dir × Bool := (delete dir name io.deletes, false)

def writePub (dir : Dir) (name : JString) (io : ImportIo) (text : JString) : Dir × Bool :=
  let (dir, written) := write dir (pubName name) (keyLine text) io.writePub
  if written then (dir, true) else removePriv dir name io

def importKey (dir : Dir) (name : JString) (privateKeyContent publicKeyContent : Option JString) (io : ImportIo) :
    Dir × Bool :=
  if !isSafeKeyName name then (dir, false)
  else if (trimOrEmpty privateKeyContent).isEmpty then (dir, false)
  else
    let (dir, written) := write dir name (keyLine (trimOrEmpty privateKeyContent)) io.writePriv
    if !written then removePriv dir name io
    else
      match io.keygen with
      | .throws => removePriv dir name io
      | .exits status lines =>
        if status ≠ 0 ∨ (derivedText lines).isEmpty then removePriv dir name io
        else if (trimOrEmpty publicKeyContent).isEmpty then writePub dir name io (derivedText lines)
        else if matchesDerived (trimOrEmpty publicKeyContent) (derivedText lines) = some true then
          writePub dir name io (trimOrEmpty publicKeyContent)
        else removePriv dir name io

/-! `deleteKey`. -/

def SK_MARKER : JString := "GHOSTTY_ANDROID_SK_V1".toList
def SK_ALIAS_PREFIX : JString := "ghostty.ssh.sk.".toList
def SK_APPLICATION : JString := "ssh:".toList

/-- The lines that `BufferedReader.readLine` returns, each with a line feed after it. -/
def readLines : JString → JString → JString
  | line, [] => if line.isEmpty then [] else line ++ ['\n']
  | line, '\r' :: '\n' :: cs => line ++ '\n' :: readLines [] cs
  | line, c :: cs => if c = '\n' ∨ c = '\r' then line ++ '\n' :: readLines [] cs else readLines (line ++ [c]) cs

/-- `readFile`; a file that cannot be read counts as empty. -/
def readFile (dir : Dir) (name : JString) : JString :=
  match dir name with
  | some (.file content) => readLines [] (decodeUtf8 content)
  | _ => []

/-- The regular expression `\R`, after `readFile`. -/
def isLineBreak (c : Char) : Bool :=
  c = '\n' || c = '\x0B' || c = '\x0C' || c = '\u0085' || c = '\u2028' || c = '\u2029'

/-- `Base64.getDecoder().decode` does not throw. -/
def isBase64 (s : JString) : Bool := (s.all fun c => Base64.digit c ≠ .skip) && (Base64.decode s).isSome

/-- The Keystore alias that `readAndroidSecurityKey` finds. -/
def readAndroidSecurityKey (dir : Dir) (name : JString) : Option JString :=
  match (readFile dir name).splitOnP isLineBreak with
  | marker :: keyAlias :: application :: _ =>
    if marker = SK_MARKER ∧ SK_ALIAS_PREFIX.isPrefixOf keyAlias ∧ application ≠ [] ∧ dir (pubName name) ≠ none then
      match Words.words isSpace (trim (readFile dir (pubName name))) with
      | type :: blob :: _ => if type = Agent.SK_ECDSA_TYPE ∧ isBase64 blob then some keyAlias else none
      | _ => none
    else none
  | _ => none

structure DeleteIo where
  /-- the Keystore entry is deleted without an exception -/
  keystore : Bool
  deletesPriv : Bool
  deletesPub : Bool

/-- `if (file.exists()) ok = file.delete() && ok`. -/
def deleteIfExists (dir : Dir) (name : JString) (deletes ok : Bool) : Dir × Bool :=
  if dir name = none then (dir, ok) else (delete dir name deletes, deletes && ok)

def deleteKey (dir : Dir) (name : JString) (io : DeleteIo) : Dir × Bool :=
  if !isSafeKeyName name then (dir, false)
  else
    let ok := (readAndroidSecurityKey dir name).isNone || io.keystore
    let (dir, ok) := deleteIfExists dir name io.deletesPriv ok
    deleteIfExists dir (pubName name) io.deletesPub ok

/-! `generateSecurityKeyPair`. -/

/-- The last 32 bytes, with zeros before a shorter number. -/
def copyUnsigned32 (source : Bytes) : Bytes :=
  List.replicate (32 - source.length) 0 ++ source.drop (source.length - 32)

def buildSkPublicBlob (x y : ℤ) (application : JString) : Bytes :=
  writeString (encodeUtf8 Agent.SK_ECDSA_TYPE) ++ writeString (encodeUtf8 "nistp256".toList) ++
    writeString (0x04 :: copyUnsigned32 (toByteArray x) ++ copyUnsigned32 (toByteArray y)) ++
    writeString (encodeUtf8 application)

structure GenerateIo where
  /-- the new key's point, unless `generateAndroidSkKey` throws -/
  point : Option (ℤ × ℤ)
  writeMetadata : Write
  writePublic : Write
  /-- neither `chmod` throws -/
  chmod : Bool
  deletesMetadata : Bool
  deletesPublic : Bool

def publicLine (x y : ℤ) (comment : Option JString) : JString :=
  Agent.SK_ECDSA_TYPE ++ ' ' :: Base64.encode (buildSkPublicBlob x y SK_APPLICATION) ++ ' ' ::
    (if (trimOrEmpty comment).isEmpty then "ghostty-sk@android".toList else trimOrEmpty comment) ++ ['\n']

def metadata (name : JString) : JString :=
  SK_MARKER ++ '\n' :: SK_ALIAS_PREFIX ++ name ++ '\n' :: SK_APPLICATION ++ ['\n']

/-- The `catch` of `generateSecurityKeyPair`. -/
def removeBoth (dir : Dir) (name : JString) (io : GenerateIo) : Dir × Bool :=
  (delete (delete dir name io.deletesMetadata) (pubName name) io.deletesPublic, false)

def generateSecurityKeyPair (dir : Dir) (name : JString) (comment : Option JString) (io : GenerateIo) : Dir × Bool :=
  if !isSafeKeyName name then (dir, false)
  else if dir name ≠ none ∨ dir (pubName name) ≠ none then (dir, false)
  else
    match io.point with
    | none => removeBoth dir name io
    | some (x, y) =>
      let (dir, written) := write dir name (encodeUtf8 (metadata name)) io.writeMetadata
      if !written then removeBoth dir name io
      else
        let (dir, written) := write dir (pubName name) (encodeUtf8 (publicLine x y comment)) io.writePublic
        if !written || !io.chmod then removeBoth dir name io else (dir, true)

end Tinyhack.KeyFiles
