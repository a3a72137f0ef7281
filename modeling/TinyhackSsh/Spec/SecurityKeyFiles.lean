import TinyhackSsh.Spec.KeyFiles
import TinyhackSsh.Spec.SecurityKeySignature

/-! All that `readAndroidSecurityKey` reads from the two files of a key, and the public key
blob as a reader of SSH wire data takes it apart. -/

namespace Tinyhack.KeyFiles

open Wire
open Launch (trim isSpace)

/-- `split("\\s+", 3)` of a text that does not start with white space. -/
def splitThree (text : JString) : List JString :=
  let first := text.takeWhile fun c => !isSpace c
  let rest := text.dropWhile fun c => !isSpace c
  if rest = [] then [first]
  else
    let rest := rest.dropWhile isSpace
    let second := rest.takeWhile fun c => !isSpace c
    let rest := rest.dropWhile fun c => !isSpace c
    if rest = [] then [first, second] else [first, second, rest.dropWhile isSpace]

/-- `Base64.getDecoder().decode`; `none` is the exception. -/
def decodeBase64 (s : JString) : Option Bytes := if isBase64 s then Base64.decode s else none

structure AndroidSecurityKey where
  keyAlias : JString
  application : JString
  publicBlob : Bytes
  comment : JString
  deriving DecidableEq

/-- What the public file says: the blob and the comment. -/
def readPublicFile (dir : Dir) (name : JString) : Option (Bytes × JString) :=
  match splitThree (trim (readFile dir (pubName name))) with
  | type :: blob :: rest =>
    if type = Agent.SK_ECDSA_TYPE then (decodeBase64 blob).map fun bytes => (bytes, rest.headD name) else none
  | _ => none

/-- The whole answer of `readAndroidSecurityKey`. -/
def readSecurityKey (dir : Dir) (name : JString) : Option AndroidSecurityKey :=
  match (readFile dir name).splitOnP isLineBreak with
  | marker :: keyAlias :: application :: _ =>
    if marker = SK_MARKER ∧ SK_ALIAS_PREFIX.isPrefixOf keyAlias ∧ application ≠ [] ∧ dir (pubName name) ≠ none then
      (readPublicFile dir name).map fun p => ⟨keyAlias, application, p.1, p.2⟩
    else none
  | _ => none

/-- The fields of an `sk-ecdsa-sha2-nistp256@openssh.com` public key. -/
structure SkPublicKey where
  keyType : Bytes
  curve : Bytes
  point : Bytes
  application : Bytes
  deriving DecidableEq

/-- Four SSH strings, and nothing after them. -/
def parseSkPublicKey (blob : Bytes) : Option SkPublicKey := do
  let (keyType, bs) ← SecurityKey.getString blob
  let (curve, bs) ← SecurityKey.getString bs
  let (point, bs) ← SecurityKey.getString bs
  let (application, bs) ← SecurityKey.getString bs
  if bs = [] then some ⟨keyType, curve, point, application⟩ else none

/-- The comment that `generateSecurityKeyPair` writes. -/
def keyComment (comment : Option JString) : JString :=
  if (Launch.trimOrEmpty comment).isEmpty then "ghostty-sk@android".toList else Launch.trimOrEmpty comment

end Tinyhack.KeyFiles
